import AgentWorx.Verify.Requests
import AgentWorx.Verify.Sample
import AgentWorx.Verify.Writer

/-!
# The knowledge graph

What a graph asserts is a set of triples: the labels and the relation of every edge with enough
confidence. An answer adds triples among its own relations to it, each of which has been checked
against the graph as it was before, but not against the others. So the graph stays free of
contradictions as long as no answer contradicts itself.
-/

namespace AgentWorx

open Coop Coop.Sync

/-! ## Assertions -/

section Assertions

variable {σ ρ : Type}

/-- No two different relations are asserted of the same pair. -/
def Consistent (A : Set (σ × ρ × σ)) : Prop :=
  ∀ s r r' t, (s, r, t) ∈ A → (s, r', t) ∈ A → r = r'

/-- No assertion of `B` contradicts one of `A`. -/
def Agrees (A B : Set (σ × ρ × σ)) : Prop :=
  ∀ s r r' t, (s, r, t) ∈ A → (s, r', t) ∈ B → r = r'

theorem Consistent.mono {A B : Set (σ × ρ × σ)} (h : Consistent B) (hAB : A ⊆ B) : Consistent A :=
  fun s r r' t hr hr' => h s r r' t (hAB hr) (hAB hr')

theorem Consistent.union {A B : Set (σ × ρ × σ)} (hA : Consistent A) (hB : Consistent B)
    (hAB : Agrees A B) : Consistent (A ∪ B) := by
  rintro s r r' t (hr | hr) (hr' | hr')
  · exact hA s r r' t hr hr'
  · exact hAB s r r' t hr hr'
  · exact (hAB s r' r t hr' hr).symm
  · exact hB s r r' t hr hr'

end Assertions

namespace Graph

/-- The ids of the concepts with their labels. -/
def names (g : Graph) : List (String × String) := g.concepts.map fun c => (c.id, c.label)

/-- Ids are unique, and edges run between concepts. -/
structure WellFormed (g : Graph) : Prop where
  ids : (g.names.map (·.1)).Nodup
  ends : ∀ r ∈ g.relatesTo, r.source ∈ g.names.map (·.1) ∧ r.target ∈ g.names.map (·.1)

/-- What the graph asserts: the edges with a confidence above one half, by the labels of their ends.
-/
def asserts (g : Graph) : Set (String × String × String) :=
  fun (s, relation, t) => ∃ r ∈ g.relatesTo, r.relation = relation ∧
    minWriteConfidence < r.confidence ∧ (r.source, s) ∈ g.names ∧ (r.target, t) ∈ g.names

variable {g : Graph}

theorem mem_names {id label : String} :
    (id, label) ∈ g.names ↔ ∃ c ∈ g.concepts, c.id = id ∧ c.label = label := by
  simp [names]

/-- An id has one label. -/
theorem WellFormed.label_unique (h : g.WellFormed) {id s s' : String} (hs : (id, s) ∈ g.names)
    (hs' : (id, s') ∈ g.names) : s = s' :=
  congrArg Prod.snd (List.inj_on_of_nodup_map h.ids hs hs' rfl)

/-- New names do not break a graph, as long as their ids are new. -/
theorem WellFormed.grow {g' : Graph} (h : g.WellFormed) (hids : (g'.names.map (·.1)).Nodup)
    (hnames : g.names ⊆ g'.names) (hedges : g'.relatesTo = g.relatesTo) : g'.WellFormed := by
  refine ⟨hids, fun r hr => ?_⟩
  obtain ⟨hsource, htarget⟩ := h.ends r (hedges ▸ hr)
  exact ⟨List.map_subset _ hnames hsource, List.map_subset _ hnames htarget⟩

theorem WellFormed.ids_concat (h : g.WellFormed) {id : String} (label : String)
    (hid : id ∉ g.names.map (·.1)) : ((g.names ++ [(id, label)]).map (·.1)).Nodup := by
  rw [List.map_append]
  exact h.ids.append (List.nodup_singleton _) (by simpa using hid)

theorem names_addConcept (g : Graph) (concept : Concept) :
    names { g with concepts := g.concepts ++ [concept] } =
      g.names ++ [(concept.id, concept.label)] := by
  simp [names]

/-- A new confidence does not change the names. -/
theorem names_setConfidence (g : Graph) (id : String) (confidence : ℚ) :
    names { g with
      concepts := g.concepts.map fun c => if c.id = id then { c with confidence } else c } =
      g.names := by
  simp only [names, List.map_map]
  refine List.map_congr_left fun c _ => ?_
  simp only [Function.comp_apply]
  split_ifs <;> rfl

theorem WellFormed.concept? (h : g.WellFormed) {c : Concept} (hc : c ∈ g.concepts) :
    g.concept? c.id = some c := by
  cases hfind : g.concept? c.id with
  | none =>
    have := List.find?_eq_none.mp hfind c hc
    simp at this
  | some c' =>
    have hids : (g.concepts.map (·.id)).Nodup := by
      simpa [names, Function.comp_def] using h.ids
    have hid : c'.id = c.id := by simpa using List.find?_some hfind
    rw [List.inj_on_of_nodup_map hids (List.mem_of_find?_eq_some hfind) hc hid]

/-- Every assertion is a row of the graph. -/
theorem WellFormed.exists_row (h : g.WellFormed) {s relation t : String}
    (hg : (s, relation, t) ∈ g.asserts) :
    ∃ a r b, (a, r, b) ∈ g.relatesToRows ∧ a.label = s ∧ b.label = t ∧ r.relation = relation ∧
      minWriteConfidence < r.confidence := by
  obtain ⟨r, hr, hrelation, hconfidence, hs, ht⟩ := hg
  obtain ⟨a, ha, haid, hs⟩ := mem_names.mp hs
  obtain ⟨b, hb, hbid, ht⟩ := mem_names.mp ht
  refine ⟨a, r, b, ?_, hs, ht, hrelation, hconfidence⟩
  exact mem_relatesToRows.mpr ⟨hr, haid ▸ h.concept? ha, hbid ▸ h.concept? hb⟩

theorem row_asserts {a b : Concept} {r : RelatesTo} (h : (a, r, b) ∈ g.relatesToRows)
    (hconfidence : minWriteConfidence < r.confidence) :
    (a.label, r.relation, b.label) ∈ g.asserts := by
  obtain ⟨hr, ha, hb⟩ := mem_relatesToRows.mp h
  refine ⟨r, hr, rfl, hconfidence, mem_names.mpr ⟨a, List.mem_of_find?_eq_some ha, ?_, rfl⟩,
    mem_names.mpr ⟨b, List.mem_of_find?_eq_some hb, ?_, rfl⟩⟩
  · simpa using List.find?_some ha
  · simpa using List.find?_some hb

/-- No two edges with a confidence above one half and different relations join the same labels. -/
def ContradictionFree (g : Graph) : Prop :=
  ∀ a r b a' r' b', (a, r, b) ∈ g.relatesToRows → (a', r', b') ∈ g.relatesToRows →
    a.label = a'.label → b.label = b'.label → r.relation ≠ r'.relation →
    ¬ (minWriteConfidence < r.confidence ∧ minWriteConfidence < r'.confidence)

theorem contradictionFree_of_consistent (h : Consistent g.asserts) : g.ContradictionFree := by
  intro a r b a' r' b' hr hr' hs ht hne ⟨hc, hc'⟩
  have hr := row_asserts hr hc
  rw [hs, ht] at hr
  exact hne (h _ _ _ _ hr (row_asserts hr' hc'))

end Graph

/-! ## What an answer adds -/

/-- A well-formed graph with labels in `L` that asserts nothing outside `H`. -/
structure Learned (L : Set String) (H : Set (String × String × String)) (g : Graph) : Prop where
  wellFormed : g.WellFormed
  labels : ∀ x ∈ g.names, x.2 ∈ L
  asserts : g.asserts ⊆ H

namespace Learned

variable {L : Set String} {H : Set (String × String × String)} {g g' : Graph}

theorem congr (h : Learned L H g) (hnames : g'.names = g.names)
    (hedges : g'.relatesTo = g.relatesTo) : Learned L H g' where
  wellFormed := h.wellFormed.grow (hnames ▸ h.wellFormed.ids) (hnames ▸ List.Subset.refl _) hedges
  labels := by rw [hnames]; exact h.labels
  asserts := fun ⟨s, relation, t⟩ ha => h.asserts (by
    obtain ⟨r, hr, hrelation, hconfidence, hs, ht⟩ := ha
    rw [hnames] at hs ht
    exact ⟨r, hedges ▸ hr, hrelation, hconfidence, hs, ht⟩)

/-- A new concept has no edges. -/
theorem addConcept (h : Learned L H g) {concept : Concept} (hlabel : concept.label ∈ L)
    (hid : ∀ c ∈ g.concepts, c.id ≠ concept.id) :
    Learned L H { g with concepts := g.concepts ++ [concept] } := by
  have hnames := g.names_addConcept concept
  have hfresh : concept.id ∉ g.names.map (·.1) := by
    simpa [Graph.names] using hid
  have hwf : Graph.WellFormed { g with concepts := g.concepts ++ [concept] } :=
    h.wellFormed.grow (hnames ▸ h.wellFormed.ids_concat _ hfresh)
      (hnames ▸ List.subset_append_left _ _) rfl
  refine ⟨hwf, ?_, ?_⟩
  · intro x hx
    rw [hnames] at hx
    rcases List.mem_append.mp hx with hx | hx
    · exact h.labels x hx
    · obtain rfl := List.mem_singleton.mp hx
      exact hlabel
  · rintro ⟨s, relation, t⟩ ⟨r, hr, hrelation, hconfidence, hs, ht⟩
    have hold {id label : String} (hmem : id ∈ g.names.map (·.1))
        (hx : (id, label) ∈ g.names ++ [(concept.id, concept.label)]) : (id, label) ∈ g.names := by
      rcases List.mem_append.mp hx with hx | hx
      · exact hx
      · cases List.mem_singleton.mp hx
        exact absurd hmem hfresh
    rw [hnames] at hs ht
    exact h.asserts ⟨r, hr, hrelation, hconfidence, hold (h.wellFormed.ends r hr).1 hs,
      hold (h.wellFormed.ends r hr).2 ht⟩

/-- Edges that are new or changed assert only the relation between the two concepts. -/
theorem setEdges (h : Learned L H g) {sourceId targetId source relation target : String}
    (hsource : (sourceId, source) ∈ g.names) (htarget : (targetId, target) ∈ g.names)
    (hH : (source, relation, target) ∈ H) {edges : List RelatesTo}
    (hedges : ∀ r ∈ edges, r ∈ g.relatesTo ∨
      (r.source = sourceId ∧ r.target = targetId ∧ r.relation = relation)) :
    Learned L H { g with relatesTo := edges } := by
  refine ⟨⟨h.wellFormed.ids, fun r hr => ?_⟩, h.labels, ?_⟩
  · rcases hedges r hr with hr | ⟨rfl, rfl, -⟩
    · exact h.wellFormed.ends r hr
    · exact ⟨List.mem_map_of_mem hsource, List.mem_map_of_mem htarget⟩
  · rintro ⟨s, relation', t⟩ ⟨r, hr, hrelation, hconfidence, hs, ht⟩
    rcases hedges r hr with hr | ⟨rfl, rfl, rfl⟩
    · exact h.asserts ⟨r, hr, hrelation, hconfidence, hs, ht⟩
    · cases hrelation
      rw [h.wellFormed.label_unique hs hsource, h.wellFormed.label_unique ht htarget]
      exact hH

end Learned

/-! ## The writer -/

variable {name : String} {w : World} {L : Set String} {H : Set (String × String × String)}

/-- The ids that the cache of labels holds. -/
def Known (labelToId : Dict) (g : Graph) : Prop :=
  ∀ label id, labelToId.lookup label = some id → (id, label) ∈ g.names

theorem findOrCreateConcept_triple {entity : ExtractedEntity} {now : Datetime}
    {summary : WriteSummary} (hw : Learned L H (w.graphs name)) (hlabel : entity.label ∈ L) :
    Triple (findOrCreateConcept name entity now summary) w
      (fun r w' => Learned L H (w'.graphs name) ∧ (w.graphs name).names ⊆ (w'.graphs name).names ∧
        (r.1, entity.label) ∈ (w'.graphs name).names)
      fun _ w' => Learned L H (w'.graphs name) := by
  set g := w.graphs name
  have hidle {w1 : World} (h : Idle w w1) : w1.graphs name = g := by rw [h.graphs]
  refine findOrCreateConcept_rule rfl (fun _ _ h _ => hidle h ▸ hw) (fun c w1 h hfound _ => ?_)
    (fun c w1 _ hfound _ => ?_) fun u w1 _ _ hnew => ?_
  · obtain ⟨hc, hclabel⟩ := Keyed.mem_of_lookup hfound
    rw [hidle h]
    exact ⟨hw, fun _ h => h, Graph.mem_names.mpr ⟨c, hc, rfl, hclabel⟩⟩
  · obtain ⟨hc, hclabel⟩ := Keyed.mem_of_lookup hfound
    have hnames := g.names_setConfidence c.id entity.confidence.val
    rw [World.setGraph_graphs, Function.update_self]
    exact ⟨hw.congr hnames rfl, hnames ▸ fun _ h => h,
      hnames ▸ Graph.mem_names.mpr ⟨c, hc, rfl, hclabel⟩⟩
  · rw [World.setGraph_graphs, Function.update_self]
    have hnames := g.names_addConcept
      ⟨s!"concept-{u.hexPrefix 12}", entity.label, "task", entity.confidence.val, now⟩
    refine ⟨hw.addConcept hlabel (by simpa using hnew), fun p hp => ?_, ?_⟩
    · exact hnames ▸ List.mem_append_left _ hp
    · exact hnames ▸ List.mem_append_right _ (List.mem_singleton_self _)

theorem writeEntities_triple {now : Datetime} {entities : List ExtractedEntity} {labelToId : Dict}
    {summary : WriteSummary} (hw : Learned L H (w.graphs name))
    (hknown : Known labelToId (w.graphs name))
    (hlabels : ∀ entity ∈ entities, entity.label ∈ L) :
    Triple (writeEntities name now entities (labelToId, summary)) w
      (fun r w' => Learned L H (w'.graphs name) ∧ Known r.1 (w'.graphs name))
      fun _ w' => Learned L H (w'.graphs name) := by
  induction entities generalizing labelToId summary w with
  | nil => exact .pure ⟨hw, hknown⟩
  | cons entity entities ih =>
    refine .bind (findOrCreateConcept_triple hw (hlabels entity (by simp)))
      fun r w1 ⟨hw, hnames, hid⟩ => ih hw (fun label id h => ?_)
        fun e he => hlabels e (by simp [he])
    by_cases hlabel : label = entity.label
    · subst hlabel
      rw [AList.lookup_insert] at h
      cases h
      exact hid
    · rw [AList.lookup_insert_ne hlabel] at h
      exact hnames (hknown label id h)

/-- A relation is only written between concepts with its labels. -/
theorem upsertRelation_triple {relation : ExtractedRelation} {confidence : ℚ} {labelToId : Dict}
    {summary : WriteSummary} (hw : Learned L H (w.graphs name))
    (hknown : Known labelToId (w.graphs name))
    (hH : relation.source ∈ L → relation.target ∈ L →
      (relation.source, relation.relationType, relation.target) ∈ H) :
    Triple (upsertRelation name relation confidence labelToId summary) w
      (fun _ w' => Learned L H (w'.graphs name) ∧ Known labelToId (w'.graphs name))
      fun _ w' => Learned L H (w'.graphs name) := by
  have hidle {w1 : World} (h : Idle w w1) : w1.graphs name = w.graphs name := by rw [h.graphs]
  -- the ids that are found belong to the labels of the relation
  have hnamed {label id : String} (h : (w.graphs name).lookupId labelToId label = some id) :
      (id, label) ∈ (w.graphs name).names := by
    rcases Graph.lookupId_eq_some h with hcached | ⟨c, hfound, rfl⟩
    · exact hknown label id hcached
    · obtain ⟨hc, hlabel⟩ := Keyed.mem_of_lookup hfound
      exact Graph.mem_names.mpr ⟨c, hc, rfl, hlabel⟩
  have hwrite {sourceId targetId : String} {w1 : World} {edges : List RelatesTo}
      (hsource : (w.graphs name).lookupId labelToId relation.source = some sourceId)
      (htarget : (w.graphs name).lookupId labelToId relation.target = some targetId)
      (hedges : ∀ r ∈ edges, r ∈ (w.graphs name).relatesTo ∨
        (r.source = sourceId ∧ r.target = targetId ∧ r.relation = relation.relationType)) :
      Learned L H ((w1.setGraph name { w.graphs name with relatesTo := edges }).graphs name) ∧
        Known labelToId ((w1.setGraph name { w.graphs name with relatesTo := edges }).graphs
          name) := by
    rw [World.setGraph_graphs, Function.update_self]
    have hs := hnamed hsource
    have ht := hnamed htarget
    exact ⟨hw.setEdges hs ht (hH (hw.labels _ hs) (hw.labels _ ht)) hedges, hknown⟩
  refine upsertRelation_rule rfl (fun _ _ h _ => hidle h ▸ hw)
    (fun w1 h _ => ⟨hidle h ▸ hw, hidle h ▸ hknown⟩)
    (fun sourceId targetId old w1 _ hsource htarget _ => hwrite hsource htarget fun r hr => ?_)
    fun sourceId targetId w1 _ hsource htarget _ => hwrite hsource htarget fun r hr => ?_
  · obtain ⟨r', hr', rfl⟩ := List.mem_map.mp hr
    split_ifs with hmatch
    · exact .inr hmatch
    · exact .inl hr'
  · refine (List.mem_append.mp hr).imp_right fun hr => ?_
    simp only [List.mem_flatMap, List.mem_map, List.mem_filter, decide_eq_true_eq] at hr
    obtain ⟨a, ⟨-, rfl⟩, b, ⟨-, rfl⟩, rfl⟩ := hr
    exact ⟨rfl, rfl, rfl⟩

theorem writeToGraph_triple {result : AnswerProcessorResult} (hw : Learned L H (w.graphs name))
    (hlabels : ∀ entity ∈ result.entities, entity.label ∈ L)
    (hH : ∀ relation ∈ result.relations, relation.source ∈ L → relation.target ∈ L →
      (relation.source, relation.relationType, relation.target) ∈ H) :
    Triple (writeToGraph name result false) w (fun _ w' => Learned L H (w'.graphs name))
      fun _ w' => Learned L H (w'.graphs name) := by
  have hrelations (labelToId : Dict) (relations : List ExtractedRelation)
      (hsub : ∀ relation ∈ relations, relation ∈ result.relations) (summary : WriteSummary)
      (w : World) (hw : Learned L H (w.graphs name)) (hknown : Known labelToId (w.graphs name)) :
      Triple (writeRelations name false labelToId relations summary) w
        (fun _ w' => Learned L H (w'.graphs name)) fun _ w' => Learned L H (w'.graphs name) := by
    induction relations generalizing summary w with
    | nil => exact .pure hw
    | cons relation relations ih =>
      refine .bind (upsertRelation_triple hw hknown (hH relation (hsub relation (by simp))))
        fun summary w1 ⟨hw, hknown⟩ => ih (fun r hr => hsub r (by simp [hr])) summary w1 hw hknown
  unfold writeToGraph
  split
  · exact .throw hw
  · refine .bind (datetimeNow_triple (Q := fun _ w1 => Learned L H (w1.graphs name)) hw)
      fun now w1 hw => ?_
    refine .bind (writeEntities_triple hw (fun _ _ h => by simp at h) hlabels) ?_
    rintro acc w2 ⟨hw, hknown⟩
    exact hrelations acc.1 _ (fun _ h => h) acc.2 w2 hw hknown

/-! ## The check -/

/-- No relation of the answer contradicts the graph. -/
def Graph.Admits (g : Graph) (relations : List ExtractedRelation) : Prop :=
  ∀ relation ∈ relations, ∀ other, (relation.source, other, relation.target) ∈ g.asserts →
    other = relation.relationType

/-- A check that finds no conflict is right about every relation. -/
theorem checkContradictions_triple {relations : List ExtractedRelation}
    (hw : (w.graphs name).WellFormed) :
    Triple (checkContradictions name relations) w
      (fun r _ => r = none → (w.graphs name).Admits relations) fun _ _ => True := by
  induction relations generalizing w with
  | nil => exact .pure fun _ _ h => by cases h
  | cons relation relations ih =>
    refine .bind (query_triple (I := fun _ => True) trivial) fun rows w1 ⟨hrows, hg⟩ => ?_
    rw [← hg] at hw hrows ⊢
    cases hconflict : findConflict relation rows with
    | some row =>
      exact .bind (liftExcept_triple fun _ => trivial) fun _ _ _ => .pure fun h => by cases h
    | none =>
      refine .mono (ih hw) (fun r _ h hr relation' hrelation' other hother => ?_) fun _ _ h => h
      rcases List.mem_cons.mp hrelation' with rfl | hrelation'
      · obtain ⟨a, e, b, hrow, hs, ht, rfl, hconfidence⟩ := hw.exists_row hother
        by_contra hne
        have := List.find?_eq_none.mp hconflict ⟨a.label, b.label, e.relation, e.confidence⟩ (by
          rw [hrows]
          exact List.mem_map.mpr ⟨(a, e, b), by simp [hrow, hs, hne], rfl⟩)
        simp [ht, hconfidence] at this
      · exact h hr relation' hrelation' other hother

/-- An answer that is handed to the writer is what the model has extracted, and has been checked. -/
theorem processAnswer_triple {payload : AnswerProcessorInput}
    (hw : (w.graphs payload.agentTypeId).WellFormed) :
    Triple (processAnswer payload) w
      (fun result _ => result.status = .write →
        ∃ extraction, ((extract payload).exec w).1 = .ok extraction ∧
          extraction.isAmbiguous = .ok false ∧ extraction.entities = .ok result.entities ∧
          extraction.relations = .ok result.relations ∧
          (w.graphs payload.agentTypeId).Admits result.relations)
      fun _ _ => True := by
  refine .bind (.mono (.self _ w) (fun _ _ h => h) fun _ _ _ => trivial) fun extraction w1 he => ?_
  have hgraphs : w1.graphs = w.graphs := by
    have := keeps_extract (R := Same World.graphs) payload w
    rwa [he] at this
  refine .bind (liftExcept_triple fun _ => trivial) fun confidence w2 ⟨hconfidence, hw2⟩ => ?_
  refine .bind (liftExcept_triple fun _ => trivial) fun isAmbiguous w3 ⟨hambiguous, hw3⟩ => ?_
  subst hw2 hw3
  split_ifs with hdoubt
  · exact .bind (liftExcept_triple fun _ => trivial) fun _ _ _ => .pure fun h => by cases h
  · refine .bind (liftExcept_triple fun _ => trivial) fun entities w2 ⟨hentities, hw2⟩ => ?_
    refine .bind (liftExcept_triple fun _ => trivial) fun relations w3 ⟨hrelations, hw3⟩ => ?_
    subst hw2 hw3
    rw [← hgraphs] at hw
    refine .bind (checkContradictions_triple hw) fun conflict w2 hconflict => ?_
    refine .bind (liftExcept_triple fun _ => trivial) fun proportion w3 _ => ?_
    cases conflict with
    | some conflict => exact .pure fun h => by cases h
    | none =>
      refine .pure fun _ => ⟨extraction, by rw [he], ?_, hentities, hrelations, ?_⟩
      · simp only [not_or] at hdoubt
        rw [hambiguous, Bool.eq_false_iff.mpr hdoubt.1]
      · rw [← hgraphs]
        exact hconflict rfl

/-! ## Answers one after another -/

/-- Relations with the same ends are the same. -/
def SelfConsistent (relations : List ExtractedRelation) : Prop :=
  ∀ relation ∈ relations, ∀ relation' ∈ relations, relation.source = relation'.source →
    relation.target = relation'.target → relation.relationType = relation'.relationType

instance (relations : List ExtractedRelation) : Decidable (SelfConsistent relations) :=
  inferInstanceAs (Decidable (∀ relation ∈ relations, ∀ relation' ∈ relations, _ → _ → _))

/-- The labels that the writer can resolve. -/
def knownLabels (g : Graph) (entities : List ExtractedEntity) : List String :=
  g.names.map (·.2) ++ entities.map (·.label)

/-- The relations that the writer writes: those with both ends known. -/
def resolvable (g : Graph) (entities : List ExtractedEntity) (relations : List ExtractedRelation) :
    List ExtractedRelation :=
  relations.filter fun relation =>
    relation.source ∈ knownLabels g entities ∧ relation.target ∈ knownLabels g entities

/-- The agent type and the payload with which `submit_answer` goes on to `handle_answer`, and the
world in which it does. -/
def admitted (agentTypeId : String) (body : AnswerBody) (w : World) :
    Option (AgentTypeResponse × AnswerProcessorInput × World) :=
  match (getAgentTypeByName agentTypeId).runAlone w, body.payload with
  | (.ok agent, w'), .ok (question, answer, gapContext) =>
    if agent.phase = .apprentice ∧ Text.strip body.answerText ≠ "" then
      some (agent, ⟨agent.name, question, answer, gapContext⟩, w')
    else none
  | _, _ => none

/-- What the model extracts from the answer, if the request gets that far. -/
def extracted (name : String) (body : AnswerBody) (w : World) : Option Extraction :=
  match (getAgentTypeByName name).runAlone w, body.payload with
  | (.ok agent, w'), .ok (question, answer, gapContext) =>
    if agent.phase = .apprentice ∧ Text.strip body.answerText ≠ "" then
      ((extract ⟨agent.name, question, answer, gapContext⟩).exec w').1.toOption
    else none
  | _, _ => none

/-- An answer that is taken for unambiguous and does not contradict the graph does not contradict
itself. -/
def AnswerAgrees (name : String) (body : AnswerBody) (w : World) : Prop :=
  ∀ extraction ∈ extracted name body w, ∀ entities relations,
    extraction.isAmbiguous = .ok false → extraction.entities = .ok entities →
    extraction.relations = .ok relations → (w.graphs name).Admits relations →
    SelfConsistent (resolvable (w.graphs name) entities relations)

/-- A well-formed graph that does not contradict itself. -/
structure Graph.Sound (g : Graph) : Prop where
  wellFormed : g.WellFormed
  consistent : Consistent g.asserts

/-- Handling an answer changes the graphs only by writing its result. -/
theorem handleAnswer_graphs (agent : AgentTypeResponse) (payload : AnswerProcessorInput)
    (w : World) :
    (((handleAnswer agent payload).exec w).2.graphs = w.graphs ∧
      ∀ result w1, (processAnswer payload).exec w = (.ok result, w1) → result.status ≠ .write) ∨
    ∃ result w1, (processAnswer payload).exec w = (.ok result, w1) ∧ result.status = .write ∧
      w1.graphs = w.graphs ∧ ((handleAnswer agent payload).exec w).2.graphs =
        ((writeToGraph agent.name result false).exec w1).2.graphs := by
  have hsame {α : Type} {m : Py α} {w : World} (hm : Keeps (Same World.graphs) m) :
      (m.exec w).2.graphs = w.graphs := hm w
  have hgraphs := hsame (w := w) (keeps_processAnswer payload)
  rcases hx : (processAnswer payload).exec w with ⟨e | result, w1⟩ <;> rw [hx] at hgraphs
  · rw [handleAnswer, exec_bind_error hx]
    exact .inl ⟨hgraphs, fun result w1 h => by cases h⟩
  · rw [handleAnswer, exec_bind_ok hx]
    cases hstatus : result.status with
    | conflict =>
      refine .inl ⟨(hsame (.pure _)).trans hgraphs, fun result' w' h => ?_⟩
      cases h
      simp [hstatus]
    | followUp =>
      refine .inl ⟨?_, fun result' w' h => ?_⟩
      · exact (hsame (.bind (keeps_generateFollowup _ _ _ _ _) fun _ => .pure _)).trans hgraphs
      · cases h
        simp [hstatus]
    | write =>
      refine .inr ⟨result, w1, rfl, hstatus, hgraphs, ?_⟩
      dsimp only
      rcases hy : (writeToGraph agent.name result false).exec w1 with ⟨e | summary, w2⟩
      · rw [exec_bind_error hy]
      · rw [exec_bind_ok hy]
        exact hsame (.bind (keeps_computeAndStore _) fun _ => .pure _)

theorem handleAnswer_sound {agent : AgentTypeResponse} {payload : AnswerProcessorInput}
    (hname : payload.agentTypeId = agent.name) (hw : (w.graphs agent.name).Sound)
    (hagrees : ∀ extraction, ((extract payload).exec w).1 = .ok extraction →
      ∀ entities relations, extraction.isAmbiguous = .ok false →
        extraction.entities = .ok entities →
      extraction.relations = .ok relations → (w.graphs agent.name).Admits relations →
      SelfConsistent (resolvable (w.graphs agent.name) entities relations)) :
    (((handleAnswer agent payload).exec w).2.graphs agent.name).Sound := by
  have hprocessed := @processAnswer_triple w payload (hname ▸ hw.wellFormed)
  rcases handleAnswer_graphs agent payload w with
    ⟨hgraphs, -⟩ | ⟨result, w1, hx, hstatus, hgraphs, hwrites⟩
  · rw [hgraphs]
    exact hw
  · obtain ⟨extraction, hextract, hambiguous, hentities, hrelations, hadmits⟩ :=
      hprocessed.of_ok hx hstatus
    rw [hname] at hadmits
    have hself := hagrees extraction hextract _ _ hambiguous hentities hrelations hadmits
    -- what the graph asserts afterwards: what it did before, and the relations of the answer
    let L : Set String := fun label => label ∈ knownLabels (w.graphs agent.name) result.entities
    let A : Set (String × String × String) := fun (s, r, t) =>
      ∃ relation ∈ resolvable (w.graphs agent.name) result.entities result.relations,
        relation.source = s ∧ relation.relationType = r ∧ relation.target = t
    have hlearned : Learned L ((w.graphs agent.name).asserts ∪ A) (w1.graphs agent.name) := by
      rw [hgraphs]
      refine ⟨hw.wellFormed, fun x hx => ?_, Set.subset_union_left⟩
      exact List.mem_append_left _ (List.mem_map_of_mem hx)
    have hwritten := (writeToGraph_triple hlearned
      (fun entity hentity => List.mem_append_right _ (List.mem_map_of_mem hentity))
      fun relation hrelation hs ht => .inr ⟨relation, by
        simp only [resolvable, List.mem_filter, decide_eq_true_eq]
        exact ⟨hrelation, hs, ht⟩, rfl, rfl, rfl⟩).state (fun _ _ h => h) fun _ _ h => h
    have hconsistent : Consistent ((w.graphs agent.name).asserts ∪ A) := by
      refine hw.consistent.union ?_ ?_
      · rintro s r r' t ⟨relation, hr, rfl, rfl, rfl⟩ ⟨relation', hr', hs, rfl, ht⟩
        exact hself relation hr relation' hr' hs.symm ht.symm
      · rintro s r r' t hr ⟨relation, hr', rfl, rfl, rfl⟩
        exact hadmits relation (List.mem_filter.mp hr').1 r hr
    rw [hwrites]
    exact ⟨hwritten.wellFormed, hconsistent.mono hwritten.asserts⟩

theorem getAgentTypeByName_graphs (name : String) :
    Async.KeepsAlone (Same World.graphs) (getAgentTypeByName name) :=
  getAgentTypeByName_alone (fun q w _ => World.serve_graphs q w) name

/-- An answer that is not admitted leaves the graphs, and any other is handled. -/
theorem submitAnswer_admitted (name : String) (body : AnswerBody) (w : World) :
    (admitted name body w = none ∧ ((submitAnswer name body).runAlone w).2.graphs = w.graphs) ∨
    ∃ agent payload w1, admitted name body w = some (agent, payload, w1) ∧ agent.name = name ∧
      payload.agentTypeId = name ∧ w1.graphs = w.graphs ∧
      (submitAnswer name body).runAlone w = (handleAnswer agent payload).exec w1 := by
  have hgraphs := getAgentTypeByName_graphs name w
  have hfollows : Follows (effects (.answer name body)) _ none (getAgentTypeByName name) w :=
    getAgentTypeByName_follows name
  obtain ⟨-, hname⟩ := hfollows.runAlone
  rw [admitted]
  rcases hx : (getAgentTypeByName name).runAlone w with ⟨e | agent, w1⟩ <;>
    rw [hx] at hgraphs hname <;> dsimp only [Same] at hgraphs <;>
    rw [submitAnswer, Async.runAlone_bind, hx]
  · exact .inl ⟨rfl, hgraphs⟩
  · obtain rfl : agent.name = name := hname agent rfl
    dsimp only
    rw [Async.runAlone_bind, Async.runAlone_liftM]
    by_cases hadmit : agent.phase = .apprentice ∧ Text.strip body.answerText ≠ ""
    · have hpass : requireApprentice agent = .ok () := by simp [requireApprentice, hadmit.1]
      rw [hpass]
      dsimp only [liftExcept, exec]
      rw [if_neg hadmit.2]
      cases hpayload : body.payload with
      | error e => exact .inl ⟨rfl, hgraphs⟩
      | ok payload => exact .inr ⟨agent, _, w1, if_pos hadmit, rfl, rfl, hgraphs, rfl⟩
    · cases hpayload : body.payload with
      | error e =>
        refine .inl ⟨rfl, ?_⟩
        cases hphase : requireApprentice agent with
        | error e => exact hgraphs
        | ok u =>
          dsimp only [liftExcept, exec]
          split_ifs <;> exact hgraphs
      | ok payload =>
        refine .inl ⟨if_neg hadmit, ?_⟩
        cases hphase : requireApprentice agent with
        | error e => exact hgraphs
        | ok u =>
          dsimp only [liftExcept, exec]
          split_ifs with hanswer
          · exact hgraphs
          · refine absurd ⟨?_, hanswer⟩ hadmit
            by_contra h
            simp [requireApprentice, h] at hphase

/-- A submitted answer keeps the graph sound unless it contradicts itself. -/
theorem submitAnswer_sound {body : AnswerBody} (hw : (w.graphs name).Sound)
    (hagrees : AnswerAgrees name body w) :
    ((((submitAnswer name body).runAlone w).2.graphs name)).Sound := by
  have hextracted : extracted name body w = (admitted name body w).bind fun r =>
      ((extract r.2.1).exec r.2.2).1.toOption := by
    rw [extracted, admitted]
    rcases (getAgentTypeByName name).runAlone w with ⟨e | agent, w1⟩
    · rfl
    · cases body.payload with
      | error e => rfl
      | ok payload =>
        dsimp only
        split_ifs <;> rfl
  rcases submitAnswer_admitted name body w with
    ⟨-, hgraphs⟩ | ⟨agent, payload, w1, hadmitted, rfl, hpayload, hgraphs, hrun⟩
  · rwa [hgraphs]
  · rw [← hgraphs] at hw
    rw [hrun]
    refine handleAnswer_sound hpayload hw fun extraction hextraction => ?_
    rw [hgraphs]
    refine hagrees extraction ?_
    simp [hextracted, hadmitted, hextraction, Except.toOption]

/-! ## From the creation on -/

/-- Creation makes concepts only, and its rollback deletes some of them. -/
theorem createAgentType_graph (payload : AgentTypeCreate) :
    Async.KeepsAlone
      (Preserves fun w : World => ((w.graphs payload.name).names.map (·.1)).Nodup ∧
        (w.graphs payload.name).relatesTo = []) (createAgentType payload) := by
  set P : World → Prop := fun w => ((w.graphs payload.name).names.map (·.1)).Nodup ∧
    (w.graphs payload.name).relatesTo = []
  have hsame {w w' : World} (h : w'.graphs = w.graphs) : Preserves P w w' := by
    intro hw
    simpa only [P, h] using hw
  have : Ticks (Preserves P) := { tick := fun w => hsame rfl }
  have hconcept {stmt : Cypher Unit} {params : List String}
      (h : ∀ g u g', stmt.eval g = .ok (u, g') → (g.names.map (·.1)).Nodup → g.relatesTo = [] →
        (g'.names.map (·.1)).Nodup ∧ g'.relatesTo = []) :
      Keeps (Preserves P) (execute payload.name stmt params) :=
    keeps_execute (R := Preserves P) (fun w => hsame rfl) fun w u g hg hw => by
      simpa [P] using h (w.graphs payload.name) u g hg hw.1 hw.2
  have hsegment : Keeps (Preserves P) (initializeAgentType payload) := by
    refine keeps_initializeAgentType ?_ (fun concept _ => hconcept fun g u g' h hids hedges => ?_)
      fun field value _ => keeps_callRedis fun w => hsame rfl
    · intro w hw
      obtain ⟨tables, -, hg⟩ := (initializeSchema_provisions payload.name w).graph
      dsimp only [P]
      rw [hg]
      exact hw
    · simp only [createConcept] at h
      split_ifs at h with hid
      cases h
      refine ⟨?_, hedges⟩
      simp only [Graph.names, List.map_append, List.map_cons, List.map_nil]
      refine List.Nodup.append hids (List.nodup_singleton _) ?_
      simpa [Graph.names] using hid
  have hrollback (ids : List String) :
      Keeps (Preserves P) (rollbackAgentType payload.name ids) := by
    refine keeps_rollbackAgentType (fun field => keeps_callRedis fun w => hsame rfl)
      (fun id => hconcept fun g u g' h hids hedges => ?_) ids
    simp only [deleteConcept] at h
    split_ifs at h
    cases h
    refine ⟨hids.sublist ?_, hedges⟩
    exact ((List.filter_sublist (l := g.concepts)).map _).map _
  exact createAgentType_alone (fun q w => hsame (by simp)) hsegment hrollback

/-- No answer of the list contradicts itself when its turn comes. -/
def AnswersAgree (name : String) : List AnswerBody → World → Prop
  | [], _ => True
  | body :: bodies, w =>
    AnswerAgrees name body w ∧ AnswersAgree name bodies (runAll [.answer name body] w)

theorem runAll_answer (name : String) (body : AnswerBody) (w : World) :
    runAll [.answer name body] w = ((submitAnswer name body).runAlone w).2 := by
  change ((submitAnswer name body >>= fun a => pure (Response.answer a)).runAlone w).2 = _
  rw [Async.runAlone_bind]
  rcases (submitAnswer name body).runAlone w with ⟨e | a, w'⟩ <;> rfl

theorem answer_sound {body : AnswerBody} (hw : (w.graphs name).Sound)
    (hagrees : AnswerAgrees name body w) :
    ((runAll [.answer name body] w).graphs name).Sound := by
  rw [runAll_answer]
  exact submitAnswer_sound hw hagrees

/-- The graph of a new agent type has concepts only. -/
theorem created_graph {payload : AgentTypeCreate} (hempty : w.graphs payload.name = .empty) :
    ((runAll [.create payload] w).graphs payload.name).WellFormed ∧
      ((runAll [.create payload] w).graphs payload.name).relatesTo = [] := by
  have hcreate : Async.KeepsAlone
      (Preserves fun w : World => ((w.graphs payload.name).names.map (·.1)).Nodup ∧
        (w.graphs payload.name).relatesTo = []) (Request.create payload).handle :=
    .bind (.tryCatch (createAgentType_graph payload) fun _ => .throw _) fun _ => .pure _
  obtain ⟨hids, hedges⟩ : (_ : Prop) ∧
      ((runAll [.create payload] w).graphs payload.name).relatesTo = [] :=
    hcreate w (by simp [hempty, Graph.empty, Graph.names])
  refine ⟨⟨hids, fun r hr => ?_⟩, hedges⟩
  rw [hedges] at hr
  cases hr

theorem created_sound {payload : AgentTypeCreate} (hempty : w.graphs payload.name = .empty) :
    ((runAll [.create payload] w).graphs payload.name).Sound := by
  obtain ⟨hwf, hedges⟩ := created_graph hempty
  refine ⟨hwf, ?_⟩
  rintro s r r' t ⟨e, he, -⟩
  rw [hedges] at he
  cases he

/-- After the creation of an agent type and any answers, none of which contradicts itself, the graph
is free of contradictions. -/
theorem knowledge_stays_consistent (w : World) (payload : AgentTypeCreate)
    (answers : List AnswerBody) (hempty : w.graphs payload.name = .empty)
    (hcond : AnswersAgree payload.name answers (runAll [.create payload] w)) :
    ((runAll (.create payload :: answers.map (.answer payload.name)) w).graphs
      payload.name).ContradictionFree := by
  have hrun (answers : List AnswerBody) (w : World) (hw : (w.graphs payload.name).Sound)
      (hcond : AnswersAgree payload.name answers w) :
      ((runAll (answers.map (.answer payload.name)) w).graphs payload.name).Sound := by
    induction answers generalizing w with
    | nil => exact hw
    | cons body answers ih => exact ih _ (answer_sound hw hcond.1) hcond.2
  have hsound := hrun answers _ (created_sound hempty) hcond
  exact Graph.contradictionFree_of_consistent hsound.consistent

/-- An answer from which the model extracts the relations. -/
def answering (relations : List ExtractedRelation) : Env :=
  { Sample.env with
    reply := fun _ _ => .ok ""
    loadExtraction := fun _ => .ok
      ⟨.ok 1, .ok false,
        .ok [⟨"order", "thing", Sample.certain⟩, ⟨"kitchen", "place", Sample.certain⟩],
        .ok relations⟩ }

def goesTo : ExtractedRelation := ⟨"order", "kitchen", "goes_to", Sample.certain⟩

def skips : ExtractedRelation := ⟨"order", "kitchen", "skips", Sample.certain⟩

theorem knowledge_stays_consistent_once :
    ((runAll [.create Sample.shop, .answer "shop" Sample.answer]
      (.initial (answering [goesTo]))).graphs "shop").ContradictionFree := by
  refine knowledge_stays_consistent (.initial (answering [goesTo])) Sample.shop [Sample.answer] rfl
    ⟨fun extraction h entities relations _ hentities hrelations _ => ?_, trivial⟩
  cases h
  cases hentities
  cases hrelations
  decide +kernel

/-- The two relations of one answer are checked against the graph only, and both are written. -/
theorem knowledge_contradicted :
    ¬ ∀ env, ((runAll [.create Sample.shop, .answer "shop" Sample.answer]
      (.initial env)).graphs "shop").ContradictionFree := by
  intro h
  have hrows : ∃ x ∈ ((runAll [.create Sample.shop, .answer "shop" Sample.answer]
        (.initial (answering [goesTo, skips]))).graphs "shop").relatesToRows,
      ∃ y ∈ ((runAll [.create Sample.shop, .answer "shop" Sample.answer]
        (.initial (answering [goesTo, skips]))).graphs "shop").relatesToRows,
      x.1.label = y.1.label ∧ x.2.2.label = y.2.2.label ∧ x.2.1.relation ≠ y.2.1.relation ∧
        minWriteConfidence < x.2.1.confidence ∧ minWriteConfidence < y.2.1.confidence := by
    decide +kernel
  obtain ⟨⟨a, r, b⟩, hx, ⟨a', r', b'⟩, hy, hs, ht, hne, hc, hc'⟩ := hrows
  exact h (answering [goesTo, skips]) a r b a' r' b' hx hy hs ht hne ⟨hc, hc'⟩

end AgentWorx
