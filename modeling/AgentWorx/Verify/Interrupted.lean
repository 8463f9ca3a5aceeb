import AgentWorx.Verify.Merge
import AgentWorx.Verify.Retry

/-!
# Writing an answer again

A write that a failed statement has interrupted leaves the graph with a part of the answer merged
into it: some of the entities, or all of them and some of the relations. Merging the whole answer
into that is merging it into the original graph, but for versions that count a relation twice.
-/

namespace AgentWorx

open Coop Coop.Sync

/-! ## Merging a part first -/

namespace Knowledge

variable {L R : Type} [DecidableEq L] [DecidableEq R] {K : Knowledge L R}
  {entities entities' : List (L × ℚ)} {relations relations' : List ((L × R × L) × ℚ)}

theorem maximum_valuesOf_mono {κ : Type} [DecidableEq κ] {k : κ} {given given' : List (κ × ℚ)}
    (h : given' ⊆ given) : (valuesOf k given').maximum ≤ (valuesOf k given).maximum := by
  refine List.maximum_mono fun q hq => ?_
  obtain ⟨x, hx, rfl⟩ := List.mem_map.mp hq
  obtain ⟨hmem, hkey⟩ := List.mem_filter.mp hx
  exact List.mem_map_of_mem (List.mem_filter.mpr ⟨h hmem, hkey⟩)

omit [DecidableEq R] in
theorem Knows.mergeConcepts_mono {label : L} (h : entities' ⊆ entities)
    (hknows : (K.mergeConcepts entities').Knows label) :
    (K.mergeConcepts entities).Knows label := by
  rw [mergeConcepts_knows] at hknows ⊢
  rcases hknows with hknows | ⟨e, he, heq⟩
  · exact .inl hknows
  · exact .inr ⟨e, h he, heq⟩

/-- Once a part is merged the labels are as if it had not been. -/
theorem mergeConcepts_part (h : entities' ⊆ entities) :
    ((K.merge entities' relations').mergeConcepts entities).concept =
      (K.mergeConcepts entities).concept := by
  funext label
  change max (max (K.concept label) (valuesOf label entities').maximum) _ = max _ _
  rw [max_assoc, max_eq_right (maximum_valuesOf_mono h)]

/-- What merging makes of a triple: nothing, or the highest of its confidence and the given ones. -/
theorem merge_edge_cases (entities : List (L × ℚ)) (relations : List ((L × R × L) × ℚ))
    (x : L × R × L) :
    ((K.merge entities relations).edge x = K.edge x ∨
      (K.merge entities relations).edge x = max (K.edge x) (valuesOf x relations).maximum) ∧
    K.version x ≤ (K.merge entities relations).version x := by
  by_cases hx : (K.mergeConcepts entities).Knows x.1 ∧ (K.mergeConcepts entities).Knows x.2.2
  · obtain ⟨hedge, hversion⟩ := mergeEdges_known relations hx
    exact ⟨.inr hedge, hversion ▸ Int.le_add_of_nonneg_right (Int.natCast_nonneg _)⟩
  · obtain ⟨hedge, hversion⟩ := mergeEdges_unknown relations hx
    exact ⟨.inl hedge, hversion.ge⟩

/-- Once a part is merged, merging everything makes the same of a triple, but for its version. -/
theorem merge_part_triple (hentities : entities' ⊆ entities) (hrelations : relations' ⊆ relations)
    (x : L × R × L) :
    ((K.merge entities' relations').merge entities relations).edge x =
      (K.merge entities relations).edge x ∧
    (K.merge entities relations).version x ≤
      ((K.merge entities' relations').merge entities relations).version x := by
  obtain ⟨hedge, hversion⟩ := merge_edge_cases (K := K) entities' relations' x
  have hknows (label : L) : ((K.merge entities' relations').mergeConcepts entities).Knows label ↔
      (K.mergeConcepts entities).Knows label := by
    rw [Knows, Knows, mergeConcepts_part hentities]
  by_cases hx : (K.mergeConcepts entities).Knows x.1 ∧ (K.mergeConcepts entities).Knows x.2.2
  · obtain ⟨hedge1, hversion1⟩ := mergeEdges_known
      (K := (K.merge entities' relations').mergeConcepts entities) relations
      ⟨(hknows _).mpr hx.1, (hknows _).mpr hx.2⟩
    obtain ⟨hedge2, hversion2⟩ := mergeEdges_known relations hx
    refine ⟨hedge1.trans (Eq.trans ?_ hedge2.symm), ?_⟩
    · change max ((K.merge entities' relations').edge x) _ = max (K.edge x) _
      rcases hedge with hedge | hedge <;> rw [hedge]
      rw [max_assoc, max_eq_right (maximum_valuesOf_mono hrelations)]
    · rw [merge, merge, hversion1, hversion2]
      exact Int.add_le_add_right hversion _
  · obtain ⟨hedge1, hversion1⟩ := mergeEdges_unknown
      (K := (K.merge entities' relations').mergeConcepts entities) relations
      fun h => hx ⟨(hknows _).mp h.1, (hknows _).mp h.2⟩
    obtain ⟨hedge2, hversion2⟩ := mergeEdges_unknown relations hx
    refine ⟨hedge1.trans (Eq.trans ?_ hedge2.symm), ?_⟩
    · -- a triple that is unknown in the end was unknown to the part
      have hx' : ¬ ((K.mergeConcepts entities').Knows x.1 ∧
          (K.mergeConcepts entities').Knows x.2.2) := by
        intro h
        exact hx ⟨h.1.mergeConcepts_mono hentities, h.2.mergeConcepts_mono hentities⟩
      exact (mergeEdges_unknown relations' hx').1
    · rw [merge, merge, hversion1, hversion2]
      exact hversion

/-- Merging a part and then everything differs from merging everything in the versions only. -/
theorem merge_part (hentities : entities' ⊆ entities) (hrelations : relations' ⊆ relations) :
    ((K.merge entities' relations').merge entities relations).concept =
      (K.merge entities relations).concept ∧
    ((K.merge entities' relations').merge entities relations).edge =
      (K.merge entities relations).edge ∧
    ∀ x, (K.merge entities relations).version x ≤
      ((K.merge entities' relations').merge entities relations).version x :=
  ⟨mergeConcepts_part hentities,
    funext fun x => (merge_part_triple hentities hrelations x).1,
    fun x => (merge_part_triple hentities hrelations x).2⟩

end Knowledge

/-! ## Interrupted loops -/

variable {name : String} {w : World} {g : Graph}

/-- The graph is what the writer makes of `g` with these entities and relations. -/
structure PartWritten (isFollowup : Bool) (g : Graph) (entities : List ExtractedEntity)
    (relations : List ExtractedRelation) (g' : Graph) : Prop where
  unique : g'.Unique
  unchanged : g.Extends g'
  knowledge : g'.knowledge = g.knowledge.merge (givenConfidences entities)
    (assignedConfidences isFollowup relations)

theorem findOrCreateConcept_raises (entity : ExtractedEntity) (now : Datetime)
    (summary : WriteSummary) (hg : w.graphs name = g) :
    Triple (findOrCreateConcept name entity now summary) w (fun _ _ => True)
      fun _ w' => w'.graphs name = g :=
  findOrCreateConcept_rule hg (fun _ _ hw1 _ => hw1.graphs ▸ hg) (fun _ _ _ _ _ => trivial)
    (fun _ _ _ _ _ => trivial) fun _ _ _ _ _ => trivial

theorem upsertRelation_raises (relation : ExtractedRelation) (confidence : ℚ) (labelToId : Dict)
    (summary : WriteSummary) (hg : w.graphs name = g) :
    Triple (upsertRelation name relation confidence labelToId summary) w (fun _ _ => True)
      fun _ w' => w'.graphs name = g :=
  upsertRelation_rule hg (fun _ _ hw1 _ => hw1.graphs ▸ hg) (fun _ _ _ => trivial)
    (fun _ _ _ _ _ _ _ _ => trivial) fun _ _ _ _ _ _ _ => trivial

/-- The entity loop, raising, has merged the entities before the one it stopped at. -/
theorem writeEntities_raises {now : Datetime} {entities : List ExtractedEntity} {labelToId : Dict}
    {summary : WriteSummary} (hg : g.Unique) (hw : w.graphs name = g) :
    Triple (writeEntities name now entities (labelToId, summary)) w (fun _ _ => True)
      fun _ w' => ∃ done, done <+: entities ∧ (w'.graphs name).Unique ∧ g.Extends (w'.graphs name) ∧
        (w'.graphs name).knowledge = g.knowledge.mergeConcepts (givenConfidences done) := by
  induction entities generalizing g labelToId summary w with
  | nil => exact .pure trivial
  | cons entity entities ih =>
    have hspec : Triple (findOrCreateConcept name entity now summary) w
        (Finds False name g entity summary) (FailsOnTakenId False name) :=
      findOrCreateConcept_spec hg ⟨hw, False.elim⟩
    refine .bind ((hspec.and (findOrCreateConcept_raises entity now summary hw)).mono
      (fun _ _ h => h.1) fun _ w1 h => ?_) ?_
    · refine ⟨[], List.nil_prefix, ?_⟩
      rw [h.2]
      exact ⟨hg, refl_of Graph.Extends g, (Knowledge.mergeConcepts_nil (K := g.knowledge)).symm⟩
    · rintro r w1 ⟨new, hlabel, -, hconfidence, hid, -, hw1, -⟩
      obtain ⟨hg1, hknowledge1⟩ := hg.upsertConcept hid
      refine (ih hg1 hw1.graph).mono (fun _ _ h => h) ?_
      rintro _ w2 ⟨done, hdone, hunique, hextends, hknowledge⟩
      refine ⟨entity :: done, List.cons_prefix_cons.mpr ⟨rfl, hdone⟩, hunique,
        trans_of Graph.Extends (g.extends_upsertConcept new) hextends, ?_⟩
      rw [hknowledge, hknowledge1, hlabel, hconfidence]
      exact Knowledge.mergeConcepts_cons.symm

/-- The relation loop, raising, has merged the relations before the one it stopped at. -/
theorem writeRelations_raises {isFollowup : Bool} {relations : List ExtractedRelation}
    {labelToId : Dict} {summary : WriteSummary} (hg : g.Unique) (hknown : Known labelToId g)
    (hw : w.graphs name = g) :
    Triple (writeRelations name isFollowup labelToId relations summary) w (fun _ _ => True)
      fun _ w' => ∃ done, done <+: relations ∧ (w'.graphs name).Unique ∧
        g.Extends (w'.graphs name) ∧ (w'.graphs name).knowledge =
          g.knowledge.mergeEdges (assignedConfidences isFollowup done) := by
  induction relations generalizing g summary w with
  | nil => exact .pure trivial
  | cons relation relations ih =>
    have hspec : Triple
        (upsertRelation name relation (assignConfidence relation isFollowup) labelToId summary) w
        (Connects False name g relation (assignConfidence relation isFollowup) summary)
        (FailsOnTakenId False name) :=
      upsertRelation_spec hg hknown ⟨hw, False.elim⟩
    refine .bind ((hspec.and (upsertRelation_raises relation _ labelToId summary hw)).mono
      (fun _ _ h => h.1) fun _ w1 h => ?_) ?_
    · refine ⟨[], List.nil_prefix, ?_⟩
      rw [h.2]
      exact ⟨hg, refl_of Graph.Extends g, (Knowledge.mergeEdges_nil (K := g.knowledge)).symm⟩
    · rintro summary1 w1 ⟨-, -, ⟨a, ha, b, hb, hsource, htarget, hw1, -⟩ | ⟨hmissing, hw1, -⟩⟩
      · obtain ⟨hg1, hknowledge1⟩ := hg.upsertEdge ha hb relation.relationType
          (assignConfidence relation isFollowup)
        refine (ih hg1 hknown hw1.graph).mono (fun _ _ h => h) ?_
        rintro _ w2 ⟨done, hdone, hunique, hextends, hknowledge⟩
        refine ⟨relation :: done, List.cons_prefix_cons.mpr ⟨rfl, hdone⟩, hunique,
          trans_of Graph.Extends (g.extends_upsertEdge _) hextends, ?_⟩
        rw [hknowledge, hknowledge1, hsource, htarget]
        exact Knowledge.mergeEdges_cons.symm
      · refine (ih hg hknown hw1.graph).mono (fun _ _ h => h) ?_
        rintro _ w2 ⟨done, hdone, hunique, hextends, hknowledge⟩
        exact ⟨relation :: done, List.cons_prefix_cons.mpr ⟨rfl, hdone⟩, hunique, hextends,
          hknowledge.trans (Graph.mergeEdges_missing hmissing).symm⟩

/-- Wherever the writer stops, it has merged a part of the answer. -/
theorem writeToGraph_raises {result : AnswerProcessorResult} (isFollowup : Bool)
    (hg : (w.graphs name).Unique) (hstatus : result.status = .write) :
    Triple (writeToGraph name result isFollowup) w (fun _ _ => True)
      fun _ w' => ∃ entities relations, entities <+: result.entities ∧
        relations <+: result.relations ∧
        PartWritten isFollowup (w.graphs name) entities relations (w'.graphs name) := by
  unfold writeToGraph
  rw [if_neg (not_not.mpr hstatus)]
  refine .bind (datetimeNow_triple (Q := fun _ w1 => w1.graphs name = w.graphs name) rfl)
    fun now w1 hw1 => ?_
  have hknown : Known ∅ (w.graphs name) := fun _ _ h => by simp at h
  refine .bind (((writeEntities_spec (P := False) hg hknown ⟨hw1, False.elim⟩).and
    (writeEntities_raises hg hw1)).mono (fun _ _ h => h.1) fun _ w2 h => ?_) ?_
  · obtain ⟨-, done, hdone, hunique, hextends, hknowledge⟩ := h
    refine ⟨done, [], hdone, List.nil_prefix, hunique, hextends, hknowledge.trans ?_⟩
    exact Knowledge.mergeEdges_nil.symm
  · rintro ⟨labelToId, summary⟩ w2 ⟨g2, hg2, hknown, hextends2, hknowledge2, hw2, -⟩
    refine (writeRelations_raises hg2 hknown hw2.graph).mono (fun _ _ h => h) ?_
    rintro _ w3 ⟨done, hdone, hunique, hextends, hknowledge⟩
    refine ⟨result.entities, done, List.prefix_rfl, hdone, hunique,
      trans_of Graph.Extends hextends2 hextends, ?_⟩
    rw [hknowledge, hknowledge2]
    rfl

/-! ## The second write -/

/-- The two graphs have the same labels and edges, with the same confidences, and no version is
lower in the second. -/
structure Converged (g g' : Graph) : Prop where
  labels : g'.labels.Perm g.labels
  edges : (g'.relatesToRows.map Graph.triple).Perm (g.relatesToRows.map Graph.triple)
  concept : g'.knowledge.concept = g.knowledge.concept
  edge : g'.knowledge.edge = g.knowledge.edge
  version : ∀ x, g.knowledge.version x ≤ g'.knowledge.version x

/-- A triple has an edge if the graph gives it a confidence. -/
theorem Graph.mem_triples {x : String × String × String} :
    x ∈ g.relatesToRows.map Graph.triple ↔ g.knowledge.edge x ≠ ⊥ := by
  change _ ↔ (g.edge? x).elim ⊥ (fun r => (r.confidence : WithBot ℚ)) ≠ ⊥
  rw [Graph.edge?]
  cases h : Keyed.lookup Graph.triple x g.relatesToRows with
  | none =>
    refine iff_of_false ?_ fun hne => hne rfl
    rw [List.mem_map]
    rintro ⟨row, hrow, heq⟩
    exact Keyed.lookup_eq_none.mp h row hrow heq
  | some row =>
    obtain ⟨hrow, rfl⟩ := Keyed.mem_of_lookup h
    exact iff_of_true (List.mem_map_of_mem hrow) (by simp)

theorem Graph.Unique.converged {g' : Graph} (hg : g.Unique) (hg' : g'.Unique)
    (hconcept : g'.knowledge.concept = g.knowledge.concept)
    (hedge : g'.knowledge.edge = g.knowledge.edge)
    (hversion : ∀ x, g.knowledge.version x ≤ g'.knowledge.version x) : Converged g g' where
  labels := (List.perm_ext_iff_of_nodup hg'.labels hg.labels).mpr fun label => by
    rw [← Graph.knows_iff, ← Graph.knows_iff, Knowledge.Knows, Knowledge.Knows, hconcept]
  edges := (List.perm_ext_iff_of_nodup hg'.triples hg.triples).mpr fun x => by
    rw [Graph.mem_triples, Graph.mem_triples, hedge]
  concept := hconcept
  edge := hedge
  version := hversion

/-- A write that any failed statement interrupts, made again without a failure, leaves the labels,
edges and confidences of one write, and no lower version. The second write raises only if the graph
was not ready for the first one or the id drawn for a new concept is that of another one. -/
theorem writeToGraph_converges {w w0 w1 : World} {name : String} {result : AnswerProcessorResult}
    {isFollowup : Bool} {fault : Nat → Store → Bool} {e : Exn} {summary : WriteSummary}
    (hg : (w.graphs name).Unique)
    (hwhole : (writeToGraph name result isFollowup).exec w.healed = (.ok summary, w0))
    (hfail : (writeToGraph name result isFollowup).exec (w.withFaults fault) = (.error e, w1)) :
    Triple (writeToGraph name result isFollowup) w1.healed
      (fun _ w2 => Converged (w0.graphs name) (w2.graphs name))
      fun e w2 => GraphReady w.healed name →
        e = .kuzuError "Found duplicated primary key value." ∧ IdTaken name w2 := by
  have hstatus : result.status = .write := by
    by_contra hne
    rw [writeToGraph, if_pos hne] at hwhole
    cases hwhole
  have hmerged := (writeToGraph_merges (w := w.healed) isFollowup hg hstatus).of_ok hwhole
  obtain ⟨entities, relations, hentities, hrelations, hpart⟩ :=
    (writeToGraph_raises (w := w.withFaults fault) isFollowup hg hstatus).of_error hfail
  have hretry := writeToGraph_merges (w := w1.healed) isFollowup hpart.unique hstatus
  refine hretry.mono (fun _ w2 hsecond => ?_) fun e _ h hready =>
    h ⟨hready.name, fun t => ?_, fun _ => rfl⟩
  · have hentities' : givenConfidences entities ⊆ givenConfidences result.entities :=
      List.map_subset _ hentities.subset
    have hrelations' : assignedConfidences isFollowup relations ⊆
        assignedConfidences isFollowup result.relations :=
      List.map_subset _ hrelations.subset
    have hknowledge := hsecond.knowledge
    rw [World.withFaults_graphs, hpart.knowledge] at hknowledge
    obtain ⟨hconcept, hedge, hversion⟩ :=
      Knowledge.merge_part (K := (w.graphs name).knowledge) hentities' hrelations'
    refine hmerged.unique.converged hsecond.unique ?_ ?_ fun x => ?_
    · rw [hknowledge, hmerged.knowledge]
      exact hconcept
    · rw [hknowledge, hmerged.knowledge]
      exact hedge
    · rw [hknowledge, hmerged.knowledge]
      exact hversion x
  · have htables := hpart.unchanged.learns.tables
    rw [World.withFaults_graphs] at htables
    rw [World.withFaults_graphs, htables]
    exact hready.tables t

/-- The second upsert of the relation fails: it has been counted once when it is written again. -/
theorem writeToGraph_converges_twice : ∃ w0 w1 w2 : World, ∃ summary e,
    (writeToGraph "shop" goesToTwice false).exec (Sample.withTeam .approved).healed =
      (.ok ⟨2, 0, 1, 1⟩, w0) ∧
    (writeToGraph "shop" goesToTwice false).exec
      ((Sample.withTeam .approved).failing 10 .kuzu) = (.error e, w1) ∧
    (writeToGraph "shop" goesToTwice false).exec w1.healed = (.ok summary, w2) ∧
    Converged (w0.graphs "shop") (w2.graphs "shop") := by
  have hg : ((Sample.withTeam .approved).graphs "shop").Unique :=
    ⟨⟨by decide, by decide⟩, by decide, by decide⟩
  have hruns : ((writeToGraph "shop" goesToTwice false).exec
        (Sample.withTeam .approved).healed).1 = .ok ⟨2, 0, 1, 1⟩ ∧
      ((writeToGraph "shop" goesToTwice false).exec
        ((Sample.withTeam .approved).failing 10 .kuzu)).1.toOption = none ∧
      ((writeToGraph "shop" goesToTwice false).exec ((writeToGraph "shop" goesToTwice false).exec
        ((Sample.withTeam .approved).failing 10 .kuzu)).2.healed).1.toOption.isSome = true := by
    decide +kernel
  rcases hx : (writeToGraph "shop" goesToTwice false).exec (Sample.withTeam .approved).healed with
    ⟨r, w0⟩
  rcases hy : (writeToGraph "shop" goesToTwice false).exec
    ((Sample.withTeam .approved).failing 10 .kuzu) with ⟨e | summary', w1⟩
  · rcases hz : (writeToGraph "shop" goesToTwice false).exec w1.healed with ⟨e' | summary, w2⟩
    · simp [hy, hz, Except.toOption] at hruns
    · rw [hx] at hruns
      obtain ⟨rfl, -⟩ := hruns
      exact ⟨w0, w1, w2, summary, e, rfl, rfl, hz, (writeToGraph_converges hg hx hy).of_ok hz⟩
  · simp [hy, Except.toOption] at hruns

end AgentWorx
