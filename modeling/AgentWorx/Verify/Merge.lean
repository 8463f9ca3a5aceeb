import AgentWorx.Verify.Confidence
import AgentWorx.Verify.KnowledgeGraph
import AgentWorx.Verify.Writer
import Mathlib.Data.List.MinMax

/-!
# The writer as a merge

What a graph knows is a confidence for every label and, for every triple of labels, a confidence and
a version. An answer is merged into it: confidences go up to the highest value given, and a version
counts the relations that named its triple. The two loops of the writer refine this merge on a graph
whose labels and triples are unique.
-/

namespace AgentWorx

open Coop Coop.Sync

/-! ## Knowledge -/

/-- Confidences of labels and of triples, absent ones at the bottom, and the versions of triples. -/
@[ext] structure Knowledge (L R : Type) where
  concept : L → WithBot ℚ
  edge : L × R × L → WithBot ℚ
  version : L × R × L → Int

/-- The values that the list gives to the key, in their order. -/
def valuesOf {κ : Type} [DecidableEq κ] (k : κ) (given : List (κ × ℚ)) : List ℚ :=
  (given.filter (·.1 = k)).map (·.2)

theorem valuesOf_eq_nil {κ : Type} [DecidableEq κ] {k : κ} {given : List (κ × ℚ)} :
    valuesOf k given = [] ↔ ∀ x ∈ given, x.1 ≠ k := by
  simp [valuesOf]

namespace Knowledge

variable {L R : Type}

def Knows (K : Knowledge L R) (label : L) : Prop := K.concept label ≠ ⊥

instance (K : Knowledge L R) (label : L) : Decidable (K.Knows label) :=
  inferInstanceAs (Decidable (_ ≠ _))

section

variable [DecidableEq L]

/-- Labels take the highest of their confidence and the values given to them. -/
def mergeConcepts (K : Knowledge L R) (entities : List (L × ℚ)) : Knowledge L R :=
  { K with concept := fun label => max (K.concept label) (valuesOf label entities).maximum }

variable {K : Knowledge L R}

@[simp] theorem mergeConcepts_nil : K.mergeConcepts [] = K := by
  simp [mergeConcepts, valuesOf]

theorem mergeConcepts_knows {label : L} {entities : List (L × ℚ)} :
    (K.mergeConcepts entities).Knows label ↔ K.Knows label ∨ ∃ x ∈ entities, x.1 = label := by
  simp only [Knows, mergeConcepts, ne_eq, max_eq_bot, List.maximum_eq_bot, valuesOf_eq_nil, not_and,
    not_forall, not_not]
  tauto

theorem mergeConcepts_cons {entity : L × ℚ} {entities : List (L × ℚ)} :
    K.mergeConcepts (entity :: entities) = (K.mergeConcepts [entity]).mergeConcepts entities := by
  simp only [mergeConcepts, mk.injEq, and_true]
  funext label
  by_cases hlabel : entity.1 = label
  · simp [valuesOf, hlabel, List.maximum_cons, max_assoc]
  · simp [valuesOf, hlabel]

end

variable [DecidableEq L] [DecidableEq R]

/-- Triples of known labels take the highest of their confidence and the values given to them, and
their version counts these values. -/
def mergeEdges (K : Knowledge L R) (relations : List ((L × R × L) × ℚ)) : Knowledge L R where
  concept := K.concept
  edge x :=
    if K.Knows x.1 ∧ K.Knows x.2.2 then max (K.edge x) (valuesOf x relations).maximum else K.edge x
  version x :=
    if K.Knows x.1 ∧ K.Knows x.2.2 then K.version x + (valuesOf x relations).length
    else K.version x

/-- The entities are merged first: a relation may name the labels that come with it. -/
def merge (K : Knowledge L R) (entities : List (L × ℚ)) (relations : List ((L × R × L) × ℚ)) :
    Knowledge L R := (K.mergeConcepts entities).mergeEdges relations

variable {K : Knowledge L R} {x : L × R × L} {relations : List ((L × R × L) × ℚ)}

@[simp] theorem mergeEdges_nil : K.mergeEdges [] = K := by
  simp [mergeEdges, valuesOf]

theorem mergeEdges_knows {label : L} : (K.mergeEdges relations).Knows label ↔ K.Knows label :=
  Iff.rfl

theorem mergeEdges_known (relations : List ((L × R × L) × ℚ)) (h : K.Knows x.1 ∧ K.Knows x.2.2) :
    (K.mergeEdges relations).edge x = max (K.edge x) (valuesOf x relations).maximum ∧
      (K.mergeEdges relations).version x = K.version x + (valuesOf x relations).length :=
  ⟨if_pos h, if_pos h⟩

theorem mergeEdges_unknown (relations : List ((L × R × L) × ℚ))
    (h : ¬ (K.Knows x.1 ∧ K.Knows x.2.2)) :
    (K.mergeEdges relations).edge x = K.edge x ∧
      (K.mergeEdges relations).version x = K.version x :=
  ⟨if_neg h, if_neg h⟩

/-- A triple with an unknown label adds nothing. -/
theorem mergeEdges_singleton_unknown {q : ℚ} (h : ¬ (K.Knows x.1 ∧ K.Knows x.2.2)) :
    K.mergeEdges [(x, q)] = K := by
  have hone (y : L × R × L) : (K.mergeEdges [(x, q)]).edge y = K.edge y ∧
      (K.mergeEdges [(x, q)]).version y = K.version y := by
    by_cases hy : K.Knows y.1 ∧ K.Knows y.2.2
    · have hne : x ≠ y := fun hxy => h (hxy ▸ hy)
      rw [(mergeEdges_known _ hy).1, (mergeEdges_known _ hy).2]
      simp [valuesOf, hne]
    · exact mergeEdges_unknown _ hy
  ext y
  · rfl
  · rw [(hone y).1]
  · rw [(hone y).2]

theorem mergeEdges_cons {relation : (L × R × L) × ℚ} :
    K.mergeEdges (relation :: relations) = (K.mergeEdges [relation]).mergeEdges relations := by
  have hone (x : L × R × L) : (K.mergeEdges (relation :: relations)).edge x =
        ((K.mergeEdges [relation]).mergeEdges relations).edge x ∧
      (K.mergeEdges (relation :: relations)).version x =
        ((K.mergeEdges [relation]).mergeEdges relations).version x := by
    by_cases hx : K.Knows x.1 ∧ K.Knows x.2.2
    · have hx' : (K.mergeEdges [relation]).Knows x.1 ∧ (K.mergeEdges [relation]).Knows x.2.2 := hx
      rw [(mergeEdges_known _ hx).1, (mergeEdges_known _ hx).2, (mergeEdges_known _ hx').1,
        (mergeEdges_known _ hx').2, (mergeEdges_known _ hx).1, (mergeEdges_known _ hx).2]
      by_cases hrelation : relation.1 = x
      · simp [valuesOf, hrelation, List.maximum_cons, max_assoc]
        omega
      · simp [valuesOf, hrelation]
    · have hx' : ¬ ((K.mergeEdges [relation]).Knows x.1 ∧ (K.mergeEdges [relation]).Knows x.2.2) :=
        hx
      rw [(mergeEdges_unknown _ hx).1, (mergeEdges_unknown _ hx).2, (mergeEdges_unknown _ hx').1,
        (mergeEdges_unknown _ hx').2, (mergeEdges_unknown _ hx).1, (mergeEdges_unknown _ hx).2]
      exact ⟨rfl, rfl⟩
  ext x
  · rfl
  · rw [(hone x).1]
  · rw [(hone x).2]

end Knowledge

/-! ## The knowledge of a graph -/

namespace Graph

def labels (g : Graph) : List String := g.concepts.map (·.label)

/-- The ends and the relation of an edge, by ids. -/
def edgeKey (r : RelatesTo) : String × String × String := (r.source, r.relation, r.target)

/-- The ends and the relation of an edge, by labels. -/
def triple (row : Concept × RelatesTo × Concept) : String × String × String :=
  (row.1.label, row.2.1.relation, row.2.2.label)

/-- At most one concept for each label, and at most one edge for each triple of labels. -/
structure Unique (g : Graph) : Prop extends WellFormed g where
  labels : g.labels.Nodup
  triples : (g.relatesToRows.map triple).Nodup

/-- The edge between the labels. -/
def edge? (g : Graph) (x : String × String × String) : Option RelatesTo :=
  (Keyed.lookup triple x g.relatesToRows).map (·.2.1)

def knowledge (g : Graph) : Knowledge String String where
  concept label := (Keyed.lookup (·.label) label g.concepts).elim ⊥ fun c => c.confidence
  edge x := (g.edge? x).elim ⊥ fun r => r.confidence
  version x := (g.edge? x).elim 0 (·.version)

variable {g : Graph}

theorem names_ids : g.names.map (·.1) = g.concepts.map (·.id) := by
  simp [names, Function.comp_def]

theorem WellFormed.nodup_ids (h : g.WellFormed) : (g.concepts.map (·.id)).Nodup :=
  names_ids ▸ h.ids

theorem mem_labels {label : String} : label ∈ g.labels ↔ ∃ c ∈ g.concepts, c.label = label := by
  simp [labels]

/-- A label is known if a concept has it. -/
theorem knows_iff {label : String} : g.knowledge.Knows label ↔ label ∈ g.labels := by
  rw [mem_labels]
  change (Keyed.lookup (·.label) label g.concepts).elim ⊥
    (fun c => (c.confidence : WithBot ℚ)) ≠ ⊥ ↔ _
  cases h : Keyed.lookup (·.label) label g.concepts with
  | none =>
    refine iff_of_false (fun hne => hne rfl) ?_
    rintro ⟨c, hc, hlabel⟩
    exact Keyed.lookup_eq_none.mp h c hc hlabel
  | some c => exact iff_of_true (by simp) ⟨c, Keyed.mem_of_lookup h⟩

theorem idOf_eq_none {label : String} : g.idOf label = none ↔ label ∉ g.labels := by
  rw [idOf, Option.map_eq_none_iff, labelled?, Keyed.lookup_eq_none, mem_labels]
  simp

/-- The rows of a well-formed graph are its edges, each with its two ends. -/
theorem WellFormed.map_rows (h : g.WellFormed) :
    g.relatesToRows.map (·.2.1) = g.relatesTo := by
  have hend {id : String} (hid : id ∈ g.names.map (·.1)) : ∃ c, g.concept? id = some c := by
    obtain ⟨⟨id, label⟩, hmem, rfl⟩ := List.mem_map.mp hid
    obtain ⟨c, hc, rfl, -⟩ := mem_names.mp hmem
    exact ⟨c, h.concept? hc⟩
  have hrows (rs : List RelatesTo) (hsub : ∀ r ∈ rs, r ∈ g.relatesTo) :
      (rs.filterMap fun r => do
        let a ← g.concept? r.source
        let b ← g.concept? r.target
        return (a, r, b)).map (·.2.1) = rs := by
    induction rs with
    | nil => rfl
    | cons r rs ih =>
      obtain ⟨hsource, htarget⟩ := h.ends r (hsub r List.mem_cons_self)
      obtain ⟨a, ha⟩ := hend hsource
      obtain ⟨b, hb⟩ := hend htarget
      rw [List.filterMap_cons_some (by simp [ha, hb]; rfl), List.map_cons,
        ih fun r hr => hsub r (List.mem_cons_of_mem _ hr)]
  exact hrows g.relatesTo fun _ h => h

theorem row_ids {a b : Concept} {r : RelatesTo} (h : (a, r, b) ∈ g.relatesToRows) :
    a ∈ g.concepts ∧ a.id = r.source ∧ b ∈ g.concepts ∧ b.id = r.target := by
  obtain ⟨-, ha, hb⟩ := mem_relatesToRows.mp h
  exact ⟨List.mem_of_find?_eq_some ha, by simpa using List.find?_some ha,
    List.mem_of_find?_eq_some hb, by simpa using List.find?_some hb⟩

/-- Where ids and labels are unique, triples of ids and triples of labels are unique together. -/
theorem WellFormed.triples_nodup (h : g.WellFormed) (hlabels : g.labels.Nodup) :
    (g.relatesToRows.map triple).Nodup ↔ (g.relatesTo.map edgeKey).Nodup := by
  have hiff {x y : Concept × RelatesTo × Concept} (hx : x ∈ g.relatesToRows)
      (hy : y ∈ g.relatesToRows) : triple x = triple y ↔ edgeKey x.2.1 = edgeKey y.2.1 := by
    obtain ⟨a, r, b⟩ := x
    obtain ⟨a', r', b'⟩ := y
    obtain ⟨ha, hsource, hb, htarget⟩ := row_ids hx
    obtain ⟨ha', hsource', hb', htarget'⟩ := row_ids hy
    have hsame {c c' : Concept} (hc : c ∈ g.concepts) (hc' : c' ∈ g.concepts) :
        c.label = c'.label ↔ c.id = c'.id :=
      ⟨fun heq => congrArg _ (List.inj_on_of_nodup_map hlabels hc hc' heq),
        fun heq => congrArg _ (List.inj_on_of_nodup_map h.nodup_ids hc hc' heq)⟩
    simp only [triple, edgeKey, Prod.mk.injEq, hsame ha ha', hsame hb hb', hsource, hsource',
      htarget, htarget']
  rw [← h.map_rows, List.map_map]
  unfold List.Nodup
  rw [List.pairwise_map, List.pairwise_map]
  constructor
  · exact fun hrows => hrows.imp_of_mem fun hx hy hne heq => hne ((hiff hx hy).mpr heq)
  · exact fun hrows => hrows.imp_of_mem fun hx hy hne heq => hne ((hiff hx hy).mp heq)

theorem Unique.edgeKeys (h : g.Unique) : (g.relatesTo.map edgeKey).Nodup :=
  (h.triples_nodup h.labels).mp h.triples

theorem Unique.edge?_eq_some (h : g.Unique) {x : String × String × String} {r : RelatesTo} :
    g.edge? x = some r ↔ r ∈ g.relatesTo ∧ r.relation = x.2.1 ∧ (r.source, x.1) ∈ g.names ∧
      (r.target, x.2.2) ∈ g.names := by
  rw [edge?, Option.map_eq_some_iff]
  constructor
  · rintro ⟨⟨a, r, b⟩, hlookup, rfl⟩
    obtain ⟨hrow, rfl⟩ := Keyed.mem_of_lookup hlookup
    obtain ⟨ha, hsource, hb, htarget⟩ := row_ids hrow
    exact ⟨(mem_relatesToRows.mp hrow).1, rfl, mem_names.mpr ⟨a, ha, hsource, rfl⟩,
      mem_names.mpr ⟨b, hb, htarget, rfl⟩⟩
  · rintro ⟨hr, hrelation, hsource, htarget⟩
    obtain ⟨a, ha, hsource, hs⟩ := mem_names.mp hsource
    obtain ⟨b, hb, htarget, ht⟩ := mem_names.mp htarget
    have hrow : (a, r, b) ∈ g.relatesToRows :=
      mem_relatesToRows.mpr ⟨hr, hsource ▸ h.concept? ha, htarget ▸ h.concept? hb⟩
    refine ⟨(a, r, b), (Keyed.lookup_eq_some h.triples).mpr ⟨hrow, ?_⟩, rfl⟩
    rw [triple, hs, ht, hrelation]

/-- The edge between the labels of two concepts is the one between their ids. -/
theorem Unique.edge?_eq_lookup (h : g.Unique) {a b : Concept} (ha : a ∈ g.concepts)
    (hb : b ∈ g.concepts) (relation : String) :
    g.edge? (a.label, relation, b.label) =
      Keyed.lookup edgeKey (a.id, relation, b.id) g.relatesTo := by
  have hid {c : Concept} (hc : c ∈ g.concepts) {id : String} :
      (id, c.label) ∈ g.names ↔ id = c.id := by
    rw [mem_names]
    constructor
    · rintro ⟨c', hc', rfl, hlabel⟩
      rw [List.inj_on_of_nodup_map h.labels hc' hc hlabel]
    · rintro rfl
      exact ⟨c, hc, rfl, rfl⟩
  ext r
  rw [h.edge?_eq_some, Keyed.lookup_eq_some h.edgeKeys, hid ha, hid hb, edgeKey]
  simp only [Prod.mk.injEq]
  tauto

/-- No edge ends in a label that no concept has. -/
theorem edge?_unknown {x : String × String × String}
    (h : ¬ (x.1 ∈ g.labels ∧ x.2.2 ∈ g.labels)) : g.edge? x = none := by
  rw [edge?, Option.map_eq_none_iff, Keyed.lookup_eq_none]
  rintro ⟨a, r, b⟩ hrow rfl
  obtain ⟨ha, -, hb, -⟩ := row_ids hrow
  exact h ⟨mem_labels.mpr ⟨a, ha, rfl⟩, mem_labels.mpr ⟨b, hb, rfl⟩⟩

/-! ## One upsert -/

/-- The update of a concept that is found. -/
def raise (confidence : ℚ) (c : Concept) : Concept :=
  { c with confidence := max c.confidence confidence }

/-- The graph with the concept `new`, or with its confidence for the label. -/
def upsertConcept (g : Graph) (new : Concept) : Graph :=
  { g with concepts := Keyed.upsert (·.label) new.label new (raise new.confidence) g.concepts }

theorem names_upsertConcept (g : Graph) (new : Concept) :
    g.names <+: (g.upsertConcept new).names := Keyed.map_upsert_extends fun _ _ => rfl

theorem Unique.upsertConcept (h : g.Unique) {new : Concept}
    (hid : new.label ∉ g.labels → new.id ∉ g.names.map (·.1)) :
    (g.upsertConcept new).Unique ∧
      (g.upsertConcept new).knowledge =
        g.knowledge.mergeConcepts [(new.label, new.confidence)] := by
  have hnames : (new.label ∈ g.labels ∧ (g.upsertConcept new).names = g.names) ∨
      (new.label ∉ g.labels ∧ (g.upsertConcept new).names = g.names ++ [(new.id, new.label)]) :=
    Keyed.map_upsert fun _ _ => rfl
  have hmem {id label : String} (hold : id ∈ g.names.map (·.1)) :
      (id, label) ∈ (g.upsertConcept new).names ↔ (id, label) ∈ g.names := by
    rcases hnames with ⟨-, hnames⟩ | ⟨hlabel, hnames⟩ <;> rw [hnames]
    rw [List.mem_append, or_iff_left]
    intro hnew
    cases List.mem_singleton.mp hnew
    exact hid hlabel hold
  have hwf : (g.upsertConcept new).WellFormed := by
    rcases hnames with ⟨-, hnames⟩ | ⟨hlabel, hnames⟩
    · exact h.grow (hnames ▸ h.ids) (hnames ▸ List.Subset.refl _) rfl
    · exact h.grow (hnames ▸ h.ids_concat _ (hid hlabel)) (hnames ▸ List.subset_append_left _ _) rfl
  have hlabels : (g.upsertConcept new).labels.Nodup :=
    Keyed.nodup_upsert rfl (fun _ hc => hc) h.labels
  have hunique : (g.upsertConcept new).Unique :=
    ⟨hwf, hlabels, (hwf.triples_nodup hlabels).mpr h.edgeKeys⟩
  have hedge (x : String × String × String) : (g.upsertConcept new).edge? x = g.edge? x := by
    ext r
    rw [hunique.edge?_eq_some, h.edge?_eq_some]
    constructor
    · rintro ⟨hr, hrelation, hsource, htarget⟩
      exact ⟨hr, hrelation, (hmem (h.ends r hr).1).mp hsource, (hmem (h.ends r hr).2).mp htarget⟩
    · rintro ⟨hr, hrelation, hsource, htarget⟩
      exact ⟨hr, hrelation, (hmem (h.ends r hr).1).mpr hsource, (hmem (h.ends r hr).2).mpr htarget⟩
  refine ⟨hunique, ?_⟩
  ext x
  · change (Keyed.lookup (·.label) x (g.upsertConcept new).concepts).elim ⊥
      (fun c => (c.confidence : WithBot ℚ)) = max ((Keyed.lookup (·.label) x g.concepts).elim ⊥
      fun c => (c.confidence : WithBot ℚ)) (valuesOf x [(new.label, new.confidence)]).maximum
    by_cases hx : x = new.label
    · subst hx
      have hlookup : Keyed.lookup (·.label) new.label (g.upsertConcept new).concepts =
          some ((Keyed.lookup (·.label) new.label g.concepts).elim new (raise new.confidence)) :=
        Keyed.lookup_upsert rfl fun _ hc => hc
      rw [hlookup]
      cases Keyed.lookup (·.label) new.label g.concepts <;> simp [valuesOf, raise]
    · have hlookup : Keyed.lookup (·.label) x (g.upsertConcept new).concepts =
          Keyed.lookup (·.label) x g.concepts :=
        Keyed.lookup_upsert_ne rfl (fun _ hc => hc) hx
      rw [hlookup]
      simp [valuesOf, Ne.symm hx]
  · change ((g.upsertConcept new).edge? x).elim ⊥ (fun r => (r.confidence : WithBot ℚ)) = _
    rw [hedge]
    rfl
  · change ((g.upsertConcept new).edge? x).elim 0 (·.version) = _
    rw [hedge]
    rfl

/-- The update of an edge that is found. -/
def strengthen (confidence : ℚ) (r : RelatesTo) : RelatesTo :=
  { r with confidence := max r.confidence confidence, version := r.version + 1 }

/-- The graph with the edge `new`, or with its confidence for the edge that is there. -/
def upsertEdge (g : Graph) (new : RelatesTo) : Graph :=
  { g with relatesTo :=
      Keyed.upsert edgeKey (edgeKey new) new (strengthen new.confidence) g.relatesTo }

theorem WellFormed.upsertEdge (h : g.WellFormed) {a b : Concept} (ha : a ∈ g.concepts)
    (hb : b ∈ g.concepts) {relation : String} {confidence : ℚ} :
    (g.upsertEdge ⟨a.id, b.id, relation, confidence, 1⟩).WellFormed := by
  set new : RelatesTo := ⟨a.id, b.id, relation, confidence, 1⟩
  refine ⟨h.ids, fun r hr => ?_⟩
  -- the keys, and with them the ends, are the old ones and that of the new edge
  have hkey : edgeKey r ∈ (g.upsertEdge new).relatesTo.map edgeKey := List.mem_map_of_mem hr
  have hcases : edgeKey r ∈ g.relatesTo.map edgeKey ∨ edgeKey r = edgeKey new := by
    have hkeys : (edgeKey new ∈ g.relatesTo.map edgeKey ∧
          (g.upsertEdge new).relatesTo.map edgeKey = g.relatesTo.map edgeKey) ∨
        (edgeKey new ∉ g.relatesTo.map edgeKey ∧
          (g.upsertEdge new).relatesTo.map edgeKey = g.relatesTo.map edgeKey ++ [edgeKey new]) :=
      Keyed.map_upsert fun _ _ => rfl
    rcases hkeys with ⟨-, hkeys⟩ | ⟨-, hkeys⟩ <;> rw [hkeys] at hkey
    · exact .inl hkey
    · simpa using hkey
  have hend {c : Concept} (hc : c ∈ g.concepts) : c.id ∈ g.names.map (·.1) :=
    List.mem_map.mpr ⟨(c.id, c.label), mem_names.mpr ⟨c, hc, rfl, rfl⟩, rfl⟩
  rcases hcases with hold | hnew
  · obtain ⟨r', hr', heq⟩ := List.mem_map.mp hold
    simp only [edgeKey, Prod.mk.injEq] at heq
    rw [← heq.1, ← heq.2.2]
    exact h.ends r' hr'
  · simp only [edgeKey, Prod.mk.injEq] at hnew
    rw [hnew.1, hnew.2.2]
    exact ⟨hend ha, hend hb⟩

theorem Unique.upsertEdge (h : g.Unique) {a b : Concept} (ha : a ∈ g.concepts)
    (hb : b ∈ g.concepts) (relation : String) (confidence : ℚ) :
    (g.upsertEdge ⟨a.id, b.id, relation, confidence, 1⟩).Unique ∧
      (g.upsertEdge ⟨a.id, b.id, relation, confidence, 1⟩).knowledge =
        g.knowledge.mergeEdges [((a.label, relation, b.label), confidence)] := by
  set new : RelatesTo := ⟨a.id, b.id, relation, confidence, 1⟩
  have hwf : (g.upsertEdge new).WellFormed := h.toWellFormed.upsertEdge ha hb
  have hunique : (g.upsertEdge new).Unique :=
    ⟨hwf, h.labels, (hwf.triples_nodup h.labels).mpr
      (Keyed.nodup_upsert rfl (fun _ hr => hr) h.edgeKeys)⟩
  have hedge (x : String × String × String) : (g.upsertEdge new).edge? x =
      if x = (a.label, relation, b.label) then some ((g.edge? x).elim new (strengthen confidence))
      else g.edge? x := by
    obtain ⟨s, r, t⟩ := x
    by_cases hknown : s ∈ g.labels ∧ t ∈ g.labels
    · obtain ⟨⟨c, hc, rfl⟩, ⟨d, hd, rfl⟩⟩ := hknown.imp mem_labels.mp mem_labels.mp
      rw [hunique.edge?_eq_lookup hc hd, h.edge?_eq_lookup hc hd]
      split_ifs with hx
      · simp only [Prod.mk.injEq] at hx
        obtain ⟨hca, rfl, hdb⟩ := hx
        rw [List.inj_on_of_nodup_map h.labels hc ha hca,
          List.inj_on_of_nodup_map h.labels hd hb hdb]
        exact Keyed.lookup_upsert rfl fun _ hr => hr
      · refine Keyed.lookup_upsert_ne rfl (fun _ hr => hr) fun hkey => hx ?_
        simp only [edgeKey, new, Prod.mk.injEq] at hkey
        rw [List.inj_on_of_nodup_map h.nodup_ids hc ha hkey.1, hkey.2.1,
          List.inj_on_of_nodup_map h.nodup_ids hd hb hkey.2.2]
    · have hnone : g.edge? (s, r, t) = none := edge?_unknown hknown
      have hnone' : (g.upsertEdge new).edge? (s, r, t) = none := edge?_unknown hknown
      rw [hnone, hnone', if_neg]
      intro hx
      simp only [Prod.mk.injEq] at hx
      exact hknown ⟨hx.1 ▸ mem_labels.mpr ⟨a, ha, rfl⟩, hx.2.2 ▸ mem_labels.mpr ⟨b, hb, rfl⟩⟩
  refine ⟨hunique, ?_⟩
  have hstep (x : String × String × String) :
      (g.upsertEdge new).knowledge.edge x =
        (g.knowledge.mergeEdges [((a.label, relation, b.label), confidence)]).edge x ∧
      (g.upsertEdge new).knowledge.version x =
        (g.knowledge.mergeEdges [((a.label, relation, b.label), confidence)]).version x := by
    by_cases hknown : g.knowledge.Knows x.1 ∧ g.knowledge.Knows x.2.2
    · rw [(Knowledge.mergeEdges_known _ hknown).1, (Knowledge.mergeEdges_known _ hknown).2]
      change ((g.upsertEdge new).edge? x).elim ⊥ (fun r => (r.confidence : WithBot ℚ)) =
          max ((g.edge? x).elim ⊥ fun r => (r.confidence : WithBot ℚ)) _ ∧
        ((g.upsertEdge new).edge? x).elim 0 (·.version) = (g.edge? x).elim 0 (·.version) + _
      rw [hedge]
      by_cases hx : x = (a.label, relation, b.label)
      · rw [if_pos hx]
        cases g.edge? x <;> simp [valuesOf, hx, strengthen, new]
      · simp [valuesOf, hx, Ne.symm hx]
    · rw [(Knowledge.mergeEdges_unknown _ hknown).1, (Knowledge.mergeEdges_unknown _ hknown).2]
      rw [knows_iff, knows_iff] at hknown
      have hnone := edge?_unknown hknown
      have hnone' : (g.upsertEdge new).edge? x = none := edge?_unknown hknown
      simp only [knowledge, hnone, hnone', and_self]
  ext x
  · rfl
  · rw [(hstep x).1]
  · rw [(hstep x).2]

end Graph

/-! ## The code of one upsert -/

section Writer

variable {name : String} {w : World} {P : Prop}

/-- Where `P` guarantees that the graph is ready, the only exception is that of an id that is taken.
-/
def FailsOnTakenId (P : Prop) (name : String) (e : Exn) (w : World) : Prop :=
  P → e = .kuzuError "Found duplicated primary key value." ∧ IdTaken name w

/-- The graph has become `g`, and it is still ready if it was. -/
structure Becomes (P : Prop) (name : String) (g : Graph) (w : World) : Prop where
  graph : w.graphs name = g
  ready : P → GraphReady w name

theorem Becomes.idle {g : Graph} {w1 : World} (hw : Becomes P name g w) (h : Idle w w1) :
    Becomes P name g w1 :=
  ⟨h.graphs ▸ hw.graph, fun hP => h.graphReady (hw.ready hP)⟩

theorem Becomes.setGraph {g g' : Graph} {w1 : World} (hw : Becomes P name g w) (h : Idle w w1)
    (htables : g'.tables = g.tables) : Becomes P name g' (w1.setGraph name g') := by
  refine ⟨Function.update_self _ _ _, fun hP => ?_⟩
  have hready := h.graphReady (hw.ready hP)
  refine ⟨hready.name, fun t => ?_, hready.healthy⟩
  have ht := hready.tables t
  rw [h.graphs, hw.graph] at ht
  simpa [htables] using ht

variable {g : Graph}

/-- The graph has learned the entity, under the id `r.1`, and the summary counts it. -/
def Finds (P : Prop) (name : String) (g : Graph) (entity : ExtractedEntity)
    (summary : WriteSummary) (r : String × WriteSummary) (w : World) : Prop :=
  ∃ new : Concept, new.label = entity.label ∧ new.nspace = "task" ∧
    new.confidence = entity.confidence.val ∧
    (new.label ∉ g.labels → new.id ∉ g.names.map (·.1)) ∧
    (r.1, entity.label) ∈ (g.upsertConcept new).names ∧
    Becomes P name (g.upsertConcept new) w ∧
    r.2.nodesCreated + r.2.nodesMatched = summary.nodesCreated + summary.nodesMatched + 1 ∧
    r.2.edgesCreated = summary.edgesCreated ∧ r.2.edgesUpdated = summary.edgesUpdated

theorem findOrCreateConcept_spec {entity : ExtractedEntity} {now : Datetime}
    {summary : WriteSummary} (hg : g.Unique) (hw : Becomes P name g w) :
    Triple (findOrCreateConcept name entity now summary) w (Finds P name g entity summary)
      (FailsOnTakenId P name) := by
  -- the upsert of a concept that is found, and what it does to the others
  have hmatched {c : Concept} (hfound : g.labelled? entity.label = some c) {w' : World} {g' : Graph}
      (hw' : Becomes P name g' w')
      (heq : g' = { g with concepts := g.concepts.map fun c' =>
        if c' = c then Graph.raise entity.confidence.val c' else c' }) :
      Finds P name g entity summary
        (c.id, { summary with nodesMatched := summary.nodesMatched + 1 }) w' := by
    obtain ⟨hc, hlabel⟩ := Keyed.mem_of_lookup hfound
    have hknown : entity.label ∈ g.labels := Graph.mem_labels.mpr ⟨c, hc, hlabel⟩
    set new : Concept := ⟨c.id, entity.label, "task", entity.confidence.val, now⟩
    have hupsert : g.upsertConcept new = { g with
        concepts := g.concepts.map fun c' =>
          if c' = c then Graph.raise entity.confidence.val c' else c' } := by
      refine congrArg (fun concepts => { g with concepts }) ((Keyed.upsert_of_some hfound).trans
        (List.map_congr_left fun c' hc' => ?_))
      have hiff : c'.label = entity.label ↔ c' = c :=
        ⟨fun h => List.inj_on_of_nodup_map hg.labels hc' hc (h.trans hlabel.symm),
          fun h => h ▸ hlabel⟩
      simp only [new, hiff]
    have hid : (c.id, entity.label) ∈ (g.upsertConcept new).names :=
      (g.names_upsertConcept new).subset (Graph.mem_names.mpr ⟨c, hc, rfl, hlabel⟩)
    exact ⟨new, rfl, rfl, rfl, fun hno => absurd hknown hno, hid, (heq.trans hupsert.symm) ▸ hw',
      rfl, rfl, rfl⟩
  refine findOrCreateConcept_rule hw.graph (fun e w1 _ h hP => h (hw.ready hP))
    (fun c w1 hw1 hfound hhigh => hmatched hfound (hw.idle hw1) ?_)
    (fun c w1 hw1 hfound hlow => hmatched hfound (hw.setGraph hw1 rfl) ?_)
    fun u w1 hw1 hmissing hnew => ?_
  · have hsame : (g.concepts.map fun c' =>
        if c' = c then Graph.raise entity.confidence.val c' else c') = g.concepts := by
      refine (List.map_congr_left fun c' _ => ?_).trans (List.map_id _)
      split_ifs with hcc
      · rw [hcc, Graph.raise, max_eq_left hhigh, id]
      · rfl
    rw [hsame]
  · obtain ⟨hc, -⟩ := Keyed.mem_of_lookup hfound
    congr 1
    refine List.map_congr_left fun c' hc' => ?_
    by_cases hcc : c' = c
    · subst hcc
      rw [if_pos rfl, if_pos rfl, Graph.raise, max_eq_right hlow.le]
    · rw [if_neg hcc, if_neg fun h => hcc (List.inj_on_of_nodup_map hg.nodup_ids hc' hc h)]
  · set new : Concept :=
      ⟨s!"concept-{u.hexPrefix 12}", entity.label, "task", entity.confidence.val, now⟩
    have hupsert : g.upsertConcept new = { g with concepts := g.concepts ++ [new] } :=
      congrArg (fun concepts => { g with concepts }) (Keyed.upsert_of_none hmissing)
    refine ⟨new, rfl, rfl, rfl, fun _ => Graph.names_ids ▸ hnew, ?_, ?_, ?_, rfl, rfl⟩
    · rw [hupsert, Graph.mem_names]
      exact ⟨new, by simp, rfl, rfl⟩
    · rw [hupsert]
      exact hw.setGraph hw1 rfl
    · dsimp only
      omega

/-- The first row of the match on ids is that of the edge. -/
theorem head_relations (hg : g.WellFormed) (sourceId targetId relation : String) :
    (g.relations sourceId targetId relation).head? =
      (Keyed.lookup Graph.edgeKey (sourceId, relation, targetId) g.relatesTo).map fun r =>
        (r.confidence, r.version) := by
  have hfilter : (g.relatesToRows.filter fun row =>
      row.1.id = sourceId ∧ row.2.2.id = targetId ∧ row.2.1.relation = relation) =
      g.relatesToRows.filter fun row =>
        Graph.edgeKey row.2.1 = (sourceId, relation, targetId) := by
    refine List.filter_congr fun ⟨a, r, b⟩ hrow => ?_
    obtain ⟨-, hsource, -, htarget⟩ := Graph.row_ids hrow
    simp only [Graph.edgeKey, hsource, htarget, Prod.mk.injEq, decide_eq_decide]
    tauto
  have hrelations : g.relations sourceId targetId relation =
      (g.relatesToRows.filter fun row =>
        Graph.edgeKey row.2.1 = (sourceId, relation, targetId)).map fun row =>
          (row.2.1.confidence, row.2.1.version) := congrArg (List.map _) hfilter
  rw [hrelations, List.head?_map, List.head?_filter, Keyed.lookup]
  conv_rhs => rw [← hg.map_rows, List.find?_map, Option.map_map]
  rfl

/-- Setting the edges of a relation from the first of them is the upsert, as there is only one. -/
theorem upsertEdge_of_head (hg : g.WellFormed) (hkeys : (g.relatesTo.map Graph.edgeKey).Nodup)
    {new : RelatesTo} {old : ℚ × Int}
    (hhead : (g.relations new.source new.target new.relation).head? = some old) :
    { g with
      relatesTo := g.relatesTo.map fun r =>
        if r.source = new.source ∧ r.target = new.target ∧ r.relation = new.relation then
          { r with confidence := max old.1 new.confidence, version := old.2 + 1 }
        else r } = g.upsertEdge new := by
  rw [head_relations hg, Option.map_eq_some_iff] at hhead
  obtain ⟨r, hlookup, rfl⟩ := hhead
  change Keyed.lookup Graph.edgeKey (Graph.edgeKey new) g.relatesTo = some r at hlookup
  obtain ⟨hr, hkey⟩ := Keyed.mem_of_lookup hlookup
  refine congrArg (fun relatesTo => { g with relatesTo }) (Eq.trans ?_
    (Keyed.upsert_of_some hlookup).symm)
  refine List.map_congr_left fun r' hr' => ?_
  have hiff : (r'.source = new.source ∧ r'.target = new.target ∧ r'.relation = new.relation) ↔
      Graph.edgeKey r' = Graph.edgeKey new := by
    simp only [Graph.edgeKey, Prod.mk.injEq]
    tauto
  by_cases hkey' : Graph.edgeKey r' = Graph.edgeKey new
  · -- the edge that is updated is the one that was read
    obtain rfl : r' = r := List.inj_on_of_nodup_map hkeys hr' hr (hkey'.trans hkey.symm)
    rw [if_pos (hiff.mpr hkey'), if_pos hkey', Graph.strengthen]
  · rw [if_neg (hiff.not.mpr hkey'), if_neg hkey']

/-- Making the edges between the concepts with two ids is the upsert, as there is one of each. -/
theorem upsertEdge_of_none (hg : g.WellFormed) {a b : Concept} (ha : a ∈ g.concepts)
    (hb : b ∈ g.concepts) {relation : String} {confidence : ℚ}
    (hhead : (g.relations a.id b.id relation).head? = none) :
    { g with
      relatesTo := g.relatesTo ++ ((g.concepts.filter (·.id = a.id)).flatMap fun a =>
        (g.concepts.filter (·.id = b.id)).map fun b => ⟨a.id, b.id, relation, confidence, 1⟩) } =
      g.upsertEdge ⟨a.id, b.id, relation, confidence, 1⟩ := by
  rw [head_relations hg, Option.map_eq_none_iff] at hhead
  have hone {c : Concept} (hc : c ∈ g.concepts) : g.concepts.filter (·.id = c.id) = [c] := by
    rw [Keyed.filter_key hg.nodup_ids, (Keyed.lookup_eq_some hg.nodup_ids).mpr ⟨hc, rfl⟩]
    rfl
  rw [hone ha, hone hb]
  exact congrArg (fun relatesTo => { g with relatesTo }) (Keyed.upsert_of_none hhead).symm

/-- Where triples of ids are unique and the cache holds what the graph finds, the upsert of a
relation is that of its edge, or nothing if an end is not found. -/
theorem upsertRelation_upserts {relation : ExtractedRelation} {confidence : ℚ} {labelToId : Dict}
    {summary : WriteSummary} (hw : w.graphs name = g) (hg : g.WellFormed)
    (hkeys : (g.relatesTo.map Graph.edgeKey).Nodup)
    (hcache : ∀ label id, labelToId.lookup label = some id → g.idOf label = some id) :
    Triple (upsertRelation name relation confidence labelToId summary) w
      (fun summary' w' =>
        (summary' = summary ∧ Idle w w' ∧
          (g.idOf relation.source = none ∨ g.idOf relation.target = none)) ∨
        ∃ a b w1, g.labelled? relation.source = some a ∧ g.labelled? relation.target = some b ∧
          Idle w w1 ∧
          w' = w1.setGraph name (g.upsertEdge ⟨a.id, b.id, relation.relationType, confidence, 1⟩) ∧
          (summary' = { summary with edgesUpdated := summary.edgesUpdated + 1 } ∨
            summary' = { summary with edgesCreated := summary.edgesCreated + 1 }))
      fun _ w' => Idle w w' ∧ ¬ GraphReady w name := by
  have hlookup (label : String) : g.lookupId labelToId label = g.idOf label := by
    rw [Graph.lookupId]
    cases hcached : labelToId.lookup label with
    | none => rfl
    | some id =>
      dsimp only
      split_ifs
      · rfl
      · exact (hcache label id hcached).symm
  have hfound {label id : String} (h : g.lookupId labelToId label = some id) :
      ∃ c, g.labelled? label = some c ∧ c ∈ g.concepts ∧ c.id = id := by
    rw [hlookup] at h
    obtain ⟨c, hc, rfl⟩ := Option.map_eq_some_iff.mp h
    exact ⟨c, hc, (Keyed.mem_of_lookup hc).1, rfl⟩
  refine upsertRelation_rule hw (fun e w1 hw1 hready => ⟨hw1, hready⟩)
    (fun w1 hw1 hnone => .inl ⟨rfl, hw1, ?_⟩) (fun sourceId targetId old w1 hw1 hs ht hhead => ?_)
    fun sourceId targetId w1 hw1 hs ht hhead => ?_
  · rwa [hlookup, hlookup] at hnone
  · obtain ⟨a, ha, -, rfl⟩ := hfound hs
    obtain ⟨b, hb, -, rfl⟩ := hfound ht
    set new : RelatesTo := ⟨a.id, b.id, relation.relationType, confidence, 1⟩
    have hupsert := upsertEdge_of_head hg hkeys (show (g.relations new.source new.target
      new.relation).head? = some old from hhead)
    exact .inr ⟨a, b, w1, ha, hb, hw1, congrArg (w1.setGraph name) hupsert, .inl rfl⟩
  · obtain ⟨a, ha, hamem, rfl⟩ := hfound hs
    obtain ⟨b, hb, hbmem, rfl⟩ := hfound ht
    exact .inr ⟨a, b, w1, ha, hb, hw1, by rw [upsertEdge_of_none hg hamem hbmem hhead], .inr rfl⟩

/-- The graph has learned the relation if it knows both labels, and the summary counts it. -/
def Connects (P : Prop) (name : String) (g : Graph) (relation : ExtractedRelation)
    (confidence : ℚ) (summary summary' : WriteSummary) (w : World) : Prop :=
  summary'.nodesCreated = summary.nodesCreated ∧ summary'.nodesMatched = summary.nodesMatched ∧
  ((∃ a ∈ g.concepts, ∃ b ∈ g.concepts, a.label = relation.source ∧ b.label = relation.target ∧
    Becomes P name (g.upsertEdge ⟨a.id, b.id, relation.relationType, confidence, 1⟩) w ∧
    summary'.edgesCreated + summary'.edgesUpdated =
      summary.edgesCreated + summary.edgesUpdated + 1) ∨
  (¬ (relation.source ∈ g.labels ∧ relation.target ∈ g.labels) ∧ Becomes P name g w ∧
    summary'.edgesCreated + summary'.edgesUpdated = summary.edgesCreated + summary.edgesUpdated))

theorem upsertRelation_spec {relation : ExtractedRelation} {confidence : ℚ} {labelToId : Dict}
    {summary : WriteSummary} (hg : g.Unique) (hknown : Known labelToId g)
    (hw : Becomes P name g w) :
    Triple (upsertRelation name relation confidence labelToId summary) w
      (Connects P name g relation confidence summary) (FailsOnTakenId P name) := by
  have hcache (label id : String) (h : labelToId.lookup label = some id) :
      g.idOf label = some id := by
    obtain ⟨c, hc, rfl, hlabel⟩ := Graph.mem_names.mp (hknown label id h)
    have hfound : g.labelled? label = some c := (Keyed.lookup_eq_some hg.labels).mpr ⟨hc, hlabel⟩
    rw [Graph.idOf, hfound]
    rfl
  refine (upsertRelation_upserts hw.graph hg.toWellFormed hg.edgeKeys hcache).mono ?_
    fun e w' h hP => absurd (hw.ready hP) h.2
  rintro summary' w' (⟨rfl, hw', hnone⟩ | ⟨a, b, w1, ha, hb, hw1, rfl, hcount⟩)
  · refine ⟨rfl, rfl, .inr ⟨fun hknows => ?_, hw.idle hw', rfl⟩⟩
    rcases hnone with hnone | hnone
    · exact Graph.idOf_eq_none.mp hnone hknows.1
    · exact Graph.idOf_eq_none.mp hnone hknows.2
  · obtain ⟨ha, hsource⟩ := Keyed.mem_of_lookup ha
    obtain ⟨hb, htarget⟩ := Keyed.mem_of_lookup hb
    have hw' : Becomes P name (g.upsertEdge ⟨a.id, b.id, relation.relationType, confidence, 1⟩)
        (w1.setGraph name _) := hw.setGraph hw1 rfl
    rcases hcount with rfl | rfl
    · exact ⟨rfl, rfl, .inl ⟨a, ha, b, hb, hsource, htarget, hw', by dsimp only; omega⟩⟩
    · exact ⟨rfl, rfl, .inl ⟨a, ha, b, hb, hsource, htarget, hw', by dsimp only; omega⟩⟩

/-! ## The loops -/

/-- The confidences that the entities give to their labels. -/
def givenConfidences (entities : List ExtractedEntity) : List (String × ℚ) :=
  entities.map fun entity => (entity.label, entity.confidence.val)

/-- The confidences that the writer assigns to the triples of the relations. -/
def assignedConfidences (isFollowup : Bool) (relations : List ExtractedRelation) :
    List ((String × String × String) × ℚ) :=
  relations.map fun relation =>
    ((relation.source, relation.relationType, relation.target),
      assignConfidence relation isFollowup)

/-- What a concept is, apart from its confidence. -/
def Concept.identity (c : Concept) : String × String × String × Datetime :=
  (c.id, c.label, c.nspace, c.createdAt)

/-- The concepts and edges of `g` are still there, in their places, with the same identity and the
same ends. -/
structure Graph.Extends (g g' : Graph) : Prop where
  concepts : g.concepts.map Concept.identity <+: g'.concepts.map Concept.identity
  edges : g.relatesTo.map edgeKey <+: g'.relatesTo.map edgeKey
  learns : Learns g g'

instance : IsPreorder Graph Graph.Extends where
  refl _ := ⟨List.prefix_rfl, List.prefix_rfl, rfl, rfl, rfl⟩
  trans _ _ _ h1 h2 := ⟨h1.concepts.trans h2.concepts, h1.edges.trans h2.edges,
    h2.learns.tables.trans h1.learns.tables, h2.learns.roles.trans h1.learns.roles,
    h2.learns.handsOffTo.trans h1.learns.handsOffTo⟩

theorem Graph.extends_upsertConcept (g : Graph) (new : Concept) :
    g.Extends (g.upsertConcept new) :=
  ⟨Keyed.map_upsert_extends fun _ _ => rfl, List.prefix_rfl, rfl, rfl, rfl⟩

theorem Graph.extends_upsertEdge (g : Graph) (new : RelatesTo) : g.Extends (g.upsertEdge new) :=
  ⟨List.prefix_rfl, Keyed.map_upsert_extends fun _ _ => rfl, rfl, rfl, rfl⟩

theorem writeEntities_spec {now : Datetime} {entities : List ExtractedEntity} {labelToId : Dict}
    {summary : WriteSummary} (hg : g.Unique) (hknown : Known labelToId g)
    (hw : Becomes P name g w) :
    Triple (writeEntities name now entities (labelToId, summary)) w
      (fun r w' => ∃ g' : Graph, g'.Unique ∧ Known r.1 g' ∧ g.Extends g' ∧
        g'.knowledge = g.knowledge.mergeConcepts (givenConfidences entities) ∧
        Becomes P name g' w' ∧
        r.2.nodesCreated + r.2.nodesMatched =
          summary.nodesCreated + summary.nodesMatched + entities.length ∧
        r.2.edgesCreated = summary.edgesCreated ∧ r.2.edgesUpdated = summary.edgesUpdated)
      (FailsOnTakenId P name) := by
  induction entities generalizing g labelToId summary w with
  | nil =>
    exact .pure ⟨g, hg, hknown, refl_of Graph.Extends g,
      (Knowledge.mergeConcepts_nil (K := g.knowledge)).symm, hw, rfl, rfl, rfl⟩
  | cons entity entities ih =>
    refine .bind (findOrCreateConcept_spec hg hw) ?_
    rintro r w1 ⟨new, hlabel, -, hconfidence, hid, hfound, hw1, hnodes, hcreated, hupdated⟩
    obtain ⟨hg1, hknowledge1⟩ := hg.upsertConcept hid
    have hknown1 : Known (labelToId.insert entity.label r.1) (g.upsertConcept new) := by
      intro label id h
      by_cases heq : label = entity.label
      · subst heq
        rw [AList.lookup_insert] at h
        cases h
        exact hfound
      · rw [AList.lookup_insert_ne heq] at h
        exact (g.names_upsertConcept new).subset (hknown label id h)
    refine (ih hg1 hknown1 hw1).mono ?_ fun _ _ h => h
    rintro r' w' ⟨g', hg', hknown', hextends, hknowledge, hw', hnodes', hcreated', hupdated'⟩
    refine ⟨g', hg', hknown', trans_of Graph.Extends (g.extends_upsertConcept new) hextends, ?_,
      hw', ?_, hcreated'.trans hcreated, hupdated'.trans hupdated⟩
    · rw [hknowledge, hknowledge1, hlabel, hconfidence]
      exact Knowledge.mergeConcepts_cons.symm
    · rw [hnodes', hnodes, List.length_cons]
      omega

/-- The relations with two known ends. -/
def connected (g : Graph) (relations : List ExtractedRelation) : List ExtractedRelation :=
  relations.filter fun relation => relation.source ∈ g.labels ∧ relation.target ∈ g.labels

/-- A relation with an unknown label adds nothing. -/
theorem Graph.mergeEdges_missing {isFollowup : Bool} {relation : ExtractedRelation}
    {relations : List ExtractedRelation}
    (hmissing : ¬ (relation.source ∈ g.labels ∧ relation.target ∈ g.labels)) :
    g.knowledge.mergeEdges (assignedConfidences isFollowup (relation :: relations)) =
      g.knowledge.mergeEdges (assignedConfidences isFollowup relations) := by
  have hunknown : ¬ (g.knowledge.Knows relation.source ∧ g.knowledge.Knows relation.target) := by
    rwa [knows_iff, knows_iff]
  refine Knowledge.mergeEdges_cons.trans ?_
  rw [Knowledge.mergeEdges_singleton_unknown hunknown]
  rfl

theorem writeRelations_spec {isFollowup : Bool} {relations : List ExtractedRelation}
    {labelToId : Dict} {summary : WriteSummary} (hg : g.Unique) (hknown : Known labelToId g)
    (hw : Becomes P name g w) :
    Triple (writeRelations name isFollowup labelToId relations summary) w
      (fun summary' w' => ∃ g' : Graph, g'.Unique ∧ g'.concepts = g.concepts ∧ g.Extends g' ∧
        g'.knowledge = g.knowledge.mergeEdges (assignedConfidences isFollowup relations) ∧
        Becomes P name g' w' ∧
        summary'.nodesCreated = summary.nodesCreated ∧
        summary'.nodesMatched = summary.nodesMatched ∧
        summary'.edgesCreated + summary'.edgesUpdated =
          summary.edgesCreated + summary.edgesUpdated + (connected g relations).length)
      (FailsOnTakenId P name) := by
  induction relations generalizing g summary w with
  | nil =>
    exact .pure ⟨g, hg, rfl, refl_of Graph.Extends g,
      (Knowledge.mergeEdges_nil (K := g.knowledge)).symm, hw, rfl, rfl, rfl⟩
  | cons relation relations ih =>
    refine .bind (upsertRelation_spec hg hknown hw)
      fun summary1 w1 ⟨hcreated, hmatched, hconnects⟩ => ?_
    rcases hconnects with ⟨a, ha, b, hb, hsource, htarget, hw1, hedges⟩ | ⟨hmissing, hw1, hedges⟩
    · obtain ⟨hg1, hknowledge1⟩ := hg.upsertEdge ha hb relation.relationType
        (assignConfidence relation isFollowup)
      have hends : relation.source ∈ g.labels ∧ relation.target ∈ g.labels :=
        ⟨Graph.mem_labels.mpr ⟨a, ha, hsource⟩, Graph.mem_labels.mpr ⟨b, hb, htarget⟩⟩
      refine (ih hg1 hknown hw1).mono ?_ fun _ _ h => h
      rintro summary' w' ⟨g', hg', hconcepts, hextends, hknowledge, hw', hcreated', hmatched',
        hedges'⟩
      refine ⟨g', hg', hconcepts, trans_of Graph.Extends (g.extends_upsertEdge _) hextends, ?_, hw',
        hcreated'.trans hcreated, hmatched'.trans hmatched, ?_⟩
      · rw [hknowledge, hknowledge1, hsource, htarget]
        exact Knowledge.mergeEdges_cons.symm
      · have hcount : (connected g (relation :: relations)).length =
            (connected g relations).length + 1 := by
          simp [connected, hends]
        rw [hcount, hedges', hedges]
        change _ + (connected g relations).length = _
        omega
    · refine (ih hg hknown hw1).mono ?_ fun _ _ h => h
      rintro summary' w' ⟨g', hg', hconcepts, hextends, hknowledge, hw', hcreated', hmatched',
        hedges'⟩
      refine ⟨g', hg', hconcepts, hextends, ?_, hw', hcreated'.trans hcreated,
        hmatched'.trans hmatched, ?_⟩
      · exact hknowledge.trans (Graph.mergeEdges_missing hmissing).symm
      · have hcount : (connected g (relation :: relations)).length =
            (connected g relations).length := by
          simp [connected, hmissing]
        rw [hcount, hedges', hedges]

end Writer

/-! ## The merge -/

/-- What the writer makes of the graph `g`. -/
structure Merged (result : AnswerProcessorResult) (isFollowup : Bool) (g g' : Graph)
    (summary : WriteSummary) : Prop where
  labels : ∀ label, label ∈ g'.labels ↔
    label ∈ g.labels ∨ ∃ entity ∈ result.entities, entity.label = label
  knowledge : g'.knowledge = g.knowledge.merge (givenConfidences result.entities)
    (assignedConfidences isFollowup result.relations)
  one_edge : ∀ relation ∈ connected g' result.relations, (g'.relatesToRows.map Graph.triple).count
    (relation.source, relation.relationType, relation.target) = 1
  unchanged : g.Extends g'
  unique : g'.Unique
  nodes : summary.nodesCreated + summary.nodesMatched = result.entities.length
  edges : summary.edgesCreated + summary.edgesUpdated = (connected g' result.relations).length

/-- On a graph with unique labels and triples the writer is the merge. It raises only if the graph
is not ready or the id drawn for a new concept is that of another one. -/
theorem writeToGraph_merges {w : World} {name : String} {result : AnswerProcessorResult}
    (isFollowup : Bool) (hg : (w.graphs name).Unique) (hstatus : result.status = .write) :
    Triple (writeToGraph name result isFollowup) w
      (fun summary w' => Merged result isFollowup (w.graphs name) (w'.graphs name) summary)
      fun e w' => GraphReady w name →
        e = .kuzuError "Found duplicated primary key value." ∧ IdTaken name w' := by
  unfold writeToGraph
  rw [if_neg (not_not.mpr hstatus)]
  have hw : Becomes (GraphReady w name) name (w.graphs name) w := ⟨rfl, id⟩
  refine .bind (datetimeNow_triple (Q := fun _ w1 => Becomes (GraphReady w name) name
    (w.graphs name) w1) ⟨rfl, fun h => h.bump⟩) fun now w1 hw1 => ?_
  refine .bind (writeEntities_spec hg (fun _ _ h => by simp at h) hw1) ?_
  rintro ⟨labelToId, summary⟩ w2 ⟨g2, hg2, hknown, hextends, hknowledge, hw2, hnodes, hcreated,
    hupdated⟩
  refine (writeRelations_spec hg2 hknown hw2).mono ?_ fun _ _ h => h
  rintro summary' w3 ⟨g3, hg3, hconcepts, hextends', hknowledge', hw3, hcreated', hmatched', hedges⟩
  rw [hw3.graph]
  have hlabels3 : g3.labels = g2.labels := by rw [Graph.labels, Graph.labels, hconcepts]
  have hconnected : connected g3 result.relations = connected g2 result.relations := by
    rw [connected, connected, hlabels3]
  have hmerge : g3.knowledge = (w.graphs name).knowledge.merge
      (givenConfidences result.entities) (assignedConfidences isFollowup result.relations) := by
    rw [hknowledge', hknowledge]
    rfl
  dsimp only at hnodes hcreated hupdated hcreated' hmatched' hedges
  refine ⟨fun label => ?_, hmerge, fun relation hrelation => ?_,
    trans_of Graph.Extends hextends hextends', hg3, by omega, by rw [hconnected]; omega⟩
  · rw [← Graph.knows_iff, hmerge, ← Graph.knows_iff]
    refine Knowledge.mergeConcepts_knows.trans (or_congr_right ?_)
    simp [givenConfidences]
  · -- the relation itself gives its triple a confidence
    set x := (relation.source, relation.relationType, relation.target)
    obtain ⟨hmem, hends⟩ := List.mem_filter.mp hrelation
    have hends : g3.knowledge.Knows x.1 ∧ g3.knowledge.Knows x.2.2 := by
      rw [Graph.knows_iff, Graph.knows_iff]
      simpa using hends
    have hvalues : valuesOf x (assignedConfidences isFollowup result.relations) ≠ [] := fun hnil =>
      valuesOf_eq_nil.mp hnil _ (List.mem_map_of_mem hmem) rfl
    have hedge : g3.knowledge.edge x ≠ ⊥ := by
      rw [hmerge, Knowledge.merge, Knowledge.mergeEdges_knows, Knowledge.mergeEdges_knows] at hends
      rw [hmerge, Knowledge.merge, (Knowledge.mergeEdges_known _ hends).1, ne_eq, max_eq_bot,
        List.maximum_eq_bot]
      exact fun h => hvalues h.2
    cases hlookup : Keyed.lookup Graph.triple x g3.relatesToRows with
    | none => exact absurd (by simp [Graph.knowledge, Graph.edge?, hlookup]) hedge
    | some row =>
      obtain ⟨hrow, hkey⟩ := Keyed.mem_of_lookup hlookup
      exact List.count_eq_one_of_mem hg3.triples (hkey ▸ List.mem_map_of_mem hrow)

/-- An answer with two relations that have the same labels. -/
def goesToTwice : AnswerProcessorResult where
  status := .write
  entities := [⟨"order", "thing", Sample.certain⟩, ⟨"kitchen", "place", Sample.certain⟩]
  relations := [goesTo, goesTo]
  confidence := Sample.certain
  conflict := none
  followUpQuestion := none

theorem writeToGraph_merges_twice : ∃ summary w',
    (writeToGraph "shop" goesToTwice false).exec (Sample.withTeam .approved) = (.ok summary, w') ∧
    Merged goesToTwice false ((Sample.withTeam .approved).graphs "shop") (w'.graphs "shop")
      summary := by
  have hg : ((Sample.withTeam .approved).graphs "shop").Unique :=
    ⟨⟨by decide, by decide⟩, by decide, by decide⟩
  have hrun : ((writeToGraph "shop" goesToTwice false).exec
      (Sample.withTeam .approved)).1.toOption.isSome = true := by
    decide +kernel
  rcases hx : (writeToGraph "shop" goesToTwice false).exec (Sample.withTeam .approved) with
    ⟨e | summary, w'⟩
  · rw [hx] at hrun
    cases hrun
  · have hmerged := @writeToGraph_merges (Sample.withTeam .approved) "shop" goesToTwice false hg rfl
    exact ⟨summary, w', rfl, hmerged.of_ok hx⟩

end AgentWorx
