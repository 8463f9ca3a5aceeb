import AgentWorx.Verify.Gaps
import AgentWorx.Verify.Provenance

/-!
# What an answer adds

The readiness of a graph of task concepts is a function of four numbers: its concepts, those of them
that have an edge, its edges, and their total confidence. An answer adds to each of the four. Two of
the quotients that the score is made of can fall by that: new concepts without edges lower the
coverage and the density, and new edges that are weaker than the mean lower the mean.
-/

namespace AgentWorx

open Coop Coop.Sync

/-! ## Located edges -/

namespace Graph

variable {g g' : Graph} {given : List ((String × String × String) × ℚ)}

/-- No two edges have the same key, and the writer finds the ends of every edge by their labels. -/
structure Located (g : Graph) : Prop extends WellFormed g where
  keys : (g.relatesTo.map edgeKey).Nodup
  named : ∀ r ∈ g.relatesTo, ∃ s t, g.idOf s = some r.source ∧ g.idOf t = some r.target

theorem Accounts.located (h : g.Accounts given) : g.Located := ⟨h.toWellFormed, h.keys, h.named⟩

/-- The confidences of the edges, each given to the triple of its labels. -/
def held (g : Graph) : List ((String × String × String) × ℚ) :=
  g.relatesToRows.map fun row => (triple row, row.2.1.confidence)

theorem Located.accounts (h : g.Located) : g.Accounts g.held := by
  refine ⟨h.toWellFormed, h.keys, h.named, fun x => ?_⟩
  have hrow {row : Concept × RelatesTo × Concept} (hrow : row ∈ g.relatesToRows)
      (hx : triple row = x) : g.edgeOf x = some row.2.1 :=
    (h.toWellFormed.mem_rows_iff h.keys h.named).mp ⟨row.1, row.2.2, hrow, hx⟩
  cases hedge : g.edgeOf x with
  | none =>
    refine (List.maximum_eq_bot.mpr (valuesOf_eq_nil.mpr fun y hy hx => ?_)).symm
    obtain ⟨row, hmem, rfl⟩ := List.mem_map.mp hy
    rw [hrow hmem hx] at hedge
    cases hedge
  | some r =>
    refine (List.maximum_eq_coe_iff.mpr ⟨?_, fun q hq => ?_⟩).symm
    · obtain ⟨a, b, hmem, hx⟩ := (h.toWellFormed.mem_rows_iff h.keys h.named).mpr hedge
      refine List.mem_map.mpr ⟨(x, r.confidence), List.mem_filter.mpr ⟨?_, by simp⟩, rfl⟩
      exact List.mem_map.mpr ⟨(a, r, b), hmem, by rw [hx]⟩
    · obtain ⟨y, hy, rfl⟩ := List.mem_map.mp hq
      obtain ⟨hy, hx⟩ := List.mem_filter.mp hy
      obtain ⟨row, hmem, rfl⟩ := List.mem_map.mp hy
      rw [hrow hmem (by simpa using hx)] at hedge
      cases hedge
      exact le_rfl

/-- Concepts come and go, but those that have edges stay where they are. -/
theorem Located.congr (h : g.Located) (hids : (g'.names.map (·.1)).Nodup)
    (hkeep : ∀ label id, g.Incident id → g.idOf label = some id → g'.idOf label = some id)
    (hedges : g'.relatesTo = g.relatesTo) : g'.Located := by
  have hnamed (r : RelatesTo) (hr : r ∈ g'.relatesTo) :
      ∃ s t, g'.idOf s = some r.source ∧ g'.idOf t = some r.target := by
    rw [hedges] at hr
    obtain ⟨s, t, hs, ht⟩ := h.named r hr
    exact ⟨s, t, hkeep _ _ ⟨r, hr, .inl rfl⟩ hs, hkeep _ _ ⟨r, hr, .inr rfl⟩ ht⟩
  refine ⟨⟨hids, fun r hr => ?_⟩, hedges ▸ h.keys, hnamed⟩
  obtain ⟨s, t, hs, ht⟩ := hnamed r hr
  exact ⟨mem_ids_of_idOf hs, mem_ids_of_idOf ht⟩

/-- A concept is still the first with its label when others are deleted. -/
theorem idOf_deleteConcept {label id deleted : String} (h : g.idOf label = some id)
    (hne : id ≠ deleted) :
    idOf { g with concepts := g.concepts.filter (·.id ≠ deleted) } label = some id := by
  obtain ⟨c, hc, rfl⟩ := Option.map_eq_some_iff.mp h
  obtain ⟨hlabel, before, after, heq, hbefore⟩ := List.find?_eq_some_iff_append.mp hc
  refine Option.map_eq_some_iff.mpr ⟨c, List.find?_eq_some_iff_append.mpr ⟨hlabel,
    before.filter (·.id ≠ deleted), after.filter (·.id ≠ deleted), ?_, fun c' hc' => ?_⟩, rfl⟩
  · change g.concepts.filter (·.id ≠ deleted) = _
    rw [heq, List.filter_append, List.filter_cons_of_pos (by simpa using hne)]
  · exact hbefore c' (List.mem_of_mem_filter hc')

/-- The edges are located, and every concept is a task concept. -/
structure Charted (g : Graph) : Prop extends Located g where
  task : ∀ c ∈ g.concepts, c.nspace = "task"

end Graph

variable {w : World} {name : String} {given : List ((String × String × String) × ℚ)}

/-- The writer makes task concepts only. -/
theorem findOrCreateConcept_task (entity : ExtractedEntity) (now : Datetime)
    (summary : WriteSummary) :
    Keeps (Preserves fun w : World => ∀ c ∈ (w.graphs name).concepts, c.nspace = "task")
      (findOrCreateConcept name entity now summary) := by
  intro w hw
  have hidle {w1 : World} (h : Idle w w1) :
      ∀ c ∈ (w1.graphs name).concepts, c.nspace = "task" := by rwa [h.graphs]
  refine (findOrCreateConcept_rule
    (Q := fun _ w1 => ∀ c ∈ (w1.graphs name).concepts, c.nspace = "task")
    (E := fun _ w1 => ∀ c ∈ (w1.graphs name).concepts, c.nspace = "task") rfl
    (fun _ _ h _ => hidle h) (fun _ _ h _ _ => hidle h) (fun c w1 _ _ _ => ?_)
    fun u w1 _ _ _ => ?_).state (fun _ _ h => h) fun _ _ h => h
  · intro c' hc'
    rw [World.setGraph_graphs, Function.update_self] at hc'
    obtain ⟨c0, hc0, rfl⟩ := List.mem_map.mp hc'
    split_ifs <;> exact hw c0 hc0
  · intro c' hc'
    rw [World.setGraph_graphs, Function.update_self] at hc'
    rcases List.mem_append.mp hc' with hc' | hc'
    · exact hw c' hc'
    · rw [List.mem_singleton.mp hc']

theorem writeToGraph_task (result : AnswerProcessorResult) (isFollowup : Bool) :
    Keeps (Preserves fun w : World => ∀ c ∈ (w.graphs name).concepts, c.nspace = "task")
      (writeToGraph name result isFollowup) := by
  have hsame {w w' : World} (h : (w'.graphs name).concepts = (w.graphs name).concepts) :
      Preserves (fun w : World => ∀ c ∈ (w.graphs name).concepts, c.nspace = "task") w w' := by
    intro hw
    rwa [h]
  have : Ticks (Preserves fun w : World => ∀ c ∈ (w.graphs name).concepts, c.nspace = "task") :=
    { tick := fun _ => hsame rfl }
  have : Relating name
      (Preserves fun w : World => ∀ c ∈ (w.graphs name).concepts, c.nspace = "task") :=
    ⟨fun w relatesTo => hsame (by simp)⟩
  exact keeps_writeToGraph_of findOrCreateConcept_task
    (fun _ _ _ => keeps_upsertRelation _ _ _ _ _) result

/-- The writer changes no other graph. -/
theorem writeToGraph_others (result : AnswerProcessorResult) (isFollowup : Bool) {other : String}
    (hother : other ≠ name) :
    Keeps (Same fun w : World => w.graphs other) (writeToGraph name result isFollowup) := by
  have : Ticks (Same fun w : World => w.graphs other) := { tick := fun _ => rfl }
  have : Learning name (Same fun w : World => w.graphs other) :=
    ⟨fun w g _ => by simp [Same, hother]⟩
  exact keeps_writeToGraph name result isFollowup

theorem writeToGraph_located (result : AnswerProcessorResult) (isFollowup : Bool) :
    Keeps (Preserves fun w : World => (w.graphs name).Located)
      (writeToGraph name result isFollowup) := by
  intro w hw
  unfold writeToGraph
  split_ifs
  · exact hw
  have hentities : Triple (writeEntities name ⟨w.env.clock w.tick, some 0⟩ result.entities
      (∅, ⟨0, 0, 0, 0⟩)) w.bump _ _ :=
    writeEntities_accounts (w := w.bump) hw.accounts fun _ _ hlookup => by simp at hlookup
  change ((exec (writeEntities name ⟨w.env.clock w.tick, some 0⟩ result.entities
    (∅, ⟨0, 0, 0, 0⟩) >>= _) w.bump).2.graphs name).Located
  rw [exec_bind]
  rcases hx : (writeEntities name ⟨w.env.clock w.tick, some 0⟩ result.entities
    (∅, ⟨0, 0, 0, 0⟩)).exec w.bump with ⟨e | ⟨labelToId, summary⟩, w1⟩
  · exact (hentities.of_error hx).located
  · obtain ⟨haccounts, hcaches⟩ := hentities.of_ok hx
    exact (writeRelations_accounts haccounts hcaches).located

/-- Every reachable graph is charted. -/
theorem knowledgeInvariant_charted : KnowledgeInvariant Graph.Charted where
  congr {g g'} hconcepts hedges h := by
    have hid (label : String) : g'.idOf label = g.idOf label := by
      rw [Graph.idOf, Graph.idOf, Graph.labelled?, Graph.labelled?, hconcepts]
    have hnames : g'.names = g.names := by rw [Graph.names, Graph.names, hconcepts]
    exact ⟨h.toLocated.congr (hnames ▸ h.ids) (fun label id _ hold => (hid label).trans hold)
      hedges, hconcepts ▸ h.task⟩
  create {g concept} htask hid h := by
    refine ⟨h.toLocated.congr ?_ (fun _ _ _ => Graph.idOf_addConcept concept) rfl, fun c hc => ?_⟩
    · rw [Graph.names_addConcept]
      exact h.ids_concat _ (Graph.names_ids ▸ hid)
    · rcases List.mem_append.mp hc with hc | hc
      · exact h.task c hc
      · rw [List.mem_singleton.mp hc, htask]
  delete {g id} hfree h := by
    refine ⟨h.toLocated.congr ?_ (fun label other hincident hold => ?_) rfl, fun c hc => ?_⟩
    · exact h.ids.sublist (List.Sublist.map _ (List.Sublist.map _ List.filter_sublist))
    · refine Graph.idOf_deleteConcept hold ?_
      rintro rfl
      obtain ⟨r, hr, hend⟩ := hincident
      exact hend.elim (hfree r hr).1 (hfree r hr).2
    · exact h.task c (List.mem_of_mem_filter hc)
  write name result isFollowup := by
    intro w hw other
    by_cases hother : other = name
    · subst hother
      exact ⟨writeToGraph_located result isFollowup w (hw other).toLocated,
        writeToGraph_task result isFollowup w (hw other).task⟩
    · have hsame := writeToGraph_others result isFollowup hother w
      rw [Same] at hsame
      rw [hsame]
      exact hw other

/-! ## What readiness counts -/

/-- What a graph of task concepts has, or what is added to it. -/
@[ext] structure Holdings where
  concepts : Nat
  /-- The concepts that have an edge. -/
  covered : Nat
  edges : Nat
  /-- The total confidence of the edges. -/
  confidence : ℚ

instance : Add Holdings :=
  ⟨fun a b => ⟨a.concepts + b.concepts, a.covered + b.covered, a.edges + b.edges,
    a.confidence + b.confidence⟩⟩

/-- The score that the weights give. -/
def Holdings.readiness (h : Holdings) : ℚ :=
  roundHalfEven 4 (40 / 100 * (h.covered / h.concepts) +
    35 / 100 * min ((h.edges / h.concepts : ℚ) / edgeDensityCap) 1 +
    25 / 100 * (h.confidence / h.edges))

namespace Graph

variable {g : Graph}

instance (g : Graph) (id : String) : Decidable (g.Incident id) :=
  inferInstanceAs (Decidable (∃ r ∈ g.relatesTo, _))

def holdings (g : Graph) : Holdings where
  concepts := g.concepts.length
  covered := (g.concepts.filter (g.Incident ·.id)).length
  edges := g.relatesTo.length
  confidence := (g.relatesTo.map (·.confidence)).sum

/-- The rows of the edges at a task concept name it. -/
theorem Charted.mem_coveredIds (h : g.Charted) {id : String} :
    id ∈ g.coveredIds ↔ g.Incident id := by
  have hends {row : Concept × RelatesTo × Concept} (hrow : row ∈ g.relatesToRows) :
      id ∈ (if row.1.nspace = "task" then [row.1.id] else []) ++
        (if row.2.2.nspace = "task" then [row.2.2.id] else []) ↔
      row.2.1.source = id ∨ row.2.1.target = id := by
    obtain ⟨ha, hsource, hb, htarget⟩ := row_ids (a := row.1) (r := row.2.1) (b := row.2.2) hrow
    rw [if_pos (h.task _ ha), if_pos (h.task _ hb), hsource, htarget]
    simp [eq_comm]
  rw [coveredIds, List.mem_flatMap, Incident, ← h.map_rows]
  constructor
  · rintro ⟨row, hrow, hid⟩
    exact ⟨row.2.1, List.mem_map_of_mem hrow, (hends hrow).mp hid⟩
  · rintro ⟨r, hr, hend⟩
    obtain ⟨row, hrow, rfl⟩ := List.mem_map.mp hr
    exact ⟨row, hrow, (hends hrow).mpr hend⟩

/-- On a charted graph the three ratios are quotients of what the graph holds. -/
theorem Charted.readiness_eq (h : g.Charted) : g.readiness = g.holdings.readiness := by
  have htasks : g.taskIds = g.concepts.map (·.id) := by
    rw [taskIds, List.filter_eq_self.mpr fun c hc => decide_eq_true (h.task c hc)]
    exact h.nodup_ids.dedup
  have hcovered : (g.taskIds.filter (· ∈ g.coveredIds)).length = g.holdings.covered := by
    rw [htasks, List.filter_map, List.length_map]
    refine congrArg List.length (List.filter_congr fun c _ => ?_)
    exact decide_eq_decide.mpr h.mem_coveredIds
  have hedges : g.relatesToRows.length = g.holdings.edges := by
    rw [holdings, ← h.map_rows, List.length_map]
  have hconfidences : g.confidences = g.relatesTo.map (·.confidence) := by
    rw [confidences, ← h.map_rows, List.map_map]
    rfl
  rw [readiness, Holdings.readiness, nodeCoverage, edgeDensity, confidenceMean, hcovered, hedges,
    hconfidences, htasks, List.length_map, List.length_map]
  rfl

end Graph

/-! ## What a ledger amounts to -/

section Ledger

variable {κ : Type} [DecidableEq κ] {k : κ} {old new : List (κ × ℚ)}

/-- The highest of the values given to the key, or zero. -/
def highest (k : κ) (given : List (κ × ℚ)) : ℚ := (valuesOf k given).foldr max 0

theorem foldr_max_le_iff {values : List ℚ} {q : ℚ} :
    values.foldr max 0 ≤ q ↔ 0 ≤ q ∧ ∀ v ∈ values, v ≤ q := by
  induction values with
  | nil => simp
  | cons v values ih =>
    rw [List.foldr_cons, max_le_iff, ih, List.forall_mem_cons]
    tauto

theorem highest_le_iff {given : List (κ × ℚ)} {q : ℚ} :
    highest k given ≤ q ↔ 0 ≤ q ∧ ∀ v ∈ valuesOf k given, v ≤ q := foldr_max_le_iff

theorem highest_append : highest k (old ++ new) = max (highest k old) (highest k new) := by
  refine eq_of_forall_ge_iff fun q => ?_
  rw [max_le_iff, highest_le_iff, highest_le_iff, highest_le_iff, valuesOf, List.filter_append,
    List.map_append, List.forall_mem_append]
  exact and_and_left

theorem highest_of_notMem {given : List (κ × ℚ)} (h : k ∉ (given.map (·.1)).toFinset) :
    highest k given = 0 := by
  have hnil : valuesOf k given = [] := valuesOf_eq_nil.mpr fun x hx hk =>
    h (List.mem_toFinset.mpr (List.mem_map.mpr ⟨x, hx, hk⟩))
  rw [highest, hnil, List.foldr_nil]

/-- Where no value is negative, an absent one may stand for zero. -/
theorem elim_eq_highest {α : Type} {value : α → ℚ} {o : Option α} {given : List (κ × ℚ)}
    (hnonneg : ∀ x ∈ given, 0 ≤ x.2)
    (h : o.elim ⊥ (fun a => (value a : WithBot ℚ)) = (valuesOf k given).maximum) :
    o.elim 0 value = highest k given := by
  cases o with
  | none => rw [highest, List.maximum_eq_bot.mp h.symm, List.foldr_nil, Option.elim_none]
  | some a =>
    obtain ⟨hmem, hall⟩ := List.maximum_eq_coe_iff.mp h.symm
    obtain ⟨x, hx, hvalue⟩ := List.mem_map.mp hmem
    have hpos : 0 ≤ value a := hvalue ▸ hnonneg x (List.mem_filter.mp hx).1
    exact le_antisymm ((highest_le_iff.mp le_rfl).2 _ hmem) (highest_le_iff.mpr ⟨hpos, hall⟩)

/-- New entries raise the sum by what they raise their own keys by. -/
theorem sum_highest_append :
    ∑ x ∈ ((old ++ new).map (·.1)).toFinset, highest x (old ++ new) =
      ∑ x ∈ (old.map (·.1)).toFinset, highest x old +
        ∑ x ∈ (new.map (·.1)).toFinset,
          (max (highest x old) (highest x new) - highest x old) := by
  set A := (old.map (·.1)).toFinset
  set B := (new.map (·.1)).toFinset
  have hkeys : ((old ++ new).map (·.1)).toFinset = A ∪ B := by
    rw [List.map_append, List.toFinset_append]
  have hold : ∑ x ∈ A ∪ B, highest x old = ∑ x ∈ A, highest x old :=
    (Finset.sum_subset Finset.subset_union_left fun x _ hx => highest_of_notMem hx).symm
  have hnew : ∑ x ∈ A ∪ B, (max (highest x old) (highest x new) - highest x old) =
      ∑ x ∈ B, (max (highest x old) (highest x new) - highest x old) := by
    refine (Finset.sum_subset Finset.subset_union_right fun x _ hx => ?_).symm
    have hnonneg : 0 ≤ highest x old := (highest_le_iff.mp le_rfl).1
    rw [highest_of_notMem hx, max_eq_left hnonneg, sub_self]
  rw [hkeys, ← hold, ← hnew, ← Finset.sum_add_distrib]
  refine Finset.sum_congr rfl fun x _ => ?_
  rw [highest_append, add_sub_cancel]

end Ledger

/-- The labels at the ends of a triple. -/
def ends (x : String × String × String) : Finset String := {x.1, x.2.2}

namespace Graph

variable {g : Graph}

/-- The confidence of the edge that the writer finds for the triple, or zero. -/
def heldBy (g : Graph) (x : String × String × String) : ℚ := (g.edgeOf x).elim 0 (·.confidence)

/-- The writer finds a concept with an edge for the label. -/
def CoveredLabel (g : Graph) (label : String) : Prop := ∃ id ∈ g.idOf label, g.Incident id

instance (g : Graph) (label : String) : Decidable (g.CoveredLabel label) :=
  inferInstanceAs (Decidable (∃ id ∈ g.idOf label, _))

theorem Accounts.heldBy_eq (h : g.Accounts given) (hnonneg : ∀ y ∈ given, 0 ≤ y.2)
    (x : String × String × String) : g.heldBy x = highest x given :=
  elim_eq_highest hnonneg (h.values x)

/-- The triples of a ledger are those that have an edge. -/
theorem Accounts.mem_triples (h : g.Accounts given) {x : String × String × String} :
    x ∈ (given.map (·.1)).toFinset ↔ g.edgeOf x ≠ none := by
  have hvalues := h.values x
  rw [List.mem_toFinset, List.mem_map]
  cases hedge : g.edgeOf x with
  | none =>
    rw [hedge] at hvalues
    refine iff_of_false ?_ (fun hne => hne rfl)
    rintro ⟨y, hy, hx⟩
    exact valuesOf_eq_nil.mp (List.maximum_eq_bot.mp hvalues.symm) y hy hx
  | some r =>
    rw [hedge] at hvalues
    refine iff_of_true ?_ (by simp)
    obtain ⟨y, hy, -⟩ := List.mem_map.mp (List.maximum_eq_coe_iff.mp hvalues.symm).1
    obtain ⟨hy, hx⟩ := List.mem_filter.mp hy
    exact ⟨y, hy, of_decide_eq_true hx⟩

/-- Each triple of the ledger has one row. -/
theorem Accounts.rows_triples (h : g.Accounts given) :
    (g.relatesToRows.map triple).Nodup ∧
      (g.relatesToRows.map triple).toFinset = (given.map (·.1)).toFinset := by
  have hrow {row : Concept × RelatesTo × Concept} (hrow : row ∈ g.relatesToRows) :
      g.edgeOf (triple row) = some row.2.1 := h.mem_rows_iff.mp ⟨row.1, row.2.2, hrow, rfl⟩
  constructor
  · have hkeys := h.keys
    rw [← h.map_rows, List.map_map] at hkeys
    unfold List.Nodup at hkeys ⊢
    rw [List.pairwise_map] at hkeys ⊢
    refine hkeys.imp_of_mem fun ha hb hne heq => hne ?_
    have hsame := hrow ha
    rw [heq, hrow hb] at hsame
    exact congrArg edgeKey (Option.some.inj hsame).symm
  · ext x
    rw [h.mem_triples, List.mem_toFinset, List.mem_map]
    constructor
    · rintro ⟨row, hmem, rfl⟩
      rw [hrow hmem]
      simp
    · intro hedge
      obtain ⟨r, hr⟩ := Option.ne_none_iff_exists'.mp hedge
      obtain ⟨a, b, hmem, hx⟩ := h.mem_rows_iff.mpr hr
      exact ⟨(a, r, b), hmem, hx⟩

theorem Accounts.edges_card (h : g.Accounts given) :
    g.relatesTo.length = (given.map (·.1)).toFinset.card := by
  obtain ⟨hnodup, htriples⟩ := h.rows_triples
  rw [← htriples, List.toFinset_card_of_nodup hnodup, List.length_map, ← h.map_rows,
    List.length_map]

theorem Accounts.confidence_sum (h : g.Accounts given) (hnonneg : ∀ y ∈ given, 0 ≤ y.2) :
    (g.relatesTo.map (·.confidence)).sum =
      ∑ x ∈ (given.map (·.1)).toFinset, highest x given := by
  obtain ⟨hnodup, htriples⟩ := h.rows_triples
  rw [← htriples, List.sum_toFinset _ hnodup, List.map_map, ← h.map_rows, List.map_map]
  refine congrArg List.sum (List.map_congr_left fun row hrow => ?_)
  have hedge : g.edgeOf (triple row) = some row.2.1 :=
    h.mem_rows_iff.mp ⟨row.1, row.2.2, hrow, rfl⟩
  change row.2.1.confidence = highest (triple row) given
  rw [← h.heldBy_eq hnonneg, heldBy, hedge, Option.elim_some]

/-- A concept with an edge is the one that the writer finds for its label. -/
theorem Located.idOf_label (h : g.Located) {c : Concept} (hc : c ∈ g.concepts)
    (hincident : g.Incident c.id) : g.idOf c.label = some c.id := by
  obtain ⟨r, hr, hend⟩ := hincident
  obtain ⟨s, t, hs, ht⟩ := h.named r hr
  rcases hend with hend | hend
  · rw [hend] at hs
    rwa [h.label_of_idOf hc hs]
  · rw [hend] at ht
    rwa [h.label_of_idOf hc ht]

/-- The labels at the ends of the triples of a ledger are those of concepts with edges. -/
theorem Accounts.mem_ends (h : g.Accounts given) {label : String} :
    label ∈ (given.map (·.1)).toFinset.biUnion ends ↔ g.CoveredLabel label := by
  simp only [Finset.mem_biUnion, h.mem_triples, ends, Finset.mem_insert, Finset.mem_singleton]
  constructor
  · rintro ⟨x, hedge, hlabel⟩
    obtain ⟨r, hr⟩ := Option.ne_none_iff_exists'.mp hedge
    obtain ⟨hr, hs, -, ht⟩ := (edgeOf_eq_some h.keys).mp hr
    rcases hlabel with rfl | rfl
    · exact ⟨r.source, hs, r, hr, .inl rfl⟩
    · exact ⟨r.target, ht, r, hr, .inr rfl⟩
  · rintro ⟨id, hid, r, hr, hend⟩
    obtain ⟨s, t, hs, ht⟩ := h.named r hr
    have hedge : g.edgeOf (s, r.relation, t) = some r :=
      (edgeOf_eq_some h.keys).mpr ⟨hr, hs, rfl, ht⟩
    refine ⟨(s, r.relation, t), by rw [hedge]; simp, ?_⟩
    rcases hend with rfl | rfl
    · exact .inl (h.idOf_inj hid hs)
    · exact .inr (h.idOf_inj hid ht)

theorem Accounts.covered_card (h : g.Accounts given) :
    (g.concepts.filter (g.Incident ·.id)).length =
      ((given.map (·.1)).toFinset.biUnion ends).card := by
  have hmem {c : Concept} (hc : c ∈ g.concepts.filter (g.Incident ·.id)) :
      c ∈ g.concepts ∧ g.idOf c.label = some c.id := by
    obtain ⟨hc, hincident⟩ := List.mem_filter.mp hc
    exact ⟨hc, h.located.idOf_label hc (of_decide_eq_true hincident)⟩
  have hnodup : ((g.concepts.filter (g.Incident ·.id)).map (·.label)).Nodup := by
    have hids : ((g.concepts.filter (g.Incident ·.id)).map (·.id)).Nodup :=
      h.nodup_ids.sublist (List.filter_sublist.map _)
    unfold List.Nodup at hids ⊢
    rw [List.pairwise_map] at hids ⊢
    refine hids.imp_of_mem fun ha hb hne heq => hne ?_
    have hsame := (hmem ha).2
    rw [heq, (hmem hb).2] at hsame
    exact (Option.some.inj hsame).symm
  have hlabels : ((g.concepts.filter (g.Incident ·.id)).map (·.label)).toFinset =
      (given.map (·.1)).toFinset.biUnion ends := by
    ext label
    rw [h.mem_ends, List.mem_toFinset, List.mem_map]
    constructor
    · rintro ⟨c, hc, rfl⟩
      exact ⟨c.id, (hmem hc).2, of_decide_eq_true (List.mem_filter.mp hc).2⟩
    · rintro ⟨id, hid, hincident⟩
      obtain ⟨c, hc, rfl⟩ := Option.map_eq_some_iff.mp hid
      obtain ⟨hc, hlabel⟩ := Keyed.mem_of_lookup hc
      exact ⟨c, List.mem_filter.mpr ⟨hc, decide_eq_true hincident⟩, hlabel⟩
  rw [← hlabels, List.toFinset_card_of_nodup hnodup, List.length_map]

end Graph

/-! ## What an answer adds -/

/-- The relations of the answer between labels that the graph has or the answer brings. -/
def Graph.stated (g : Graph) (result : AnswerProcessorResult) : List ExtractedRelation :=
  result.relations.filter fun relation =>
    (relation.source ∈ g.labels ∨ relation.source ∈ result.entities.map (·.label)) ∧
    (relation.target ∈ g.labels ∨ relation.target ∈ result.entities.map (·.label))

/-- The labels without a concept, those without an edge, the triples without an edge, and what the
confidences rise by. -/
def Graph.adds (g : Graph) (isFollowup : Bool) (result : AnswerProcessorResult) : Holdings :=
  let given := assignedConfidences isFollowup (g.stated result)
  let triples := (given.map (·.1)).toFinset
  { concepts := ((result.entities.map (·.label)).toFinset \ g.labels.toFinset).card
    covered := ((triples.biUnion ends).filter fun label => ¬ g.CoveredLabel label).card
    edges := (triples.filter fun x => g.edgeOf x = none).card
    confidence := ∑ x ∈ triples, (max (g.heldBy x) (highest x given) - g.heldBy x) }

/-- The new labels get one concept each. -/
theorem writeEntities_labels {now : Datetime} {entities : List ExtractedEntity}
    {acc : Dict × WriteSummary} :
    Triple (writeEntities name now entities acc) w
      (fun _ w' => ∃ made : List String, made.Nodup ∧
        (∀ label, label ∈ made ↔
          label ∈ entities.map (·.label) ∧ label ∉ (w.graphs name).labels) ∧
        (w'.graphs name).labels = (w.graphs name).labels ++ made)
      fun _ _ => True := by
  induction entities generalizing acc w with
  | nil => exact .pure ⟨[], List.nodup_nil, by simp, by simp⟩
  | cons entity entities ih =>
    have hfound {c : Concept} (hc : (w.graphs name).labelled? entity.label = some c) :
        entity.label ∈ (w.graphs name).labels := by
      obtain ⟨hmem, hlabel⟩ := Keyed.mem_of_lookup hc
      exact Graph.mem_labels.mpr ⟨c, hmem, hlabel⟩
    refine .bind (M := fun _ w1 =>
      (entity.label ∈ (w.graphs name).labels ∧
        (w1.graphs name).labels = (w.graphs name).labels) ∨
      (entity.label ∉ (w.graphs name).labels ∧
        (w1.graphs name).labels = (w.graphs name).labels ++ [entity.label])) ?_ ?_
    · refine findOrCreateConcept_rule rfl (fun _ _ _ _ => trivial)
        (fun c w1 hw1 hc _ => .inl ⟨hfound hc, by rw [hw1.graphs]⟩)
        (fun c w1 _ hc _ => .inl ⟨hfound hc, ?_⟩) fun u w1 _ hmissing _ => .inr ⟨?_, ?_⟩
      · rw [World.setGraph_graphs, Function.update_self, Graph.labels, List.map_map]
        refine List.map_congr_left fun c' _ => ?_
        simp only [Function.comp_apply]
        split_ifs <;> rfl
      · intro hmem
        obtain ⟨c, hc, hlabel⟩ := Graph.mem_labels.mp hmem
        exact Keyed.lookup_eq_none.mp hmissing c hc hlabel
      · rw [World.setGraph_graphs, Function.update_self, Graph.labels, List.map_append]
        rfl
    · rintro r w1 (⟨hknown, hlabels⟩ | ⟨hnew, hlabels⟩)
      · refine ih.mono ?_ fun _ _ h => h
        rintro r' w' ⟨made, hnodup, hmade, hlabels'⟩
        rw [hlabels] at hmade hlabels'
        refine ⟨made, hnodup, fun label => ?_, hlabels'⟩
        rw [hmade, List.map_cons, List.mem_cons]
        refine and_congr_left fun hno => (or_iff_right ?_).symm
        rintro rfl
        exact hno hknown
      · refine ih.mono ?_ fun _ _ h => h
        rintro r' w' ⟨made, hnodup, hmade, hlabels'⟩
        rw [hlabels] at hmade hlabels'
        refine ⟨entity.label :: made, List.nodup_cons.mpr ⟨fun hmem => ?_, hnodup⟩,
          fun label => ?_, by rw [hlabels', List.append_assoc, List.singleton_append]⟩
        · exact ((hmade _).mp hmem).2 (by simp)
        · rw [List.mem_cons, hmade, List.map_cons, List.mem_cons, List.mem_append,
            List.mem_singleton]
          by_cases hlabel : label = entity.label
          · subst hlabel
            exact iff_of_true (.inl rfl) ⟨.inl rfl, hnew⟩
          · tauto

/-- A loop that ends has written the relations whose ends it finds. -/
theorem writtenRelations_eq {isFollowup : Bool} {relations : List ExtractedRelation}
    {labelToId : Dict} {summary summary' : WriteSummary} {w' : World}
    (h : (w.graphs name).Accounts given) (hcache : Caches labelToId (w.graphs name))
    (hok : (writeRelations name isFollowup labelToId relations summary).exec w =
      (.ok summary', w')) :
    writtenRelations name isFollowup labelToId relations summary w =
        connected (w.graphs name) relations ∧
      (w'.graphs name).concepts = (w.graphs name).concepts := by
  induction relations generalizing given summary w with
  | nil =>
    cases hok
    exact ⟨rfl, rfl⟩
  | cons relation relations ih =>
    have hupsert : Triple (upsertRelation name relation (assignConfidence relation isFollowup)
      labelToId summary) w _ _ := upsertRelation_upserts rfl h.toWellFormed h.keys hcache
    rw [writeRelations] at hok
    obtain ⟨summary1, w1, hx, hrest⟩ := exec_bind_returns (congrArg Prod.fst hok)
    rw [hrest] at hok
    rw [writtenRelations, hx]
    dsimp only
    rcases hupsert.of_ok hx with ⟨rfl, hw1, hnone⟩ | ⟨a, b, w2, ha, hb, hw2, rfl, hcount⟩
    · rw [if_pos rfl]
      rw [← hw1.graphs] at h hcache
      obtain ⟨hwritten, hconcepts⟩ := ih h hcache hok
      rw [hw1.graphs] at hwritten hconcepts
      refine ⟨hwritten.trans (List.filter_cons_of_neg ?_).symm, hconcepts⟩
      rw [Graph.idOf_eq_none, Graph.idOf_eq_none, ← not_and_or] at hnone
      simpa using hnone
    · have h1 : (Graph.upsertEdge _ ⟨a.id, b.id, relation.relationType,
            assignConfidence relation isFollowup, 1⟩).Accounts
          (given ++ [((relation.source, relation.relationType, relation.target),
            assignConfidence relation isFollowup)]) := h.upsert ha hb
      rw [if_neg (counted_ne hcount)]
      set w1 := w2.setGraph name ((w.graphs name).upsertEdge _) with hw1
      have hg1 : w1.graphs name = (w.graphs name).upsertEdge _ := Function.update_self _ _ _
      rw [← hg1] at h1
      have hcache1 : Caches labelToId (w1.graphs name) := hg1 ▸ hcache
      obtain ⟨hwritten, hconcepts⟩ := ih h1 hcache1 hok
      rw [hg1] at hwritten hconcepts
      have hends : relation.source ∈ (w.graphs name).labels ∧
          relation.target ∈ (w.graphs name).labels := by
        obtain ⟨ha, hsource⟩ := Keyed.mem_of_lookup ha
        obtain ⟨hb, htarget⟩ := Keyed.mem_of_lookup hb
        exact ⟨Graph.mem_labels.mpr ⟨a, ha, hsource⟩, Graph.mem_labels.mpr ⟨b, hb, htarget⟩⟩
      change _ = connected (w.graphs name) relations at hwritten
      refine ⟨?_, hconcepts⟩
      rw [hwritten]
      exact (List.filter_cons_of_pos (by simpa using hends)).symm

/-- The graph that the writer leaves accounts for what the answer states. -/
theorem writeToGraph_states {result : AnswerProcessorResult} {isFollowup : Bool}
    {summary : WriteSummary} {w' : World} (h : (w.graphs name).Accounts given)
    (hok : (writeToGraph name result isFollowup).exec w = (.ok summary, w')) :
    (w'.graphs name).Accounts
      (given ++ assignedConfidences isFollowup ((w.graphs name).stated result)) ∧
    (w'.graphs name).concepts.length = (w.graphs name).concepts.length +
      ((result.entities.map (·.label)).toFinset \ (w.graphs name).labels.toFinset).card := by
  unfold writeToGraph at hok
  split_ifs at hok
  · cases hok
  change exec (writeEntities name ⟨w.env.clock w.tick, some 0⟩ result.entities
    (∅, ⟨0, 0, 0, 0⟩) >>= fun r => writeRelations name isFollowup r.1 result.relations r.2)
    w.bump = _ at hok
  obtain ⟨⟨labelToId, summary1⟩, w1, hx, hrest⟩ := exec_bind_returns (congrArg Prod.fst hok)
  rw [hrest] at hok
  have hentities : Triple (writeEntities name ⟨w.env.clock w.tick, some 0⟩ result.entities
      (∅, ⟨0, 0, 0, 0⟩)) w.bump _ _ :=
    (writeEntities_accounts (w := w.bump) h fun _ _ hlookup => by simp at hlookup).and
      writeEntities_labels
  obtain ⟨⟨haccounts, hcaches⟩, made, hnodup, hmade, hlabels⟩ := hentities.of_ok hx
  change (w1.graphs name).labels = (w.graphs name).labels ++ made at hlabels
  obtain ⟨hwritten, hconcepts⟩ := writtenRelations_eq haccounts hcaches hok
  have hstated : connected (w1.graphs name) result.relations =
      (w.graphs name).stated result := by
    have hiff (label : String) : label ∈ (w1.graphs name).labels ↔
        label ∈ (w.graphs name).labels ∨ label ∈ result.entities.map (·.label) := by
      rw [hlabels, List.mem_append, hmade]
      change _ ∨ (_ ∧ label ∉ (w.graphs name).labels) ↔ _
      tauto
    refine List.filter_congr fun relation _ => ?_
    rw [decide_eq_decide, hiff, hiff]
  have hmore : (((writeRelations name isFollowup labelToId result.relations summary1).exec
      w1).2.graphs name).Accounts _ := writeRelations_accounts haccounts hcaches
  rw [hok, hwritten, hstated] at hmore
  refine ⟨hmore, ?_⟩
  have hcount : made.length =
      ((result.entities.map (·.label)).toFinset \ (w.graphs name).labels.toFinset).card := by
    rw [← List.toFinset_card_of_nodup hnodup]
    congr 1
    ext label
    rw [List.mem_toFinset, hmade, Finset.mem_sdiff, List.mem_toFinset, List.mem_toFinset]
    rfl
  have hlength := congrArg List.length hlabels
  rw [List.length_append, Graph.labels, Graph.labels, List.length_map, List.length_map,
    hcount] at hlength
  rw [hconcepts, hlength]

/-- The writer adds to the holdings what the answer adds. -/
theorem writeToGraph_holdings {result : AnswerProcessorResult} {isFollowup : Bool}
    {summary : WriteSummary} {w' : World} (h : (w.graphs name).Charted)
    (hweighted : (w.graphs name).Weighted)
    (hok : (writeToGraph name result isFollowup).exec w = (.ok summary, w')) :
    (w'.graphs name).holdings =
      (w.graphs name).holdings + (w.graphs name).adds isFollowup result := by
  set g := w.graphs name
  set given := assignedConfidences isFollowup (g.stated result)
  have haccounts : g.Accounts g.held := h.toLocated.accounts
  obtain ⟨haccounts', hconcepts⟩ := writeToGraph_states haccounts hok
  change (w'.graphs name).Accounts (g.held ++ given) at haccounts'
  have hheld : ∀ y ∈ g.held, 0 ≤ y.2 := by
    intro y hy
    obtain ⟨row, hrow, rfl⟩ := List.mem_map.mp hy
    exact (hweighted _ (Graph.mem_relatesToRows.mp hrow).1).1
  have hassigned : ∀ y ∈ given, 0 ≤ y.2 := by
    intro y hy
    obtain ⟨relation, -, rfl⟩ := List.mem_map.mp hy
    exact le_trans (by norm_num [inferredConfidence])
      (assignConfidence_bounds relation isFollowup).1
  have hall : ∀ y ∈ g.held ++ given, 0 ≤ y.2 := List.forall_mem_append.mpr ⟨hheld, hassigned⟩
  ext
  · exact hconcepts
  · have hnew : ((given.map (·.1)).toFinset.biUnion ends).filter (fun l => ¬ g.CoveredLabel l) =
        (given.map (·.1)).toFinset.biUnion ends \ (g.held.map (·.1)).toFinset.biUnion ends := by
      rw [Finset.sdiff_eq_filter]
      exact Finset.filter_congr fun l _ => not_congr haccounts.mem_ends.symm
    change ((w'.graphs name).concepts.filter _).length = (g.concepts.filter _).length +
      (((given.map (·.1)).toFinset.biUnion ends).filter fun l => ¬ g.CoveredLabel l).card
    rw [haccounts'.covered_card, haccounts.covered_card, hnew, List.map_append,
      List.toFinset_append, Finset.union_biUnion, Finset.union_comm, ← Finset.card_sdiff_add_card,
      add_comm]
  · have hnew : (given.map (·.1)).toFinset.filter (fun x => g.edgeOf x = none) =
        (given.map (·.1)).toFinset \ (g.held.map (·.1)).toFinset := by
      rw [Finset.sdiff_eq_filter]
      exact Finset.filter_congr fun x _ => by rw [haccounts.mem_triples, not_not]
    change (w'.graphs name).relatesTo.length = g.relatesTo.length +
      ((given.map (·.1)).toFinset.filter fun x => g.edgeOf x = none).card
    rw [haccounts'.edges_card, haccounts.edges_card, hnew, List.map_append,
      List.toFinset_append, Finset.union_comm, ← Finset.card_sdiff_add_card, add_comm]
  · change ((w'.graphs name).relatesTo.map (·.confidence)).sum =
      (g.relatesTo.map (·.confidence)).sum + ∑ x ∈ (given.map (·.1)).toFinset,
        (max (g.heldBy x) (highest x given) - g.heldBy x)
    rw [haccounts'.confidence_sum hall, haccounts.confidence_sum hheld, sum_highest_append]
    simp only [haccounts.heldBy_eq hheld]

/-! ## Readiness before and after -/

/-- What the answer adds to the holdings of the graph does not lower the score. -/
def Graph.KeepsPace (g : Graph) (isFollowup : Bool) (result : AnswerProcessorResult) : Prop :=
  g.holdings.readiness ≤ (g.holdings + g.adds isFollowup result).readiness

instance (g : Graph) (isFollowup : Bool) (result : AnswerProcessorResult) :
    Decidable (g.KeepsPace isFollowup result) :=
  inferInstanceAs (Decidable (_ ≤ _))

/-- The scores before and after a write, and their readiness. -/
theorem scores_of_write {before after : ReadinessScore} {summary : WriteSummary}
    {result : AnswerProcessorResult} {isFollowup : Bool} {w1 w2 w3 : World}
    (hcharted : EveryGraph Graph.Charted w) (hgraded : Graded w)
    (hbefore : (computeAndStore name).exec w = (.ok before, w1))
    (hwrite : (writeToGraph name result isFollowup).exec w1 = (.ok summary, w2))
    (hafter : (computeAndStore name).exec w2 = (.ok after, w3)) :
    before.score.val = (w.graphs name).holdings.readiness ∧
      after.score.val =
        ((w.graphs name).holdings + (w.graphs name).adds isFollowup result).readiness ∧
      before.proposalReady = decide (w.env.proposalThreshold ≤ before.score.val) ∧
      before.certReady = decide (w.env.cert1Threshold ≤ before.score.val) ∧
      after.proposalReady = decide (w.env.proposalThreshold ≤ after.score.val) ∧
      after.certReady = decide (w.env.cert1Threshold ≤ after.score.val) := by
  obtain ⟨hscore, hproposal, hcert, hidle⟩ :=
    (computeAndStore_triple (hgraded name).weighted).of_ok hbefore
  have hgraphs : w1.graphs = w.graphs := by rw [hidle]; rfl
  have henv : w1.env = w.env := by rw [hidle]; rfl
  have hcharted1 : EveryGraph Graph.Charted w1 := everyGraph_of_graphs hgraphs hcharted
  have hgraded1 : Graded w1 := graded_of_graphs hgraphs hgraded
  have hadds := writeToGraph_holdings (hcharted1 name) (hgraded1 name).weighted hwrite
  rw [hgraphs] at hadds
  have hwritten {P : World → Prop} (h : Keeps (Preserves P) (writeToGraph name result isFollowup))
      (hw1 : P w1) : P w2 := by
    have hw2 := h w1 hw1
    rwa [hwrite] at hw2
  have hcharted2 : EveryGraph Graph.Charted w2 :=
    hwritten (knowledgeInvariant_charted.write name result isFollowup) hcharted1
  have hgraded2 : Graded w2 := hwritten (writeToGraph_graded name result isFollowup) hgraded1
  have henv2 : w2.env = w1.env := by
    have : Ticks (Same World.env) := ⟨fun _ => rfl⟩
    have : Learning name (Same World.env) := ⟨fun _ _ _ => rfl⟩
    have hsame := keeps_writeToGraph (R := Same World.env) name result isFollowup w1
    rwa [hwrite] at hsame
  obtain ⟨hscore', hproposal', hcert', -⟩ :=
    (computeAndStore_triple (hgraded2 name).weighted).of_ok hafter
  rw [(hcharted name).readiness_eq] at hscore hproposal hcert
  rw [(hcharted2 name).readiness_eq, hadds] at hscore' hproposal' hcert'
  rw [henv2, henv] at hproposal' hcert'
  rw [hscore, hscore']
  exact ⟨rfl, rfl, hproposal, hcert, hproposal', hcert'⟩

/-- For every reachable graph and every write that succeeds, the score and the two flags are kept
exactly if what the answer adds does not lower the score. -/
theorem readiness_kept_iff (env : Env) (requests : List Request) (name : String)
    (result : AnswerProcessorResult) (isFollowup : Bool) {before after : ReadinessScore}
    {summary : WriteSummary} {w1 w2 w3 : World}
    (hbefore : (computeAndStore name).exec (runAll requests (.initial env)) = (.ok before, w1))
    (hwrite : (writeToGraph name result isFollowup).exec w1 = (.ok summary, w2))
    (hafter : (computeAndStore name).exec w2 = (.ok after, w3)) :
    (before.score.val ≤ after.score.val ∧ (before.proposalReady → after.proposalReady) ∧
      (before.certReady → after.certReady)) ↔
    ((runAll requests (.initial env)).graphs name).KeepsPace isFollowup result := by
  have hcharted : EveryGraph Graph.Charted (runAll requests (.initial env)) :=
    knowledgeInvariant_charted.runAll fun _ =>
      ⟨⟨⟨List.nodup_nil, nofun⟩, List.nodup_nil, nofun⟩, nofun⟩
  have hgraded : Graded (runAll requests (.initial env)) := runAll_graded fun _ => nofun
  obtain ⟨hscore, hscore', hproposal, hcert, hproposal', hcert'⟩ :=
    scores_of_write hcharted hgraded hbefore hwrite hafter
  rw [Graph.KeepsPace, ← hscore, ← hscore', and_iff_left_iff_imp, hproposal, hproposal', hcert,
    hcert']
  intro hle
  simp only [decide_eq_true_eq]
  exact ⟨fun h => h.trans hle, fun h => h.trans hle⟩

/-- The shop is made and taught that orders go to the kitchen. -/
def taughtShop : List Request := [.create Sample.shop, .answer "shop" Sample.answer]

/-- The relation that the shop has been taught, twice more. -/
theorem readiness_kept_iff_twice : ∃ before summary after w1 w2 w3,
    (computeAndStore "shop").exec (runAll taughtShop (.initial (answering [goesTo]))) =
      (.ok before, w1) ∧
    (writeToGraph "shop" goesToTwice false).exec w1 = (.ok summary, w2) ∧
    (computeAndStore "shop").exec w2 = (.ok after, w3) ∧
    ((before.score.val ≤ after.score.val ∧ (before.proposalReady → after.proposalReady) ∧
      (before.certReady → after.certReady)) ↔
    ((runAll taughtShop (.initial (answering [goesTo]))).graphs "shop").KeepsPace false
      goesToTwice) := by
  set w := runAll taughtShop (.initial (answering [goesTo]))
  set w1 := ((computeAndStore "shop").exec w).2
  set w2 := ((writeToGraph "shop" goesToTwice false).exec w1).2
  obtain ⟨before, hbefore⟩ := exec_of_isSome (m := computeAndStore "shop") (s := w)
    (by decide +kernel)
  obtain ⟨summary, hwrite⟩ := exec_of_isSome (m := writeToGraph "shop" goesToTwice false) (s := w1)
    (by decide +kernel)
  obtain ⟨after, hafter⟩ := exec_of_isSome (m := computeAndStore "shop") (s := w2)
    (by decide +kernel)
  exact ⟨before, summary, after, w1, w2, _, hbefore, hwrite, hafter,
    readiness_kept_iff _ taughtShop "shop" goesToTwice false hbefore hwrite hafter⟩

/-- An answer that mentions the staff and nothing about it. -/
def staffOnly : AnswerProcessorResult where
  status := .write
  entities := [⟨"staff", "group", Sample.certain⟩]
  relations := []
  confidence := Sample.certain
  conflict := none
  followUpQuestion := none

theorem readiness_drops : ¬ ∀ (env : Env) (requests : List Request) (name : String)
    (result : AnswerProcessorResult) (isFollowup : Bool) (before after : ReadinessScore)
    (summary : WriteSummary) (w1 w2 w3 : World),
    (computeAndStore name).exec (runAll requests (.initial env)) = (.ok before, w1) →
    (writeToGraph name result isFollowup).exec w1 = (.ok summary, w2) →
    (computeAndStore name).exec w2 = (.ok after, w3) → before.score.val ≤ after.score.val := by
  intro h
  set w := runAll taughtShop (.initial (answering [goesTo]))
  set w1 := ((computeAndStore "shop").exec w).2
  set w2 := ((writeToGraph "shop" staffOnly false).exec w1).2
  obtain ⟨before, hbefore⟩ := exec_of_isSome (m := computeAndStore "shop") (s := w)
    (by decide +kernel)
  obtain ⟨summary, hwrite⟩ := exec_of_isSome (m := writeToGraph "shop" staffOnly false) (s := w1)
    (by decide +kernel)
  obtain ⟨after, hafter⟩ := exec_of_isSome (m := computeAndStore "shop") (s := w2)
    (by decide +kernel)
  have hle := h _ taughtShop "shop" staffOnly false before after summary _ _ _ hbefore hwrite hafter
  have hlower : (((computeAndStore "shop").exec w2).1.toOption.map (·.score.val)).getD 0 <
      (((computeAndStore "shop").exec w).1.toOption.map (·.score.val)).getD 0 := by
    decide +kernel
  rw [hbefore, hafter] at hlower
  exact absurd hle (not_le.mpr hlower)

end AgentWorx
