import AgentWorx.Lib.Passes
import AgentWorx.Verify.Merge
import AgentWorx.Verify.Readiness

/-!
# The gaps of a graph

Each of the three searches passes once over the concepts, or over the sources of the edges, and
collects one gap for each that it is about. Together they report what the graph lacks: isolated
concepts, weak edges, and task concepts from which fewer than two edges leave.
-/

namespace AgentWorx

open Coop Coop.Sync

/-! ## What a graph lacks -/

namespace Graph

variable {g : Graph}

/-- The edges that leave the concept. -/
def outgoing (g : Graph) (id : String) : List RelatesTo := g.relatesTo.filter (·.source = id)

/-- An edge leaves or reaches the concept. -/
def Incident (g : Graph) (id : String) : Prop := ∃ r ∈ g.relatesTo, r.source = id ∨ r.target = id

/-- An edge that leaves the concept is weak. -/
def Weak (g : Graph) (id : String) : Prop := ∃ r ∈ g.outgoing id, r.confidence < 4 / 10

/-- The records that `_load_edges` makes of the edges. -/
def recordOf (r : RelatesTo) : EdgeRecord := ⟨r.source, r.target, r.confidence⟩

theorem WellFormed.edgeRecords_eq (h : g.WellFormed) :
    g.edgeRecords = g.relatesTo.map recordOf := by
  rw [edgeRecords, ← h.map_rows, List.map_map]
  refine List.map_congr_left fun row hrow => ?_
  obtain ⟨-, hsource, -, htarget⟩ := row_ids (a := row.1) (r := row.2.1) (b := row.2.2) hrow
  change (⟨row.1.id, row.2.2.id, row.2.1.confidence⟩ : EdgeRecord) = recordOf row.2.1
  rw [hsource, htarget]
  rfl

theorem WellFormed.conceptRecords_eq (h : g.WellFormed) :
    g.conceptRecords = g.concepts.map fun c => ⟨c.id, c.label, c.nspace⟩ :=
  foldl_setRecord (by simpa [Function.comp_def] using h.nodup_ids)

theorem WellFormed.outgoingEdges_eq (h : g.WellFormed) (id : String) :
    outgoingEdges g.edgeRecords id = (g.outgoing id).map recordOf := by
  rw [outgoingEdges, h.edgeRecords_eq, List.filter_map]
  rfl

/-- The test that the searches make for an isolated concept. -/
theorem WellFormed.isolated_iff (h : g.WellFormed) (id : String) :
    (outgoingEdges g.edgeRecords id).length = 0 ∧ (incomingEdges g.edgeRecords id).isEmpty ↔
      ¬ g.Incident id := by
  rw [List.length_eq_zero_iff, List.isEmpty_iff, outgoingEdges, incomingEdges, h.edgeRecords_eq,
    List.filter_eq_nil_iff, List.filter_eq_nil_iff]
  simp only [List.forall_mem_map, recordOf, decide_eq_true_eq, Incident, not_exists, not_and,
    not_or]
  exact ⟨fun hno r hr => ⟨hno.1 r hr, hno.2 r hr⟩,
    fun hno => ⟨fun r hr => (hno r hr).1, fun r hr => (hno r hr).2⟩⟩

end Graph

/-! ## One gap -/

/-- The gap is about the concept, under its label, and has the priority of its severity and
breadth. -/
structure GapOf (g : Graph) (gapType : GapType) (id : String) (gap : KnowledgeGap) : Prop where
  conceptId : gap.conceptId = id
  label : ∃ c ∈ g.concepts, c.id = id ∧ c.label = gap.conceptLabel
  gapType : gap.gapType = gapType
  priority : gap.priorityScore = roundHalfEven 3 (gap.severity.val * gap.breadth)

/-- The gap is as severe as the weakest edge that leaves its concept. -/
structure WeakGapOf (g : Graph) (id : String) (gap : KnowledgeGap) : Prop
    extends GapOf g .lowConfidence id gap where
  severity : ∃ r ∈ g.outgoing id, r.confidence < 4 / 10 ∧
    (∀ r' ∈ g.outgoing id, r'.confidence < 4 / 10 → r.confidence ≤ r'.confidence) ∧
    gap.severity.val = roundHalfEven 3 (1 - r.confidence)

/-- A gap whose numbers are in their ranges is made. -/
theorem makeGap_eq {conceptId conceptLabel : String} {gapType : GapType} {severity : ℚ}
    {breadth : Nat} {priorityScore : ℚ} {nspace : GapNamespace} (hseverity : 0 ≤ severity ∧
      severity ≤ 1) (hpriority : 0 ≤ priorityScore) :
    makeGap conceptId conceptLabel gapType severity breadth priorityScore nspace =
      .ok ⟨conceptId, conceptLabel, gapType, ⟨severity, hseverity⟩, breadth, priorityScore, nspace,
        hpriority⟩ := by
  rw [makeGap, Proportion.check, dif_pos hseverity]
  exact dif_pos hpriority

/-! ## The searches -/

/-- A search has found one gap for each concept that it is about. -/
structure FindsGaps (g : Graph) (gapType : GapType) (P : String → Prop) (gaps : List KnowledgeGap) :
    Prop where
  mem_iff : ∀ id, id ∈ gaps.map (·.conceptId) ↔ (∃ c ∈ g.concepts, c.id = id) ∧ P id
  nodup : (gaps.map (·.conceptId)).Nodup
  gap : ∀ gap ∈ gaps, GapOf g gapType gap.conceptId gap

variable {g : Graph}

/-- A pass over ids. -/
theorem FindsGaps.of_forall₂ {gapType : GapType} {P : String → Prop} {ids : List String}
    {gaps : List KnowledgeGap} (hforall : List.Forall₂ (GapOf g gapType) ids gaps)
    (hids : ids.Nodup) (hmem : ∀ id, id ∈ ids ↔ (∃ c ∈ g.concepts, c.id = id) ∧ P id) :
    FindsGaps g gapType P gaps := by
  have hmap : gaps.map (·.conceptId) = ids := by
    have := Passes.map_eq_of_forall₂ (g := id) hforall fun id gap h => h.conceptId
    simpa using this
  refine ⟨fun id => by rw [hmap, hmem], by rwa [hmap], fun gap hgap => ?_⟩
  obtain ⟨id, -, h⟩ := Passes.exists_of_forall₂ hforall hgap
  rw [h.conceptId]
  exact h

/-- The ids of the concept records that pass a test of the searches. -/
theorem Graph.WellFormed.records_filter (h : g.WellFormed) (p : ConceptRecord → Bool) :
    ((g.conceptRecords.filter p).map (·.id)).Nodup ∧
    ∀ id, id ∈ (g.conceptRecords.filter p).map (·.id) ↔
      ∃ c ∈ g.concepts, c.id = id ∧ p ⟨c.id, c.label, c.nspace⟩ := by
  rw [h.conceptRecords_eq]
  constructor
  · refine List.Nodup.sublist (List.filter_sublist.map _) ?_
    simpa [Function.comp_def] using h.nodup_ids
  · intro id
    simp only [List.mem_map, List.mem_filter]
    constructor
    · rintro ⟨-, ⟨⟨c, hc, rfl⟩, hp⟩, rfl⟩
      exact ⟨c, hc, rfl, hp⟩
    · rintro ⟨c, hc, rfl, hp⟩
      exact ⟨_, ⟨⟨c, hc, rfl⟩, hp⟩, rfl⟩

theorem findOrphanNodes_finds (h : g.WellFormed) :
    ∃ gaps, findOrphanNodes g.conceptRecords g.edgeRecords = .ok gaps ∧
      FindsGaps g .orphan (¬ g.Incident ·) gaps := by
  have hpriority : (0 : ℚ) = roundHalfEven 3 (1 * (0 : Nat)) := by
    rw [Nat.cast_zero, mul_zero, roundHalfEven_of_scaled (k := 0) (by simp)]
  have hpass : ∃ gaps, findOrphanNodes g.conceptRecords g.edgeRecords = .ok gaps ∧
      List.Forall₂ (fun c : ConceptRecord => GapOf g .orphan c.id) (g.conceptRecords.filter fun c =>
        (outgoingEdges g.edgeRecords c.id).isEmpty && (incomingEdges g.edgeRecords c.id).isEmpty)
        gaps := by
    refine Passes.forall₂_mapM fun c hc => ?_
    rw [makeGap_eq ⟨zero_le_one, le_rfl⟩ le_rfl]
    rw [h.conceptRecords_eq, List.mem_filter] at hc
    obtain ⟨concept, hconcept, rfl⟩ := List.mem_map.mp hc.1
    exact ⟨_, rfl, rfl, ⟨concept, hconcept, rfl, rfl⟩, rfl, hpriority⟩
  obtain ⟨gaps, hgaps, hforall⟩ := hpass
  obtain ⟨hnodup, hmem⟩ := h.records_filter fun c =>
    (outgoingEdges g.edgeRecords c.id).isEmpty && (incomingEdges g.edgeRecords c.id).isEmpty
  refine ⟨gaps, hgaps, FindsGaps.of_forall₂
    (List.forall₂_map_left_iff (f := ConceptRecord.id).mpr hforall) hnodup fun id => ?_⟩
  rw [hmem, ← h.isolated_iff]
  constructor
  · rintro ⟨c, hc, rfl, htest⟩
    rw [Bool.and_eq_true, List.isEmpty_iff_length_eq_zero] at htest
    exact ⟨⟨c, hc, rfl⟩, htest⟩
  · rintro ⟨⟨c, hc, rfl⟩, htest⟩
    rw [← List.isEmpty_iff_length_eq_zero, ← Bool.and_eq_true] at htest
    exact ⟨c, hc, rfl, htest⟩

/-- The two severities of a concept with fewer than two outgoing edges need no rounding. -/
theorem unexplored_severity {n : Nat} (hn : n < unexploredOutgoingEdgeTarget) :
    (0 ≤ (1 / 2 + 1 / 2 * (1 - n / unexploredOutgoingEdgeTarget) : ℚ) ∧
      (1 / 2 + 1 / 2 * (1 - n / unexploredOutgoingEdgeTarget) : ℚ) ≤ 1) ∧
    roundHalfEven 3 (1 / 2 + 1 / 2 * (1 - n / unexploredOutgoingEdgeTarget)) =
      1 / 2 + 1 / 2 * (1 - n / unexploredOutgoingEdgeTarget) := by
  unfold unexploredOutgoingEdgeTarget at hn ⊢
  obtain rfl | rfl : n = 0 ∨ n = 1 := by omega
  · exact ⟨by norm_num, roundHalfEven_of_scaled (k := 1000) (by norm_num)⟩
  · exact ⟨by norm_num, roundHalfEven_of_scaled (k := 750) (by norm_num)⟩

/-- The test of the third search. -/
def IsUnexplored (edges : List EdgeRecord) (c : ConceptRecord) : Prop :=
  c.nspace = "task" ∧
    ¬ ((outgoingEdges edges c.id).length = 0 ∧ (incomingEdges edges c.id).isEmpty) ∧
    (outgoingEdges edges c.id).length < unexploredOutgoingEdgeTarget

instance (edges : List EdgeRecord) : DecidablePred (IsUnexplored edges) := fun _ =>
  inferInstanceAs (Decidable (_ ∧ _))

theorem findUnexploredBranches_finds (h : g.WellFormed) :
    ∃ gaps, findUnexploredBranches g.conceptRecords g.edgeRecords = .ok gaps ∧
      FindsGaps g .unexplored (fun id => (∃ c ∈ g.concepts, c.id = id ∧ c.nspace = "task") ∧
        g.Incident id ∧ (g.outgoing id).length < 2) gaps := by
  have hpass : ∃ gaps, findUnexploredBranches g.conceptRecords g.edgeRecords = .ok ([] ++ gaps) ∧
      List.Forall₂ (fun c : ConceptRecord => GapOf g .unexplored c.id)
        (g.conceptRecords.filter fun c => IsUnexplored g.edgeRecords c) gaps := by
    refine Passes.forall₂_foldlM ?_ ?_ []
    · intro c _ hno gaps
      dsimp only
      split_ifs with htask hisolated hexplored
      · rfl
      · rfl
      · rfl
      · exact absurd ⟨not_not.mp htask, hisolated, not_le.mp hexplored⟩ hno
    · rintro c hc ⟨htask, hincident, hfew⟩
      obtain ⟨hunit, hround⟩ := unexplored_severity hfew
      have hpriority := roundHalfEven_nonneg 3 (mul_nonneg hunit.1 (Nat.cast_nonneg
        (max (countDependentConcepts c.id g.edgeRecords defaultMaxDepth) 1)))
      rw [h.conceptRecords_eq] at hc
      obtain ⟨concept, hconcept, rfl⟩ := List.mem_map.mp hc
      refine ⟨⟨concept.id, concept.label, .unexplored, ⟨_, hunit⟩, _, _, .task, hpriority⟩,
        ⟨rfl, ⟨concept, hconcept, rfl, rfl⟩, rfl, rfl⟩, fun gaps => ?_⟩
      dsimp only
      rw [if_neg (not_not.mpr htask), if_neg hincident, if_neg (not_le.mpr hfew), hround,
        makeGap_eq hunit hpriority]
      rfl
  obtain ⟨gaps, hgaps, hforall⟩ := hpass
  obtain ⟨hnodup, hmem⟩ := h.records_filter fun c => IsUnexplored g.edgeRecords c
  refine ⟨gaps, hgaps, FindsGaps.of_forall₂
    (List.forall₂_map_left_iff (f := ConceptRecord.id).mpr hforall) hnodup fun id => ?_⟩
  rw [hmem]
  have hlength (c : Concept) : (outgoingEdges g.edgeRecords c.id).length =
      (g.outgoing c.id).length := by
    rw [h.outgoingEdges_eq, List.length_map]
  constructor
  · rintro ⟨c, hc, rfl, htest⟩
    obtain ⟨htask, hincident, hfew⟩ := of_decide_eq_true htest
    rw [h.isolated_iff, not_not] at hincident
    exact ⟨⟨c, hc, rfl⟩, ⟨c, hc, rfl, htask⟩, hincident, hlength c ▸ hfew⟩
  · rintro ⟨-, ⟨c, hc, rfl, htask⟩, hincident, hfew⟩
    refine ⟨c, hc, rfl, decide_eq_true ⟨htask, ?_, (hlength c).symm ▸ hfew⟩⟩
    rwa [h.isolated_iff, not_not]

/-! ### Weak edges -/

theorem outgoingKeys_nodup (edges : List EdgeRecord) : (outgoingKeys edges).Nodup := by
  have hkeep (es : List EdgeRecord) (keys : List String) (hkeys : keys.Nodup) :
      (es.foldl (fun keys e => if e.sourceId ∈ keys then keys else keys ++ [e.sourceId])
        keys).Nodup := by
    induction es generalizing keys with
    | nil => exact hkeys
    | cons e es ih =>
      rw [List.foldl_cons]
      apply ih
      split_ifs with hmem
      · exact hkeys
      · exact hkeys.append (List.nodup_singleton _) (by simpa using hmem)
  exact hkeep edges [] List.nodup_nil

/-- The least confidence is that of one of the edges. -/
theorem minConfidence_spec (e : EdgeRecord) (es : List EdgeRecord) :
    (∃ e' ∈ e :: es, minConfidence e es = e'.confidence) ∧
      ∀ e' ∈ e :: es, minConfidence e es ≤ e'.confidence := by
  have hfold (es : List EdgeRecord) (m : ℚ) :
      (es.foldl (fun m e => min m e.confidence) m = m ∨
        ∃ e' ∈ es, es.foldl (fun m e => min m e.confidence) m = e'.confidence) ∧
      es.foldl (fun m e => min m e.confidence) m ≤ m ∧
      ∀ e' ∈ es, es.foldl (fun m e => min m e.confidence) m ≤ e'.confidence := by
    induction es generalizing m with
    | nil => exact ⟨.inl rfl, le_rfl, nofun⟩
    | cons e es ih =>
      obtain ⟨hcases, hle, hall⟩ := ih (min m e.confidence)
      rw [List.foldl_cons]
      refine ⟨?_, hle.trans (min_le_left _ _), List.forall_mem_cons.mpr ⟨?_, hall⟩⟩
      · rcases hcases with heq | ⟨e', he', heq⟩
        · rw [heq]
          rcases min_choice m e.confidence with hmin | hmin
          · exact .inl hmin
          · exact .inr ⟨e, by simp, hmin⟩
        · exact .inr ⟨e', List.mem_cons_of_mem _ he', heq⟩
      · exact hle.trans (min_le_right _ _)
  obtain ⟨hcases, hle, hall⟩ := hfold es e.confidence
  refine ⟨?_, List.forall_mem_cons.mpr ⟨hle, hall⟩⟩
  rcases hcases with heq | ⟨e', he', heq⟩
  · exact ⟨e, by simp, heq⟩
  · exact ⟨e', List.mem_cons_of_mem _ he', heq⟩

/-- The weak edges that leave a concept. -/
theorem Graph.WellFormed.mem_lowEdges (h : g.WellFormed) {id : String} {e : EdgeRecord} :
    e ∈ (outgoingEdges g.edgeRecords id).filter (·.confidence < lowConfidenceThreshold) ↔
      ∃ r ∈ g.outgoing id, r.confidence < 4 / 10 ∧ Graph.recordOf r = e := by
  rw [h.outgoingEdges_eq, List.mem_filter, List.mem_map]
  constructor
  · rintro ⟨⟨r, hr, rfl⟩, hlow⟩
    exact ⟨r, hr, of_decide_eq_true hlow, rfl⟩
  · rintro ⟨r, hr, hlow, rfl⟩
    exact ⟨⟨r, hr, rfl⟩, decide_eq_true hlow⟩

/-- An edge leaves a concept that is there. -/
theorem Graph.WellFormed.find_source (h : g.WellFormed) {id : String} {r : RelatesTo}
    (hr : r ∈ g.outgoing id) :
    ∃ record, g.conceptRecords.find? (·.id = id) = some record ∧
      ∃ c ∈ g.concepts, (⟨c.id, c.label, c.nspace⟩ : ConceptRecord) = record := by
  obtain ⟨hmem, hsource⟩ := List.mem_filter.mp hr
  have hend := (h.ends r hmem).1
  rw [of_decide_eq_true hsource, Graph.names_ids, List.mem_map] at hend
  obtain ⟨c, hc, hid⟩ := hend
  rw [h.conceptRecords_eq]
  cases hfind : (g.concepts.map fun c => (⟨c.id, c.label, c.nspace⟩ : ConceptRecord)).find?
      (·.id = id) with
  | none =>
    have hno := List.find?_eq_none.mp hfind _ (List.mem_map_of_mem hc)
    exact absurd (decide_eq_true hid) hno
  | some record =>
    obtain ⟨c', hc', hrecord⟩ := List.mem_map.mp (List.mem_of_find?_eq_some hfind)
    exact ⟨record, rfl, c', hc', hrecord⟩

theorem findLowConfidenceEdges_finds (h : g.WellFormed) (hweighted : g.Weighted) :
    ∃ gaps, findLowConfidenceEdges g.conceptRecords g.edgeRecords lowConfidenceThreshold =
        .ok gaps ∧ FindsGaps g .lowConfidence g.Weak gaps ∧
      ∀ gap ∈ gaps, WeakGapOf g gap.conceptId gap := by
  have hpass : ∃ gaps, findLowConfidenceEdges g.conceptRecords g.edgeRecords
      lowConfidenceThreshold = .ok ([] ++ gaps) ∧
      List.Forall₂ (WeakGapOf g) ((outgoingKeys g.edgeRecords).filter fun id =>
        (outgoingEdges g.edgeRecords id).filter (·.confidence < lowConfidenceThreshold) ≠ [])
        gaps := by
    refine Passes.forall₂_foldlM ?_ ?_ []
    · intro id _ hno gaps
      rw [not_not.mp hno]
    · intro id _ hlow
      obtain ⟨e, es, hes⟩ := List.exists_cons_of_ne_nil hlow
      obtain ⟨⟨e', he', hmin⟩, hall⟩ := minConfidence_spec e es
      rw [← hes] at he' hall
      obtain ⟨r, hr, hweak, rfl⟩ := h.mem_lowEdges.mp he'
      have hmem := (List.mem_filter.mp hr).1
      obtain ⟨record, hfind, concept, hconcept, rfl⟩ := h.find_source hr
      have hunit : 0 ≤ 1 - r.confidence ∧ 1 - r.confidence ≤ 1 := by
        obtain ⟨hlow, hhigh⟩ := hweighted r hmem
        constructor <;> linarith
      have hseverity := roundHalfEven_mem_unit 3 hunit
      have hpriority := roundHalfEven_nonneg 3 (mul_nonneg hseverity.1 (Nat.cast_nonneg
        (countDependentConcepts id g.edgeRecords defaultMaxDepth)))
      have hid : concept.id = id := by simpa using List.find?_some hfind
      change minConfidence e es = r.confidence at hmin
      refine ⟨⟨concept.id, concept.label, .lowConfidence, ⟨_, hseverity⟩,
          countDependentConcepts id g.edgeRecords defaultMaxDepth, _,
          gapNamespace concept.nspace, hpriority⟩,
        ⟨⟨hid, ⟨concept, hconcept, hid, rfl⟩, rfl, rfl⟩, r, hr, hweak, ?_, rfl⟩, fun gaps => ?_⟩
      · intro r' hr' hweak'
        have hle := hall _ (h.mem_lowEdges.mpr ⟨r', hr', hweak', rfl⟩)
        rw [hmin] at hle
        exact hle
      · rw [hes, hfind]
        dsimp only
        rw [hmin, makeGap_eq hseverity hpriority]
        rfl
  obtain ⟨gaps, hgaps, hforall⟩ := hpass
  refine ⟨gaps, hgaps, FindsGaps.of_forall₂ (hforall.imp fun _ _ hgap => hgap.toGapOf)
    ((outgoingKeys_nodup _).filter _) fun id => ?_, fun gap hgap => ?_⟩
  · rw [List.mem_filter, decide_eq_true_eq]
    constructor
    · rintro ⟨-, hlow⟩
      obtain ⟨e, he⟩ := List.exists_mem_of_ne_nil _ hlow
      obtain ⟨r, hr, hweak, -⟩ := h.mem_lowEdges.mp he
      obtain ⟨record, hfind, concept, hconcept, rfl⟩ := h.find_source hr
      exact ⟨⟨concept, hconcept, by simpa using List.find?_some hfind⟩, r, hr, hweak⟩
    · rintro ⟨-, r, hr, hweak⟩
      have he := h.mem_lowEdges.mpr ⟨r, hr, hweak, rfl⟩
      obtain ⟨hmem, hsource⟩ := List.mem_filter.mp (List.mem_filter.mp he).1
      have hkey := mem_outgoingKeys hmem
      rw [of_decide_eq_true hsource] at hkey
      exact ⟨hkey, List.ne_nil_of_mem he⟩
  · obtain ⟨id, -, hweak⟩ := Passes.exists_of_forall₂ hforall hgap
    rw [hweak.conceptId]
    exact hweak

/-! ## The report -/

/-- The order in which the searches are made. -/
def GapType.rank : GapType → Nat
  | .orphan => 0
  | .lowConfidence => 1
  | .unexplored => 2

/-- The case of the type. -/
def GapType.pick {α : Type} (orphan lowConfidence unexplored : α) : GapType → α
  | .orphan => orphan
  | .lowConfidence => lowConfidence
  | .unexplored => unexplored

namespace Graph

/-- What each type of gap says of a concept. -/
def Lacks (g : Graph) : GapType → String → Prop
  | .orphan, id => ¬ g.Incident id
  | .lowConfidence, id => g.Weak id
  | .unexplored, id => (∃ c ∈ g.concepts, c.id = id ∧ c.nspace = "task") ∧ g.Incident id ∧
      (g.outgoing id).length < 2

/-- Only an orphan has no edge. -/
theorem Lacks.incident {gapType : GapType} {id : String} (h : g.Lacks gapType id)
    (hne : gapType ≠ .orphan) : g.Incident id := by
  cases gapType with
  | orphan => exact absurd rfl hne
  | lowConfidence =>
    obtain ⟨r, hr, -⟩ := h
    obtain ⟨hmem, hsource⟩ := List.mem_filter.mp hr
    exact ⟨r, hmem, .inl (of_decide_eq_true hsource)⟩
  | unexplored => exact h.2.1

end Graph

/-- The report is exact: each gap is about a concept that lacks what the type says, and there is one
for each. -/
structure ReportsGaps (g : Graph) (result : GapDetectorResult) : Prop where
  exact : ∀ gapType id, (∃ gap ∈ result.gaps, gap.gapType = gapType ∧ gap.conceptId = id) ↔
    (∃ c ∈ g.concepts, c.id = id) ∧ g.Lacks gapType id
  gap : ∀ gap ∈ result.gaps, GapOf g gap.gapType gap.conceptId gap
  weak : ∀ gap ∈ result.gaps, gap.gapType = .lowConfidence → WeakGapOf g gap.conceptId gap
  once : (result.gaps.map fun gap => (gap.gapType, gap.conceptId)).Nodup
  orphan_alone : ∀ gap ∈ result.gaps, ∀ gap' ∈ result.gaps, gap.gapType = .orphan →
    gap'.conceptId = gap.conceptId → gap'.gapType = .orphan
  validated : ∀ gap ∈ result.gaps, makeGap gap.conceptId gap.conceptLabel gap.gapType
    gap.severity.val gap.breadth gap.priorityScore gap.nspace = .ok gap
  counts : result.orphanCount + result.lowConfidenceCount + result.unexploredCount =
    result.gaps.length
  sorted : result.gaps.Pairwise fun a b => b.priorityScore ≤ a.priorityScore ∧
    (b.priorityScore = a.priorityScore → a.gapType.rank ≤ b.gapType.rank)

theorem sortGaps_sorted {gaps : List KnowledgeGap}
    (hranks : gaps.Pairwise fun a b => a.gapType.rank ≤ b.gapType.rank) :
    (sortGaps gaps).Pairwise fun a b => b.priorityScore ≤ a.priorityScore ∧
      (b.priorityScore = a.priorityScore → a.gapType.rank ≤ b.gapType.rank) := by
  have hrefl (a : KnowledgeGap) : a.gapType.rank ≤ a.gapType.rank := le_rfl
  refine (Passes.pairwise_mergeSort_stable ?_ ?_ hrefl hranks).imp ?_
  · intro a b c hab hbc
    exact decide_eq_true ((of_decide_eq_true hbc).trans (of_decide_eq_true hab))
  · intro a b
    simpa using le_total b.priorityScore a.priorityScore
  · intro a b h
    exact ⟨of_decide_eq_true h.1, fun heq => h.2 (decide_eq_true heq.ge)⟩

section Finds

variable {gapType gapType' : GapType} {P P' : String → Prop} {gaps gaps' : List KnowledgeGap}

/-- The gaps of one search have its type, and with the type no concept twice. -/
theorem FindsGaps.keys_nodup (h : FindsGaps g gapType P gaps) :
    (gaps.map fun gap => (gap.gapType, gap.conceptId)).Nodup := by
  apply List.Nodup.of_map Prod.snd
  rw [List.map_map]
  exact h.nodup

theorem FindsGaps.gapType_eq (h : FindsGaps g gapType P gaps) {gap : KnowledgeGap}
    (hgap : gap ∈ gaps) : gap.gapType = gapType :=
  (h.gap gap hgap).gapType

theorem FindsGaps.keys_disjoint (h : FindsGaps g gapType P gaps)
    (h' : FindsGaps g gapType' P' gaps') (hne : gapType ≠ gapType') :
    List.Disjoint (gaps.map fun gap => (gap.gapType, gap.conceptId))
      (gaps'.map fun gap => (gap.gapType, gap.conceptId)) := by
  intro key hkey hkey'
  obtain ⟨gap, hgap, rfl⟩ := List.mem_map.mp hkey
  obtain ⟨gap', hgap', heq⟩ := List.mem_map.mp hkey'
  have htypes : gap'.gapType = gap.gapType := congrArg Prod.fst heq
  exact hne ((h.gapType_eq hgap).symm.trans (htypes.symm.trans (h'.gapType_eq hgap')))

theorem FindsGaps.rank_le (h : FindsGaps g gapType P gaps) (h' : FindsGaps g gapType' P' gaps')
    (hle : gapType.rank ≤ gapType'.rank) :
    ∀ gap ∈ gaps, ∀ gap' ∈ gaps', gap.gapType.rank ≤ gap'.gapType.rank := by
  intro gap hgap gap' hgap'
  rwa [h.gapType_eq hgap, h'.gapType_eq hgap']

theorem FindsGaps.ranks (h : FindsGaps g gapType P gaps) :
    gaps.Pairwise fun gap gap' => gap.gapType.rank ≤ gap'.gapType.rank :=
  List.pairwise_of_forall_mem_list (h.rank_le h le_rfl)

end Finds

/-- What the three searches have found, by type, makes an exact report. -/
theorem reportsGaps_of_finds {result : GapDetectorResult} {found : GapType → List KnowledgeGap}
    (hfound : ∀ gapType, FindsGaps g gapType (g.Lacks gapType) (found gapType))
    (hweak : ∀ gap ∈ found .lowConfidence, WeakGapOf g gap.conceptId gap)
    (hgaps : result.gaps =
      sortGaps (found .orphan ++ found .lowConfidence ++ found .unexplored))
    (hcounts : result.orphanCount = (found .orphan).length ∧
      result.lowConfidenceCount = (found .lowConfidence).length ∧
      result.unexploredCount = (found .unexplored).length) : ReportsGaps g result := by
  have hperm : result.gaps.Perm (found .orphan ++ found .lowConfidence ++ found .unexplored) :=
    hgaps ▸ List.mergeSort_perm _ _
  have hmem (gap : KnowledgeGap) : gap ∈ result.gaps ↔ gap ∈ found gap.gapType := by
    rw [hperm.mem_iff, List.mem_append, List.mem_append]
    constructor
    · rintro ((h | h) | h) <;> rwa [(hfound _).gapType_eq h]
    · cases gap.gapType with
      | orphan => exact fun h => .inl (.inl h)
      | lowConfidence => exact fun h => .inl (.inr h)
      | unexplored => exact fun h => .inr h
  have hexact (gapType : GapType) (id : String) :
      (∃ gap ∈ result.gaps, gap.gapType = gapType ∧ gap.conceptId = id) ↔
        (∃ c ∈ g.concepts, c.id = id) ∧ g.Lacks gapType id := by
    rw [← (hfound gapType).mem_iff, List.mem_map]
    constructor
    · rintro ⟨gap, hgap, rfl, hid⟩
      exact ⟨gap, (hmem gap).mp hgap, hid⟩
    · rintro ⟨gap, hgap, hid⟩
      have htype := (hfound gapType).gapType_eq hgap
      exact ⟨gap, (hmem gap).mpr (htype.symm ▸ hgap), htype, hid⟩
  refine ⟨hexact, fun gap hgap => ?_, ?_, ?_, ?_, ?_, ?_, ?_⟩
  · exact (hfound gap.gapType).gap gap ((hmem gap).mp hgap)
  · intro gap hgap ht
    exact hweak gap (ht ▸ (hmem gap).mp hgap)
  · rw [(hperm.map _).nodup_iff, List.map_append, List.map_append]
    refine ((hfound .orphan).keys_nodup.append (hfound .lowConfidence).keys_nodup
      ((hfound _).keys_disjoint (hfound _) (by decide))).append (hfound .unexplored).keys_nodup ?_
    rw [List.disjoint_append_left]
    exact ⟨(hfound _).keys_disjoint (hfound _) (by decide),
      (hfound _).keys_disjoint (hfound _) (by decide)⟩
  · intro gap hgap gap' hgap' ht hid
    by_contra hne
    have hincident := ((hexact _ _).mp ⟨gap', hgap', rfl, rfl⟩).2.incident hne
    rw [hid] at hincident
    exact ((hexact .orphan _).mp ⟨gap, hgap, ht, rfl⟩).2 hincident
  · intro gap _
    exact makeGap_eq gap.severity.2 gap.priorityScore_nonneg
  · rw [hperm.length_eq, List.length_append, List.length_append, hcounts.1, hcounts.2.1,
      hcounts.2.2]
  · rw [hgaps]
    refine sortGaps_sorted (List.pairwise_append.mpr ⟨List.pairwise_append.mpr
      ⟨(hfound _).ranks, (hfound _).ranks, (hfound _).rank_le (hfound _) (by decide)⟩,
      (hfound _).ranks, fun gap hgap => ?_⟩)
    rcases List.mem_append.mp hgap with h | h
    · exact (hfound _).rank_le (hfound _) (by decide) gap h
    · exact (hfound _).rank_le (hfound _) (by decide) gap h

/-- On every graph, the detector returns an exact report of its gaps. -/
theorem detectGaps_reports (agentType : String) (w : World) (hready : GraphReady w agentType)
    (hg : (w.graphs agentType).WellFormed) (hweighted : (w.graphs agentType).Weighted) :
    ∃ result w', (detectGaps agentType).exec w = (.ok result, w') ∧
      ReportsGaps (w.graphs agentType) result := by
  obtain ⟨orphans, horphans, hfindsOrphans⟩ := findOrphanNodes_finds hg
  obtain ⟨low, hlow, hfindsLow, hweak⟩ := findLowConfidenceEdges_finds hg hweighted
  obtain ⟨unexplored, hunexplored, hfindsUnexplored⟩ := findUnexploredBranches_finds hg
  have hreports : Triple (detectGaps agentType) w
      (fun result _ => ReportsGaps (w.graphs agentType) result) fun _ _ => False := by
    refine detectGaps_triple.mono ?_ ?_
    · rintro result _ ⟨os, ls, us, hos, hls, hus, hgaps, hcounts⟩
      cases horphans.symm.trans hos
      cases hlow.symm.trans hls
      cases hunexplored.symm.trans hus
      have hfound (gapType : GapType) : FindsGaps (w.graphs agentType) gapType
          ((w.graphs agentType).Lacks gapType) (gapType.pick orphans low unexplored) := by
        cases gapType with
        | orphan => exact hfindsOrphans
        | lowConfidence => exact hfindsLow
        | unexplored => exact hfindsUnexplored
      exact reportsGaps_of_finds hfound hweak hgaps hcounts
    · rintro e _ (hfail | hfail)
      · exact hfail.1 hready
      · cases hlow.symm.trans hfail
  exact hreports.returns

/-- A process whose graph has a weak edge, an edge from a concept to itself and an isolated
concept. -/
def sketch : World :=
  { World.initial Sample.env with
    graphs := fun _ =>
      { tables := [.concept, .constraint, .relatesTo, .hasConstraint, .agentRole, .handsOffTo,
          .hasRole]
        concepts := [⟨"menu", "menu", "task", 1, ⟨0, some 0⟩⟩,
          ⟨"order", "order", "task", 1, ⟨0, some 0⟩⟩,
          ⟨"shift", "shift", "coordination", 1, ⟨0, some 0⟩⟩]
        relatesTo := [⟨"menu", "order", "before", 3 / 10, 1⟩, ⟨"menu", "menu", "part_of", 1, 1⟩]
        roles := []
        handsOffTo := [] } }

theorem detectGaps_reports_sketch :
    ∃ result w', (detectGaps "shop").exec sketch = (.ok result, w') ∧
      ReportsGaps (sketch.graphs "shop") result := by
  have hweighted : (sketch.graphs "shop").Weighted := by
    simp only [Graph.Weighted, sketch, List.mem_cons, List.not_mem_nil, or_false,
      forall_eq_or_imp, forall_eq]
    norm_num
  exact detectGaps_reports "shop" sketch
    ⟨by decide, fun t => by cases t <;> decide, fun _ => rfl⟩ ⟨by decide, by decide⟩ hweighted

end AgentWorx
