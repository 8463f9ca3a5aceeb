import AgentWorx.Apprentice.QuestionGenerator
import AgentWorx.Verify.Sample
import AgentWorx.Verify.Writer

/-!
# The known concepts of a question

The labels at the ends of the strong edges are collected row by row until the limit is reached. Each
row may bring two of them, and the limit is not tested between the two.
-/

namespace AgentWorx

open Coop Coop.Sync

/-! ## The labels of rows -/

/-- A row of the match on strong edges: the id and the label of the source and of the target. -/
abbrev EndpointRow := (String × String) × (String × String)

/-- The labels that a row can bring. -/
def rowLabels (excludeId : String) (row : EndpointRow) : List String :=
  ([row.1, row.2].filter fun endpoint => endpoint.1 ≠ excludeId ∧ endpoint.2 ≠ "").map (·.2)

/-- The distinct labels that the rows can bring. -/
def distinctLabels (excludeId : String) (rows : List EndpointRow) : Finset String :=
  (rows.flatMap (rowLabels excludeId)).toFinset

/-- No row takes the number of distinct labels from below the limit to above it. -/
def NoRowOverflows (excludeId : String) (limit : Nat) (rows : List EndpointRow) : Prop :=
  ∀ i < rows.length, (distinctLabels excludeId (rows.take i)).card + 1 = limit →
    (distinctLabels excludeId (rows.take (i + 1))).card ≤ limit

instance (excludeId : String) (limit : Nat) (rows : List EndpointRow) :
    Decidable (NoRowOverflows excludeId limit rows) :=
  inferInstanceAs (Decidable (∀ i < rows.length, _ → _))

variable {excludeId label : String} {limit i j : Nat} {rows before rest : List EndpointRow}
  {concepts : List String}

theorem distinctLabels_append : distinctLabels excludeId (before ++ rest) =
    distinctLabels excludeId before ∪ distinctLabels excludeId rest := by
  simp [distinctLabels]

theorem card_distinctLabels_mono (h : i ≤ j) : (distinctLabels excludeId (rows.take i)).card ≤
    (distinctLabels excludeId (rows.take j)).card := by
  obtain ⟨rest, hrest⟩ := List.take_prefix_take_left (l := rows) h
  rw [← hrest, distinctLabels_append]
  exact Finset.card_le_card Finset.subset_union_left

/-- A row brings two labels at most. -/
theorem card_distinctLabels_succ : (distinctLabels excludeId (rows.take (i + 1))).card ≤
    (distinctLabels excludeId (rows.take i)).card + 2 := by
  have hrow (row : EndpointRow) : (distinctLabels excludeId [row]).card ≤ 2 := by
    refine (List.toFinset_card_le _).trans ?_
    simp only [List.flatMap_cons, List.flatMap_nil, List.append_nil, rowLabels, List.length_map]
    exact List.length_filter_le ..
  rw [List.take_add_one, distinctLabels_append]
  refine (Finset.card_union_le _ _).trans (Nat.add_le_add_left ?_ _)
  cases rows[i]? with
  | none => exact Nat.zero_le _
  | some row => exact hrow row

/-! ## The loop -/

/-- The list holds the labels of the rows, each once. -/
structure Collected (excludeId : String) (rows : List EndpointRow) (concepts : List String) :
    Prop where
  nodup : concepts.Nodup
  labels : concepts.toFinset = distinctLabels excludeId rows

theorem Collected.length_eq (h : Collected excludeId rows concepts) :
    concepts.length = (distinctLabels excludeId rows).card := by
  rw [← h.labels, List.toFinset_card_of_nodup h.nodup]

theorem addKnownConcept_nodup (h : concepts.Nodup) (endpoint : String × String) :
    (addKnownConcept excludeId concepts endpoint).Nodup := by
  rw [addKnownConcept]
  split_ifs with hskip hold
  · exact h
  · exact h
  · exact List.nodup_append'.mpr ⟨h, by simp, by simpa using hold⟩

theorem mem_addKnownConcept {endpoint : String × String} :
    label ∈ addKnownConcept excludeId concepts endpoint ↔
      label ∈ concepts ∨ (endpoint.1 ≠ excludeId ∧ endpoint.2 ≠ "") ∧ label = endpoint.2 := by
  rw [addKnownConcept]
  split_ifs with hskip hold
  · tauto
  · constructor
    · exact .inl
    · rintro (h | ⟨-, rfl⟩)
      · exact h
      · exact hold
  · simp [not_or.mp hskip]

/-- A row adds its labels. -/
theorem Collected.concat (h : Collected excludeId before concepts) (row : EndpointRow) :
    Collected excludeId (before ++ [row])
      (addKnownConcept excludeId (addKnownConcept excludeId concepts row.1) row.2) where
  nodup := addKnownConcept_nodup (addKnownConcept_nodup h.nodup row.1) row.2
  labels := by
    have hbefore := h.labels
    ext label
    have hlabel : label ∈ concepts ↔ label ∈ distinctLabels excludeId before := by
      rw [← hbefore, List.mem_toFinset]
    rw [List.mem_toFinset, mem_addKnownConcept, mem_addKnownConcept, hlabel, distinctLabels_append,
      Finset.mem_union]
    simp only [distinctLabels, List.flatMap_cons, List.flatMap_nil, List.append_nil, rowLabels,
      List.mem_toFinset, List.mem_map, List.mem_filter, List.mem_cons, List.not_mem_nil, or_false,
      decide_eq_true_eq]
    constructor
    · rintro ((hold | ⟨hadd, rfl⟩) | ⟨hadd, rfl⟩)
      · exact .inl hold
      · exact .inr ⟨row.1, ⟨.inl rfl, hadd⟩, rfl⟩
      · exact .inr ⟨row.2, ⟨.inr rfl, hadd⟩, rfl⟩
    · rintro (hold | ⟨endpoint, ⟨rfl | rfl, hadd⟩, rfl⟩)
      · exact .inl (.inl hold)
      · exact .inl (.inr ⟨hadd, rfl⟩)
      · exact .inr ⟨hadd, rfl⟩

/-- The loop collects the labels of the fewest rows that reach the limit, or of all rows. -/
theorem collectKnownConcepts_collects (h : Collected excludeId before concepts)
    (hlow : ∀ i < before.length,
      (distinctLabels excludeId ((before ++ rows).take i)).card < limit) :
    ∃ n, Collected excludeId ((before ++ rows).take n)
        (collectKnownConcepts excludeId limit rows concepts) ∧
      ((before ++ rows).length ≤ n ∨
        limit ≤ (distinctLabels excludeId ((before ++ rows).take n)).card) ∧
      ∀ i < n, (distinctLabels excludeId ((before ++ rows).take i)).card < limit := by
  induction rows generalizing before concepts with
  | nil =>
    refine ⟨before.length, ?_, .inl (by simp), hlow⟩
    rw [List.append_nil, List.take_length]
    exact h
  | cons row rows ih =>
    rw [collectKnownConcepts]
    split_ifs with hlimit
    · rw [List.append_cons] at hlow ⊢
      refine ih (h.concat row) fun i hi => ?_
      rw [List.length_append, List.length_singleton] at hi
      rcases Nat.lt_succ_iff_lt_or_eq.mp hi with hi | rfl
      · exact hlow i hi
      · rwa [List.append_assoc, List.take_left, ← h.length_eq]
    · refine ⟨before.length, ?_, .inr ?_, hlow⟩
      · rwa [List.take_left]
      · rw [List.take_left, ← h.length_eq]
        exact not_lt.mp hlimit

theorem collectKnownConcepts_nil_collects (excludeId : String) (limit : Nat)
    (rows : List EndpointRow) :
    ∃ n, Collected excludeId (rows.take n) (collectKnownConcepts excludeId limit rows []) ∧
      (rows.length ≤ n ∨ limit ≤ (distinctLabels excludeId (rows.take n)).card) ∧
      ∀ i < n, (distinctLabels excludeId (rows.take i)).card < limit := by
  have hnil : Collected excludeId [] [] := ⟨List.nodup_nil, rfl⟩
  exact collectKnownConcepts_collects hnil (by simp)

/-! ## The limit -/

/-- The list has no label twice and not more than the limit, all its labels are eligible, and it
leaves one out only when it is full. -/
structure CappedAndClean (Eligible : String → Prop) (limit : Nat) (concepts : List String) :
    Prop where
  nodup : concepts.Nodup
  capped : concepts.length ≤ limit
  eligible : ∀ label ∈ concepts, Eligible label
  complete : ∀ label, Eligible label → label ∉ concepts → limit ≤ concepts.length

/-- The loop keeps the limit exactly when no row overflows it; the rest it always keeps. -/
theorem collectKnownConcepts_capped_iff (excludeId : String) (limit : Nat)
    (rows : List EndpointRow) :
    CappedAndClean (· ∈ distinctLabels excludeId rows) limit
        (collectKnownConcepts excludeId limit rows []) ↔
      NoRowOverflows excludeId limit rows := by
  obtain ⟨n, hcollected, hreached, hlow⟩ := collectKnownConcepts_nil_collects excludeId limit rows
  have hmem (label : String) : label ∈ collectKnownConcepts excludeId limit rows [] ↔
      label ∈ distinctLabels excludeId (rows.take n) := by
    rw [← hcollected.labels, List.mem_toFinset]
  constructor
  · intro h i hi hcard
    have hcapped := hcollected.length_eq ▸ h.capped
    rcases Nat.lt_or_ge i n with hin | hin
    · exact (card_distinctLabels_mono hin).trans hcapped
    · -- the loop stopped before the row
      have hfull := hreached.resolve_left (not_le.mpr (hin.trans_lt hi))
      have hmono : (distinctLabels excludeId (rows.take n)).card ≤
          (distinctLabels excludeId (rows.take i)).card := card_distinctLabels_mono hin
      omega
  · intro h
    refine ⟨hcollected.nodup, ?_, fun label hlabel => ?_, fun label hlabel hno => ?_⟩
    · rw [hcollected.length_eq]
      cases n with
      | zero => exact Nat.zero_le _
      | succ i =>
        have hless := hlow i (Nat.lt_succ_self i)
        have hrow : (distinctLabels excludeId (rows.take (i + 1))).card ≤
            (distinctLabels excludeId (rows.take i)).card + 2 := card_distinctLabels_succ
        by_cases hi : i < rows.length
        · have := h i hi
          omega
        · rw [List.take_of_length_le (not_lt.mp hi)] at hless
          rw [List.take_of_length_le (by omega)]
          exact hless.le
    · rw [← List.take_append_drop n rows, distinctLabels_append, Finset.mem_union]
      exact .inl ((hmem label).mp hlabel)
    · rcases hreached with hall | hreached
      · rw [hmem, List.take_of_length_le hall] at hno
        exact absurd hlabel hno
      · rwa [hcollected.length_eq]

/-! ## Over a graph -/

/-- The label of a concept that is not excluded, at an end of an edge that is strong enough. -/
def Graph.EligibleLabel (g : Graph) (excludeId : String) (threshold : ℚ) (label : String) : Prop :=
  label ≠ "" ∧ ∃ row ∈ g.relatesToRows, threshold ≤ row.2.1.confidence ∧
    ((row.1.id ≠ excludeId ∧ row.1.label = label) ∨
      (row.2.2.id ≠ excludeId ∧ row.2.2.label = label))

/-- The rows that the match on strong edges returns. -/
def Graph.strongRows (g : Graph) (threshold : ℚ) : List EndpointRow :=
  (g.relatesToRows.filter fun (_, r, _) => threshold ≤ r.confidence).map fun (a, _, b) =>
    ((a.id, a.label), (b.id, b.label))

theorem Graph.mem_distinctLabels {g : Graph} {threshold : ℚ} :
    label ∈ distinctLabels excludeId (g.strongRows threshold) ↔
      g.EligibleLabel excludeId threshold label := by
  simp only [distinctLabels, Graph.strongRows, List.mem_toFinset, List.mem_flatMap, List.mem_map,
    List.mem_filter, decide_eq_true_eq, rowLabels, List.mem_cons, List.not_mem_nil, or_false,
    Graph.EligibleLabel]
  constructor
  · rintro ⟨_, ⟨row, ⟨hrow, hstrong⟩, rfl⟩, _, ⟨rfl | rfl, hid, hne⟩, rfl⟩
    · exact ⟨hne, row, hrow, hstrong, .inl ⟨hid, rfl⟩⟩
    · exact ⟨hne, row, hrow, hstrong, .inr ⟨hid, rfl⟩⟩
  · rintro ⟨hne, row, hrow, hstrong, ⟨hid, rfl⟩ | ⟨hid, rfl⟩⟩
    · exact ⟨_, ⟨row, ⟨hrow, hstrong⟩, rfl⟩, _, ⟨.inl rfl, hid, hne⟩, rfl⟩
    · exact ⟨_, ⟨row, ⟨hrow, hstrong⟩, rfl⟩, _, ⟨.inr rfl, hid, hne⟩, rfl⟩

/-- What is collected is capped and clean exactly when no row of the graph overflows the limit. The
call raises only if the graph is not ready, and it leaves the process as it was. -/
theorem getHighConfidenceConcepts_capped_iff (w : World) (agentType excludeId : String)
    (threshold : ℚ) (limit : Nat) :
    Triple (getHighConfidenceConcepts agentType excludeId threshold limit) w
      (fun concepts w' => Idle w w' ∧
        (CappedAndClean ((w.graphs agentType).EligibleLabel excludeId threshold) limit concepts ↔
          NoRowOverflows excludeId limit ((w.graphs agentType).strongRows threshold)))
      fun _ w' => Idle w w' ∧ ¬ GraphReady w agentType := by
  refine .bind (read_ends (refl_of Idle w) (by simp)) fun rows w' ⟨hrows, hidle⟩ =>
    .pure ⟨hidle, ?_⟩
  have heligible : (w.graphs agentType).EligibleLabel excludeId threshold =
      (· ∈ distinctLabels excludeId ((w.graphs agentType).strongRows threshold)) :=
    funext fun label => propext Graph.mem_distinctLabels.symm
  rw [heligible, hrows]
  exact collectKnownConcepts_capped_iff excludeId limit _

/-- A graph with a concept that leads to itself, and ten edges between twenty others. -/
def pairedConcepts : Graph :=
  { (Sample.withTeam .approved).graphs "shop" with
    concepts := (List.range 21).map fun i => ⟨s!"concept-{i}", s!"step {i}", "task", 1, ⟨0, none⟩⟩
    relatesTo := ⟨"concept-0", "concept-0", "repeats", 1, 1⟩ :: (List.range 10).map fun i =>
      ⟨s!"concept-{2 * i + 1}", s!"concept-{2 * i + 2}", "precedes", 1, 1⟩ }

/-- With the limit of the question generator, 21 labels are returned. -/
theorem getHighConfidenceConcepts_overflows : ¬ ∀ (w : World) agentType excludeId threshold limit
    concepts w', (getHighConfidenceConcepts agentType excludeId threshold limit).exec w =
      (.ok concepts, w') →
    CappedAndClean ((w.graphs agentType).EligibleLabel excludeId threshold) limit concepts := by
  intro h
  have hlength : ((getHighConfidenceConcepts "shop" "" highConfidenceThreshold
      knownConceptLimit).exec ((Sample.withTeam .approved).setGraph "shop" pairedConcepts)).1.map
        (·.length) = .ok 21 := by
    decide +kernel
  rcases hx : (getHighConfidenceConcepts "shop" "" highConfidenceThreshold knownConceptLimit).exec
    ((Sample.withTeam .approved).setGraph "shop" pairedConcepts) with ⟨e | concepts, w'⟩ <;>
    rw [hx] at hlength
  · cases hlength
  · have hcapped := (h _ _ _ _ _ _ _ hx).capped
    have hlength : concepts.length = 21 := Except.ok.inj hlength
    rw [hlength] at hcapped
    exact absurd hcapped (by decide)

end AgentWorx
