import AgentWorx.Verify.Merge

/-!
# Where the confidence of an edge comes from

The provenance table gives an answer to a follow-up question a lower confidence than a clear direct
answer. The writer follows the table, but the route never tells it that an answer responds to a
follow-up question. So what an edge ends with is the highest value that the table gives to its
contributions as if all of them were direct; it is the value of the table unless a follow-up answer
makes the difference.

The ledger of a run is what its answers have contributed to the graph, each with the question it
responded to.
-/

namespace AgentWorx

open Coop Coop.Sync

variable {w : World} {name : String}

/-! ## The table -/

/-- The confidence due to a relation that an answer has contributed. -/
def dueConfidence (followup : Bool) (confidence : ℚ) : ℚ :=
  if followup then 8 / 10
  else if 85 / 100 ≤ confidence then 9 / 10
  else if 1 / 2 ≤ confidence then 8 / 10
  else 6 / 10

theorem maximum_map_le_iff {α β : Type} [LinearOrder β] {f g : α → β} {xs : List α} :
    (xs.map f).maximum ≤ (xs.map g).maximum ↔ ∀ x ∈ xs, ∃ y ∈ xs, f x ≤ g y := by
  constructor
  · intro h x hx
    obtain ⟨b, hb, hle⟩ := List.coe_le_maximum_iff.mp
      ((List.le_maximum_of_mem' (List.mem_map_of_mem hx)).trans h)
    obtain ⟨y, hy, rfl⟩ := List.mem_map.mp hb
    exact ⟨y, hy, hle⟩
  · intro h
    refine List.maximum_le_of_forall_le fun b hb => ?_
    obtain ⟨x, hx, rfl⟩ := List.mem_map.mp hb
    obtain ⟨y, hy, hle⟩ := h x hx
    exact List.coe_le_maximum_iff.mpr ⟨g y, List.mem_map_of_mem hy, hle⟩

theorem due_direct (q : ℚ) : dueConfidence false q =
    if 85 / 100 ≤ q then 9 / 10 else if 1 / 2 ≤ q then 8 / 10 else 6 / 10 := rfl

/-- The highest value is due to a clear direct answer only. -/
theorem nine_tenths_le_due {followup : Bool} {q : ℚ} :
    9 / 10 ≤ dueConfidence followup q ↔ followup = false ∧ 85 / 100 ≤ q := by
  cases followup with
  | true => norm_num [dueConfidence]
  | false =>
    rw [due_direct]
    split_ifs with hclear
    · exact iff_of_true le_rfl ⟨rfl, hclear⟩
    · exact iff_of_false (by norm_num) fun h => hclear h.2
    · exact iff_of_false (by norm_num) fun h => hclear h.2

theorem eight_tenths_le_due {q : ℚ} : 8 / 10 ≤ dueConfidence false q ↔ 1 / 2 ≤ q := by
  rw [due_direct]
  split_ifs with hclear hhalf
  · exact iff_of_true (by norm_num) (by linarith)
  · exact iff_of_true le_rfl hhalf
  · exact iff_of_false (by norm_num) hhalf

theorem due_le_eight_tenths {q : ℚ} (h : ¬ 85 / 100 ≤ q) : dueConfidence false q ≤ 8 / 10 := by
  rw [due_direct, if_neg h]
  split_ifs <;> norm_num

/-- A contribution is worth no more than the most that is due to one exactly if it is direct or not
clear, or there is a clear direct one. -/
theorem direct_le_due_iff {cs : List (Bool × ℚ)} {c : Bool × ℚ} (hc : c ∈ cs) :
    (∃ d ∈ cs, dueConfidence false c.2 ≤ dueConfidence d.1 d.2) ↔
      (c.1 = true → 85 / 100 ≤ c.2 → ∃ d ∈ cs, d.1 = false ∧ 85 / 100 ≤ d.2) := by
  constructor
  · rintro ⟨d, hd, hle⟩ - hclear
    have hnine : 9 / 10 ≤ dueConfidence false c.2 := nine_tenths_le_due.mpr ⟨rfl, hclear⟩
    exact ⟨d, hd, nine_tenths_le_due.mp (hnine.trans hle)⟩
  · intro h
    by_cases hboth : c.1 = true ∧ 85 / 100 ≤ c.2
    · obtain ⟨d, hd, hdirect, hclear⟩ := h hboth.1 hboth.2
      rw [due_direct, if_pos hboth.2]
      exact ⟨d, hd, nine_tenths_le_due.mpr ⟨hdirect, hclear⟩⟩
    · refine ⟨c, hc, ?_⟩
      cases hfollowup : c.1 with
      | false => exact le_rfl
      | true => exact due_le_eight_tenths fun hclear => hboth ⟨hfollowup, hclear⟩

/-- What is due to a contribution is no more than the most that one is worth exactly if it is direct
or some contribution is not below one half. -/
theorem due_le_direct_iff {cs : List (Bool × ℚ)} {c : Bool × ℚ} (hc : c ∈ cs) :
    (∃ d ∈ cs, dueConfidence c.1 c.2 ≤ dueConfidence false d.2) ↔
      (c.1 = true → ∃ d ∈ cs, 1 / 2 ≤ d.2) := by
  cases hfollowup : c.1 with
  | false => exact iff_of_true ⟨c, hc, le_rfl⟩ fun h => by cases h
  | true =>
    refine Iff.trans ?_ (forall_prop_of_true rfl).symm
    exact exists_congr fun d => and_congr_right fun _ => eight_tenths_le_due

/-- For one triple: to take all contributions for direct ones makes no difference if every clear
follow-up answer is matched by a clear direct one, and some answer is not below one half. -/
theorem maximum_direct_iff (cs : List (Bool × ℚ)) :
    (cs.map fun c => dueConfidence false c.2).maximum =
        (cs.map fun c => dueConfidence c.1 c.2).maximum ↔
      ∀ c ∈ cs, c.1 = true →
        (85 / 100 ≤ c.2 → ∃ d ∈ cs, d.1 = false ∧ 85 / 100 ≤ d.2) ∧ ∃ d ∈ cs, 1 / 2 ≤ d.2 := by
  rw [le_antisymm_iff, maximum_map_le_iff, maximum_map_le_iff, ← forall₂_and]
  refine forall₂_congr fun c hc => ?_
  rw [direct_le_due_iff hc, due_le_direct_iff hc]
  tauto

theorem valuesOf_concat_self {κ : Type} [DecidableEq κ] {k : κ} {given : List (κ × ℚ)} {q : ℚ} :
    valuesOf k (given ++ [(k, q)]) = valuesOf k given ++ [q] := by
  simp [valuesOf]

theorem valuesOf_concat_ne {κ : Type} [DecidableEq κ] {k k' : κ} {given : List (κ × ℚ)} {q : ℚ}
    (h : k' ≠ k) : valuesOf k (given ++ [(k', q)]) = valuesOf k given := by
  simp [valuesOf, h]

/-! ## The edges of a ledger -/

namespace Graph

variable {g g' : Graph} {given : List ((String × String × String) × ℚ)}

/-- The edge that the writer finds for a triple of labels. -/
def edgeOf (g : Graph) (x : String × String × String) : Option RelatesTo := do
  let source ← g.idOf x.1
  let target ← g.idOf x.2.2
  Keyed.lookup edgeKey (source, x.2.1, target) g.relatesTo

/-- Every edge is the one that the writer finds for a triple, and its confidence is the highest that
was given to the triple. -/
structure Accounts (g : Graph) (given : List ((String × String × String) × ℚ)) : Prop
    extends WellFormed g where
  keys : (g.relatesTo.map edgeKey).Nodup
  named : ∀ r ∈ g.relatesTo, ∃ s t, g.idOf s = some r.source ∧ g.idOf t = some r.target
  values : ∀ x, (g.edgeOf x).elim ⊥ (fun r => (r.confidence : WithBot ℚ)) =
    (valuesOf x given).maximum

/-- A label that the writer finds a concept for is the label of the concept. -/
theorem WellFormed.label_of_idOf (h : g.WellFormed) {c : Concept} (hc : c ∈ g.concepts)
    {label : String} (hid : g.idOf label = some c.id) : c.label = label := by
  obtain ⟨c', hc', hid'⟩ := Option.map_eq_some_iff.mp hid
  obtain ⟨hmem, rfl⟩ := Keyed.mem_of_lookup hc'
  rw [List.inj_on_of_nodup_map h.nodup_ids hmem hc hid']

/-- Two labels have different ids. -/
theorem WellFormed.idOf_inj (h : g.WellFormed) {s s' id : String} (hs : g.idOf s = some id)
    (hs' : g.idOf s' = some id) : s = s' := by
  obtain ⟨c, hc, rfl⟩ := Option.map_eq_some_iff.mp hs
  obtain ⟨hmem, rfl⟩ := Keyed.mem_of_lookup hc
  exact h.label_of_idOf hmem hs'

theorem mem_ids_of_idOf {label id : String} (h : g.idOf label = some id) :
    id ∈ g.names.map (·.1) := by
  obtain ⟨c, hc, rfl⟩ := Option.map_eq_some_iff.mp h
  rw [names_ids]
  exact List.mem_map_of_mem (Keyed.mem_of_lookup hc).1

theorem edgeOf_of_ids {x : String × String × String} {source target : String}
    (hs : g.idOf x.1 = some source) (ht : g.idOf x.2.2 = some target) :
    g.edgeOf x = Keyed.lookup edgeKey (source, x.2.1, target) g.relatesTo := by
  rw [edgeOf, hs, ht]
  rfl

theorem edgeOf_eq_some (hkeys : (g.relatesTo.map edgeKey).Nodup) {x : String × String × String}
    {r : RelatesTo} : g.edgeOf x = some r ↔ r ∈ g.relatesTo ∧ g.idOf x.1 = some r.source ∧
      r.relation = x.2.1 ∧ g.idOf x.2.2 = some r.target := by
  simp only [edgeOf, Option.bind_eq_bind, Option.bind_eq_some_iff, Keyed.lookup_eq_some hkeys,
    edgeKey, Prod.mk.injEq]
  constructor
  · rintro ⟨source, hs, target, ht, hr, rfl, hrelation, rfl⟩
    exact ⟨hr, hs, hrelation, ht⟩
  · rintro ⟨hr, hs, hrelation, ht⟩
    exact ⟨r.source, hs, r.target, ht, hr, rfl, hrelation, rfl⟩

/-- The rows of the graph are the edges that the writer finds, under the triples of their labels. -/
theorem WellFormed.mem_rows_iff (h : g.WellFormed) (hkeys : (g.relatesTo.map edgeKey).Nodup)
    (hnamed : ∀ r ∈ g.relatesTo, ∃ s t, g.idOf s = some r.source ∧ g.idOf t = some r.target)
    {x : String × String × String} {r : RelatesTo} :
    (∃ a b, (a, r, b) ∈ g.relatesToRows ∧ triple (a, r, b) = x) ↔ g.edgeOf x = some r := by
  rw [edgeOf_eq_some hkeys]
  constructor
  · rintro ⟨a, b, hrow, rfl⟩
    obtain ⟨ha, hsource, hb, htarget⟩ := row_ids hrow
    have hr := (mem_relatesToRows.mp hrow).1
    obtain ⟨s, t, hs, ht⟩ := hnamed r hr
    obtain rfl := h.label_of_idOf ha (hs.trans (congrArg some hsource.symm))
    obtain rfl := h.label_of_idOf hb (ht.trans (congrArg some htarget.symm))
    exact ⟨hr, hs, rfl, ht⟩
  · rintro ⟨hr, hs, hrelation, ht⟩
    obtain ⟨a, ha, hsource⟩ := Option.map_eq_some_iff.mp hs
    obtain ⟨b, hb, htarget⟩ := Option.map_eq_some_iff.mp ht
    obtain ⟨ha, hs⟩ := Keyed.mem_of_lookup ha
    obtain ⟨hb, ht⟩ := Keyed.mem_of_lookup hb
    refine ⟨a, b, mem_relatesToRows.mpr ⟨hr, hsource ▸ h.concept? ha, htarget ▸ h.concept? hb⟩, ?_⟩
    rw [triple, hs, ht, hrelation]

theorem Accounts.mem_rows_iff (h : g.Accounts given) {x : String × String × String}
    {r : RelatesTo} :
    (∃ a b, (a, r, b) ∈ g.relatesToRows ∧ triple (a, r, b) = x) ↔ g.edgeOf x = some r :=
  h.toWellFormed.mem_rows_iff h.keys h.named

/-- New names do not change what the edges are. -/
theorem Accounts.grow (h : g.Accounts given) (hids : (g'.names.map (·.1)).Nodup)
    (hgrows : ∀ label id, g.idOf label = some id → g'.idOf label = some id)
    (hedges : g'.relatesTo = g.relatesTo) : g'.Accounts given := by
  have hnamed (r : RelatesTo) (hr : r ∈ g'.relatesTo) :
      ∃ s t, g'.idOf s = some r.source ∧ g'.idOf t = some r.target := by
    obtain ⟨s, t, hs, ht⟩ := h.named r (hedges ▸ hr)
    exact ⟨s, t, hgrows _ _ hs, hgrows _ _ ht⟩
  have hwf : g'.WellFormed := by
    refine ⟨hids, fun r hr => ?_⟩
    obtain ⟨s, t, hs, ht⟩ := hnamed r hr
    exact ⟨mem_ids_of_idOf hs, mem_ids_of_idOf ht⟩
  have hkeys : (g'.relatesTo.map edgeKey).Nodup := hedges ▸ h.keys
  refine ⟨hwf, hkeys, hnamed, fun x => ?_⟩
  have hsame : g'.edgeOf x = g.edgeOf x := by
    ext r
    rw [edgeOf_eq_some hkeys, edgeOf_eq_some h.keys, hedges]
    refine and_congr_right fun hr => ?_
    obtain ⟨s, t, hs, ht⟩ := h.named r hr
    have hiff {label label' id : String} (hold : g.idOf label = some id) :
        g'.idOf label' = some id ↔ g.idOf label' = some id :=
      ⟨fun hnew => hwf.idOf_inj (hgrows _ _ hold) hnew ▸ hold, hgrows _ _⟩
    rw [hiff hs, hiff ht]
  rw [hsame, h.values]

/-- An upsert gives the confidence to the triple. -/
theorem Accounts.upsert (h : g.Accounts given) {s t relation : String} {a b : Concept}
    {confidence : ℚ} (ha : g.labelled? s = some a) (hb : g.labelled? t = some b) :
    (g.upsertEdge ⟨a.id, b.id, relation, confidence, 1⟩).Accounts
      (given ++ [((s, relation, t), confidence)]) := by
  set new : RelatesTo := ⟨a.id, b.id, relation, confidence, 1⟩
  have hs : g.idOf s = some a.id := by rw [idOf, ha]; rfl
  have ht : g.idOf t = some b.id := by rw [idOf, hb]; rfl
  refine ⟨h.toWellFormed.upsertEdge (Keyed.mem_of_lookup ha).1 (Keyed.mem_of_lookup hb).1,
    Keyed.nodup_upsert rfl (fun _ hr => hr) h.keys, fun r hr => ?_, fun x => ?_⟩
  · rcases Keyed.mem_upsert hr with ⟨hr, -⟩ | rfl | ⟨old, hold, -, rfl⟩
    · exact h.named r hr
    · exact ⟨s, t, hs, ht⟩
    · exact h.named old hold
  · have hsame (label : String) : (g.upsertEdge new).idOf label = g.idOf label := rfl
    by_cases hx : x = (s, relation, t)
    · subst hx
      have hnew : (g.upsertEdge new).edgeOf (s, relation, t) =
          some ((g.edgeOf (s, relation, t)).elim new (strengthen confidence)) := by
        rw [edgeOf_of_ids hs ht, edgeOf_of_ids ((hsame s).trans hs) ((hsame t).trans ht)]
        exact Keyed.lookup_upsert rfl fun _ hr => hr
      rw [hnew, valuesOf_concat_self, List.maximum_concat, ← h.values]
      cases g.edgeOf (s, relation, t) <;> simp [strengthen, new]
    · rw [valuesOf_concat_ne (Ne.symm hx), ← h.values x]
      congr 1
      rw [edgeOf, edgeOf, hsame, hsame]
      cases hs' : g.idOf x.1 with
      | none => rfl
      | some i =>
        cases ht' : g.idOf x.2.2 with
        | none => rfl
        | some j =>
          refine Keyed.lookup_upsert_ne rfl (fun _ hr => hr) fun hkey => hx ?_
          simp only [edgeKey, new, Prod.mk.injEq] at hkey
          obtain ⟨rfl, hrelation, rfl⟩ := hkey
          rw [← h.idOf_inj hs' hs, ← h.idOf_inj ht' ht, ← hrelation]

theorem idOf_eq_names (g : Graph) (label : String) :
    g.idOf label = (Keyed.lookup (·.2) label g.names).map (·.1) := by
  simp only [idOf, labelled?, Keyed.lookup, names, List.find?_map, Option.map_map]
  rfl

/-- A label that has a concept keeps it. -/
theorem idOf_addConcept {label id : String} (new : Concept) (hold : g.idOf label = some id) :
    idOf { g with concepts := g.concepts ++ [new] } label = some id := by
  rw [idOf_eq_names] at hold ⊢
  rw [names_addConcept, Keyed.lookup, List.find?_append]
  obtain ⟨row, hrow, rfl⟩ := Option.map_eq_some_iff.mp hold
  rw [Keyed.lookup] at hrow
  rw [hrow]
  rfl

end Graph

/-! ## What the writer writes -/

section Writer

variable {given : List ((String × String × String) × ℚ)}

/-- The cache of labels holds what the writer finds in the graph. -/
def Caches (labelToId : Dict) (g : Graph) : Prop :=
  ∀ label id, labelToId.lookup label = some id → g.idOf label = some id

theorem findOrCreateConcept_accounts {entity : ExtractedEntity} {now : Datetime}
    {summary : WriteSummary} (h : (w.graphs name).Accounts given) :
    Triple (findOrCreateConcept name entity now summary) w
      (fun r w' => (w'.graphs name).Accounts given ∧
        (∀ label id, (w.graphs name).idOf label = some id → (w'.graphs name).idOf label = some id) ∧
        (w'.graphs name).idOf entity.label = some r.1)
      fun _ w' => (w'.graphs name).Accounts given := by
  set g := w.graphs name with hg
  have hidle {w1 : World} (hw1 : Idle w w1) : w1.graphs name = g := by rw [hw1.graphs]
  refine findOrCreateConcept_rule rfl (fun e w1 hw1 _ => hidle hw1 ▸ h)
    (fun c w1 hw1 hfound _ => ?_) (fun c w1 _ hfound _ => ?_) fun u w1 _ hmissing hnew => ?_
  · rw [hidle hw1]
    exact ⟨h, fun _ _ h => h, by rw [Graph.idOf, hfound]; rfl⟩
  · rw [World.setGraph_graphs, Function.update_self]
    have hnames := g.names_setConfidence c.id entity.confidence.val
    have hid (label : String) : Graph.idOf { g with
        concepts := g.concepts.map fun c' =>
          if c'.id = c.id then { c' with confidence := entity.confidence.val } else c' } label =
        g.idOf label := by
      rw [Graph.idOf_eq_names, Graph.idOf_eq_names, hnames]
    refine ⟨h.grow (hnames ▸ h.ids) (fun label id h => (hid label).trans h) rfl,
      fun label id h => (hid label).trans h, (hid _).trans ?_⟩
    rw [Graph.idOf, hfound]
    rfl
  · rw [World.setGraph_graphs, Function.update_self]
    set new : Concept :=
      ⟨s!"concept-{u.hexPrefix 12}", entity.label, "task", entity.confidence.val, now⟩
    have hnames := g.names_addConcept new
    refine ⟨h.grow ?_ (fun _ _ => Graph.idOf_addConcept new) rfl,
      fun _ _ => Graph.idOf_addConcept new, ?_⟩
    · rw [← Graph.names_ids] at hnew
      rw [hnames]
      exact h.ids_concat _ hnew
    · rw [Graph.idOf, Graph.labelled?, Keyed.lookup, List.find?_append]
      rw [Graph.labelled?, Keyed.lookup] at hmissing
      rw [hmissing]
      simp [new]

theorem writeEntities_accounts {now : Datetime} {entities : List ExtractedEntity} {labelToId : Dict}
    {summary : WriteSummary} (h : (w.graphs name).Accounts given)
    (hcache : Caches labelToId (w.graphs name)) :
    Triple (writeEntities name now entities (labelToId, summary)) w
      (fun r w' => (w'.graphs name).Accounts given ∧ Caches r.1 (w'.graphs name))
      fun _ w' => (w'.graphs name).Accounts given := by
  induction entities generalizing labelToId summary w with
  | nil => exact .pure ⟨h, hcache⟩
  | cons entity entities ih =>
    refine .bind (findOrCreateConcept_accounts h) fun r w1 ⟨h1, hgrows, hid⟩ =>
      ih h1 fun label id hlookup => ?_
    by_cases hlabel : label = entity.label
    · subst hlabel
      rw [AList.lookup_insert] at hlookup
      cases hlookup
      exact hid
    · rw [AList.lookup_insert_ne hlabel] at hlookup
      exact hgrows label id (hcache label id hlookup)

/-- The relations that the relation loop writes from `w` on: it skips a relation with an end that is
not found, and it does not get past one that raises. -/
def writtenRelations (agentType : String) (isFollowup : Bool) (labelToId : Dict) :
    List ExtractedRelation → WriteSummary → World → List ExtractedRelation
  | [], _, _ => []
  | relation :: relations, summary, w =>
    match (upsertRelation agentType relation (assignConfidence relation isFollowup) labelToId
      summary).exec w with
    | (.error _, _) => []
    | (.ok summary', w') =>
      if summary' = summary then
        writtenRelations agentType isFollowup labelToId relations summary' w'
      else relation :: writtenRelations agentType isFollowup labelToId relations summary' w'

/-- A relation that is written is counted. -/
theorem counted_ne {summary summary' : WriteSummary}
    (hcount : summary' = { summary with edgesUpdated := summary.edgesUpdated + 1 } ∨
      summary' = { summary with edgesCreated := summary.edgesCreated + 1 }) :
    summary' ≠ summary := by
  rintro rfl
  rcases hcount with hcount | hcount
  · simpa using congrArg WriteSummary.edgesUpdated hcount
  · simpa using congrArg WriteSummary.edgesCreated hcount

theorem writeRelations_accounts {isFollowup : Bool} {relations : List ExtractedRelation}
    {labelToId : Dict} {summary : WriteSummary} (h : (w.graphs name).Accounts given)
    (hcache : Caches labelToId (w.graphs name)) :
    (((writeRelations name isFollowup labelToId relations summary).exec w).2.graphs name).Accounts
      (given ++ assignedConfidences isFollowup
        (writtenRelations name isFollowup labelToId relations summary w)) := by
  induction relations generalizing given summary w with
  | nil => simpa [writeRelations, writtenRelations, assignedConfidences] using h
  | cons relation relations ih =>
    have hupsert : Triple (upsertRelation name relation (assignConfidence relation isFollowup)
      labelToId summary) w _ _ := upsertRelation_upserts rfl h.toWellFormed h.keys hcache
    rw [writeRelations, exec_bind, writtenRelations]
    rcases hx : (upsertRelation name relation (assignConfidence relation isFollowup) labelToId
      summary).exec w with ⟨e | summary', w'⟩
    · dsimp only
      rw [(hupsert.of_error hx).1.graphs]
      simpa [assignedConfidences] using h
    · dsimp only
      rcases hupsert.of_ok hx with ⟨rfl, hw', -⟩ | ⟨a, b, w1, ha, hb, hw1, rfl, hcount⟩
      · rw [if_pos rfl]
        rw [← hw'.graphs] at h hcache
        exact ih h hcache
      · have h1 : (Graph.upsertEdge _ ⟨a.id, b.id, relation.relationType,
              assignConfidence relation isFollowup, 1⟩).Accounts
            (given ++ [((relation.source, relation.relationType, relation.target),
              assignConfidence relation isFollowup)]) := h.upsert ha hb
        rw [if_neg (counted_ne hcount)]
        set w2 := w1.setGraph name ((w.graphs name).upsertEdge _) with hw2
        have hg2 : w2.graphs name = (w.graphs name).upsertEdge _ := Function.update_self _ _ _
        rw [← hg2] at h1
        have hcache2 : Caches labelToId (w2.graphs name) := hg2 ▸ hcache
        simpa [assignedConfidences] using ih h1 hcache2

/-- The relations that `write_to_graph` writes when the route calls it, after it has read the clock
and written the entities. -/
def written (agentType : String) (result : AnswerProcessorResult) (w : World) :
    List ExtractedRelation :=
  match (writeEntities agentType ⟨w.env.clock w.tick, some 0⟩ result.entities
    (∅, ⟨0, 0, 0, 0⟩)).exec w.bump with
  | (.ok (labelToId, summary), w') =>
    writtenRelations agentType false labelToId result.relations summary w'
  | (.error _, _) => []

theorem writeToGraph_accounts {result : AnswerProcessorResult} (hstatus : result.status = .write)
    (h : (w.graphs name).Accounts given) :
    (((writeToGraph name result false).exec w).2.graphs name).Accounts
      (given ++ assignedConfidences false (written name result w)) := by
  have hentities : Triple (writeEntities name ⟨w.env.clock w.tick, some 0⟩ result.entities
      (∅, ⟨0, 0, 0, 0⟩)) w.bump _ _ :=
    writeEntities_accounts (w := w.bump) h fun _ _ hlookup => by simp at hlookup
  unfold writeToGraph written
  rw [if_neg (not_not.mpr hstatus)]
  change ((exec (writeEntities name ⟨w.env.clock w.tick, some 0⟩ result.entities
    (∅, ⟨0, 0, 0, 0⟩) >>= _) w.bump).2.graphs name).Accounts _
  rw [exec_bind]
  rcases hx : (writeEntities name ⟨w.env.clock w.tick, some 0⟩ result.entities
    (∅, ⟨0, 0, 0, 0⟩)).exec w.bump with ⟨e | ⟨labelToId, summary⟩, w1⟩
  · simpa [assignedConfidences] using hentities.of_error hx
  · have hwritten := hentities.of_ok hx
    exact writeRelations_accounts hwritten.1 hwritten.2

end Writer

/-! ## The ledger -/

/-- The relations that an answer writes once its payload is there. -/
def answerWrites (agentType : String) (payload : AnswerProcessorInput) (w : World) :
    List ExtractedRelation :=
  match (processAnswer payload).exec w with
  | (.ok result, w') => if result.status = .write then written agentType result w' else []
  | (.error _, _) => []

/-- The relations that the answer contributes to the graph. -/
def contributed (agentTypeId : String) (body : AnswerBody) (w : World) : List ExtractedRelation :=
  match admitted agentTypeId body w with
  | some (agent, payload, w') => answerWrites agent.name payload w'
  | none => []

/-- The question that the answer says it responds to is one of these. -/
def AnswerBody.respondsTo (body : AnswerBody) (questions : List String) : Bool :=
  match body.payload with
  | .ok (question, _, _) => question ∈ questions
  | .error _ => false

/-- A request for the next question, or an answer. -/
inductive Exchange where
  | question
  | answer (body : AnswerBody)

namespace Exchange

def request (agentTypeId : String) : Exchange → Request
  | question => .question agentTypeId
  | answer body => .answer agentTypeId body

/-- The follow-up question that the response asks. -/
def followups (agentTypeId : String) (exchange : Exchange) (w : World) : List String :=
  match ((exchange.request agentTypeId).handle.runAlone w).1 with
  | .ok (.answer response) => response.result.followUpQuestion.toList
  | _ => []

end Exchange

/-- A relation that an answer has contributed. -/
structure Contribution where
  /-- The answer responds to a follow-up question. -/
  followup : Bool
  relation : ExtractedRelation

namespace Contribution

def triple (c : Contribution) : String × String × String :=
  (c.relation.source, c.relation.relationType, c.relation.target)

def confidence (c : Contribution) : ℚ := c.relation.confidence.val

/-- The confidence that the table gives to the contribution. -/
def due (c : Contribution) : ℚ := dueConfidence c.followup c.confidence

end Contribution

/-- What the exchange contributes, when the questions `asked` have been asked as follow-ups. -/
def Exchange.contributions (agentTypeId : String) (asked : List String) (w : World) :
    Exchange → List Contribution
  | .question => []
  | .answer body => (contributed agentTypeId body w).map fun relation =>
    ⟨body.respondsTo asked, relation⟩

/-- What a run of exchanges contributes. -/
def ledger (agentTypeId : String) : List Exchange → List String → World → List Contribution
  | [], _, _ => []
  | exchange :: exchanges, asked, w =>
    exchange.contributions agentTypeId asked w ++
      ledger agentTypeId exchanges (asked ++ exchange.followups agentTypeId w)
        (runAll [exchange.request agentTypeId] w)

variable {given : List ((String × String × String) × ℚ)}

theorem handleAnswer_accounts {agent : AgentTypeResponse} {payload : AnswerProcessorInput}
    (h : (w.graphs agent.name).Accounts given) :
    (((handleAnswer agent payload).exec w).2.graphs agent.name).Accounts
      (given ++ assignedConfidences false (answerWrites agent.name payload w)) := by
  rw [answerWrites]
  rcases handleAnswer_graphs agent payload w with
    ⟨hgraphs, hnone⟩ | ⟨result, w1, hx, hstatus, hgraphs, hwrites⟩
  · rw [hgraphs]
    rcases hx : (processAnswer payload).exec w with ⟨e | result, w1⟩
    · simpa [assignedConfidences] using h
    · simpa [assignedConfidences, hnone result w1 hx] using h
  · rw [hx, hwrites]
    dsimp only
    rw [if_pos hstatus]
    exact writeToGraph_accounts hstatus (hgraphs ▸ h)

theorem submitAnswer_accounts {body : AnswerBody} (h : (w.graphs name).Accounts given) :
    (((submitAnswer name body).runAlone w).2.graphs name).Accounts
      (given ++ assignedConfidences false (contributed name body w)) := by
  rw [contributed]
  rcases submitAnswer_admitted name body w with
    ⟨hnone, hgraphs⟩ | ⟨agent, payload, w1, hadmitted, rfl, -, hgraphs, hrun⟩
  · rw [hnone, hgraphs]
    simpa [assignedConfidences] using h
  · rw [hadmitted, hrun]
    rw [← hgraphs] at h
    exact handleAnswer_accounts h

/-- The value that the writer assigns to a contribution, and the triple that it assigns it to. -/
def Contribution.assigned (c : Contribution) : (String × String × String) × ℚ :=
  (c.triple, dueConfidence false c.confidence)

theorem exchange_accounts (exchange : Exchange) (asked : List String)
    (h : (w.graphs name).Accounts given) :
    ((runAll [exchange.request name] w).graphs name).Accounts
      (given ++ (exchange.contributions name asked w).map (·.assigned)) := by
  cases exchange with
  | question =>
    have hkeeps : Async.KeepsAlone (Same World.graphs) (Request.question name).handle :=
      .bind (.bind (getAgentTypeByName_graphs name) fun _ => .bind (.lift (keeps_liftExcept _))
        fun _ => .lift (.tryCatch (.map (keeps_generateQuestion _ _ _) _) fun e => by
          cases e <;> first | exact .throw _ | exact .pure _)) fun _ => .pure _
    have hgraphs : (runAll [Exchange.question.request name] w).graphs = w.graphs := hkeeps w
    rw [hgraphs]
    simpa [Exchange.contributions] using h
  | answer body =>
    have hassigned : (Exchange.contributions name asked w (.answer body)).map (·.assigned) =
        assignedConfidences false (contributed name body w) := by
      rw [Exchange.contributions, List.map_map]
      rfl
    rw [hassigned, Exchange.request, runAll_answer]
    exact submitAnswer_accounts h

/-- What a run of exchanges leaves of a graph accounts for what it has contributed. -/
theorem ledger_accounts (exchanges : List Exchange) (asked : List String)
    (h : (w.graphs name).Accounts given) :
    ((runAll (exchanges.map (·.request name)) w).graphs name).Accounts
      (given ++ (ledger name exchanges asked w).map (·.assigned)) := by
  induction exchanges generalizing given asked w with
  | nil => simpa [ledger, runAll] using h
  | cons exchange exchanges ih =>
    rw [ledger, List.map_append, ← List.append_assoc]
    exact ih _ (exchange_accounts exchange asked h)

/-! ## The table -/

/-- Every edge has the highest confidence that is due to a contribution to its triple. -/
def FollowsTable (g : Graph) (cs : List Contribution) : Prop :=
  ∀ a r b, (a, r, b) ∈ g.relatesToRows → (r.confidence : WithBot ℚ) =
    ((cs.filter (·.triple = Graph.triple (a, r, b))).map (·.due)).maximum

/-- The contribution is direct, or others to its triple make up for it: if it is clear, a clear
direct one, and one that is not below one half. -/
def Harmless (cs : List Contribution) (c : Contribution) : Prop :=
  c.followup = true →
    (85 / 100 ≤ c.confidence →
      ∃ d ∈ cs, d.triple = c.triple ∧ d.followup = false ∧ 85 / 100 ≤ d.confidence) ∧
    ∃ d ∈ cs, d.triple = c.triple ∧ 1 / 2 ≤ d.confidence

/-- The two maxima of a triple agree exactly if its contributions do no harm. -/
theorem maximum_due_iff {cs : List Contribution} {x : String × String × String} :
    (valuesOf x (cs.map (·.assigned))).maximum =
        ((cs.filter (·.triple = x)).map (·.due)).maximum ↔
      ∀ c ∈ cs, c.triple = x → Harmless cs c := by
  have hvalues : valuesOf x (cs.map (·.assigned)) =
      (cs.filter (·.triple = x)).map fun c => dueConfidence false c.confidence := by
    rw [valuesOf, List.filter_map, List.map_map]
    rfl
  have hiff := maximum_direct_iff
    ((cs.filter (·.triple = x)).map fun c => (c.followup, c.confidence))
  have hexists (P : Bool × ℚ → Prop) :
      (∃ d ∈ (cs.filter (·.triple = x)).map fun c => (c.followup, c.confidence), P d) ↔
        ∃ d ∈ cs, d.triple = x ∧ P (d.followup, d.confidence) := by
    simp only [List.mem_map, List.mem_filter, decide_eq_true_eq]
    constructor
    · rintro ⟨_, ⟨d, ⟨hd, hx⟩, rfl⟩, hP⟩
      exact ⟨d, hd, hx, hP⟩
    · rintro ⟨d, hd, hx, hP⟩
      exact ⟨_, ⟨d, ⟨hd, hx⟩, rfl⟩, hP⟩
  rw [List.map_map, List.map_map] at hiff
  rw [hvalues]
  refine hiff.trans ?_
  simp only [List.forall_mem_map, List.mem_filter, decide_eq_true_eq, and_imp, hexists]
  refine forall₂_congr fun c hc => forall_congr' fun hx => ?_
  subst hx
  rfl

/-- On a graph that accounts for the contributions, the table is followed exactly if they do no
harm. -/
theorem followsTable_iff {g : Graph} {cs : List Contribution}
    (h : g.Accounts (cs.map (·.assigned))) : FollowsTable g cs ↔ ∀ c ∈ cs, Harmless cs c := by
  constructor
  · intro hfollows c hc
    cases hedge : g.edgeOf c.triple with
    | none =>
      have hnone := h.values c.triple
      rw [hedge] at hnone
      have hnil := valuesOf_eq_nil.mp (List.maximum_eq_bot.mp hnone.symm)
      exact absurd rfl (hnil c.assigned (List.mem_map_of_mem hc))
    | some r =>
      refine maximum_due_iff.mp ?_ c hc rfl
      obtain ⟨a, b, hrow, hx⟩ := h.mem_rows_iff.mpr hedge
      rw [← h.values, hedge, ← hx]
      exact hfollows a r b hrow
  · intro hharmless a r b hrow
    rw [← maximum_due_iff.mpr fun c hc _ => hharmless c hc, ← h.values,
      h.mem_rows_iff.mp ⟨a, b, hrow, rfl⟩]
    rfl

/-- The graph of a new agent type has no edges. -/
theorem created_accounts {payload : AgentTypeCreate} (hempty : w.graphs payload.name = .empty) :
    ((runAll [.create payload] w).graphs payload.name).Accounts [] := by
  obtain ⟨hwf, hedges⟩ := created_graph hempty
  have hkeys : (((runAll [.create payload] w).graphs payload.name).relatesTo.map
      Graph.edgeKey).Nodup := by
    rw [hedges]
    exact List.nodup_nil
  refine ⟨hwf, hkeys, fun r hr => ?_, fun x => ?_⟩
  · rw [hedges] at hr
    cases hr
  · cases hedge : ((runAll [.create payload] w).graphs payload.name).edgeOf x with
    | none => rfl
    | some r =>
      have hr := ((Graph.edgeOf_eq_some hkeys).mp hedge).1
      rw [hedges] at hr
      cases hr

/-- After a creation and any exchanges, every edge has the confidence of the provenance table
exactly if the follow-up answers make no difference. -/
theorem confidence_follows_table_iff (w : World) (payload : AgentTypeCreate)
    (exchanges : List Exchange) (hempty : w.graphs payload.name = .empty) :
    FollowsTable ((runAll (.create payload :: exchanges.map (·.request payload.name)) w).graphs
      payload.name) (ledger payload.name exchanges [] (runAll [.create payload] w)) ↔
    ∀ c ∈ ledger payload.name exchanges [] (runAll [.create payload] w),
      Harmless (ledger payload.name exchanges [] (runAll [.create payload] w)) c :=
  followsTable_iff (ledger_accounts exchanges [] (created_accounts hempty))

/-- The first answer is unclear, and the next one, to the follow-up question, names the relation. -/
def unclear (relation : ExtractedRelation) : Env :=
  { Sample.env with
    reply := fun _ prompt => match prompt with
      | .extraction payload =>
        .ok (if payload.question = "which kitchen?" then "clear" else "vague")
      | _ => .ok "which kitchen?"
    loadExtraction := fun text => .ok
      ⟨.ok 1, .ok (text = "vague"),
        .ok [⟨"order", "thing", Sample.certain⟩, ⟨"kitchen", "place", Sample.certain⟩],
        .ok [relation]⟩ }

def followupAnswer : AnswerBody where
  answerText := "the one downstairs"
  payload := .ok ("which kitchen?", "the one downstairs",
    ⟨"", "order", .orphan, Sample.certain, 0, 0, .task, Rat.le_refl⟩)

/-- An unclear answer, and the one to the follow-up question. -/
def followupRun : List Exchange := [.answer Sample.answer, .answer followupAnswer]

def followupLedger (relation : ExtractedRelation) : List Contribution :=
  ledger Sample.shop.name followupRun []
    (runAll [.create Sample.shop] (.initial (unclear relation)))

/-- The relation of the sample, with a moderate confidence. -/
def goesToMaybe : ExtractedRelation := ⟨"order", "kitchen", "goes_to", ⟨7 / 10, by norm_num⟩⟩

/-- An answer to a follow-up question that is neither clear nor below one half does no harm. -/
theorem confidence_follows_table_maybe :
    FollowsTable ((runAll (.create Sample.shop :: followupRun.map (·.request Sample.shop.name))
      (.initial (unclear goesToMaybe))).graphs Sample.shop.name) (followupLedger goesToMaybe) := by
  refine (confidence_follows_table_iff (.initial (unclear goesToMaybe)) Sample.shop
    followupRun rfl).mpr fun c hc _ => ?_
  have hmoderate : ∀ q ∈ (followupLedger goesToMaybe).map (·.confidence), q = 7 / 10 := by
    decide +kernel
  have hc' : c.confidence = 7 / 10 := hmoderate _ (List.mem_map_of_mem hc)
  rw [hc']
  exact ⟨fun h => absurd h (by norm_num), c, hc, rfl, by rw [hc']; norm_num⟩

/-- A clear answer to a follow-up question is graded as if it were direct. -/
theorem followup_graded_direct : ¬ ∀ (w : World) (payload : AgentTypeCreate)
    (exchanges : List Exchange), w.graphs payload.name = .empty →
      FollowsTable ((runAll (.create payload :: exchanges.map (·.request payload.name)) w).graphs
        payload.name) (ledger payload.name exchanges [] (runAll [.create payload] w)) := by
  intro h
  have hgeneral (w : World) (payload : AgentTypeCreate) (exchanges : List Exchange)
      (hempty : w.graphs payload.name = .empty) :
      ∀ c ∈ ledger payload.name exchanges [] (runAll [.create payload] w),
        Harmless (ledger payload.name exchanges [] (runAll [.create payload] w)) c :=
    (followsTable_iff (ledger_accounts exchanges [] (created_accounts hempty))).mp
      (h w payload exchanges hempty)
  have hharmless : ∀ c ∈ followupLedger goesTo, Harmless (followupLedger goesTo) c :=
    hgeneral (.initial (unclear goesTo)) Sample.shop followupRun rfl
  have hclear : ∃ c ∈ (followupLedger goesTo).map fun c => (c.followup, c.confidence),
      c.1 = true ∧ 85 / 100 ≤ c.2 := by
    decide +kernel
  have hall : ∀ followup ∈ (followupLedger goesTo).map (·.followup), followup = true := by
    decide +kernel
  obtain ⟨_, hmem, hfollowup, hle⟩ := hclear
  obtain ⟨c, hc, rfl⟩ := List.mem_map.mp hmem
  obtain ⟨d, hd, -, hdirect, -⟩ := (hharmless c hc hfollowup).1 hle
  have hsame := hall _ (List.mem_map_of_mem hd)
  rw [hdirect] at hsame
  cases hsame

end AgentWorx
