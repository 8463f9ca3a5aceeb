import AgentWorx.Verify.Confidence
import AgentWorx.Verify.KnowledgeGraph
import Mathlib.Algebra.Order.BigOperators.Group.List

/-!
# Readiness

The readiness of an agent type is a function of its graph. The scorer computes it and caches it; a
graph without gaps has enough of it for a proposal; and whenever no request is under way, the cached
value is that of the current graph.
-/

namespace AgentWorx

open Coop Coop.Sync

variable {w : World} {name : String}

/-! ## The readiness of a graph -/

namespace Graph

def taskIds (g : Graph) : List String :=
  ((g.concepts.filter (·.nspace = "task")).map (·.id)).dedup

/-- The ids of the task concepts that have an edge. -/
def coveredIds (g : Graph) : List String :=
  g.relatesToRows.flatMap fun (a, _, b) =>
    (if a.nspace = "task" then [a.id] else []) ++ (if b.nspace = "task" then [b.id] else [])

def nodeCoverage (g : Graph) : ℚ := (g.taskIds.filter (· ∈ g.coveredIds)).length / g.taskIds.length

def edgeDensity (g : Graph) : ℚ :=
  min ((g.relatesToRows.length / g.concepts.length : ℚ) / edgeDensityCap) 1

def confidences (g : Graph) : List ℚ := g.relatesToRows.map fun (_, r, _) => r.confidence

def confidenceMean (g : Graph) : ℚ := g.confidences.sum / g.confidences.length

def readiness (g : Graph) : ℚ :=
  roundHalfEven 4 (40 / 100 * g.nodeCoverage + 35 / 100 * g.edgeDensity +
    25 / 100 * g.confidenceMean)

/-- Every edge has a confidence between zero and one. -/
def Weighted (g : Graph) : Prop := ∀ r ∈ g.relatesTo, 0 ≤ r.confidence ∧ r.confidence ≤ 1

theorem Graded.weighted {g : Graph} (h : g.Graded) : g.Weighted := by
  intro r hr
  exact ⟨le_trans (by norm_num [inferredConfidence]) (h r hr).1, (h r hr).2⟩

variable {g : Graph}

theorem nodeCoverage_mem_unit : 0 ≤ g.nodeCoverage ∧ g.nodeCoverage ≤ 1 := by
  refine ⟨div_nonneg (Nat.cast_nonneg _) (Nat.cast_nonneg _), ?_⟩
  apply div_le_one_of_le₀ _ (Nat.cast_nonneg _)
  exact_mod_cast List.length_filter_le _ _

theorem edgeDensity_mem_unit : 0 ≤ g.edgeDensity ∧ g.edgeDensity ≤ 1 := by
  refine ⟨le_min ?_ zero_le_one, min_le_right _ _⟩
  apply div_nonneg (div_nonneg (Nat.cast_nonneg _) (Nat.cast_nonneg _))
  norm_num [edgeDensityCap]

theorem Weighted.mem_unit (h : g.Weighted) {q : ℚ} (hq : q ∈ g.confidences) : 0 ≤ q ∧ q ≤ 1 := by
  obtain ⟨⟨a, r, b⟩, hr, rfl⟩ := List.mem_map.mp hq
  exact h r (mem_relatesToRows.mp hr).1

theorem Weighted.confidenceMean_mem_unit (h : g.Weighted) :
    0 ≤ g.confidenceMean ∧ g.confidenceMean ≤ 1 := by
  have hlow : 0 ≤ g.confidences.sum := List.sum_nonneg fun q hq => (h.mem_unit hq).1
  have hhigh : g.confidences.sum ≤ g.confidences.length := by
    simpa using List.sum_le_card_nsmul g.confidences 1 fun q hq => (h.mem_unit hq).2
  exact ⟨div_nonneg hlow (Nat.cast_nonneg _), div_le_one_of_le₀ hhigh (Nat.cast_nonneg _)⟩

theorem Weighted.readiness_mem_unit (h : g.Weighted) : 0 ≤ g.readiness ∧ g.readiness ≤ 1 := by
  obtain ⟨hcoverage, hcoverage'⟩ := nodeCoverage_mem_unit (g := g)
  obtain ⟨hdensity, hdensity'⟩ := edgeDensity_mem_unit (g := g)
  obtain ⟨hmean, hmean'⟩ := h.confidenceMean_mem_unit
  apply roundHalfEven_mem_unit
  constructor <;> linarith

/-- The readiness of a graph depends on its concepts and the edges between them. -/
theorem readiness_congr {g' : Graph} (hconcepts : g'.concepts = g.concepts)
    (hedges : g'.relatesTo = g.relatesTo) : g'.readiness = g.readiness := by
  cases g
  cases g'
  cases hconcepts
  cases hedges
  rfl

/-- A graph without edges has no readiness. -/
theorem readiness_eq_zero (h : g.relatesTo = []) : g.readiness = 0 := by
  have hrows : g.relatesToRows = [] := by simp [relatesToRows, h]
  have hzero : roundHalfEven 4 0 = 0 := roundHalfEven_of_scaled (k := 0) (by simp)
  simpa [readiness, nodeCoverage, edgeDensity, confidenceMean, confidences, coveredIds, hrows]
    using hzero

end Graph

/-! ## The scorer -/

theorem computeNodeCoverage_triple {w w' : World} (hw : Idle w w') :
    Triple (computeNodeCoverage name) w'
      (fun q w1 => q = (w.graphs name).nodeCoverage ∧ Idle w w1) (ReadFails w name) := by
  refine .bind (query_idle hw (by simp)) fun taskConcepts w1 ⟨htask, hw1⟩ => ?_
  split
  · rename_i hempty
    refine .pure ⟨?_, hw1⟩
    have hnil : (w.graphs name).taskIds = [] := htask.symm.trans (List.isEmpty_iff.mp hempty)
    simp [Graph.nodeCoverage, hnil]
  · refine .bind (query_idle hw1 (by simp)) fun covered w2 ⟨hcovered, hw2⟩ => .pure ⟨?_, hw2⟩
    rw [htask, hcovered]
    rfl

theorem computeEdgeDensity_triple {w w' : World} (hw : Idle w w') :
    Triple (computeEdgeDensity name) w'
      (fun q w1 => q = (w.graphs name).edgeDensity ∧ Idle w w1) (ReadFails w name) := by
  refine .bind (query_idle hw (by simp)) fun nodeCount w1 ⟨hcount, hw1⟩ => ?_
  split
  · rename_i hzero
    refine .pure ⟨?_, hw1⟩
    simp [Graph.edgeDensity, ← hcount, hzero]
  · refine .bind (query_idle hw1 (by simp)) fun edgeCount w2 ⟨hedges, hw2⟩ => .pure ⟨?_, hw2⟩
    rw [hcount, hedges]
    rfl

theorem computeConfidenceMean_triple {w w' : World} (hw : Idle w w') :
    Triple (computeConfidenceMean name) w'
      (fun q w1 => q = (w.graphs name).confidenceMean ∧ Idle w w1) (ReadFails w name) := by
  refine .bind (query_idle hw (by simp)) fun confidences w1 ⟨hconfidences, hw1⟩ => ?_
  split
  · rename_i hempty
    refine .pure ⟨?_, hw1⟩
    have hnil : (w.graphs name).confidences = [] :=
      hconfidences.symm.trans (List.isEmpty_iff.mp hempty)
    simp [Graph.confidenceMean, hnil]
  · refine .pure ⟨?_, hw1⟩
    rw [hconfidences]
    rfl

/-- What the scorer caches. -/
def World.cacheReadiness (w : World) (name : String) : World :=
  let score := (w.graphs name).readiness
  ((w.setRedis (agentReadinessScoreKey name) (some (.float score))).setRedis
    (agentProposalReadyKey name) (some (flagText (w.env.proposalThreshold ≤ score)))).setRedis
    (agentCertReadyKey name) (some (flagText (w.env.cert1Threshold ≤ score)))

/-- Redis has failed. -/
def RedisDown (w : World) (e : Exn) : Prop :=
  e = .storeDown .redis ∧ ∃ n, w.env.fault n .redis = true

theorem redisSet_rule {w w' : World} (henv : w'.env = w.env) {key : String} {value : RedisValue} :
    Triple (redisSet key value) w' (fun _ w1 => w1 = w'.bump.setRedis key (some value))
      fun e _ => RedisDown w e := by
  apply redisSet_triple.mono
  · rintro _ _ ⟨-, rfl⟩
    rfl
  · rintro _ _ ⟨hfails, rfl, rfl⟩
    exact ⟨rfl, w'.tick, henv ▸ hfails⟩

theorem check_triple {α : Type} {model : String} {q : ℚ} {f : Proportion → Py α}
    {Q : α → World → Prop} {E : Exn → World → Prop} (hq : 0 ≤ q ∧ q ≤ 1)
    (h : Triple (f ⟨q, hq⟩) w Q E) :
    Triple (liftExcept (Proportion.check model q) >>= f) w Q E := by
  unfold Proportion.check
  rw [dif_pos hq]
  exact h

/-- The three writes of the cache. -/
theorem cacheReadiness_triple {w w' : World} (hw : Idle w w') {score : ReadinessScore}
    (hscore : score.score.val = (w.graphs name).readiness)
    (hproposal : score.proposalReady = decide (w.env.proposalThreshold ≤ (w.graphs name).readiness))
    (hcert : score.certReady = decide (w.env.cert1Threshold ≤ (w.graphs name).readiness)) :
    Triple (do
        redisSet (agentReadinessScoreKey name) (.float score.score.val)
        redisSet (agentProposalReadyKey name) (flagText score.proposalReady)
        redisSet (agentCertReadyKey name) (flagText score.certReady)
        return score) w'
      (fun score' w1 => score' = score ∧ Idle (w.cacheReadiness name) w1)
      fun e _ => RedisDown w e := by
  rw [hscore, hproposal, hcert]
  refine .bind (redisSet_rule hw.env) fun _ w1 h1 => ?_
  have henv1 : w1.env = w.env := by rw [h1]; exact hw.env
  refine .bind (redisSet_rule henv1) fun _ w2 h2 => ?_
  have henv2 : w2.env = w.env := by rw [h2]; exact henv1
  refine .bind (redisSet_rule henv2) fun _ w3 h3 => ?_
  refine .pure ⟨rfl, ?_⟩
  rw [Idle] at hw
  rw [h3, h2, h1, hw]
  rfl

/-- The scorer raises only if a store fails. -/
theorem computeAndStore_triple (hg : (w.graphs name).Weighted) :
    Triple (computeAndStore name) w
      (fun score w' => score.score.val = (w.graphs name).readiness ∧
        score.proposalReady = decide (w.env.proposalThreshold ≤ (w.graphs name).readiness) ∧
        score.certReady = decide (w.env.cert1Threshold ≤ (w.graphs name).readiness) ∧
        Idle (w.cacheReadiness name) w')
      fun e w' => ReadFails w name e w' ∨ RedisDown w e := by
  have hread {e : Exn} {w' : World} (h : ReadFails w name e w') :
      ReadFails w name e w' ∨ RedisDown w e := .inl h
  refine .bind
    ((computeNodeCoverage_triple (refl_of Idle w)).mono (fun _ _ h => h) fun _ _ => hread)
    fun coverage w1 ⟨hcoverage, hw1⟩ => ?_
  refine .bind ((computeEdgeDensity_triple hw1).mono (fun _ _ h => h) fun _ _ => hread)
    fun density w2 ⟨hdensity, hw2⟩ => ?_
  refine .bind ((computeConfidenceMean_triple hw2).mono (fun _ _ h => h) fun _ _ => hread)
    fun mean w3 ⟨hmean, hw3⟩ => ?_
  have henv : w3.env = w.env := by rw [hw3]
  subst hcoverage hdensity hmean
  refine .bind (M := fun w' w1 => w' = w3 ∧ w1 = w3) (.get ⟨rfl, rfl⟩) ?_
  rintro w4 w5 ⟨h4, h5⟩
  rw [h4, h5]
  refine .bind (M := fun _ w6 => w6 = w3.bump) (datetimeNow_triple rfl) ?_
  rintro now w6 h6
  rw [h6]
  refine check_triple hg.readiness_mem_unit ?_
  refine check_triple (roundHalfEven_mem_unit 4 Graph.nodeCoverage_mem_unit) ?_
  refine check_triple (roundHalfEven_mem_unit 4 Graph.edgeDensity_mem_unit) ?_
  refine check_triple (roundHalfEven_mem_unit 4 hg.confidenceMean_mem_unit) ?_
  rw [henv]
  have haged : Idle w w3.bump := trans_of Idle hw3 (Ticks.tick w3)
  refine (cacheReadiness_triple haged ?_ ?_ ?_).mono ?_ fun _ _ => .inr
  · rfl
  · rfl
  · rfl
  rintro score w7 ⟨rfl, hw7⟩
  exact ⟨rfl, rfl, rfl, hw7⟩

/-! ## Graphs without gaps -/

/-- Distinct keys that each occur `k` times make up at least `k` times their number. -/
theorem mul_length_le_length {α : Type} [DecidableEq α] {k : Nat} {keys l : List α}
    (hkeys : keys.Nodup) (h : ∀ key ∈ keys, k ≤ l.count key) : k * keys.length ≤ l.length := by
  have hsub : (List.replicate k keys).flatten.Subperm l := by
    rw [List.subperm_ext_iff]
    intro key hmem
    have hkey : key ∈ keys := by
      obtain ⟨keys', hkeys', hkey⟩ := List.mem_flatten.mp hmem
      exact List.eq_of_mem_replicate hkeys' ▸ hkey
    calc (List.replicate k keys).flatten.count key
      _ = k * keys.count key := by simp [List.count_flatten]
      _ ≤ k * 1 := Nat.mul_le_mul_left k (List.nodup_iff_count_le_one.mp hkeys key)
      _ ≤ l.count key := by simpa using h key hkey
  simpa using hsub.length_le

/-- A loop whose steps either add to the list or skip an element has skipped every element if the
list is as short at the end as it was at the start. -/
theorem foldlM_skips {ε α β : Type} {f : List β → α → Except ε (List β)} {S : α → Prop}
    (h : ∀ b x b', f b x = .ok b' → b.length < b'.length ∨ b' = b ∧ S x) {xs : List α}
    {b b' : List β} (hf : xs.foldlM f b = .ok b') :
    b.length ≤ b'.length ∧ (b'.length ≤ b.length → ∀ x ∈ xs, S x) := by
  induction xs generalizing b with
  | nil =>
    cases hf
    exact ⟨le_rfl, fun _ x hx => by cases hx⟩
  | cons x xs ih =>
    rw [List.foldlM_cons] at hf
    obtain ⟨b1, hb1, hf⟩ := except_bind_eq_ok.mp hf
    obtain ⟨hle, hskips⟩ := ih hf
    rcases h b x b1 hb1 with hlt | ⟨rfl, hx⟩
    · exact ⟨by omega, fun hback => by omega⟩
    · refine ⟨hle, fun hback y hy => ?_⟩
      rcases List.mem_cons.mp hy with rfl | hy
      · exact hx
      · exact hskips hback y hy

theorem mapM_eq_nil {ε α β : Type} {f : α → Except ε β} {xs : List α} (h : xs.mapM f = .ok []) :
    xs = [] := by
  cases xs with
  | nil => rfl
  | cons x xs =>
    rw [List.mapM_cons] at h
    obtain ⟨y, -, h⟩ := except_bind_eq_ok.mp h
    obtain ⟨ys, -, h⟩ := except_bind_eq_ok.mp h
    cases h

theorem foldl_setRecord {records rows : List ConceptRecord}
    (h : ((records ++ rows).map (·.id)).Nodup) :
    rows.foldl setRecord records = records ++ rows := by
  induction rows generalizing records with
  | nil => simp
  | cons row rows ih =>
    have hnew : ¬ records.any (·.id = row.id) = true := by
      simp only [List.any_eq_true, decide_eq_true_eq, not_exists, not_and]
      intro record hrecord hid
      rw [List.map_append, List.nodup_append] at h
      exact h.2.2 _ (List.mem_map_of_mem hrecord) _ (by simp) hid
    rw [List.foldl_cons, setRecord, if_neg hnew, ih (by simpa using h)]
    simp

theorem mem_outgoingKeys {edges : List EdgeRecord} {e : EdgeRecord} (he : e ∈ edges) :
    e.sourceId ∈ outgoingKeys edges := by
  have hmono (keys : List String) (es : List EdgeRecord) (hkey : e.sourceId ∈ keys ∨ e ∈ es) :
      e.sourceId ∈ es.foldl
        (fun keys e => if e.sourceId ∈ keys then keys else keys ++ [e.sourceId]) keys := by
    induction es generalizing keys with
    | nil => simpa using hkey
    | cons e' es ih =>
      rw [List.foldl_cons]
      refine ih _ ?_
      rcases hkey with hkey | hkey
      · left
        split_ifs <;> simp [hkey]
      · rcases List.mem_cons.mp hkey with rfl | hkey
        · left
          split_ifs with hmem <;> simp [hmem]
        · exact .inr hkey
  exact hmono [] edges (.inr he)

/-- What the three searches have not found. -/
theorem findOrphanNodes_eq_nil {concepts : List ConceptRecord} {edges : List EdgeRecord}
    (h : findOrphanNodes concepts edges = .ok []) {c : ConceptRecord} (hc : c ∈ concepts) :
    ¬ ((outgoingEdges edges c.id).length = 0 ∧ (incomingEdges edges c.id).isEmpty) := by
  have hnone := List.filter_eq_nil_iff.mp (mapM_eq_nil h) c hc
  simpa [List.isEmpty_iff] using hnone

theorem findLowConfidenceEdges_nil {concepts : List ConceptRecord} {edges : List EdgeRecord}
    {threshold : ℚ} (h : findLowConfidenceEdges concepts edges threshold = .ok [])
    {e : EdgeRecord} (he : e ∈ edges) : threshold ≤ e.confidence := by
  have hskips := (foldlM_skips (S := fun conceptId =>
    (outgoingEdges edges conceptId).filter (·.confidence < threshold) = []) ?_ h).2 le_rfl
  · have hnone := List.filter_eq_nil_iff.mp (hskips _ (mem_outgoingKeys he)) e
      (List.mem_filter.mpr ⟨he, by simp⟩)
    simpa using hnone
  · intro gaps conceptId gaps' hstep
    cases hlow : (outgoingEdges edges conceptId).filter (·.confidence < threshold) with
    | nil =>
      simp only [hlow, Except.ok.injEq] at hstep
      exact .inr ⟨hstep.symm, rfl⟩
    | cons lowEdge lowEdges =>
      simp only [hlow] at hstep
      cases hfind : concepts.find? (·.id = conceptId) with
      | none =>
        rw [hfind] at hstep
        cases hstep
      | some concept =>
        rw [hfind] at hstep
        obtain ⟨gap, -, hstep⟩ := except_bind_eq_ok.mp hstep
        cases hstep
        exact .inl (by simp)

theorem findUnexploredBranches_nil {concepts : List ConceptRecord} {edges : List EdgeRecord}
    (h : findUnexploredBranches concepts edges = .ok []) {c : ConceptRecord} (hc : c ∈ concepts)
    (htask : c.nspace = "task") (hconnected :
      ¬ ((outgoingEdges edges c.id).length = 0 ∧ (incomingEdges edges c.id).isEmpty)) :
    unexploredOutgoingEdgeTarget ≤ (outgoingEdges edges c.id).length := by
  have hskips := (foldlM_skips (S := fun c : ConceptRecord => c.nspace ≠ "task" ∨
    ((outgoingEdges edges c.id).length = 0 ∧ (incomingEdges edges c.id).isEmpty) ∨
    unexploredOutgoingEdgeTarget ≤ (outgoingEdges edges c.id).length) ?_ h).2 le_rfl c hc
  · rcases hskips with hno | hno | hexplored
    · exact absurd htask hno
    · exact absurd hno hconnected
    · exact hexplored
  · intro gaps concept gaps' hstep
    dsimp only at hstep
    split_ifs at hstep with hnspace horphan hexplored
    · cases hstep
      exact .inr ⟨rfl, .inl hnspace⟩
    · cases hstep
      exact .inr ⟨rfl, .inr (.inl horphan)⟩
    · cases hstep
      exact .inr ⟨rfl, .inr (.inr hexplored)⟩
    · obtain ⟨gap, -, hstep⟩ := except_bind_eq_ok.mp hstep
      cases hstep
      exact .inl (by simp)

namespace Graph

/-- There is a task concept, every concept is one, two edges leave each of them, and no edge is
weak. -/
structure Saturated (g : Graph) : Prop where
  nonempty : g.concepts ≠ []
  task : ∀ c ∈ g.concepts, c.nspace = "task"
  explored : ∀ c ∈ g.concepts,
    unexploredOutgoingEdgeTarget ≤ (outgoingEdges g.edgeRecords c.id).length
  strong : ∀ e ∈ g.edgeRecords, lowConfidenceThreshold ≤ e.confidence

variable {g : Graph}

theorem Saturated.exists_row (h : g.Saturated) {c : Concept} (hc : c ∈ g.concepts) :
    ∃ a r b, (a, r, b) ∈ g.relatesToRows ∧ a ∈ g.concepts ∧ a.id = c.id := by
  have hpos : 0 < (outgoingEdges g.edgeRecords c.id).length :=
    lt_of_lt_of_le (by decide) (h.explored c hc)
  obtain ⟨e, he⟩ := List.exists_mem_of_length_pos hpos
  obtain ⟨he, hid⟩ := List.mem_filter.mp he
  obtain ⟨⟨a, r, b⟩, hrow, rfl⟩ := List.mem_map.mp he
  have ha := (mem_relatesToRows.mp hrow).2.1
  exact ⟨a, r, b, hrow, List.mem_of_find?_eq_some ha, by simpa using hid⟩

theorem Saturated.nodeCoverage_eq_one (h : g.Saturated) : g.nodeCoverage = 1 := by
  have hmem {id : String} : id ∈ g.taskIds ↔ ∃ c ∈ g.concepts, c.nspace = "task" ∧ c.id = id := by
    simp [taskIds, and_assoc]
  have hcovered : g.taskIds.filter (· ∈ g.coveredIds) = g.taskIds := by
    rw [List.filter_eq_self]
    intro id hid
    obtain ⟨c, hc, -, rfl⟩ := hmem.mp hid
    obtain ⟨a, r, b, hrow, ha, hid⟩ := h.exists_row hc
    have : c.id ∈ g.coveredIds :=
      List.mem_flatMap.mpr ⟨(a, r, b), hrow, by simp [h.task a ha, hid]⟩
    simpa using this
  obtain ⟨c, hc⟩ := List.exists_mem_of_ne_nil _ h.nonempty
  have hne : g.taskIds ≠ [] := List.ne_nil_of_mem (hmem.mpr ⟨c, hc, h.task c hc, rfl⟩)
  have hlen : (g.taskIds.length : ℚ) ≠ 0 := by simpa using hne
  rw [nodeCoverage, hcovered, div_self hlen]

/-- Two edges leave each concept and no edge leaves two of them. -/
theorem Saturated.two_mul_concepts_le (h : g.Saturated) (hg : g.WellFormed) :
    2 * g.concepts.length ≤ g.relatesToRows.length := by
  have hids : (g.concepts.map (·.id)).Nodup := by
    simpa [names, Function.comp_def] using hg.ids
  have hcount := mul_length_le_length (k := 2) (l := g.edgeRecords.map (·.sourceId)) hids ?_
  · simpa [edgeRecords] using hcount
  · intro id hid
    obtain ⟨c, hc, rfl⟩ := List.mem_map.mp hid
    have hlen : (g.edgeRecords.map (·.sourceId)).count c.id =
        (outgoingEdges g.edgeRecords c.id).length := by
      rw [List.count, List.countP_map, List.countP_eq_length_filter]
      rfl
    exact hlen ▸ h.explored c hc

theorem Saturated.le_edgeDensity (h : g.Saturated) (hg : g.WellFormed) :
    2 / 5 ≤ g.edgeDensity := by
  have hpos : (0 : ℚ) < g.concepts.length := by
    exact_mod_cast List.length_pos_of_ne_nil h.nonempty
  have hle : (2 : ℚ) * g.concepts.length ≤ g.relatesToRows.length := by
    exact_mod_cast h.two_mul_concepts_le hg
  have hdiv : (2 : ℚ) ≤ g.relatesToRows.length / g.concepts.length := (le_div_iff₀ hpos).mpr hle
  refine le_min ?_ (by norm_num)
  norm_num [edgeDensityCap]
  linarith

theorem Saturated.le_confidenceMean (h : g.Saturated) : 4 / 10 ≤ g.confidenceMean := by
  obtain ⟨c, hc⟩ := List.exists_mem_of_ne_nil _ h.nonempty
  obtain ⟨a, r, b, hrow, -, -⟩ := h.exists_row hc
  have hne : g.confidences ≠ [] := List.ne_nil_of_mem (List.mem_map_of_mem hrow)
  have hpos : (0 : ℚ) < g.confidences.length := by
    exact_mod_cast List.length_pos_of_ne_nil hne
  have hsum : g.confidences.length • (4 / 10 : ℚ) ≤ g.confidences.sum := by
    apply List.card_nsmul_le_sum
    intro q hq
    obtain ⟨⟨a, r, b⟩, hrow, rfl⟩ := List.mem_map.mp hq
    exact h.strong ⟨a.id, b.id, r.confidence⟩ (List.mem_map.mpr ⟨(a, r, b), hrow, rfl⟩)
  rw [nsmul_eq_mul] at hsum
  rw [confidenceMean, le_div_iff₀ hpos]
  linarith

/-- The weights leave a saturated graph no less than 0.4 · 1 + 0.35 · 0.4 + 0.25 · 0.4. -/
theorem Saturated.le_readiness (h : g.Saturated) (hg : g.WellFormed) :
    64 / 100 ≤ g.readiness := by
  have hcoverage := h.nodeCoverage_eq_one
  have hdensity := h.le_edgeDensity hg
  have hmean := h.le_confidenceMean
  have hfixed : roundHalfEven 4 (64 / 100) = 64 / 100 :=
    roundHalfEven_of_scaled (k := 6400) (by norm_num)
  calc (64 / 100 : ℚ)
    _ = roundHalfEven 4 (64 / 100) := hfixed.symm
    _ ≤ g.readiness := roundHalfEven_mono 4 (by rw [hcoverage]; linarith)

/-- A graph is saturated if the three searches find no gaps. -/
theorem saturated_of_no_gaps (hg : g.WellFormed) (hne : g.concepts ≠ [])
    (htask : ∀ c ∈ g.concepts, c.nspace = "task")
    (horphans : findOrphanNodes g.conceptRecords g.edgeRecords = .ok [])
    (hlow : findLowConfidenceEdges g.conceptRecords g.edgeRecords lowConfidenceThreshold = .ok [])
    (hunexplored : findUnexploredBranches g.conceptRecords g.edgeRecords = .ok []) :
    g.Saturated := by
  refine ⟨hne, htask, fun c hc => ?_, fun e he => findLowConfidenceEdges_nil hlow he⟩
  have hrecords : g.conceptRecords = g.concepts.map fun c => ⟨c.id, c.label, c.nspace⟩ :=
    foldl_setRecord (by simpa [names, Function.comp_def] using hg.ids)
  have hmem : ⟨c.id, c.label, c.nspace⟩ ∈ g.conceptRecords := by
    rw [hrecords]
    exact List.mem_map.mpr ⟨c, hc, rfl⟩
  exact findUnexploredBranches_nil hunexplored hmem (htask c hc)
    (findOrphanNodes_eq_nil horphans hmem)

end Graph

/-- If the detector finds no gaps in a graph of task concepts, there is no question left to ask and
the graph is ready for a proposal. The scorer raises only if a store fails; over stores that do not
fail it returns. -/
theorem no_gaps_is_ready {w : World} {name : String} {result : GapDetectorResult}
    (hg : (w.graphs name).WellFormed) (hweighted : (w.graphs name).Weighted)
    (hne : (w.graphs name).concepts ≠ [])
    (htask : ∀ c ∈ (w.graphs name).concepts, c.nspace = "task")
    (hthreshold : w.env.proposalThreshold = defaultProposalThreshold)
    (hdetect : ((detectGaps name).exec w).1 = .ok result) (hgaps : result.gaps = []) :
    (∀ agentGoal taskBoundary, ((generateQuestion name agentGoal taskBoundary).exec w).1 =
      .error (.noGapsRemaining name)) ∧
    ∀ w' : World, w'.env = w.env → w'.graphs name = w.graphs name →
      Triple (computeAndStore name) w'
        (fun score _ => 64 / 100 ≤ score.score.val ∧ score.proposalReady = true)
        (fun e _ => ¬ GraphReady w' name ∨ RedisDown w' e) ∧
      (GraphReady w' name → (∀ n, w'.env.fault n .redis = false) →
        ∃ score w'', (computeAndStore name).exec w' = (.ok score, w'') ∧
          64 / 100 ≤ score.score.val ∧ score.proposalReady = true) := by
  obtain ⟨orphans, lowConfidence, unexplored, horphans, hlow, hunexplored, hsorted, -⟩ :=
    detectGaps_triple.ok hdetect
  have hnil : orphans ++ lowConfidence ++ unexplored = [] := by
    have hlen := congrArg List.length (hsorted.symm.trans hgaps)
    rw [sortGaps, List.length_mergeSort] at hlen
    exact List.eq_nil_of_length_eq_zero hlen
  simp only [List.append_eq_nil_iff] at hnil
  obtain ⟨⟨rfl, rfl⟩, rfl⟩ := hnil
  have hready := (Graph.saturated_of_no_gaps hg hne htask horphans hlow hunexplored).le_readiness hg
  constructor
  · intro agentGoal taskBoundary
    rcases hx : (detectGaps name).exec w with ⟨r, w1⟩
    rw [hx] at hdetect
    cases hdetect
    rw [generateQuestion, exec_bind_ok hx, hgaps]
    rfl
  · intro w' henv hgraph
    have hscores : Triple (computeAndStore name) w'
        (fun score _ => 64 / 100 ≤ score.score.val ∧ score.proposalReady = true)
        (fun e _ => ¬ GraphReady w' name ∨ RedisDown w' e) := by
      refine (computeAndStore_triple (hgraph ▸ hweighted)).mono ?_ ?_
      · rintro score w1 ⟨hscore, hproposal, -, -⟩
        rw [hgraph] at hscore hproposal
        refine ⟨hscore ▸ hready, ?_⟩
        rw [hproposal, henv, hthreshold, decide_eq_true_eq]
        exact le_trans (by norm_num [defaultProposalThreshold]) hready
      · rintro e w1 (hfail | hdown)
        · exact .inl hfail.1
        · exact .inr hdown
    refine ⟨hscores, fun hgraphReady hredis => (hscores.mono (fun _ _ h => h) ?_).returns⟩
    rintro e w1 (hno | ⟨-, n, hn⟩)
    · exact hno hgraphReady
    · rw [hredis] at hn
      cases hn

/-- One concept with two edges to itself. -/
def looping : Graph where
  tables := [.concept, .constraint, .relatesTo, .hasConstraint, .agentRole, .handsOffTo, .hasRole]
  concepts := [⟨"root", "menu", "task", 0, ⟨0, none⟩⟩]
  relatesTo := [⟨"root", "root", "before", 9 / 10, 1⟩, ⟨"root", "root", "after", 8 / 10, 1⟩]
  roles := []
  handsOffTo := []

/-- The process with that graph, under the default threshold. -/
def withLoops : World :=
  { World.initial { Sample.env with proposalThreshold := defaultProposalThreshold } with
    graphs := fun _ => looping }

theorem no_gaps_is_ready_looping :
    ((generateQuestion "shop" "take orders" "orders only").exec withLoops).1 =
      .error (.noGapsRemaining "shop") ∧
    ∃ score w', (computeAndStore "shop").exec withLoops = (.ok score, w') ∧
      64 / 100 ≤ score.score.val ∧ score.proposalReady = true := by
  have hwf : (withLoops.graphs "shop").WellFormed := ⟨by decide, by decide⟩
  have hweighted : (withLoops.graphs "shop").Weighted := by
    simp only [Graph.Weighted, withLoops, looping, List.mem_cons, List.not_mem_nil, or_false,
      forall_eq_or_imp, forall_eq]
    norm_num
  have hlow : findLowConfidenceEdges looping.conceptRecords looping.edgeRecords
      lowConfidenceThreshold = .ok [] := by
    have hedges : looping.edgeRecords = [⟨"root", "root", 9 / 10⟩, ⟨"root", "root", 8 / 10⟩] := rfl
    apply findLowConfidenceEdges_eq_nil
    simp only [hedges, List.mem_cons, List.not_mem_nil, or_false, forall_eq_or_imp, forall_eq]
    norm_num [lowConfidenceThreshold]
  have hready : GraphReady withLoops "shop" := ⟨rfl, fun t => by cases t <;> decide, fun _ => rfl⟩
  have hnone : Triple (detectGaps "shop") withLoops (fun result _ => result.gaps = [])
      fun _ _ => False := by
    refine detectGaps_triple.mono ?_ ?_
    · rintro result _ ⟨orphans, low, unexplored, horphans, hlow', hunexplored, hsorted, -⟩
      cases hlow.symm.trans hlow'
      cases horphans
      cases hunexplored
      simpa [sortGaps] using hsorted
    · rintro e _ (hfail | hfail)
      · exact hfail.1 hready
      · cases hlow.symm.trans hfail
  obtain ⟨result, w', hdetect, hgaps⟩ := hnone.returns
  have h := no_gaps_is_ready hwf hweighted (by decide) (by decide) rfl (congrArg Prod.fst hdetect)
    hgaps
  exact ⟨h.1 _ _, (h.2 withLoops rfl rfl).2 hready fun _ => rfl⟩

end AgentWorx
