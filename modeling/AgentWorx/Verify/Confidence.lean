import AgentWorx.Verify.Requests
import AgentWorx.Verify.Sample
import AgentWorx.Verify.Writer

/-!
# The confidence of edges

The writer assigns every edge at least the confidence of an inferred relation and never lowers it.
That is above the bar of the gap detector for weak edges and above the bar of the contradiction
check, so neither of the two bars excludes any edge.
-/

namespace AgentWorx

open Coop Coop.Sync

/-! ## Grades -/

/-- Every edge has at least the confidence of an inferred relation, and no more than certainty. -/
def Graph.Graded (g : Graph) : Prop :=
  ∀ r ∈ g.relatesTo, inferredConfidence ≤ r.confidence ∧ r.confidence ≤ 1

theorem assignConfidence_bounds (relation : ExtractedRelation) (isFollowup : Bool) :
    inferredConfidence ≤ assignConfidence relation isFollowup ∧
      assignConfidence relation isFollowup ≤ 1 := by
  unfold assignConfidence
  split_ifs <;>
    norm_num [followupConfidence, directHighConfidence, directModerateConfidence,
      inferredConfidence]

/-- The graphs of all agent types are graded. -/
def Graded (w : World) : Prop := ∀ name, (w.graphs name).Graded

theorem Graded.setGraph {w : World} (h : Graded w) {name : String} {g : Graph} (hg : g.Graded) :
    Graded (w.setGraph name g) := by
  intro other
  by_cases hname : other = name
  · subst hname
    simpa using hg
  · simpa [hname] using h other

theorem graded_of_graphs {w w' : World} (h : w'.graphs = w.graphs) : Preserves Graded w w' := by
  intro hw
  simpa only [Graded, h] using hw

instance : Ticks (Preserves Graded) := ⟨fun _ => graded_of_graphs rfl⟩

instance (name : String) : Naming name (Preserves Graded) := ⟨fun _ _ hw => hw.setGraph (hw name)⟩

/-! ## The writer -/

/-- The updated confidence is the maximum of one that has been read from the graph and the new one.
-/
theorem upsertRelation_graded {confidence : ℚ} (hlow : inferredConfidence ≤ confidence)
    (hhigh : confidence ≤ 1) (name : String) (relation : ExtractedRelation) (labelToId : Dict)
    (summary : WriteSummary) :
    Keeps (Preserves Graded) (upsertRelation name relation confidence labelToId summary) := by
  intro w hw
  have hidle {w1 : World} (h : Idle w w1) : Graded w1 := graded_of_graphs h.graphs hw
  refine (upsertRelation_rule (Q := fun _ => Graded) (E := fun _ => Graded) rfl
    (fun _ _ h _ => hidle h) (fun _ h _ => hidle h)
    (fun sourceId targetId old w1 h _ _ hhead => (hidle h).setGraph fun r hr => ?_)
    fun sourceId targetId w1 h _ _ _ => (hidle h).setGraph fun r hr => ?_).state
    (P := Graded) (fun _ _ h => h) fun _ _ h => h
  · have hold : old.1 ≤ 1 := by
      obtain ⟨⟨a, r', b⟩, hrow, rfl⟩ := List.mem_map.mp (List.mem_of_mem_head? hhead)
      exact (hw name r' (Graph.mem_relatesToRows.mp (List.mem_filter.mp hrow).1).1).2
    obtain ⟨r0, hr0, rfl⟩ := List.mem_map.mp hr
    split_ifs
    · exact ⟨hlow.trans (le_max_right _ _), max_le hold hhigh⟩
    · exact hw name r0 hr0
  · rcases List.mem_append.mp hr with hr | hr
    · exact hw name r hr
    · obtain ⟨a, -, hr⟩ := List.mem_flatMap.mp hr
      obtain ⟨b, -, rfl⟩ := List.mem_map.mp hr
      exact ⟨hlow, hhigh⟩

theorem writeToGraph_graded (name : String) (result : AnswerProcessorResult) (isFollowup : Bool) :
    Keeps (Preserves Graded) (writeToGraph name result isFollowup) :=
  keeps_writeToGraph_of (fun _ _ _ => keeps_findOrCreateConcept _ _ _ _)
    (fun relation _ _ => upsertRelation_graded (assignConfidence_bounds relation isFollowup).1
      (assignConfidence_bounds relation isFollowup).2 _ _ _ _) result

/-! ## All requests -/

/-- The requests keep it of a graph: creations add task concepts and delete concepts without edges,
answers are written, and nothing else changes concepts or edges between them. -/
structure KnowledgeInvariant (P : Graph → Prop) : Prop where
  congr : ∀ {g g' : Graph}, g'.concepts = g.concepts → g'.relatesTo = g.relatesTo → P g → P g'
  create : ∀ {g : Graph} {concept : Concept}, concept.nspace = "task" →
    concept.id ∉ g.concepts.map (·.id) → P g → P { g with concepts := g.concepts ++ [concept] }
  delete : ∀ {g : Graph} {id : String}, (∀ r ∈ g.relatesTo, r.source ≠ id ∧ r.target ≠ id) →
    P g → P { g with concepts := g.concepts.filter (·.id ≠ id) }
  write : ∀ name result isFollowup,
    Keeps (Preserves (EveryGraph P)) (writeToGraph name result isFollowup)

namespace KnowledgeInvariant

variable {P : Graph → Prop} {request : Request} {l : Option (Event host)} {w w' : World}

/-- Only what a request has learned changes concepts or edges between them. -/
theorem effect (h : KnowledgeInvariant P) (he : Effect request l w w')
    (hlearns : request.learns = none) (hw : EveryGraph P w) : EveryGraph P w' := by
  cases he with
  | tick | score | reset | graduate | start | session => exact hw
  | knowledge hrequest =>
    rw [hlearns] at hrequest
    cases hrequest
  | schema hrequest =>
    subst hrequest
    cases hlearns
  | @flush _ _ session _ _ _ _ _ hstep =>
    cases hstep with
    | tick => exact hw
    | handoffs =>
      exact hw.setGraph (h.congr (g := w.graphs session.agentTypeId) rfl rfl (hw _))
    | role _ hrole =>
      refine hw.setGraph ?_
      cases hrole <;> exact h.congr (g := w.graphs session.agentTypeId) rfl rfl (hw _)

theorem createAgentType (h : KnowledgeInvariant P) (payload : AgentTypeCreate) :
    Async.KeepsAlone (Preserves (EveryGraph P)) (createAgentType payload) := by
  have htick (w : World) : Preserves (EveryGraph P) w w.bump := everyGraph_of_graphs rfl
  refine createAgentType_alone (fun q w => everyGraph_of_graphs (by simp))
    (keeps_initializeAgentType (fun w hw => ?_) (fun concept htask => ?_)
      fun _ _ _ => keeps_callRedis fun _ => everyGraph_of_graphs rfl)
    (keeps_rollbackAgentType (fun _ => keeps_callRedis fun _ => everyGraph_of_graphs rfl)
      fun id => ?_)
  · have hschema := initializeSchema_provisions payload.name w
    intro name
    by_cases hname : name = payload.name
    · subst hname
      obtain ⟨tables, -, hg⟩ := hschema.graph
      rw [hg]
      exact h.congr (g := w.graphs payload.name) rfl rfl (hw _)
    · rw [hschema.others name hname]
      exact hw name
  · refine keeps_execute htick fun w u g hg hw => hw.setGraph ?_
    simp only [createConcept] at hg
    split_ifs at hg with hid
    cases hg
    exact h.create htask (by simpa using hid) (hw payload.name)
  · refine keeps_execute htick fun w u g hg hw => hw.setGraph ?_
    simp only [deleteConcept] at hg
    split_ifs at hg with hid
    cases hg
    exact h.delete (by simpa using hid) (hw payload.name)

theorem handle (h : KnowledgeInvariant P) (request : Request) :
    Async.KeepsAlone (Preserves (EveryGraph P)) request.handle := by
  have hserve (q : Sql) (w : World) : Preserves (EveryGraph P) w (World.serve q w).2 :=
    everyGraph_of_graphs (by simp)
  by_cases hlearns : request.learns = none
  · intro w hw
    refine (handle_follows request w).runAlone_keeps (fun l w w' hseg => ?_)
      (fun l w q _ => hserve q w) hw
    exact Segment.keeps (R := Preserves (EveryGraph P)) (fun w w' he => h.effect he hlearns) hseg
  · cases request with
    | create payload =>
      exact .bind (.tryCatch (h.createAgentType payload) fun _ => .throw _) fun _ => .pure _
    | answer agentTypeId body =>
      exact .bind (submitAnswer_alone (fun q w _ => hserve q w)
        (fun _ _ => keeps_handleAnswer_of (fun _ => h.write _ _ _) _) _ _) fun _ => .pure _
    | _ => exact absurd rfl hlearns

theorem runAll (h : KnowledgeInvariant P) {requests : List Request} (hw : EveryGraph P w) :
    EveryGraph P (runAll requests w) := by
  induction requests generalizing w with
  | nil => exact hw
  | cons request requests ih => exact ih (h.handle request w hw)

end KnowledgeInvariant

theorem knowledgeInvariant_graded : KnowledgeInvariant Graph.Graded where
  congr _ hedges h r hr := h r (hedges ▸ hr)
  create _ _ h := h
  delete _ h := h
  write := writeToGraph_graded

variable {w : World}

theorem runAll_graded {requests : List Request} (hw : Graded w) : Graded (runAll requests w) :=
  knowledgeInvariant_graded.runAll hw

/-! ## Weak edges -/

theorem foldlM_eq_self {ε α β : Type} {f : β → α → Except ε β} {xs : List α} {b : β}
    (h : ∀ x ∈ xs, f b x = .ok b) : xs.foldlM f b = .ok b := by
  induction xs with
  | nil => rfl
  | cons x xs ih =>
    rw [List.foldlM_cons, h x List.mem_cons_self]
    exact ih fun y hy => h y (List.mem_cons_of_mem x hy)

theorem foldlM_ok {ε α β : Type} {f : β → α → Except ε β} (h : ∀ b x, ∃ b', f b x = .ok b')
    (xs : List α) (b : β) : ∃ b', xs.foldlM f b = .ok b' := by
  induction xs generalizing b with
  | nil => exact ⟨b, rfl⟩
  | cons x xs ih =>
    obtain ⟨b', hb'⟩ := h b x
    rw [List.foldlM_cons, hb']
    exact ih b'

theorem mapM_ok {ε α β : Type} {f : α → Except ε β} (h : ∀ x, ∃ y, f x = .ok y) (xs : List α) :
    ∃ ys, xs.mapM f = .ok ys := by
  induction xs with
  | nil => exact ⟨[], rfl⟩
  | cons x xs ih =>
    obtain ⟨y, hy⟩ := h x
    obtain ⟨ys, hys⟩ := ih
    exact ⟨y :: ys, by rw [List.mapM_cons, hy, hys]; rfl⟩

theorem makeGap_ok (conceptId : String) {conceptLabel : String} {gapType : GapType} {severity : ℚ}
    {breadth : Nat} {priorityScore : ℚ} {nspace : GapNamespace}
    (hseverity : 0 ≤ severity ∧ severity ≤ 1) (hpriority : 0 ≤ priorityScore) :
    ∃ gap, makeGap conceptId conceptLabel gapType severity breadth priorityScore nspace =
      .ok gap := by
  unfold makeGap Proportion.check
  rw [dif_pos hseverity]
  exact ⟨_, dif_pos hpriority⟩

theorem findOrphanNodes_ok (concepts : List ConceptRecord) (edges : List EdgeRecord) :
    ∃ gaps, findOrphanNodes concepts edges = .ok gaps :=
  mapM_ok (fun _ => makeGap_ok _ (by norm_num) le_rfl) _

theorem findUnexploredBranches_ok (concepts : List ConceptRecord) (edges : List EdgeRecord) :
    ∃ gaps, findUnexploredBranches concepts edges = .ok gaps := by
  refine foldlM_ok (fun gaps concept => ?_) _ _
  dsimp only
  split_ifs with htask horphan hexplored
  · exact ⟨gaps, rfl⟩
  · exact ⟨gaps, rfl⟩
  · exact ⟨gaps, rfl⟩
  · -- at most one edge leaves the concept, so the severity is between one half and one
    have hcount : (outgoingEdges edges concept.id).length ≤ 1 :=
      Nat.le_of_lt_succ (not_le.mp hexplored)
    have hcount' : ((outgoingEdges edges concept.id).length : ℚ) ≤ 1 := by exact_mod_cast hcount
    have hseverity : (0 : ℚ) ≤ 1 / 2 + 1 / 2 * (1 - (outgoingEdges edges concept.id).length /
        (unexploredOutgoingEdgeTarget : ℚ)) ∧ 1 / 2 + 1 / 2 * (1 -
          (outgoingEdges edges concept.id).length / (unexploredOutgoingEdgeTarget : ℚ)) ≤ 1 := by
      have hnonneg : (0 : ℚ) ≤ (outgoingEdges edges concept.id).length := Nat.cast_nonneg _
      norm_num [unexploredOutgoingEdgeTarget]
      constructor <;> linarith
    obtain ⟨gap, hgap⟩ := makeGap_ok concept.id (roundHalfEven_mem_unit 3 hseverity)
      (roundHalfEven_nonneg 3 (mul_nonneg hseverity.1 (Nat.cast_nonneg _)))
    rw [hgap]
    exact ⟨_, rfl⟩

/-- No gap is reported for weak edges if there are none. -/
theorem findLowConfidenceEdges_eq_nil {concepts : List ConceptRecord} {edges : List EdgeRecord}
    {threshold : ℚ} (h : ∀ e ∈ edges, threshold ≤ e.confidence) :
    findLowConfidenceEdges concepts edges threshold = .ok [] := by
  refine foldlM_eq_self fun conceptId _ => ?_
  have hnone : (outgoingEdges edges conceptId).filter (·.confidence < threshold) = [] := by
    rw [List.filter_eq_nil_iff]
    intro e he
    simpa using h e (List.mem_filter.mp he).1
  simp [hnone]

/-- `_load_concepts` of the graph -/
def Graph.conceptRecords (g : Graph) : List ConceptRecord :=
  (g.concepts.map fun c => ⟨c.id, c.label, c.nspace⟩).foldl setRecord []

/-- `_load_edges` of the graph -/
def Graph.edgeRecords (g : Graph) : List EdgeRecord :=
  g.relatesToRows.map fun (a, r, b) => ⟨a.id, b.id, r.confidence⟩

/-- The detector reports the gaps of its three searches. -/
theorem detectGaps_triple {name : String} :
    Triple (detectGaps name) w
      (fun result _ => ∃ orphans lowConfidence unexplored,
        findOrphanNodes (w.graphs name).conceptRecords (w.graphs name).edgeRecords = .ok orphans ∧
        findLowConfidenceEdges (w.graphs name).conceptRecords (w.graphs name).edgeRecords
          lowConfidenceThreshold = .ok lowConfidence ∧
        findUnexploredBranches (w.graphs name).conceptRecords (w.graphs name).edgeRecords =
          .ok unexplored ∧
        result.gaps = sortGaps (orphans ++ lowConfidence ++ unexplored) ∧
        result.orphanCount = orphans.length ∧ result.lowConfidenceCount = lowConfidence.length ∧
        result.unexploredCount = unexplored.length)
      fun e w' => ReadFails w name e w' ∨
        findLowConfidenceEdges (w.graphs name).conceptRecords (w.graphs name).edgeRecords
          lowConfidenceThreshold = .error e := by
  refine .bind (M := fun concepts w1 => concepts = (w.graphs name).conceptRecords ∧ Idle w w1)
    (.bind ((query_idle (refl_of Idle w) (by simp)).mono (fun _ _ h => h) fun _ _ => .inl) ?_) ?_
  · rintro rows w1 ⟨rfl, hw1⟩
    exact .pure ⟨rfl, hw1⟩
  rintro concepts w1 ⟨rfl, hw1⟩
  refine .bind ((query_idle hw1 (by simp)).mono (fun _ _ h => h) fun _ _ => .inl)
    fun edges w2 ⟨hedges, _⟩ => ?_
  change edges = (w.graphs name).edgeRecords at hedges
  subst hedges
  obtain ⟨orphans, horphans⟩ := findOrphanNodes_ok (w.graphs name).conceptRecords
    (w.graphs name).edgeRecords
  obtain ⟨unexplored, hunexplored⟩ := findUnexploredBranches_ok (w.graphs name).conceptRecords
    (w.graphs name).edgeRecords
  rw [horphans, hunexplored]
  cases hlow : findLowConfidenceEdges (w.graphs name).conceptRecords (w.graphs name).edgeRecords
    lowConfidenceThreshold with
  | error e => exact .inr rfl
  | ok lowConfidence =>
    exact ⟨orphans, lowConfidence, unexplored, rfl, rfl, rfl, rfl, rfl, rfl, rfl⟩

/-- On a graded graph the detector raises only if the graph cannot be read. -/
theorem detectGaps_lowConfidence {name : String} (hw : Graded w) :
    Triple (detectGaps name) w (fun result _ => result.lowConfidenceCount = 0)
      fun _ _ => ¬ GraphReady w name := by
  have hlow : findLowConfidenceEdges (w.graphs name).conceptRecords (w.graphs name).edgeRecords
      lowConfidenceThreshold = .ok [] := by
    refine findLowConfidenceEdges_eq_nil fun e he => ?_
    obtain ⟨⟨a, r, b⟩, hr, rfl⟩ := List.mem_map.mp he
    refine le_trans ?_ (hw name r (Graph.mem_relatesToRows.mp hr).1).1
    norm_num [lowConfidenceThreshold, inferredConfidence]
  refine detectGaps_triple.mono ?_ ?_
  · rintro result w' ⟨orphans, lowConfidence, unexplored, -, h, -, -, -, hcount, -⟩
    cases hlow.symm.trans h
    exact hcount
  · rintro e w' (hfail | h)
    · exact hfail.1
    · cases hlow.symm.trans h

/-! ## Contradictions -/

/-- The stored edge of `row` and the extracted relation have the same labels in the same order, and
different relations. -/
def Contradicts (relation : ExtractedRelation) (row : Concept × RelatesTo × Concept) : Prop :=
  row.1.label = relation.source ∧ row.2.2.label = relation.target ∧
    row.2.1.relation ≠ relation.relationType

/-- A conflict is found by the first relation that contradicts a stored edge, at the latest. -/
theorem checkContradictions_finds {name : String} (hw : Graded w) {relation : ExtractedRelation}
    {row : Concept × RelatesTo × Concept} (hrow : row ∈ (w.graphs name).relatesToRows)
    (hcontra : Contradicts relation row) {relations : List ExtractedRelation}
    (hmem : relation ∈ relations) :
    Triple (checkContradictions name relations) w (fun conflict _ => conflict.isSome)
      fun _ _ => ¬ GraphReady w name := by
  induction relations generalizing w with
  | nil => cases hmem
  | cons first rest ih =>
    refine .bind ((query_reads (by simp)).mono (fun _ _ h => h) fun _ _ h => h.1)
      fun rows w1 ⟨hrows, hw1⟩ => ?_
    subst hw1
    cases hconflict : findConflict first rows with
    | some found =>
      -- the row that was found is an edge, so its confidence passes the check of the detail
      have hfound : 0 ≤ found.confidence ∧ found.confidence ≤ 1 := by
        have hmem := List.mem_of_find?_eq_some hconflict
        rw [hrows] at hmem
        obtain ⟨⟨a, r, b⟩, hr, rfl⟩ := List.mem_map.mp hmem
        have hbounds := hw name r (Graph.mem_relatesToRows.mp (List.mem_filter.mp hr).1).1
        exact ⟨le_trans (by norm_num [inferredConfidence]) hbounds.1, hbounds.2⟩
      simp only [conflictDetail, Proportion.check, dif_pos hfound]
      exact rfl
    | none =>
      rcases List.mem_cons.mp hmem with rfl | hmem
      · -- the query of the relation returns the edge, and the edge is above the bar
        obtain ⟨a, r, b⟩ := row
        obtain ⟨hsource, htarget, hrelation⟩ := hcontra
        have hbounds := hw name r (Graph.mem_relatesToRows.mp hrow).1
        have hbar : minWriteConfidence < r.confidence :=
          lt_of_lt_of_le (by norm_num [minWriteConfidence, inferredConfidence]) hbounds.1
        have hreturned : ⟨a.label, b.label, r.relation, r.confidence⟩ ∈ rows := by
          rw [hrows]
          exact List.mem_map.mpr
            ⟨(a, r, b), List.mem_filter.mpr ⟨hrow, by simpa using ⟨hsource, hrelation⟩⟩, rfl⟩
        have hno := List.find?_eq_none.mp hconflict _ hreturned
        exact absurd (by simpa using ⟨htarget, hbar⟩) hno
      · exact (ih (w := w.bump) hw hrow hmem).mono (fun _ _ h => h) fun _ _ h hready =>
          h hready.bump

/-- Every edge of every reachable graph is above the bar for weak edges and above the bar of the
contradiction check. Both calls return where the graph can be read. -/
theorem relations_above_bars (env : Env) (requests : List Request) (name : String) :
    let w := runAll requests (.initial env)
    (∀ r ∈ (w.graphs name).relatesTo, 6 / 10 ≤ r.confidence) ∧
    Triple (detectGaps name) w (fun result _ => result.lowConfidenceCount = 0)
      (fun _ _ => ¬ GraphReady w name) ∧
    ∀ relations : List ExtractedRelation,
      (∃ relation ∈ relations, ∃ row ∈ (w.graphs name).relatesToRows, Contradicts relation row) →
      Triple (checkContradictions name relations) w (fun conflict _ => conflict.isSome)
        fun _ _ => ¬ GraphReady w name := by
  intro w
  have hw : Graded w := runAll_graded fun name r hr => by cases hr
  refine ⟨fun r hr => (hw name r hr).1, detectGaps_lowConfidence hw, ?_⟩
  rintro relations ⟨relation, hmem, row, hrow, hcontra⟩
  exact checkContradictions_finds hw hrow hcontra hmem

end AgentWorx
