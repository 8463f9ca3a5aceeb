import AgentWorx.Api.Routes

/-!
# Frames of the segments

What the segments of the questions, answers, scores and proposals leave alone. Every segment keeps a
relation between worlds that allows what its calls do: that time passes (`Ticks`), that a score of
the agent type is cached (`Scores`), that the knowledge part of its graph changes (`Learning`).
-/

namespace AgentWorx

open Coop Coop.Sync

/-- Only the concepts of the graph and the relations between them have changed. -/
structure Learns (g g' : Graph) : Prop where
  tables : g'.tables = g.tables
  roles : g'.roles = g.roles
  handsOffTo : g'.handsOffTo = g.handsOffTo

/-- The fields that scoring caches. -/
def AgentField.IsScore (field : AgentField) : Prop := field ≠ .phase ∧ field ≠ .learningRate

@[simp] theorem World.setGraph_self (w : World) (name : String) :
    w.setGraph name (w.graphs name) = w := by
  simp [World.setGraph]

/-- What a statement of the graph store can do: it fails and changes nothing, or it has the effect
of its `eval`, for a valid name and over tables that exist. -/
theorem execute_cases {α : Type} (name : String) (stmt : Cypher α) (params : List String)
    (w : World) :
    (∃ e, (execute name stmt params).exec w = (.error e, w)) ∨
    (∃ e, (execute name stmt params).exec w = (.error e, w.bump)) ∨
    (∃ a g, matchesAgentTypePattern name = true ∧
      (∀ t ∈ stmt.tables, t ∈ (w.graphs name).tables) ∧
      stmt.eval (w.graphs name) = .ok (a, g) ∧
      (execute name stmt params).exec w = (.ok a, w.bump.setGraph name g)) := by
  simp only [exec, execute, World.call, Cypher.execute]
  split_ifs with hname hfail hstrict htable
  · exact .inr (.inl ⟨_, rfl⟩)
  · exact .inr (.inl ⟨_, rfl⟩)
  · exact .inr (.inl ⟨_, rfl⟩)
  · simp only [World.bump_graphs] at htable ⊢
    cases hs : stmt.eval (w.graphs name) with
    | error e => exact .inr (.inl ⟨e, rfl⟩)
    | ok r => exact .inr (.inr ⟨r.1, r.2, hname, by simpa using htable, rfl, rfl⟩)
  · exact .inl ⟨_, rfl⟩

/-- Time may pass. -/
class Ticks (R : World → World → Prop) : Prop extends IsPreorder World R where
  tick : ∀ w, R w w.bump

/-- A score of the agent type may be cached. -/
class Scores (name : String) (R : World → World → Prop) : Prop where
  score : ∀ w field value, AgentField.IsScore field →
    R w (w.setRedis (agentKey name field) (some value))

/-- The concepts of the agent type may change. -/
class Naming (name : String) (R : World → World → Prop) : Prop where
  concepts : ∀ w concepts, R w (w.setGraph name { w.graphs name with concepts })

/-- The edges between the concepts of the agent type may change. -/
class Relating (name : String) (R : World → World → Prop) : Prop where
  relatesTo : ∀ w relatesTo, R w (w.setGraph name { w.graphs name with relatesTo })

/-- The knowledge part of the graph of the agent type may change. -/
class Learning (name : String) (R : World → World → Prop) : Prop where
  knowledge : ∀ w g, Learns (w.graphs name) g → R w (w.setGraph name g)

instance (name : String) (R : World → World → Prop) [Learning name R] : Naming name R :=
  ⟨fun w _ => Learning.knowledge w _ ⟨rfl, rfl, rfl⟩⟩

instance (name : String) (R : World → World → Prop) [Learning name R] : Relating name R :=
  ⟨fun w _ => Learning.knowledge w _ ⟨rfl, rfl, rfl⟩⟩

instance : Ticks (Same World.graphs) := ⟨fun _ => rfl⟩

instance (name : String) : Scores name (Same World.graphs) := ⟨fun _ _ _ _ => rfl⟩

instance : Ticks (Same World.pg) := ⟨fun _ => rfl⟩

variable {R : World → World → Prop}

/-! ## Single calls -/

theorem keeps_liftExcept {α : Type} [IsPreorder World R] (r : Except Exn α) :
    Keeps R (liftExcept r) := fun w => refl_of R w

/-- What follows a value whose computation may raise. -/
theorem keeps_liftExcept_bind {α β : Type} [IsPreorder World R] {r : Except Exn α} {f : α → Py β}
    (h : ∀ a, Keeps R (f a)) : Keeps R (liftExcept r >>= f) := .bind (keeps_liftExcept r) h

theorem keeps_execute {α : Type} [IsPreorder World R] (htick : ∀ w, R w w.bump) {name : String}
    {stmt : Cypher α} {params : List String}
    (h : ∀ w a g, stmt.eval (w.graphs name) = .ok (a, g) → R w (w.setGraph name g)) :
    Keeps R (execute name stmt params) := by
  intro w
  rcases execute_cases name stmt params w with ⟨e, he⟩ | ⟨e, he⟩ | ⟨a, g, -, -, hg, he⟩ <;> rw [he]
  · exact refl_of R w
  · exact htick w
  · exact trans_of R (htick w) (h w.bump a g hg)

section Reading

variable [Ticks R]

theorem keeps_datetimeNow : Keeps R datetimeNow := Ticks.tick

theorem keeps_datetimeUtcnow : Keeps R datetimeUtcnow := Ticks.tick

theorem keeps_uuid4 : Keeps R uuid4 := Ticks.tick

theorem keeps_messagesCreate (prompt : Prompt) : Keeps R (messagesCreate prompt) := Ticks.tick

/-- A call of Redis keeps what its command keeps. -/
theorem keeps_callRedis {α : Type} {act : World → Except Exn α × World}
    (h : ∀ w, R w (act w).2) : Keeps R (fun w => w.call .redis act : Py α) := by
  intro w
  simp only [exec, World.call]
  split_ifs
  · exact Ticks.tick w
  · exact trans_of R (Ticks.tick w) (h w.bump)

theorem keeps_redisGet (key : String) : Keeps R (redisGet key) :=
  keeps_callRedis fun w => refl_of R w

theorem keeps_redisSet {name : String} [Scores name R] {field : AgentField} (h : field.IsScore)
    (value : RedisValue) : Keeps R (redisSet (agentKey name field) value) :=
  keeps_callRedis fun w => Scores.score w field value h

theorem keeps_getAgentState (agentType : String) : Keeps R (getAgentState agentType) :=
  keeps_callRedis fun w => refl_of R w

theorem keeps_query {α : Type} {name : String} {mentions : List String} {tables : List GraphTable}
    {f : Graph → α} {params : List String} :
    Keeps R (execute name (.query mentions tables f) params) :=
  keeps_execute Ticks.tick fun w _ g hg => by
    simp only [Cypher.query, Except.ok.injEq, Prod.mk.injEq] at hg
    rw [← hg.2, World.setGraph_self]
    exact refl_of R w

/-! ## Questions -/

theorem keeps_detectGaps (agentType : String) : Keeps R (detectGaps agentType) := by
  have hconcepts : Keeps R (loadConcepts agentType) := .bind keeps_query fun _ => .pure _
  refine .bind hconcepts fun _ => .bind keeps_query fun _ => ?_
  exact keeps_liftExcept_bind fun _ => keeps_liftExcept_bind fun _ =>
    keeps_liftExcept_bind fun _ => .pure _

theorem keeps_extractText (prompt : Prompt) : Keeps R (extractText prompt) :=
  .bind (keeps_messagesCreate prompt) fun _ => .pure _

theorem keeps_generateQuestion (agentType agentGoal taskBoundary : String) :
    Keeps R (generateQuestion agentType agentGoal taskBoundary) := by
  refine .bind (keeps_detectGaps agentType) fun gapResult => ?_
  cases gapResult.gaps with
  | nil => exact .throw _
  | cons topGap gaps =>
    have hknown : Keeps R (getHighConfidenceConcepts agentType topGap.conceptId
        highConfidenceThreshold knownConceptLimit) := .bind keeps_query fun _ => .pure _
    exact .bind hknown fun _ => .bind (keeps_extractText _) fun _ => .bind .get fun _ => .pure _

theorem keeps_generateFollowup (agentType taskBoundary originalQuestion ambiguousAnswer : String)
    (targetingGap : KnowledgeGap) :
    Keeps R (generateFollowup agentType taskBoundary originalQuestion ambiguousAnswer
      targetingGap) :=
  .bind (keeps_extractText _) fun _ => .pure _

/-! ## Answers -/

theorem keeps_checkContradictions (agentType : String) (relations : List ExtractedRelation) :
    Keeps R (checkContradictions agentType relations) := by
  induction relations with
  | nil => exact .pure _
  | cons relation relations ih =>
    refine .bind keeps_query fun rows => ?_
    cases findConflict relation rows with
    | some row => exact keeps_liftExcept_bind fun _ => .pure _
    | none => exact ih

theorem keeps_extract (payload : AnswerProcessorInput) : Keeps R (extract payload) :=
  .bind (keeps_messagesCreate _) fun _ => .bind .get fun _ => keeps_liftExcept _

theorem keeps_processAnswer (payload : AnswerProcessorInput) :
    Keeps R (processAnswer payload) := by
  refine .bind (keeps_extract payload) fun _ => keeps_liftExcept_bind fun _ =>
    keeps_liftExcept_bind fun _ => ?_
  split
  · exact keeps_liftExcept_bind fun _ => .pure _
  · refine keeps_liftExcept_bind fun _ => keeps_liftExcept_bind fun _ =>
      .bind (keeps_checkContradictions _ _) fun conflict => keeps_liftExcept_bind fun _ => ?_
    cases conflict with
    | some conflict => exact .pure _
    | none => exact .pure _

/-! ## Scores -/

theorem keeps_computeAndStore (agentType : String) [Scores agentType R] :
    Keeps R (computeAndStore agentType) := by
  have hcoverage : Keeps R (computeNodeCoverage agentType) := by
    refine .bind keeps_query fun taskConcepts => ?_
    split
    · exact .pure _
    · exact .bind keeps_query fun _ => .pure _
  have hdensity : Keeps R (computeEdgeDensity agentType) := by
    refine .bind keeps_query fun nodeCount => ?_
    split
    · exact .pure _
    · exact .bind keeps_query fun _ => .pure _
  have hmean : Keeps R (computeConfidenceMean agentType) := by
    refine .bind keeps_query fun confidences => ?_
    split
    · exact .pure _
    · exact .pure _
  refine .bind hcoverage fun _ => .bind hdensity fun _ => .bind hmean fun _ =>
    .bind .get fun _ => .bind keeps_datetimeNow fun _ => keeps_liftExcept_bind fun _ =>
    keeps_liftExcept_bind fun _ => keeps_liftExcept_bind fun _ => keeps_liftExcept_bind fun _ => ?_
  exact .bind (keeps_redisSet ⟨by decide, by decide⟩ _) fun _ =>
    .bind (keeps_redisSet ⟨by decide, by decide⟩ _) fun _ =>
    .bind (keeps_redisSet ⟨by decide, by decide⟩ _) fun _ => .pure _

/-! ## Proposals and certification -/

theorem keeps_draftProposal (agentType agentGoal taskBoundary : String)
    (declaredTopology : TopologyType) (workflowParticipants : List String)
    (rejectionContext : Option String) :
    Keeps R (draftProposal agentType agentGoal taskBoundary declaredTopology
      workflowParticipants rejectionContext) := by
  have hclusters : Keeps R (findClusters agentType) := by
    refine .bind keeps_query fun nodes => ?_
    split
    · exact .pure _
    · refine .bind keeps_query fun edges => ?_
      split
      · exact .pure _
      · exact .throw _
  have hedges (clusters : List Cluster) : Keeps R (findCrossClusterEdges agentType clusters) :=
    .bind keeps_query fun _ => .pure _
  refine .bind hclusters fun _ => .bind (hedges _) fun _ => .bind (keeps_messagesCreate _) fun _ =>
    .bind .get fun _ => keeps_liftExcept_bind fun _ => keeps_liftExcept_bind fun _ =>
    keeps_liftExcept_bind fun _ => keeps_liftExcept_bind fun _ => keeps_liftExcept_bind fun _ => ?_
  exact keeps_liftExcept_bind fun _ => .bind keeps_uuid4 fun _ => .bind keeps_datetimeNow fun _ =>
    keeps_liftExcept_bind fun _ => .pure _

theorem keeps_rowToResponse (row : AgentTypeRow) : Keeps R (rowToResponse row) :=
  .bind (keeps_redisGet _) fun _ => .bind (keeps_redisGet _) fun _ =>
    keeps_liftExcept_bind fun _ => .bind (keeps_redisGet _) fun _ =>
    keeps_liftExcept_bind fun _ => keeps_liftExcept_bind fun _ => .pure _

theorem keeps_openCertEvent (agentType : String) (decision : CertDecision)
    (expertId notes : String) :
    Keeps R (openCertEvent agentType decision expertId notes) := by
  refine .bind (keeps_getAgentState agentType) fun state => ?_
  split
  · exact keeps_liftExcept_bind fun _ => .throw _
  · exact .bind keeps_uuid4 fun _ => .bind keeps_datetimeNow fun _ => .pure _

/-! ## Creation -/

/-- What creation writes into a field of the new agent type. -/
def AgentField.initial : AgentField → Option RedisValue
  | .phase => some (.text Phase.apprentice.value)
  | .learningRate => some (.float 1)
  | .readinessScore => some (.float 0)
  | .proposalReady | .certReady => none

/-- The segment of a creation keeps what its calls keep. -/
theorem keeps_initializeAgentType {payload : AgentTypeCreate}
    (hschema : Keeps R (initializeSchema payload.name))
    (hcreate : ∀ concept, concept.nspace = "task" →
      Keeps R (execute payload.name (createConcept concept) ["id", "label", "created_at"]))
    (hset : ∀ field value, field.initial = some value →
      Keeps R (redisSet (agentKey payload.name field) value)) :
    Keeps R (initializeAgentType payload) := by
  have hconcepts (now : Datetime) (topics : List String) (index : Nat) (ids : List String) :
      Keeps R (createRootConcepts payload.name now topics index ids) := by
    induction topics generalizing index ids with
    | nil => exact .pure _
    | cons topic topics ih =>
      refine .bind keeps_uuid4 fun u => .bind (.tryCatch ?_ fun e => .pure _) fun r => ?_
      · exact .bind (hcreate _ rfl) fun _ => .pure _
      · cases r with
        | none => exact ih _ _
        | some e => exact .pure _
  refine .bind (.tryCatch (.bind hschema fun _ => .pure _) fun e => .pure _) fun r => ?_
  cases r with
  | some e => exact .pure _
  | none =>
    refine .bind keeps_datetimeUtcnow fun now => .bind (hconcepts _ _ _ _) fun r => ?_
    rcases r with ⟨ids, raised⟩
    cases raised with
    | some e => exact .pure _
    | none =>
      refine .bind (.tryCatch ?_ fun e => .pure _) fun r => .pure _
      exact .bind (hset .phase _ rfl) fun _ => .bind (hset .learningRate _ rfl) fun _ =>
        .bind (hset .readinessScore _ rfl) fun _ => .pure _

theorem keeps_rollbackAgentType {name : String}
    (hdelete : ∀ field, Keeps R (redisDelete (agentKey name field)))
    (hconcept : ∀ id, Keeps R (execute name (deleteConcept id) ["id"]))
    (createdConceptIds : List String) : Keeps R (rollbackAgentType name createdConceptIds) := by
  refine .bind (.forM fun key hkey => ?_) fun _ => .forM fun id _ => hconcept id
  simp only [List.mem_cons, List.not_mem_nil, or_false] at hkey
  rcases hkey with rfl | rfl | rfl <;> exact hdelete _

/-! ## Concepts -/

/-- A statement on the concepts of the graph. -/
theorem keeps_name {α : Type} {name : String} [Naming name R] {stmt : Cypher α}
    {params : List String}
    (h : ∀ g a g', stmt.eval g = .ok (a, g') → ∃ concepts, g' = { g with concepts }) :
    Keeps R (execute name stmt params) :=
  keeps_execute Ticks.tick fun w _ g hg => by
    obtain ⟨concepts, rfl⟩ := h _ _ _ hg
    exact Naming.concepts w concepts

theorem createConcept_concepts {concept : Concept} {g g' : Graph} {u : Unit}
    (h : (createConcept concept).eval g = .ok (u, g')) : ∃ concepts, g' = { g with concepts } := by
  simp only [createConcept] at h
  split at h
  · cases h
  · cases h
    exact ⟨_, rfl⟩

theorem deleteConcept_concepts {id : String} {g g' : Graph} {u : Unit}
    (h : (deleteConcept id).eval g = .ok (u, g')) : ∃ concepts, g' = { g with concepts } := by
  simp only [deleteConcept] at h
  split at h
  · cases h
  · cases h
    exact ⟨_, rfl⟩

theorem keeps_findOrCreateConcept (agentType : String) [Naming agentType R]
    (entity : ExtractedEntity) (now : Datetime) (summary : WriteSummary) :
    Keeps R (findOrCreateConcept agentType entity now summary) := by
  refine .bind keeps_query fun rows => ?_
  cases rows.head? with
  | some row =>
    simp only
    split
    · refine .bind (keeps_name fun g _ g' hg => ?_) fun _ => .pure _
      cases hg
      exact ⟨_, rfl⟩
    · exact .pure _
  | none =>
    exact .bind keeps_uuid4 fun _ =>
      .bind (keeps_name fun _ _ _ => createConcept_concepts) fun _ => .pure _

/-! ## Learning -/

/-- A statement on the edges between concepts. -/
theorem keeps_relation {name : String} [Relating name R] {mentions : List String}
    {tables : List GraphTable} {f : Graph → Graph} {params : List String}
    (h : ∀ g, ∃ relatesTo, f g = { g with relatesTo }) :
    Keeps R (execute name (.update mentions tables f) params) :=
  keeps_execute Ticks.tick fun w _ g hg => by
    simp only [Cypher.update, Except.ok.injEq, Prod.mk.injEq] at hg
    obtain ⟨relatesTo, hf⟩ := h (w.graphs name)
    rw [← hg.2, hf]
    exact Relating.relatesTo w relatesTo

theorem keeps_lookupConceptId (agentType : String) (labelToId : Dict) (label : String) :
    Keeps R (lookupConceptId agentType labelToId label) := by
  have hresolve : Keeps R (resolveConceptId agentType label) := .bind keeps_query fun _ => .pure _
  unfold lookupConceptId
  split
  · split
    · exact hresolve
    · exact .pure _
  · exact hresolve

theorem keeps_upsertRelation (agentType : String) [Relating agentType R]
    (relation : ExtractedRelation) (confidence : ℚ) (labelToId : Dict) (summary : WriteSummary) :
    Keeps R (upsertRelation agentType relation confidence labelToId summary) := by
  refine .bind (keeps_lookupConceptId _ _ _) fun sourceId =>
    .bind (keeps_lookupConceptId _ _ _) fun targetId => ?_
  cases sourceId with
  | none => exact .pure _
  | some sourceId =>
    cases targetId with
    | none => exact .pure _
    | some targetId =>
      refine .bind keeps_query fun rows => ?_
      cases rows.head? with
      | some row => exact .bind (keeps_relation fun g => ⟨_, rfl⟩) fun _ => .pure _
      | none => exact .bind (keeps_relation fun g => ⟨_, rfl⟩) fun _ => .pure _

/-- The writer keeps what its two upserts keep. -/
theorem keeps_writeToGraph_of {agentType : String} {isFollowup : Bool}
    (hconcept : ∀ entity now summary, Keeps R (findOrCreateConcept agentType entity now summary))
    (hrelation : ∀ relation labelToId summary, Keeps R
      (upsertRelation agentType relation (assignConfidence relation isFollowup) labelToId summary))
    (result : AnswerProcessorResult) : Keeps R (writeToGraph agentType result isFollowup) := by
  have hentities (now : Datetime) (entities : List ExtractedEntity) (acc : Dict × WriteSummary) :
      Keeps R (writeEntities agentType now entities acc) := by
    induction entities generalizing acc with
    | nil => exact .pure _
    | cons entity entities ih => exact .bind (hconcept _ _ _) fun _ => ih _
  have hrelations (labelToId : Dict) (relations : List ExtractedRelation)
      (summary : WriteSummary) :
      Keeps R (writeRelations agentType isFollowup labelToId relations summary) := by
    induction relations generalizing summary with
    | nil => exact .pure _
    | cons relation relations ih => exact .bind (hrelation _ _ _) fun _ => ih _
  unfold writeToGraph
  split
  · exact .throw _
  · exact .bind keeps_datetimeNow fun now =>
      .bind (hentities now _ _) fun acc => hrelations acc.1 _ acc.2

theorem keeps_writeToGraph (agentType : String) [Learning agentType R]
    (result : AnswerProcessorResult) (isFollowup : Bool) :
    Keeps R (writeToGraph agentType result isFollowup) :=
  keeps_writeToGraph_of (fun _ _ _ => keeps_findOrCreateConcept _ _ _ _)
    (fun _ _ _ => keeps_upsertRelation _ _ _ _ _) result

/-- An answer keeps what the writer and the scorer keep. -/
theorem keeps_handleAnswer_of {agent : AgentTypeResponse} [Scores agent.name R]
    (hwrite : ∀ result, Keeps R (writeToGraph agent.name result false))
    (payload : AnswerProcessorInput) : Keeps R (handleAnswer agent payload) := by
  refine .bind (keeps_processAnswer payload) fun result => ?_
  cases result.status with
  | write => exact .bind (hwrite _) fun _ => .bind (keeps_computeAndStore _) fun _ => .pure _
  | followUp => exact .bind (keeps_generateFollowup _ _ _ _ _) fun _ => .pure _
  | conflict => exact .pure _

theorem keeps_handleAnswer (agent : AgentTypeResponse) [Learning agent.name R]
    [Scores agent.name R] (payload : AnswerProcessorInput) :
    Keeps R (handleAnswer agent payload) :=
  keeps_handleAnswer_of (fun _ => keeps_writeToGraph _ _ _) payload

end Reading

end AgentWorx
