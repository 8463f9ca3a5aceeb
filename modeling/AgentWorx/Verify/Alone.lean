import AgentWorx.Verify.View

/-!
# A service of its own

Every request about an agent type mirrors through the view of that agent type, so what the service
does for one agent type is what a service would do that holds nothing else: the requests about other
agent types are, to it, the passing of time.
-/

namespace AgentWorx

open Coop Coop.Sync

variable {name : String} {P : (String → Option SimulationSession) → Prop} {α β : Type}

/-! ## Questions -/

theorem detectGaps_own : Own name P (fun _ => True) (detectGaps name) := by
  have hconcepts : Own name P (fun _ => True) (loadConcepts name) :=
    .andThen (execute_own _ _) fun _ => .pure trivial
  refine .andThen hconcepts fun _ => .andThen (execute_own _ _) fun _ => ?_
  exact liftExcept_bind_own fun _ => liftExcept_bind_own fun _ => liftExcept_bind_own fun _ =>
    .pure trivial

theorem extractText_own (prompt : Prompt) : Own name P (fun _ => True) (extractText prompt) :=
  .andThen (messagesCreate_own prompt) fun _ => .pure trivial

theorem generateQuestion_own (agentGoal taskBoundary : String) :
    Own name P (fun _ => True) (generateQuestion name agentGoal taskBoundary) := by
  refine .andThen detectGaps_own fun gapResult => ?_
  cases gapResult.gaps with
  | nil => exact .throw _
  | cons topGap gaps =>
    have hknown : Own name P (fun _ => True) (getHighConfidenceConcepts name topGap.conceptId
        highConfidenceThreshold knownConceptLimit) :=
      .andThen (execute_own _ _) fun _ => .pure trivial
    exact .andThen hknown fun _ => .andThen (extractText_own _) fun _ =>
      .get (fun _ _ => rfl) fun _ _ => .pure trivial

theorem generateFollowup_own (taskBoundary originalQuestion ambiguousAnswer : String)
    (targetingGap : KnowledgeGap) : Own name P (fun _ => True)
      (generateFollowup name taskBoundary originalQuestion ambiguousAnswer targetingGap) :=
  .andThen (extractText_own _) fun _ => .pure trivial

/-! ## Answers -/

theorem extract_own (payload : AnswerProcessorInput) :
    Own name P (fun _ => True) (extract payload) :=
  .andThen (messagesCreate_own _) fun _ => .get (fun _ _ => rfl) fun _ _ =>
    liftExcept_own _

theorem checkContradictions_own (relations : List ExtractedRelation) :
    Own name P (fun _ => True) (checkContradictions name relations) := by
  induction relations with
  | nil => exact .pure trivial
  | cons relation relations ih =>
    refine .andThen (execute_own _ _) fun rows => ?_
    cases findConflict relation rows with
    | some row => exact liftExcept_bind_own fun _ => .pure trivial
    | none => exact ih

theorem processAnswer_own {payload : AnswerProcessorInput} (h : payload.agentTypeId = name) :
    Own name P (fun _ => True) (processAnswer payload) := by
  subst h
  refine .andThen (extract_own payload) fun _ => liftExcept_bind_own fun _ =>
    liftExcept_bind_own fun _ => ?_
  split
  · exact liftExcept_bind_own fun _ => .pure trivial
  · refine liftExcept_bind_own fun _ => liftExcept_bind_own fun _ =>
      .andThen (checkContradictions_own _) fun conflict => liftExcept_bind_own fun _ => ?_
    cases conflict with
    | some conflict => exact .pure trivial
    | none => exact .pure trivial

theorem findOrCreateConcept_own (entity : ExtractedEntity) (now : Datetime)
    (summary : WriteSummary) :
    Own name P (fun _ => True) (findOrCreateConcept name entity now summary) := by
  refine .andThen (execute_own _ _) fun rows => ?_
  cases rows.head? with
  | some row =>
    simp only
    split
    · exact .andThen (execute_own _ _) fun _ => .pure trivial
    · exact .pure trivial
  | none => exact .andThen uuid4_own fun _ => .andThen (execute_own _ _) fun _ => .pure trivial

theorem lookupConceptId_own (labelToId : Dict) (label : String) :
    Own name P (fun _ => True) (lookupConceptId name labelToId label) := by
  have hresolve : Own name P (fun _ => True) (resolveConceptId name label) :=
    .andThen (execute_own _ _) fun _ => .pure trivial
  unfold lookupConceptId
  split
  · split
    · exact hresolve
    · exact .pure trivial
  · exact hresolve

theorem upsertRelation_own (relation : ExtractedRelation) (confidence : ℚ) (labelToId : Dict)
    (summary : WriteSummary) :
    Own name P (fun _ => True) (upsertRelation name relation confidence labelToId summary) := by
  refine .andThen (lookupConceptId_own _ _) fun sourceId =>
    .andThen (lookupConceptId_own _ _) fun targetId => ?_
  cases sourceId with
  | none => exact .pure trivial
  | some sourceId =>
    cases targetId with
    | none => exact .pure trivial
    | some targetId =>
      refine .andThen (execute_own _ _) fun rows => ?_
      cases rows.head? with
      | some row => exact .andThen (execute_own _ _) fun _ => .pure trivial
      | none => exact .andThen (execute_own _ _) fun _ => .pure trivial

theorem writeToGraph_own (result : AnswerProcessorResult) (isFollowup : Bool) :
    Own name P (fun _ => True) (writeToGraph name result isFollowup) := by
  have hentities (now : Datetime) (entities : List ExtractedEntity) (acc : Dict × WriteSummary) :
      Own name P (fun _ => True) (writeEntities name now entities acc) := by
    induction entities generalizing acc with
    | nil => exact .pure trivial
    | cons entity entities ih => exact .andThen (findOrCreateConcept_own _ _ _) fun _ => ih _
  have hrelations (labelToId : Dict) (relations : List ExtractedRelation)
      (summary : WriteSummary) :
      Own name P (fun _ => True) (writeRelations name isFollowup labelToId relations summary) := by
    induction relations generalizing summary with
    | nil => exact .pure trivial
    | cons relation relations ih => exact .andThen (upsertRelation_own _ _ _ _) fun _ => ih _
  unfold writeToGraph
  split
  · exact .throw _
  · exact .andThen datetimeNow_own fun now => .andThen (hentities now _ _) fun acc =>
      hrelations acc.1 _ acc.2

/-! ## Scores -/

theorem computeAndStore_own : Own name P (fun _ => True) (computeAndStore name) := by
  have hcoverage : Own name P (fun _ => True) (computeNodeCoverage name) := by
    refine .andThen (execute_own _ _) fun taskConcepts => ?_
    split
    · exact .pure trivial
    · exact .andThen (execute_own _ _) fun _ => .pure trivial
  have hdensity : Own name P (fun _ => True) (computeEdgeDensity name) := by
    refine .andThen (execute_own _ _) fun nodeCount => ?_
    split
    · exact .pure trivial
    · exact .andThen (execute_own _ _) fun _ => .pure trivial
  have hmean : Own name P (fun _ => True) (computeConfidenceMean name) := by
    refine .andThen (execute_own _ _) fun confidences => ?_
    split
    · exact .pure trivial
    · exact .pure trivial
  refine .andThen hcoverage fun _ => .andThen hdensity fun _ => .andThen hmean fun _ =>
    .get (fun _ _ => rfl) fun _ _ => .andThen datetimeNow_own fun _ =>
    liftExcept_bind_own fun _ => liftExcept_bind_own fun _ => liftExcept_bind_own fun _ =>
    liftExcept_bind_own fun _ => ?_
  exact .andThen (redisSet_own _ _) fun _ => .andThen (redisSet_own _ _) fun _ =>
    .andThen (redisSet_own _ _) fun _ => .pure trivial

theorem handleAnswer_own {agent : AgentTypeResponse} {payload : AnswerProcessorInput}
    (hagent : agent.name = name) (hpayload : payload.agentTypeId = name) :
    Own name P (fun _ => True) (handleAnswer agent payload) := by
  subst hagent
  refine .andThen (processAnswer_own hpayload) fun result => ?_
  cases result.status with
  | write =>
    exact .andThen (writeToGraph_own _ _) fun _ => .andThen computeAndStore_own fun _ =>
      .pure trivial
  | followUp => exact .andThen (generateFollowup_own _ _ _ _) fun _ => .pure trivial
  | conflict => exact .pure trivial

/-! ## Proposals and certification -/

theorem draftProposal_own (agentGoal taskBoundary : String) (declaredTopology : TopologyType)
    (workflowParticipants : List String) (rejectionContext : Option String) :
    Own name P (fun _ => True) (draftProposal name agentGoal taskBoundary declaredTopology
      workflowParticipants rejectionContext) := by
  have hclusters : Own name P (fun _ => True) (findClusters name) := by
    refine .andThen (execute_own _ _) fun nodes => ?_
    split
    · exact .pure trivial
    · refine .andThen (execute_own _ _) fun edges => ?_
      split
      · exact .pure trivial
      · exact .throw _
  have hedges (clusters : List Cluster) :
      Own name P (fun _ => True) (findCrossClusterEdges name clusters) :=
    .andThen (execute_own _ _) fun _ => .pure trivial
  refine .andThen hclusters fun _ => .andThen (hedges _) fun _ =>
    .andThen (messagesCreate_own _) fun _ => .get (fun _ _ => rfl) fun _ _ =>
    liftExcept_bind_own fun _ => liftExcept_bind_own fun _ => liftExcept_bind_own fun _ =>
    liftExcept_bind_own fun _ => liftExcept_bind_own fun _ => ?_
  exact liftExcept_bind_own fun _ => .andThen uuid4_own fun _ => .andThen datetimeNow_own fun _ =>
    liftExcept_bind_own fun _ => .pure trivial

theorem rowToResponse_own {row : AgentTypeRow} (h : row.name = name) :
    Own name P (fun agent => agent.name = name) (rowToResponse row) := by
  subst h
  exact .andThen (redisGet_own _) fun _ => .andThen (redisGet_own _) fun _ =>
    liftExcept_bind_own fun _ => .andThen (redisGet_own _) fun _ =>
    liftExcept_bind_own fun _ => liftExcept_bind_own fun _ => .pure rfl

theorem openCertEvent_own (decision : CertDecision) (expertId notes : String) :
    Own name P (fun event => event.agentType = name)
      (openCertEvent name decision expertId notes) := by
  refine .andThen getAgentState_own fun state => ?_
  split
  · exact liftExcept_bind_own fun _ => .throw _
  · exact .andThen uuid4_own fun _ => .andThen datetimeNow_own fun _ => .pure rfl

/-! ## Creation -/

theorem initializeAgentType_own {payload : AgentTypeCreate} (h : payload.name = name) :
    Own name P (fun _ => True) (initializeAgentType payload) := by
  subst h
  have hschema : Own payload.name P (fun _ => True) (initializeSchema payload.name) :=
    .forM fun _ _ => execute_own _ _
  have hconcepts (now : Datetime) (topics : List String) (index : Nat) (ids : List String) :
      Own payload.name P (fun _ => True)
        (createRootConcepts payload.name now topics index ids) := by
    induction topics generalizing index ids with
    | nil => exact .pure trivial
    | cons topic topics ih =>
      refine .andThen uuid4_own fun u => .andThen (.tryCatch ?_ fun e => .pure trivial) fun r => ?_
      · exact .andThen (execute_own _ _) fun _ => .pure trivial
      · cases r with
        | none => exact ih _ _
        | some e => exact .pure trivial
  refine .andThen (.tryCatch (.andThen hschema fun _ => .pure trivial) fun e => .pure trivial)
    fun r => ?_
  cases r with
  | some e => exact .pure trivial
  | none =>
    refine .andThen datetimeUtcnow_own fun now => .andThen (hconcepts _ _ _ _) fun r => ?_
    rcases r with ⟨ids, raised⟩
    cases raised with
    | some e => exact .pure trivial
    | none =>
      refine .andThen (.tryCatch ?_ fun e => .pure trivial) fun r => .pure trivial
      exact .andThen (redisSet_own _ _) fun _ => .andThen (redisSet_own _ _) fun _ =>
        .andThen (redisSet_own _ _) fun _ => .pure trivial

theorem rollbackAgentType_own (createdConceptIds : List String) :
    Own name P (fun _ => True) (rollbackAgentType name createdConceptIds) := by
  refine .andThen (.forM fun key hkey => ?_) fun _ => .forM fun id _ => execute_own _ _
  simp only [List.mem_cons, List.not_mem_nil, or_false] at hkey
  rcases hkey with rfl | rfl | rfl <;> exact redisDelete_own _

/-! ## Sessions -/

/-- If there is a session with the id, it is one of the agent type. -/
def Addressed (name sessionId : String) (sessions : String → Option SimulationSession) : Prop :=
  ∀ session, sessions sessionId = some session → session.agentTypeId = name

variable {sessionId : String} {Q : α → Prop}

/-- The session is there, or the code finds none. -/
theorem own_of_cases {m : Py α} (hheld : Own name (Holds name sessionId) Q m)
    (habsent : Own name (fun sessions => sessions sessionId = none) Q m) :
    Own name (Addressed name sessionId) Q m := by
  refine .split (fun w hw => ?_) hheld habsent (fun w hw session hs => ?_) fun w hw session hs => ?_
  · cases hs : w.sessions sessionId with
    | none => exact .inr hs
    | some session => exact .inl ⟨session, hs, hw session hs⟩
  · obtain ⟨session', hs', hname⟩ := hw
    rw [hs', Option.some.injEq] at hs
    exact hs ▸ hname
  · rw [hw] at hs
    cases hs

theorem getSession_own : Own name (Holds name sessionId)
    (fun session => session.agentTypeId = name) (getSession sessionId) := by
  refine .get (fun w hw => by simp only [World.only_sessions_of_holds hw]) fun w hw => ?_
  obtain ⟨session, hs, hname⟩ := hw
  simp only [hs]
  exact .pure hname

theorem getSession_absent : Own name (fun sessions => sessions sessionId = none) (fun _ => False)
    (getSession sessionId) := by
  refine .get (fun w hw => ?_) fun w hw => ?_
  · have hview : (w.only name).sessions sessionId = none := by simp [World.only, hw]
    simp only [hview, hw]
  · simp only [hw]
    exact .throw _

/-- Code that looks a session up goes on with one of the agent type, or not at all. -/
theorem withSession_own {g : SimulationSession → Py α}
    (h : ∀ session, session.agentTypeId = name → Own name (Holds name sessionId) Q (g session)) :
    Own name (Addressed name sessionId) Q (getSession sessionId >>= g) :=
  own_of_cases (.bind getSession_own h) (.bind getSession_absent fun _ h => h.elim)

theorem getSessionAgents_own :
    Own name (Holds name sessionId) (fun _ => True) (getSessionAgents sessionId) := by
  refine .get (fun w hw => by simp only [World.only_sessionAgents_of_holds hw]) fun w _ => ?_
  cases w.sessionAgents sessionId with
  | none => exact .throw _
  | some agents => exact .pure trivial

theorem putSession_own {session : SimulationSession} (h : session.agentTypeId = name) :
    Own name (Holds name sessionId) (fun _ => True) (putSession sessionId session) :=
  .modify (fun _ hw => (World.only_setSession hw h).symm) fun w _ => ⟨session, by simp, h⟩

theorem putSessionAgents_own (agents : List AgentContract) :
    Own name (Holds name sessionId) (fun _ => True) (putSessionAgents sessionId agents) :=
  .modify (fun _ hw => (World.only_setSessionAgents hw agents).symm) fun _ hw => hw

theorem submitTurn_own (turnInput : SimulationTurnInput) (toAgent : String)
    (messageFields : List String) : Own name (Addressed name sessionId) (fun _ => True)
      (submitTurn sessionId turnInput toAgent messageFields) := by
  refine withSession_own fun session hname => ?_
  split
  · exact .throw _
  · simp only
    split
    · exact .throw _
    · exact .andThen getSessionAgents_own fun agents => .andThen (putSession_own hname) fun _ =>
        .pure trivial

theorem resolveViolation_own (violationIndex : Int) (resolution : String)
    (clarification : Option String) : Own name (Addressed name sessionId) (fun _ => True)
      (resolveViolation sessionId violationIndex resolution clarification) := by
  refine withSession_own fun session hname => ?_
  cases session.turnHistory.getLast? with
  | none => exact .throw _
  | some lastTurn =>
    simp only
    split
    · exact .throw _
    · cases pyIndex lastTurn.violations.length violationIndex with
      | none => exact .throw _
      | some index =>
        simp only
        cases lastTurn.violations[index]? with
        | none => exact .throw _
        | some violation =>
          refine .andThen getSessionAgents_own fun agents => liftExcept_bind_own fun r =>
            .andThen (putSessionAgents_own _) fun _ => .andThen (putSession_own ?_) fun _ =>
            .pure trivial
          rw [← hname, SimulationSession.resolve]
          split <;> rfl

/-! ## Closing -/

theorem upsertAgentRole_own (agent : AgentContract) :
    Own name P (fun _ => True) (upsertAgentRole name agent) := by
  refine .andThen (execute_own _ _) fun rows => ?_
  cases rows.head? with
  | some id => exact execute_own _ _
  | none => exact .andThen uuid4_own fun _ => execute_own _ _

theorem writeHandoffEdges_own (session : SimulationSession) :
    Own name P (fun _ => True) (writeHandoffEdges name session) := by
  refine .andThen (.forM fun pair _ => .andThen (execute_own _ _) fun rows => ?_) fun _ =>
    .pure trivial
  cases rows.head? with
  | some _ => exact execute_own _ _
  | none => exact execute_own _ _

theorem flushSession_own : Own name (Addressed name sessionId)
    (fun summary => summary.agentType = name) (flushSession sessionId) := by
  refine withSession_own fun session hname => ?_
  subst hname
  split
  · exact .throw _
  · exact .andThen getSessionAgents_own fun agents =>
      .andThen (.forM fun agent _ => upsertAgentRole_own agent) fun _ =>
      .andThen (writeHandoffEdges_own session) fun _ => .andThen datetimeNow_own fun _ =>
      .andThen (putSession_own rfl) fun _ => .pure rfl

theorem openSession_own (proposal : ProposalArtifact) :
    Own name (fun _ => True) (fun _ => True) (openSession name proposal) := by
  refine fun w _ => ⟨?_, trivial, fun _ _ => trivial⟩
  let session := newSession (w.env.uuid w.tick).toText name proposal.version
    ⟨w.env.clock w.bump.tick, some 0⟩
  have hview : ((w.bump.bump.setSession session.id session).setSessionAgents session.id
      proposal.agents).only name = ((w.bump.bump.only name).setSession session.id
        session).setSessionAgents session.id proposal.agents :=
    World.only_openSession w.bump.bump rfl proposal.agents
  exact congrArg (Prod.mk _) hview.symm

/-! ## Every request -/

/-- A coroutine about the agent type: its segments mirror where `P` holds of the sessions, and its
statements where they insert no id of another agent type. -/
abbrev OwnCoro (name : String) (P : (String → Option SimulationSession) → Prop) (Q : α → Prop)
    (p : Coro α) : Prop :=
  Async.Mirrors (H := host) (fun w => w.only name) (fun w => P w.sessions)
    (fun q w => q.Fresh name w.pg) Q p

theorem lift_own {m : Py α} (h : Own name P Q m) : OwnCoro name P Q (Async.lift m) := .lift h

theorem sql_own_of {q : Sql} {Q : q.Resp → Prop} (h : q.About name)
    (hQ : ∀ w a, (World.serve q w).1 = .ok a → Q a) : OwnCoro name P Q (sql q) :=
  .call (fun _ _ hfresh => World.serve_only h hfresh) hQ

theorem sql_own {q : Sql} (h : q.About name) : OwnCoro name P (fun _ => True) (sql q) :=
  sql_own_of h fun _ _ _ => trivial

theorem withHttp_own {status : Exn → Option Nat} {p : Coro α} (h : OwnCoro name P Q p) :
    OwnCoro name P Q (withHttp status p) := .tryCatch h fun _ => .throw _

theorem getAgentTypeByName_own :
    OwnCoro name P (fun agent => agent.name = name) (getAgentTypeByName name) := by
  refine .bind (P := fun row => ∀ r, row = some r → r.name = name)
    (sql_own_of rfl fun w row hrow r hr => ?_) fun row hrow => ?_
  · obtain ⟨pg, hpg, -⟩ := World.serve_ok hrow
    have hfind : w.pg.agentTypes.find? (·.name = name) = row :=
      congrArg Prod.fst (Except.ok.inj hpg)
    simpa using List.find?_some (hfind.trans hr)
  · cases row with
    | none => exact .throw _
    | some row => exact lift_own (rowToResponse_own (hrow row rfl))

/-- A route that looks its agent type up goes on with the name it was given. -/
theorem named_own {g : AgentTypeResponse → Coro α}
    (h : ∀ agent, agent.name = name → OwnCoro name P Q (g agent)) :
    OwnCoro name P Q (getAgentTypeByName name >>= g) := .bind getAgentTypeByName_own h

theorem createAgentType_own {payload : AgentTypeCreate} (h : payload.name = name) :
    OwnCoro name P (fun _ => True) (createAgentType payload) := by
  subst h
  refine .andThen (lift_own uuid4_own) fun agentTypeId => .andThen (sql_own rfl) fun existing => ?_
  cases existing with
  | some id => exact .throw _
  | none =>
    refine .andThen (lift_own datetimeUtcnow_own) fun createdAt => .andThen (sql_own rfl) fun _ =>
      .andThen (lift_own (initializeAgentType_own rfl)) fun r => ?_
    obtain ⟨createdConceptIds, raised⟩ := r
    cases raised with
    | none => exact .andThen (lift_own datetimeUtcnow_own) fun now => .pure trivial
    | some e =>
      exact .andThen (lift_own (rollbackAgentType_own _)) fun _ =>
        .andThen (sql_own trivial) fun _ => .throw _

theorem getLatestProposal_own : OwnCoro name P (fun _ => True) (getLatestProposal name) :=
  .andThen (sql_own rfl) fun _ => .pure trivial

theorem generateProposal_own (agentGoal taskBoundary : String) (declaredTopology : TopologyType)
    (workflowParticipants : List String) (rejectionContext : Option String) :
    OwnCoro name P (fun _ => True) (generateProposal name agentGoal taskBoundary declaredTopology
      workflowParticipants rejectionContext) := by
  refine .andThen (lift_own (draftProposal_own _ _ _ _ _)) fun artifact =>
    .andThen (sql_own rfl) fun maxVersion => ?_
  cases parseUUID artifact.id with
  | error e => exact .throw _
  | ok id => exact .andThen (sql_own rfl) fun _ => .pure trivial

theorem requireMutableLatest_own : OwnCoro name P (fun _ => True) (requireMutableLatest name) := by
  refine .andThen getLatestProposal_own fun latest => ?_
  cases latest with
  | none => exact .throw _
  | some latest =>
    simp only
    split_ifs
    · exact .pure trivial
    · exact .throw _

theorem editTransaction_about (expertId : TextParam) (edits : ProposalArtifact) (version : Int)
    (signedAt createdAt : Datetime) : (Sql.transaction
      (editTransaction name expertId edits version signedAt createdAt)).About name := by
  intro wr hwr
  simp only [editTransaction, List.mem_cons, List.not_mem_nil, or_false] at hwr
  rcases hwr with h | h
  · cases h
    rfl
  · cases hid : parseUUID edits.id <;> rw [hid] at h <;> cases h
    rfl

theorem handleReview_own {agent : AgentTypeResponse} (h : agent.name = name) (body : ReviewBody) :
    OwnCoro name P (fun _ => True) (handleReview agent body) := by
  subst h
  unfold handleReview
  split
  · exact .andThen (lift_own (liftExcept_own _)) fun expertId =>
      .andThen requireMutableLatest_own fun latest => .andThen (lift_own datetimeNow_own) fun _ =>
      .andThen (sql_own rfl) fun _ => .pure trivial
  · exact .andThen (lift_own (liftExcept_own _)) fun expertId =>
      .andThen (lift_own (liftExcept_own _)) fun edits =>
      .andThen requireMutableLatest_own fun latest => .andThen (lift_own datetimeNow_own) fun _ =>
      .andThen (lift_own datetimeNow_own) fun _ =>
      .andThen (sql_own (editTransaction_about _ _ _ _ _)) fun _ => .pure trivial
  · exact .andThen (lift_own (liftExcept_own _)) fun rejectionReason =>
      .andThen requireMutableLatest_own fun latest => .andThen (sql_own rfl) fun _ =>
      generateProposal_own _ _ _ _ _
  · exact .throw _

theorem startSession_own :
    OwnCoro name (fun _ => True) (fun _ => True) (startSession name) := by
  refine .andThen (getLatestProposal_own (P := fun _ => True)) fun proposal => ?_
  cases proposal with
  | none => exact .throw _
  | some proposal =>
    simp only
    split_ifs
    · exact .throw _
    · exact lift_own (openSession_own proposal)

theorem closeSession_own : OwnCoro name (Addressed name sessionId) (fun _ => True)
    (closeSession sessionId) :=
  .bind (lift_own flushSession_own) fun _ hsummary => .andThen (sql_own hsummary) fun _ =>
    .pure trivial

/-- If the request addresses a session that is there, it is one of the agent type. -/
def Request.Addresses (request : Request) (name : String)
    (sessions : String → Option SimulationSession) : Prop :=
  match request with
  | .readSession sessionId | .turn sessionId .. | .resolve sessionId .. | .close sessionId =>
    Addressed name sessionId sessions
  | _ => True

instance (sessions : String → Option SimulationSession) :
    (request : Request) → Decidable (request.Addresses name sessions)
  | .readSession sessionId | .turn sessionId .. | .resolve sessionId .. | .close sessionId =>
    inferInstanceAs (Decidable (∀ session ∈ sessions sessionId, session.agentTypeId = name))
  | .create _ | .question _ | .readiness _ | .answer .. | .getProposal _ | .generateProposal ..
  | .reviewProposal .. | .createSession _ | .cert1Status _ | .cert1Approve .. | .cert1Reject .. =>
    isTrue trivial

theorem getNextQuestion_own : OwnCoro name P (fun _ => True) (getNextQuestion name) := by
  refine named_own fun agent hname => ?_
  subst hname
  refine .andThen (lift_own (liftExcept_own _)) fun _ => lift_own (.tryCatch ?_ fun e => ?_)
  · exact .map (generateQuestion_own _ _) fun _ _ => trivial
  · cases e with
    | noGapsRemaining agentType => exact .pure trivial
    | _ => exact .throw _

theorem submitAnswer_own (body : AnswerBody) :
    OwnCoro name P (fun _ => True) (submitAnswer name body) := by
  refine named_own fun agent hname => .andThen (lift_own (liftExcept_own _)) fun _ => ?_
  split
  · exact .throw _
  · split
    · exact .throw _
    · exact lift_own (handleAnswer_own hname hname)

theorem getProposal_own : OwnCoro name P (fun _ => True) (getProposal name) := by
  refine named_own fun agent hname => ?_
  subst hname
  refine .andThen getLatestProposal_own fun proposal => ?_
  cases proposal with
  | none => exact .pure trivial
  | some proposal => exact .andThen (lift_own (redisGet_own _)) fun _ => .pure trivial

theorem readSession_own :
    OwnCoro name (Addressed name sessionId) (fun _ => True) (readSession sessionId) := by
  refine withHttp_own (lift_own (own_of_cases ?_ ?_))
  · exact getSession_own.mono fun _ _ => trivial
  · exact getSession_absent.mono fun _ h => h.elim

theorem cert1Status_own : OwnCoro name P (fun _ => True) (cert1Status name) := by
  refine named_own fun agent hname => ?_
  subst hname
  exact .andThen (lift_own getAgentState_own) fun _ => .andThen (sql_own rfl) fun _ =>
    .andThen (sql_own rfl) fun _ => .pure trivial

theorem insertCertEvent_own {event : CertEvent} (h : event.agentType = name) :
    OwnCoro name P (fun _ => True) (insertCertEvent event) := sql_own h

theorem cert1Approve_own (body : CertApproveRequest) :
    OwnCoro name P (fun _ => True) (cert1Approve name body) := by
  refine named_own fun agent hname => withHttp_own ?_
  subst hname
  exact .bind (lift_own (openCertEvent_own _ _ _)) fun event hevent =>
    .andThen (insertCertEvent_own hevent) fun _ =>
    .andThen (lift_own (setAgentPhase_own _ _)) fun _ => .pure trivial

theorem cert1Reject_own (body : CertRejectRequest) :
    OwnCoro name P (fun _ => True) (cert1Reject name body) := by
  refine named_own fun agent hname => withHttp_own ?_
  subst hname
  exact .bind (lift_own (openCertEvent_own _ _ _)) fun event hevent =>
    .andThen (insertCertEvent_own hevent) fun _ => .pure trivial

/-- A request that names no other agent type mirrors where it addresses no session of another. -/
theorem handle_own {request : Request} (h : ∀ n, request.agentType = some n → n = name) :
    OwnCoro name (request.Addresses name) (fun _ => True) request.handle := by
  have hresponse {P : (String → Option SimulationSession) → Prop} {α : Type} {p : Coro α}
      {f : α → Response} (h : OwnCoro name P (fun _ => True) p) :
      OwnCoro name P (fun _ => True) (p >>= fun a => pure (f a)) :=
    .andThen h fun _ => .pure trivial
  cases request with
  | create payload => exact hresponse (withHttp_own (createAgentType_own (h _ rfl)))
  | readSession sessionId => exact hresponse readSession_own
  | turn sessionId turnInput toAgent messageFields =>
    exact hresponse (withHttp_own (lift_own (submitTurn_own _ _ _)))
  | resolve sessionId violationIndex resolution clarification =>
    exact hresponse (withHttp_own (lift_own (resolveViolation_own _ _ _)))
  | close sessionId => exact hresponse (withHttp_own closeSession_own)
  | question agentTypeId =>
    obtain rfl : agentTypeId = name := h _ rfl
    exact hresponse getNextQuestion_own
  | readiness agentTypeId =>
    obtain rfl : agentTypeId = name := h _ rfl
    exact hresponse (named_own fun agent hname => hname ▸ lift_own computeAndStore_own)
  | answer agentTypeId body =>
    obtain rfl : agentTypeId = name := h _ rfl
    exact hresponse (submitAnswer_own body)
  | getProposal agentTypeId =>
    obtain rfl : agentTypeId = name := h _ rfl
    exact hresponse getProposal_own
  | generateProposal agentType agentGoal taskBoundary declaredTopology workflowParticipants =>
    obtain rfl : agentType = name := h _ rfl
    exact hresponse (generateProposal_own _ _ _ _ _)
  | reviewProposal agentTypeId body =>
    obtain rfl : agentTypeId = name := h _ rfl
    exact hresponse (named_own fun agent hname => withHttp_own (handleReview_own hname body))
  | createSession agentTypeId =>
    obtain rfl : agentTypeId = name := h _ rfl
    exact hresponse (withHttp_own startSession_own)
  | cert1Status agentTypeId =>
    obtain rfl : agentTypeId = name := h _ rfl
    exact hresponse cert1Status_own
  | cert1Approve agentTypeId body =>
    obtain rfl : agentTypeId = name := h _ rfl
    exact hresponse (cert1Approve_own body)
  | cert1Reject agentTypeId body =>
    obtain rfl : agentTypeId = name := h _ rfl
    exact hresponse (cert1Reject_own body)

/-! ## All requests together -/

variable {ι : Type} [DecidableEq ι] {requests : ι → Request} {c : Loop host ι Response} {n : Nat}
  {mine : ι → Prop}

/-- The task that takes the next step addresses no session of another agent type, and inserts no id
of one. -/
def Within (requests : ι → Request) (name : String) (c : Loop host ι Response) (i : ι) : Prop :=
  (requests i).Addresses name c.store.sessions ∧
    ∀ q ∈ (c.tasks i).awaited, Sql.Fresh name q c.store.pg

instance (requests : ι → Request) (name : String) (c : Loop host ι Response) (i : ι) :
    Decidable (Within requests name c i) := inferInstanceAs (Decidable (_ ∧ _))

/-- A run that keeps an agent type apart is shadowed by one on what the agent type sees. -/
theorem Apart.shadowed (h : Apart requests name n c) {sched : List ι}
    (hticks : c.Meets (fun (c : Loop host ι Response) i => (c.step i).store.tick ≤ n) sched)
    (hmine : c.Meets (fun c i => mine i → Within requests name c i) sched)
    (hother : c.Meets (fun c i => ¬ mine i → ¬ (requests i).Concerns name c.store) sched) :
    c.Meets (Loop.Shadowed (fun w : World => w.only name) mine
      (fun i (w : World) => (requests i).Addresses name w.sessions)
      (fun (q : Sql) (w : World) => q.Fresh name w.pg) World.wait) sched := by
  induction sched generalizing c with
  | nil => trivial
  | cons i sched ih =>
    obtain ⟨hn, hticks⟩ := hticks
    obtain ⟨hwithin, hmine⟩ := hmine
    obtain ⟨hapart, hother⟩ := hother
    refine ⟨⟨hwithin, fun hi => ?_⟩, ih (h.step hn) hticks hmine hother⟩
    have hsame : SameTenant name c.store (c.step i).store := h.sameTenant hn (hapart hi)
    exact ⟨_, hsame.only (h.serves.persists i)⟩

/-- Whatever requests are made, in whatever interleaving and with whatever failures: the requests
about a registered agent type are answered as by a service that holds nothing but that agent type
and gets no other requests, and leave behind what they leave there. To such a service the others
are the passing of time. The ids that are inserted must not be taken by another agent type, which
an expert who edits a proposal, and gives its id, has to see to. -/
theorem agent_type_has_own_service (w : World) (hdrawn : SessionsDrawn w) (requests : ι → Request)
    (name : String) (hregistered : Registered name w) (mine : ι → Prop) [DecidablePred mine]
    (hnames : ∀ i, mine i → ∀ n, (requests i).agentType = some n → n = name) (sched : List ι)
    (hdistinct : DistinctDraws w.env UUID.toText ((serving w requests).run sched).store.tick)
    (hmine : (serving w requests).Meets (fun c i => mine i → Within requests name c i) sched)
    (hother : (serving w requests).Meets
      (fun c i => ¬ mine i → ¬ (requests i).Concerns name c.store) sched) :
    ∃ acts : List (ι ⊕ Nat), acts.filterMap Sum.getLeft? = sched.filter mine ∧
      Loop.Shadow (fun w : World => w.only name) mine ((serving w requests).run sched)
        ((serving (w.only name) requests).runActs World.wait acts) := by
  have hticks := (serves_serving w requests).ticks
    (le_refl ((serving w requests).run sched).store.tick)
  have hapart : Apart requests name _ (serving w requests) :=
    apart_serving hdrawn hdistinct hregistered
  have hshadow : Loop.Shadow (fun w : World => w.only name) mine (serving w requests)
      (serving (w.only name) requests) := ⟨rfl, fun _ _ => rfl⟩
  refine Loop.shadow_run hshadow (fun i hi => ?_) (hapart.shadowed hticks hmine hother)
  exact handle_own (hnames i hi)

/-- The readiness of an agent type is asked for while another one is created. -/
theorem agent_type_has_own_service_shop :
    ∃ acts : List (Bool ⊕ Nat), acts.filterMap Sum.getLeft? = [true, true, true] ∧
      Loop.Shadow (fun w : World => w.only "shop") (· = true)
        ((serving Sample.withShop Sample.bakery).run [true, false, false, true, false, true])
        ((serving (Sample.withShop.only "shop") Sample.bakery).runActs World.wait acts) :=
  agent_type_has_own_service Sample.withShop (fun _ _ h => by cases h) Sample.bakery "shop"
    ⟨Sample.shopRow, List.mem_cons_self, rfl⟩ (· = true)
    (by
      rintro i rfl n hn
      exact (Option.some.inj hn).symm)
    [true, false, false, true, false, true] (by decide +kernel) (by decide +kernel)
    (.of_forall (fun c i hi => by
      obtain rfl : i = false := by simpa using hi
      rintro (hname | ⟨_, _, hsession, -⟩)
      · simp [Sample.bakery, Request.agentType, Sample.shop] at hname
      · cases hsession) _ _)

end AgentWorx
