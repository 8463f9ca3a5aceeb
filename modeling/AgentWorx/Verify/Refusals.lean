import AgentWorx.Lib.Declining
import AgentWorx.Verify.Requests
import AgentWorx.Verify.Sample
import AgentWorx.Verify.Statements

/-!
# Requests that are turned down

A request that is answered with a status code below 500 has changed nothing, and neither has one
that only reads, whatever the other requests do in the meantime. The exceptions that a route maps to
such a code are raised by its checks, before its first write; what a store or the language model
raises later has no such code.
-/

namespace AgentWorx

open Coop Coop.Sync

/-! ## Exceptions -/

namespace Exn

/-- Some route answers the exception, and only this kind, with a status code of its own. -/
def Routed : Exn → Prop
  | .agentTypeAlreadyExists _ | .noProposalFound _ | .proposalAlreadyApproved _ _
  | .agentNotInPhase _ _ _ | .sessionNotFound _ | .sessionPausedForViolation _ _ | .http _ _ => True
  | _ => False

/-- A store has raised the exception. -/
def OfStore : Exn → Prop
  | .storeDown _ | .kuzuError _ | .dataError _ | .uniqueViolation _ => True
  | _ => False

/-- The response has a status code below 500. -/
def Refuses : Exn → Prop
  | .http statusCode _ => statusCode < 500
  | _ => False

theorem OfStore.unrouted {e : Exn} (h : e.OfStore) : ¬ e.Routed := by
  cases e <;> first | exact id | exact h.elim

theorem Refuses.routed {e : Exn} (h : e.Refuses) : e.Routed := by
  cases e <;> first | exact trivial | exact h.elim

end Exn

/-- The client of the language model, and the code that decodes its replies, raise exceptions of
their own. -/
structure Env.Foreign (env : Env) : Prop where
  reply : ∀ n prompt e, env.reply n prompt = .error e → ¬ e.Routed
  loadProposal : ∀ text e, env.loadProposal text = .error e → ¬ e.Routed
  topology : ∀ text parsed e, env.loadProposal text = .ok parsed → parsed.topology = .error e →
    ¬ e.Routed
  agents : ∀ text parsed e, env.loadProposal text = .ok parsed → parsed.agents = .error e →
    ¬ e.Routed
  contracts : ∀ text parsed e, env.loadProposal text = .ok parsed → parsed.contracts = .error e →
    ¬ e.Routed
  rationalePerAgent : ∀ text parsed e, env.loadProposal text = .ok parsed →
    parsed.rationalePerAgent = .error e → ¬ e.Routed
  rationalePerContract : ∀ text parsed e, env.loadProposal text = .ok parsed →
    parsed.rationalePerContract = .error e → ¬ e.Routed

/-- The outside of the process is `env`. -/
def InEnv (env : Env) (w : World) : Prop := w.env = env

variable {env : Env} {α β : Type} {Q : α → Prop} {E : Exn → Prop}

/-! ## Calls of the stores -/

theorem liftExcept_results {r : Except Exn α} (hok : ∀ a, r = .ok a → Q a)
    (herror : ∀ e, r = .error e → E e) : Results (InEnv env) Q E (liftExcept r) := by
  intro w hw
  cases r with
  | ok a => exact ⟨hw, hok a rfl⟩
  | error e => exact ⟨hw, herror e rfl⟩

theorem uuid4_results : Results (InEnv env) (fun _ => True) E uuid4 := fun _ hw => ⟨hw, trivial⟩

theorem datetimeNow_results : Results (InEnv env) (fun _ => True) E datetimeNow :=
  fun _ hw => ⟨hw, trivial⟩

theorem datetimeUtcnow_results : Results (InEnv env) (fun _ => True) E datetimeUtcnow :=
  fun _ hw => ⟨hw, trivial⟩

/-- A call of Redis raises only if the store is down. -/
theorem callRedis_results {act : World → Except Exn α × World} (hE : E (.storeDown .redis))
    (hact : ∀ w, ∃ a w', act w = (.ok a, w') ∧ w'.env = w.env) :
    Results (InEnv env) (fun _ => True) E (fun w => w.call .redis act : Py α) := by
  intro w hw
  simp only [Triple, exec, World.call]
  split_ifs
  · exact ⟨hw, hE⟩
  · obtain ⟨a, w', he, henv⟩ := hact w.bump
    rw [he]
    exact ⟨henv.trans hw, trivial⟩

theorem redisSet_results {key : String} {value : RedisValue} (hE : E (.storeDown .redis)) :
    Results (InEnv env) (fun _ => True) E (redisSet key value) :=
  callRedis_results hE fun _ => ⟨_, _, rfl, rfl⟩

theorem redisDelete_results {key : String} (hE : E (.storeDown .redis)) :
    Results (InEnv env) (fun _ => True) E (redisDelete key) :=
  callRedis_results hE fun _ => ⟨_, _, rfl, rfl⟩

/-- The exceptions of the graph store, and of the check of the name where that can fail. -/
structure OnGraph (name : String) (E : Exn → Prop) : Prop where
  store : ∀ e, e.OfStore → E e
  name : matchesAgentTypePattern name = true ∨ ∀ message, E (.valueError message)

theorem OnGraph.unrouted (name : String) : OnGraph name fun e => ¬ e.Routed :=
  ⟨fun _ h => h.unrouted, .inr fun _ => id⟩

theorem execute_results {name : String} {stmt : Cypher α} {params : List String}
    (hE : OnGraph name E) (hstmt : ∀ g e, stmt.eval g = .error e → e.OfStore) :
    Results (InEnv env) (fun _ => True) E (execute name stmt params) := by
  intro w hw
  simp only [Triple, exec, execute, World.call, Cypher.execute]
  split_ifs with hname _ hstrict htable
  · exact ⟨hw, hE.store _ trivial⟩
  · exact ⟨hw, hE.store _ trivial⟩
  · exact ⟨hw, hE.store _ trivial⟩
  · cases heval : stmt.eval (w.bump.graphs name) with
    | error e => exact ⟨hw, hE.store e (hstmt _ e heval)⟩
    | ok r => exact ⟨hw, trivial⟩
  · exact ⟨hw, hE.name.resolve_left hname _⟩

theorem query_results {name : String} {mentions : List String} {tables : List GraphTable}
    {f : Graph → α} {params : List String} (hE : OnGraph name E) :
    Results (InEnv env) (fun _ => True) E (execute name (.query mentions tables f) params) :=
  execute_results hE fun _ _ h => by cases h

theorem update_results {name : String} {mentions : List String} {tables : List GraphTable}
    {f : Graph → Graph} {params : List String} (hE : OnGraph name E) :
    Results (InEnv env) (fun _ => True) E (execute name (.update mentions tables f) params) :=
  execute_results hE fun _ _ h => by cases h

theorem createConcept_ofStore {concept : Concept} {g : Graph} {e : Exn}
    (h : (createConcept concept).eval g = .error e) : e.OfStore := by
  simp only [createConcept] at h
  split_ifs at h
  cases h
  trivial

theorem deleteConcept_ofStore {id : String} {g : Graph} {e : Exn}
    (h : (deleteConcept id).eval g = .error e) : e.OfStore := by
  simp only [deleteConcept] at h
  split_ifs at h
  cases h
  trivial

theorem createRole_ofStore {id : String} {agent : AgentContract} {g : Graph} {e : Exn}
    (h : (createRole id agent).eval g = .error e) : e.OfStore := by
  simp only [createRole] at h
  split_ifs at h
  cases h
  trivial

/-! ## Segments -/

theorem findClusters_results {agentType : String} (hE : OnGraph agentType E)
    (hvalue : ∀ message, E (.valueError message)) :
    Results (InEnv env) (fun _ => True) E (findClusters agentType) := by
  refine .bind' (query_results hE) fun nodes => ?_
  split
  · exact .pure trivial
  · refine .bind' (query_results hE) fun edges => ?_
    split
    · exact .pure trivial
    · exact .throw (hvalue _)

theorem validateRationaleCoverage_error {artifact : ProposalArtifact} {e : Exn}
    (h : validateRationaleCoverage artifact = .error e) : ∃ message, e = .valueError message := by
  simp only [validateRationaleCoverage] at h
  split_ifs at h
  cases h
  exact ⟨_, rfl⟩

theorem messagesCreate_results (henv : env.Foreign) (prompt : Prompt) :
    Results (InEnv env) (fun _ => True) (fun e => ¬ e.Routed) (messagesCreate prompt) := by
  intro w hw
  rcases hreply : w.env.reply w.tick prompt with e | text
  · have he : (messagesCreate prompt).exec w = (.error e, w.bump) := congrArg (·, w.bump) hreply
    rw [Triple, he]
    exact ⟨hw, henv.reply w.tick prompt e (hw ▸ hreply)⟩
  · have he : (messagesCreate prompt).exec w = (.ok text, w.bump) := congrArg (·, w.bump) hreply
    rw [Triple, he]
    exact ⟨hw, trivial⟩

/-- A proposal that cannot be drafted is no reason to turn a request down. -/
theorem draftProposal_results (henv : env.Foreign) (agentType agentGoal taskBoundary : String)
    (declaredTopology : TopologyType) (workflowParticipants : List String)
    (rejectionContext : Option String) :
    Results (InEnv env) (fun _ => True) (fun e => ¬ e.Routed) (draftProposal agentType agentGoal
      taskBoundary declaredTopology workflowParticipants rejectionContext) := by
  have hgraph := OnGraph.unrouted agentType
  have hedges (clusters : List Cluster) : Results (InEnv env) (fun _ => True)
      (fun e => ¬ e.Routed) (findCrossClusterEdges agentType clusters) :=
    .bind' (query_results hgraph) fun _ => .pure trivial
  refine .bind' (findClusters_results hgraph fun _ => id) fun clusters => .bind' (hedges _)
    fun crossEdges => .bind' (messagesCreate_results henv _) fun text => ?_
  refine .bind (Q := InEnv env) (.get fun _ hw => hw) fun w (hw : w.env = env) => ?_
  refine .bind (Q := fun parsed => env.loadProposal (stripJsonFence text) = .ok parsed)
    (liftExcept_results (fun _ h => hw ▸ h) fun e h => henv.loadProposal _ e (hw ▸ h))
    fun parsed hparsed => ?_
  refine .bind' (liftExcept_results (fun _ _ => trivial) fun e h =>
    henv.topology _ _ e hparsed h) fun topology => ?_
  refine .bind' (liftExcept_results (fun _ _ => trivial) fun e h =>
    henv.agents _ _ e hparsed h) fun agents => ?_
  refine .bind' (liftExcept_results (fun _ _ => trivial) fun e h =>
    henv.contracts _ _ e hparsed h) fun contracts => ?_
  refine .bind' (liftExcept_results (fun _ _ => trivial) fun e h =>
    henv.rationalePerAgent _ _ e hparsed h) fun perAgent => ?_
  refine .bind' (liftExcept_results (fun _ _ => trivial) fun e h =>
    henv.rationalePerContract _ _ e hparsed h) fun perContract => ?_
  refine .bind' uuid4_results fun u => .bind' datetimeNow_results fun createdAt => ?_
  refine .bind' (liftExcept_results (fun _ _ => trivial) fun e h => ?_) fun _ => .pure trivial
  obtain ⟨message, rfl⟩ := validateRationaleCoverage_error h
  exact id

theorem initializeSchema_results {name : String} (hE : OnGraph name E) :
    Results (InEnv env) (fun _ => True) E (initializeSchema name) := by
  refine .forM fun ddl hddl => execute_results hE fun g e h => ?_
  obtain ⟨t, -, rfl⟩ := List.mem_map.mp hddl
  cases h

theorem initializeAgentType_results (payload : AgentTypeCreate) :
    Results (InEnv env) (fun r => ∀ e ∈ r.2, ¬ e.Routed) E (initializeAgentType payload) := by
  have hgraph := OnGraph.unrouted payload.name
  have hconcepts (now : Datetime) (topics : List String) (index : Nat) (ids : List String) :
      Results (InEnv env) (fun r => ∀ e ∈ r.2, ¬ e.Routed) E
        (createRootConcepts payload.name now topics index ids) := by
    induction topics generalizing index ids with
    | nil => exact .pure (by simp)
    | cons topic topics ih =>
      refine .bind' uuid4_results fun u => ?_
      refine .bind (.attempt (.bind' (execute_results hgraph fun _ _ => createConcept_ofStore)
        fun _ => .pure rfl)) fun r hr => ?_
      cases r with
      | none => exact ih _ _
      | some e => exact .pure hr
  refine .bind (.attempt (.bind' (initializeSchema_results hgraph) fun _ => .pure rfl))
    fun r hr => ?_
  cases r with
  | some e => exact .pure hr
  | none =>
    refine .bind' datetimeUtcnow_results fun now => .bind (hconcepts _ _ _ _) fun r hr => ?_
    obtain ⟨ids, raised⟩ := r
    cases raised with
    | some e => exact .pure hr
    | none =>
      have hset (key : String) (value : RedisValue) : Results (InEnv env) (fun _ => True)
          (fun e => ¬ e.Routed) (redisSet key value) := redisSet_results id
      refine .bind (.attempt ?_) fun r hr => .pure hr
      exact .bind' (hset _ _) fun _ => .bind' (hset _ _) fun _ => .bind' (hset _ _) fun _ =>
        .pure rfl

theorem rollbackAgentType_results (name : String) (createdConceptIds : List String) :
    Results (InEnv env) (fun _ => True) (fun e => ¬ e.Routed)
      (rollbackAgentType name createdConceptIds) :=
  .bind' (.forM fun _ _ => redisDelete_results id) fun _ => .forM fun _ _ =>
    execute_results (OnGraph.unrouted name) fun _ _ => deleteConcept_ofStore

theorem proportion_check_unrouted {model : String} {q : ℚ} {e : Exn}
    (h : Proportion.check model q = .error e) : ¬ e.Routed := by
  simp only [Proportion.check] at h
  split_ifs at h
  cases h
  exact id

theorem computeAndStore_results (agentType : String) :
    Results (InEnv env) (fun _ => True) (fun e => ¬ e.Routed) (computeAndStore agentType) := by
  have hgraph := OnGraph.unrouted agentType
  have hcoverage : Results (InEnv env) (fun _ => True) (fun e => ¬ e.Routed)
      (computeNodeCoverage agentType) := by
    refine .bind' (query_results hgraph) fun taskConcepts => ?_
    split
    · exact .pure trivial
    · exact .bind' (query_results hgraph) fun _ => .pure trivial
  have hdensity : Results (InEnv env) (fun _ => True) (fun e => ¬ e.Routed)
      (computeEdgeDensity agentType) := by
    refine .bind' (query_results hgraph) fun nodeCount => ?_
    split
    · exact .pure trivial
    · exact .bind' (query_results hgraph) fun _ => .pure trivial
  have hmean : Results (InEnv env) (fun _ => True) (fun e => ¬ e.Routed)
      (computeConfidenceMean agentType) := by
    refine .bind' (query_results hgraph) fun confidences => ?_
    split
    · exact .pure trivial
    · exact .pure trivial
  have hcheck (q : ℚ) : Results (InEnv env) (fun _ => True) (fun e => ¬ e.Routed)
      (liftExcept (Proportion.check "ReadinessScore" q)) :=
    liftExcept_results (fun _ _ => trivial) fun _ => proportion_check_unrouted
  have hset (key : String) (value : RedisValue) : Results (InEnv env) (fun _ => True)
      (fun e => ¬ e.Routed) (redisSet key value) := redisSet_results id
  refine .bind' hcoverage fun _ => .bind' hdensity fun _ => .bind' hmean fun _ =>
    .bind' (.get fun _ _ => trivial) fun _ => .bind' datetimeNow_results fun _ =>
    .bind' (hcheck _) fun _ => .bind' (hcheck _) fun _ => .bind' (hcheck _) fun _ =>
    .bind' (hcheck _) fun _ => ?_
  exact .bind' (hset _ _) fun _ => .bind' (hset _ _) fun _ => .bind' (hset _ _) fun _ =>
    .pure trivial

theorem writeToGraph_results (agentType : String) (result : AnswerProcessorResult)
    (isFollowup : Bool) :
    Results (InEnv env) (fun _ => True) (fun e => ¬ e.Routed)
      (writeToGraph agentType result isFollowup) := by
  have hgraph := OnGraph.unrouted agentType
  have hentity (entity : ExtractedEntity) (now : Datetime) (summary : WriteSummary) :
      Results (InEnv env) (fun _ => True) (fun e => ¬ e.Routed)
        (findOrCreateConcept agentType entity now summary) := by
    refine .bind' (query_results hgraph) fun rows => ?_
    cases rows.head? with
    | some row =>
      simp only
      split
      · exact .bind' (update_results hgraph) fun _ => .pure trivial
      · exact .pure trivial
    | none =>
      exact .bind' uuid4_results fun _ => .bind' (execute_results hgraph fun _ _ =>
        createConcept_ofStore) fun _ => .pure trivial
  have hresolve (label : String) : Results (InEnv env) (fun _ => True) (fun e => ¬ e.Routed)
      (resolveConceptId agentType label) := .bind' (query_results hgraph) fun _ => .pure trivial
  have hlookup (labelToId : Dict) (label : String) : Results (InEnv env) (fun _ => True)
      (fun e => ¬ e.Routed) (lookupConceptId agentType labelToId label) := by
    unfold lookupConceptId
    split
    · split
      · exact hresolve label
      · exact .pure trivial
    · exact hresolve label
  have hrelation (relation : ExtractedRelation) (confidence : ℚ) (labelToId : Dict)
      (summary : WriteSummary) : Results (InEnv env) (fun _ => True) (fun e => ¬ e.Routed)
        (upsertRelation agentType relation confidence labelToId summary) := by
    refine .bind' (hlookup _ _) fun sourceId => .bind' (hlookup _ _) fun targetId => ?_
    cases sourceId with
    | none => exact .pure trivial
    | some sourceId =>
      cases targetId with
      | none => exact .pure trivial
      | some targetId =>
        refine .bind' (query_results hgraph) fun rows => ?_
        cases rows.head? with
        | some row => exact .bind' (update_results hgraph) fun _ => .pure trivial
        | none => exact .bind' (update_results hgraph) fun _ => .pure trivial
  have hentities (now : Datetime) (entities : List ExtractedEntity) (acc : Dict × WriteSummary) :
      Results (InEnv env) (fun _ => True) (fun e => ¬ e.Routed)
        (writeEntities agentType now entities acc) := by
    induction entities generalizing acc with
    | nil => exact .pure trivial
    | cons entity entities ih => exact .bind' (hentity _ _ _) fun _ => ih _
  have hrelations (labelToId : Dict) (relations : List ExtractedRelation)
      (summary : WriteSummary) : Results (InEnv env) (fun _ => True) (fun e => ¬ e.Routed)
        (writeRelations agentType isFollowup labelToId relations summary) := by
    induction relations generalizing summary with
    | nil => exact .pure trivial
    | cons relation relations ih => exact .bind' (hrelation _ _ _ _) fun _ => ih _
  unfold writeToGraph
  split
  · exact .throw id
  · exact .bind' datetimeNow_results fun now => .bind' (hentities now _ _) fun acc =>
      hrelations acc.1 _ acc.2

/-- The statements of a flush raise what the graph store raises. -/
theorem flush_results {agentType : String} (hname : matchesAgentTypePattern agentType = true)
    (agents : List AgentContract) (session : SimulationSession) :
    Results (InEnv env) (fun _ => True) Exn.OfStore
        (agents.forM (upsertAgentRole agentType)) ∧
      Results (InEnv env) (fun _ => True) Exn.OfStore (writeHandoffEdges agentType session) := by
  have hgraph : OnGraph agentType Exn.OfStore := ⟨fun _ h => h, .inl hname⟩
  refine ⟨.forM fun agent _ => ?_, .bind' (.forM fun pair _ => ?_) fun _ => .pure trivial⟩
  · refine .bind' (query_results hgraph) fun rows => ?_
    cases rows.head? with
    | some id => exact update_results hgraph
    | none =>
      exact .bind' uuid4_results fun u => execute_results hgraph fun _ _ => createRole_ofStore
  · refine .bind' (query_results hgraph) fun rows => ?_
    cases rows.head? with
    | some _ => exact update_results hgraph
    | none => exact update_results hgraph

/-- A name that the graph store refuses is refused by every statement. -/
theorem execute_name_refused {name : String} (hname : ¬ matchesAgentTypePattern name = true)
    (stmt : Cypher α) (params : List String) : Keeps Idle (execute name stmt params) := by
  intro w
  simp only [exec, execute, if_neg hname]
  exact refl_of Idle w

theorem flushSession_refused (sessionId : String) (w : World) :
    Triple (flushSession sessionId) w (fun _ _ => True) fun e w' => ¬ e.OfStore → Idle w w' := by
  have hsession : Triple (getSession sessionId) w (fun _ w' => w' = w)
      fun e w' => ¬ e.OfStore → Idle w w' := by
    rcases getSession_cases sessionId w with ⟨session, -, he⟩ | ⟨-, he⟩ <;> rw [Triple, he]
    exact fun _ => refl_of Idle w
  refine .bind hsession fun session w1 hw1 => ?_
  subst hw1
  split_ifs
  · exact .throw fun _ => refl_of Idle w1
  have hagents : Triple (getSessionAgents sessionId) w1 (fun _ w' => w' = w1)
      fun e w' => ¬ e.OfStore → Idle w1 w' := by
    rcases getSessionAgents_cases sessionId w1 with ⟨agents, -, he⟩ | ⟨-, he⟩ <;> rw [Triple, he]
    exact fun _ => refl_of Idle w1
  refine .bind hagents fun agents w2 hw2 => ?_
  subst hw2
  by_cases hname : matchesAgentTypePattern session.agentTypeId = true
  · obtain ⟨hroles, hedges⟩ := @flush_results w2.env _ hname agents session
    have hstore {α : Type} {m : Py α} {w : World}
        (hm : Results (InEnv w2.env) (fun _ => True) Exn.OfStore m) (hw : InEnv w2.env w) :
        Triple m w (fun _ w' => InEnv w2.env w') fun e w' => ¬ e.OfStore → Idle w2 w' :=
      (hm w hw).mono (fun _ _ h => h.1) fun e _ h hno => absurd h.2 hno
    exact .bind (hstore hroles rfl) fun _ w3 hw3 => .bind (hstore hedges hw3) fun _ w4 _ =>
      .bind (M := fun _ _ => True) trivial fun _ w5 _ => .bind (M := fun _ _ => True) trivial
        fun _ w6 _ => .pure trivial
  · have hrole : Keeps Idle (agents.forM (upsertAgentRole session.agentTypeId)) := by
      refine .forM fun agent _ => .bind (execute_name_refused hname _ _) fun rows => ?_
      cases rows.head? with
      | some id => exact execute_name_refused hname _ _
      | none => exact .bind keeps_uuid4 fun u => execute_name_refused hname _ _
    have hedges : Keeps Idle (writeHandoffEdges session.agentTypeId session) := by
      refine .bind (.forM fun pair _ => .bind (execute_name_refused hname _ _) fun rows => ?_)
        fun _ => .pure _
      cases rows.head? with
      | some _ => exact execute_name_refused hname _ _
      | none => exact execute_name_refused hname _ _
    have hidle {α : Type} {m : Py α} {w : World} (hm : Keeps Idle m) (hw : Idle w2 w) :
        Triple m w (fun _ w' => Idle w2 w') fun e w' => ¬ e.OfStore → Idle w2 w' :=
      (Triple.of_keeps hm w).mono (fun _ _ h => trans_of Idle hw h)
        fun _ _ h _ => trans_of Idle hw h
    exact .bind (hidle hrole (refl_of Idle w2)) fun _ w3 hw3 => .bind (hidle hedges hw3)
      fun _ w4 _ => .bind (M := fun _ _ => True) trivial fun _ w5 _ =>
        .bind (M := fun _ _ => True) trivial fun _ w6 _ => .pure trivial

/-- An answer that cannot be processed leaves nothing behind. -/
theorem handleAnswer_refused (agent : AgentTypeResponse) (payload : AnswerProcessorInput)
    (w : World) : Triple (handleAnswer agent payload) w (fun _ _ => True)
      fun e w' => e.Routed → Idle w w' := by
  refine .bind (M := fun _ w' => Idle w w') ((Triple.of_keeps (keeps_processAnswer payload) w).mono
    (fun _ _ h => h) fun _ _ h _ => h) fun result w1 hw1 => ?_
  have hstore {α : Type} {m : Py α} {w2 : World}
      (hm : Results (InEnv w.env) (fun _ => True) (fun e => ¬ e.Routed) m)
      (hw2 : InEnv w.env w2) :
      Triple m w2 (fun _ w' => InEnv w.env w') fun e w' => e.Routed → Idle w w' :=
    (hm w2 hw2).mono (fun _ _ h => h.1) fun e _ h he => absurd he h.2
  have henv : InEnv w.env w1 := by
    rw [hw1]
    rfl
  cases result.status with
  | write =>
    exact .bind (hstore (writeToGraph_results _ _ _) henv) fun _ w2 hw2 =>
      .bind (hstore (computeAndStore_results _) hw2) fun _ w3 _ => .pure trivial
  | followUp =>
    exact .bind (M := fun _ _ => True) ((Triple.of_keeps (keeps_generateFollowup _ _ _ _ _)
      w1).mono (fun _ _ _ => trivial) fun _ _ h _ => trans_of Idle hw1 h) fun _ w2 _ =>
        .pure trivial
  | conflict => exact .pure trivial

/-! ## Statements -/

theorem serve_error_idle {q : Sql} {w : World} {e : Exn} (h : (World.serve q w).1 = .error e) :
    Idle w (World.serve q w).2 := by
  rcases World.serve_cases q w with ⟨e', he⟩ | ⟨a, pg, -, he⟩ <;> rw [he] at h ⊢
  · exact Ticks.tick w
  · cases h

theorem encode_ofStore {p : TextParam} {e : Exn} (h : p.encode = .error e) : e.OfStore := by
  cases p <;> cases h
  trivial

theorem encodeVarchar_ofStore {n : Nat} {p : TextParam} {e : Exn}
    (h : p.encodeVarchar n = .error e) : e.OfStore := by
  cases p with
  | text s =>
    simp only [TextParam.encodeVarchar] at h
    split_ifs at h
    cases h
    trivial
  | null => cases h
  | other => exact @encode_ofStore .other e h

theorem checkLength_ofStore {n : Nat} {s : String} {e : Exn}
    (h : Postgres.checkLength n s = .error e) : e.OfStore := by
  simp only [Postgres.checkLength] at h
  split_ifs at h
  cases h
  trivial

theorem checkInt_ofStore {n : Int} {e : Exn} (h : Postgres.checkInt n = .error e) :
    e.OfStore := by
  simp only [Postgres.checkInt] at h
  split_ifs at h
  cases h
  trivial

theorem checkUnique_ofStore {constraint : String} {violated : Bool} {e : Exn}
    (h : Postgres.checkUnique constraint violated = .error e) : e.OfStore := by
  simp only [Postgres.checkUnique] at h
  split_ifs at h
  cases h
  trivial

theorem write_ofStore {pg : Postgres} {wr : SqlWrite} {e : Exn} (h : pg.write wr = .error e) :
    e.OfStore := by
  cases wr with
  | insertAgentType row =>
    simp only [Postgres.write, except_bind_eq_error] at h
    rcases h with h | ⟨_, -, h | ⟨_, -, h | ⟨_, -, h⟩⟩⟩
    · exact checkLength_ofStore h
    · exact checkUnique_ofStore h
    · exact checkUnique_ofStore h
    · cases h
  | deleteAgentType id => cases h
  | approveComposition expertSignature signedAt agentType version =>
    simp only [Postgres.write, except_bind_eq_error] at h
    rcases h with h | ⟨_, -, h⟩
    · exact encodeVarchar_ofStore h
    · cases h
  | archiveComposition agentType version => cases h
  | rejectComposition rejectionReason agentType version =>
    simp only [Postgres.write, except_bind_eq_error] at h
    rcases h with h | ⟨_, -, h⟩
    · exact encode_ofStore h
    · cases h
  | insertComposition row expertSignature =>
    simp only [Postgres.write, except_bind_eq_error] at h
    rcases h with h | ⟨_, -, h | ⟨_, -, h | ⟨_, -, h | ⟨_, -, h | ⟨_, -, h⟩⟩⟩⟩⟩
    · exact encodeVarchar_ofStore h
    · exact checkLength_ofStore h
    · exact checkInt_ofStore h
    · exact checkUnique_ofStore h
    · exact checkUnique_ofStore h
    · cases h
  | insertCertEvent row =>
    simp only [Postgres.write, except_bind_eq_error] at h
    rcases h with h | ⟨_, -, h | ⟨_, -, h | ⟨_, -, h⟩⟩⟩
    · exact checkLength_ofStore h
    · exact checkLength_ofStore h
    · exact checkUnique_ofStore h
    · cases h
  | insertSimulationSessionSummary row =>
    simp only [Postgres.write, except_bind_eq_error] at h
    rcases h with h | ⟨_, -, h | ⟨_, -, h⟩⟩
    · exact checkLength_ofStore h
    · exact checkLength_ofStore h
    · cases h

/-- A statement of its own raises what Postgres raises. -/
theorem serve_ofStore {q : Sql} {w : World} {e : Exn}
    (hq : ∀ ws, q ≠ .transaction ws) (h : (World.serve q w).1 = .error e) : e.OfStore := by
  unfold World.serve World.call at h
  split_ifs at h
  · cases h
    trivial
  · simp only [World.bump_pg] at h
    cases heval : w.pg.eval q with
    | ok r =>
      rw [heval] at h
      cases h
    | error e' =>
      rw [heval] at h
      cases h
      cases q with
      | execute wr =>
        simp only [Postgres.eval] at heval
        cases hwrite : w.pg.write wr with
        | ok pg =>
          rw [hwrite] at heval
          cases heval
        | error e'' =>
          rw [hwrite] at heval
          cases heval
          exact write_ofStore hwrite
      | transaction ws => exact absurd rfl (hq ws)
      | _ => cases heval

/-! ## Requests -/

/-- A code below 500 stands for an exception that a route names. -/
theorem toHttp_refuses {status : Exn → Option Nat} {e : Exn} {E : Exn → Prop}
    (hstatus : ∀ code, status e = some code → code < 500 → E e) (hnone : e.Refuses → E e)
    (h : (toHttp status e).Refuses) : E e := by
  unfold toHttp at h
  cases hs : status e with
  | none =>
    rw [hs] at h
    exact hnone h
  | some code =>
    rw [hs] at h
    exact hstatus code hs h

theorem withHttp_declines {status : Exn → Option Nat} {p : Coro α}
    (hstatus : ∀ e code, status e = some code → code < 500 → E e)
    (hnone : ∀ e : Exn, e.Refuses → E e) (hp : Async.Declines (InEnv env) Idle E p) :
    Async.Declines (InEnv env) Idle Exn.Refuses (withHttp status p) :=
  .tryCatch (hp.mono fun e => toHttp_refuses (hstatus e) (hnone e))

theorem lift_harmless {m : Py α} (h : Keeps Idle m) :
    Async.Harmless (H := host) (InEnv env) Idle (.lift m) := .lift fun w _ => h w

theorem read_harmless {q : Sql} (hq : q.writes = []) :
    Async.Harmless (InEnv env) Idle (sql q) := .call fun w _ => World.serve_idle hq w

theorem read_committed {q : Sql} (hq : ∀ ws, q ≠ .transaction ws) :
    Async.Committed (InEnv env) Exn.Routed (sql q) :=
  .call fun _ _ _ h => (serve_ofStore hq h).unrouted

theorem getAgentTypeByName_harmless (name : String) :
    Async.Harmless (InEnv env) Idle (getAgentTypeByName name) := by
  refine .bind (read_harmless rfl) fun row => ?_
  cases row with
  | none => exact .throw
  | some row => exact lift_harmless (keeps_rowToResponse row)

theorem getLatestProposal_harmless (agentType : String) :
    Async.Harmless (InEnv env) Idle (getLatestProposal agentType) :=
  .bind (read_harmless rfl) fun _ => .pure

theorem requireMutableLatest_harmless (agentType : String) :
    Async.Harmless (InEnv env) Idle (requireMutableLatest agentType) := by
  refine .bind (getLatestProposal_harmless agentType) fun latest => ?_
  cases latest with
  | none => exact .throw
  | some latest =>
    simp only
    split
    · exact .pure
    · exact .throw

theorem requireApprentice_harmless (agent : AgentTypeResponse) :
    Async.Harmless (H := host) (InEnv env) Idle (.lift (liftExcept (requireApprentice agent))) :=
  lift_harmless (keeps_liftExcept _)

theorem createAgentType_declines (payload : AgentTypeCreate) :
    Async.Declines (InEnv env) Idle Exn.Routed (createAgentType payload) := by
  refine (lift_harmless keeps_uuid4).bind_declines fun agentTypeId =>
    (read_harmless rfl).bind_declines fun existing => ?_
  cases existing with
  | some id => exact .throw
  | none =>
    refine (lift_harmless keeps_datetimeUtcnow).bind_declines fun createdAt => ?_
    -- whatever is raised from here on is raised by a store
    refine .bind (.call fun w _ e h _ => serve_error_idle h) fun _ => ?_
    refine .lift_bind (initializeAgentType_results payload) fun r hr => ?_
    obtain ⟨ids, raised⟩ := r
    cases raised with
    | none => exact .lift_bind datetimeUtcnow_results fun _ _ => .pure
    | some e =>
      refine .lift_bind (rollbackAgentType_results payload.name ids) fun _ _ => ?_
      exact .bind (read_committed fun ws h => by cases h) fun _ => .throw (hr e rfl)

/-- A call of which it is known how it ends. -/
theorem lift_declines {m : Py α}
    (h : ∀ w, InEnv env w → Triple m w (fun _ _ => True) fun e w' => E e → Idle w w') :
    Async.Declines (H := host) (InEnv env) Idle E (.lift m) := by
  refine .lift fun w hw e he => ?_
  have hend : m.exec w = (.error e, (m.exec w).2) := Prod.ext he rfl
  exact (h w hw).of_error hend

theorem getNextQuestion_harmless (agentTypeId : String) :
    Async.Harmless (InEnv env) Idle (getNextQuestion agentTypeId) := by
  refine .bind (getAgentTypeByName_harmless agentTypeId) fun agent =>
    .bind (requireApprentice_harmless agent) fun _ =>
    lift_harmless (.tryCatch ((keeps_generateQuestion _ _ _).map _) fun e => ?_)
  split
  · exact .pure _
  · exact .throw _

theorem submitAnswer_declines (agentTypeId : String) (body : AnswerBody) :
    Async.Declines (InEnv env) Idle Exn.Routed (submitAnswer agentTypeId body) := by
  refine (getAgentTypeByName_harmless agentTypeId).bind_declines fun agent =>
    (requireApprentice_harmless agent).bind_declines fun _ => ?_
  split
  · exact .throw
  · split
    · exact .throw
    · exact lift_declines fun w _ => handleAnswer_refused _ _ w

theorem getReadiness_declines (agentTypeId : String) :
    Async.Declines (InEnv env) Idle Exn.Routed (getReadiness agentTypeId) :=
  (getAgentTypeByName_harmless agentTypeId).bind_declines fun agent =>
    .of_committed (.lift fun _ hw _ h => (computeAndStore_results agent.name).error hw h)

theorem getProposal_harmless (agentTypeId : String) :
    Async.Harmless (InEnv env) Idle (getProposal agentTypeId) := by
  refine .bind (getAgentTypeByName_harmless agentTypeId) fun agent =>
    .bind (getLatestProposal_harmless agent.name) fun proposal => ?_
  cases proposal with
  | none => exact .pure
  | some proposal => exact .bind (lift_harmless (keeps_redisGet _)) fun _ => .pure

theorem generateProposal_committed (henv : env.Foreign) (agentType agentGoal taskBoundary : String)
    (declaredTopology : TopologyType) (workflowParticipants : List String)
    (rejectionContext : Option String) :
    Async.Committed (InEnv env) Exn.Routed (generateProposal agentType agentGoal taskBoundary
      declaredTopology workflowParticipants rejectionContext) := by
  refine .lift_bind (draftProposal_results henv _ _ _ _ _ _) fun artifact _ =>
    .bind (read_committed fun ws h => by cases h) fun maxVersion => ?_
  simp only [parseUUID]
  cases UUID.parse artifact.id with
  | none => exact .throw id
  | some id =>
    exact .bind (.call fun _ _ _ h => (serve_ofStore (fun ws h => by cases h) h).unrouted)
      fun _ => .pure

theorem handleReview_declines (henv : env.Foreign) (agent : AgentTypeResponse)
    (body : ReviewBody) :
    Async.Declines (InEnv env) Idle Exn.Routed (handleReview agent body) := by
  have hlift {α : Type} (r : Except Exn α) :
      Async.Harmless (H := host) (InEnv env) Idle (.lift (liftExcept r)) :=
    lift_harmless (keeps_liftExcept r)
  have hwrite (q : Sql) : Async.Declines (InEnv env) Idle Exn.Routed (sql q) :=
    .call fun w _ e h _ => serve_error_idle h
  unfold handleReview
  split
  · exact (hlift _).bind_declines fun expertId =>
      (requireMutableLatest_harmless _).bind_declines fun latest =>
      (lift_harmless keeps_datetimeNow).bind_declines fun signedAt =>
      (hwrite _).bind fun _ => .pure
  · exact (hlift _).bind_declines fun expertId => (hlift _).bind_declines fun edits =>
      (requireMutableLatest_harmless _).bind_declines fun latest =>
      (lift_harmless keeps_datetimeNow).bind_declines fun signedAt =>
      (lift_harmless keeps_datetimeNow).bind_declines fun createdAt =>
      (hwrite _).bind fun _ => .pure
  · exact (hlift _).bind_declines fun rejectionReason =>
      (requireMutableLatest_harmless _).bind_declines fun latest =>
      (hwrite _).bind fun _ => generateProposal_committed henv _ _ _ _ _ _
  · exact .throw

theorem startSession_declines (agentType : String) :
    Async.Declines (InEnv env) Idle (fun _ => True) (startSession agentType) := by
  refine (getLatestProposal_harmless agentType).bind_declines fun proposal => ?_
  cases proposal with
  | none => exact .throw
  | some proposal =>
    simp only
    split
    · exact .throw
    · refine .of_committed (.lift fun w _ e h => ?_)
      cases h

theorem getSession_harmless (sessionId : String) :
    Async.Harmless (H := host) (InEnv env) Idle (.lift (getSession sessionId)) := by
  refine .lift fun w _ => ?_
  rcases getSession_cases sessionId w with ⟨session, -, he⟩ | ⟨-, he⟩ <;> rw [he] <;>
    exact refl_of Idle w

theorem submitTurn_declines (sessionId : String) (turnInput : SimulationTurnInput)
    (toAgent : String) (messageFields : List String) :
    Async.Declines (H := host) (InEnv env) Idle (fun _ => True)
      (.lift (submitTurn sessionId turnInput toAgent messageFields)) := by
  refine .lift fun w _ e h _ => ?_
  rcases submitTurn_cases sessionId turnInput toAgent messageFields w with
    ⟨e', he⟩ | ⟨session, agents, -, -, -, -, he⟩ <;> rw [he] at h ⊢
  · exact refl_of Idle w
  · cases h

theorem resolveViolation_declines (sessionId : String) (violationIndex : Int)
    (resolution : String) (clarification : Option String) :
    Async.Declines (H := host) (InEnv env) Idle (fun _ => True)
      (.lift (resolveViolation sessionId violationIndex resolution clarification)) := by
  refine .lift fun w _ e h _ => ?_
  rcases resolveViolation_cases sessionId violationIndex resolution clarification w with
    ⟨e', he⟩ | ⟨session, agents, last, index, violation, updated, edge, -, -, -, -, -, -, he⟩ <;>
    rw [he] at h ⊢
  · exact refl_of Idle w
  · cases h

theorem closeSession_declines (sessionId : String) :
    Async.Declines (InEnv env) Idle (fun e : Exn => ¬ e.OfStore) (closeSession sessionId) := by
  refine .bind (lift_declines fun w _ => flushSession_refused sessionId w) fun summary => ?_
  refine .bind (.call fun w _ e h => not_not.mpr (serve_ofStore (fun ws h => by cases h) h))
    fun _ => .pure

theorem openCertEvent_harmless (agentType : String) (decision : CertDecision)
    (expertId notes : String) :
    Async.Harmless (H := host) (InEnv env) Idle
      (.lift (openCertEvent agentType decision expertId notes)) :=
  lift_harmless (keeps_openCertEvent _ _ _ _)

theorem approveCert1_declines (agentType : String) (body : CertApproveRequest) :
    Async.Declines (InEnv env) Idle Exn.Routed (approveCert1 agentType body) := by
  refine (openCertEvent_harmless _ _ _ _).bind_declines fun event =>
    .bind (.call fun w _ e h _ => serve_error_idle h) fun _ => ?_
  have hphase : Results (InEnv env) (fun _ => True) (fun e => ¬ e.Routed)
      (setAgentPhase agentType .journeyman journeymanLearningRate) :=
    callRedis_results id fun _ => ⟨_, _, rfl, rfl⟩
  exact .lift_bind hphase fun _ _ => .pure

theorem rejectCert1_declines (agentType : String) (body : CertRejectRequest) :
    Async.Declines (InEnv env) Idle Exn.Routed (rejectCert1 agentType body) :=
  (openCertEvent_harmless _ _ _ _).bind_declines fun _ =>
    .bind (.call fun _ _ _ h _ => serve_error_idle h) fun _ => .pure

/-! ## All requests -/

/-- The request looks something up and changes nothing. -/
def Request.Reads : Request → Prop
  | .question _ | .getProposal _ | .readSession _ | .cert1Status _ => True
  | _ => False

theorem handle_harmless {request : Request} (h : request.Reads) :
    Async.Harmless (InEnv env) Idle request.handle := by
  cases request with
  | question agentTypeId => exact .bind (getNextQuestion_harmless agentTypeId) fun _ => .pure
  | getProposal agentTypeId => exact .bind (getProposal_harmless agentTypeId) fun _ => .pure
  | readSession sessionId =>
    exact .bind (.tryCatch (getSession_harmless sessionId)) fun _ => .pure
  | cert1Status agentTypeId =>
    refine .bind (.bind (getAgentTypeByName_harmless agentTypeId) fun agent => ?_) fun _ => .pure
    exact .bind (lift_harmless (keeps_getAgentState _)) fun state =>
      .bind (read_harmless rfl) fun _ => .bind (read_harmless rfl) fun _ => .pure
  | _ => exact h.elim

theorem handle_declines (henv : env.Foreign) (request : Request) :
    Async.Declines (InEnv env) Idle Exn.Refuses request.handle := by
  have hresponse {α : Type} {p : Coro α} {f : α → Response}
      (h : Async.Declines (InEnv env) Idle Exn.Refuses p) :
      Async.Declines (InEnv env) Idle Exn.Refuses (p >>= fun a => pure (f a)) :=
    h.bind fun _ => .pure
  have hrouted {α : Type} {p : Coro α} (h : Async.Declines (InEnv env) Idle Exn.Routed p) :
      Async.Declines (InEnv env) Idle Exn.Refuses p := h.mono fun e => Exn.Refuses.routed
  cases request with
  | create payload =>
    refine hresponse (withHttp_declines (fun e code hcode hlt => ?_) (fun e => Exn.Refuses.routed)
      (createAgentType_declines payload))
    cases e <;> cases hcode <;> first | exact trivial | omega
  | question agentTypeId => exact (handle_harmless (by trivial)).declines
  | readiness agentTypeId => exact hresponse (hrouted (getReadiness_declines agentTypeId))
  | answer agentTypeId body => exact hresponse (hrouted (submitAnswer_declines agentTypeId body))
  | getProposal agentTypeId => exact (handle_harmless (by trivial)).declines
  | generateProposal agentType agentGoal taskBoundary declaredTopology workflowParticipants =>
    exact hresponse (hrouted (.of_committed (generateProposal_committed henv _ _ _ _ _ _)))
  | reviewProposal agentTypeId body =>
    refine hresponse ((getAgentTypeByName_harmless agentTypeId).bind_declines fun agent =>
      withHttp_declines (fun e code hcode _ => ?_) (fun e => Exn.Refuses.routed)
        (handleReview_declines henv agent body))
    cases e <;> first | exact trivial | cases hcode
  | createSession agentTypeId =>
    exact hresponse (withHttp_declines (fun _ _ _ _ => trivial) (fun _ _ => trivial)
      (startSession_declines agentTypeId))
  | readSession sessionId => exact (handle_harmless (by trivial)).declines
  | turn sessionId turnInput toAgent messageFields =>
    exact hresponse (withHttp_declines (fun _ _ _ _ => trivial) (fun _ _ => trivial)
      (submitTurn_declines _ _ _ _))
  | resolve sessionId violationIndex resolution clarification =>
    exact hresponse (withHttp_declines (fun _ _ _ _ => trivial) (fun _ _ => trivial)
      (resolveViolation_declines _ _ _ _))
  | close sessionId =>
    refine hresponse (withHttp_declines (fun e code hcode _ => ?_) (fun e he => ?_)
      (closeSession_declines sessionId))
    · cases e <;> cases hcode <;> exact id
    · cases e <;> first | exact he.elim | exact id
  | cert1Status agentTypeId => exact (handle_harmless (by trivial)).declines
  | cert1Approve agentTypeId body =>
    refine hresponse ((getAgentTypeByName_harmless agentTypeId).bind_declines fun agent =>
      withHttp_declines (fun e code hcode _ => ?_) (fun e => Exn.Refuses.routed)
        (approveCert1_declines agent.name body))
    cases e <;> first | exact trivial | cases hcode
  | cert1Reject agentTypeId body =>
    refine hresponse ((getAgentTypeByName_harmless agentTypeId).bind_declines fun agent =>
      withHttp_declines (fun e code hcode _ => ?_) (fun e => Exn.Refuses.routed)
        (rejectCert1_declines agent.name body))
    cases e <;> first | exact trivial | cases hcode

variable {ι : Type} [DecidableEq ι]

/-- A request that is turned down changes nothing, and neither does one that only reads: whatever
the other requests do, none of its own steps leaves anything behind. -/
theorem refused_changes_nothing {w : World} (hw : w.env.Foreign) (requests : ι → Request) (i : ι)
    (sched : List ι)
    (hi : (requests i).Reads ∨ ∃ statusCode detail, statusCode < 500 ∧
      (((serving w requests).run sched).tasks i).Ended (.error (.http statusCode detail))) :
    Loop.Meets (fun c j => j = i → Idle c.store (c.step j).store) (serving w requests) sched := by
  have hstep (c : Loop host ι Response) (j : ι) (h : Serves requests c ∧ InEnv w.env c.store) :
      Serves requests (c.step j) ∧ InEnv w.env (c.step j).store :=
    ⟨h.1.step j, (h.1.persists j).env.trans h.2⟩
  have hseg (j : ι) (l : Option (Event host)) (w1 w2 : World) (h : Segment (requests j) l w1 w2)
      (hw1 : InEnv w.env w1) : InEnv w.env w2 := h.persists.env.trans hw1
  have hstart : Serves requests (serving w requests) ∧ InEnv w.env (serving w requests).store :=
    ⟨serves_serving w requests, rfl⟩
  rcases hi with hreads | ⟨statusCode, detail, hcode, hend⟩
  · exact Loop.harmless hstep (fun _ h => h) hseg hstart (handle_harmless hreads) sched
  · exact Loop.declined hstep (fun _ h => h) hseg hstart (handle_declines hw (requests i)) hend
      hcode

namespace Sample

theorem foreign : Sample.env.Foreign := by
  have hraised {β : Type} {e : Exn} (h : (.error .modelError : Except Exn β) = .error e) :
      ¬ e.Routed := by
    cases h
    exact id
  have hloaded {β : Type} {p : ProposalReply} {f : ProposalReply → Except Exn β} {e : Exn}
      (h : (.error .modelError : Except Exn ProposalReply) = .ok p) (_ : f p = .error e) :
      ¬ e.Routed := by cases h
  exact ⟨fun _ _ _ => hraised, fun _ _ => hraised, fun _ _ _ => hloaded, fun _ _ _ => hloaded,
    fun _ _ _ => hloaded, fun _ _ _ => hloaded, fun _ _ _ => hloaded⟩

/-- Two experts approve the same proposal. -/
def twoExperts : Bool → Request
  | false => .reviewProposal "shop" (review "approve" "ada")
  | true => .reviewProposal "shop" (review "approve" "bob")

/-- The first of the two has been answered when the second reads the proposal. -/
def secondLate : List Bool :=
  [true, false, false, false, false, false, false, false, true, true, true, true, true, true]

end Sample

theorem refused_changes_nothing_of_second :
    Loop.Meets (fun c j => j = true → Idle c.store (c.step j).store)
      (serving (Sample.withTeam .proposed) Sample.twoExperts) Sample.secondLate :=
  refused_changes_nothing Sample.foreign Sample.twoExperts true Sample.secondLate
    (.inr ⟨409, _, by decide, rfl⟩)

end AgentWorx
