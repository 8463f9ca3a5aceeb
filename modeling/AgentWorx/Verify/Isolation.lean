import AgentWorx.Verify.Session
import AgentWorx.Verify.SoleCreation
import AgentWorx.Verify.Closing

/-!
# Agent types are kept apart

A request is about one agent type: the one in its path or body, or the one whose session it
addresses. `Owned` says which rows the writes of a request are about, and `handle_owned` that the
code of every request issues no others; with the effects of `Verify.Effects` this leaves everything
that belongs to another agent type as it is, in any interleaving.
-/

namespace AgentWorx

open Coop Coop.Sync

variable {request : Request} {other : String} {l : Option (Event host)} {w w' : World}
  {α β : Type}

/-! ## What belongs to an agent type -/

/-- The rows of the agent type are the same. -/
structure SameRows (other : String) (pg pg' : Postgres) : Prop where
  agentTypes : pg'.agentTypes.filter (·.name = other) = pg.agentTypes.filter (·.name = other)
  teamCompositions : pg'.teamCompositions.filter (·.agentType = other) =
    pg.teamCompositions.filter (·.agentType = other)
  certEvents : pg'.certEvents.filter (·.agentType = other) =
    pg.certEvents.filter (·.agentType = other)
  summaries : pg'.simulationSessionSummaries.filter (·.agentType = other) =
    pg.simulationSessionSummaries.filter (·.agentType = other)

instance (other : String) : IsPreorder Postgres (SameRows other) where
  refl _ := ⟨rfl, rfl, rfl, rfl⟩
  trans _ _ _ h1 h2 := ⟨h2.agentTypes.trans h1.agentTypes,
    h2.teamCompositions.trans h1.teamCompositions, h2.certEvents.trans h1.certEvents,
    h2.summaries.trans h1.summaries⟩

/-- Everything that is stored for the agent type is the same. -/
structure SameTenant (other : String) (w w' : World) : Prop where
  graph : w'.graphs other = w.graphs other
  redis : ∀ field, w'.redis (agentKey other field) = w.redis (agentKey other field)
  rows : SameRows other w.pg w'.pg
  sessions : ∀ sessionId session, session.agentTypeId = other →
    (w'.sessions sessionId = some session ↔ w.sessions sessionId = some session)
  sessionAgents : ∀ sessionId session, session.agentTypeId = other →
    w.sessions sessionId = some session → w'.sessionAgents sessionId = w.sessionAgents sessionId

instance (other : String) : IsPreorder World (SameTenant other) where
  refl w := ⟨rfl, fun _ => rfl, refl_of _ w.pg, fun _ _ _ => Iff.rfl, fun _ _ _ _ => rfl⟩
  trans _ _ _ h1 h2 := by
    refine ⟨h2.graph.trans h1.graph, fun field => (h2.redis field).trans (h1.redis field),
      trans_of _ h1.rows h2.rows, fun id session hs => ?_, fun id session hs hsession => ?_⟩
    · exact (h2.sessions id session hs).trans (h1.sessions id session hs)
    · exact (h2.sessionAgents id session hs ((h1.sessions id session hs).mpr hsession)).trans
        (h1.sessionAgents id session hs hsession)

/-- The agent type in the path or the body of the request. -/
def Request.agentType : Request → Option String
  | .create payload => some payload.name
  | .question agentTypeId | .readiness agentTypeId | .answer agentTypeId _
  | .getProposal agentTypeId | .generateProposal agentTypeId _ _ _ _
  | .reviewProposal agentTypeId _ | .createSession agentTypeId | .cert1Status agentTypeId
  | .cert1Approve agentTypeId _ | .cert1Reject agentTypeId _ => some agentTypeId
  | .readSession _ | .turn _ _ _ _ | .resolve _ _ _ _ | .close _ => none

/-- The request names the agent type, or a session of it. -/
def Request.Concerns (request : Request) (other : String) (w : World) : Prop :=
  request.agentType = some other ∨ ∃ sessionId session, request.sessionId = some sessionId ∧
    w.sessions sessionId = some session ∧ session.agentTypeId = other

/-! ## The rows a request writes -/

/-- The rows that a write of the request is about. Only its own row is deleted, which is not one of
another agent type. -/
def SqlWrite.Owned (request : Request) (other : String) (w : World) : SqlWrite → Prop
  | .insertAgentType row => request.agentType = some row.name
  | .deleteAgentType id => ∀ row ∈ w.pg.agentTypes, row.name = other → row.id ≠ id
  | .approveComposition _ _ agentType _ | .archiveComposition agentType _
  | .rejectComposition _ agentType _ => request.agentType = some agentType
  | .insertComposition row _ => request.agentType = some row.agentType
  | .insertCertEvent row => request.agentType = some row.agentType
  | .insertSimulationSessionSummary row => ∃ session, request.sessionId = some row.sessionId ∧
    w.sessions row.sessionId = some session ∧ row.agentType = session.agentTypeId

/-- A registered agent type stays registered with the same row, and a session stays a session of its
agent type. -/
structure Steady (other : String) (w w' : World) : Prop where
  agentTypes : w'.pg.agentTypes.filter (·.name = other) = w.pg.agentTypes.filter (·.name = other)
  sessions : ∀ sessionId session, w.sessions sessionId = some session →
    ∃ session', w'.sessions sessionId = some session' ∧ session'.agentTypeId = session.agentTypeId

instance (other : String) : IsPreorder World (Steady other) where
  refl _ := ⟨rfl, fun _ session h => ⟨session, h, rfl⟩⟩
  trans _ _ _ h1 h2 := by
    refine ⟨h2.agentTypes.trans h1.agentTypes, fun id session hs => ?_⟩
    obtain ⟨session', hs', htype'⟩ := h1.sessions id session hs
    obtain ⟨session'', hs'', htype''⟩ := h2.sessions id session' hs'
    exact ⟨session'', hs'', htype''.trans htype'⟩

def owned (other : String) (request : Request) : Spec host where
  issue _ _ _ := True
  stmt _ w q := ∀ wr ∈ q.writes, wr.Owned request other w
  seg _ _ _ := True
  rely := Steady other
  seg_preorder _ := { refl := fun _ => trivial, trans := fun _ _ _ _ _ => trivial }
  rely_preorder := inferInstance

theorem mem_filter_name {rows rows' : List AgentTypeRow} {row : AgentTypeRow}
    (h : rows'.filter (·.name = other) = rows.filter (·.name = other)) (hname : row.name = other) :
    row ∈ rows' ↔ row ∈ rows := by
  have hmem : row ∈ rows'.filter (·.name = other) ↔ row ∈ rows.filter (·.name = other) := by rw [h]
  simpa [hname] using hmem

theorem Steady.mem_iff (h : Steady other w w') {row : AgentTypeRow} (hname : row.name = other) :
    row ∈ w'.pg.agentTypes ↔ row ∈ w.pg.agentTypes := mem_filter_name h.agentTypes hname

theorem Steady.registered (h : Steady other w w') (hw : Registered other w) :
    Registered other w' := by
  obtain ⟨row, hrow, hname⟩ := hw
  exact ⟨row, (h.mem_iff hname).mpr hrow, hname⟩

/-! ## Rules -/

theorem lift_owned {m : Py α} : Follows (owned other request) AnyEnd l (Async.lift m) w :=
  .lift trivial trivial

theorem lift_yields_owned {P : α → Prop} {m : Py α} (h : Yields P m) :
    Follows (owned other request) (fun _ r _ => ∀ a, r = .ok a → P a) l (Async.lift m) w :=
  .lift trivial (h w)

theorem bind_owned {p : Coro α} {g : α → Coro β} {M : Post host α}
    (hp : Follows (owned other request) M l p w)
    (hg : ∀ l a w, M l (.ok a) w → Follows (owned other request) AnyEnd l (g a) w) :
    Follows (owned other request) AnyEnd l (p >>= g) w :=
  hp.bind hg fun _ _ _ _ => trivial

theorem withHttp_owned {status : Exn → Option Nat} {p : Coro α}
    (h : Follows (owned other request) AnyEnd l p w) :
    Follows (owned other request) AnyEnd l (withHttp status p) w :=
  h.tryCatch (fun _ _ _ _ => trivial) fun _ _ _ _ => trivial

theorem read_owned {q : Sql} (hq : q.writes = []) :
    Follows (owned other request) AnyEnd l (sql q) w :=
  .call trivial fun _ _ => ⟨by simp [owned, hq], fun _ _ => trivial⟩

theorem sql_owned {q : Sql}
    (h : ∀ w1, Steady other w w1 → ∀ wr ∈ q.writes, wr.Owned request other w1) :
    Follows (owned other request) AnyEnd l (sql q) w :=
  .call trivial fun w1 h1 => ⟨h w1 h1, fun _ _ => trivial⟩

theorem execute_owned {wr : SqlWrite}
    (h : ∀ w1, Steady other w w1 → wr.Owned request other w1) :
    Follows (owned other request) AnyEnd l (sql (.execute wr)) w :=
  sql_owned fun w1 h1 => by simpa [Sql.writes] using h w1 h1

/-! ## Every request -/

theorem getAgentTypeByName_owned (name : String) :
    Follows (owned other request) (fun _ r _ => ∀ agent, r = .ok agent → agent.name = name) l
      (getAgentTypeByName name) w := by
  refine Follows.bind (M := fun _ r _ => ∀ row, r = .ok (some row) → row.name = name)
    (.call trivial fun w1 _ => ⟨fun wr hwr => (by cases hwr), fun w2 _ row hrow => ?_⟩)
    (fun l row w hrow => ?_) fun _ _ _ _ _ h => by cases h
  · obtain ⟨pg, hpg, -⟩ := World.serve_ok hrow
    have hfind : w1.pg.agentTypes.find? (·.name = name) = some row :=
      congrArg Prod.fst (Except.ok.inj hpg)
    simpa using List.find?_some hfind
  · cases row with
    | none => exact .throw fun _ h => by cases h
    | some row =>
      refine .lift trivial fun agent h => ?_
      exact (rowToResponse_yields row w agent h).trans (hrow row rfl)

/-- A route that looks its agent type up goes on with the name it was given. -/
theorem named_owned {agentTypeId : String} {g : AgentTypeResponse → Coro α}
    (h : ∀ agent l w, agent.name = agentTypeId →
      Follows (owned other request) AnyEnd l (g agent) w) :
    Follows (owned other request) AnyEnd l (getAgentTypeByName agentTypeId >>= g) w :=
  bind_owned (getAgentTypeByName_owned agentTypeId) fun l agent w hname =>
    h agent l w (hname agent rfl)

theorem initializeAgentType_pg (payload : AgentTypeCreate) :
    Keeps (Same World.pg) (initializeAgentType payload) :=
  keeps_initializeAgentType (fun w => (initializeSchema_provisions payload.name w).pg)
    (fun _ _ => keeps_execute Ticks.tick fun w _ _ _ => refl_of (Same World.pg) w)
    fun _ _ _ => keeps_callRedis fun w => refl_of (Same World.pg) w

theorem rollbackAgentType_pg (name : String) (createdConceptIds : List String) :
    Keeps (Same World.pg) (rollbackAgentType name createdConceptIds) :=
  keeps_rollbackAgentType (fun _ => keeps_callRedis fun w => refl_of (Same World.pg) w)
    (fun _ => keeps_execute Ticks.tick fun w _ _ _ => refl_of (Same World.pg) w) _

/-- No row of the agent type has the id. -/
def NotIdOf (other : String) (id : UUID) (w : World) : Prop :=
  ∀ row ∈ w.pg.agentTypes, row.name = other → row.id ≠ id

theorem Steady.notIdOf {id : UUID} (h : Steady other w w') (hid : NotIdOf other id w) :
    NotIdOf other id w' :=
  fun row hrow hname => hid row ((h.mem_iff hname).mp hrow) hname

theorem NotIdOf.of_pg {id : UUID} (hid : NotIdOf other id w) (h : w'.pg = w.pg) :
    NotIdOf other id w' := by
  rw [NotIdOf, h]
  exact hid

/-- The id of a row that has just been inserted is not that of a registered agent type. -/
theorem serve_notIdOf {row : AgentTypeRow} (hregistered : Registered other w)
    (h : (World.serve (.execute (.insertAgentType row)) w).1 = .ok ()) :
    NotIdOf other row.id (World.serve (.execute (.insertAgentType row)) w).2 := by
  rcases World.serve_insertAgentType row w with ⟨e, he⟩ | ⟨hnew, pg, he, hrows⟩
  · rw [he] at h
    cases h
  · rw [he]
    intro row' hrow' hname
    rw [World.setPg_pg, hrows, List.mem_append, List.mem_singleton] at hrow'
    rcases hrow' with hrow' | rfl
    · exact (hnew row' hrow').1
    · obtain ⟨row'', hrow'', hname''⟩ := hregistered
      exact absurd (hname''.trans hname.symm) (hnew row'' hrow'').2

theorem createAgentType_owned (payload : AgentTypeCreate) (hw : Registered other w) :
    Follows (owned other (.create payload)) AnyEnd l (createAgentType payload) w := by
  refine bind_owned (M := fun _ _ w => Registered other w) (.lift trivial hw)
    fun l agentTypeId w hw => ?_
  refine bind_owned (M := fun _ _ w => Registered other w)
    (.call trivial fun w1 h1 => ⟨fun wr hwr => (by cases hwr), fun w2 h2 => ?_⟩)
    fun l existing w hw => ?_
  · refine h2.registered ?_
    rw [World.serve_idle (q := .selectAgentTypeId payload.name) rfl w1]
    exact h1.registered hw
  cases existing with
  | some id => exact .throw trivial
  | none =>
    refine bind_owned (M := fun _ _ w => Registered other w) (.lift trivial hw)
      fun l createdAt w hw => ?_
    -- an accepted row has an id and a name of its own
    refine bind_owned (M := fun _ r w => r = .ok () → NotIdOf other agentTypeId w)
      (.call trivial fun w1 h1 => ⟨fun wr hwr => ?_, fun w2 h2 hr => ?_⟩) fun l _ w hid => ?_
    · rw [List.mem_singleton.mp hwr]
      rfl
    · exact h2.notIdOf (serve_notIdOf (h1.registered hw) hr)
    refine bind_owned (M := fun _ _ w => NotIdOf other agentTypeId w)
      (.lift trivial ((hid rfl).of_pg (initializeAgentType_pg payload w))) fun l r w hid => ?_
    obtain ⟨createdConceptIds, raised⟩ := r
    cases raised with
    | none => exact bind_owned lift_owned fun l now w _ => .pure trivial
    | some e =>
      refine bind_owned (M := fun _ _ w => NotIdOf other agentTypeId w)
        (.lift trivial (hid.of_pg (rollbackAgentType_pg _ _ w))) fun l _ w hid => ?_
      exact bind_owned (execute_owned fun w1 h1 => h1.notIdOf hid) fun l _ w _ => .throw trivial

theorem getLatestProposal_owned (agentType : String) :
    Follows (owned other request) AnyEnd l (getLatestProposal agentType) w :=
  bind_owned (read_owned rfl) fun _ _ _ _ => .pure trivial

theorem generateProposal_owned {agentType : String} (hname : request.agentType = some agentType)
    (agentGoal taskBoundary : String) (declaredTopology : TopologyType)
    (workflowParticipants : List String) (rejectionContext : Option String) :
    Follows (owned other request) AnyEnd l (generateProposal agentType agentGoal taskBoundary
      declaredTopology workflowParticipants rejectionContext) w := by
  refine bind_owned lift_owned fun l artifact w _ => bind_owned (read_owned rfl)
    fun l maxVersion w _ => ?_
  cases parseUUID artifact.id with
  | error e => exact .throw trivial
  | ok id => exact bind_owned (execute_owned fun _ _ => hname) fun _ _ _ _ => .pure trivial

theorem requireMutableLatest_owned (agentType : String) :
    Follows (owned other request) AnyEnd l (requireMutableLatest agentType) w := by
  refine bind_owned (getLatestProposal_owned _) fun l latest w _ => ?_
  cases latest with
  | none => exact .throw trivial
  | some latest =>
    simp only
    split_ifs
    · exact .pure trivial
    · exact .throw trivial

theorem editTransaction_owned {agentType : String} (hname : request.agentType = some agentType)
    {expertId : TextParam} {edits : ProposalArtifact} {version : Int}
    {signedAt createdAt : Datetime} :
    ∀ wr ∈ Sql.writes (.transaction
      (editTransaction agentType expertId edits version signedAt createdAt)),
      wr.Owned request other w := by
  intro wr hwr
  cases hid : parseUUID edits.id with
  | error e =>
    simp only [Sql.writes, editTransaction, hid, Except.map, List.filterMap_cons,
      List.filterMap_nil, List.mem_singleton] at hwr
    rw [hwr]
    exact hname
  | ok id =>
    simp only [Sql.writes, editTransaction, hid, Except.map, List.filterMap_cons,
      List.filterMap_nil, List.mem_cons, List.not_mem_nil, or_false] at hwr
    rcases hwr with rfl | rfl <;> exact hname

theorem handleReview_owned {agent : AgentTypeResponse}
    (hname : request.agentType = some agent.name) (body : ReviewBody) :
    Follows (owned other request) AnyEnd l (handleReview agent body) w := by
  unfold handleReview
  split
  · exact bind_owned lift_owned fun _ expertId _ _ =>
      bind_owned (requireMutableLatest_owned _) fun _ latest _ _ =>
        bind_owned lift_owned fun _ signedAt _ _ =>
          bind_owned (execute_owned fun _ _ => hname) fun _ _ _ _ => .pure trivial
  · exact bind_owned lift_owned fun _ expertId _ _ => bind_owned lift_owned fun _ edits _ _ =>
      bind_owned (requireMutableLatest_owned _) fun _ latest _ _ =>
        bind_owned lift_owned fun _ signedAt _ _ => bind_owned lift_owned fun _ createdAt _ _ =>
          bind_owned (sql_owned fun _ _ => editTransaction_owned hname) fun _ _ _ _ =>
            .pure trivial
  · exact bind_owned lift_owned fun _ rejectionReason _ _ =>
      bind_owned (requireMutableLatest_owned _) fun _ latest _ _ =>
        bind_owned (execute_owned fun _ _ => hname) fun _ _ _ _ =>
          generateProposal_owned hname _ _ _ _ _
  · exact .throw trivial

theorem startSession_owned (agentType : String) :
    Follows (owned other request) AnyEnd l (startSession agentType) w := by
  refine bind_owned (getLatestProposal_owned _) fun l proposal w _ => ?_
  cases proposal with
  | none => exact .throw trivial
  | some proposal =>
    simp only
    split_ifs
    · exact .throw trivial
    · exact lift_owned

/-- The summary names the agent type of the session. -/
theorem closeSession_owned (sessionId : String) :
    Follows (owned other (.close sessionId)) AnyEnd l (closeSession sessionId) w := by
  refine bind_owned (M := fun _ r w => ∀ summary, r = .ok summary → ∃ session,
    summary.sessionId = sessionId ∧ w.sessions sessionId = some session ∧
      summary.agentType = session.agentTypeId) (.lift trivial fun summary h => ?_)
    fun l summary w h => ?_
  · change ((flushSession sessionId).exec w).1 = _ at h
    change ∃ session, _ ∧ ((flushSession sessionId).exec w).2.sessions _ = _ ∧ _
    rcases flushSession_cases sessionId w with ⟨e, he⟩ | ⟨session, agents, -, -, -, h'⟩
    · rw [he] at h
      cases h
    · rcases h' with ⟨e, w', -, he⟩ | ⟨w1, w2, edges, closedAt, -, -, he⟩ <;> rw [he] at h ⊢ <;>
        cases h
      exact ⟨{ session with status := .closed, closedAt := some closedAt }, rfl, by simp, rfl⟩
  · obtain ⟨session, hid, hsession, htype⟩ := h summary rfl
    refine bind_owned (execute_owned fun w1 h1 => ?_) fun _ _ _ _ => .pure trivial
    obtain ⟨session', hsession', htype'⟩ := h1.sessions sessionId session hsession
    exact ⟨session', by rw [hid]; rfl, by rw [hid]; exact hsession', htype.trans htype'.symm⟩

theorem openCertEvent_yields (agentType : String) (decision : CertDecision)
    (expertId notes : String) :
    Yields (fun event : CertEvent => event.agentType = agentType)
      (openCertEvent agentType decision expertId notes) :=
  fun _ _ h => (openCertEvent_ok h).2.1

theorem insertCertEvent_owned {event : CertEvent}
    (hname : request.agentType = some event.agentType) :
    Follows (owned other request) AnyEnd l (insertCertEvent event) w :=
  execute_owned fun _ _ => hname

/-- The writes of every request are about its own agent type or session. -/
theorem handle_owned (request : Request) (hw : Registered other w) :
    Follows (owned other request) AnyEnd none request.handle w := by
  have hresponse {request : Request} {α : Type} {p : Coro α} {f : α → Response}
      (h : Follows (owned other request) AnyEnd none p w) :
      Follows (owned other request) AnyEnd none (p >>= fun a => pure (f a)) w :=
    bind_owned h fun _ _ _ _ => .pure trivial
  cases request with
  | create payload => exact hresponse (withHttp_owned (createAgentType_owned payload hw))
  | question agentTypeId =>
    exact hresponse (named_owned fun _ _ _ _ => bind_owned lift_owned fun _ _ _ _ => lift_owned)
  | readiness agentTypeId => exact hresponse (named_owned fun _ _ _ _ => lift_owned)
  | answer agentTypeId body =>
    refine hresponse (named_owned fun agent _ _ _ => bind_owned lift_owned fun _ _ _ _ => ?_)
    split
    · exact .throw trivial
    · split
      · exact .throw trivial
      · exact lift_owned
  | getProposal agentTypeId =>
    refine hresponse (named_owned fun agent _ _ _ =>
      bind_owned (getLatestProposal_owned _) fun _ proposal _ _ => ?_)
    cases proposal with
    | none => exact .pure trivial
    | some proposal => exact bind_owned lift_owned fun _ _ _ _ => .pure trivial
  | generateProposal => exact hresponse (generateProposal_owned rfl _ _ _ _ _)
  | reviewProposal agentTypeId body =>
    refine hresponse (named_owned fun agent _ _ hname => withHttp_owned ?_)
    have hrequest : (Request.reviewProposal agentTypeId body).agentType = some agent.name :=
      congrArg some hname.symm
    exact handleReview_owned hrequest body
  | createSession agentTypeId =>
    exact hresponse (withHttp_owned (startSession_owned agentTypeId))
  | readSession | turn | resolve => exact hresponse (withHttp_owned lift_owned)
  | close sessionId => exact hresponse (withHttp_owned (closeSession_owned sessionId))
  | cert1Status agentTypeId =>
    exact hresponse (named_owned fun _ _ _ _ => bind_owned lift_owned fun _ _ _ _ =>
      bind_owned (read_owned rfl) fun _ _ _ _ => bind_owned (read_owned rfl)
        fun _ _ _ _ => .pure trivial)
  | cert1Approve agentTypeId body =>
    refine hresponse (named_owned fun agent _ _ hname => withHttp_owned ?_)
    exact bind_owned (lift_yields_owned (openCertEvent_yields _ _ _ _)) fun _ event _ hevent =>
      bind_owned (insertCertEvent_owned (congrArg some (hname.symm.trans (hevent _ rfl).symm)))
        fun _ _ _ _ => bind_owned lift_owned fun _ _ _ _ => .pure trivial
  | cert1Reject agentTypeId body =>
    refine hresponse (named_owned fun agent _ _ hname => withHttp_owned ?_)
    exact bind_owned (lift_yields_owned (openCertEvent_yields _ _ _ _)) fun _ event _ hevent =>
      bind_owned (insertCertEvent_owned (congrArg some (hname.symm.trans (hevent _ rfl).symm)))
        fun _ _ _ _ => .pure trivial

/-! ## Effects -/

theorem SameTenant.of_stores (hgraph : w'.graphs other = w.graphs other)
    (hredis : ∀ field, w'.redis (agentKey other field) = w.redis (agentKey other field))
    (hpg : w'.pg = w.pg) (hsessions : w'.sessions = w.sessions)
    (hagents : w'.sessionAgents = w.sessionAgents) : SameTenant other w w' where
  graph := hgraph
  redis := hredis
  rows := by
    rw [hpg]
    exact refl_of _ w.pg
  sessions _ _ _ := by rw [hsessions]
  sessionAgents _ _ _ _ := by rw [hagents]

theorem SameTenant.setGraph {name : String} (h : name ≠ other) (w : World) (g : Graph) :
    SameTenant other w (w.setGraph name g) :=
  .of_stores (by simp [h.symm]) (fun _ => rfl) rfl rfl rfl

theorem SameTenant.setRedis {name : String} (h : name ≠ other) (w : World) (field : AgentField)
    (value : Option RedisValue) : SameTenant other w (w.setRedis (agentKey name field) value) :=
  .of_stores rfl (fun field' => by simp [h.symm]) rfl rfl rfl

/-- A step on a session leaves the sessions of the agent type alone when it is about another. -/
theorem SameTenant.setSession {sessionId : String} {session : SimulationSession}
    {agents : List AgentContract} (h : session.agentTypeId ≠ other)
    (hold : ∀ session', w.sessions sessionId = some session' → session'.agentTypeId ≠ other) :
    SameTenant other w ((w.setSession sessionId session).setSessionAgents sessionId agents) where
  graph := rfl
  redis _ := rfl
  rows := refl_of _ w.pg
  sessions id session' hs := by
    by_cases hid : id = sessionId
    · subst hid
      refine iff_of_false ?_ fun h' => hold session' h' hs
      simp only [World.setSessionAgents_sessions, World.setSession_sessions,
        Function.update_self, Option.some.injEq]
      rintro rfl
      exact h hs
    · simp [hid]
  sessionAgents id session' hs hsession := by
    have hid : id ≠ sessionId := by
      rintro rfl
      exact hold session' hsession hs
    simp [hid]

variable {n : Nat}

theorem Request.learns_agentType {request : Request} {name : String}
    (h : request.learns = some name) : request.agentType = some name := by
  cases request <;> cases h <;> rfl

theorem Request.scores_agentType {request : Request} {name : String}
    (h : request.scores = some name) : request.agentType = some name := by
  cases request <;> cases h <;> rfl

theorem Effect.sameTenant (he : Effect request l w w') (hdrawn : SessionsDrawn w)
    (hdistinct : DistinctDraws w.env UUID.toText n) (hn : w'.tick ≤ n)
    (hno : ¬ request.Concerns other w) : SameTenant other w w' := by
  have hname {name : String} (h : request.agentType = some name) : name ≠ other := by
    rintro rfl
    exact hno (.inl h)
  have hsession {sessionId : String} {session : SimulationSession}
      (hrequest : request.sessionId = some sessionId)
      (hs : w.sessions sessionId = some session) : session.agentTypeId ≠ other :=
    fun h => hno (.inr ⟨sessionId, session, hrequest, hs, h⟩)
  have htick (w : World) : SameTenant other w w.bump := .of_stores rfl (fun _ => rfl) rfl rfl rfl
  cases he with
  | tick => exact htick w
  | knowledge hrequest _ => exact .setGraph (hname (Request.learns_agentType hrequest)) w _
  | score hrequest _ => exact .setRedis (hname (Request.scores_agentType hrequest)) w _ _
  | @schema payload hrequest =>
    have hschema := initializeSchema_provisions payload.name w
    have hne : payload.name ≠ other := hname (by rw [hrequest]; rfl)
    exact .of_stores (hschema.others other hne.symm) (fun _ => by rw [hschema.redis]) hschema.pg
      hschema.sessions hschema.sessionAgents
  | @reset payload _ field value hrequest =>
    have hne : payload.name ≠ other := hname (by rw [hrequest]; rfl)
    exact .setRedis hne w _ _
  | @graduate row body hrequest =>
    have hne : row.agentType ≠ other := hname (by rw [hrequest]; rfl)
    exact trans_of (SameTenant other) (.setRedis hne w _ _) (.setRedis hne _ _ _)
  | @start agentType version createdAt agents hrequest _ =>
    have hne : agentType ≠ other := hname (by rw [hrequest]; rfl)
    have htime : w.tick < n := (Nat.lt_add_of_pos_right (Nat.succ_pos 1)).trans_le hn
    have hunused := hdrawn.unused hdistinct htime
    refine trans_of (SameTenant other) (trans_of (SameTenant other) (htick w) (htick w.bump)) ?_
    refine .setSession hne fun session' hs => ?_
    rw [World.bump_sessions, World.bump_sessions, hunused] at hs
    cases hs
  | @session sessionId session agents session' agents' hrequest hs ha hstep =>
    have hsame : session'.agentTypeId = session.agentTypeId := hstep.agentTypeId
    refine .setSession (hsame ▸ hsession hrequest hs) fun session'' hs'' => ?_
    rw [hs, Option.some.injEq] at hs''
    exact hs'' ▸ hsession hrequest hs
  | @flush _ sessionId session agents hrequest hs _ _ hstep =>
    have hne : session.agentTypeId ≠ other := hsession (by rw [hrequest]; rfl) hs
    cases hstep with
    | tick => exact htick w
    | role _ _ => exact .setGraph hne w _
    | handoffs => exact .setGraph hne w _

/-- A request that is not about the agent type stays so. -/
theorem SameTenant.not_concerns (h : SameTenant other w w') (hno : ¬ request.Concerns other w) :
    ¬ request.Concerns other w' := by
  rintro (hname | ⟨sessionId, session, hrequest, hs, htype⟩)
  · exact hno (.inl hname)
  · exact hno (.inr ⟨sessionId, session, hrequest, (h.sessions _ _ htype).mp hs, htype⟩)

theorem Segment.sameTenant (hseg : Segment request l w w') (hdrawn : SessionsDrawn w)
    (hdistinct : DistinctDraws w.env UUID.toText n) (hn : w'.tick ≤ n)
    (hno : ¬ request.Concerns other w) : SameTenant other w w' := by
  suffices h : SessionsDrawn w' ∧ SameTenant other w w' from h.2
  induction hseg with
  | refl => exact ⟨hdrawn, refl_of _ w⟩
  | @tail w1 w2 hseg he ih =>
    obtain ⟨hdrawn1, hsame⟩ := ih (he.persists.tick.trans hn)
    have hdistinct1 : DistinctDraws w1.env UUID.toText n := by
      rwa [(Segment.persists hseg).env]
    exact ⟨he.sessionsDrawn hdrawn1, trans_of _ hsame
      (he.sameTenant hdrawn1 hdistinct1 hn (hsame.not_concerns hno))⟩

/-! ## Statements -/

theorem filter_updateComposition {rows : List CompositionRow} {agentType : String} {version : Int}
    {f : CompositionRow → CompositionRow} (hf : ∀ row, (f row).agentType = row.agentType)
    (h : agentType ≠ other) :
    (Postgres.updateComposition agentType version f rows).filter (·.agentType = other) =
      rows.filter (·.agentType = other) := by
  rw [Postgres.updateComposition]
  induction rows with
  | nil => rfl
  | cons row rows ih =>
    rw [List.map_cons, List.filter_cons, List.filter_cons, ih]
    by_cases hrow : row.agentType = agentType ∧ row.version = version
    · simp [hrow, hf, h]
    · rw [if_neg hrow]

theorem filter_append_of_ne {α : Type} {p : α → Bool} {rows : List α} {row : α}
    (h : p row = false) : (rows ++ [row]).filter p = rows.filter p := by simp [h]

/-- A registered agent type keeps its row. -/
theorem write_registered {pg pg' : Postgres} {wr : SqlWrite} (h : pg.write wr = .ok pg')
    (hregistered : ∃ row ∈ pg.agentTypes, row.name = other)
    (hdelete : ∀ id, wr = .deleteAgentType id →
      ∀ row ∈ pg.agentTypes, row.name = other → row.id ≠ id) :
    pg'.agentTypes.filter (·.name = other) = pg.agentTypes.filter (·.name = other) := by
  obtain ⟨row, hrow, hname⟩ := hregistered
  rcases Postgres.write_agentTypes h with ⟨new, rfl, hnew, hrows⟩ | ⟨id, rfl, hrows⟩ |
    ⟨-, -, hrows⟩ <;> rw [hrows]
  · refine filter_append_of_ne (decide_eq_false fun hsame => ?_)
    exact (hnew row hrow).2 (hname.trans hsame.symm)
  · rw [List.filter_filter]
    refine List.filter_congr fun row' hrow' => ?_
    by_cases hname' : row'.name = other
    · simp [hname', hdelete id rfl row' hrow' hname']
    · simp [hname']

theorem SqlWrite.Owned.decided {wr : SqlWrite} (h : wr.Owned request other w) {agentType : String}
    {version : Int} (hdecided : wr.decided = some (agentType, version)) :
    request.agentType = some agentType := by
  cases wr <;> cases hdecided <;> exact h

/-- A write that is about another agent type leaves the rows alone. -/
theorem SqlWrite.Owned.sameRows {pg pg' : Postgres} {wr : SqlWrite}
    (howned : wr.Owned request other w) (hregistered : Registered other w)
    (hno : ¬ request.Concerns other w) (hsame : SameRows other w.pg pg)
    (h : pg.write wr = .ok pg') : SameRows other w.pg pg' := by
  have hname {name : String} (h : request.agentType = some name) : name ≠ other := by
    rintro rfl
    exact hno (.inl h)
  refine trans_of (SameRows other) hsame ⟨?_, ?_, ?_, ?_⟩
  · refine write_registered h ?_ fun id hid row hrow hrowname => ?_
    · obtain ⟨row, hrow, hrowname⟩ := hregistered
      exact ⟨row, (mem_filter_name hsame.agentTypes hrowname).mpr hrow, hrowname⟩
    · subst hid
      exact howned row ((mem_filter_name hsame.agentTypes hrowname).mp hrow) hrowname
  · rcases Postgres.write_teamCompositions h with ⟨-, hrows⟩ |
      ⟨agentType, version, f, hdecided, hf, hrows⟩ | ⟨row, _, signature, rfl, -, hrows⟩ <;>
      rw [hrows]
    · exact filter_updateComposition (fun row => (hf row).1.agentType)
        (hname (howned.decided hdecided))
    · have hne : row.agentType ≠ other := hname howned
      exact filter_append_of_ne (decide_eq_false hne)
  · rcases Postgres.write_certEvents h with ⟨row, rfl, hrows⟩ | ⟨-, hrows⟩ <;> rw [hrows]
    have hne : row.agentType ≠ other := hname howned
    exact filter_append_of_ne (decide_eq_false hne)
  · rcases Postgres.write_summaries h with ⟨row, rfl, hrows⟩ | hrows <;> rw [hrows]
    obtain ⟨session, hrequest, hs, htype⟩ := howned
    refine filter_append_of_ne (decide_eq_false fun hrow => ?_)
    exact hno (.inr ⟨_, session, hrequest, hs, htype.symm.trans hrow⟩)

variable {q : Sql}

theorem serve_sameTenant (howned : ∀ wr ∈ q.writes, wr.Owned request other w)
    (hregistered : Registered other w) (hno : ¬ request.Concerns other w) :
    SameTenant other w (World.serve q w).2 where
  graph := by rw [World.serve_graphs]
  redis _ := by rw [World.serve_redis]
  rows := World.serve_keeps (R := Preserves (SameRows other w.pg))
    (fun _ _ wr hwr h hsame => (howned wr hwr).sameRows hregistered hno hsame h)
    (refl_of _ w.pg)
  sessions _ _ _ := by rw [World.serve_sessions]
  sessionAgents _ _ _ _ := by rw [World.serve_sessionAgents]

/-! ## Sessions stay with their agent type -/

theorem Segment.steady (hseg : Segment request l w w') (hdrawn : SessionsDrawn w)
    (hdistinct : DistinctDraws w.env UUID.toText n) (hn : w'.tick ≤ n) : Steady other w w' := by
  suffices h : SessionsDrawn w' ∧ Steady other w w' from h.2
  induction hseg with
  | refl => exact ⟨hdrawn, refl_of _ w⟩
  | @tail w1 w2 hseg he ih =>
    obtain ⟨hdrawn1, hsteady⟩ := ih (he.persists.tick.trans hn)
    refine ⟨he.sessionsDrawn hdrawn1, trans_of _ hsteady ⟨?_, fun sessionId session hs => ?_⟩⟩
    · rw [Segment.pg (.single he)]
    rcases he.session_cases sessionId with ⟨hs', -⟩ | ⟨_, _, _, _, -, -, hid, htick, -, -⟩ |
      ⟨session0, _, session', _, -, hs0, -, hstep, hs', -⟩
    · exact ⟨session, hs'.trans hs, rfl⟩
    · have hdistinct1 : DistinctDraws w1.env UUID.toText n := by
        rwa [(Segment.persists hseg).env]
      rw [hid, hdrawn1.unused hdistinct1 (htick.trans_le hn)] at hs
      cases hs
    · rw [hs0, Option.some.injEq] at hs
      exact ⟨session', hs', hs ▸ hstep.agentTypeId⟩

theorem serve_steady (howned : ∀ wr ∈ q.writes, wr.Owned request other w)
    (hregistered : Registered other w) : Steady other w (World.serve q w).2 where
  agentTypes := by
    refine World.serve_keeps (R := Preserves fun pg : Postgres => pg.agentTypes.filter
      (·.name = other) = w.pg.agentTypes.filter (·.name = other)) (fun pg pg' wr hwr h hsame => ?_)
      rfl
    refine (write_registered h ?_ fun id hid row hrow hname => ?_).trans hsame
    · obtain ⟨row, hrow, hname⟩ := hregistered
      exact ⟨row, (mem_filter_name hsame hname).mpr hrow, hname⟩
    · have hdelete := howned wr hwr
      subst hid
      exact hdelete row ((mem_filter_name hsame hname).mp hrow) hname
  sessions _ session hs := ⟨session, by rwa [World.serve_sessions], rfl⟩

/-! ## All requests together -/

variable {ι : Type} [DecidableEq ι] {requests : ι → Request} {c : Loop host ι Response} {i : ι}

/-- What keeps the registered agent type `other` apart from the rest, in every state of a run. -/
structure Apart (requests : ι → Request) (other : String) (n : Nat) (c : Loop host ι Response) :
    Prop where
  serves : Serves requests c
  owns : c.Conforms (fun i => owned other (requests i)) fun _ => AnyEnd
  drawn : SessionsDrawn c.store
  distinct : DistinctDraws c.store.env UUID.toText n
  registered : Registered other c.store

omit [DecidableEq ι] in
theorem apart_serving (hdrawn : SessionsDrawn w) (hdistinct : DistinctDraws w.env UUID.toText n)
    (hregistered : Registered other w) : Apart requests other n (serving w requests) :=
  ⟨serves_serving w requests, Loop.conforms_start fun i _ hw' =>
    handle_owned (requests i) (hw'.registered hregistered), hdrawn, hdistinct, hregistered⟩

/-- A step is nothing, a segment, or a statement with rows of its own. -/
theorem Apart.step_cases (h : Apart requests other n c) (i : ι) :
    c.step i = c ∨ (∃ l, Segment (requests i) l c.store (c.step i).store) ∨
    ∃ q : Sql, (c.step i).store = (World.serve q c.store).2 ∧
      ∀ wr ∈ q.writes, wr.Owned (requests i) other c.store := by
  rcases h.serves.step_cases i with hs | ⟨-, hseg, -⟩ | ⟨q, k, hprog, -, hstore, -⟩
  · exact .inl hs
  · exact .inr (.inl ⟨_, hseg⟩)
  · refine .inr (.inr ⟨q, hstore, ?_⟩)
    have hwaits := h.owns i (by simp [Task.Ended, hprog])
    rw [hprog] at hwaits
    exact (hwaits c.store (refl_of (Steady other) _)).1

theorem Apart.step (h : Apart requests other n c) (hn : (c.step i).store.tick ≤ n) :
    Apart requests other n (c.step i) := by
  have hsteady : SessionsDrawn (c.step i).store ∧ Steady other c.store (c.step i).store := by
    rcases h.step_cases i with hs | ⟨l, hseg⟩ | ⟨q, hstore, howned⟩
    · rw [hs]
      exact ⟨h.drawn, refl_of _ _⟩
    · refine ⟨?_, hseg.steady h.drawn h.distinct hn⟩
      have hkeeps : Preserves SessionsDrawn c.store (c.step i).store :=
        hseg.keeps fun _ _ he => he.sessionsDrawn
      exact hkeeps h.drawn
    · rw [hstore]
      exact ⟨serve_sessionsDrawn q h.drawn, serve_steady howned h.registered⟩
  refine ⟨h.serves.step i, Loop.Conforms.step h.owns fun _ _ => hsteady.2, hsteady.1, ?_,
    hsteady.2.registered h.registered⟩
  rw [(h.serves.persists i).env]
  exact h.distinct

theorem Apart.sameTenant (h : Apart requests other n c) (hn : (c.step i).store.tick ≤ n)
    (hno : ¬ (requests i).Concerns other c.store) :
    SameTenant other c.store (c.step i).store := by
  rcases h.step_cases i with hs | ⟨l, hseg⟩ | ⟨q, hstore, howned⟩
  · rw [hs]
    exact refl_of _ _
  · exact hseg.sameTenant h.drawn h.distinct hn hno
  · rw [hstore]
    exact serve_sameTenant howned h.registered hno

/-- Whatever requests are made, in whatever interleaving and with whatever failures: a step of a
request that is not about a registered agent type leaves everything that is stored for it as it
is. -/
theorem agent_types_apart (w : World) (hdrawn : SessionsDrawn w) (requests : ι → Request)
    (other : String) (hregistered : Registered other w) (sched : List ι) (i : ι)
    (hdistinct : DistinctDraws w.env UUID.toText
      ((serving w requests).run (sched ++ [i])).store.tick)
    (hno : ¬ (requests i).Concerns other ((serving w requests).run sched).store) :
    SameTenant other ((serving w requests).run sched).store
      ((serving w requests).run (sched ++ [i])).store := by
  have hticks := (serves_serving w requests).ticks
    (le_refl ((serving w requests).run (sched ++ [i])).store.tick)
  obtain ⟨hpre, hlast, -⟩ := Loop.meets_append.mp hticks
  have hapart := hpre.invariant (fun _ _ hc hn => hc.step hn)
    (apart_serving hdrawn hdistinct hregistered)
  have hsame := hapart.sameTenant hlast hno
  rw [Loop.run_append]
  exact hsame

/-- A second agent type is created while the readiness of the first is asked for. -/
def Sample.bakery : Bool → Request
  | false => .create { Sample.shop with name := "bakery", name_length := by decide }
  | true => .readiness "shop"

theorem agent_types_apart_of_creation :
    SameTenant "shop" ((serving Sample.withShop Sample.bakery).run
        [true, false, false, true, false, false]).store
      ((serving Sample.withShop Sample.bakery).run
        ([true, false, false, true, false, false] ++ [false])).store :=
  agent_types_apart Sample.withShop (fun _ _ h => by cases h) Sample.bakery "shop"
    ⟨Sample.shopRow, List.mem_cons_self, rfl⟩ [true, false, false, true, false, false] false
    (by decide +kernel)
    (by
      rintro (hname | ⟨_, _, hsession, -⟩)
      · simp [Sample.bakery, Request.agentType, Sample.shop] at hname
      · cases hsession)

end AgentWorx
