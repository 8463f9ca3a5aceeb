import AgentWorx.Verify.Frames

/-!
# The calls of a session

`SessionStep` is the state machine of one session and its contracts; the inversion lemmas say that a
call of `session_manager.py` raises and leaves the session alone or takes a transition of it. What
closing does to the graph is `UpsertsRole`, one contract after another.
-/

namespace AgentWorx

open Coop Coop.Sync

/-! ## Transitions of a session -/

/-- The session a request is about. -/
def Request.sessionId : Request → Option String
  | .turn sessionId .. | .resolve sessionId .. | .close sessionId => some sessionId
  | _ => none

/-- A session and its contracts, before and after an accepted call. -/
inductive SessionStep : Request → SimulationSession × List AgentContract →
    SimulationSession × List AgentContract → Prop
  | turn {sessionId turnInput toAgent messageFields session agents}
      (hactive : session.status = .active) (hpending : countUnresolvedViolations session = 0) :
      SessionStep (.turn sessionId turnInput toAgent messageFields) (session, agents)
        (session.addTurn (newTurn session agents turnInput toAgent messageFields).1
          (newTurn session agents turnInput toAgent messageFields).2, agents)
  | resolve {sessionId violationIndex resolution clarification session agents lastTurn index
      violation updatedAgents coordEdgeWritten}
      (hlast : session.turnHistory.getLast? = some lastTurn)
      (hindex : pyIndex lastTurn.violations.length violationIndex = some index)
      (hviolation : lastTurn.violations[index]? = some violation)
      (happly : applyResolution violation resolution clarification agents =
        .ok (updatedAgents, coordEdgeWritten)) :
      SessionStep (.resolve sessionId violationIndex resolution clarification) (session, agents)
        (session.resolve lastTurn index violation resolution clarification coordEdgeWritten,
          updatedAgents)
  | close {sessionId session agents} {closedAt : Datetime} (hactive : session.status = .active) :
      SessionStep (.close sessionId) (session, agents)
        ({ session with status := .closed, closedAt := some closedAt }, agents)

/-! ## Turns and resolutions -/

variable {w : World} {sessionId : String}

theorem getSession_cases (sessionId : String) (w : World) :
    (∃ session, w.sessions sessionId = some session ∧
      (getSession sessionId).exec w = (.ok session, w)) ∨
    (w.sessions sessionId = none ∧
      (getSession sessionId).exec w = (.error (.sessionNotFound sessionId), w)) := by
  simp only [getSession, exec_get_bind]
  cases h : w.sessions sessionId with
  | none => exact .inr ⟨rfl, rfl⟩
  | some session => exact .inl ⟨session, rfl, rfl⟩

theorem getSessionAgents_cases (sessionId : String) (w : World) :
    (∃ agents, w.sessionAgents sessionId = some agents ∧
      (getSessionAgents sessionId).exec w = (.ok agents, w)) ∨
    (w.sessionAgents sessionId = none ∧
      (getSessionAgents sessionId).exec w = (.error (.keyError sessionId), w)) := by
  simp only [getSessionAgents, exec_get_bind]
  cases h : w.sessionAgents sessionId with
  | none => exact .inr ⟨rfl, rfl⟩
  | some agents => exact .inl ⟨agents, rfl, rfl⟩

theorem getSession_some {session : SimulationSession} (hs : w.sessions sessionId = some session) :
    (getSession sessionId).exec w = (.ok session, w) := by
  simp only [getSession, exec_get_bind, hs]
  rfl

theorem getSessionAgents_some {agents : List AgentContract}
    (ha : w.sessionAgents sessionId = some agents) :
    (getSessionAgents sessionId).exec w = (.ok agents, w) := by
  simp only [getSessionAgents, exec_get_bind, ha]
  rfl

@[simp] theorem World.setSessionAgents_self {agents : List AgentContract}
    (h : w.sessionAgents sessionId = some agents) : w.setSessionAgents sessionId agents = w := by
  simp [World.setSessionAgents, ← h]

/-- `submit_turn` raises and changes nothing, or takes the transition of a turn. -/
theorem submitTurn_cases (sessionId : String) (turnInput : SimulationTurnInput) (toAgent : String)
    (messageFields : List String) (w : World) :
    (∃ e, (submitTurn sessionId turnInput toAgent messageFields).exec w = (.error e, w)) ∨
    (∃ session agents, w.sessions sessionId = some session ∧
      w.sessionAgents sessionId = some agents ∧ session.status = .active ∧
      countUnresolvedViolations session = 0 ∧
      (submitTurn sessionId turnInput toAgent messageFields).exec w =
        (.ok (newTurn session agents turnInput toAgent messageFields).1, w.setSession sessionId
          (session.addTurn (newTurn session agents turnInput toAgent messageFields).1
            (newTurn session agents turnInput toAgent messageFields).2))) := by
  rcases getSession_cases sessionId w with ⟨session, hs, he⟩ | ⟨-, he⟩
  · rw [submitTurn, exec_bind_ok he]
    dsimp only
    split_ifs with hclosed hpending
    · exact .inl ⟨_, rfl⟩
    · exact .inl ⟨_, rfl⟩
    · rcases getSessionAgents_cases sessionId w with ⟨agents, ha, he⟩ | ⟨-, he⟩
      · rw [exec_bind_ok he]
        have hactive : session.status = .active := by
          cases h : session.status with
          | active => rfl
          | closed => exact absurd h hclosed
        exact .inr ⟨session, agents, hs, ha, hactive, not_not.mp hpending, rfl⟩
      · rw [exec_bind_error he]
        exact .inl ⟨_, rfl⟩
  · rw [submitTurn, exec_bind_error he]
    exact .inl ⟨_, rfl⟩

theorem pyIndex_lt {length index : Nat} {i : Int} (h : pyIndex length i = some index) :
    i < length := by
  unfold pyIndex at h
  split_ifs at h <;> omega

/-- Where the violation is there, `resolve_violation` does what `apply_resolution` says. -/
theorem resolveViolation_some {session : SimulationSession} {agents : List AgentContract}
    {lastTurn : SimulationTurnResult} {violationIndex : Int} {index : Nat}
    {violation : ContractViolation} (hs : w.sessions sessionId = some session)
    (ha : w.sessionAgents sessionId = some agents)
    (hlast : session.turnHistory.getLast? = some lastTurn)
    (hindex : pyIndex lastTurn.violations.length violationIndex = some index)
    (hviolation : lastTurn.violations[index]? = some violation) (resolution : String)
    (clarification : Option String) :
    (resolveViolation sessionId violationIndex resolution clarification).exec w =
      match applyResolution violation resolution clarification agents with
      | .error e => (.error e, w)
      | .ok (updatedAgents, coordEdgeWritten) =>
        (.ok ⟨true, coordEdgeWritten⟩, (w.setSession sessionId
          (session.resolve lastTurn index violation resolution clarification
            coordEdgeWritten)).setSessionAgents sessionId updatedAgents) := by
  rw [resolveViolation, exec_bind_ok (getSession_some hs), hlast]
  dsimp only
  rw [if_neg (not_le.mpr (pyIndex_lt hindex)), hindex]
  dsimp only
  rw [hviolation]
  dsimp only
  rw [exec_bind_ok (getSessionAgents_some ha)]
  cases applyResolution violation resolution clarification agents <;> rfl

/-- `resolve_violation` raises and changes nothing, or takes the transition of a resolution. -/
theorem resolveViolation_cases (sessionId : String) (violationIndex : Int) (resolution : String)
    (clarification : Option String) (w : World) :
    (∃ e, (resolveViolation sessionId violationIndex resolution clarification).exec w =
      (.error e, w)) ∨
    (∃ session agents lastTurn index violation updatedAgents coordEdgeWritten,
      w.sessions sessionId = some session ∧ w.sessionAgents sessionId = some agents ∧
      session.turnHistory.getLast? = some lastTurn ∧
      pyIndex lastTurn.violations.length violationIndex = some index ∧
      lastTurn.violations[index]? = some violation ∧
      applyResolution violation resolution clarification agents =
        .ok (updatedAgents, coordEdgeWritten) ∧
      (resolveViolation sessionId violationIndex resolution clarification).exec w =
        (.ok ⟨true, coordEdgeWritten⟩, (w.setSession sessionId
          (session.resolve lastTurn index violation resolution clarification
            coordEdgeWritten)).setSessionAgents sessionId updatedAgents)) := by
  rcases getSession_cases sessionId w with ⟨session, hs, he⟩ | ⟨-, he⟩
  · rw [resolveViolation, exec_bind_ok he]
    cases hlast : session.turnHistory.getLast? with
    | none => exact .inl ⟨_, rfl⟩
    | some lastTurn =>
      dsimp only
      split_ifs with hrange
      · exact .inl ⟨_, rfl⟩
      · cases hindex : pyIndex lastTurn.violations.length violationIndex with
        | none => exact .inl ⟨_, rfl⟩
        | some index =>
          dsimp only
          cases hviolation : lastTurn.violations[index]? with
          | none => exact .inl ⟨_, rfl⟩
          | some violation =>
            dsimp only
            rcases getSessionAgents_cases sessionId w with ⟨agents, ha, he⟩ | ⟨-, he⟩
            · rw [exec_bind_ok he]
              cases happly : applyResolution violation resolution clarification agents with
              | error e => exact .inl ⟨e, rfl⟩
              | ok r =>
                exact .inr ⟨session, agents, lastTurn, index, violation, r.1, r.2, hs, ha, hlast,
                  hindex, hviolation, happly, rfl⟩
            · rw [exec_bind_error he]
              exact .inl ⟨_, rfl⟩
  · rw [resolveViolation, exec_bind_error he]
    exact .inl ⟨_, rfl⟩

/-! ## Roles -/

/-- The two branches of `_upsert_agent_role`. -/
inductive UpsertsRole (w : World) (agent : AgentContract) (g : Graph) : Graph → Prop
  | update {role : AgentRole} (hrole : role ∈ g.roles) (hname : role.name = agent.agentName) :
      UpsertsRole w agent g (g.setRole role.id agent)
  | create {n : Nat} (hdrawn : n < w.tick) (hname : ∀ role ∈ g.roles, role.name ≠ agent.agentName)
      (hid : ∀ role ∈ g.roles, role.id ≠ roleId (w.env.uuid n)) :
      UpsertsRole w agent g (g.addRole (roleId (w.env.uuid n)) agent)

/-- One change that closing makes to the graph of the agent type, or time passing. -/
inductive FlushStep (agentType : String) (agents : List AgentContract) : World → World → Prop
  | tick (w : World) : FlushStep agentType agents w w.bump
  | role {w : World} {agent : AgentContract} {g : Graph} (hagent : agent ∈ agents)
      (h : UpsertsRole w agent (w.graphs agentType) g) : FlushStep agentType agents w
        (w.setGraph agentType g)
  | handoffs {w : World} (edges : List HandsOffTo) : FlushStep agentType agents w
      (w.setGraph agentType { w.graphs agentType with handsOffTo := edges })

/-- What closing does to the graph before the session is marked as closed. -/
abbrev Flush (agentType : String) (agents : List AgentContract) : World → World → Prop :=
  Relation.ReflTransGen (FlushStep agentType agents)

instance (agentType : String) (agents : List AgentContract) :
    IsPreorder World (Flush agentType agents) where
  refl _ := .refl
  trans _ _ _ h1 h2 := h1.trans h2

/-- `_upsert_agent_role` raises, or takes one of its branches. -/
theorem upsertAgentRole_cases (agentType : String) (agent : AgentContract) (w : World) :
    (∃ e n, (upsertAgentRole agentType agent).exec w = (.error e, World.bump^[n] w)) ∨
    (∃ n g, UpsertsRole (World.bump^[n] w) agent (w.graphs agentType) g ∧
      (upsertAgentRole agentType agent).exec w =
        (.ok (), (World.bump^[n] w).setGraph agentType g)) := by
  unfold upsertAgentRole
  rcases execute_cases agentType (matchRoleByName agent.agentName) ["name"] w with
    ⟨e, he⟩ | ⟨e, he⟩ | ⟨rows, g, -, -, hg, he⟩
  · rw [exec_bind_error he]
    exact .inl ⟨e, 0, rfl⟩
  · rw [exec_bind_error he]
    exact .inl ⟨e, 1, rfl⟩
  · cases hg
    rw [exec_bind_ok he]
    rw [show w.bump.setGraph agentType (w.graphs agentType) = w.bump from
      World.setGraph_self w.bump agentType]
    set rows := ((w.graphs agentType).roles.filter (·.name = agent.agentName)).map (·.id) with hrows
    cases hhead : rows.head? with
    | some id =>
      obtain ⟨role, hrole, rfl⟩ := List.mem_map.mp (List.mem_of_mem_head? hhead)
      simp only [List.mem_filter, decide_eq_true_eq] at hrole
      dsimp only
      rcases execute_cases agentType (setRole role.id agent) rolePayload w.bump with
        ⟨e, he⟩ | ⟨e, he⟩ | ⟨u, g, -, -, hg, he⟩ <;> rw [he]
      · exact .inl ⟨e, 1, rfl⟩
      · exact .inl ⟨e, 2, rfl⟩
      · cases hg
        exact .inr ⟨2, _, .update hrole.1 hrole.2, rfl⟩
    | none =>
      have hname : ∀ role ∈ (w.graphs agentType).roles, role.name ≠ agent.agentName := by
        simpa [hrows] using hhead
      dsimp only
      have hdraw : uuid4.exec w.bump = (.ok (w.env.uuid w.bump.tick), w.bump.bump) := rfl
      rw [exec_bind_ok hdraw]
      rcases execute_cases agentType (createRole (roleId (w.env.uuid w.bump.tick)) agent)
        rolePayload w.bump.bump with ⟨e, he⟩ | ⟨e, he⟩ | ⟨u, g, -, -, hg, he⟩ <;> rw [he]
      · exact .inl ⟨e, 2, rfl⟩
      · exact .inl ⟨e, 3, rfl⟩
      · simp only [createRole] at hg
        split_ifs at hg with hid
        cases hg
        refine .inr ⟨3, _, .create (n := w.bump.tick) (by simp) hname ?_, rfl⟩
        simpa using hid

/-! ## Closing -/

variable {agentType : String} {agents : List AgentContract}

theorem Flush.ticks (w : World) (n : Nat) : Flush agentType agents w (World.bump^[n] w) := by
  induction n generalizing w with
  | zero => exact .refl
  | succ n ih => exact .head (.tick w) (ih w.bump)

theorem Flush.env_tick {w w' : World} (h : Flush agentType agents w w') :
    w'.env = w.env ∧ w.tick ≤ w'.tick := by
  induction h with
  | refl => exact ⟨rfl, le_rfl⟩
  | tail _ hstep ih =>
    obtain ⟨henv, htick⟩ := ih
    cases hstep with
    | tick => exact ⟨henv, htick.trans (Nat.le_succ _)⟩
    | role => exact ⟨henv, htick⟩
    | handoffs => exact ⟨henv, htick⟩

/-- While the graph is written the sessions stay as they are. -/
theorem Flush.sessions {w w' : World} (h : Flush agentType agents w w') :
    w'.sessions = w.sessions := by
  induction h with
  | refl => rfl
  | tail _ hstep ih => cases hstep <;> exact ih

theorem Flush.sessionAgents {w w' : World} (h : Flush agentType agents w w') :
    w'.sessionAgents = w.sessionAgents := by
  induction h with
  | refl => rfl
  | tail _ hstep ih => cases hstep <;> exact ih

theorem Flush.pg {w w' : World} (h : Flush agentType agents w w') : w'.pg = w.pg := by
  induction h with
  | refl => rfl
  | tail _ hstep ih => cases hstep <;> exact ih

theorem Flush.tables {w w' : World} (h : Flush agentType agents w w') (name : String) :
    (w'.graphs name).tables = (w.graphs name).tables := by
  induction h with
  | refl => rfl
  | tail _ hstep ih =>
    rw [← ih]
    cases hstep with
    | tick => rfl
    | role _ hrole =>
      by_cases hname : name = agentType
      · subst hname
        cases hrole <;> simp [Graph.setRole, Graph.addRole]
      · simp [hname]
    | handoffs =>
      by_cases hname : name = agentType
      · subst hname
        simp
      · simp [hname]

/-- A flush without contracts leaves the roles alone. -/
theorem Flush.roles {w w' : World} (h : Flush agentType [] w w') (name : String) :
    (w'.graphs name).roles = (w.graphs name).roles := by
  induction h with
  | refl => rfl
  | tail _ hstep ih =>
    cases hstep with
    | tick => exact ih
    | role hagent => cases hagent
    | handoffs =>
      rw [← ih]
      by_cases hname : name = agentType
      · subst hname
        simp
      · simp [hname]

theorem bump_iterate_graphs (w : World) (n : Nat) : (World.bump^[n] w).graphs = w.graphs := by
  induction n generalizing w with
  | zero => rfl
  | succ n ih => exact ih w.bump

theorem upsertAgentRole_flush {agent : AgentContract} (h : agent ∈ agents) :
    Keeps (Flush agentType agents) (upsertAgentRole agentType agent) := by
  intro w
  rcases upsertAgentRole_cases agentType agent w with ⟨e, n, he⟩ | ⟨n, g, hg, he⟩ <;> rw [he]
  · exact Flush.ticks w n
  · rw [← bump_iterate_graphs w n] at hg
    exact (Flush.ticks w n).tail (.role h hg)

theorem upsertAgentRoles_flush (agentType : String) (agents : List AgentContract) :
    Keeps (Flush agentType agents) (agents.forM (upsertAgentRole agentType)) :=
  .forM fun _ h => upsertAgentRole_flush h

theorem upsertHandoffEdge_flush (fromRole toRole : String) (confidence : ℚ) :
    Keeps (Flush agentType agents) (upsertHandoffEdge agentType fromRole toRole confidence) := by
  have htick (w : World) : Flush agentType agents w w.bump := .single (.tick w)
  refine .bind (keeps_execute htick fun w rows g hg => ?_) fun rows => ?_
  · cases hg
    rw [World.setGraph_self]
  · split
    · refine keeps_execute htick fun w u g hg => ?_
      cases hg
      exact .single (.handoffs _)
    · refine keeps_execute htick fun w u g hg => ?_
      cases hg
      exact .single (.handoffs _)

theorem writeHandoffEdges_flush (session : SimulationSession) :
    Keeps (Flush agentType agents) (writeHandoffEdges agentType session) :=
  .bind (.forM fun _ _ => upsertHandoffEdge_flush _ _ _) fun _ => .pure _

theorem writeHandoffEdges_yields (session : SimulationSession) :
    Yields (· = session.handoffPairs.length) (writeHandoffEdges agentType session) :=
  .bind' fun _ => .pure rfl

/-- Closing an active session: the roles are written, then the handoffs, then the session is closed;
the first write that raises ends it. -/
theorem flushSession_active {session : SimulationSession} (hs : w.sessions sessionId = some session)
    (ha : w.sessionAgents sessionId = some agents) (hactive : session.status = .active) :
    (∃ e w1, (agents.forM (upsertAgentRole session.agentTypeId)).exec w = (.error e, w1) ∧
      (flushSession sessionId).exec w = (.error e, w1)) ∨
    (∃ e w1 w2, (agents.forM (upsertAgentRole session.agentTypeId)).exec w = (.ok (), w1) ∧
      (writeHandoffEdges session.agentTypeId session).exec w1 = (.error e, w2) ∧
      (flushSession sessionId).exec w = (.error e, w2)) ∨
    ∃ w1 w2 edges closedAt,
      (agents.forM (upsertAgentRole session.agentTypeId)).exec w = (.ok (), w1) ∧
      (writeHandoffEdges session.agentTypeId session).exec w1 = (.ok edges, w2) ∧
      (flushSession sessionId).exec w = (.ok (summaryRow sessionId session closedAt),
        w2.bump.setSession sessionId
          { session with status := .closed, closedAt := some closedAt }) := by
  rw [flushSession, exec_bind_ok (getSession_some hs), if_neg (by simp [hactive]),
    exec_bind_ok (getSessionAgents_some ha)]
  rcases hr : (agents.forM (upsertAgentRole session.agentTypeId)).exec w with ⟨e | u, w1⟩
  · rw [exec_bind_error hr]
    exact .inl ⟨e, w1, rfl, rfl⟩
  · rw [exec_bind_ok hr]
    rcases hh : (writeHandoffEdges session.agentTypeId session).exec w1 with ⟨e | edges, w2⟩
    · rw [exec_bind_error hh]
      exact .inr (.inl ⟨e, w1, w2, rfl, hh, rfl⟩)
    · rw [exec_bind_ok hh]
      have hedges : edges = session.handoffPairs.length :=
        writeHandoffEdges_yields session w1 edges (by rw [hh])
      subst hedges
      exact .inr (.inr ⟨w1, w2, _, ⟨w2.env.clock w2.tick, some 0⟩, rfl, hh, rfl⟩)

/-- Closing a session: it raises before anything is written, it raises while the graph is written,
or it writes all of it and marks the session as closed. -/
theorem flushSession_cases (sessionId : String) (w : World) :
    (∃ e, (flushSession sessionId).exec w = (.error e, w)) ∨
    ∃ session agents, w.sessions sessionId = some session ∧
      w.sessionAgents sessionId = some agents ∧ session.status = .active ∧
      ((∃ e w', Flush session.agentTypeId agents w w' ∧
        (flushSession sessionId).exec w = (.error e, w')) ∨
      ∃ w1 w2 edges closedAt,
        (agents.forM (upsertAgentRole session.agentTypeId)).exec w = (.ok (), w1) ∧
        (writeHandoffEdges session.agentTypeId session).exec w1 = (.ok edges, w2) ∧
        (flushSession sessionId).exec w = (.ok (summaryRow sessionId session closedAt),
          w2.bump.setSession sessionId
            { session with status := .closed, closedAt := some closedAt })) := by
  rcases getSession_cases sessionId w with ⟨session, hs, he⟩ | ⟨-, he⟩
  · by_cases hclosed : session.status = .closed
    · rw [flushSession, exec_bind_ok he, if_pos hclosed]
      exact .inl ⟨_, rfl⟩
    · have hactive : session.status = .active := by
        cases h : session.status with
        | active => rfl
        | closed => exact absurd h hclosed
      rcases getSessionAgents_cases sessionId w with ⟨agents, ha, -⟩ | ⟨-, hnone⟩
      · refine .inr ⟨session, agents, hs, ha, hactive, ?_⟩
        have hhandoffs : Keeps (Flush session.agentTypeId agents)
            (writeHandoffEdges session.agentTypeId session) := writeHandoffEdges_flush session
        rcases flushSession_active hs ha hactive with
          ⟨e, w1, hr, hflush⟩ | ⟨e, w1, w2, hr, hh, hflush⟩ | hok
        · have h1 := upsertAgentRoles_flush session.agentTypeId agents w
          rw [hr] at h1
          exact .inl ⟨e, w1, h1, hflush⟩
        · have h1 := upsertAgentRoles_flush session.agentTypeId agents w
          have h2 := hhandoffs w1
          rw [hr] at h1
          rw [hh] at h2
          exact .inl ⟨e, w2, h1.trans h2, hflush⟩
        · exact .inr hok
      · rw [flushSession, exec_bind_ok he, if_neg hclosed, exec_bind_error hnone]
        exact .inl ⟨_, rfl⟩
  · rw [flushSession, exec_bind_error he]
    exact .inl ⟨_, rfl⟩

/-! ## The requests of a session -/

/-- A call on a session begins with a segment. -/
theorem session_handle {request : Request} (h : request.sessionId = some sessionId) :
    ∃ f k, request.handle = .sync f k := by
  cases request <;> first | exact ⟨_, _, rfl⟩ | cases h

/-- The first segment of a request to close a session is `flushSession`, and what is left after it
is to insert the summary. -/
theorem close_settle (sessionId : String) (w : World) :
    (∃ e e' w', (flushSession sessionId).exec w = (.error e, w') ∧
      (Request.close sessionId).handle.settle w = (.done (.error e'), w')) ∨
    ∃ summary w' k, (flushSession sessionId).exec w = (.ok summary, w') ∧
      (Request.close sessionId).handle.settle w =
        (.await (.execute (.insertSimulationSessionSummary summary)) k, w') ∧
      ∀ u, ∃ a, k (.ok u) = .done (.ok a) := by
  rcases hflush : (flushSession sessionId).exec w with ⟨e | summary, w'⟩
  · have hclose : (closeSession sessionId).settle w = (.done (.error e), w') := by
      change (Async.lift (flushSession sessionId) >>= _ : Coro CloseResult).settle w = _
      rw [Async.settle_bind, Async.settle_lift, hflush]
      rfl
    have hhandle : ∃ e', (Request.close sessionId).handle.settle w = (.done (.error e'), w') := by
      change ∃ e', (withHttp _ (closeSession sessionId) >>= _ : Coro Response).settle w = _
      rw [Async.settle_bind, withHttp, Async.settle_tryCatch, hclose]
      exact ⟨_, rfl⟩
    obtain ⟨e', he'⟩ := hhandle
    exact .inl ⟨e, e', w', rfl, he'⟩
  · have hclose : ∃ k, (closeSession sessionId).settle w =
        (.await (.execute (.insertSimulationSessionSummary summary)) k, w') ∧
        ∀ u, ∃ a, k (.ok u) = .done (.ok a) := by
      change ∃ k, (Async.lift (flushSession sessionId) >>= _ : Coro CloseResult).settle w = _ ∧ _
      rw [Async.settle_bind, Async.settle_lift, hflush]
      exact ⟨_, rfl, fun u => ⟨_, rfl⟩⟩
    obtain ⟨k, hk, hreturns⟩ := hclose
    have hhandle : ∃ k, (Request.close sessionId).handle.settle w =
        (.await (.execute (.insertSimulationSessionSummary summary)) k, w') ∧
        ∀ u, ∃ a, k (.ok u) = .done (.ok a) := by
      change ∃ k, (withHttp _ (closeSession sessionId) >>= _ : Coro Response).settle w = _ ∧ _
      rw [Async.settle_bind, withHttp, Async.settle_tryCatch, hk]
      refine ⟨_, rfl, fun u => ?_⟩
      obtain ⟨a, ha⟩ := hreturns u
      dsimp only
      rw [ha]
      exact ⟨_, rfl⟩
    obtain ⟨k', hk'⟩ := hhandle
    exact .inr ⟨summary, w', k', rfl, hk'⟩

/-- A request to close a session that has not taken a step. -/
theorem close_begins {ι : Type} [DecidableEq ι] (w : World) {requests : ι → Request}
    {sched : List ι} {i : ι} (hnew : i ∉ sched) (hclose : requests i = .close sessionId) :
    ((serving w requests).run sched).tasks i = ⟨(Request.close sessionId).handle, none⟩ := by
  rw [Loop.run_tasks_of_notMem _ hnew, ← hclose]
  rfl

/-- The first step of a request to close a session. -/
theorem close_step {ι : Type} [DecidableEq ι] {c : Loop host ι Response} {i : ι}
    (h : c.tasks i = ⟨(Request.close sessionId).handle, none⟩) :
    (∃ e e', (flushSession sessionId).exec c.store = (.error e, (c.step i).store) ∧
      ((c.step i).tasks i).Ended (.error e')) ∨
    ∃ summary k, (flushSession sessionId).exec c.store = (.ok summary, (c.step i).store) ∧
      ((c.step i).tasks i).prog = .await (.execute (.insertSimulationSessionSummary summary)) k ∧
      ∀ u, ∃ a, k (.ok u) = .done (.ok a) := by
  have hrequest : (Request.close sessionId).sessionId = some sessionId := rfl
  obtain ⟨f, k, hhandle⟩ := session_handle hrequest
  obtain ⟨hstore, hprog⟩ := Loop.step_segment (c := c) (i := i) (by rw [h]; exact hhandle)
  rw [h] at hstore hprog
  rcases close_settle sessionId c.store with ⟨e, e', w', hflush, hsettle⟩ |
    ⟨summary, w', k, hflush, hsettle, hreturns⟩ <;> rw [hsettle] at hstore hprog <;> subst hstore
  · exact .inl ⟨e, e', hflush, hprog⟩
  · exact .inr ⟨summary, k, hflush, hprog, hreturns⟩

end AgentWorx
