import AgentWorx.Verify.Consistency
import AgentWorx.Verify.CloseSummary

/-!
# The log of a session, replayed

A session starts with the contracts of a stored composition and changes them in place; each change
is also logged in `coord_namespace_writes`. Log and contracts never drift apart: replaying the log
over the composition gives the contracts, in every state that requests reach. Every role that
closing has written is therefore a contract of a stored composition, with a beginning of the log of
one of its sessions replayed over it.
-/

namespace AgentWorx

open Coop Coop.Sync

variable {request : Request} {l : Option (Event host)} {w w' : World} {sessionId : String} {n : Nat}
  {session session' : SimulationSession} {agents agents' : List AgentContract}

/-- The contracts after the logged changes have been made again, oldest first. -/
def replay (writes : List CoordNamespaceWrite) (agents : List AgentContract) : List AgentContract :=
  writes.foldl (fun agents write => clarifyField write.agentName write.field write.fieldType agents)
    agents

@[simp] theorem replay_nil (agents : List AgentContract) : replay [] agents = agents := rfl

theorem replay_append (writes more : List CoordNamespaceWrite) (agents : List AgentContract) :
    replay (writes ++ more) agents = replay more (replay writes agents) := List.foldl_append ..

/-! ## Sessions -/

/-- A session has moved on: its log has grown. -/
structure SimulationSession.MovedOn (session session' : SimulationSession) : Prop where
  agentTypeId : session'.agentTypeId = session.agentTypeId
  compositionVersion : session'.compositionVersion = session.compositionVersion
  log : session.coordNamespaceWrites <+: session'.coordNamespaceWrites

theorem SimulationSession.MovedOn.refl (session : SimulationSession) : session.MovedOn session :=
  ⟨rfl, rfl, List.prefix_refl _⟩

/-- A call of a session changes its contracts as it logs. -/
theorem SessionStep.logs (h : SessionStep request (session, agents) (session', agents')) :
    session.MovedOn session' ∧ ∀ team, agents = replay session.coordNamespaceWrites team →
      agents' = replay session'.coordNamespaceWrites team := by
  cases h with
  | turn => exact ⟨⟨rfl, rfl, List.prefix_refl _⟩, fun _ h => h⟩
  | close => exact ⟨⟨rfl, rfl, List.prefix_refl _⟩, fun _ h => h⟩
  | @resolve _ _ resolution clarification _ _ lastTurn index violation _ coordEdgeWritten _ _ _
      happly =>
    unfold applyResolution at happly
    split_ifs at happly with hedge hother
    · cases happly
      exact ⟨⟨rfl, rfl, List.prefix_refl _⟩, fun _ h => h⟩
    · split at happly
      · cases happly
      · cases happly
      · cases happly
        refine ⟨⟨rfl, rfl, List.prefix_append ..⟩, fun team h => ?_⟩
        subst h
        simp only [SimulationSession.resolve, if_true, replay_append]
        rfl

/-- The contracts of every session are those of a stored composition with the log replayed. -/
def Replays (w : World) : Prop :=
  ∀ sessionId session, w.sessions sessionId = some session → ∃ team,
    HasTeam w session.agentTypeId session.compositionVersion team ∧
      w.sessionAgents sessionId = some (replay session.coordNamespaceWrites team)

theorem Effect.replays (he : Effect request l w w') (h : Replays w) : Replays w' := by
  have hpersists := he.persists
  intro sessionId session' hs'
  rcases he.session_cases sessionId with ⟨hs, ha⟩ |
    ⟨agentType, version, createdAt, agents, -, hteam, -, -, hs, ha⟩ |
    ⟨session, agents, session1, agents1, -, hs, ha, hstep, hs1, ha1⟩
  · rw [hs] at hs'
    obtain ⟨team, hteam, hreplay⟩ := h sessionId session' hs'
    exact ⟨team, hpersists.team hteam, ha.trans hreplay⟩
  · obtain rfl := Option.some.inj (hs.symm.trans hs')
    exact ⟨agents, hpersists.team hteam, ha⟩
  · obtain rfl := Option.some.inj (hs1.symm.trans hs')
    obtain ⟨team, hteam, hreplay⟩ := h sessionId session hs
    obtain ⟨hmoved, hlogs⟩ := hstep.logs
    refine ⟨team, ?_, ?_⟩
    · rw [hmoved.agentTypeId, hmoved.compositionVersion]
      exact hpersists.team hteam
    · rw [ha1, hlogs team (Option.some.inj (ha.symm.trans hreplay))]

/-- A session that is there stays there, as long as no new session takes its id. -/
theorem Effect.movedOn (he : Effect request l w w') (hdrawn : SessionsDrawn w)
    (hdistinct : DistinctDraws w.env UUID.toText n) (hn : w'.tick ≤ n)
    (hs : w.sessions sessionId = some session) :
    ∃ session', w'.sessions sessionId = some session' ∧ session.MovedOn session' := by
  rcases he.session_stays hdrawn hdistinct hn hs with hs' | ⟨agents, session', agents', hstep, hs'⟩
  · exact ⟨session, hs', .refl session⟩
  · exact ⟨session', hs', hstep.logs.1⟩

/-! ## Roles -/

/-- The contract is one that a session of the agent type has had: of the composition it runs, with
the beginning of its log replayed. -/
structure Traced (w : World) (agentType : String) (contract : AgentContract) (sessionId : String)
    (session : SimulationSession) (team : List AgentContract)
    (writes : List CoordNamespaceWrite) : Prop where
  stored : w.sessions sessionId = some session
  ofType : session.agentTypeId = agentType
  runs : HasTeam w agentType session.compositionVersion team
  log : writes <+: session.coordNamespaceWrites
  replayed : contract ∈ replay writes team

/-- Every role has been there before, or its contract is traced to a session. -/
def RolesTraced (graphs : String → Graph) (w : World) : Prop :=
  ∀ name, ∀ role ∈ (w.graphs name).roles, role ∈ (graphs name).roles ∨
    ∃ sessionId session team writes,
      Traced w name role.contract sessionId session team writes

variable {graphs : String → Graph} {agentType : String} {contract : AgentContract}
  {team : List AgentContract} {writes : List CoordNamespaceWrite}

theorem Traced.movedOn (h : Traced w agentType contract sessionId session team writes)
    (hpersists : Persists w w') (hs : w'.sessions sessionId = some session')
    (hmoved : session.MovedOn session') :
    Traced w' agentType contract sessionId session' team writes where
  stored := hs
  ofType := hmoved.agentTypeId.trans h.ofType
  runs := hmoved.compositionVersion ▸ hpersists.team h.runs
  log := h.log.trans hmoved.log
  replayed := h.replayed

/-- A role after a contract has been written was there before, or holds the contract. -/
theorem UpsertsRole.contract_of_mem {agent : AgentContract} {g g' : Graph} {role : AgentRole}
    (h : UpsertsRole w agent g g') (hids : (g.roles.map (·.id)).Nodup) (hrole : role ∈ g'.roles) :
    role ∈ g.roles ∨ role.contract = agent := by
  cases h with
  | @update role' hrole' hname =>
    obtain ⟨old, hold, rfl⟩ := List.mem_map.mp hrole
    split_ifs with hid
    · obtain rfl : old = role' := List.inj_on_of_nodup_map hids hold hrole' hid
      exact .inr (by simp only [AgentRole.contract, AgentRole.setContract, hname])
    · exact .inl hold
  | create _ _ _ =>
    rcases List.mem_append.mp hrole with hrole | hnew
    · exact .inl hrole
    · rw [List.mem_singleton.mp hnew]
      exact .inr rfl

theorem Effect.rolesTraced (he : Effect request l w w') (hdrawn : SessionsDrawn w)
    (hdistinct : DistinctDraws w.env UUID.toText n) (hn : w'.tick ≤ n) (hreplays : Replays w)
    (hids : ∀ name, ((w.graphs name).roles.map (·.id)).Nodup) (h : RolesTraced graphs w) :
    RolesTraced graphs w' := by
  intro name role hrole
  have hmoves {sessionId session team writes}
      (htraced : Traced w name role.contract sessionId session team writes) :
      ∃ sessionId session team writes,
        Traced w' name role.contract sessionId session team writes := by
    obtain ⟨session', hs', hmoved⟩ := he.movedOn hdrawn hdistinct hn htraced.stored
    exact ⟨sessionId, session', team, writes, htraced.movedOn he.persists hs' hmoved⟩
  have hold (hrole : role ∈ (w.graphs name).roles) : role ∈ (graphs name).roles ∨ _ :=
    (h name role hrole).imp_right fun ⟨_, _, _, _, htraced⟩ => hmoves htraced
  rcases he.roles_cases name with hroles |
    ⟨sessionId, session, agents, agent, -, hs, -, ha, htype, hagent, hupsert⟩
  · exact hold (hroles ▸ hrole)
  · rcases hupsert.contract_of_mem (hids name) hrole with hrole | rfl
    · exact hold hrole
    · obtain ⟨team, hteam, hreplay⟩ := hreplays sessionId session hs
      obtain rfl := Option.some.inj (ha.symm.trans hreplay)
      exact .inr (hmoves ⟨hs, htype, htype ▸ hteam, List.prefix_refl _, hagent⟩)

/-! ## All requests together -/

variable {ι : Type} [DecidableEq ι]

/-- In every state that requests reach, whatever fails meanwhile, the contracts of every session are
those of the stored composition it runs with its log replayed, and every role of a graph that was
not there at first holds a contract that a session of that agent type has had. -/
theorem contracts_replayed (w : World) (hw : ∀ sessionId, w.sessions sessionId = none)
    (hids : ∀ name, ((w.graphs name).roles.map (·.id)).Nodup) (requests : ι → Request)
    (sched : List ι)
    (hdistinct : DistinctDraws w.env UUID.toText ((serving w requests).run sched).store.tick) :
    Replays ((serving w requests).run sched).store ∧
      RolesTraced w.graphs ((serving w requests).run sched).store := by
  set n := ((serving w requests).run sched).store.tick with hn
  have hrun := (serves_serving w requests).invariant
    (I := fun w' => w'.env = w.env ∧ SessionsDrawn w' ∧ Replays w' ∧
      (∀ name, ((w'.graphs name).roles.map (·.id)).Nodup) ∧
      (w'.tick ≤ n → RolesTraced w.graphs w')) ?_ ?_ ?_ sched
  · obtain ⟨-, -, hreplays, -, hroles⟩ := hrun
    exact ⟨hreplays, hroles le_rfl⟩
  · rintro i l w1 w2 he ⟨henv, hdrawn, hreplays, hids, hroles⟩
    refine ⟨he.persists.env.trans henv, he.sessionsDrawn hdrawn, he.replays hreplays,
      fun name => he.roleIds (hids name), fun hlater => ?_⟩
    exact he.rolesTraced hdrawn (henv ▸ hdistinct) hlater hreplays hids
      (hroles (he.persists.tick.trans hlater))
  · rintro i l q w1 - ⟨henv, hdrawn, hreplays, hids, hroles⟩
    have hpersists := serve_persists q w1
    refine ⟨(World.serve_env q w1).trans henv, serve_sessionsDrawn q hdrawn, ?_, ?_, ?_⟩
    · intro sessionId session hs
      rw [World.serve_sessions] at hs
      obtain ⟨team, hteam, hreplay⟩ := hreplays sessionId session hs
      exact ⟨team, hpersists.team hteam, by rw [World.serve_sessionAgents, hreplay]⟩
    · simpa using hids
    · intro hlater name role hrole
      rw [World.serve_graphs] at hrole
      refine (hroles (hpersists.tick.trans hlater) name role hrole).imp_right ?_
      rintro ⟨sessionId, session, team, writes, htraced⟩
      exact ⟨sessionId, session, team, writes, htraced.movedOn hpersists
        ((World.serve_sessions ..).symm ▸ htraced.stored) (.refl session)⟩
  · exact ⟨rfl, fun _ _ hs => absurd hs (by simp [Loop.start, hw]),
      fun _ _ hs => absurd hs (by simp [Loop.start, hw]), hids, fun _ _ _ hrole => .inl hrole⟩

/-- A clarified contract, and the role that closing writes for it. -/
theorem contracts_replayed_close :
    ∃ role ∈ (((serving (Sample.withTeam .approved) (clarifying (.close Sample.sessionId))).run
      [0, 0, 1, 2, 3, 3]).store.graphs "shop").roles,
      ∃ sessionId session team writes, Traced ((serving (Sample.withTeam .approved)
        (clarifying (.close Sample.sessionId))).run [0, 0, 1, 2, 3, 3]).store "shop" role.contract
        sessionId session team writes := by
  have htraced := (contracts_replayed (Sample.withTeam .approved) (fun _ => rfl)
    (fun _ => List.nodup_nil) (clarifying (.close Sample.sessionId)) [0, 0, 1, 2, 3, 3]
    (by decide +kernel)).2 "shop"
  have hroles : (((serving (Sample.withTeam .approved) (clarifying (.close Sample.sessionId))).run
      [0, 0, 1, 2, 3, 3]).store.graphs "shop").roles ≠ [] := by
    intro h
    have hlength := congrArg List.length h
    revert hlength
    decide +kernel
  obtain ⟨role, hrole⟩ := List.exists_mem_of_ne_nil _ hroles
  exact ⟨role, hrole, (htraced role hrole).resolve_left nofun⟩

end AgentWorx
