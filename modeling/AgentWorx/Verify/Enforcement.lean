import AgentWorx.Verify.Contracts
import AgentWorx.Verify.Handoffs

/-!
# Enforced and stored contracts

A message is validated against the first contract of its receiver. Closing a session writes all
contracts in their order, and a later one of the same name replaces an earlier one. What is stored
is what has been enforced just if the first and the last contract of every name agree.
-/

namespace AgentWorx

open Coop Coop.Sync

variable {w w' : World} {agentType sessionId agentName : String} {agents : List AgentContract}
  {session : SimulationSession} {g : Graph}

/-! ## The last contract of a name -/

/-- Closing leaves the last contract of a name. -/
theorem lookup_putContracts (agentName : String) (agents contracts : List AgentContract) :
    Keyed.lookup (·.agentName) agentName (putContracts agents contracts) =
      (findAgent agentName agents.reverse).or
        (Keyed.lookup (·.agentName) agentName contracts) := by
  have hlast : Keyed.lookup (·.agentName) agentName (putContracts agents contracts) =
      ((findAgent agentName agents.reverse).map id).or
        (Keyed.lookup (·.agentName) agentName contracts) :=
    contracts_overwrite.lookup_upserts (fun _ _ _ => rfl) agentName
  rwa [Option.map_id] at hlast

/-- A name with one contract has it first and last. -/
theorem findAgent_reverse (h : (agents.map (·.agentName)).Nodup) (agentName : String) :
    findAgent agentName agents.reverse = findAgent agentName agents := by
  have hreverse : (agents.reverse.map (·.agentName)).Nodup := by
    rw [List.map_reverse]
    exact List.nodup_reverse.mpr h
  refine Option.ext fun agent => ?_
  have hfirst : findAgent agentName agents = some agent ↔
      agent ∈ agents ∧ agent.agentName = agentName := Keyed.lookup_eq_some h
  have hlast : findAgent agentName agents.reverse = some agent ↔
      agent ∈ agents.reverse ∧ agent.agentName = agentName := Keyed.lookup_eq_some hreverse
  rw [hfirst, hlast, List.mem_reverse]

theorem findAgent_isSome {agentName : String} (h : agentName ∈ agents.map (·.agentName)) :
    ∃ agent, findAgent agentName agents = some agent := by
  obtain ⟨agent, hagent, rfl⟩ := List.mem_map.mp h
  rw [← Option.isSome_iff_exists, findAgent, List.find?_isSome]
  exact ⟨agent, hagent, by simp⟩

theorem findAgent_eq_none {agentName : String} (h : agentName ∉ agents.map (·.agentName)) :
    findAgent agentName agents = none := by
  rw [findAgent, List.find?_eq_none]
  intro agent hagent hname
  exact h (of_decide_eq_true hname ▸ List.mem_map_of_mem hagent)

/-! ## The roles that closing leaves -/

/-- Each of the names has one role, which stores the contract against which messages to the name
are validated. -/
def Graph.Enforces (g : Graph) (names : List String) (agents : List AgentContract) : Prop :=
  ∀ name ∈ names, ∃ role agent, g.roles.filter (·.name = name) = [role] ∧
    findAgent name agents = some agent ∧ role.inputSchema = agent.inputSchema ∧
    role.outputSchema = agent.outputSchema ∧ role.prohibitedFields = agent.prohibitedFields

/-- The first and the last contract of a name are the same. -/
def FirstIsLast (agents : List AgentContract) : Prop :=
  ∀ name, findAgent name agents.reverse = findAgent name agents

theorem firstIsLast_of_nodup (h : (agents.map (·.agentName)).Nodup) : FirstIsLast agents :=
  fun name => findAgent_reverse h name

theorem Shows.enforces_iff {handoffs : List Handoff}
    (hg : Shows g (putContracts agents []) handoffs) :
    g.Enforces (agents.map (·.agentName)) agents ↔ FirstIsLast agents := by
  have hstored (name : String) :
      (Keyed.lookup (·.name) name g.roles).map (·.contract) = findAgent name agents.reverse := by
    have hcontract : Keyed.lookup (·.agentName) name g.contracts =
        (Keyed.lookup (·.name) name g.roles).map (·.contract) := List.find?_map ..
    rw [← hcontract, hg.contracts_eq, lookup_putContracts]
    exact Option.or_none
  constructor
  · intro henforces name
    by_cases hname : name ∈ agents.map (·.agentName)
    · obtain ⟨role, agent, hrole, hagent, hinput, houtput, hprohibited⟩ := henforces name hname
      rw [Keyed.filter_key hg.unique.names] at hrole
      have hlookup : Keyed.lookup (·.name) name g.roles = some role :=
        Option.toList_eq_singleton_iff.mp hrole
      have hrolename : role.name = name := (Keyed.mem_of_lookup hlookup).2
      have hagentname : agent.agentName = name := by simpa using List.find?_some hagent
      have hcontract : role.contract = agent := by
        cases agent
        simp only at hinput houtput hprohibited hagentname
        rw [AgentRole.contract, hrolename, hinput, houtput, hprohibited, hagentname]
      rw [← hstored, hlookup, hagent, Option.map_some, hcontract]
    · rw [findAgent_eq_none hname, findAgent_eq_none]
      rwa [List.map_reverse, List.mem_reverse]
  · intro hsame name hname
    obtain ⟨agent, hagent⟩ := findAgent_isSome hname
    have hlookup := hstored name
    rw [hsame name, hagent, Option.map_eq_some_iff] at hlookup
    obtain ⟨role, hrole, rfl⟩ := hlookup
    refine ⟨role, role.contract, ?_, hagent, rfl, rfl, rfl⟩
    rw [Keyed.filter_key hg.unique.names, hrole]
    rfl

/-- Closing stores what has been enforced: whatever calls of the stores fail, a close that returns
leaves one role for each of the names, with the contract that has been enforced for it; and where no
call fails it returns. -/
structure StoresEnforced (w : World) (sessionId agentType : String) (names : List String)
    (agents : List AgentContract) : Prop where
  stores : ∀ fault result w', (closeSession sessionId).runAlone (w.withFaults fault) =
    (.ok result, w') → (w'.graphs agentType).Enforces names agents
  returns : ((closeSession sessionId).runAlone w.healed).1.isOk

/-- A graph without roles has no edges between them. -/
theorem shows_empty (hg : GraphsSound w) (hroles : (w.graphs agentType).roles = []) :
    Shows (w.graphs agentType) [] [] := by
  obtain ⟨hunique, hgrounded⟩ := hg agentType
  have hedges : (w.graphs agentType).handsOffTo = [] := by
    rw [List.eq_nil_iff_forall_not_mem]
    intro h hh
    have hsource := (hgrounded h hh).1
    rw [hroles] at hsource
    cases hsource
  refine ⟨hunique, hgrounded, ?_, ?_⟩
  · rw [Graph.contracts, hroles]
    rfl
  · rw [Graph.handoffs_eq, hedges]
    rfl

/-- On a graph without roles, closing stores what has been enforced just if the first and the last
contract of each name agree and, where the engine is strict, no name has two. -/
theorem storesEnforced_iff {n : Nat} (h : Closable w n sessionId session agents)
    (hg : GraphsSound w) (hroles : (w.graphs session.agentTypeId).roles = [])
    (hn : ((closeSession sessionId).runAlone w.healed).2.tick ≤ n) :
    StoresEnforced w sessionId session.agentTypeId (agents.map (·.agentName)) agents ↔
      FirstIsLast agents ∧
        (w.env.strictParams = true → (agents.map (·.agentName)).Nodup) := by
  have hshows := shows_empty hg hroles
  have hreturns := closeSession_healed_iff h hshows hn
  have hnew : NewRoles (w.graphs session.agentTypeId) agents ↔
      (agents.map (·.agentName)).Nodup := by
    rw [NewRoles, hroles]
    simp
  rw [hnew] at hreturns
  have hstores (fault : Nat → Store → Bool) {result : CloseResult} {w' : World}
      (hok : (closeSession sessionId).runAlone (w.withFaults fault) = (.ok result, w')) :
      (w'.graphs session.agentTypeId).Enforces (agents.map (·.agentName)) agents ↔
        FirstIsLast agents := by
    have hclose := closeSession_triple (h.withFaults fault) hshows
    exact (hclose.of_ok hok).1.enforces_iff
  constructor
  · rintro ⟨hall, hok⟩
    refine ⟨?_, hreturns.mp hok⟩
    rcases hx : (closeSession sessionId).runAlone w.healed with ⟨e | result, w'⟩
    · rw [hx] at hok
      cases hok
    · exact (hstores _ hx).mp (hall _ result w' hx)
  · rintro ⟨hsame, hstrict⟩
    exact ⟨fun fault result w' hok => (hstores fault hok).mpr hsame, hreturns.mpr hstrict⟩

/-! ## The sessions of a composition -/

/-- The session of the agent type is in memory, with the contracts of the team but for what has been
clarified. -/
def RunsTeam (sessionId agentType : String) (team : List AgentContract) (w : World) : Prop :=
  ∃ session agents, w.sessions sessionId = some session ∧ session.agentTypeId = agentType ∧
    w.sessionAgents sessionId = some agents ∧ SameBans team agents

theorem SameBans.names {agents' : List AgentContract} (h : SameBans agents agents') :
    agents'.map (·.agentName) = agents.map (·.agentName) := by
  have hfirst := congrArg (List.map Prod.fst) h
  rwa [List.map_map, List.map_map] at hfirst

variable {request : Request} {l : Option (Event host)} {team : List AgentContract}

theorem Effect.runsTeam (he : Effect request l w w')
    (hstart : ∀ agentType, request ≠ .createSession agentType)
    (h : RunsTeam sessionId agentType team w) : RunsTeam sessionId agentType team w' := by
  obtain ⟨session, agents, hs, htype, ha, hbans⟩ := h
  rcases he.session_cases sessionId with ⟨hs', ha'⟩ | ⟨agentType, _, _, _, hrequest, -⟩ |
    ⟨session0, agents0, session1, agents1, -, hs0, ha0, hstep, hs1, ha1⟩
  · exact ⟨session, agents, hs'.trans hs, htype, ha'.trans ha, hbans⟩
  · exact absurd hrequest (hstart agentType)
  · rw [hs, Option.some.injEq] at hs0
    rw [ha, Option.some.injEq] at ha0
    subst hs0 ha0
    have hsame : session1.agentTypeId = session.agentTypeId := hstep.agentTypeId
    exact ⟨session1, agents1, hs1, hsame.trans htype, ha1, trans_of _ hbans hstep.bans⟩

variable {ι : Type} [DecidableEq ι]

/-- What starting a session keeps. -/
theorem startSession_sound (hw : Hosted w) (hsound : GraphsSound w) (agentType : String) :
    ((startSession agentType).runAlone w).2.env = w.env ∧
    Hosted ((startSession agentType).runAlone w).2 ∧
    GraphsSound ((startSession agentType).runAlone w).2 := by
  refine (startSession_follows (l := none) (w := w) agentType).runAlone_keeps
    (I := fun w0 : World => w0.env = w.env ∧ Hosted w0 ∧ GraphsSound w0)
    (fun l w1 w2 hseg h => ?_) (fun l w1 q hq h => ?_) ⟨rfl, hw, hsound⟩
  · refine Segment.keeps
      (R := Preserves fun w0 : World => w0.env = w.env ∧ Hosted w0 ∧ GraphsSound w0)
      (fun w1 w2 he h => ?_) hseg h
    exact ⟨he.persists.env.trans h.1, he.hosted h.2.1,
      he.everyGraph (fun _ => nofun) ofEdges_sound h.2.2⟩
  · refine ⟨(World.serve_env q w1).trans h.1, serve_hosted hq h.2.1, fun name => ?_⟩
    rw [World.serve_graphs]
    exact h.2.2 name

/-- The session goes on with the contracts of its team while no other is started. -/
theorem runsTeam_run {w : World} (hw : Hosted w) (h : RunsTeam sessionId agentType team w)
    (requests : ι → Request) (hcalls : ∀ i agentType, requests i ≠ .createSession agentType)
    (sched : List ι) :
    ((serving w requests).run sched).store.env = w.env ∧
    Hosted ((serving w requests).run sched).store ∧
    RunsTeam sessionId agentType team ((serving w requests).run sched).store := by
  refine (serves_serving w requests).invariant
    (I := fun w0 : World => w0.env = w.env ∧ Hosted w0 ∧ RunsTeam sessionId agentType team w0)
    ?_ ?_ ⟨rfl, hw, h⟩ sched
  · rintro i l w1 w2 he ⟨henv, hhosted, hruns⟩
    exact ⟨he.persists.env.trans henv, he.hosted hhosted, he.runsTeam (hcalls i) hruns⟩
  · rintro i l q w1 hq ⟨henv, hhosted, hruns⟩
    exact ⟨(World.serve_env q w1).trans henv, serve_hosted hq hhosted,
      by simpa [RunsTeam] using hruns⟩

/-- A session is started on the latest composition of an agent type, any requests are made that
start no other, and it is closed on a graph without roles. Closing stores what has been enforced
just if the first and the last contract of each name then agree and, where the engine is strict, no
name of the composition has two. -/
theorem stored_role_is_enforced_iff (w w' : World) (hw : Hosted w) (hsound : GraphsSound w)
    (agentType : String) (session : SimulationSession) (row : CompositionRow)
    (hstart : (startSession agentType).runAlone w = (.ok session, w'))
    (hrow : w.pg.latestComposition agentType = some row) (requests : ι → Request)
    (hcalls : ∀ i agentType, requests i ≠ .createSession agentType) (sched : List ι) (w1 : World)
    (hrun : ((serving w' requests).run sched).store = w1)
    (hactive : (w1.sessions session.id).map (·.status) = some .active)
    (agents : List AgentContract) (ha : w1.sessionAgents session.id = some agents)
    (htables : ∀ t, t ∈ (w1.graphs agentType).tables)
    (hroles : (w1.graphs agentType).roles = []) (n : Nat)
    (hdistinct : DistinctDraws w.env roleId n)
    (hn : ((closeSession session.id).runAlone w1.healed).2.tick ≤ n) :
    StoresEnforced w1 session.id agentType (row.agentList.map (·.agentName)) agents ↔
      FirstIsLast agents ∧
        (w.env.strictParams = true → (row.agentList.map (·.agentName)).Nodup) := by
  have hopened := startSession_sound hw hsound agentType
  rw [hstart] at hopened
  obtain ⟨henv', hhosted', hsound'⟩ := hopened
  obtain ⟨hs', htype', ha'⟩ := startSession_opens hstart hrow
  have hinv := runsTeam_run hhosted'
    ⟨session, row.agentList, hs', htype', ha', refl_of _ _⟩ requests hcalls sched
  have hgraphs := graphsSound_run hsound' requests sched
  rw [hrun] at hinv hgraphs
  obtain ⟨henv1, hhosted, session1, agents1, hs1, htype1, ha1, hbans⟩ := hinv
  have henv : w1.env = w.env := henv1.trans henv'
  rw [ha, Option.some.injEq] at ha1
  subst ha1
  rw [hs1, Option.map_some, Option.some.injEq] at hactive
  obtain ⟨hlength, hready, -⟩ := hhosted.sessions session.id session1 hs1
  subst htype1
  have hclosable : Closable w1 n session.id session1 agents :=
    ⟨hs1, ha, hactive, hlength, ⟨hready.1, htables⟩, by rw [henv]; exact hdistinct,
      fun role hrole => by rw [hroles] at hrole; cases hrole⟩
  rw [← hbans.names, ← henv]
  exact storesEnforced_iff hclosable hgraphs hroles hn

/-- The process in which the session of a composition has just been started. -/
def opened (w : World) : World := ((startSession "shop").runAlone w).2

/-- One message in that session. -/
def ordering : Fin 1 → Request := fun _ => .turn Sample.sessionId Sample.order "cook" []

theorem stored_role_is_enforced_cook : StoresEnforced
    ((serving (opened (Sample.withTeam .approved)) ordering).run [0]).store Sample.sessionId "shop"
    ["cook"] [Sample.cook] := by
  have hid : (((startSession "shop").runAlone (Sample.withTeam .approved)).1.map
      fun session => session.id) = .ok Sample.sessionId := by
    decide +kernel
  rcases hx : ((startSession "shop").runAlone (Sample.withTeam .approved)).1 with e | session <;>
    rw [hx] at hid
  · cases hid
  have hid : session.id = Sample.sessionId := Except.ok.inj hid
  rw [← hid]
  have hnames : ([Sample.cook].map (·.agentName)).Nodup := by decide
  refine (stored_role_is_enforced_iff (Sample.withTeam .approved)
    (opened (Sample.withTeam .approved)) (hosted_withTeam _) (graphsSound_withTeam _) "shop" session
    (Sample.team .approved) (Prod.ext hx rfl) rfl ordering (fun _ _ => nofun) [0] _ rfl ?_
    [Sample.cook] ?_ (fun t => ?_) rfl 12 (by decide +kernel) ?_).mpr
      ⟨firstIsLast_of_nodup hnames, fun _ => hnames⟩
  · rw [hid]
    decide +kernel
  · rw [hid]
    rfl
  · cases t <;> decide +kernel
  · rw [hid]
    decide +kernel

/-- A composition with two contracts of one name, the second of which has a prohibition. -/
def twoCooks : World :=
  { lenient with
    pg := { Postgres.empty with
      agentTypes := [Sample.shopRow]
      teamCompositions :=
        [{ Sample.team .approved with agentList := [Sample.cook, { Sample.cook with
            prohibitedFields := ["card"] }] }] } }

/-- Messages are validated against the first contract, and the second one is stored. -/
theorem last_contract_is_stored :
    ¬ StoresEnforced (opened twoCooks) Sample.sessionId "shop" ["cook", "cook"]
      [Sample.cook, { Sample.cook with prohibitedFields := ["card"] }] := by
  intro h
  rcases hx : (closeSession Sample.sessionId).runAlone (opened twoCooks).healed with
    ⟨e | result, w'⟩
  · have hreturns := h.returns
    rw [hx] at hreturns
    cases hreturns
  · obtain ⟨role, agent, hrole, hagent, -, -, hprohibited⟩ :=
      h.stores _ result w' hx "cook" List.mem_cons_self
    cases hagent
    have hstored : (((closeSession Sample.sessionId).runAlone (opened twoCooks).healed).2.graphs
        "shop").roles.map (·.prohibitedFields) = [["card"]] := by
      decide +kernel
    rw [hx] at hstored
    have hmem : role ∈ (w'.graphs "shop").roles := by
      have hfound : role ∈ [role] := List.mem_singleton_self role
      rw [← hrole] at hfound
      exact List.mem_of_mem_filter hfound
    have hcard := List.mem_map_of_mem (f := fun r : AgentRole => r.prohibitedFields) hmem
    rw [hstored, hprohibited] at hcard
    cases List.mem_singleton.mp hcard

end AgentWorx
