import AgentWorx.Lib.Upsert
import AgentWorx.Verify.Closing

/-!
# Closing a session again

Closing upserts one role for each contract and one edge for each pair of roles with a clean message,
and only then marks the session as closed and inserts its summary. What the upserts of a close would
leave is not changed by some of them having been made: a close that a call of the graph store has
interrupted can be done again from its start. After the call that inserts the summary it cannot.
-/

namespace AgentWorx

open Coop Coop.Sync

variable {w w' : World} {agentType : String} {agent : AgentContract} {agents : List AgentContract}
  {session : SimulationSession} {sessionId : String} {n : Nat} {g g' : Graph}

/-! ## What the store shows -/

/-- The contract that is stored with a role. -/
def AgentRole.contract (role : AgentRole) : AgentContract :=
  ⟨role.name, role.inputSchema, role.outputSchema, role.prohibitedFields⟩

/-- An edge between roles, with their names in the place of their ids. -/
structure Handoff where
  pair : String × String
  condition : String
  validates : String
  confidence : ℚ
  deriving DecidableEq

namespace Graph

/-- The roles but for their ids, which are drawn. -/
def contracts (g : Graph) : List AgentContract := g.roles.map (·.contract)

def handoffs (g : Graph) : List Handoff :=
  g.handsOffToRows.map fun (a, h, b) => ⟨(a.name, b.name), h.condition, h.validates, h.confidence⟩

/-- An edge connects two roles. -/
def Grounded (g : Graph) : Prop :=
  ∀ h ∈ g.handsOffTo, h.source ∈ g.roles.map (·.id) ∧ h.target ∈ g.roles.map (·.id)

instance (g : Graph) : Decidable g.Grounded :=
  inferInstanceAs (Decidable (∀ h ∈ g.handsOffTo, _ ∧ _))

theorem names_contracts (g : Graph) : g.contracts.map (·.agentName) = g.roles.map (·.name) := by
  simp only [contracts, List.map_map]
  rfl

theorem handoffs_eq (g : Graph) : g.handoffs = g.handsOffTo.filterMap fun h =>
    ((g.role? h.source).map (·.name)).bind fun fromRole =>
      ((g.role? h.target).map (·.name)).map fun toRole =>
        ⟨(fromRole, toRole), h.condition, h.validates, h.confidence⟩ := by
  simp only [handoffs, handsOffToRows, List.map_filterMap]
  refine List.filterMap_congr fun h _ => ?_
  cases g.role? h.source with
  | none => rfl
  | some a => cases g.role? h.target <;> rfl

/-- The handoffs are the same if the edges and the names of their ends are. -/
theorem handoffs_congr (hedges : g'.handsOffTo = g.handsOffTo)
    (hnames : ∀ id ∈ g.roles.map (·.id), (g'.role? id).map (·.name) = (g.role? id).map (·.name))
    (hg : g.Grounded) : g'.handoffs = g.handoffs := by
  rw [handoffs_eq, handoffs_eq, hedges]
  refine List.filterMap_congr fun h hh => ?_
  obtain ⟨hsource, htarget⟩ := hg h hh
  rw [hnames h.source hsource, hnames h.target htarget]

theorem role?_isSome {id : String} (h : id ∈ g.roles.map (·.id)) : ∃ a, g.role? id = some a := by
  obtain ⟨role, hrole, rfl⟩ := List.mem_map.mp h
  rw [← Option.isSome_iff_exists, role?, List.find?_isSome]
  exact ⟨role, hrole, by simp⟩

/-- The name of a role does not change with its contract. -/
theorem role?_setRole (g : Graph) (id : String) (agent : AgentContract) (id' : String) :
    ((g.setRole id agent).role? id').map (·.name) = (g.role? id').map (·.name) := by
  have hids : ∀ role : AgentRole, role.id = id → (role.setContract agent).id = id :=
    fun role h => h
  change (Keyed.lookup (·.id) id' (g.setRole id agent).roles).map (·.name) =
    (Keyed.lookup (·.id) id' g.roles).map (·.name)
  by_cases hid : id' = id
  · subst hid
    rw [setRole, Keyed.lookup_update hids, Option.map_map]
    rfl
  · rw [setRole, Keyed.lookup_update_ne hids hid]

theorem role?_addRole (id : String) (agent : AgentContract) {id' : String}
    (h : id' ∈ g.roles.map (·.id)) : (g.addRole id agent).role? id' = g.role? id' := by
  obtain ⟨a, ha⟩ := role?_isSome h
  simp only [role?, addRole] at ha ⊢
  rw [List.find?_append, ha]
  rfl

end Graph

/-! ## Upserts -/

/-- The upserts of the contracts. -/
def putContracts (agents : List AgentContract) (contracts : List AgentContract) :
    List AgentContract :=
  Keyed.upserts (·.agentName) (·.agentName) id (fun agent _ => agent) agents contracts

/-- The upserts of handoffs: only the confidence of one that is there is replaced. -/
def putHandoffs (pairs : List ((String × String) × ℚ)) (handoffs : List Handoff) : List Handoff :=
  Keyed.upserts (·.pair) (·.1) (fun (pair, confidence) =>
    ⟨pair, "observed during simulation", "[]", confidence⟩)
    (fun (_, confidence) handoff => { handoff with confidence }) pairs handoffs

theorem contracts_overwrite : Keyed.Overwrites (·.agentName) (·.agentName) id
    (fun (agent : AgentContract) (_ : AgentContract) => agent) :=
  ⟨fun _ => rfl, fun _ _ _ => rfl, fun _ _ _ _ _ => rfl, fun _ => rfl⟩

theorem handoffs_overwrite : Keyed.Overwrites (·.pair) (·.1)
    (fun ((pair, confidence) : (String × String) × ℚ) =>
      (⟨pair, "observed during simulation", "[]", confidence⟩ : Handoff))
    (fun (_, confidence) handoff => { handoff with confidence }) :=
  ⟨fun _ => rfl, fun _ _ h => h, fun _ _ _ _ _ => rfl, fun _ => rfl⟩

theorem putContracts_append (agents agents' contracts : List AgentContract) :
    putContracts (agents ++ agents') contracts =
      putContracts agents' (putContracts agents contracts) := Keyed.upserts_append

theorem putHandoffs_append (pairs pairs' : List ((String × String) × ℚ)) (handoffs : List Handoff) :
    putHandoffs (pairs ++ pairs') handoffs = putHandoffs pairs' (putHandoffs pairs handoffs) :=
  Keyed.upserts_append

/-- The graph has sound roles and edges, and shows these contracts and handoffs. -/
structure Shows (g : Graph) (contracts : List AgentContract) (handoffs : List Handoff) : Prop where
  unique : g.RolesUnique
  grounded : g.Grounded
  contracts_eq : g.contracts = contracts
  handoffs_eq : g.handoffs = handoffs

variable {contracts : List AgentContract} {handoffs : List Handoff}

theorem UpsertsRole.shows (h : UpsertsRole w agent g g') (hg : Shows g contracts handoffs) :
    Shows g' (putContracts [agent] contracts) handoffs := by
  have hunique := h.rolesUnique hg.unique
  obtain ⟨hids, hnames⟩ := hg.unique
  obtain ⟨-, hgrounded, rfl, rfl⟩ := hg
  cases h with
  | @update role hrole hname =>
    refine ⟨hunique, ?_, ?_, ?_⟩
    · intro h hh
      rw [Graph.setRole_ids]
      exact hgrounded h hh
    · have hthere : g.contracts.any (·.agentName = agent.agentName) = true := by
        rw [Keyed.any_iff, g.names_contracts, ← hname]
        exact List.mem_map_of_mem hrole
      change _ = Keyed.upsert _ _ _ _ _
      rw [Keyed.upsert, if_pos hthere, Graph.contracts, Graph.contracts, Graph.setRole,
        List.map_map, List.map_map]
      refine List.map_congr_left fun r hr => ?_
      have hsame : r.id = role.id ↔ r.contract.agentName = agent.agentName := by
        constructor
        · intro hid
          rw [List.inj_on_of_nodup_map hids hr hrole hid]
          exact hname
        · intro hother
          rw [List.inj_on_of_nodup_map hnames hr hrole (hother.trans hname.symm)]
      simp only [Function.comp_apply, hsame]
      split_ifs with hr'
      · simp only [AgentRole.contract, AgentRole.setContract]
        simp only [AgentRole.contract] at hr'
        rw [hr']
      · rfl
    · exact Graph.handoffs_congr rfl (fun id _ => Graph.role?_setRole ..) hgrounded
  | @create m hdrawn hname hid =>
    refine ⟨hunique, ?_, ?_, ?_⟩
    · intro h hh
      obtain ⟨hsource, htarget⟩ := hgrounded h hh
      simp only [Graph.addRole, List.map_append, List.mem_append]
      exact ⟨.inl hsource, .inl htarget⟩
    · have hnone : Keyed.lookup (·.agentName) agent.agentName g.contracts = none := by
        rw [Keyed.lookup_eq_none]
        intro contract hcontract
        obtain ⟨role, hrole, rfl⟩ := List.mem_map.mp hcontract
        exact hname role hrole
      change _ = Keyed.upsert _ _ _ _ _
      rw [Keyed.upsert_of_none hnone]
      simp [Graph.contracts, Graph.addRole, AgentRole.contract]
    · exact Graph.handoffs_congr rfl
        (fun id hid => congrArg _ (Graph.role?_addRole _ _ hid)) hgrounded

/-! ## Edges -/

/-- A role is there for each end. -/
def connects (contracts : List AgentContract) (pair : String × String) : Bool :=
  pair.1 ∈ contracts.map (·.agentName) ∧ pair.2 ∈ contracts.map (·.agentName)

namespace Graph

variable {fromRole toRole : String} {confidence : ℚ}

theorem role?_congr (hroles : g'.roles = g.roles) : g'.role? = g.role? := by
  funext id
  rw [role?, role?, hroles]

/-- The confidence of the edges of a pair is set. -/
theorem handoffs_set (hroles : g'.roles = g.roles) (hedges : g'.handsOffTo = g.handsOffTo.map
      fun h => if g.handoffBetween fromRole toRole h then { h with confidence } else h) :
    g'.handoffs = g.handoffs.map fun handoff =>
      if handoff.pair = (fromRole, toRole) then { handoff with confidence } else handoff := by
  rw [handoffs_eq, handoffs_eq, hedges, role?_congr hroles, List.filterMap_map, List.map_filterMap]
  refine List.filterMap_congr fun h _ => ?_
  have hsource : (if g.handoffBetween fromRole toRole h then { h with confidence } else h).source =
      h.source := by split_ifs <;> rfl
  have htarget : (if g.handoffBetween fromRole toRole h then { h with confidence } else h).target =
      h.target := by split_ifs <;> rfl
  rw [Function.comp_apply, hsource, htarget]
  cases ha : g.role? h.source with
  | none => rfl
  | some a =>
    cases hb : g.role? h.target with
    | none => rfl
    | some b =>
      have hbetween : g.handoffBetween fromRole toRole h = true ↔
          (a.name, b.name) = (fromRole, toRole) := by
        simp [handoffBetween, ha, hb]
      simp only [hbetween, Option.map_some, Option.bind_some]
      split_ifs <;> rfl

theorem role?_of_mem (hg : g.RolesUnique) {role : AgentRole} (hrole : role ∈ g.roles) :
    g.role? role.id = some role :=
  (Keyed.lookup_eq_some hg.ids).mpr ⟨hrole, rfl⟩

/-- The roles with a name. -/
theorem roles_named (hg : g.RolesUnique) (name : String) :
    (∃ role ∈ g.roles, role.name = name ∧ g.roles.filter (·.name = name) = [role]) ∨
    (name ∉ g.roles.map (·.name) ∧ g.roles.filter (·.name = name) = []) := by
  rw [Keyed.filter_key hg.names]
  cases hfind : Keyed.lookup (·.name) name g.roles with
  | some role =>
    obtain ⟨hrole, hname⟩ := Keyed.mem_of_lookup hfind
    exact .inl ⟨role, hrole, hname, rfl⟩
  | none =>
    refine .inr ⟨?_, rfl⟩
    rw [List.mem_map]
    rintro ⟨role, hrole, hname⟩
    exact Keyed.lookup_eq_none.mp hfind role hrole hname

/-- One edge has been created. -/
theorem handoffs_add (hg : g.RolesUnique) {a b : AgentRole} (ha : a ∈ g.roles) (hb : b ∈ g.roles)
    {condition validates : String} (hroles : g'.roles = g.roles)
    (hedges : g'.handsOffTo = g.handsOffTo ++ [⟨a.id, b.id, condition, validates, confidence⟩]) :
    g'.handoffs = g.handoffs ++ [⟨(a.name, b.name), condition, validates, confidence⟩] := by
  rw [handoffs_eq, handoffs_eq, hedges, role?_congr hroles, List.filterMap_append]
  simp [role?_of_mem hg ha, role?_of_mem hg hb]

/-- The ends of an edge are roles. -/
theorem connects_of_mem {handoff : Handoff} (h : handoff ∈ g.handoffs) :
    connects g.contracts handoff.pair = true := by
  obtain ⟨⟨a, edge, b⟩, hrow, rfl⟩ := List.mem_map.mp h
  simp only [handsOffToRows, List.mem_filterMap, Option.bind_eq_bind, Option.bind_eq_some_iff,
    Option.pure_def, Option.some.injEq, Prod.mk.injEq] at hrow
  obtain ⟨_, -, a', ha, b', hb, rfl, rfl, rfl⟩ := hrow
  simp only [connects, names_contracts, decide_eq_true_eq]
  exact ⟨List.mem_map_of_mem (List.mem_of_find?_eq_some ha),
    List.mem_map_of_mem (List.mem_of_find?_eq_some hb)⟩

/-- The match finds an edge if there is a handoff between the names. -/
theorem matchHandoff_head (g : Graph) (fromRole toRole : String) :
    (((g.handsOffToRows.filter fun (a, _, b) => a.name = fromRole ∧ b.name = toRole).map
      fun (_, h, _) => h.confidence).head? = none) ↔
      (fromRole, toRole) ∉ g.handoffs.map (·.pair) := by
  rw [List.head?_eq_none_iff, List.map_eq_nil_iff, List.filter_eq_nil_iff, handoffs, List.map_map,
    List.mem_map]
  simp

end Graph

section Edges

variable {fromRole toRole : String} {confidence : ℚ} {u : Unit}

/-- The upsert of an edge whose ends may not be there. -/
def putHandoff (contracts : List AgentContract) (pair : String × String) (confidence : ℚ)
    (handoffs : List Handoff) : List Handoff :=
  putHandoffs ([(pair, confidence)].filter (connects contracts ·.1)) handoffs

theorem putHandoff_connects {pair : String × String} (h : connects contracts pair = true) :
    putHandoff contracts pair confidence handoffs = putHandoffs [(pair, confidence)] handoffs := by
  simp [putHandoff, h]

theorem putHandoff_other {pair : String × String} (h : ¬ connects contracts pair = true) :
    putHandoff contracts pair confidence handoffs = handoffs := by
  rw [putHandoff, List.filter_cons_of_neg (by simpa using h)]
  rfl

/-- The edges have changed, but not the roles. -/
theorem Shows.of_roles {handoffs' : List Handoff} (hg : Shows g contracts handoffs)
    (hroles : g'.roles = g.roles)
    (hedges : ∀ h ∈ g'.handsOffTo, h.source ∈ g.roles.map (·.id) ∧ h.target ∈ g.roles.map (·.id))
    (hhandoffs : g'.handoffs = handoffs') : Shows g' contracts handoffs' where
  unique := ⟨by rw [hroles]; exact hg.unique.ids, by rw [hroles]; exact hg.unique.names⟩
  grounded h hh := by
    rw [hroles]
    exact hedges h hh
  contracts_eq := by rw [Graph.contracts, hroles, ← Graph.contracts, hg.contracts_eq]
  handoffs_eq := hhandoffs

theorem Shows.set (hg : Shows g contracts handoffs)
    (hfound : (fromRole, toRole) ∈ handoffs.map (·.pair))
    (h : (setHandoff fromRole toRole confidence).eval g = .ok (u, g')) :
    Shows g' contracts (putHandoff contracts (fromRole, toRole) confidence handoffs) := by
  simp only [setHandoff, Cypher.update, Except.ok.injEq, Prod.mk.injEq, true_and] at h
  have hroles : g'.roles = g.roles := by rw [← h]
  have hedges : g'.handsOffTo = g.handsOffTo.map fun h =>
      if g.handoffBetween fromRole toRole h then { h with confidence } else h := by rw [← h]
  apply hg.of_roles hroles
  · intro edge hedge
    rw [hedges] at hedge
    obtain ⟨old, hold, rfl⟩ := List.mem_map.mp hedge
    split_ifs <;> exact hg.grounded old hold
  · obtain ⟨-, -, rfl, rfl⟩ := hg
    obtain ⟨handoff, hhandoff, hpair⟩ := List.mem_map.mp hfound
    have hconnects := Graph.connects_of_mem hhandoff
    rw [hpair] at hconnects
    rw [putHandoff_connects hconnects, Graph.handoffs_set hroles hedges]
    change _ = Keyed.upsert _ _ _ _ _
    rw [Keyed.upsert, if_pos (Keyed.any_iff.mpr hfound)]

theorem Shows.create (hg : Shows g contracts handoffs)
    (hfound : (fromRole, toRole) ∉ handoffs.map (·.pair))
    (h : (createHandoff fromRole toRole confidence).eval g = .ok (u, g')) :
    Shows g' contracts (putHandoff contracts (fromRole, toRole) confidence handoffs) := by
  simp only [createHandoff, Cypher.update, Except.ok.injEq, Prod.mk.injEq, true_and] at h
  have hroles : g'.roles = g.roles := by rw [← h]
  have hnames := g.names_contracts
  rw [hg.contracts_eq] at hnames
  have hnone (hedges : g'.handsOffTo = g.handsOffTo)
      (hother : ¬ connects contracts (fromRole, toRole) = true) :
      Shows g' contracts (putHandoff contracts (fromRole, toRole) confidence handoffs) := by
    rw [putHandoff_other hother]
    apply hg.of_roles hroles
    · rw [hedges]
      exact hg.grounded
    · rw [← hg.handoffs_eq, Graph.handoffs_eq, Graph.handoffs_eq, hedges, Graph.role?_congr hroles]
  rcases Graph.roles_named hg.unique fromRole with ⟨a, ha, rfl, hfrom⟩ | ⟨hfrom, hempty⟩
  · rcases Graph.roles_named hg.unique toRole with ⟨b, hb, rfl, hto⟩ | ⟨hto, hempty⟩
    · have hconnects : connects contracts (a.name, b.name) = true := by
        simp only [connects, hnames, decide_eq_true_eq]
        exact ⟨List.mem_map_of_mem ha, List.mem_map_of_mem hb⟩
      have hedges : g'.handsOffTo = g.handsOffTo ++
          [⟨a.id, b.id, "observed during simulation", "[]", confidence⟩] := by
        rw [← h, hfrom, hto]
        rfl
      rw [putHandoff_connects hconnects]
      apply hg.of_roles hroles
      · intro edge hedge
        rw [hedges] at hedge
        rcases List.mem_append.mp hedge with hedge | hedge
        · exact hg.grounded edge hedge
        · rw [List.mem_singleton.mp hedge]
          exact ⟨List.mem_map_of_mem ha, List.mem_map_of_mem hb⟩
      · change _ = Keyed.upsert _ _ _ _ _
        rw [Keyed.upsert, if_neg (mt Keyed.any_iff.mp hfound),
          Graph.handoffs_add hg.unique ha hb hroles hedges, hg.handoffs_eq]
    · apply hnone
      · rw [← h, hempty]
        simp
      · simp [connects, hnames, hto]
  · apply hnone
    · rw [← h, hempty]
      simp
    · simp [connects, hnames, hfrom]

end Edges

/-! ## What closing leaves -/

theorem upsertAgentRole_shows (agent : AgentContract)
    (hg : Shows (w.graphs agentType) contracts handoffs) :
    Triple (upsertAgentRole agentType agent) w
      (fun _ w' => Shows (w'.graphs agentType) (putContracts [agent] contracts) handoffs)
      fun _ w' => Shows (w'.graphs agentType) contracts handoffs := by
  apply (upsertAgentRole_triple agentType agent w).mono
  · rintro _ w' ⟨-, w1, hupsert⟩
    exact hupsert.shows hg
  · intro e w' hw'
    rwa [hw']

theorem upsertAgentRoles_shows (agents : List AgentContract)
    (hg : Shows (w.graphs agentType) contracts handoffs) :
    Triple (agents.forM (upsertAgentRole agentType)) w
      (fun _ w' => Shows (w'.graphs agentType) (putContracts agents contracts) handoffs)
      fun _ w' => ∃ done, done <+: agents ∧
        Shows (w'.graphs agentType) (putContracts done contracts) handoffs := by
  refine .forM_until (I := fun done (w : World) =>
    Shows (w.graphs agentType) (putContracts done contracts) handoffs)
    (fun done agent w hw => ?_) hg
  have hstep := upsertAgentRole_shows agent hw
  rwa [← putContracts_append] at hstep

theorem upsertHandoffEdge_shows (fromRole toRole : String) (confidence : ℚ)
    (hg : Shows (w.graphs agentType) contracts handoffs) :
    Triple (upsertHandoffEdge agentType fromRole toRole confidence) w
      (fun _ w' => Shows (w'.graphs agentType) contracts
        (putHandoff contracts (fromRole, toRole) confidence handoffs))
      fun _ w' => Shows (w'.graphs agentType) contracts handoffs := by
  unfold upsertHandoffEdge
  apply Triple.bind (query_triple (I := fun g => Shows g contracts handoffs) hg)
  rintro rows w1 ⟨rfl, hw1⟩
  have hhead := (w.graphs agentType).matchHandoff_head fromRole toRole
  rw [← hw1] at hg
  rw [← hw1, hg.handoffs_eq] at hhead
  rw [← hw1]
  set rows := ((w1.graphs agentType).handsOffToRows.filter fun (a, _, b) =>
    a.name = fromRole ∧ b.name = toRole).map fun (_, h, _) => h.confidence
  cases hrows : rows.head? with
  | some confidence' =>
    have hfound : (fromRole, toRole) ∈ handoffs.map (·.pair) := by
      by_contra hno
      rw [hhead.mpr hno] at hrows
      cases hrows
    exact execute_triple (I := fun g => Shows g contracts handoffs) hg fun _ g h =>
      hg.set hfound h
  | none =>
    exact execute_triple (I := fun g => Shows g contracts handoffs) hg fun _ g h =>
      hg.create (hhead.mp hrows) h

/-- The pairs and confidences that `_write_handoff_edges` upserts. -/
def SimulationSession.pairConfidences (session : SimulationSession) :
    List ((String × String) × ℚ) :=
  session.handoffPairs.map fun (pair, stats) => (pair, pyRound 3 stats.confidence)

theorem writeHandoffEdges_shows (session : SimulationSession)
    (hg : Shows (w.graphs agentType) contracts handoffs) :
    Triple (writeHandoffEdges agentType session) w
      (fun _ w' => Shows (w'.graphs agentType) contracts
        (putHandoffs (session.pairConfidences.filter (connects contracts ·.1)) handoffs))
      fun _ w' => ∃ done, done <+: session.pairConfidences.filter (connects contracts ·.1) ∧
        Shows (w'.graphs agentType) contracts (putHandoffs done handoffs) := by
  set done := fun pairs : List ((String × String) × PairStats) =>
    (pairs.map fun pair => (pair.1, pyRound 3 pair.2.confidence)).filter
      (connects contracts ·.1) with hdone
  refine .bind (Triple.mono (.forM_until (I := fun pairs (w : World) =>
    Shows (w.graphs agentType) contracts (putHandoffs (done pairs) handoffs))
    (fun pairs pair w1 hw1 => ?_) hg) (fun _ _ h => h) ?_) fun _ w1 hw1 => .pure hw1
  · obtain ⟨⟨fromRole, toRole⟩, stats⟩ := pair
    have hstep := upsertHandoffEdge_shows fromRole toRole (pyRound 3 stats.confidence) hw1
    rw [putHandoff, ← putHandoffs_append] at hstep
    simp only [hdone, List.map_append, List.filter_append]
    exact hstep
  · rintro _ w1 ⟨pairs, hpairs, hw1⟩
    exact ⟨done pairs, (hpairs.map _).filter _, hw1⟩

/-- The contracts and handoffs that closing the session leaves. -/
def SimulationSession.outcome (session : SimulationSession) (agents contracts : List AgentContract)
    (handoffs : List Handoff) : List AgentContract × List Handoff :=
  (putContracts agents contracts, putHandoffs
    (session.pairConfidences.filter (connects (putContracts agents contracts) ·.1)) handoffs)

/-- A close that raises has made some of the upserts of the edges, and leaves a graph that closing
would take to the same outcome. -/
theorem flushSession_shows (hs : w.sessions sessionId = some session)
    (ha : w.sessionAgents sessionId = some agents) (hactive : session.status = .active)
    (hg : Shows (w.graphs session.agentTypeId) contracts handoffs) :
    Triple (flushSession sessionId) w
      (fun _ w' => Shows (w'.graphs session.agentTypeId)
        (session.outcome agents contracts handoffs).1 (session.outcome agents contracts handoffs).2)
      fun _ w' => ∃ contracts' handoffs',
        Shows (w'.graphs session.agentTypeId) contracts' handoffs' ∧
        (∃ pairs, pairs ⊆ session.pairConfidences ∧ handoffs' = putHandoffs pairs handoffs) ∧
        session.outcome agents contracts' handoffs' =
          session.outcome agents contracts handoffs := by
  have hroles := upsertAgentRoles_shows agents hg
  unfold Triple at hroles ⊢
  rcases flushSession_active hs ha hactive with ⟨e, w1, hr, he⟩ | ⟨e, w1, w2, hr, hh, he⟩ |
    ⟨w1, w2, edges, closedAt, hr, hh, he⟩ <;> rw [he] <;> rw [hr] at hroles
  · obtain ⟨done, hdone, hw1⟩ := hroles
    have hsame : putContracts agents (putContracts done contracts) =
        putContracts agents contracts := contracts_overwrite.upserts_resume hdone
    exact ⟨_, _, hw1, ⟨[], by simp, rfl⟩, by simp only [SimulationSession.outcome, hsame]⟩
  · obtain ⟨done, hdone, hw2⟩ := (writeHandoffEdges_shows session hroles).of_error hh
    have hsame : putContracts agents (putContracts agents contracts) =
        putContracts agents contracts := contracts_overwrite.upserts_upserts
    refine ⟨_, _, hw2, ⟨done, ?_, rfl⟩, ?_⟩
    · exact List.Subset.trans hdone.subset (List.filter_subset_self _)
    · simp only [SimulationSession.outcome, hsame]
      exact congrArg _ (handoffs_overwrite.upserts_resume hdone)
  · have hedges := (writeHandoffEdges_shows session hroles).of_ok hh
    exact hedges

/-! ## Why closing raises -/

theorem NewRoles.of_names (hnames : g.roles.map (·.name) ⊆ g'.roles.map (·.name))
    (h : NewRoles g' agents) : NewRoles g agents := by
  refine ⟨h.1, fun agent hagent role hrole hname => ?_⟩
  obtain ⟨role', hrole', hname'⟩ := List.mem_map.mp (hnames (List.mem_map_of_mem hrole))
  exact h.2 agent hagent role' hrole' (hname'.trans hname)

theorem Flush.names (h : Flush agentType agents w w') (name : String) :
    (w.graphs name).roles.map (·.name) ⊆ (w'.graphs name).roles.map (·.name) := by
  induction h with
  | refl => exact List.Subset.refl _
  | tail _ hstep ih =>
    refine List.Subset.trans ih ?_
    by_cases hname : name = agentType
    · subst hname
      cases hstep with
      | tick => exact List.Subset.refl _
      | role _ hrole => simpa using hrole.names.1
      | handoffs => simp
    · cases hstep with
      | tick => exact List.Subset.refl _
      | role => simp [hname]
      | handoffs => simp [hname]

/-- Closing only writes roles and handoffs before it marks the session as closed. -/
theorem flushSession_flush (hs : w.sessions sessionId = some session)
    (ha : w.sessionAgents sessionId = some agents) (hactive : session.status = .active) :
    Triple (flushSession sessionId) w
      (fun row w' => ∃ w2 closedAt, Flush session.agentTypeId agents w w2 ∧
        row = summaryRow sessionId session closedAt ∧ w' = w2.bump.setSession sessionId
          { session with status := .closed, closedAt := some closedAt })
      fun _ w' => Flush session.agentTypeId agents w w' := by
  have hroles := upsertAgentRoles_flush session.agentTypeId agents w
  have hhandoffs : Keeps (Flush session.agentTypeId agents)
      (writeHandoffEdges session.agentTypeId session) := writeHandoffEdges_flush session
  unfold Triple
  rcases flushSession_active hs ha hactive with ⟨e, w1, hr, he⟩ | ⟨e, w1, w2, hr, hh, he⟩ |
    ⟨w1, w2, edges, closedAt, hr, hh, he⟩ <;> rw [he] <;> rw [hr] at hroles
  · exact hroles
  · have hw2 := hhandoffs w1
    rw [hh] at hw2
    exact hroles.trans hw2
  · have hw2 := hhandoffs w1
    rw [hh] at hw2
    exact ⟨w2, closedAt, hroles.trans hw2, rfl, rfl⟩

/-! ## Closing alone -/

namespace World

/-- The same process with other failures of its stores. -/
@[simps] def withFaults (w : World) (fault : Nat → Store → Bool) : World :=
  { w with env := { w.env with fault } }

/-- No store call fails. -/
abbrev healed (w : World) : World := w.withFaults fun _ _ => false

/-- The `k`-th call fails if it is a call of the store, and no other does. -/
abbrev failing (w : World) (k : Nat) (store : Store) : World :=
  w.withFaults fun n s => n = k ∧ s = store

end World

/-- The session is active and can be closed: the graph of its agent type has its tables, its id fits
its column, and the role ids that are drawn before tick `n` are new. -/
structure Closable (w : World) (n : Nat) (sessionId : String) (session : SimulationSession)
    (agents : List AgentContract) : Prop where
  found : w.sessions sessionId = some session
  staged : w.sessionAgents sessionId = some agents
  active : session.status = .active
  length : sessionId.length ≤ 100
  schema : HasSchema w session.agentTypeId
  distinct : DistinctDraws w.env roleId n
  free : RoleIdsFree w session.agentTypeId n

theorem Closable.withFaults (h : Closable w n sessionId session agents)
    (fault : Nat → Store → Bool) : Closable (w.withFaults fault) n sessionId session agents :=
  ⟨h.found, h.staged, h.active, h.length, ⟨h.schema.name, h.schema.tables⟩, h.distinct, h.free⟩

/-- A close that has been interrupted leaves the session as it was. -/
theorem Closable.flush (h : Closable w n sessionId session agents)
    (hflush : Flush session.agentTypeId agents w w') (hn : w'.tick ≤ n) :
    Closable w' n sessionId session agents where
  found := by
    rw [hflush.sessions]
    exact h.found
  staged := by
    rw [hflush.sessionAgents]
    exact h.staged
  active := h.active
  length := h.length
  schema := hflush.hasSchema h.schema
  distinct := by
    rw [hflush.env_tick.1]
    exact h.distinct
  free := hflush.roleIdsFree h.distinct hn h.free

/-- A close returns after it has left its outcome and a summary. It raises while the graph is
written, or when the relational store fails after that. -/
theorem closeSession_triple (h : Closable w n sessionId session agents)
    (hg : Shows (w.graphs session.agentTypeId) contracts handoffs) :
    Async.TripleAlone (closeSession sessionId) w
      (fun _ w' => Shows (w'.graphs session.agentTypeId)
          (session.outcome agents contracts handoffs).1
          (session.outcome agents contracts handoffs).2 ∧
        ∃ row, row.sessionId = sessionId ∧
          w'.pg.simulationSessionSummaries = w.pg.simulationSessionSummaries ++ [row])
      fun e w' => ((flushSession sessionId).exec w = (.error e, w')) ∨
        (w'.sessions sessionId).map (·.status) = some .closed ∧
          ∃ m, w.env.fault m .postgres = true := by
  have hshows := flushSession_shows h.found h.staged h.active hg
  have hwrites := flushSession_flush h.found h.staged h.active
  apply Async.TripleAlone.bind (Async.TripleAlone.lift (((hshows.and hwrites).and
    (Triple.self (flushSession sessionId) w)).mono (fun _ _ h => h) fun _ _ h => .inl h.2))
  rintro row w1 ⟨⟨hw1, w2, closedAt, hflush, rfl, rfl⟩, -⟩
  set w3 := w2.bump.setSession sessionId
    { session with status := .closed, closedAt := some closedAt } with hw3
  have henv : w3.env = w.env := hflush.env_tick.1
  have haccepted (hserved : ¬ w3.Fails .postgres) :=
    serve_summary (summaryRow sessionId session closedAt) hserved
      (length_le_of_pattern h.schema.name) h.length
  apply Async.TripleAlone.bind (M := fun _ (w' : World) => w'.graphs = w3.graphs ∧
    w'.pg.simulationSessionSummaries = w.pg.simulationSessionSummaries ++
      [summaryRow sessionId session closedAt]) (Async.TripleAlone.call ?_ ?_)
  · rintro _ w' ⟨hgraphs, hrows⟩
    exact .pure ⟨by rw [hgraphs]; exact hw1, summaryRow sessionId session closedAt, rfl, hrows⟩
  · intro u hu
    have hserved : ¬ w3.Fails .postgres := by
      intro hfail
      change (World.serve _ w3).1 = _ at hu
      rw [World.serve, World.call, if_pos hfail] at hu
      cases hu
    obtain ⟨pg, hpg, hrows⟩ := haccepted hserved
    refine ⟨World.serve_graphs _ w3, ?_⟩
    change (World.serve _ w3).2.pg.simulationSessionSummaries = _
    rw [hpg]
    exact hrows.trans (by rw [hw3]; simp [hflush.pg])
  · intro e he
    refine .inr ⟨?_, w3.tick, ?_⟩
    · change ((World.serve _ w3).2.sessions sessionId).map (·.status) = _
      simp [hw3]
    · by_contra hfail
      obtain ⟨pg, hpg, -⟩ := haccepted (by rwa [World.Fails, henv])
      change (World.serve _ w3).1 = _ at he
      rw [hpg] at he
      cases he

/-! ## The first contract -/

/-- One of the two store calls for a contract that has no role, from now on. -/
def Blocked (w : World) : Prop :=
  w.env.fault w.tick .kuzu = true ∨ w.env.fault (w.tick + 2) .kuzu = true

/-- The first contract makes a new role: it is there after the close, unless one of its two calls
has failed and nothing has been written. -/
theorem flushSession_first (h : Closable w n sessionId session (agent :: agents))
    (hname : ∀ role ∈ (w.graphs session.agentTypeId).roles, role.name ≠ agent.agentName) :
    Triple (flushSession sessionId) w (fun _ _ => ¬ Blocked w)
      fun _ w' => w'.tick ≤ n → (Blocked w ∧ w'.graphs = w.graphs) ∨
        (¬ Blocked w ∧
          agent.agentName ∈ (w'.graphs session.agentTypeId).roles.map (·.name)) := by
  have hroles : Triple ((agent :: agents).forM (upsertAgentRole session.agentTypeId)) w
      (fun _ w' => ¬ Blocked w ∧
        agent.agentName ∈ (w'.graphs session.agentTypeId).roles.map (·.name))
      fun _ w' => w'.tick ≤ n → (Blocked w ∧ w'.graphs = w.graphs) ∨
        (¬ Blocked w ∧
          agent.agentName ∈ (w'.graphs session.agentTypeId).roles.map (·.name)) := by
    apply Triple.bind (((upsertAgentRole_triple session.agentTypeId agent w).and
      (upsertAgentRole_new h.schema hname)).mono (fun _ _ h => h) ?_)
    · rintro _ w1 ⟨⟨-, w0, hupsert⟩, hfree⟩
      have hstays {w2 : World} (hflush : Flush session.agentTypeId agents w1 w2) :
          ¬ Blocked w ∧ agent.agentName ∈ (w2.graphs session.agentTypeId).roles.map (·.name) :=
        ⟨hfree, hflush.names _ hupsert.names.2⟩
      apply (Triple.of_keeps (upsertAgentRoles_flush session.agentTypeId agents) w1).mono
      · exact fun _ _ hflush => hstays hflush
      · exact fun _ _ hflush _ => .inr (hstays hflush)
    · rintro e w1 ⟨hgraphs, -, hreason⟩ hw1
      refine .inl ⟨?_, hgraphs⟩
      rcases hreason with hfail | hfail | ⟨htick, role, hrole, hid⟩
      · exact .inl hfail
      · exact .inr hfail
      · exact absurd hid (h.free role hrole (w.tick + 1) (by omega) (by omega))
  have hhandoffs : Keeps (Flush session.agentTypeId (agent :: agents))
      (writeHandoffEdges session.agentTypeId session) := writeHandoffEdges_flush session
  unfold Triple at hroles ⊢
  rcases flushSession_active h.found h.staged h.active with ⟨e, w1, hr, he⟩ |
    ⟨e, w1, w2, hr, hh, he⟩ | ⟨w1, w2, edges, closedAt, hr, hh, he⟩ <;> rw [he] <;>
    rw [hr] at hroles
  · exact hroles
  · have hw2 := hhandoffs w1
    rw [hh] at hw2
    exact fun _ => .inr ⟨hroles.1, hw2.names _ hroles.2⟩
  · exact hroles.1

/-! ## Closing again -/

/-- Over stores that do not fail a close returns, unless the engine refuses the update of a role. -/
theorem closeSession_healed_iff (h : Closable w n sessionId session agents)
    (hg : Shows (w.graphs session.agentTypeId) contracts handoffs)
    (hn : ((closeSession sessionId).runAlone w.healed).2.tick ≤ n) :
    ((closeSession sessionId).runAlone w.healed).1.isOk ↔
      (w.env.strictParams = true → NewRoles (w.graphs session.agentTypeId) agents) := by
  have h' := h.withFaults fun _ _ => false
  have hhealed := closeSession_triple h' hg
  have hends := flushSession_ends h'.found h'.staged h'.active h'.schema h'.distinct h'.free
  rcases hx : (closeSession sessionId).runAlone w.healed with ⟨e | result, w'⟩ <;> rw [hx] at hn
  · refine iff_of_false Bool.false_ne_true fun hnew => ?_
    rcases hhealed.of_error hx with hflush | ⟨-, m, hm⟩
    · rcases hends.of_error hflush hn with ⟨m, hm⟩ | ⟨hstrict, hno⟩
      · cases hm
      · exact hno (hnew hstrict)
    · cases hm
  · refine iff_of_true rfl fun hstrict => ?_
    obtain ⟨row, w1, hflush, hrest⟩ := Async.runAlone_bind_returns hx
    obtain ⟨u, w2, hserve, hrest⟩ := Async.runAlone_bind_returns hrest
    cases hrest
    have hserved : World.serve (.execute (.insertSimulationSessionSummary row)) w1 = (.ok u, w') :=
      hserve
    have htick := World.serve_tick (.execute (.insertSimulationSessionSummary row)) w1
    rw [hserved] at htick
    refine hends.of_ok hflush ?_ hstrict
    simp only at htick hn
    omega

/-- A close that has raised in `w` and left `w1` can be done again without loss: the session is
still active, and over stores that do not fail a close now returns, leaves the roles and edges that
a close of `w` leaves over such stores, and inserts one summary of the session. -/
structure Retried (w w1 : World) (sessionId agentType : String) : Prop where
  active : (w1.sessions sessionId).map (·.status) = some .active
  returns : ((closeSession sessionId).runAlone w1.healed).1.isOk
  roles : (((closeSession sessionId).runAlone w1.healed).2.graphs agentType).contracts =
    (((closeSession sessionId).runAlone w.healed).2.graphs agentType).contracts
  edges : (((closeSession sessionId).runAlone w1.healed).2.graphs agentType).handoffs =
    (((closeSession sessionId).runAlone w.healed).2.graphs agentType).handoffs
  summary : ∃ row, row.sessionId = sessionId ∧
    ((closeSession sessionId).runAlone w1.healed).2.pg.simulationSessionSummaries =
      w.pg.simulationSessionSummaries ++ [row]

theorem closeSession_tick (hs : w.sessions sessionId = some session)
    (ha : w.sessionAgents sessionId = some agents) (hactive : session.status = .active) :
    w.tick ≤ ((closeSession sessionId).runAlone w).2.tick := by
  have htick : Async.TripleAlone (closeSession sessionId) w (fun _ w' => w.tick ≤ w'.tick)
      fun _ w' => w.tick ≤ w'.tick := by
    have hflush : Triple (flushSession sessionId) w (fun _ w' => w.tick ≤ w'.tick)
        fun _ w' => w.tick ≤ w'.tick := by
      apply (flushSession_flush hs ha hactive).mono
      · rintro row w1 ⟨w2, closedAt, hflush, -, rfl⟩
        exact hflush.env_tick.2.trans (Nat.le_succ _)
      · exact fun _ _ hflush => hflush.env_tick.2
    apply Async.TripleAlone.bind (Async.TripleAlone.lift hflush)
    intro row w1 hw1
    have hserve : w.tick ≤
        (World.serve (.execute (.insertSimulationSessionSummary row)) w1).2.tick := by
      rw [World.serve_tick]
      exact hw1.trans (Nat.le_succ _)
    exact .bind (M := fun _ (w' : World) => w.tick ≤ w'.tick)
      (.call (fun _ _ => hserve) fun _ _ => hserve) fun _ _ hw2 => .pure hw2
  unfold Async.TripleAlone at htick
  rcases hx : (closeSession sessionId).runAlone w with ⟨e | result, w'⟩ <;> rw [hx] at htick <;>
    exact htick

theorem blocked_failing {k : Nat} {store : Store} : Blocked (w.failing k store) ↔
    store = .kuzu ∧ (k = w.tick ∨ k = w.tick + 2) := by
  simp only [Blocked, World.withFaults, decide_eq_true_eq]
  constructor
  · rintro (⟨rfl, rfl⟩ | ⟨rfl, rfl⟩)
    · exact ⟨rfl, .inl rfl⟩
    · exact ⟨rfl, .inr rfl⟩
  · rintro ⟨rfl, rfl | rfl⟩
    · exact .inl ⟨rfl, rfl⟩
    · exact .inr ⟨rfl, rfl⟩

/-- When the writing of the graph has been interrupted, every contract still makes a new role just
if none of them had been written. -/
theorem flushSession_interrupted {k : Nat} {store : Store} {e : Exn} {w1 : World}
    (h : Closable (w.failing k store) n sessionId session agents)
    (hflush : (flushSession sessionId).exec (w.failing k store) = (.error e, w1))
    (hn : w1.tick ≤ n) :
    (w.env.strictParams = true → NewRoles (w1.graphs session.agentTypeId) agents) ↔
      store = .kuzu ∧ (w.env.strictParams = true → agents = [] ∨
        (NewRoles (w.graphs session.agentTypeId) agents ∧ (k = w.tick ∨ k = w.tick + 2))) := by
  have hwrites := flushSession_flush h.found h.staged h.active
  have hreason := flushSession_ends h.found h.staged h.active h.schema h.distinct h.free
  replace hwrites := hwrites.of_error hflush
  replace hreason := hreason.of_error hflush
  have hnames (hnew : NewRoles (w1.graphs session.agentTypeId) agents) :
      NewRoles (w.graphs session.agentTypeId) agents := hnew.of_names (hwrites.names _)
  constructor
  · intro hnew
    have hstore : store = .kuzu := by
      rcases hreason hn with ⟨m, hm⟩ | ⟨hstrict, hno⟩
      · exact (of_decide_eq_true hm).2.symm
      · exact absurd (hnames (hnew hstrict)) hno
    refine ⟨hstore, fun hstrict => ?_⟩
    cases agents with
    | nil => exact .inl rfl
    | cons agent agents =>
      have hw := hnames (hnew hstrict)
      have hfirst := flushSession_first h fun role hrole => hw.2 agent List.mem_cons_self role hrole
      rcases hfirst.of_error hflush hn with ⟨hblocked, -⟩ | ⟨-, hwritten⟩
      · exact .inr ⟨hw, (blocked_failing.mp hblocked).2⟩
      · obtain ⟨role, hrole, hname⟩ := List.mem_map.mp hwritten
        exact absurd hname ((hnew hstrict).2 agent List.mem_cons_self role hrole)
  · rintro ⟨hstore, hcond⟩ hstrict
    cases agents with
    | nil => exact newRoles_nil _
    | cons agent agents =>
      rcases hcond hstrict with hnil | ⟨hw, hk⟩
      · cases hnil
      · have hfirst := flushSession_first h
          fun role hrole => hw.2 agent List.mem_cons_self role hrole
        rcases hfirst.of_error hflush hn with ⟨-, hgraphs⟩ | ⟨hno, -⟩
        · rw [hgraphs]
          exact hw
        · exact absurd (blocked_failing.mpr ⟨hstore, hk⟩) hno

/-- A close that has been interrupted can be done again without loss just if a close now returns. -/
theorem retried_iff_newRoles {contracts' : List AgentContract} {handoffs' : List Handoff}
    {fault : Nat → Store → Bool} {w1 : World} (h : Closable w n sessionId session agents)
    (hg : Shows (w.graphs session.agentTypeId) contracts handoffs)
    (hwrites : Flush session.agentTypeId agents (w.withFaults fault) w1)
    (h1 : Closable w1 n sessionId session agents)
    (hg1 : Shows (w1.graphs session.agentTypeId) contracts' handoffs')
    (hsame : session.outcome agents contracts' handoffs' =
      session.outcome agents contracts handoffs)
    (hn : ((closeSession sessionId).runAlone w.healed).2.tick ≤ n)
    (hn1 : ((closeSession sessionId).runAlone w1.healed).2.tick ≤ n) :
    Retried w w1 sessionId session.agentTypeId ↔
      (w.env.strictParams = true → NewRoles (w1.graphs session.agentTypeId) agents) := by
  have hretry := closeSession_healed_iff h1 hg1 hn1
  have hwhole := closeSession_healed_iff h hg hn
  have hstrict : w1.env.strictParams = w.env.strictParams := by rw [hwrites.env_tick.1]; rfl
  rw [hstrict] at hretry
  refine ⟨fun hretried => hretry.mp hretried.returns, fun hnew => ?_⟩
  have hok := hretry.mpr hnew
  have hok' := hwhole.mpr fun hstrict => (hnew hstrict).of_names (hwrites.names _)
  have hactive : (w1.sessions sessionId).map (·.status) = some .active := by
    rw [h1.found, Option.map_some, h.active]
  rcases hx : (closeSession sessionId).runAlone w1.healed with ⟨e | result, w2⟩ <;> rw [hx] at hok
  · cases hok
  rcases hy : (closeSession sessionId).runAlone w.healed with ⟨e | result', w3⟩ <;> rw [hy] at hok'
  · cases hok'
  obtain ⟨hg2, row, hrow, hrows⟩ :=
    (closeSession_triple (h1.withFaults fun _ _ => false) hg1).of_ok hx
  obtain ⟨hg3, -⟩ := (closeSession_triple (h.withFaults fun _ _ => false) hg).of_ok hy
  rw [hsame] at hg2
  refine ⟨hactive, ?_, ?_, ?_, row, hrow, ?_⟩ <;> rw [hx]
  · rfl
  · rw [hy, hg2.contracts_eq, hg3.contracts_eq]
  · rw [hy, hg2.handoffs_eq, hg3.handoffs_eq]
  · rw [hrows, World.withFaults_pg, hwrites.pg]
    rfl

/-- A close can be done again without loss just if the call that has failed is one of the graph
store and, if the engine is strict, nothing has been written before it that a close would update. -/
theorem closeSession_retried_iff (h : Closable w n sessionId session agents)
    (hg : Shows (w.graphs session.agentTypeId) contracts handoffs) {k : Nat} {store : Store}
    {e : Exn} {w1 : World}
    (hraised : (closeSession sessionId).runAlone (w.failing k store) = (.error e, w1))
    (hn : ((closeSession sessionId).runAlone w.healed).2.tick ≤ n)
    (hn1 : ((closeSession sessionId).runAlone w1.healed).2.tick ≤ n) :
    Retried w w1 sessionId session.agentTypeId ↔
      store = .kuzu ∧ (w.env.strictParams = true → agents = [] ∨
        (NewRoles (w.graphs session.agentTypeId) agents ∧ (k = w.tick ∨ k = w.tick + 2))) := by
  have hfail := h.withFaults fun m s => m = k ∧ s = store
  rcases (closeSession_triple hfail hg).of_error hraised with hflush | ⟨hclosed, m, hm⟩
  · have hw1 := (flushSession_flush hfail.found hfail.staged hfail.active).of_error hflush
    obtain ⟨contracts', handoffs', hg1, -, hsame⟩ :=
      (flushSession_shows hfail.found hfail.staged hfail.active hg).of_error hflush
    have htick : w1.tick ≤ n := by
      have hs : w1.healed.sessions sessionId = some session := by
        rw [World.withFaults_sessions, hw1.sessions]
        exact h.found
      have ha : w1.healed.sessionAgents sessionId = some agents := by
        rw [World.withFaults_sessionAgents, hw1.sessionAgents]
        exact h.staged
      exact (closeSession_tick hs ha h.active).trans hn1
    exact (retried_iff_newRoles h hg hw1 (hfail.flush hw1 htick) hg1 hsame hn hn1).trans
      (flushSession_interrupted hfail hflush htick)
  · refine iff_of_false (fun hretried => ?_) ?_
    · rw [hretried.active] at hclosed
      cases hclosed
    · rintro ⟨rfl, -⟩
      simp at hm

/-! ## Edges in a run -/

/-- The roles and edges of every graph are sound. -/
def GraphsSound (w : World) : Prop :=
  ∀ name, (w.graphs name).RolesUnique ∧ (w.graphs name).Grounded

theorem graphsSound_withTeam (status : CompositionStatus) :
    GraphsSound (Sample.withTeam status) := by
  refine fun name => ⟨⟨List.nodup_nil, List.nodup_nil⟩, fun h hh => ?_⟩
  cases hh

/-- A second specification of the requests: they keep the graphs sound. -/
def sounds : Spec host where
  issue _ _ _ := True
  stmt _ _ _ := True
  seg _ := Preserves GraphsSound
  rely := Persists
  seg_preorder _ := inferInstance
  rely_preorder := instIsPreorderWorldPersists

/-- The requests keep a property of all graphs. -/
def keepsGraphs (P : Graph → Prop) : Spec host where
  issue _ _ _ := True
  stmt _ _ _ := True
  seg _ := Preserves (EveryGraph P)
  rely := Persists
  seg_preorder _ := inferInstance
  rely_preorder := instIsPreorderWorldPersists

variable {request : Request} {l : Option (Event host)} {P : Graph → Prop}

/-- A property of the roles and edges of a graph, whatever else is in it. -/
def OfEdges (P : Graph → Prop) : Prop :=
  ∀ g g' : Graph, g'.roles = g.roles → g'.handsOffTo = g.handsOffTo → P g → P g'

theorem ofEdges_sound : OfEdges fun g => g.RolesUnique ∧ g.Grounded := by
  rintro g g' hroles hedges ⟨⟨hids, hnames⟩, hgrounded⟩
  refine ⟨⟨?_, ?_⟩, ?_⟩
  · rwa [hroles]
  · rwa [hroles]
  · rwa [Graph.Grounded, hedges, hroles]

/-- Only closing changes roles and edges. -/
theorem Effect.everyGraph (he : Effect request l w w') (hclose : ∀ id, request ≠ .close id)
    (hP : OfEdges P) (h : EveryGraph P w) : EveryGraph P w' := by
  intro name
  cases he with
  | tick | score | reset | graduate | start | session => exact h name
  | @knowledge learned g _ hlearns =>
    by_cases hname : name = learned
    · subst hname
      exact hP _ _ (by simpa using hlearns.roles) (by simpa using hlearns.handsOffTo) (h name)
    · simpa [hname] using h name
  | @schema payload =>
    have hschema := initializeSchema_provisions payload.name w
    obtain ⟨tables, -, hg⟩ := hschema.graph
    by_cases hname : name = payload.name
    · rw [hname, hg]
      exact hP (w.graphs payload.name) _ rfl rfl (h payload.name)
    · rw [hschema.others name hname]
      exact h name
  | flush hrequest => exact absurd hrequest (hclose _)

theorem Flush.others (h : Flush agentType agents w w') {name : String} (hname : name ≠ agentType) :
    w'.graphs name = w.graphs name := by
  induction h with
  | refl => rfl
  | tail _ hstep ih => cases hstep <;> simp [hname, ih]

theorem flushSession_graphsSound (sessionId : String) :
    Keeps (Preserves GraphsSound) (flushSession sessionId) := by
  intro w hw
  rcases flushSession_cases sessionId w with ⟨e, he⟩ | ⟨session, agents, hs, ha, hactive, -⟩
  · rw [he]
    exact hw
  · obtain ⟨hunique, hgrounded⟩ := hw session.agentTypeId
    have hshows := flushSession_shows hs ha hactive ⟨hunique, hgrounded, rfl, rfl⟩
    have hflush := flushSession_flush hs ha hactive
    refine (hshows.and hflush).state (P := GraphsSound) ?_ ?_
    · rintro _ w' ⟨hg, w2, closedAt, hflush, -, rfl⟩ name
      by_cases hname : name = session.agentTypeId
      · subst hname
        exact ⟨hg.unique, hg.grounded⟩
      · rw [World.setSession_graphs, World.bump_graphs, hflush.others hname]
        exact hw name
    · rintro e w' ⟨⟨_, _, hg, -⟩, hflush⟩ name
      by_cases hname : name = session.agentTypeId
      · subst hname
        exact ⟨hg.unique, hg.grounded⟩
      · rw [hflush.others hname]
        exact hw name

theorem handle_keepsGraphs (hP : OfEdges P)
    (hflush : ∀ sessionId, Keeps (Preserves (EveryGraph P)) (flushSession sessionId))
    (request : Request) (w : World) : Follows (keepsGraphs P) AnyEnd none request.handle w := by
  by_cases hclose : ∃ id, request = .close id
  · obtain ⟨sessionId, rfl⟩ := hclose
    have hrow (row : SummaryRow) (l : Option (Event host)) (w : World) :
        Follows (keepsGraphs P) AnyEnd l (sql (.execute (.insertSimulationSessionSummary row))) w :=
      .call trivial fun _ _ => ⟨trivial, fun _ _ => trivial⟩
    have hclose : Follows (keepsGraphs P) AnyEnd none (closeSession sessionId) w :=
      Follows.bind (M := AnyEnd) (.lift (hflush sessionId w) trivial)
        (fun l row w _ => Follows.bind (M := AnyEnd) (hrow row l w)
          (fun _ _ _ _ => .pure trivial) fun _ _ _ _ => trivial) fun _ _ _ _ => trivial
    exact Follows.bind (M := AnyEnd)
      (hclose.tryCatch (fun _ _ _ _ => trivial) fun _ _ _ _ => trivial)
      (fun _ _ _ _ => .pure trivial) fun _ _ _ _ => trivial
  · have hother (id : String) : request ≠ .close id := fun h => hclose ⟨id, h⟩
    exact (handle_follows request w).weaken (fun _ _ _ _ => trivial) (fun _ _ _ _ => trivial)
      (fun l w w' hseg => Segment.keeps (R := Preserves (EveryGraph P))
        (fun _ _ he => he.everyGraph hother hP) hseg) (fun _ _ h => h) fun _ _ _ _ => trivial

theorem handle_sounds (request : Request) (w : World) :
    Follows sounds AnyEnd none request.handle w :=
  handle_keepsGraphs ofEdges_sound flushSession_graphsSound request w

variable {ι : Type} [DecidableEq ι]

/-- What the requests keep of all graphs holds in every state that they reach. -/
theorem everyGraph_run
    (hhandle : ∀ request w, Follows (keepsGraphs P) AnyEnd none (Request.handle request) w)
    (hw : EveryGraph P w) (requests : ι → Request) (sched : List ι) :
    EveryGraph P ((serving w requests).run sched).store := by
  have hstart : Loop.Conforms (fun _ => keepsGraphs P) (fun _ => AnyEnd) (serving w requests) :=
    Loop.conforms_start fun i w' _ => hhandle (requests i) w'
  have hrun := Loop.run_invariant (I := fun c => Serves requests c ∧
    Loop.Conforms (fun _ => keepsGraphs P) (fun _ => AnyEnd) c ∧ EveryGraph P c.store)
    (fun c i ⟨hserves, hkeeps, hc⟩ => ⟨hserves.step i, hkeeps.step fun _ _ => hserves.persists i,
      hkeeps.step_keeps (fun _ _ _ hseg => hseg) (fun _ w q _ h => ?_) hc⟩)
    ⟨serves_serving w requests, hstart, hw⟩ sched
  · exact hrun.2.2
  · intro name
    rw [World.serve_graphs]
    exact h name

/-- The roles and edges are sound in every state that requests reach. -/
theorem graphsSound_run (hw : GraphsSound w) (requests : ι → Request) (sched : List ι) :
    GraphsSound ((serving w requests).run sched).store :=
  everyGraph_run (P := fun g => g.RolesUnique ∧ g.Grounded) handle_sounds hw requests sched

/-! ## Closing again in a run -/

/-- In every state that requests can reach, also over stores that have failed, the close of an
active session that one failing call has made raise can be done again without loss just if the call
was one of the graph store and, should the engine be strict, the session has no contracts, or all of
them make new roles and the call was one of the two for the first. -/
theorem close_retried_iff (w : World) (hw : Hosted w) (hsound : GraphsSound w) (n : Nat)
    (hdistinct : DistinctDraws w.env roleId n) (hfree : ∀ agentType, RoleIdsFree w agentType n)
    (requests : ι → Request) (sched : List ι) (sessionId : String) (session : SimulationSession)
    (agents : List AgentContract)
    (hs : ((serving w requests).run sched).store.sessions sessionId = some session)
    (ha : ((serving w requests).run sched).store.sessionAgents sessionId = some agents)
    (hactive : session.status = .active)
    (htables : ∀ t, t ∈ (((serving w requests).run sched).store.graphs session.agentTypeId).tables)
    (k : Nat) (store : Store) (e : Exn) (w1 : World)
    (hraised : (closeSession sessionId).runAlone
      (((serving w requests).run sched).store.failing k store) = (.error e, w1))
    (hn : ((closeSession sessionId).runAlone
      ((serving w requests).run sched).store.healed).2.tick ≤ n)
    (hn1 : ((closeSession sessionId).runAlone w1.healed).2.tick ≤ n) :
    Retried ((serving w requests).run sched).store w1 sessionId session.agentTypeId ↔
      store = .kuzu ∧ (w.env.strictParams = true → agents = [] ∨
        (NewRoles (((serving w requests).run sched).store.graphs session.agentTypeId) agents ∧
          (k = ((serving w requests).run sched).store.tick ∨
            k = ((serving w requests).run sched).store.tick + 2))) := by
  obtain ⟨henv, hhosted, hids⟩ := hosted_run hw hdistinct hfree requests sched
  obtain ⟨hunique, hgrounded⟩ := graphsSound_run hsound requests sched session.agentTypeId
  set w0 := ((serving w requests).run sched).store
  obtain ⟨hlength, hready, -⟩ := hhosted.sessions sessionId session hs
  have htick : w0.tick ≤ n := by
    have hgrows := closeSession_tick (w := w0.healed) hs ha hactive
    exact hgrows.trans hn
  have hclosable : Closable w0 n sessionId session agents :=
    ⟨hs, ha, hactive, hlength, ⟨hready.1, htables⟩, by rw [henv]; exact hdistinct, hids htick _⟩
  have hshows : Shows (w0.graphs session.agentTypeId) (w0.graphs session.agentTypeId).contracts
      (w0.graphs session.agentTypeId).handoffs := ⟨hunique, hgrounded, rfl, rfl⟩
  rw [← henv]
  exact closeSession_retried_iff hclosable hshows hraised hn hn1

/-- The process in which a first session has just been started. -/
def started : World := ((serving (Sample.withTeam .approved) simulations).run [0, 0]).store

/-- The call that creates the first role fails. -/
theorem close_retried_create : Retried started
    ((closeSession Sample.sessionId).runAlone (started.failing 5 .kuzu)).2 Sample.sessionId
    "shop" := by
  have hsession : (started.sessions Sample.sessionId).map (fun s => (s.agentTypeId, s.status)) =
      some ("shop", .active) := by
    decide +kernel
  obtain ⟨session, hs, hfields⟩ := Option.map_eq_some_iff.mp hsession
  rw [Prod.mk.injEq] at hfields
  obtain ⟨htype, hactive⟩ := hfields
  have hagents : (started.sessionAgents Sample.sessionId).map (·.map (·.agentName)) =
      some ["cook"] := by
    decide +kernel
  obtain ⟨agents, ha, hnames⟩ := Option.map_eq_some_iff.mp hagents
  have hgraphs : started.graphs = (Sample.withTeam .approved).graphs := rfl
  have htables (t : GraphTable) : t ∈ (started.graphs session.agentTypeId).tables := by
    rw [hgraphs]
    cases t <;> simp [Sample.withTeam]
  have hnew : NewRoles (started.graphs session.agentTypeId) agents :=
    ⟨by rw [hnames]; decide, fun agent _ role hrole => by cases hrole⟩
  have hraised : ((closeSession Sample.sessionId).runAlone (started.failing 5 .kuzu)).1 =
      .error (.storeDown .kuzu) := by
    decide +kernel
  rw [← htype]
  refine (close_retried_iff (Sample.withTeam .approved) (hosted_withTeam _)
    (graphsSound_withTeam _) 12 (by decide +kernel) (fun _ _ hrole => by cases hrole) simulations
    [0, 0] Sample.sessionId session agents hs ha hactive htables 5 .kuzu _ _
    (Prod.ext hraised rfl) (by decide +kernel) (by decide +kernel)).mpr
      ⟨rfl, fun _ => .inr ⟨hnew, .inr ?_⟩⟩
  decide +kernel

/-- The insertion of the summary fails, and the session stays closed. -/
theorem close_not_retried :
    ¬ ∀ (sched : List (Fin 8)) sessionId session k store e w1,
      ((serving (Sample.withTeam .approved) simulations).run sched).store.sessions sessionId =
        some session → session.status = .active →
      (closeSession sessionId).runAlone
        (((serving (Sample.withTeam .approved) simulations).run sched).store.failing k store) =
          (.error e, w1) →
      Retried ((serving (Sample.withTeam .approved) simulations).run sched).store w1 sessionId
        session.agentTypeId := by
  intro h
  have hsession : (started.sessions Sample.sessionId).map (·.status) = some .active := by
    decide +kernel
  obtain ⟨session, hs, hactive⟩ := Option.map_eq_some_iff.mp hsession
  have hraised : ((closeSession Sample.sessionId).runAlone (started.failing 7 .postgres)).1 =
      .error (.storeDown .postgres) := by
    decide +kernel
  have hretried := h [0, 0] Sample.sessionId session 7 .postgres _ _ hs hactive
    (Prod.ext hraised rfl)
  have hclosed : (((closeSession Sample.sessionId).runAlone
      (started.failing 7 .postgres)).2.sessions Sample.sessionId).map (·.status) =
      some .closed := by
    decide +kernel
  exact absurd (hclosed.symm.trans hretried.active) (by decide)

end AgentWorx
