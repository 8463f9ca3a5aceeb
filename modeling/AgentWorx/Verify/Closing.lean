import AgentWorx.Verify.Coordination
import AgentWorx.Verify.Session
import AgentWorx.Verify.Statements

/-!
# When a session can be closed

Closing writes one role for each contract and one edge for each pair of roles with a clean message.
Over healthy stores whose graph engine refuses a parameter that its statement does not mention, the
only statement that raises is the update of a role that is already there: `_upsert_agent_role`
passes it the name, which it does not mention.
-/

namespace AgentWorx

open Coop Coop.Sync

variable {w w' : World} {agentType : String} {agent : AgentContract} {agents : List AgentContract}
  {session : SimulationSession} {sessionId : String} {n : Nat} {request : Request}
  {l : Option (Event host)}

/-! ## Handoffs -/

/-- An edge is written unless the store fails. -/
theorem upsertHandoffEdge_raises (fromRole toRole : String) (confidence : ℚ)
    (h : HasSchema w agentType) :
    Triple (upsertHandoffEdge agentType fromRole toRole confidence) w
      (fun _ w' => HasSchema w' agentType ∧ w'.env = w.env) fun _ _ => KuzuFails w := by
  have hupdate {mentions params : List String} {tables : List GraphTable} {f : Graph → Graph}
      (hparams : ∀ p ∈ params, p ∈ mentions) (hf : ∀ g, (f g).tables = g.tables) :
      Triple (execute agentType (.update mentions tables f) params) w.bump
        (fun _ w' => HasSchema w' agentType ∧ w'.env = w.env) fun _ _ => KuzuFails w := by
    have hschema : HasSchema w.bump agentType := ⟨h.name, h.tables⟩
    apply (execute_served hschema fun _ => hparams).mono
    · rintro _ w' ⟨-, g, hg, rfl⟩
      cases hg
      exact ⟨⟨h.name, fun t => by simpa [hf] using h.tables t⟩, rfl⟩
    · rintro e w' ⟨-, hfail | heval⟩
      · exact ⟨w.tick + 1, hfail⟩
      · cases heval
  unfold upsertHandoffEdge
  apply Triple.bind ((query_served h (by simp)).mono (fun _ _ h => h) fun _ _ h => ⟨w.tick, h.2⟩)
  rintro rows w1 ⟨-, -, rfl⟩
  cases rows.head? with
  | some confidence' => exact hupdate (by simp) fun _ => rfl
  | none => exact hupdate (by simp) fun _ => rfl

theorem writeHandoffEdges_raises (session : SimulationSession) (h : HasSchema w agentType) :
    Triple (writeHandoffEdges agentType session) w (fun _ _ => True) fun _ _ => KuzuFails w := by
  refine .bind (.forM (I := fun w' => HasSchema w' agentType ∧ w'.env = w.env) ?_ ⟨h, rfl⟩)
    fun _ _ _ => .pure trivial
  rintro pair - w1 ⟨h1, henv⟩
  apply (upsertHandoffEdge_raises _ _ _ h1).mono
  · exact fun _ w2 h2 => ⟨h2.1, h2.2.trans henv⟩
  · rintro e w2 ⟨m, hm⟩
    exact ⟨m, henv ▸ hm⟩

/-! ## Roles -/

/-- Closing would create a role for each of the contracts: their names differ, and none is there. -/
def NewRoles (g : Graph) (agents : List AgentContract) : Prop :=
  (agents.map (·.agentName)).Nodup ∧
    ∀ agent ∈ agents, ∀ role ∈ g.roles, role.name ≠ agent.agentName

instance (g : Graph) (agents : List AgentContract) : Decidable (NewRoles g agents) :=
  inferInstanceAs (Decidable (_ ∧ ∀ agent ∈ agents, ∀ role ∈ g.roles, _))

theorem newRoles_nil (g : Graph) : NewRoles g [] := ⟨List.nodup_nil, by simp⟩

theorem newRoles_cons (g : Graph) (id : String) (agent : AgentContract)
    (agents : List AgentContract) :
    NewRoles g (agent :: agents) ↔
      (∀ role ∈ g.roles, role.name ≠ agent.agentName) ∧ NewRoles (g.addRole id agent) agents := by
  simp only [NewRoles, Graph.addRole, List.map_cons, List.nodup_cons, List.mem_map, List.mem_cons,
    List.mem_append, List.not_mem_nil, or_false, forall_eq_or_imp, not_exists, not_and]
  constructor
  · rintro ⟨⟨hother, hnodup⟩, hfirst, hrest⟩
    refine ⟨hfirst, hnodup, fun a ha role hrole => ?_⟩
    rcases hrole with hrole | rfl
    · exact hrest a ha role hrole
    · exact fun heq => hother a ha heq.symm
  · rintro ⟨hfirst, hnodup, hrest⟩
    exact ⟨⟨fun a ha heq => hrest a ha _ (.inr rfl) heq.symm, hnodup⟩, hfirst,
      fun a ha role hrole => hrest a ha role (.inl hrole)⟩

/-- No role of the graph has an id that is drawn between now and tick `n`. -/
def RoleIdsFree (w : World) (agentType : String) (n : Nat) : Prop :=
  ∀ role ∈ (w.graphs agentType).roles, ∀ k < n, w.tick ≤ k → role.id ≠ roleId (w.env.uuid k)

theorem UpsertsRole.newRoles_iff {g g' : Graph} (h : UpsertsRole w agent g g')
    (hname : ∀ role ∈ g.roles, role.name ≠ agent.agentName) :
    NewRoles g (agent :: agents) ↔ NewRoles g' agents := by
  cases h with
  | update hrole hrolename => exact absurd hrolename (hname _ hrole)
  | create hdrawn _ hid =>
    rw [newRoles_cons g _ agent]
    exact and_iff_right hname

/-- A role that is created takes an id that has been drawn before. -/
theorem UpsertsRole.idsFree {g g' : Graph} (h : UpsertsRole w agent g g')
    (hdistinct : DistinctDraws w.env roleId n) (hn : w.tick ≤ n)
    (hfree : ∀ role ∈ g.roles, ∀ k < n, w.tick ≤ k → role.id ≠ roleId (w.env.uuid k)) :
    ∀ role ∈ g'.roles, ∀ k < n, w.tick ≤ k → role.id ≠ roleId (w.env.uuid k) := by
  intro role hrole k hk hlater
  cases h with
  | update hold hname =>
    obtain ⟨role', hrole', rfl⟩ := List.mem_map.mp hrole
    split_ifs
    · exact hfree role' hrole' k hk hlater
    · exact hfree role' hrole' k hk hlater
  | @create m hdrawn hname hid =>
    simp only [Graph.addRole, List.mem_append, List.mem_singleton] at hrole
    rcases hrole with hrole | rfl
    · exact hfree role hrole k hk hlater
    · intro heq
      have hsame := hdistinct m (hdrawn.trans_le hn) k hk heq
      omega

theorem Flush.hasSchema (h : Flush agentType agents w w') (hw : HasSchema w agentType) :
    HasSchema w' agentType := by
  refine ⟨hw.name, fun t => ?_⟩
  rw [h.tables]
  exact hw.tables t

theorem Flush.roleIdsFree (h : Flush agentType agents w w')
    (hdistinct : DistinctDraws w.env roleId n) (hn : w'.tick ≤ n)
    (hfree : RoleIdsFree w agentType n) : RoleIdsFree w' agentType n := by
  induction h with
  | refl => exact hfree
  | @tail w1 w2 hflush hstep ih =>
    have hstep1 : Flush agentType agents w1 w2 := .single hstep
    obtain ⟨henv, htick⟩ := hstep1.env_tick
    have h1 := ih (htick.trans hn)
    have hdraws : DistinctDraws w1.env roleId n := by
      rw [(Flush.env_tick hflush).1]
      exact hdistinct
    intro role hrole k hk hlater
    rw [henv]
    cases hstep with
    | tick => exact h1 role hrole k hk (htick.trans hlater)
    | role _ hupsert =>
      rw [World.setGraph_graphs, Function.update_self] at hrole
      exact hupsert.idsFree hdraws hn h1 role hrole k hk hlater
    | handoffs =>
      rw [World.setGraph_graphs, Function.update_self] at hrole
      exact h1 role hrole k hk hlater

/-- `_upsert_agent_role` takes one of its branches, or leaves the graphs as they are. -/
theorem upsertAgentRole_triple (agentType : String) (agent : AgentContract) (w : World) :
    Triple (upsertAgentRole agentType agent) w
      (fun _ w' => Flush agentType [agent] w w' ∧
        ∃ w1, UpsertsRole w1 agent (w.graphs agentType) (w'.graphs agentType))
      fun _ w' => w'.graphs = w.graphs := by
  have hkeeps : Keeps (Flush agentType [agent]) (upsertAgentRole agentType agent) :=
    upsertAgentRole_flush List.mem_cons_self
  have hflush := hkeeps w
  unfold Triple
  rcases upsertAgentRole_cases agentType agent w with ⟨e, m, he⟩ | ⟨m, g, hupsert, he⟩ <;>
    rw [he] at hflush ⊢
  · exact bump_iterate_graphs w m
  · exact ⟨hflush, World.bump^[m] w, by simpa using hupsert⟩

/-- An agent that has no role takes two calls of the store, the first and the third. -/
theorem upsertAgentRole_new (h : HasSchema w agentType)
    (hname : ∀ role ∈ (w.graphs agentType).roles, role.name ≠ agent.agentName) :
    Triple (upsertAgentRole agentType agent) w
      (fun _ _ => ¬ (w.env.fault w.tick .kuzu = true ∨ w.env.fault (w.tick + 2) .kuzu = true))
      fun _ w' => w'.graphs = w.graphs ∧
        (w.env.fault w.tick .kuzu = true ∨ w.env.fault (w.tick + 2) .kuzu = true ∨
          w'.tick = w.tick + 3 ∧
            ∃ role ∈ (w.graphs agentType).roles, role.id = roleId (w.env.uuid (w.tick + 1))) := by
  unfold upsertAgentRole
  apply Triple.bind ((query_served h (by simp)).mono (fun _ _ h => h) ?_)
  · rintro rows w1 ⟨hread, rfl, rfl⟩
    have hnone :
        ((w.graphs agentType).roles.filter (·.name = agent.agentName)).map (·.id) = [] := by
      simpa using hname
    rw [hnone]
    apply Triple.bind (uuid4_triple (w := w.bump)
      (Q := fun u w2 => u = w.env.uuid (w.tick + 1) ∧ w2 = w.bump.bump) ⟨rfl, rfl⟩)
    rintro u w2 ⟨rfl, rfl⟩
    have hschema : HasSchema w.bump.bump agentType := ⟨h.name, h.tables⟩
    apply (execute_served hschema fun _ p hp => hp).mono
    · rintro _ w' ⟨hcreate, -⟩ (hfail | hfail)
      · exact hread hfail
      · exact hcreate hfail
    · rintro e w' ⟨rfl, hfail | heval⟩
      · exact ⟨rfl, .inr (.inl hfail)⟩
      · refine ⟨rfl, .inr (.inr ⟨rfl, ?_⟩)⟩
        simp only [createRole] at heval
        split_ifs at heval with hid
        simpa using hid
  · rintro e w1 ⟨rfl, hfail⟩
    exact ⟨rfl, .inl hfail⟩

/-- A contract that is written makes a new role if the engine is strict. Writing it raises if the
store fails, or if a strict engine has a role of the name to update. -/
theorem upsertAgentRole_ends (h : HasSchema w agentType) (agent : AgentContract) :
    Triple (upsertAgentRole agentType agent) w
      (fun _ _ => w.env.strictParams = true →
        ∀ role ∈ (w.graphs agentType).roles, role.name ≠ agent.agentName)
      fun _ w' => KuzuFails w ∨
        (w.env.strictParams = true ∧
          ∃ role ∈ (w.graphs agentType).roles, role.name = agent.agentName) ∨
        (w'.tick = w.tick + 3 ∧
          ∃ role ∈ (w.graphs agentType).roles, role.id = roleId (w.env.uuid (w.tick + 1))) := by
  by_cases hname : ∃ role ∈ (w.graphs agentType).roles, role.name = agent.agentName
  · unfold upsertAgentRole
    apply Triple.bind ((query_served h (by simp)).mono (fun _ _ h => h) fun _ _ h =>
      .inl ⟨w.tick, h.2⟩)
    rintro rows w1 ⟨-, rfl, rfl⟩
    cases hhead : (((w.graphs agentType).roles.filter
        (·.name = agent.agentName)).map (·.id)).head? with
    | none =>
      obtain ⟨role, hrole, hrolename⟩ := hname
      rw [List.head?_eq_none_iff, List.map_eq_nil_iff, List.filter_eq_nil_iff] at hhead
      exact absurd hrolename (by simpa using hhead role hrole)
    | some id =>
      by_cases hstrict : w.env.strictParams = true
      · -- the update passes the name, which its statement does not mention
        have hname' : ∃ p ∈ rolePayload, p ∉ (setRole id agent).mentions :=
          ⟨"name", by decide, by simp [setRole, Cypher.update]⟩
        exact Triple.mono (execute_refused hstrict hname') (fun _ _ h => h.elim) fun _ _ _ =>
          .inr (.inl ⟨hstrict, hname⟩)
      · have hschema : HasSchema w.bump agentType := ⟨h.name, h.tables⟩
        apply (execute_served hschema fun hstrict' => absurd hstrict' hstrict).mono
        · exact fun _ _ _ hstrict' => absurd hstrict' hstrict
        · rintro e w' ⟨rfl, hfail | heval⟩
          · exact .inl ⟨w.tick + 1, hfail⟩
          · cases heval
  · simp only [not_exists, not_and] at hname
    apply (upsertAgentRole_new h hname).mono (fun _ _ _ _ => hname)
    rintro e w' ⟨-, hfail | hfail | hclash⟩
    · exact .inl ⟨w.tick, hfail⟩
    · exact .inl ⟨w.tick + 2, hfail⟩
    · exact .inr (.inr hclash)

/-- With a strict engine the contracts are written only if each of them makes a new role, and it
raises only if the store fails or one of them does not. -/
theorem upsertAgentRoles_ends (agents : List AgentContract) (h : HasSchema w agentType)
    (hdistinct : DistinctDraws w.env roleId n) (hfree : RoleIdsFree w agentType n) :
    Triple (agents.forM (upsertAgentRole agentType)) w
      (fun _ w' => w'.tick ≤ n → w.env.strictParams = true → NewRoles (w.graphs agentType) agents)
      fun _ w' => w'.tick ≤ n → KuzuFails w ∨
        (w.env.strictParams = true ∧ ¬ NewRoles (w.graphs agentType) agents) := by
  induction agents generalizing w with
  | nil => exact .pure fun _ _ => newRoles_nil _
  | cons agent agents ih =>
    apply Triple.bind (((upsertAgentRole_triple agentType agent w).and
      (upsertAgentRole_ends h agent)).mono (fun _ _ h => h) ?_)
    · rintro _ w1 ⟨⟨hflush, w0, hupsert⟩, hname⟩
      obtain ⟨henv, htick⟩ := hflush.env_tick
      by_cases hn : w1.tick ≤ n
      · apply (ih (hflush.hasSchema h) (by rw [henv]; exact hdistinct)
          (hflush.roleIdsFree hdistinct hn hfree)).mono
        · intro _ w' hnew hw' hstrict
          exact (hupsert.newRoles_iff (hname hstrict)).mpr (hnew hw' (henv ▸ hstrict))
        · intro e w' hreason hw'
          rw [KuzuFails, henv] at hreason
          apply (hreason hw').imp_right
          rintro ⟨hstrict, hno⟩
          exact ⟨hstrict, mt (hupsert.newRoles_iff (hname hstrict)).mp hno⟩
      · apply (Triple.of_keeps (upsertAgentRoles_flush agentType agents) w1).mono
        · exact fun _ w' hrest hw' => absurd (hrest.env_tick.2.trans hw') hn
        · exact fun _ w' hrest hw' => absurd (hrest.env_tick.2.trans hw') hn
    · rintro e w' ⟨-, hfail | ⟨hstrict, role, hrole, hname⟩ | ⟨htick, role, hrole, hid⟩⟩ hw'
      · exact .inl hfail
      · exact .inr ⟨hstrict, fun hnew => hnew.2 agent List.mem_cons_self role hrole hname⟩
      · exact absurd hid (hfree role hrole (w.tick + 1) (by omega) (by omega))

/-- With a strict engine an active session is closed only if each of its contracts makes a new role,
and closing it raises only if the store fails or one of them does not. -/
theorem flushSession_ends (hs : w.sessions sessionId = some session)
    (ha : w.sessionAgents sessionId = some agents) (hactive : session.status = .active)
    (h : HasSchema w session.agentTypeId) (hdistinct : DistinctDraws w.env roleId n)
    (hfree : RoleIdsFree w session.agentTypeId n) :
    Triple (flushSession sessionId) w
      (fun _ w' => w'.tick ≤ n → w.env.strictParams = true →
        NewRoles (w.graphs session.agentTypeId) agents)
      fun _ w' => w'.tick ≤ n → KuzuFails w ∨
        (w.env.strictParams = true ∧ ¬ NewRoles (w.graphs session.agentTypeId) agents) := by
  have hends := upsertAgentRoles_ends agents h hdistinct hfree
  have hroles := upsertAgentRoles_flush session.agentTypeId agents w
  unfold Triple
  rcases flushSession_active hs ha hactive with ⟨e, w1, hr, he⟩ | ⟨e, w1, w2, hr, hh, he⟩ |
    ⟨w1, w2, edges, closedAt, hr, hh, he⟩ <;> rw [he] <;> rw [hr] at hroles
  · exact hends.of_error hr
  · have hedges := writeHandoffEdges_raises session (hroles.hasSchema h)
    have hfails := hedges.of_error hh
    rw [KuzuFails, hroles.env_tick.1] at hfails
    exact fun _ => .inl hfails
  · intro hn
    have hhandoffs : Flush session.agentTypeId agents w1 _ := writeHandoffEdges_flush session w1
    have htick := hhandoffs.env_tick.2
    rw [hh] at htick
    exact hends.of_ok hr (htick.trans ((Nat.le_succ _).trans hn))

/-- An active session is closed just if each of its contracts makes a new role. -/
theorem flushSession_ok_iff (hs : w.sessions sessionId = some session)
    (ha : w.sessionAgents sessionId = some agents) (hactive : session.status = .active)
    (h : GraphReady w session.agentTypeId) (hstrict : w.env.strictParams = true)
    (hdistinct : DistinctDraws w.env roleId n) (hfree : RoleIdsFree w session.agentTypeId n)
    (hn : ((flushSession sessionId).exec w).2.tick ≤ n) :
    (∃ row w', (flushSession sessionId).exec w = (.ok row, w')) ↔
      NewRoles (w.graphs session.agentTypeId) agents := by
  have hends := flushSession_ends hs ha hactive h.hasSchema hdistinct hfree
  rcases hx : (flushSession sessionId).exec w with ⟨e | row, w'⟩ <;> rw [hx] at hn
  · refine iff_of_false (by simp) ?_
    rcases hends.of_error hx hn with ⟨m, hm⟩ | ⟨-, hno⟩
    · rw [h.healthy m] at hm
      cases hm
    · exact hno
  · exact iff_of_true ⟨row, w', rfl⟩ (hends.of_ok hx hn hstrict)

/-! ## What the stores hold -/

@[simp] theorem UUID.toText_length (u : UUID) : u.toText.length = 36 := by
  have hdash : "-".length = 1 := by decide
  simp [UUID.toText, u.length_eq, hdash]

theorem length_le_of_pattern (h : matchesAgentTypePattern agentType = true) :
    agentType.length ≤ 100 := by
  unfold matchesAgentTypePattern at h
  rw [← String.length_toList]
  cases hchars : agentType.toList with
  | nil => simp
  | cons c cs =>
    rw [hchars] at h
    simp only [Bool.and_eq_true, decide_eq_true_eq] at h
    rw [List.length_cons]
    omega

/-- The row of a closed session is accepted. -/
theorem serve_summary (row : SummaryRow) (hserved : ¬ w.Fails .postgres)
    (htype : row.agentType.length ≤ 100) (hid : row.sessionId.length ≤ 100) :
    ∃ pg, World.serve (.execute (.insertSimulationSessionSummary row)) w =
        (.ok (), w.bump.setPg pg) ∧
      pg.simulationSessionSummaries = w.pg.simulationSessionSummaries ++ [row] := by
  refine ⟨{ w.pg with simulationSessionSummaries := w.pg.simulationSessionSummaries ++ [row] },
    ?_, rfl⟩
  simp [World.serve, World.call, hserved, Postgres.eval, Postgres.write, Postgres.checkLength,
    htype, hid]
  rfl

/-- The stores as the code leaves them: a graph has all its tables or not even the first, and the
graph of every composition and of every session is there. The id of a session fits its column. -/
structure Provisioned (w : World) : Prop where
  tables : ∀ name, .concept ∈ (w.graphs name).tables → ∀ t, t ∈ (w.graphs name).tables
  teams : ∀ row ∈ w.pg.teamCompositions, Ready w row.agentType
  sessions : ∀ id session, w.sessions id = some session →
    id.length ≤ 100 ∧ Ready w session.agentTypeId ∧ ∃ agents, w.sessionAgents id = some agents

/-- What the code leaves when its stores may fail: of a graph perhaps only the first table. -/
structure Hosted (w : World) : Prop where
  teams : ∀ row ∈ w.pg.teamCompositions, Ready w row.agentType
  sessions : ∀ id session, w.sessions id = some session →
    id.length ≤ 100 ∧ Ready w session.agentTypeId ∧ ∃ agents, w.sessionAgents id = some agents

theorem Provisioned.hosted (h : Provisioned w) : Hosted w := ⟨h.teams, h.sessions⟩

theorem hosted_withTeam (status : CompositionStatus) : Hosted (Sample.withTeam status) := by
  constructor
  · intro row hrow
    cases List.mem_singleton.mp hrow
    have hready : Ready (Sample.withTeam status) "shop" := ⟨by decide, List.mem_cons_self⟩
    exact hready
  · intro id session hs
    cases hs

theorem Hosted.provisioned (h : Hosted w)
    (htables : ∀ name, .concept ∈ (w.graphs name).tables → ∀ t, t ∈ (w.graphs name).tables) :
    Provisioned w := ⟨htables, h.teams, h.sessions⟩

theorem Provisioned.graphReady (h : Provisioned w) (hready : Ready w agentType)
    (hhealthy : ∀ n, w.env.fault n .kuzu = false) : GraphReady w agentType :=
  ⟨hready.1, h.tables agentType hready.2, hhealthy⟩

/-- Over a healthy store the schema is created as a whole, or not at all for a name that is not
valid. -/
theorem initializeSchema_tables (name : String) (hhealthy : ∀ n, w.env.fault n .kuzu = false) :
    (∀ t, t ∈ (((initializeSchema name).exec w).2.graphs name).tables) ∨
      (((initializeSchema name).exec w).2.graphs name).tables = (w.graphs name).tables := by
  by_cases hname : matchesAgentTypePattern name = true
  · obtain ⟨w', he, -, hall⟩ := createTables_tables hname hhealthy
      [.concept, .constraint, .relatesTo, .hasConstraint, .agentRole, .handsOffTo, .hasRole]
    rw [show (initializeSchema name).exec w = (.ok (), w') from he]
    exact .inl fun t => hall t (by cases t <;> simp)
  · have hfirst : (execute name (Cypher.createTable .concept) []).exec w = (.error (.valueError
        ("agent_type must be a single path segment using letters, numbers, " ++
          "underscores, or hyphens")), w) := by
      simp [exec, execute, hname]
    have he : ((initializeSchema name).exec w).2 = w := by
      change (exec (execute name (Cypher.createTable .concept) [] >>= _) w).2 = w
      rw [exec_bind_error hfirst]
    rw [he]
    exact .inr rfl

theorem SessionStep.agentTypeId {s s' : SimulationSession × List AgentContract}
    (h : SessionStep request s s') : s'.1.agentTypeId = s.1.agentTypeId := by
  cases h with
  | turn => rfl
  | close => rfl
  | resolve =>
    simp only [SimulationSession.resolve]
    split_ifs <;> rfl

theorem Effect.tables_full (he : Effect request l w w')
    (hhealthy : ∀ n, w.env.fault n .kuzu = false) (name : String)
    (h : .concept ∈ (w.graphs name).tables → ∀ t, t ∈ (w.graphs name).tables)
    (hconcept : .concept ∈ (w'.graphs name).tables) (t : GraphTable) :
    t ∈ (w'.graphs name).tables := by
  have hsame (htables : (w'.graphs name).tables = (w.graphs name).tables) :
      t ∈ (w'.graphs name).tables := by
    rw [htables] at hconcept ⊢
    exact h hconcept t
  cases he with
  | tick | score | reset | graduate | start | session => exact h hconcept t
  | @knowledge other g _ hlearns =>
    apply hsame
    by_cases hname : name = other
    · subst hname
      simpa using hlearns.tables
    · simp [hname]
  | flush _ _ _ _ hstep => exact hsame (Flush.tables (.single hstep) name)
  | @schema payload =>
    by_cases hname : name = payload.name
    · subst hname
      rcases initializeSchema_tables payload.name hhealthy with hall | htables
      · exact hall t
      · exact hsame htables
    · exact hsame (by rw [(initializeSchema_provisions payload.name w).others name hname])

theorem Effect.hosted (he : Effect request l w w') (h : Hosted w) : Hosted w' := by
  have hready := he.persists.ready
  refine ⟨fun row hrow => ?_, ?_⟩
  · rw [Segment.pg (.single he)] at hrow
    exact hready _ (h.teams row hrow)
  · intro id session hs'
    rcases he.session_cases id with ⟨hs, ha⟩ |
      ⟨agentType, version, createdAt, agents, -, ⟨row, hrow, htype, -⟩, hid, -, hs, ha⟩ |
      ⟨session0, agents0, session1, agents1, -, hs0, -, hstep, hs, ha⟩ <;> rw [hs] at hs'
    · rw [ha]
      obtain ⟨hlength, hsession, hagents⟩ := h.sessions id session hs'
      exact ⟨hlength, hready _ hsession, hagents⟩
    · cases hs'
      subst htype
      exact ⟨by rw [hid]; simp, hready _ (h.teams row hrow), agents, ha⟩
    · cases hs'
      obtain ⟨hlength, hsession, -⟩ := h.sessions id session0 hs0
      have htype : session.agentTypeId = session0.agentTypeId := hstep.agentTypeId
      exact ⟨hlength, by rw [htype]; exact hready _ hsession, agents1, ha⟩

theorem serve_hosted {q : Sql} (hq : ∀ wr ∈ q.writes, wr.Allowed request l w q) (h : Hosted w) :
    Hosted (World.serve q w).2 := by
  have hpersists := serve_persists q w
  refine ⟨fun row hrow => hpersists.ready _ ?_, fun id session hs => ?_⟩
  · have hteams := World.serve_keeps (q := q) (w := w)
      (R := Preserves fun pg : Postgres => ∀ row ∈ pg.teamCompositions, Ready w row.agentType)
      fun pg pg' wr hwr hwrite hpg row hrow => by
        rcases Postgres.write_teamCompositions hwrite with ⟨-, hrows⟩ |
          ⟨agentType, version, f, -, hf, hrows⟩ |
          ⟨new, expertSignature, signature, rfl, -, hrows⟩ <;> rw [hrows] at hrow
        · exact hpg row hrow
        · obtain ⟨old, hold, rfl⟩ := List.mem_map.mp hrow
          split_ifs
          · rw [(hf old).1.agentType]
            exact hpg old hold
          · exact hpg old hold
        · rcases List.mem_append.mp hrow with hrow | hrow
          · exact hpg row hrow
          · cases List.mem_singleton.mp hrow
            rcases (hq _ hwr).1 with hready | ⟨row', hrow', htype⟩
            · exact hready
            · exact htype ▸ h.teams row' hrow'
    exact hteams h.teams row hrow
  · rw [World.serve_sessions] at hs
    rw [World.serve_sessionAgents]
    obtain ⟨hid, hready, ha⟩ := h.sessions id session hs
    exact ⟨hid, hpersists.ready _ hready, ha⟩

theorem Effect.roleIdsFree (he : Effect request l w w') (hdistinct : DistinctDraws w.env roleId n)
    (hn : w.tick ≤ n) (h : RoleIdsFree w agentType n) : RoleIdsFree w' agentType n := by
  have hpersists := he.persists
  intro role hrole k hk htick
  rw [hpersists.env]
  have hlater := hpersists.tick.trans htick
  rcases he.roles_cases agentType with hroles |
    ⟨sessionId, session, agents, agent, -, -, -, -, -, -, hupsert⟩
  · rw [hroles] at hrole
    exact h role hrole k hk hlater
  · exact hupsert.idsFree hdistinct hn h role hrole k hk hlater

/-! ## Closing in a run -/

variable {ι : Type} [DecidableEq ι]

/-- What holds in every state that requests reach, also over stores that fail. -/
theorem hosted_run {w : World} (hw : Hosted w) (hdistinct : DistinctDraws w.env roleId n)
    (hfree : ∀ agentType, RoleIdsFree w agentType n) (requests : ι → Request) (sched : List ι) :
    ((serving w requests).run sched).store.env = w.env ∧
    Hosted ((serving w requests).run sched).store ∧
    (((serving w requests).run sched).store.tick ≤ n →
      ∀ agentType, RoleIdsFree ((serving w requests).run sched).store agentType n) := by
  refine (serves_serving w requests).invariant (I := fun w' => w'.env = w.env ∧ Hosted w' ∧
    (w'.tick ≤ n → ∀ agentType, RoleIdsFree w' agentType n)) ?_ ?_ ⟨rfl, hw, fun _ => hfree⟩ sched
  · rintro j l w1 w2 he ⟨henv, hhosted, hids⟩
    refine ⟨he.persists.env.trans henv, he.hosted hhosted, fun htick agentType => ?_⟩
    have htick1 := he.persists.tick.trans htick
    exact he.roleIdsFree (by rw [henv]; exact hdistinct) htick1 (hids htick1 agentType)
  · rintro j l q w1 hq ⟨henv, hhosted, hids⟩
    refine ⟨by rw [World.serve_env, henv], serve_hosted hq hhosted, ?_⟩
    rw [World.serve_tick]
    intro htick agentType role hrole k hk hlater
    rw [World.serve_graphs] at hrole
    rw [World.serve_tick] at hlater
    rw [World.serve_env]
    exact hids (by omega) agentType role hrole k hk (by omega)

/-- What holds in every state that requests reach over healthy stores. -/
theorem provisioned_run {w : World} (hw : Provisioned w)
    (hhealthy : ∀ n, w.env.fault n .kuzu = false) (hdistinct : DistinctDraws w.env roleId n)
    (hfree : ∀ agentType, RoleIdsFree w agentType n) (requests : ι → Request) (sched : List ι) :
    ((serving w requests).run sched).store.env = w.env ∧
    Provisioned ((serving w requests).run sched).store ∧
    (((serving w requests).run sched).store.tick ≤ n →
      ∀ agentType, RoleIdsFree ((serving w requests).run sched).store agentType n) := by
  obtain ⟨henv, hhosted, hids⟩ := hosted_run hw.hosted hdistinct hfree requests sched
  have htables := (serves_serving w requests).invariant (I := fun w' => w'.env = w.env ∧
    ∀ name, .concept ∈ (w'.graphs name).tables → ∀ t, t ∈ (w'.graphs name).tables)
    (fun j l w1 w2 he h => ⟨he.persists.env.trans h.1, fun name =>
      he.tables_full (fun k => by rw [h.1]; exact hhealthy k) name (h.2 name)⟩)
    (fun j l q w1 _ h => ⟨(World.serve_env q w1).trans h.1, by simpa using h.2⟩)
    ⟨rfl, hw.tables⟩ sched
  exact ⟨henv, hhosted.provisioned htables.2, hids⟩

/-- A request to close a session, once its statement has been served, has returned just if its first
segment has. -/
theorem close_run {requests : ι → Request} {c : Loop host ι Response} {i : ι}
    (htask : c.tasks i = ⟨(Request.close sessionId).handle, none⟩) {post : List ι}
    (hserved : i ∈ post)
    (hsummary : ∀ row w', (flushSession sessionId).exec c.store = (.ok row, w') → ∀ w1 : World,
      w1.env = c.store.env →
        (World.serve (.execute (.insertSimulationSessionSummary row)) w1).1 = .ok ())
    (hserves : Serves requests c) :
    ((c.run (i :: post)).tasks i).Returned ↔
      ∃ row w', (flushSession sessionId).exec c.store = (.ok row, w') := by
  obtain ⟨mid, rest, rfl, hmid⟩ := List.eq_append_cons_of_mem hserved
  rw [Loop.run_cons, Loop.run_append, Loop.run_cons]
  rcases close_step htask with ⟨e, e', hflush, hended⟩ | ⟨summary, k, hflush, hprog, hreturns⟩
  · rw [hflush]
    constructor
    · rintro ⟨a, ha⟩
      have hraised := Loop.run_ended hended (mid ++ i :: rest)
      rw [Loop.run_append, Loop.run_cons, Task.Ended, ha] at hraised
      cases hraised
    · rintro ⟨row, w', heq⟩
      cases heq
  · refine iff_of_true ?_ ⟨_, _, hflush⟩
    have hstays := Loop.run_tasks_of_notMem (c.step i) hmid
    have henv := (((hserves.step i).run_persists mid).env.trans (hserves.persists i).env)
    have hstep := Loop.step_await (c := (c.step i).run mid) (by rw [hstays]; exact hprog)
    obtain ⟨a, ha⟩ := hreturns ()
    refine ⟨a, Loop.run_ended ?_ rest⟩
    rw [Task.Ended, hstep, ← ha]
    exact congrArg k (hsummary summary _ hflush _ henv)

/-- In every state that requests can reach over healthy stores, closing an active session returns
just if its contracts have different names and none of them has a role yet. -/
theorem close_returns_iff (w : World) (hw : Provisioned w)
    (hhealthy : ∀ n, w.env.fault n .kuzu = false ∧ w.env.fault n .postgres = false)
    (hstrict : w.env.strictParams = true) (requests : ι → Request) (pre post : List ι) (i : ι)
    (hnew : i ∉ pre) (hserved : i ∈ post) (sessionId : String)
    (hclose : requests i = .close sessionId) (session : SimulationSession)
    (agents : List AgentContract)
    (hs : ((serving w requests).run pre).store.sessions sessionId = some session)
    (ha : ((serving w requests).run pre).store.sessionAgents sessionId = some agents)
    (hactive : session.status = .active) (n : Nat)
    (hn : ((serving w requests).run (pre ++ [i])).store.tick ≤ n)
    (hdistinct : DistinctDraws w.env roleId n) (hfree : ∀ agentType, RoleIdsFree w agentType n) :
    (((serving w requests).run (pre ++ i :: post)).tasks i).Returned ↔
      NewRoles (((serving w requests).run pre).store.graphs session.agentTypeId) agents := by
  obtain ⟨henv, hprov, hids⟩ :=
    provisioned_run hw (fun k => (hhealthy k).1) hdistinct hfree requests pre
  have hserves := (serves_serving w requests).run pre
  have htask := close_begins w hnew hclose
  rw [Loop.run_append] at hn ⊢
  set c := (serving w requests).run pre
  obtain ⟨hlength, hready, -⟩ := hprov.sessions sessionId session hs
  have hgraph := hprov.graphReady hready fun k => by rw [henv]; exact (hhealthy k).1
  have htick : ((flushSession sessionId).exec c.store).2.tick ≤ n := by
    rcases close_step htask with ⟨e, e', hflush, -⟩ | ⟨summary, k, hflush, -⟩ <;> rw [hflush] <;>
      exact hn
  rw [close_run htask hserved ?_ hserves]
  · exact flushSession_ok_iff hs ha hactive hgraph (by rw [henv]; exact hstrict)
      (by rw [henv]; exact hdistinct) (hids ((hserves.persists i).tick.trans hn) _) htick
  · intro row w' hflush w1 hw1
    rcases flushSession_active hs ha hactive with ⟨e, w2, -, he⟩ | ⟨e, w2, w3, -, -, he⟩ |
      ⟨w2, w3, edges, closedAt, -, -, he⟩ <;> rw [he] at hflush <;> cases hflush
    have hserved : ¬ w1.Fails .postgres := by simp [World.Fails, hw1, henv, hhealthy]
    obtain ⟨pg, hpg, -⟩ := serve_summary (summaryRow sessionId session closedAt) hserved
      (length_le_of_pattern hready.1) hlength
    rw [hpg]

theorem close_returns_first :
    (((serving (Sample.withTeam .approved) simulations).run
      ([0, 0, 1, 1, 2, 3] ++ 4 :: [4])).tasks 4).Returned := by
  have hprov : Provisioned (Sample.withTeam .approved) :=
    (hosted_withTeam _).provisioned fun name _ t => by cases t <;> simp [Sample.withTeam]
  have hsession : (((serving (Sample.withTeam .approved) simulations).run
      [0, 0, 1, 1, 2, 3]).store.sessions Sample.sessionId).map (·.status) = some .active := by
    decide +kernel
  obtain ⟨session, hs, hactive⟩ := Option.map_eq_some_iff.mp hsession
  have hagents : (((serving (Sample.withTeam .approved) simulations).run
      [0, 0, 1, 1, 2, 3]).store.sessionAgents Sample.sessionId).map (·.map (·.agentName)) =
      some ["cook"] := by
    decide +kernel
  obtain ⟨agents, ha, hnames⟩ := Option.map_eq_some_iff.mp hagents
  have hroles : ∀ name, (((serving (Sample.withTeam .approved) simulations).run
      [0, 0, 1, 1, 2, 3]).store.graphs name).roles = [] := fun name => rfl
  refine (close_returns_iff (Sample.withTeam .approved) hprov (fun _ => ⟨rfl, rfl⟩) rfl simulations
    [0, 0, 1, 1, 2, 3] [4] 4 (by decide) (by decide) Sample.sessionId rfl session agents hs ha
    hactive 20 (by decide +kernel) (by decide +kernel) (fun _ _ hrole => by cases hrole)).mpr ?_
  exact ⟨by rw [hnames]; decide, by rw [hroles]; simp⟩

/-- The second session on a composition cannot be closed: the roles are there. -/
theorem close_raises_second :
    ¬ ∀ pre post : List (Fin 8), ∀ i sessionId, i ∉ pre → i ∈ post →
      simulations i = .close sessionId →
      (((serving (Sample.withTeam .approved) simulations).run pre).store.sessions sessionId).map
        (·.status) = some .active →
      (((serving (Sample.withTeam .approved) simulations).run
        (pre ++ i :: post)).tasks i).Returned := by
  intro h
  have hreturned := h [0, 0, 1, 1, 4, 4] [7] 7 secondSessionId (by decide) (by decide) rfl
    (by decide +kernel)
  exact absurd hreturned (by decide +kernel)

end AgentWorx
