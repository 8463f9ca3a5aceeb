import AgentWorx.Verify.Requests
import AgentWorx.Verify.Sample

/-!
# Clarified contracts and the roles of the graph

A clarification is staged in the contracts of its session and stored with the role of the agent when
the session is closed. Every later close writes the whole contract that its own session has staged,
so the clarification is lost as soon as one of them lacks it, and `clarification_lasts` shows that
there is no other way to lose it.
-/

namespace AgentWorx

open Coop Coop.Sync

/-! ## Roles -/

/-- A role is determined by its id and by its name. -/
structure Graph.RolesUnique (g : Graph) : Prop where
  ids : (g.roles.map (·.id)).Nodup
  names : (g.roles.map (·.name)).Nodup

/-- The agent has a role, and the contract stored with it declares the field. -/
def Graph.Declares (g : Graph) (agentName field : String) : Prop :=
  (∃ role ∈ g.roles, role.name = agentName) ∧
    ∀ role ∈ g.roles, role.name = agentName → field ∈ role.inputSchema

instance (g : Graph) (agentName field : String) : Decidable (g.Declares agentName field) :=
  inferInstanceAs (Decidable (_ ∧ _))

/-- Every contract of the agent in the list declares the field. -/
def ContractsDeclare (agents : List AgentContract) (agentName field : String) : Prop :=
  ∀ agent ∈ agents, agent.agentName = agentName → field ∈ agent.inputSchema

instance (agents : List AgentContract) (agentName field : String) :
    Decidable (ContractsDeclare agents agentName field) :=
  inferInstanceAs (Decidable (∀ agent ∈ agents, _ → _))

variable {w w' : World} {agent : AgentContract} {agents : List AgentContract} {g g' : Graph}
  {agentType agentName field sessionId : String} {session : SimulationSession} {request : Request}
  {l : Option (Event host)}

@[simp] theorem AgentRole.setContract_name (role : AgentRole) (agent : AgentContract) :
    (role.setContract agent).name = role.name := rfl

/-- What is not part of a contract stays. -/
theorem Graph.setRole_map {β : Type} {f : AgentRole → β} (g : Graph) (id : String)
    (agent : AgentContract) (hf : ∀ role : AgentRole, f (role.setContract agent) = f role) :
    (g.setRole id agent).roles.map f = g.roles.map f := by
  simp only [Graph.setRole, List.map_map]
  apply List.map_congr_left
  intro role _
  simp only [Function.comp_apply]
  split_ifs
  · exact hf role
  · rfl

theorem Graph.setRole_names (g : Graph) (id : String) (agent : AgentContract) :
    (g.setRole id agent).roles.map (·.name) = g.roles.map (·.name) :=
  g.setRole_map id agent fun _ => rfl

theorem Graph.setRole_ids (g : Graph) (id : String) (agent : AgentContract) :
    (g.setRole id agent).roles.map (·.id) = g.roles.map (·.id) :=
  g.setRole_map id agent fun _ => rfl

theorem UpsertsRole.ids (h : UpsertsRole w agent g g') (hg : (g.roles.map (·.id)).Nodup) :
    (g'.roles.map (·.id)).Nodup := by
  cases h with
  | @update role hrole hname =>
    rw [Graph.setRole_ids]
    exact hg
  | @create n hdrawn hname hid =>
    have hids : ∀ a ∈ g.roles.map (·.id), a ≠ roleId (w.env.uuid n) := by
      intro a ha
      obtain ⟨role, hrole, rfl⟩ := List.mem_map.mp ha
      exact hid role hrole
    simpa [Graph.addRole, List.nodup_append, hg] using hids

theorem UpsertsRole.rolesUnique (h : UpsertsRole w agent g g') (hg : g.RolesUnique) :
    g'.RolesUnique := by
  refine ⟨h.ids hg.ids, ?_⟩
  cases h with
  | @update role hrole hname =>
    rw [Graph.setRole_names]
    exact hg.names
  | @create n hdrawn hname hid =>
    have hnames : ∀ a ∈ g.roles.map (·.name), a ≠ agent.agentName := by
      intro a ha
      obtain ⟨role, hrole, rfl⟩ := List.mem_map.mp ha
      exact hname role hrole
    simpa [Graph.addRole, List.nodup_append, hg.names] using hnames

/-- Writing a contract keeps every name, and only that of the agent may be new. -/
theorem UpsertsRole.mem_names (h : UpsertsRole w agent g g') (name : String) :
    name ∈ g'.roles.map (·.name) ↔ name ∈ g.roles.map (·.name) ∨ name = agent.agentName := by
  cases h with
  | @update role hrole hname =>
    rw [Graph.setRole_names, ← hname]
    refine ⟨.inl, ?_⟩
    rintro (hold | rfl)
    · exact hold
    · exact List.mem_map_of_mem hrole
  | create hdrawn hname hid => simp [Graph.addRole]

theorem UpsertsRole.names (h : UpsertsRole w agent g g') :
    g.roles.map (·.name) ⊆ g'.roles.map (·.name) ∧
      agent.agentName ∈ g'.roles.map (·.name) :=
  ⟨fun name hname => (h.mem_names name).mpr (.inl hname), (h.mem_names _).mpr (.inr rfl)⟩

/-- A role after a contract has been written is one of another agent, or it holds the contract. -/
theorem UpsertsRole.mem_roles (h : UpsertsRole w agent g g') (hg : g.RolesUnique) {role : AgentRole}
    (hrole : role ∈ g'.roles) :
    (role ∈ g.roles ∧ role.name ≠ agent.agentName) ∨
      (role.name = agent.agentName ∧ role.inputSchema = agent.inputSchema) := by
  cases h with
  | @update role' hrole' hname =>
    obtain ⟨old, hold, rfl⟩ := List.mem_map.mp hrole
    split_ifs with hid
    · have hsame : old = role' := List.inj_on_of_nodup_map hg.ids hold hrole' hid
      exact .inr ⟨by rw [AgentRole.setContract_name, hsame, hname], rfl⟩
    · refine .inl ⟨hold, fun hother => hid ?_⟩
      have hsame : old = role' :=
        List.inj_on_of_nodup_map hg.names hold hrole' (hother.trans hname.symm)
      rw [hsame]
  | create hdrawn hname hid =>
    simp only [Graph.addRole, List.mem_append, List.mem_singleton] at hrole
    rcases hrole with hrole | rfl
    · exact .inl ⟨hrole, hname role hrole⟩
    · exact .inr ⟨rfl, rfl⟩

/-- Writing a contract of the agent that declares the field. -/
theorem UpsertsRole.declares (h : UpsertsRole w agent g g') (hg : g.RolesUnique)
    (hname : agent.agentName = agentName) (hfield : field ∈ agent.inputSchema) :
    g'.Declares agentName field := by
  constructor
  · obtain ⟨role, hrole, heq⟩ := List.mem_map.mp h.names.2
    exact ⟨role, hrole, heq.trans hname⟩
  · intro role hrole hrolename
    rcases h.mem_roles hg hrole with ⟨-, hne⟩ | ⟨-, hschema⟩
    · exact absurd (hrolename.trans hname.symm) hne
    · rwa [hschema]

/-- Writing a contract of another agent, or one that declares the field too. -/
theorem UpsertsRole.keeps_declares (h : UpsertsRole w agent g g') (hg : g.RolesUnique)
    (hfield : agent.agentName = agentName → field ∈ agent.inputSchema)
    (hdeclares : g.Declares agentName field) : g'.Declares agentName field := by
  obtain ⟨⟨role, hrole, hname⟩, hall⟩ := hdeclares
  constructor
  · obtain ⟨role', hrole', heq⟩ := List.mem_map.mp (h.names.1 (List.mem_map_of_mem hrole))
    exact ⟨role', hrole', heq.trans hname⟩
  · intro role' hrole' hname'
    rcases h.mem_roles hg hrole' with ⟨hold, -⟩ | ⟨hsame, hschema⟩
    · exact hall role' hold hname'
    · rw [hschema]
      exact hfield (hsame.symm.trans hname')

theorem Effect.rolesUnique (he : Effect request l w w') (hw : (w.graphs agentType).RolesUnique) :
    (w'.graphs agentType).RolesUnique := by
  rcases he.roles_cases agentType with hroles | ⟨_, _, _, _, -, -, -, -, -, -, hupsert⟩
  · constructor
    · rw [hroles]
      exact hw.ids
    · rw [hroles]
      exact hw.names
  · exact hupsert.rolesUnique hw

/-- Contracts that declare the field do not take it away. -/
theorem upsertAgentRoles_keep (hfield : ContractsDeclare agents agentName field) :
    Keeps (Preserves fun w => (w.graphs agentType).RolesUnique ∧
        (w.graphs agentType).Declares agentName field)
      (agents.forM (upsertAgentRole agentType)) := by
  refine .forM fun agent hagent w => ?_
  rintro ⟨hunique, hstored⟩
  rcases upsertAgentRole_cases agentType agent w with ⟨e, n, he⟩ | ⟨n, g, hupsert, he⟩ <;> rw [he]
  · rw [bump_iterate_graphs]
    exact ⟨hunique, hstored⟩
  · simpa using
      ⟨hupsert.rolesUnique hunique, hupsert.keeps_declares hunique (hfield agent hagent) hstored⟩

/-- Closing writes the contracts of the session: once it has written them, a field that the
contracts of the agent declare is stored. -/
theorem upsertAgentRoles_declares (hw : (w.graphs agentType).RolesUnique)
    (hfield : ContractsDeclare agents agentName field)
    (hagent : ∃ agent ∈ agents, agent.agentName = agentName)
    (h : (agents.forM (upsertAgentRole agentType)).exec w = (.ok (), w')) :
    (w'.graphs agentType).Declares agentName field := by
  induction agents generalizing w with
  | nil =>
    obtain ⟨agent, hmem, -⟩ := hagent
    cases hmem
  | cons first rest ih =>
    change exec (upsertAgentRole agentType first >>= fun _ =>
      rest.forM (upsertAgentRole agentType)) w = _ at h
    rcases upsertAgentRole_cases agentType first w with ⟨e, n, he⟩ | ⟨n, g, hupsert, he⟩
    · rw [exec_bind_error he] at h
      cases h
    · rw [exec_bind_ok he] at h
      set w1 := (World.bump^[n] w).setGraph agentType g with hw1
      have hg : w1.graphs agentType = g := by simp [hw1]
      have hunique := hupsert.rolesUnique hw
      have hrest : ContractsDeclare rest agentName field :=
        fun agent hmem => hfield agent (List.mem_cons_of_mem _ hmem)
      by_cases hname : first.agentName = agentName
      · have hstored := hupsert.declares hw hname (hfield first List.mem_cons_self hname)
        rw [← hg] at hunique hstored
        have hend := upsertAgentRoles_keep hrest w1 ⟨hunique, hstored⟩
        rw [h] at hend
        exact hend.2
      · obtain ⟨agent, hmem, hagentname⟩ := hagent
        have hmem' : agent ∈ rest := by
          rcases List.mem_cons.mp hmem with rfl | hmem
          · exact absurd hagentname hname
          · exact hmem
        exact ih (by rwa [hg]) hrest ⟨agent, hmem', hagentname⟩ h

/-! ## Staged contracts -/

/-- The contracts of a session declare what its clarifications have recorded. -/
def StagesWrites (w : World) : Prop :=
  ∀ sessionId session agents, w.sessions sessionId = some session →
    w.sessionAgents sessionId = some agents → ∀ write ∈ session.coordNamespaceWrites,
      ContractsDeclare agents write.agentName write.field

theorem clarifyField_declares (agentName field fieldType : String) (agents : List AgentContract) :
    ContractsDeclare (clarifyField agentName field fieldType agents) agentName field := by
  intro agent hagent hname
  obtain ⟨old, hold, rfl⟩ := List.mem_map.mp hagent
  split_ifs at hname ⊢ with h
  · simp
  · exact absurd hname h

theorem ContractsDeclare.clarifyField (h : ContractsDeclare agents agentName field)
    (toAgent newField fieldType : String) :
    ContractsDeclare (clarifyField toAgent newField fieldType agents) agentName field := by
  intro agent hagent hname
  obtain ⟨old, hold, rfl⟩ := List.mem_map.mp hagent
  split_ifs at hname ⊢
  · simpa using .inr (h old hold hname)
  · exact h old hold hname

/-- A transition of a session stages what it records. -/
theorem SessionStep.stages {s s' : SimulationSession × List AgentContract}
    (hstep : SessionStep request s s')
    (h : ∀ write ∈ s.1.coordNamespaceWrites, ContractsDeclare s.2 write.agentName write.field) :
    ∀ write ∈ s'.1.coordNamespaceWrites, ContractsDeclare s'.2 write.agentName write.field := by
  cases hstep with
  | turn hactive hpending => exact h
  | close hactive => exact h
  | @resolve _ _ resolution clarification session agents lastTurn index violation updatedAgents _
      hlast hindex hviolation happly =>
    unfold applyResolution at happly
    split_ifs at happly with hedge hother
    · cases happly
      exact h
    · split at happly
      · cases happly
      · cases happly
      · cases happly
        intro write hwrite
        simp only [SimulationSession.resolve, if_true, List.mem_append,
          List.mem_singleton] at hwrite
        rcases hwrite with hwrite | rfl
        · exact (h write hwrite).clarifyField _ _ _
        · exact clarifyField_declares _ _ _ _

theorem Effect.stagesWrites (he : Effect request l w w') (h : StagesWrites w) :
    StagesWrites w' := by
  intro sessionId session agents hs' ha'
  rcases he.session_cases sessionId with ⟨hs, ha⟩ |
    ⟨agentType, version, createdAt, agents0, -, -, -, -, hs, ha⟩ |
    ⟨session0, agents0, session1, agents1, -, hs0, ha0, hstep, hs, ha⟩ <;>
    rw [hs] at hs' <;> rw [ha] at ha'
  · exact h sessionId session agents hs' ha'
  · cases hs'
    intro write hwrite
    cases hwrite
  · cases hs'
    cases ha'
    exact hstep.stages (h sessionId session0 agents0 hs0 ha0)

/-- A clarification of the session has added the field to the staged contract of the agent: it is
among the recorded writes, and the agent has a contract. -/
def Clarified (w : World) (sessionId agentName field fieldType : String) : Prop :=
  ∃ session ∈ w.sessions sessionId, ∃ agents ∈ w.sessionAgents sessionId,
    (∃ write ∈ session.coordNamespaceWrites, write.agentName = agentName ∧ write.field = field ∧
      write.fieldType = fieldType) ∧ ∃ agent ∈ agents, agent.agentName = agentName

instance (w : World) (sessionId agentName field fieldType : String) :
    Decidable (Clarified w sessionId agentName field fieldType) :=
  inferInstanceAs (Decidable (∃ session ∈ w.sessions sessionId,
    ∃ agents ∈ w.sessionAgents sessionId,
      (∃ write ∈ session.coordNamespaceWrites, _ ∧ _ ∧ _) ∧ ∃ agent ∈ agents, _))

/-! ## Closing in a run -/

/-- The request closes an active session of the agent type whose contract of the agent does not
declare the field. -/
def Overwrites (w : World) (agentType agentName field : String) : Request → Prop
  | .close sessionId => ∃ session ∈ w.sessions sessionId, session.status = .active ∧
      session.agentTypeId = agentType ∧
      ∃ agents ∈ w.sessionAgents sessionId, ¬ ContractsDeclare agents agentName field
  | _ => False

instance (w : World) (agentType agentName field : String) :
    (request : Request) → Decidable (Overwrites w agentType agentName field request)
  | .close sessionId =>
    inferInstanceAs (Decidable (∃ session ∈ w.sessions sessionId, session.status = .active ∧
      session.agentTypeId = agentType ∧
      ∃ agents ∈ w.sessionAgents sessionId, ¬ ContractsDeclare agents agentName field))
  | .create _ | .question _ | .readiness _ | .answer _ _ | .getProposal _
  | .generateProposal _ _ _ _ _ | .reviewProposal _ _ | .createSession _ | .readSession _
  | .turn _ _ _ _ | .resolve _ _ _ _ | .cert1Status _ | .cert1Approve _ _ | .cert1Reject _ _ =>
    isFalse id

variable {ι : Type} [DecidableEq ι] {requests : ι → Request} {c : Loop host ι Response} {i : ι}

/-- The step of task `i` does not close a session with a contract of the agent that lacks the field.
-/
def KeepsClarification (requests : ι → Request) (agentType agentName field : String)
    (c : Loop host ι Response) (i : ι) : Prop :=
  (c.tasks i).inSegment → ¬ Overwrites c.store agentType agentName field (requests i)

instance (requests : ι → Request) (agentType agentName field : String) (c : Loop host ι Response)
    (i : ι) : Decidable (KeepsClarification requests agentType agentName field c i) :=
  inferInstanceAs (Decidable ((c.tasks i).inSegment → ¬ Overwrites _ _ _ _ _))

/-- While a session is being closed, an active session is one that was there before, with the same
contracts. -/
theorem Segment.active_before (hseg : Segment (.close sessionId) l w w') {id : String}
    (hs : w'.sessions id = some session) (hactive : session.status = .active) :
    w.sessions id = some session ∧ w'.sessionAgents id = w.sessionAgents id := by
  induction hseg generalizing session with
  | refl => exact ⟨hs, rfl⟩
  | @tail w1 w2 hseg he ih =>
    rcases he.session_cases id with ⟨hs1, ha1⟩ | ⟨_, _, _, _, hrequest, -⟩ |
      ⟨session1, agents1, session2, agents2, hrequest, hs1, ha1, hstep, hs2, -⟩
    · rw [hs1] at hs
      obtain ⟨hs0, ha0⟩ := ih hs hactive
      exact ⟨hs0, ha1.trans ha0⟩
    · cases hrequest
    · rw [hs2] at hs
      cases hs
      cases hstep
      cases hactive

/-- A stored field stays, unless a session is closed with a contract that lacks it. -/
theorem Segment.declares (hseg : Segment request l w w')
    (hno : ¬ Overwrites w agentType agentName field request)
    (hunique : (w.graphs agentType).RolesUnique)
    (hstored : (w.graphs agentType).Declares agentName field) :
    (w'.graphs agentType).RolesUnique ∧ (w'.graphs agentType).Declares agentName field := by
  induction hseg with
  | refl => exact ⟨hunique, hstored⟩
  | @tail w1 w2 hseg he ih =>
    obtain ⟨hunique1, hstored1⟩ := ih
    refine ⟨he.rolesUnique hunique1, ?_⟩
    rcases he.roles_cases agentType with hroles |
      ⟨sessionId, session, agents, agent, rfl, hs, hactive, ha, htype, hagent, hupsert⟩
    · rw [Graph.Declares, hroles]
      exact hstored1
    · obtain ⟨hs0, ha0⟩ := Segment.active_before hseg hs hactive
      have hfield : ContractsDeclare agents agentName field := by
        by_contra hlacks
        exact hno ⟨session, hs0, hactive, htype, agents, ha0.symm.trans ha, hlacks⟩
      exact hupsert.keeps_declares hunique1 (hfield agent hagent) hstored1

theorem Serves.declares_step (hserves : Serves requests c)
    (hcond : KeepsClarification requests agentType agentName field c i)
    (hunique : (c.store.graphs agentType).RolesUnique)
    (hstored : (c.store.graphs agentType).Declares agentName field) :
    ((c.step i).store.graphs agentType).RolesUnique ∧
      ((c.step i).store.graphs agentType).Declares agentName field := by
  rcases hserves.step_cases i with hstep | ⟨⟨f, k, hprog⟩, hseg, -⟩ | ⟨q, k, -, -, hstore, -⟩
  · rw [hstep]
    exact ⟨hunique, hstored⟩
  · exact hseg.declares (hcond (by simp [Task.inSegment, hprog])) hunique hstored
  · rw [hstore, World.serve_graphs]
    exact ⟨hunique, hstored⟩

/-- Once a session is closed, what its contracts declare is stored. -/
theorem close_declares (htask : c.tasks i = ⟨(Request.close sessionId).handle, none⟩)
    (hs : c.store.sessions sessionId = some session) (hactive : session.status = .active)
    (ha : c.store.sessionAgents sessionId = some agents)
    (hclosed : ((c.step i).store.sessions sessionId).map (·.status) = some .closed)
    (hunique : (c.store.graphs session.agentTypeId).RolesUnique)
    (hfield : ContractsDeclare agents agentName field)
    (hagent : ∃ agent ∈ agents, agent.agentName = agentName) :
    ((c.step i).store.graphs session.agentTypeId).Declares agentName field := by
  have hopen {w' : World} (hsessions : w'.sessions = c.store.sessions) :
      (c.step i).store ≠ w' := by
    intro heq
    rw [heq, hsessions, hs] at hclosed
    simp only [Option.map_some, Option.some.injEq] at hclosed
    rw [hactive] at hclosed
    cases hclosed
  have hhandoffs : Keeps (Flush session.agentTypeId [])
      (writeHandoffEdges session.agentTypeId session) := writeHandoffEdges_flush session
  rcases close_step htask with ⟨e, e', hflush, -⟩ | ⟨summary, k, hflush, -, -⟩
  · rcases flushSession_cases sessionId c.store with ⟨e1, he⟩ |
      ⟨session1, agents1, -, -, -, ⟨e1, w', hw', he⟩ | ⟨w1, w2, edges, closedAt, -, -, he⟩⟩ <;>
      rw [he, Prod.mk.injEq] at hflush <;> obtain ⟨hr, hstore⟩ := hflush
    · exact absurd hstore.symm (hopen rfl)
    · exact absurd hstore.symm (hopen hw'.sessions)
    · cases hr
  · rcases flushSession_active hs ha hactive with ⟨e, w1, -, he⟩ | ⟨e, w1, w2, -, -, he⟩ |
      ⟨w1, w2, edges, closedAt, hroles, hh, he⟩ <;> rw [he, Prod.mk.injEq] at hflush <;>
      obtain ⟨hr, hstore⟩ := hflush
    · cases hr
    · cases hr
    · have hstored := upsertAgentRoles_declares hunique hfield hagent hroles
      have hsame := hhandoffs w1
      rw [hh] at hsame
      rw [← hstore]
      show (w2.graphs session.agentTypeId).Declares agentName field
      rw [Graph.Declares, hsame.roles]
      exact hstored

/-- In every run in which no later close comes from a session that lacks the clarification, a field
that a session has clarified and that has been closed with it stays in the stored contract. -/
theorem clarification_lasts (w : World) (hw : ∀ sessionId, w.sessions sessionId = none)
    (agentType agentName field fieldType sessionId : String)
    (hroles : (w.graphs agentType).RolesUnique) (requests : ι → Request) (pre post : List ι) (i : ι)
    (hnew : i ∉ pre) (hclose : requests i = .close sessionId) (session : SimulationSession)
    (hs : ((serving w requests).run pre).store.sessions sessionId = some session)
    (htype : session.agentTypeId = agentType) (hactive : session.status = .active)
    (hclarified : Clarified ((serving w requests).run pre).store sessionId agentName field
      fieldType)
    (hclosed : (((serving w requests).run (pre ++ [i])).store.sessions sessionId).map (·.status) =
      some .closed)
    (hcond : Loop.Meets (KeepsClarification requests agentType agentName field)
      ((serving w requests).run (pre ++ [i])) post) :
    (((serving w requests).run (pre ++ i :: post)).store.graphs agentType).Declares agentName
      field := by
  subst htype
  have hserves := serves_serving w requests
  obtain ⟨hstages, hunique⟩ := hserves.invariant
    (I := fun w => StagesWrites w ∧ (w.graphs session.agentTypeId).RolesUnique)
    (fun i l w w' he h => ⟨he.stagesWrites h.1, he.rolesUnique h.2⟩)
    (fun i l q w _ h => ⟨by simpa [StagesWrites] using h.1, by simpa using h.2⟩)
    ⟨fun id s _ hid => absurd hid (by simp [Loop.start, hw]), hroles⟩ pre
  obtain ⟨session', hs', agents, ha, ⟨write, hwrite, rfl, rfl, -⟩, hagent⟩ := hclarified
  rw [hs, Option.mem_some_iff] at hs'
  subst hs'
  have htask := close_begins w hnew hclose
  rw [Loop.run_append] at hclosed hcond ⊢
  have hstored := close_declares htask hs hactive ha hclosed hunique
    (hstages sessionId session agents hs ha _ hwrite) hagent
  have hunique' := (hserves.run pre).step_keeps (i := i)
    (I := fun w => (w.graphs session.agentTypeId).RolesUnique)
    (fun l w w' he h => he.rolesUnique h) (fun l q w _ h => by simpa using h) hunique
  have hrun := hcond.invariant
    (I := fun c => Serves requests c ∧ (c.store.graphs session.agentTypeId).RolesUnique ∧
      (c.store.graphs session.agentTypeId).Declares write.agentName write.field)
    (fun c j ⟨hc, hu, hd⟩ hj => ⟨hc.step j, hc.declares_step hj hu hd⟩)
    ⟨(hserves.run pre).step i, hunique', hstored⟩
  exact hrun.2.2

/-- The second session of a process, if it is started right after the first. -/
def secondSessionId : String := (Sample.uuid 4).toText

/-- Two sessions on the same composition, each with a message that violates the contract of its
receiver and a clarification of the contract. -/
def simulations : Fin 8 → Request
  | 0 => .createSession "shop"
  | 1 => .createSession "shop"
  | 2 => .turn Sample.sessionId Sample.order "cook" ["table"]
  | 3 => .resolve Sample.sessionId 0 "clarify_contract" (some "int")
  | 4 => .close Sample.sessionId
  | 5 => .turn secondSessionId Sample.order "cook" ["table"]
  | 6 => .resolve secondSessionId 0 "clarify_contract" (some "int")
  | 7 => .close secondSessionId

/-- A graph engine that ignores parameters it does not need. -/
def lenient : World :=
  { Sample.withTeam .approved with env := { Sample.env with strictParams := false } }

theorem clarification_lasts_twice :
    (((serving lenient simulations).run ([0, 0, 1, 1, 2, 3] ++
      4 :: [4, 5, 6, 7, 7])).store.graphs "shop").Declares "cook" "table" := by
  have hsession : (((serving lenient simulations).run [0, 0, 1, 1, 2, 3]).store.sessions
      Sample.sessionId).map (fun s => (s.agentTypeId, s.status)) = some ("shop", .active) := by
    decide +kernel
  obtain ⟨session, hs, hfields⟩ := Option.map_eq_some_iff.mp hsession
  rw [Prod.mk.injEq] at hfields
  exact clarification_lasts lenient (fun _ => rfl) "shop" "cook" "table" "int" Sample.sessionId
    ⟨by decide, by decide⟩ simulations [0, 0, 1, 1, 2, 3] [4, 5, 6, 7, 7] 4 (by decide) rfl session
    hs hfields.1 hfields.2 (by decide +kernel) (by decide +kernel) (by decide +kernel)

/-- A session that was started before the clarification and is closed after it writes back the
contract of the approved composition. -/
theorem clarification_overwritten :
    ¬ ∀ pre post : List (Fin 8), ∀ i sessionId agentName field fieldType, i ∉ pre →
      simulations i = .close sessionId →
      ((((serving lenient simulations).run pre).store.sessions sessionId).map fun s =>
        (s.agentTypeId, s.status)) = some ("shop", .active) →
      Clarified ((serving lenient simulations).run pre).store sessionId agentName field fieldType →
      ((((serving lenient simulations).run (pre ++ [i])).store.sessions sessionId).map (·.status)) =
        some .closed →
      (((serving lenient simulations).run (pre ++ i :: post)).store.graphs "shop").Declares
        agentName field := by
  intro h
  have hstored := h [0, 0, 1, 1, 2, 3] [4, 7, 7] 4 Sample.sessionId "cook" "table" "int"
    (by decide) rfl (by decide +kernel) (by decide +kernel) (by decide +kernel)
  exact absurd hstored (by decide +kernel)

end AgentWorx
