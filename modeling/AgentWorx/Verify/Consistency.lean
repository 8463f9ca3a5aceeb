import AgentWorx.Verify.Clarifications
import AgentWorx.Verify.Enforcement

/-!
# Contradictory contracts

A contract contradicts itself if it prohibits a field that its input schema declares. Clarifications
are the only transitions that add to a schema, and they do not look at the prohibitions: the
contracts of a session stay consistent exactly as long as no prohibited field is clarified, and then
closing stores consistent roles only.
-/

namespace AgentWorx

open Coop Coop.Sync

/-! ## One clarification -/

/-- No field of the input schema is prohibited. -/
def AgentContract.Consistent (agent : AgentContract) : Prop :=
  ∀ field ∈ agent.inputSchema.keys, field ∉ agent.prohibitedFields

instance (agent : AgentContract) : Decidable agent.Consistent :=
  inferInstanceAs (Decidable (∀ field ∈ agent.inputSchema.keys, _))

/-- A contract of the agent prohibits the field. -/
def Prohibits (agents : List AgentContract) (agentName field : String) : Prop :=
  ∃ agent ∈ agents, agent.agentName = agentName ∧ field ∈ agent.prohibitedFields

instance (agents : List AgentContract) (agentName field : String) :
    Decidable (Prohibits agents agentName field) :=
  inferInstanceAs (Decidable (∃ agent ∈ agents, _ ∧ _))

variable {agents updatedAgents : List AgentContract} {agent : AgentContract}
  {agentName field fieldType resolution : String} {violation : ContractViolation}
  {clarification : Option String} {coordEdgeWritten : Bool}

theorem AgentContract.consistent_declare (h : agent.Consistent) (field fieldType : String) :
    (agent.declare field fieldType).Consistent ↔ field ∉ agent.prohibitedFields := by
  have hkeys (f : String) : f ∈ (agent.declare field fieldType).inputSchema.keys ↔
      f = field ∨ f ∈ agent.inputSchema.keys := by
    rw [← AList.mem_keys, ← AList.mem_keys]
    exact AList.mem_insert _
  constructor
  · intro hdeclared
    exact hdeclared field ((hkeys field).mpr (.inl rfl))
  · intro hfield f hf
    rcases (hkeys f).mp hf with rfl | hf
    · exact hfield
    · exact h f hf

/-- A clarification keeps contracts consistent just if none of the agent prohibits the field. -/
theorem consistent_clarifyField (h : ∀ agent ∈ agents, agent.Consistent)
    (agentName field fieldType : String) :
    (∀ agent ∈ clarifyField agentName field fieldType agents, agent.Consistent) ↔
      ¬ Prohibits agents agentName field := by
  simp only [clarifyField, List.forall_mem_map, Prohibits, not_exists, not_and]
  refine forall₂_congr fun agent hagent => ?_
  by_cases hname : agent.agentName = agentName
  · rw [if_pos hname]
    exact (AgentContract.consistent_declare (h agent hagent) field fieldType).trans
      ⟨fun hban _ => hban, fun hban => hban hname⟩
  · rw [if_neg hname]
    exact iff_of_true (h agent hagent) fun heq => absurd heq hname

theorem consistent_applyResolution (h : ∀ agent ∈ agents, agent.Consistent)
    (happly : applyResolution violation resolution clarification agents =
      .ok (updatedAgents, coordEdgeWritten)) :
    (∀ agent ∈ updatedAgents, agent.Consistent) ↔
      ¬ (coordEdgeWritten = true ∧ Prohibits agents violation.toAgent violation.field) := by
  rcases applyResolution_cases happly with ⟨rfl, rfl⟩ | ⟨text, -, rfl, rfl⟩
  · exact iff_of_true h (by simp)
  · simpa using consistent_clarifyField h violation.toAgent violation.field text

/-! ## Runs -/

/-- The request clarifies a violation of the session, and a contract of its receiver prohibits the
field. -/
def ClarifiesProhibited (sessionId : String) (w : World) : Request → Prop
  | .resolve id violationIndex resolution clarification =>
    id = sessionId ∧ ∃ session ∈ w.sessions id, ∃ agents ∈ w.sessionAgents id,
    ∃ lastTurn ∈ session.turnHistory.getLast?,
    ∃ index ∈ pyIndex lastTurn.violations.length violationIndex,
    ∃ violation ∈ lastTurn.violations[index]?,
      Prohibits agents violation.toAgent violation.field ∧
      ∃ r ∈ (applyResolution violation resolution clarification agents).toOption, r.2 = true
  | _ => False

instance (sessionId : String) (w : World) :
    (request : Request) → Decidable (ClarifiesProhibited sessionId w request)
  | .resolve id violationIndex resolution clarification =>
    inferInstanceAs (Decidable (id = sessionId ∧ ∃ session ∈ w.sessions id,
      ∃ agents ∈ w.sessionAgents id, ∃ lastTurn ∈ session.turnHistory.getLast?,
      ∃ index ∈ pyIndex lastTurn.violations.length violationIndex,
      ∃ violation ∈ lastTurn.violations[index]?,
        Prohibits agents violation.toAgent violation.field ∧
        ∃ r ∈ (applyResolution violation resolution clarification agents).toOption, r.2 = true))
  | .create _ | .question _ | .readiness _ | .answer _ _ | .getProposal _
  | .generateProposal _ _ _ _ _ | .reviewProposal _ _ | .createSession _ | .readSession _
  | .turn _ _ _ _ | .close _ | .cert1Status _ | .cert1Approve _ _ | .cert1Reject _ _ =>
    isFalse id

variable {ι : Type} [DecidableEq ι] {requests : ι → Request} {c : Loop host ι Response} {i : ι}
  {request : Request} {w w' : World} {l : Option (Event host)} {sessionId agentType : String}

/-- The call of task `i` does not clarify a prohibited field in the session. -/
def RespectsProhibitions (sessionId : String) (requests : ι → Request) (c : Loop host ι Response)
    (i : ι) : Prop :=
  (c.tasks i).inSegment → ¬ ClarifiesProhibited sessionId c.store (requests i)

instance (sessionId : String) (requests : ι → Request) (c : Loop host ι Response) (i : ι) :
    Decidable (RespectsProhibitions sessionId requests c i) :=
  inferInstanceAs (Decidable ((c.tasks i).inSegment → ¬ ClarifiesProhibited _ _ _))

/-- The contracts of the session are consistent. -/
def ContractsConsistent (sessionId : String) (w : World) : Prop :=
  ∀ agents, w.sessionAgents sessionId = some agents → ∀ agent ∈ agents, agent.Consistent

/-- No other transition changes the contracts of a session. -/
theorem Effect.contractsConsistent (he : Effect request l w w')
    (hstart : ∀ agentType, request ≠ .createSession agentType)
    (hresolve : ∀ violationIndex resolution clarification,
      request ≠ .resolve sessionId violationIndex resolution clarification)
    (h : ContractsConsistent sessionId w) : ContractsConsistent sessionId w' := by
  intro agents' ha'
  rcases he.session_cases sessionId with ⟨-, ha⟩ | ⟨agentType, _, _, _, hrequest, -⟩ |
    ⟨session0, agents0, session1, agents1, hid, -, ha0, hstep, -, ha1⟩
  · exact h agents' (ha.symm.trans ha')
  · exact absurd hrequest (hstart agentType)
  · rw [ha1, Option.some.injEq] at ha'
    subst ha'
    cases hstep with
    | turn | close => exact h _ ha0
    | resolve =>
      cases hid
      exact absurd rfl (hresolve _ _ _)

theorem resolveViolation_consistent (h : ContractsConsistent sessionId w) (violationIndex : Int)
    (resolution : String) (clarification : Option String) :
    ContractsConsistent sessionId
        ((resolveViolation sessionId violationIndex resolution clarification).exec w).2 ↔
      ¬ ClarifiesProhibited sessionId w
        (.resolve sessionId violationIndex resolution clarification) := by
  rcases resolveViolation_cases sessionId violationIndex resolution clarification w with
    ⟨e, he⟩ | ⟨session, agents, lastTurn, index, violation, updatedAgents, coordEdgeWritten, hs, ha,
      hlast, hindex, hviolation, happly, he⟩
  · rw [he]
    refine iff_of_true h ?_
    rintro ⟨-, session, hs, agents, ha, lastTurn, hlast, index, hindex, violation, hviolation, -,
      r, hr, -⟩
    rw [resolveViolation_some hs ha hlast hindex hviolation] at he
    cases happly : applyResolution violation resolution clarification agents with
    | error e =>
      rw [happly] at hr
      cases hr
    | ok r =>
      rw [happly] at he
      cases he
  · have hclarifies : ClarifiesProhibited sessionId w
        (.resolve sessionId violationIndex resolution clarification) ↔
          coordEdgeWritten = true ∧ Prohibits agents violation.toAgent violation.field := by
      simp [ClarifiesProhibited, hs, ha, hlast, hindex, hviolation, happly, Except.toOption,
        and_comm]
    have hagents : ((resolveViolation sessionId violationIndex resolution clarification).exec
        w).2.sessionAgents sessionId = some updatedAgents := by
      rw [he]
      exact Function.update_self ..
    rw [hclarifies, ← consistent_applyResolution (h agents ha) happly, ContractsConsistent, hagents]
    simp

/-- Every step keeps the contracts of the session consistent exactly when it does not clarify a
prohibited field. -/
theorem Serves.contractsConsistent_iff (hserves : Serves requests c)
    (honce : ResolvesAtOnce requests c)
    (hcalls : ∀ agentType, requests i ≠ .createSession agentType)
    (h : ContractsConsistent sessionId c.store) :
    ContractsConsistent sessionId (c.step i).store ↔
      RespectsProhibitions sessionId requests c i := by
  by_cases hresolve : ∃ violationIndex resolution clarification,
      requests i = .resolve sessionId violationIndex resolution clarification
  · obtain ⟨violationIndex, resolution, clarification, hi⟩ := hresolve
    rcases honce i _ _ _ _ hi with hfresh | ⟨r, hr⟩
    · obtain ⟨hsegment, hstore, -⟩ := resolve_step hi hfresh
      rw [hstore, resolveViolation_consistent h, RespectsProhibitions, hi]
      exact ⟨fun h _ => h, fun h => h hsegment⟩
    · rw [Task.Ended] at hr
      have hstep : c.step i = c := by simp [Loop.step, hr]
      rw [hstep]
      exact iff_of_true h fun hsegment => by simp [Task.inSegment, hr] at hsegment
  · simp only [not_exists] at hresolve
    refine iff_of_true ?_ fun _ => ?_
    · exact hserves.step_keeps
        (fun _ _ _ he => he.contractsConsistent hcalls fun _ _ _ => hresolve _ _ _)
        (fun _ q w _ h => by simpa [ContractsConsistent] using h) h
    · cases hi : requests i with
      | resolve id =>
        rintro ⟨rfl, -⟩
        exact hresolve _ _ _ hi
      | _ => exact id

/-! ## The roles that closing stores -/

/-- Each role of every graph was there before, or stores a consistent contract. -/
def StoresConsistent (graphs : String → Graph) (w : World) : Prop :=
  ∀ name, ∀ role ∈ (w.graphs name).roles,
    role ∈ (graphs name).roles ∨ role.contract.Consistent

/-- Closing stores contracts of the session. -/
theorem Effect.storesConsistent {graphs : String → Graph}
    (he : Effect (.close sessionId) l w w') (hcontracts : ContractsConsistent sessionId w)
    (h : StoresConsistent graphs w) : StoresConsistent graphs w' := by
  intro name role hrole
  rcases he.roles_cases name with hroles |
    ⟨id, session, agents, agent, hid, -, -, ha, -, hagent, hupsert⟩
  · rw [hroles] at hrole
    exact h name role hrole
  · cases hid
    have hconsistent := hcontracts agents ha agent hagent
    generalize w'.graphs name = g at hupsert hrole
    cases hupsert with
    | update hrole' hname =>
      obtain ⟨role', hrole', heq⟩ := List.mem_map.mp hrole
      split_ifs at heq
      · rw [← heq]
        exact .inr hconsistent
      · exact heq ▸ h name role' hrole'
    | create =>
      rcases List.mem_append.mp hrole with hrole | hnew
      · exact h name role hrole
      · rw [List.mem_singleton.mp hnew]
        exact .inr hconsistent

/-- What a state satisfies for a session: its contracts are consistent, and each role of the graphs
after a call of `close_session`, if it was not there before, stores a consistent contract. -/
structure SessionConsistent (w : World) (sessionId : String) : Prop where
  contracts : ContractsConsistent sessionId w
  stored : StoresConsistent w.graphs ((closeSession sessionId).runAlone w).2

theorem sessionConsistent_iff :
    SessionConsistent w sessionId ↔ ContractsConsistent sessionId w := by
  refine ⟨fun h => h.contracts, fun h => ⟨h, ?_⟩⟩
  have hclose := (closeSession_follows (l := none) (w := w) sessionId).runAlone_keeps
    (I := fun w0 : World => ContractsConsistent sessionId w0 ∧ StoresConsistent w.graphs w0)
    (fun l w1 w2 hseg h => ?_) (fun l w1 q _ h => ?_) ⟨h, fun _ _ hrole => .inl hrole⟩
  · exact hclose.2
  · refine Segment.keeps (R := Preserves fun w0 : World =>
      ContractsConsistent sessionId w0 ∧ StoresConsistent w.graphs w0) (fun w1 w2 he h => ?_) hseg h
    exact ⟨he.contractsConsistent (fun _ => nofun) (fun _ _ _ => nofun) h.1,
      he.storesConsistent h.1 h.2⟩
  · exact ⟨by simpa [ContractsConsistent] using h.1, by simpa [StoresConsistent] using h.2⟩

/-- A session is started on a composition with consistent contracts, and any requests are made that
start no other. In every state on the way its contracts, and the roles that closing it would store,
are consistent exactly when no call clarifies a prohibited field in it. -/
theorem contracts_consistent_iff {agentType : String} {w w' : World} {session : SimulationSession}
    {row : CompositionRow} (hstart : (startSession agentType).runAlone w = (.ok session, w'))
    (hrow : w.pg.latestComposition agentType = some row)
    (hconsistent : ∀ agent ∈ row.agentList, agent.Consistent) (requests : ι → Request)
    (hcalls : ∀ i agentType, requests i ≠ .createSession agentType) (sched : List ι) :
    (∀ pre, pre <+: sched →
      SessionConsistent ((serving w' requests).run pre).store session.id) ↔
    Loop.Meets (RespectsProhibitions session.id requests) (serving w' requests) sched := by
  obtain ⟨-, -, ha⟩ := startSession_opens hstart hrow
  have hopened : ContractsConsistent session.id w' := by
    intro agents hagents
    cases ha.symm.trans hagents
    exact hconsistent
  rw [← Loop.meets_iff_throughout (I := fun c => ContractsConsistent session.id c.store)
    (J := fun c => Serves requests c ∧ ResolvesAtOnce requests c)
    (fun c i hc => ⟨hc.1.step i, hc.2.step i⟩)
    (fun c i hc h => hc.1.contractsConsistent_iff hc.2 (hcalls i) h)
    ⟨serves_serving w' requests, fun _ _ _ _ _ _ => .inl rfl⟩ hopened]
  exact forall₂_congr fun pre _ => sessionConsistent_iff

/-- A message with the field, and the clarification of its violation. -/
def clarifyingField (field : String) : Fin 2 → Request
  | 0 => .turn Sample.sessionId Sample.order "cook" [field]
  | 1 => .resolve Sample.sessionId 0 "clarify_contract" (some "text")

theorem contracts_consistent_iff_table :
    SessionConsistent ((serving (opened guarded) (clarifyingField "table")).run [0, 1]).store
      Sample.sessionId := by
  have hid : (((startSession "shop").runAlone guarded).1.map fun session => session.id) =
      .ok Sample.sessionId := by decide +kernel
  rcases hx : ((startSession "shop").runAlone guarded).1 with e | session <;> rw [hx] at hid
  · cases hid
  have hid : session.id = Sample.sessionId := Except.ok.inj hid
  rw [← hid]
  have hstart : (startSession "shop").runAlone guarded = (.ok session, opened guarded) :=
    Prod.ext hx rfl
  refine (contracts_consistent_iff hstart rfl (by decide) (clarifyingField "table")
    (fun | 0, _ | 1, _ => nofun) [0, 1]).mpr ?_ [0, 1] (List.prefix_refl _)
  rw [hid]
  decide +kernel

/-- The clarification of a prohibited field makes the contract contradict itself. -/
theorem contracts_contradictory :
    ¬ ∀ pre, pre <+: [0, 1] →
      SessionConsistent ((serving (opened guarded) (clarifyingField "card")).run pre).store
        Sample.sessionId := by
  intro h
  have hagents : (((serving (opened guarded) (clarifyingField "card")).run
      [0, 1]).store.sessionAgents Sample.sessionId).map (·.map fun agent =>
        (agent.inputSchema.keys, agent.prohibitedFields)) = some [(["card"], ["card"])] := by
    decide +kernel
  obtain ⟨agents, ha, hfields⟩ := Option.map_eq_some_iff.mp hagents
  obtain ⟨agent, others, hagents, hagent, -⟩ := List.map_eq_cons_iff.mp hfields
  rw [Prod.mk.injEq] at hagent
  have hconsistent := (h [0, 1] (List.prefix_refl _)).contracts agents ha agent
    (hagents ▸ List.mem_cons_self)
  rw [AgentContract.Consistent, hagent.1, hagent.2] at hconsistent
  exact hconsistent "card" List.mem_cons_self List.mem_cons_self

end AgentWorx
