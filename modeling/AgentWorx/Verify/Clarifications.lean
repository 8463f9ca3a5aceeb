import AgentWorx.Verify.Contracts
import AgentWorx.Verify.Resolutions

/-!
# What a clarification changes

A clarification adds a field to the input schema of every contract of an agent, and messages are
validated against the first contract of their receiver, its prohibitions before its schema. So it
changes validation for this receiver and this field, and only if the first contract does not
prohibit the field.
-/

namespace AgentWorx

open Coop Coop.Sync

variable {agents updatedAgents : List AgentContract} {agent : AgentContract}
  {agentName field fieldType fromAgent toAgent : String} {messageFields : List String}

/-! ## Validation -/

/-- The agent has a contract, and the first one does not prohibit the field. -/
def Permits (agents : List AgentContract) (agentName field : String) : Prop :=
  ∃ agent ∈ findAgent agentName agents, field ∉ agent.prohibitedFields

instance (agents : List AgentContract) (agentName field : String) :
    Decidable (Permits agents agentName field) :=
  inferInstanceAs (Decidable (∃ agent ∈ findAgent agentName agents, _))

/-- The violation is by a message to the agent, for the field. -/
def ContractViolation.About (violation : ContractViolation) (agentName field : String) : Prop :=
  violation.toAgent = agentName ∧ violation.field = field

instance (violation : ContractViolation) (agentName field : String) :
    Decidable (violation.About agentName field) := inferInstanceAs (Decidable (_ ∧ _))

/-- What the loop of `validate_message` makes of one field. -/
def fieldViolation (agent : AgentContract) (fromAgent toAgent field : String) :
    Option ContractViolation :=
  if field ∈ agent.prohibitedFields then
    some { field, fromAgent, toAgent, resolution := .pending
           reason := s!"'{toAgent}' is prohibited from receiving '{field}'" }
  else if field ∉ agent.inputSchema then
    some { field, fromAgent, toAgent, resolution := .pending
           reason := s!"'{field}' is not declared in '{toAgent}'s input_schema" }
  else none

theorem validateMessage_some (h : findAgent toAgent agents = some agent) :
    validateMessage messageFields fromAgent toAgent agents =
      messageFields.filterMap (fieldViolation agent fromAgent toAgent) := by
  simp only [validateMessage, h]
  rfl

theorem fieldViolation_about {violation : ContractViolation}
    (h : fieldViolation agent fromAgent toAgent field = some violation) :
    violation.About toAgent field := by
  unfold fieldViolation at h
  split_ifs at h <;> cases h <;> exact ⟨rfl, rfl⟩

theorem validateMessage_toAgent {violation : ContractViolation}
    (h : violation ∈ validateMessage messageFields fromAgent toAgent agents) :
    violation.toAgent = toAgent := by
  cases hfind : findAgent toAgent agents with
  | none =>
    simp only [validateMessage, hfind, List.mem_map] at h
    obtain ⟨field, -, rfl⟩ := h
    rfl
  | some agent =>
    rw [validateMessage_some hfind] at h
    obtain ⟨field, -, hviolation⟩ := List.mem_filterMap.mp h
    exact (fieldViolation_about hviolation).1

/-! ## One clarification -/

/-- A contract with the field added to its input schema. -/
def AgentContract.declare (agent : AgentContract) (field fieldType : String) : AgentContract :=
  { agent with inputSchema := agent.inputSchema.insert field fieldType }

/-- The first contract of a name is found with the field added, if it is the clarified one. -/
theorem findAgent_clarifyField (agentName field fieldType toAgent : String)
    (agents : List AgentContract) :
    findAgent toAgent (clarifyField agentName field fieldType agents) =
      (findAgent toAgent agents).map fun agent =>
        if toAgent = agentName then agent.declare field fieldType else agent := by
  unfold findAgent clarifyField
  rw [List.find?_map]
  have hname : (fun agent : AgentContract => decide (agent.agentName = toAgent)) ∘
      (fun agent : AgentContract => if agent.agentName = agentName then
        { agent with inputSchema := agent.inputSchema.insert field fieldType } else agent) =
      fun agent => decide (agent.agentName = toAgent) := by
    funext agent
    simp only [Function.comp_apply]
    split_ifs <;> rfl
  rw [hname]
  cases hfind : agents.find? fun agent => decide (agent.agentName = toAgent) with
  | none => rfl
  | some agent =>
    have hagent : agent.agentName = toAgent := by simpa using List.find?_some hfind
    subst hagent
    rfl

/-- A declared field is accepted unless it is prohibited; the other fields are as they were. -/
theorem fieldViolation_declare (agent : AgentContract) (fromAgent toAgent field fieldType : String)
    (messageField : String) :
    fieldViolation (agent.declare field fieldType) fromAgent toAgent messageField =
      if messageField = field ∧ field ∉ agent.prohibitedFields then none
      else fieldViolation agent fromAgent toAgent messageField := by
  unfold fieldViolation AgentContract.declare
  by_cases hfield : messageField = field
  · subst hfield
    by_cases hban : messageField ∈ agent.prohibitedFields <;> simp [hban]
  · simp [hfield]

theorem filter_fieldViolation (agent : AgentContract) (fromAgent toAgent field : String)
    (messageField : String) :
    (fieldViolation agent fromAgent toAgent messageField).filter
        (fun violation => ¬ violation.About toAgent field) =
      if messageField = field then none
      else fieldViolation agent fromAgent toAgent messageField := by
  cases hviolation : fieldViolation agent fromAgent toAgent messageField with
  | none => simp
  | some violation =>
    obtain ⟨hto, hfield⟩ := fieldViolation_about hviolation
    simp [Option.filter, ContractViolation.About, hto, hfield]

/-- The violations of the clarified agent. -/
theorem validateMessage_clarifyField_self (agents : List AgentContract)
    (agentName field fieldType : String) (messageFields : List String) (fromAgent : String) :
    validateMessage messageFields fromAgent agentName
        (clarifyField agentName field fieldType agents) =
      if Permits agents agentName field then
        (validateMessage messageFields fromAgent agentName agents).filter
          fun violation => ¬ violation.About agentName field
      else validateMessage messageFields fromAgent agentName agents := by
  have hfind := findAgent_clarifyField agentName field fieldType agentName agents
  simp only [if_true] at hfind
  cases hagent : findAgent agentName agents with
  | none =>
    rw [hagent, Option.map_none] at hfind
    rw [if_neg (by simp [Permits, hagent])]
    simp only [validateMessage, hfind, hagent]
  | some agent =>
    rw [hagent, Option.map_some] at hfind
    rw [validateMessage_some hfind, validateMessage_some hagent]
    have hpermits : Permits agents agentName field ↔ field ∉ agent.prohibitedFields := by
      simp [Permits, hagent]
    by_cases hban : field ∈ agent.prohibitedFields
    · rw [if_neg (fun h => hpermits.mp h hban)]
      refine List.filterMap_congr fun messageField _ => ?_
      rw [fieldViolation_declare, if_neg (fun h => h.2 hban)]
    · rw [if_pos (hpermits.mpr hban), List.filter_filterMap]
      refine List.filterMap_congr fun messageField _ => ?_
      rw [fieldViolation_declare, filter_fieldViolation]
      simp only [hban, not_false_eq_true, and_true]

/-- The violations of the other agents stay. -/
theorem validateMessage_clarifyField_of_ne (agents : List AgentContract)
    {agentName toAgent : String} (hto : toAgent ≠ agentName) (field fieldType : String)
    (messageFields : List String) (fromAgent : String) :
    validateMessage messageFields fromAgent toAgent
        (clarifyField agentName field fieldType agents) =
      validateMessage messageFields fromAgent toAgent agents := by
  have hfind := findAgent_clarifyField agentName field fieldType toAgent agents
  simp only [if_neg hto, Option.map_id'] at hfind
  simp only [validateMessage, hfind]

/-- A clarification takes out the violations for the field by messages to the agent, if the field is
permitted, and changes nothing else. -/
theorem validateMessage_clarifyField (agents : List AgentContract)
    (agentName field fieldType : String) (messageFields : List String)
    (fromAgent toAgent : String) :
    validateMessage messageFields fromAgent toAgent
        (clarifyField agentName field fieldType agents) =
      if Permits agents agentName field then
        (validateMessage messageFields fromAgent toAgent agents).filter
          fun violation => ¬ violation.About agentName field
      else validateMessage messageFields fromAgent toAgent agents := by
  by_cases hto : toAgent = agentName
  · subst hto
    exact validateMessage_clarifyField_self agents toAgent field fieldType messageFields fromAgent
  · rw [validateMessage_clarifyField_of_ne agents hto]
    split_ifs
    · refine (List.filter_eq_self.mpr fun violation hviolation => ?_).symm
      have hother : ¬ violation.About agentName field := fun h =>
        hto ((validateMessage_toAgent hviolation).symm.trans h.1)
      simpa using hother
    · rfl

/-- An accepted clarification with a text takes out exactly the violations for its field by messages
to its receiver, where the first contract of the receiver permits the field; otherwise, and where a
violation is marked as an edge case, every message is validated as before. No clarification adds a
violation. -/
theorem resolution_validation (agents : List AgentContract) (violation : ContractViolation)
    (text : String) (htext : text ≠ "") (messageFields : List String)
    (fromAgent toAgent : String) :
    (∃ updatedAgents, applyResolution violation "clarify_contract" (some text) agents =
        .ok (updatedAgents, true) ∧
      validateMessage messageFields fromAgent toAgent updatedAgents =
        (if Permits agents violation.toAgent violation.field then
          (validateMessage messageFields fromAgent toAgent agents).filter
            fun v => ¬ v.About violation.toAgent violation.field
        else validateMessage messageFields fromAgent toAgent agents) ∧
      (validateMessage messageFields fromAgent toAgent updatedAgents).Sublist
        (validateMessage messageFields fromAgent toAgent agents)) ∧
    ∀ clarification, ∃ updatedAgents,
      applyResolution violation "mark_edge_case" clarification agents =
        .ok (updatedAgents, false) ∧
      validateMessage messageFields fromAgent toAgent updatedAgents =
        validateMessage messageFields fromAgent toAgent agents := by
  refine ⟨⟨clarifyField violation.toAgent violation.field text agents, ?_, ?_, ?_⟩,
    fun clarification => ⟨agents, rfl, rfl⟩⟩
  · unfold applyResolution
    rw [if_neg (by decide), if_neg (by decide)]
    split
    · simp_all
    · simp_all
    · simp_all
  · exact validateMessage_clarifyField ..
  · rw [validateMessage_clarifyField]
    split_ifs
    · exact List.filter_sublist
    · exact List.Sublist.refl _

/-- The other undeclared field is still a violation. -/
theorem resolution_validation_table : ∃ updatedAgents,
    applyResolution ⟨"table", "", "waiter", "cook", .pending⟩ "clarify_contract" (some "int")
      [Sample.cook] = .ok (updatedAgents, true) ∧
    (validateMessage ["table", "guests"] "waiter" "cook" updatedAgents).map (·.field) =
      ["guests"] := by
  obtain ⟨⟨updatedAgents, happly, hviolations, -⟩, -⟩ := resolution_validation [Sample.cook]
    ⟨"table", "", "waiter", "cook", .pending⟩ "int" (by decide) ["table", "guests"] "waiter" "cook"
  refine ⟨updatedAgents, happly, ?_⟩
  rw [hviolations]
  decide

/-! ## Contracts get wider -/

/-- The first contract of each name stays, with the same prohibitions and no field less. -/
def Widens (agents agents' : List AgentContract) : Prop :=
  ∀ ⦃name agent⦄, findAgent name agents = some agent → ∃ agent', findAgent name agents' =
    some agent' ∧ agent'.prohibitedFields = agent.prohibitedFields ∧
    ∀ field ∈ agent.inputSchema, field ∈ agent'.inputSchema

instance : IsPreorder (List AgentContract) Widens where
  refl _ _ agent h := ⟨agent, h, rfl, fun _ hfield => hfield⟩
  trans _ _ _ h1 h2 := by
    intro name agent hagent
    obtain ⟨agent1, hagent1, hban1, hfields1⟩ := h1 hagent
    obtain ⟨agent2, hagent2, hban2, hfields2⟩ := h2 hagent1
    exact ⟨agent2, hagent2, hban2.trans hban1,
      fun field hfield => hfields2 field (hfields1 field hfield)⟩

theorem clarifyField_widens (agentName field fieldType : String) (agents : List AgentContract) :
    Widens agents (clarifyField agentName field fieldType agents) := by
  intro name agent hagent
  have hfind := findAgent_clarifyField agentName field fieldType name agents
  rw [hagent, Option.map_some] at hfind
  refine ⟨_, hfind, ?_, fun f hf => ?_⟩
  · split_ifs <;> rfl
  · split_ifs
    · exact (AList.mem_insert _).mpr (.inr hf)
    · exact hf

/-- An accepted resolution is a mark, which changes no contract, or a clarification. -/
theorem applyResolution_cases {violation : ContractViolation} {resolution : String}
    {clarification : Option String} {coordEdgeWritten : Bool}
    (h : applyResolution violation resolution clarification agents =
      .ok (updatedAgents, coordEdgeWritten)) :
    (coordEdgeWritten = false ∧ updatedAgents = agents) ∨
    ∃ text, clarification = some text ∧ coordEdgeWritten = true ∧
      updatedAgents = clarifyField violation.toAgent violation.field text agents := by
  unfold applyResolution at h
  split_ifs at h
  · cases h
    exact .inl ⟨rfl, rfl⟩
  · split at h
    · cases h
    · cases h
    · rename_i text _
      cases h
      exact .inr ⟨text, rfl, rfl, rfl⟩

variable {request : Request} {session session' : SimulationSession} {agents' : List AgentContract}

theorem SessionStep.widens (h : SessionStep request (session, agents) (session', agents')) :
    Widens agents agents' := by
  cases h with
  | turn | close => exact refl_of _ _
  | resolve _ _ _ happly =>
    rcases applyResolution_cases happly with ⟨-, rfl⟩ | ⟨text, -, -, rfl⟩
    · exact refl_of _ _
    · exact clarifyField_widens _ _ _ _

/-! ## A session over a run -/

variable {ι : Type} [DecidableEq ι] {requests : ι → Request} {c : Loop host ι Response} {i : ι}
  {w w' : World} {l : Option (Event host)} {sessionId : String} {n : Nat}

/-- Some request takes this transition of a session. -/
def SessionMoves (x y : SimulationSession × List AgentContract) : Prop :=
  ∃ request, SessionStep request x y

theorem widens_of_moves {x y : SimulationSession × List AgentContract}
    (h : Relation.ReflTransGen SessionMoves x y) : Widens x.2 y.2 := by
  induction h with
  | refl => exact refl_of _ _
  | tail _ hmove ih =>
    obtain ⟨request, hstep⟩ := hmove
    exact trans_of _ ih hstep.widens

/-- The session is in memory, and has come there from `x` by its transitions alone. -/
def MovedFrom (sessionId : String) (x : SimulationSession × List AgentContract) (w : World) :
    Prop :=
  ∃ session agents, w.sessions sessionId = some session ∧
    w.sessionAgents sessionId = some agents ∧ Relation.ReflTransGen SessionMoves x (session, agents)

/-- A new session takes the id of another only if the id is drawn twice. -/
theorem Effect.movedFrom {x : SimulationSession × List AgentContract}
    (he : Effect request l w w') (hdrawn : SessionsDrawn w)
    (hdistinct : DistinctDraws w.env UUID.toText n) (hn : w'.tick ≤ n)
    (h : MovedFrom sessionId x w) : MovedFrom sessionId x w' := by
  obtain ⟨session, agents, hs, ha, hmoves⟩ := h
  rcases he.session_cases sessionId with ⟨hs', ha'⟩ | ⟨_, _, _, _, -, -, hid, htick, -, -⟩ |
    ⟨session0, agents0, session1, agents1, -, hs0, ha0, hstep, hs1, ha1⟩
  · exact ⟨session, agents, hs'.trans hs, ha'.trans ha, hmoves⟩
  · obtain ⟨k, hk, hid'⟩ := hdrawn sessionId session hs
    rw [hid'] at hid
    have hsame := hdistinct k (by omega) w.tick (by omega) hid
    omega
  · rw [hs, Option.some.injEq] at hs0
    rw [ha, Option.some.injEq] at ha0
    subst hs0 ha0
    exact ⟨session1, agents1, hs1, ha1, hmoves.tail ⟨_, hstep⟩⟩

theorem Segment.movedFrom {x : SimulationSession × List AgentContract}
    (hseg : Segment request l w w') (hdrawn : SessionsDrawn w)
    (hdistinct : DistinctDraws w.env UUID.toText n) (hn : w'.tick ≤ n)
    (h : MovedFrom sessionId x w) : MovedFrom sessionId x w' := by
  induction hseg with
  | refl => exact h
  | @tail w1 w2 hseg he ih =>
    have hpersists := Segment.persists hseg
    have hdrawn1 : SessionsDrawn w1 :=
      Segment.keeps (R := Preserves SessionsDrawn) (fun _ _ he h => he.sessionsDrawn h) hseg hdrawn
    exact he.movedFrom hdrawn1 (hpersists.env ▸ hdistinct) hn (ih (he.persists.tick.trans hn))

theorem Serves.movedFrom {x : SimulationSession × List AgentContract}
    (hserves : Serves requests c) (hdrawn : SessionsDrawn c.store)
    (hdistinct : DistinctDraws c.store.env UUID.toText n) (hn : (c.step i).store.tick ≤ n)
    (h : MovedFrom sessionId x c.store) : MovedFrom sessionId x (c.step i).store := by
  rcases hserves.step_cases i with hstep | ⟨-, hseg, -⟩ | ⟨q, k, -, -, hstore, -⟩
  · rw [hstep]
    exact h
  · exact hseg.movedFrom hdrawn hdistinct hn h
  · rw [hstore]
    simpa [MovedFrom] using h

/-- While no identifier is drawn twice, a session only moves by its transitions. -/
theorem movedFrom_run {x : SimulationSession × List AgentContract}
    (hw : ∀ sessionId, w.sessions sessionId = none) (requests : ι → Request) (pre post : List ι)
    (hdistinct : DistinctDraws w.env UUID.toText
      ((serving w requests).run (pre ++ post)).store.tick)
    (h : MovedFrom sessionId x ((serving w requests).run pre).store) :
    MovedFrom sessionId x ((serving w requests).run (pre ++ post)).store := by
  set n := ((serving w requests).run (pre ++ post)).store.tick with hn
  let I (c : Loop host ι Response) : Prop :=
    Serves requests c ∧ c.store.env = w.env ∧ SessionsDrawn c.store
  have hstep (c : Loop host ι Response) (i : ι) (hc : I c) : I (c.step i) :=
    ⟨hc.1.step i, (hc.1.persists i).env.trans hc.2.1, hc.1.step_keeps
      (fun _ _ _ he => he.sessionsDrawn) (fun _ q _ _ => serve_sessionsDrawn q) hc.2.2⟩
  have hstart : I (serving w requests) :=
    ⟨serves_serving w requests, rfl, fun id session h => absurd h (by simp [Loop.start, hw])⟩
  have hpre : I ((serving w requests).run pre) := Loop.run_invariant hstep hstart pre
  have hticks := Loop.meets_append.mp ((serves_serving w requests).ticks hn.ge)
  have hrun := hticks.2.invariant (I := fun c => I c ∧ MovedFrom sessionId x c.store)
    (fun c i hc hi => ⟨hstep c i hc.1,
      hc.1.1.movedFrom hc.1.2.2 (hc.1.2.1 ▸ hdistinct) hi hc.2⟩) ⟨hpre, h⟩
  rw [Loop.run_append]
  exact hrun.2

/-! ## The effect of a clarification -/

theorem lookup_declare (agent : AgentContract) (field fieldType : String) :
    (agent.declare field fieldType).inputSchema.lookup field = some fieldType :=
  AList.lookup_insert _

/-- A message with a declared field has a violation for it just if the field is prohibited. -/
theorem newTurn_violations {turnInput : SimulationTurnInput}
    (hagent : findAgent toAgent agents = some agent) (hdeclared : field ∈ agent.inputSchema)
    (hfield : field ∈ messageFields) :
    (∀ violation ∈ (newTurn session agents turnInput toAgent messageFields).1.violations,
      violation.field ≠ field) ↔ field ∉ agent.prohibitedFields := by
  change (∀ violation ∈ validateMessage messageFields turnInput.role toAgent agents, _) ↔ _
  rw [validateMessage_some hagent]
  constructor
  · intro h hban
    have hviolation : fieldViolation agent turnInput.role toAgent field = some _ := if_pos hban
    exact h _ (List.mem_filterMap.mpr ⟨field, hfield, hviolation⟩) rfl
  · rintro hban violation hviolation rfl
    obtain ⟨f, -, hf⟩ := List.mem_filterMap.mp hviolation
    obtain rfl := (fieldViolation_about hf).2
    rw [fieldViolation, if_neg hban, if_neg (not_not.mpr hdeclared)] at hf
    cases hf

/-- Once a violation has been resolved by a clarification, the first contract of its receiver, if
there is one, declares the field, and whenever the session takes a later message to the receiver
with the field, the turn has no violation for it exactly if the contract does not prohibit it. -/
theorem clarification_takes_effect (w : World) (hw : ∀ sessionId, w.sessions sessionId = none)
    (requests : ι → Request) (pre post : List ι) (i : ι) (hnew : i ∉ pre)
    (hdistinct : DistinctDraws w.env UUID.toText
      ((serving w requests).run (pre ++ i :: post)).store.tick)
    (sessionId : String) (violationIndex : Int) (resolution : String)
    (clarification : Option String)
    (hi : requests i = .resolve sessionId violationIndex resolution clarification)
    (session : SimulationSession) (agents : List AgentContract) (lastTurn : SimulationTurnResult)
    (index : Nat) (violation : ContractViolation)
    (hs : ((serving w requests).run pre).store.sessions sessionId = some session)
    (ha : ((serving w requests).run pre).store.sessionAgents sessionId = some agents)
    (hlast : session.turnHistory.getLast? = some lastTurn)
    (hindex : pyIndex lastTurn.violations.length violationIndex = some index)
    (hviolation : lastTurn.violations[index]? = some violation)
    (hwritten : ((resolveViolation sessionId violationIndex resolution clarification).exec
      ((serving w requests).run pre).store).1 = .ok ⟨true, true⟩)
    (agent : AgentContract) (hagent : findAgent violation.toAgent agents = some agent) :
    (∃ agents' agent',
      ((serving w requests).run (pre ++ [i])).store.sessionAgents sessionId = some agents' ∧
      findAgent violation.toAgent agents' = some agent' ∧
      agent'.inputSchema.lookup violation.field = clarification ∧
      agent'.prohibitedFields = agent.prohibitedFields) ∧
    ∀ turnInput messageFields turn w', violation.field ∈ messageFields →
      (submitTurn sessionId turnInput violation.toAgent messageFields).exec
        ((serving w requests).run (pre ++ i :: post)).store = (.ok turn, w') →
      ((∀ v ∈ turn.violations, v.field ≠ violation.field) ↔
        violation.field ∉ agent.prohibitedFields) := by
  have hfresh : ((serving w requests).run pre).tasks i = ⟨(requests i).handle, none⟩ :=
    Loop.run_tasks_of_notMem _ hnew
  obtain ⟨-, hstore, -⟩ := resolve_step hi hfresh
  rw [resolveViolation_some hs ha hlast hindex hviolation] at hwritten hstore
  cases happly : applyResolution violation resolution clarification agents with
  | error e =>
    rw [happly] at hwritten
    cases hwritten
  | ok r =>
    obtain ⟨agents1, coordEdgeWritten⟩ := r
    rw [happly] at hwritten hstore
    cases hwritten
    rcases applyResolution_cases happly with ⟨hno, -⟩ | ⟨text, rfl, -, rfl⟩
    · cases hno
    have hstep : ((serving w requests).run (pre ++ [i])).store =
        (((serving w requests).run pre).step i).store := by
      rw [Loop.run_append]
      rfl
    have hfind := findAgent_clarifyField violation.toAgent violation.field text violation.toAgent
      agents
    rw [hagent, Option.map_some, if_pos rfl] at hfind
    have hagents1 : ((serving w requests).run (pre ++ [i])).store.sessionAgents sessionId =
        some (clarifyField violation.toAgent violation.field text agents) := by
      rw [hstep, hstore]
      exact Function.update_self ..
    refine ⟨⟨_, _, hagents1, hfind, lookup_declare .., rfl⟩, ?_⟩
    intro turnInput messageFields turn w' hfield hturn
    have hmoved : MovedFrom sessionId (session.resolve lastTurn index violation resolution
        (some text) true, clarifyField violation.toAgent violation.field text agents)
        ((serving w requests).run (pre ++ [i])).store := by
      refine ⟨_, _, ?_, hagents1, .refl⟩
      rw [hstep, hstore]
      exact Function.update_self ..
    have hsplit : pre ++ i :: post = (pre ++ [i]) ++ post := by simp
    rw [hsplit] at hdistinct hturn
    obtain ⟨session2, agents2, hs2, ha2, hmoves⟩ :=
      movedFrom_run hw requests (pre ++ [i]) post hdistinct hmoved
    obtain ⟨agent2, hagent2, hban2, hfields2⟩ := widens_of_moves hmoves hfind
    rcases submitTurn_cases sessionId turnInput violation.toAgent messageFields
        ((serving w requests).run ((pre ++ [i]) ++ post)).store with
      ⟨e, he⟩ | ⟨session3, agents3, -, ha3, -, -, he⟩
    · rw [he] at hturn
      cases hturn
    · rw [ha2, Option.some.injEq] at ha3
      subst ha3
      rw [he, Prod.mk.injEq, Except.ok.injEq] at hturn
      rw [← hturn.1, newTurn_violations hagent2
        (hfields2 _ ((AList.mem_insert _).mpr (.inl rfl))) hfield, hban2]
      rfl

/-- A cook who must not be told about cards is told, and the violation is clarified. -/
def cardClarified (field : String) : Fin 3 → Request
  | 0 => .createSession "shop"
  | 1 => .turn Sample.sessionId Sample.order "cook" [field]
  | 2 => .resolve Sample.sessionId 0 "clarify_contract" (some "text")

theorem clarification_takes_effect_table : ∃ turn w',
    (submitTurn Sample.sessionId Sample.order "cook" ["table"]).exec
      ((serving guarded (cardClarified "table")).run ([0, 0, 1] ++ 2 :: [])).store =
        (.ok turn, w') ∧ ∀ v ∈ turn.violations, v.field ≠ "table" := by
  obtain ⟨turn, hturn⟩ := exec_of_isSome
    (m := submitTurn Sample.sessionId Sample.order "cook" ["table"])
    (s := ((serving guarded (cardClarified "table")).run ([0, 0, 1] ++ 2 :: [])).store)
    (by decide +kernel)
  refine ⟨turn, _, hturn, ?_⟩
  exact ((clarification_takes_effect guarded (fun _ => rfl) (cardClarified "table") [0, 0, 1] [] 2
    (by decide) (by decide +kernel) Sample.sessionId 0 "clarify_contract" (some "text") rfl _ _ _ 0
    ⟨"table", "'table' is not declared in 'cook's input_schema", "waiter", "cook", .pending⟩ rfl rfl
    rfl rfl rfl (by decide +kernel) { Sample.cook with prohibitedFields := ["card"] } rfl).2
    Sample.order ["table"] turn _ List.mem_cons_self hturn).mpr (by decide)

/-- A prohibited field is clarified, and is a violation again in the next turn. -/
theorem clarification_without_effect :
    ¬ ∀ session lastTurn violation turn w',
      ((serving guarded (cardClarified "card")).run [0, 0, 1]).store.sessions Sample.sessionId =
        some session →
      session.turnHistory.getLast? = some lastTurn → lastTurn.violations[0]? = some violation →
      ((resolveViolation Sample.sessionId 0 "clarify_contract" (some "text")).exec
        ((serving guarded (cardClarified "card")).run [0, 0, 1]).store).1 = .ok ⟨true, true⟩ →
      (submitTurn Sample.sessionId Sample.order violation.toAgent [violation.field]).exec
        ((serving guarded (cardClarified "card")).run [0, 0, 1, 2]).store = (.ok turn, w') →
      ∀ v ∈ turn.violations, v.field ≠ violation.field := by
  intro h
  obtain ⟨turn, hturn⟩ := exec_of_isSome
    (m := submitTurn Sample.sessionId Sample.order "cook" ["card"])
    (s := ((serving guarded (cardClarified "card")).run [0, 0, 1, 2]).store) (by decide +kernel)
  have hfields := h _ _ ⟨"card", "'cook' is prohibited from receiving 'card'", "waiter", "cook",
    .pending⟩ turn _ rfl rfl rfl (by decide +kernel) hturn
  have hreported : ((submitTurn Sample.sessionId Sample.order "cook" ["card"]).exec
      ((serving guarded (cardClarified "card")).run [0, 0, 1, 2]).store).1.map
        (fun turn => turn.violations.map (·.field)) = .ok ["card"] := by
    decide +kernel
  rw [hturn] at hreported
  have hcard : turn.violations.map (·.field) = ["card"] := Except.ok.inj hreported
  have hmem : "card" ∈ turn.violations.map (·.field) := by rw [hcard]; exact List.mem_cons_self
  obtain ⟨v, hv, hfield⟩ := List.mem_map.mp hmem
  exact hfields v hv hfield

end AgentWorx
