import AgentWorx.Verify.Session

/-!
# Prohibited fields

A clarification only adds to the input schema of a contract, so the contracts of a session keep the
names and the prohibited fields of the composition they were copied from, and a prohibited field is
tested before the schema is looked at.
-/

namespace AgentWorx

open Coop Coop.Sync

/-! ## Contracts -/

/-- The contracts have the same names and prohibit the same fields, one by one. -/
def SameBans (agents agents' : List AgentContract) : Prop :=
  agents'.map (fun agent => (agent.agentName, agent.prohibitedFields)) =
    agents.map fun agent => (agent.agentName, agent.prohibitedFields)

instance : IsPreorder (List AgentContract) SameBans where
  refl _ := rfl
  trans _ _ _ h1 h2 := Eq.trans h2 h1

theorem clarifyField_bans (agentName field fieldType : String) (agents : List AgentContract) :
    SameBans agents (clarifyField agentName field fieldType agents) := by
  unfold SameBans clarifyField
  rw [List.map_map]
  refine List.map_congr_left fun agent _ => ?_
  simp only [Function.comp_apply]
  split_ifs <;> rfl

theorem applyResolution_bans {violation : ContractViolation} {resolution : String}
    {clarification : Option String} {agents updatedAgents : List AgentContract}
    {coordEdgeWritten : Bool}
    (h : applyResolution violation resolution clarification agents =
      .ok (updatedAgents, coordEdgeWritten)) : SameBans agents updatedAgents := by
  unfold applyResolution at h
  split_ifs at h
  · cases h
    exact refl_of _ _
  · split at h
    · cases h
    · cases h
    · cases h
      exact clarifyField_bans _ _ _ _

/-- The first contract of a name prohibits the same fields. -/
theorem SameBans.findAgent {agents agents' : List AgentContract} (h : SameBans agents agents')
    {agentName : String} {agent : AgentContract}
    (hagent : findAgent agentName agents = some agent) :
    ∃ agent', findAgent agentName agents' = some agent' ∧
      agent'.prohibitedFields = agent.prohibitedFields := by
  induction agents generalizing agents' with
  | nil => cases hagent
  | cons a agents ih =>
    obtain ⟨a', agents', rfl, ha, htail⟩ := List.map_eq_cons_iff.mp h
    simp only [Prod.mk.injEq] at ha
    unfold AgentWorx.findAgent at hagent ⊢
    by_cases hname : a.agentName = agentName
    · rw [List.find?_cons_of_pos (by simpa using hname)] at hagent
      cases hagent
      exact ⟨a', List.find?_cons_of_pos (by simpa [ha.1] using hname), ha.2⟩
    · rw [List.find?_cons_of_neg (by simpa using hname)] at hagent
      rw [List.find?_cons_of_neg (by simpa [ha.1] using hname)]
      exact ih htail hagent

/-- The turn has a violation for the field by its receiver. -/
def SimulationTurnResult.Reports (turn : SimulationTurnResult) (toAgent field : String) : Prop :=
  ∃ violation ∈ turn.violations, violation.toAgent = toAgent ∧ violation.field = field

theorem newTurn_reports {session : SimulationSession} {agents : List AgentContract}
    {turnInput : SimulationTurnInput} {toAgent field : String} {messageFields : List String}
    {agent : AgentContract} (hagent : findAgent toAgent agents = some agent)
    (hfield : field ∈ messageFields) (hban : field ∈ agent.prohibitedFields) :
    (newTurn session agents turnInput toAgent messageFields).1.Reports toAgent field := by
  refine ⟨⟨field, s!"'{toAgent}' is prohibited from receiving '{field}'", turnInput.role, toAgent,
    .pending⟩, ?_, rfl, rfl⟩
  simp only [newTurn, validateMessage, hagent, List.mem_filterMap]
  exact ⟨field, hfield, by simp [hban]⟩

/-! ## Sessions -/

/-- The turn at the index reports the field. -/
def SimulationSession.Reports (session : SimulationSession) (index : Nat) (toAgent field : String) :
    Prop :=
  ∃ turn, session.turnHistory[index]? = some turn ∧ turn.Reports toAgent field

theorem SimulationTurnResult.Reports.resolveAt {turn : SimulationTurnResult}
    {toAgent field : String} (h : turn.Reports toAgent field) (index : Nat)
    (resolution : Resolution) : (turn.resolveAt index resolution).Reports toAgent field := by
  obtain ⟨violation, hmem, hto, hfield⟩ := h
  obtain ⟨k, hk⟩ := List.mem_iff_getElem?.mp hmem
  refine ⟨if index = k then { violation with resolution } else violation,
    List.mem_iff_getElem?.mpr ⟨k, ?_⟩, ?_⟩
  · simp [SimulationTurnResult.resolveAt, List.getElem?_modify, hk]
  · split_ifs <;> exact ⟨hto, hfield⟩

variable {request : Request} {session session' : SimulationSession}
  {agents agents' : List AgentContract} {index : Nat} {toAgent field : String}

theorem SessionStep.bans (h : SessionStep request (session, agents) (session', agents')) :
    SameBans agents agents' := by
  cases h with
  | turn | close => exact refl_of _ _
  | resolve _ _ _ happly => exact applyResolution_bans happly

/-- A resolution changes how a violation is resolved, not what it reports. -/
theorem SessionStep.reports (h : SessionStep request (session, agents) (session', agents'))
    (hreports : session.Reports index toAgent field) : session'.Reports index toAgent field := by
  obtain ⟨turn, hturn, hreports⟩ := hreports
  have hlt : index < session.turnHistory.length := (List.getElem?_eq_some_iff.mp hturn).1
  cases h with
  | turn =>
    exact ⟨turn, by simp [SimulationSession.addTurn, List.getElem?_append_left hlt, hturn],
      hreports⟩
  | close => exact ⟨turn, hturn, hreports⟩
  | @resolve _ _ resolution _ _ _ lastTurn position violation _ _ hlast =>
    have hhistory (clarification : Option String) (coordEdgeWritten : Bool) :
        (session.resolve lastTurn position violation resolution clarification
          coordEdgeWritten).turnHistory = session.turnHistory.dropLast ++
            [lastTurn.resolveAt position (Resolution.ofText resolution)] := by
      unfold SimulationSession.resolve
      split_ifs <;> rfl
    have hsplit := List.dropLast_append_getLast? lastTurn hlast
    rw [SimulationSession.Reports, hhistory]
    by_cases hindex : index < session.turnHistory.dropLast.length
    · rw [← hsplit, List.getElem?_append_left hindex] at hturn
      exact ⟨turn, by rw [List.getElem?_append_left hindex, hturn], hreports⟩
    · -- the last turn is the one that is resolved
      rw [← hsplit] at hturn
      rcases getElem?_append_singleton hturn with ⟨-, hlt⟩ | ⟨rfl, rfl⟩
      · exact absurd hlt hindex
      · exact ⟨_, List.getElem?_concat_length, hreports.resolveAt _ _⟩

/-! ## Runs -/

variable {w w' : World} {sessionId agentType : String} {l : Option (Event host)}

/-- The session is in memory, and its contracts prohibit what `agents` prohibit. -/
def HoldsSession (sessionId : String) (agents : List AgentContract) (w : World) : Prop :=
  ∃ session agents', w.sessions sessionId = some session ∧
    w.sessionAgents sessionId = some agents' ∧ SameBans agents agents'

/-- Only a start replaces a session; every other request takes transitions of it. -/
theorem Effect.holdsSession (he : Effect request l w w')
    (hstart : ∀ agentType, request ≠ .createSession agentType)
    (h : HoldsSession sessionId agents w) : HoldsSession sessionId agents w' := by
  obtain ⟨session, agents', hs, ha, hbans⟩ := h
  rcases he.session_cases sessionId with ⟨hs', ha'⟩ | ⟨agentType, _, _, _, hrequest, -⟩ |
    ⟨session0, agents0, session1, agents1, -, hs0, ha0, hstep, hs1, ha1⟩
  · exact ⟨session, agents', hs'.trans hs, ha'.trans ha, hbans⟩
  · exact absurd hrequest (hstart agentType)
  · rw [ha, Option.some.injEq] at ha0
    subst ha0
    exact ⟨session1, agents1, hs1, ha1, trans_of _ hbans hstep.bans⟩

/-- The turn at the index of the session reports the field. -/
def HoldsReport (sessionId : String) (index : Nat) (toAgent field : String) (w : World) : Prop :=
  ∃ session, w.sessions sessionId = some session ∧ session.Reports index toAgent field

theorem Effect.holdsReport (he : Effect request l w w')
    (hstart : ∀ agentType, request ≠ .createSession agentType)
    (h : HoldsReport sessionId index toAgent field w) :
    HoldsReport sessionId index toAgent field w' := by
  obtain ⟨session, hs, hreports⟩ := h
  rcases he.session_cases sessionId with ⟨hs', -⟩ | ⟨agentType, _, _, _, hrequest, -⟩ |
    ⟨session0, agents0, session1, agents1, -, hs0, -, hstep, hs1, -⟩
  · exact ⟨session, hs'.trans hs, hreports⟩
  · exact absurd hrequest (hstart agentType)
  · rw [hs, Option.some.injEq] at hs0
    subst hs0
    exact ⟨session1, hs1, hstep.reports hreports⟩

theorem openSession_exec (agentType : String) (proposal : ProposalArtifact) (w : World) :
    ∃ session, session.agentTypeId = agentType ∧ session.compositionVersion = proposal.version ∧
      (openSession agentType proposal).exec w = (.ok session,
        (w.bump.bump.setSession session.id session).setSessionAgents session.id proposal.agents) :=
  ⟨_, rfl, rfl, rfl⟩

/-- Starting a session copies the contracts of the latest composition. -/
theorem startSession_opens {row : CompositionRow}
    (h : (startSession agentType).runAlone w = (.ok session, w'))
    (hrow : w.pg.latestComposition agentType = some row) :
    w'.sessions session.id = some session ∧ session.agentTypeId = agentType ∧
      w'.sessionAgents session.id = some row.agentList := by
  rw [startSession, Async.runAlone_bind, getLatestProposal, Async.runAlone_bind, sql,
    Async.runAlone_call] at h
  rcases World.serve_cases (.selectLatestComposition agentType) w with ⟨e, he⟩ | ⟨a, pg, hpg, he⟩
  · rw [show host.serve _ _ = _ from he] at h
    cases h
  · obtain rfl : a = some row := (congrArg Prod.fst (Except.ok.inj hpg)).symm.trans hrow
    rw [show host.serve _ _ = _ from he] at h
    simp only [Async.runAlone_pure, Option.map_some] at h
    split_ifs at h
    · cases h
    · obtain ⟨session, htype, -, hopen⟩ :=
        openSession_exec agentType (rowToArtifact row) (w.bump.setPg pg)
      rw [Async.runAlone_liftM, hopen] at h
      cases h
      exact ⟨by simp, htype, by simp [rowToArtifact]⟩

theorem startSession_holds {row : CompositionRow}
    (h : (startSession agentType).runAlone w = (.ok session, w'))
    (hrow : w.pg.latestComposition agentType = some row) :
    HoldsSession session.id row.agentList w' := by
  obtain ⟨hs, -, ha⟩ := startSession_opens h hrow
  exact ⟨session, row.agentList, hs, ha, refl_of _ _⟩

theorem submitTurn_paused (hs : w.sessions sessionId = some session)
    (hactive : session.status = .active) (hpending : 0 < countUnresolvedViolations session)
    (turnInput : SimulationTurnInput) (toAgent : String) (messageFields : List String) :
    (submitTurn sessionId turnInput toAgent messageFields).exec w =
      (.error (.sessionPausedForViolation sessionId (countUnresolvedViolations session)), w) := by
  rw [submitTurn, exec_bind_ok (getSession_some hs), if_neg (by simp [hactive])]
  dsimp only
  rw [if_pos hpending.ne']
  rfl

/-- Whatever is called on the sessions after one has been started, a turn whose message has a field
that its receiver must not get reports the field and pauses the session, and goes on reporting it.
-/
theorem prohibited_is_caught {agentType : String} {w w' w1 : World} {session : SimulationSession}
    {row : CompositionRow} (hstart : (startSession agentType).runAlone w = (.ok session, w'))
    (hrow : w.pg.latestComposition agentType = some row) (pre post : List Request)
    (hcalls : ∀ request ∈ pre ++ post, ∀ agentType, request ≠ .createSession agentType)
    {turnInput : SimulationTurnInput} {toAgent : String} {messageFields : List String}
    {turn : SimulationTurnResult}
    (hturn : (submitTurn session.id turnInput toAgent messageFields).exec (runAll pre w') =
      (.ok turn, w1))
    {agent : AgentContract} (hagent : findAgent toAgent row.agentList = some agent)
    {field : String} (hfield : field ∈ messageFields) (hban : field ∈ agent.prohibitedFields) :
    turn.Reports toAgent field ∧ turn.pausedForViolation = true ∧
    (∀ turnInput toAgent messageFields, ∃ n,
      ((submitTurn session.id turnInput toAgent messageFields).exec w1).1 =
        .error (.sessionPausedForViolation session.id n)) ∧
    HoldsReport session.id turn.turnIndex toAgent field (runAll post w1) := by
  have hpre : HoldsSession session.id row.agentList (runAll pre w') :=
    runAll_invariant
      (fun request hrequest _ _ _ he => he.holdsSession (hcalls request (by simp [hrequest])))
      (fun _ _ _ q w _ h => by simpa [HoldsSession] using h) (startSession_holds hstart hrow)
  obtain ⟨session1, agents1, hs1, ha1, hbans⟩ := hpre
  rcases submitTurn_cases session.id turnInput toAgent messageFields (runAll pre w') with
    ⟨e, he⟩ | ⟨session2, agents2, hs2, ha2, hactive, -, he⟩
  · cases he.symm.trans hturn
  · rw [hs1, Option.some.injEq] at hs2
    rw [ha1, Option.some.injEq] at ha2
    subst hs2 ha2
    obtain ⟨agent1, hagent1, hsame⟩ := hbans.findAgent hagent
    have hreports : (newTurn session1 agents1 turnInput toAgent messageFields).1.Reports toAgent
        field := newTurn_reports hagent1 hfield (hsame ▸ hban)
    have hpositive : 0 <
        (newTurn session1 agents1 turnInput toAgent messageFields).1.violations.length :=
      List.length_pos_of_mem hreports.choose_spec.1
    have hpending := newTurn_pending session1 agents1 turnInput toAgent messageFields
    cases he.symm.trans hturn
    have hs2 : ((runAll pre w').setSession session.id
        (session1.addTurn (newTurn session1 agents1 turnInput toAgent messageFields).1
          (newTurn session1 agents1 turnInput toAgent messageFields).2)).sessions session.id =
        some _ := Function.update_self ..
    refine ⟨hreports, ?_, fun turnInput' toAgent' messageFields' => ?_, ?_⟩
    · simpa [newTurn, List.length_pos_iff] using hpositive
    · refine ⟨_, congrArg Prod.fst (submitTurn_paused hs2 hactive ?_ _ _ _)⟩
      simpa [countUnresolvedViolations, SimulationSession.addTurn, hpending] using hpositive
    · refine runAll_invariant
        (fun request hrequest _ _ _ he => he.holdsReport (hcalls request (by simp [hrequest])))
        (fun _ _ _ q w _ h => by simpa [HoldsReport] using h) ⟨_, hs2, _, ?_, hreports⟩
      exact List.getElem?_concat_length

/-- A cook who must not be told about cards. -/
def guarded : World :=
  { Sample.withTeam .approved with
    pg := { Postgres.empty with
      agentTypes := [Sample.shopRow]
      teamCompositions :=
        [{ Sample.team .approved with agentList := [{ Sample.cook with
            prohibitedFields := ["card"] }] }] } }

/-- The first turn reports the field, and its violation is clarified. -/
def clarified : List Request :=
  [.turn Sample.sessionId Sample.order "cook" ["card"],
    .resolve Sample.sessionId 0 "clarify_contract" (some "text")]

/-- The second turn reports the field again. -/
theorem prohibited_is_caught_again : ∃ turn w,
    (submitTurn Sample.sessionId Sample.order "cook" ["card"]).exec
      (runAll clarified ((startSession "shop").runAlone guarded).2) = (.ok turn, w) ∧
    turn.Reports "cook" "card" := by
  have hid : (((startSession "shop").runAlone guarded).1.map fun session => session.id) =
      .ok Sample.sessionId := by decide +kernel
  have hok : ((submitTurn Sample.sessionId Sample.order "cook" ["card"]).exec
      (runAll clarified ((startSession "shop").runAlone guarded).2)).1.isOk = true := by
    decide +kernel
  rcases hstart : (startSession "shop").runAlone guarded with ⟨e | session, w'⟩ <;>
    rw [hstart] at hid hok
  · cases hid
  rw [← Except.ok.inj hid] at hok ⊢
  rcases hturn : (submitTurn session.id Sample.order "cook" ["card"]).exec (runAll clarified w')
    with ⟨e | turn, w1⟩ <;> rw [hturn] at hok
  · cases hok
  · exact ⟨turn, w1, rfl, (prohibited_is_caught hstart rfl clarified [] (by simp [clarified]) hturn
      rfl (List.mem_singleton_self _) (List.mem_singleton_self _)).1⟩

end AgentWorx
