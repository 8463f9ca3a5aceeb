import AgentWorx.Verify.Session

/-!
# The log of contract changes

A session logs every clarification of a contract, and its violations say how they were resolved.
`SimulationSession.LogMatches` is that the two agree, and a resolution keeps it exactly when the
violation has not been clarified before.
-/

namespace AgentWorx

open Coop Coop.Sync

/-! ## Clarified violations -/

/-- Whose contract has been changed, for which field, and in which turn. -/
def CoordNamespaceWrite.key (write : CoordNamespaceWrite) : String × String × Nat :=
  (write.agentName, write.field, write.turnIndex)

/-- The violation of the turn has been resolved by clarifying the contract of its receiver. -/
def SimulationTurnResult.clarified (turn : SimulationTurnResult) : List (String × String × Nat) :=
  (turn.violations.filter (·.resolution = .clarifyContract)).map fun violation =>
    (violation.toAgent, violation.field, turn.turnIndex)

/-- The clarified violations of the whole history. -/
def SimulationSession.clarified (session : SimulationSession) : List (String × String × Nat) :=
  session.turnHistory.flatMap (·.clarified)

/-- The log has one entry for each clarified violation, and no other. -/
def SimulationSession.LogMatches (session : SimulationSession) : Prop :=
  (session.coordNamespaceWrites.map (·.key)).Perm session.clarified

variable {session : SimulationSession} {agents updatedAgents : List AgentContract}
  {violation : ContractViolation} {resolution : String} {clarification : Option String}
  {coordEdgeWritten : Bool}

theorem newTurn_clarified (session : SimulationSession) (agents : List AgentContract)
    (turnInput : SimulationTurnInput) (toAgent : String) (messageFields : List String) :
    (newTurn session agents turnInput toAgent messageFields).1.clarified = [] := by
  rw [SimulationTurnResult.clarified, List.map_eq_nil_iff, List.filter_eq_nil_iff]
  intro violation hviolation
  rw [validateMessage_pending hviolation]
  decide

/-- A clarification is accepted exactly when it is to be logged. -/
theorem applyResolution_written
    (h : applyResolution violation resolution clarification agents =
      .ok (updatedAgents, coordEdgeWritten)) :
    coordEdgeWritten = true ↔ Resolution.ofText resolution = .clarifyContract := by
  unfold applyResolution at h
  split_ifs at h with hmark
  · cases h
    simp [Resolution.ofText, hmark]
  · split at h
    · cases h
    · cases h
    · cases h
      simp [Resolution.ofText, hmark]

/-- The entry of a violation, if the resolution is a clarification. -/
def SimulationTurnResult.entry (turn : SimulationTurnResult) (violation : ContractViolation)
    (resolution : Resolution) : List (String × String × Nat) :=
  if resolution = .clarifyContract then [(violation.toAgent, violation.field, turn.turnIndex)]
  else []

theorem SimulationTurnResult.clarified_split {turn : SimulationTurnResult}
    {before after : List ContractViolation} (h : turn.violations = before ++ violation :: after) :
    turn.clarified = SimulationTurnResult.clarified { turn with violations := before } ++
      turn.entry violation violation.resolution ++
        SimulationTurnResult.clarified { turn with violations := after } := by
  rw [clarified, h]
  by_cases hclarified : violation.resolution = .clarifyContract <;>
    simp [clarified, entry, hclarified]

/-- The new resolution of a violation takes the place of the old one. -/
theorem SimulationTurnResult.clarified_resolveAt (turn : SimulationTurnResult) {index : Nat}
    (hviolation : turn.violations[index]? = some violation) (resolution : Resolution) :
    (turn.entry violation violation.resolution ++ (turn.resolveAt index resolution).clarified).Perm
      (turn.entry violation resolution ++ turn.clarified) := by
  obtain ⟨hlt, hget⟩ := List.getElem?_eq_some_iff.mp hviolation
  have hold : turn.violations =
      turn.violations.take index ++ violation :: turn.violations.drop (index + 1) := by
    rw [← hget, List.getElem_cons_drop, List.take_append_drop]
  have hnew : (turn.resolveAt index resolution).violations = turn.violations.take index ++
      { violation with resolution } :: turn.violations.drop (index + 1) := by
    rw [← hget]
    exact List.modify_eq_take_cons_drop hlt
  rw [clarified_split hold, clarified_split hnew, List.perm_iff_count]
  intro a
  simp only [List.count_append, clarified, entry, resolveAt]
  omega

/-! ## Transitions of a session -/

variable {request : Request} {session' : SimulationSession} {agents' : List AgentContract}

theorem logMatches_new (id agentType : String) (compositionVersion : Int) (createdAt : Datetime) :
    (newSession id agentType compositionVersion createdAt).LogMatches := List.Perm.nil

theorem SimulationSession.LogMatches.addTurn (h : session.LogMatches) (agents : List AgentContract)
    (turnInput : SimulationTurnInput) (toAgent : String) (messageFields : List String) :
    (session.addTurn (newTurn session agents turnInput toAgent messageFields).1
      (newTurn session agents turnInput toAgent messageFields).2).LogMatches := by
  unfold LogMatches clarified at *
  simpa [SimulationSession.addTurn, newTurn_clarified] using h

/-- A resolution that is accepted keeps the log right exactly when its violation has not been
clarified before. -/
theorem SimulationSession.LogMatches.resolve_iff (h : session.LogMatches)
    {lastTurn : SimulationTurnResult} {index : Nat}
    (hlast : session.turnHistory.getLast? = some lastTurn)
    (hviolation : lastTurn.violations[index]? = some violation)
    (happly : applyResolution violation resolution clarification agents =
      .ok (updatedAgents, coordEdgeWritten)) :
    (session.resolve lastTurn index violation resolution clarification
      coordEdgeWritten).LogMatches ↔ violation.resolution ≠ .clarifyContract := by
  set init := session.turnHistory.dropLast with hinit
  have hhistory : session.turnHistory = init ++ [lastTurn] := by
    rw [hinit, List.dropLast_append_getLast? lastTurn hlast]
  have hclarified : session.clarified = init.flatMap (·.clarified) ++ lastTurn.clarified := by
    simp [clarified, hhistory]
  have hafter : (session.resolve lastTurn index violation resolution clarification
      coordEdgeWritten).clarified = init.flatMap (·.clarified) ++
        (lastTurn.resolveAt index (Resolution.ofText resolution)).clarified := by
    unfold SimulationSession.resolve
    split_ifs <;> simp [clarified, hinit]
  have hlog : (session.resolve lastTurn index violation resolution clarification
      coordEdgeWritten).coordNamespaceWrites.map (·.key) =
        session.coordNamespaceWrites.map (·.key) ++
          lastTurn.entry violation (Resolution.ofText resolution) := by
    have hwritten := applyResolution_written happly
    unfold SimulationSession.resolve SimulationTurnResult.entry
    cases coordEdgeWritten with
    | true => simp [CoordNamespaceWrite.key, ← hwritten]
    | false => simp [← hwritten]
  have hreplaced := lastTurn.clarified_resolveAt hviolation (Resolution.ofText resolution)
  rw [LogMatches, hclarified] at h
  rw [LogMatches, hlog, hafter]
  constructor
  · -- the violation would be counted twice
    intro hmatches hclarify
    have hentry : (lastTurn.entry violation violation.resolution).length = 1 := by
      simp [SimulationTurnResult.entry, hclarify]
    have hlength := hmatches.length_eq
    have hbefore := h.length_eq
    have hreplaced := hreplaced.length_eq
    rw [List.length_append, List.length_append] at hlength hreplaced
    rw [List.length_append] at hbefore
    omega
  · intro hno
    rw [SimulationTurnResult.entry, if_neg hno, List.nil_append] at hreplaced
    rw [List.perm_iff_count] at h hreplaced ⊢
    intro a
    have hbefore := h a
    have hcount := hreplaced a
    simp only [List.count_append] at hbefore hcount ⊢
    omega

/-- Turns and closing keep the log right. -/
theorem SessionStep.logMatches (hstep : SessionStep request (session, agents) (session', agents'))
    (hrequest : ∀ sessionId violationIndex resolution clarification,
      request ≠ .resolve sessionId violationIndex resolution clarification)
    (h : session.LogMatches) : session'.LogMatches := by
  cases hstep with
  | turn => exact h.addTurn _ _ _ _
  | resolve => exact absurd rfl (hrequest _ _ _ _)
  | close => exact h

/-! ## Every reachable session -/

variable {ι : Type} [DecidableEq ι] {w w' : World} {l : Option (Event host)} {sessionId : String}

/-- The logs of all sessions in memory are right. -/
def LogsMatch (w : World) : Prop :=
  ∀ sessionId session, w.sessions sessionId = some session → session.LogMatches

/-- The request resolves a violation that has been resolved by a clarification already. -/
abbrev ResolvesClarified : World → Request → Prop :=
  ResolvesWhere fun _ _ _ violation _ => violation.resolution = .clarifyContract

/-- The call of task `i` does not resolve a clarified violation. -/
def RespectsClarified (requests : ι → Request) (c : Loop host ι Response) (i : ι) : Prop :=
  (c.tasks i).inSegment → ¬ ResolvesClarified c.store (requests i)

instance (requests : ι → Request) (c : Loop host ι Response) (i : ι) :
    Decidable (RespectsClarified requests c i) :=
  inferInstanceAs (Decidable ((c.tasks i).inSegment → ¬ ResolvesClarified c.store (requests i)))

/-- A request to resolve is one call of `resolve_violation`. -/
theorem resolve_settle (sessionId : String) (violationIndex : Int) (resolution : String)
    (clarification : Option String) (w : World) :
    ∃ r, (Request.resolve sessionId violationIndex resolution clarification).handle.settle w =
      (.done r,
        ((resolveViolation sessionId violationIndex resolution clarification).exec w).2) := by
  change ∃ r, (withHttp sessionStatus (Async.lift
    (resolveViolation sessionId violationIndex resolution clarification)) >>= _ :
      Coro Response).settle w = _
  rw [Async.settle_bind, withHttp, Async.settle_tryCatch, Async.settle_lift]
  rcases (resolveViolation sessionId violationIndex resolution clarification).exec w with
    ⟨e | result, w'⟩
  · exact ⟨_, rfl⟩
  · exact ⟨_, rfl⟩

/-- An accepted resolution keeps a property of its session just if `B` does not hold. -/
def KeptUnless (P : SimulationSession → Prop)
    (B : SimulationSession → SimulationTurnResult → Nat → ContractViolation → String → Prop) :
    Prop :=
  ∀ ⦃session agents lastTurn index violation resolution clarification updatedAgents
      coordEdgeWritten⦄,
    P session → session.turnHistory.getLast? = some lastTurn →
    lastTurn.violations[index]? = some violation →
    applyResolution violation resolution clarification agents =
      .ok (updatedAgents, coordEdgeWritten) →
    (P (session.resolve lastTurn index violation resolution clarification coordEdgeWritten) ↔
      ¬ B session lastTurn index violation resolution)

/-- One call of `resolve_violation` keeps such a property of all sessions just if it is not accepted
where `B` holds. -/
theorem resolveViolation_everySession {P : SimulationSession → Prop}
    {B : SimulationSession → SimulationTurnResult → Nat → ContractViolation → String → Prop}
    (h : EverySession P w) (sessionId : String) (violationIndex : Int) (resolution : String)
    (clarification : Option String) (hiff : KeptUnless P B) :
    EverySession P ((resolveViolation sessionId violationIndex resolution clarification).exec w).2 ↔
      ¬ ResolvesWhere B w (.resolve sessionId violationIndex resolution clarification) := by
  rcases resolveViolation_cases sessionId violationIndex resolution clarification w with
    ⟨e, he⟩ | ⟨session, agents, lastTurn, index, violation, updatedAgents, coordEdgeWritten, hs, ha,
      hlast, hindex, hviolation, happly, he⟩
  · rw [he]
    refine iff_of_true h ?_
    rintro ⟨session, hs, agents, ha, lastTurn, hlast, index, hindex, violation, hviolation, -,
      happly⟩
    rw [resolveViolation_some hs ha hlast hindex hviolation] at he
    cases hr : applyResolution violation resolution clarification agents <;> rw [hr] at he happly
    · cases happly
    · cases he
  · rw [he]
    have hresolves : ResolvesWhere B w
        (.resolve sessionId violationIndex resolution clarification) ↔
          B session lastTurn index violation resolution := by
      simp [ResolvesWhere, hs, ha, hlast, hindex, hviolation, happly, Except.isOk, Except.toBool]
    rw [hresolves, ← hiff (h sessionId session hs) hlast hviolation happly]
    constructor
    · intro hP
      exact hP sessionId _ (Function.update_self ..)
    · intro hP id session' hs'
      by_cases hid : id = sessionId
      · subst hid
        cases (Function.update_self ..).symm.trans hs'
        exact hP
      · exact h id session' ((Function.update_of_ne hid ..).symm.trans hs')

/-- A request to resolve has been made or not yet begun. -/
def ResolvesAtOnce (requests : ι → Request) (c : Loop host ι Response) : Prop :=
  ∀ i sessionId violationIndex resolution clarification,
    requests i = .resolve sessionId violationIndex resolution clarification →
      c.tasks i = ⟨(requests i).handle, none⟩ ∨ ∃ r, (c.tasks i).Ended r

variable {requests : ι → Request} {c : Loop host ι Response}

/-- The only step of a request to resolve is the call of `resolve_violation`. -/
theorem resolve_step {violationIndex : Int} {i : ι}
    (hi : requests i = .resolve sessionId violationIndex resolution clarification)
    (hfresh : c.tasks i = ⟨(requests i).handle, none⟩) :
    (c.tasks i).inSegment ∧
    (c.step i).store =
      ((resolveViolation sessionId violationIndex resolution clarification).exec c.store).2 ∧
    ∃ r, ((c.step i).tasks i).Ended r := by
  have hsession : (requests i).sessionId = some sessionId := by rw [hi]; rfl
  obtain ⟨f, k, hhandle⟩ := session_handle hsession
  have hprog : (c.tasks i).prog = .sync f k := by rw [hfresh, hhandle]
  obtain ⟨r, hr⟩ := resolve_settle sessionId violationIndex resolution clarification c.store
  obtain ⟨hstore, hdone⟩ := Loop.step_segment hprog
  rw [hfresh, hi, hr] at hstore hdone
  exact ⟨by simp [Task.inSegment, hprog], hstore, r, hdone⟩

theorem ResolvesAtOnce.step (h : ResolvesAtOnce requests c) (i : ι) :
    ResolvesAtOnce requests (c.step i) := by
  intro j sessionId violationIndex resolution clarification hj
  rcases h j _ _ _ _ hj with hfresh | ⟨r, hr⟩
  · by_cases hij : j = i
    · subst hij
      exact .inr (resolve_step hj hfresh).2.2
    · exact .inl (by rw [Loop.step_tasks_ne c hij, hfresh])
  · exact .inr ⟨r, by rw [Loop.step_ended hr]; exact hr⟩

/-- The same for every step of the process, if the other transitions of a session keep the property.
-/
theorem Serves.everySession_iff {P : SimulationSession → Prop}
    {B : SimulationSession → SimulationTurnResult → Nat → ContractViolation → String → Prop}
    (hserves : Serves requests c) (honce : ResolvesAtOnce requests c) (h : EverySession P c.store)
    (i : ι)
    (hnew : ∀ id agentType compositionVersion createdAt,
      P (newSession id agentType compositionVersion createdAt))
    (hother : ∀ request session agents session' agents',
      (∀ sessionId violationIndex resolution clarification,
        request ≠ .resolve sessionId violationIndex resolution clarification) →
      SessionStep request (session, agents) (session', agents') → P session → P session')
    (hiff : KeptUnless P B) :
    EverySession P (c.step i).store ↔
      ((c.tasks i).inSegment → ¬ ResolvesWhere B c.store (requests i)) := by
  by_cases hresolve : ∃ sessionId violationIndex resolution clarification,
      requests i = .resolve sessionId violationIndex resolution clarification
  · obtain ⟨sessionId, violationIndex, resolution, clarification, hi⟩ := hresolve
    rcases honce i _ _ _ _ hi with hfresh | ⟨r, hr⟩
    · obtain ⟨hsegment, hstore, -⟩ := resolve_step hi hfresh
      rw [hstore, resolveViolation_everySession h _ _ _ _ hiff, hi]
      exact ⟨fun h _ => h, fun h => h hsegment⟩
    · have hstep : c.step i = c := by
        rw [Task.Ended] at hr
        simp [Loop.step, hr]
      rw [hstep]
      refine iff_of_true h fun hsegment => ?_
      rw [Task.Ended] at hr
      simp [Task.inSegment, hr] at hsegment
  · simp only [not_exists] at hresolve
    refine iff_of_true ?_ fun _ => ?_
    · exact hserves.step_keeps
        (fun _ _ _ he => he.everySession hnew fun _ _ _ _ => hother _ _ _ _ _ hresolve)
        (fun _ q w _ h => by simpa [EverySession] using h) h
    · cases hi : requests i with
      | resolve => exact absurd hi (hresolve _ _ _ _)
      | _ => exact id

/-- Every step keeps the logs right exactly when it does not resolve a clarified violation. -/
theorem Serves.logsMatch_iff (hserves : Serves requests c) (honce : ResolvesAtOnce requests c)
    (hlogs : LogsMatch c.store) (i : ι) :
    LogsMatch (c.step i).store ↔ RespectsClarified requests c i := by
  exact hserves.everySession_iff honce hlogs i logMatches_new
    (fun _ _ _ _ _ hother hstep => hstep.logMatches hother)
    fun _ _ _ _ _ _ _ _ _ h hlast hviolation happly => h.resolve_iff hlast hviolation happly

/-- What a session and closing it satisfy: the log has one entry for each violation that has been
resolved by a clarification, and closing counts each of them once. -/
structure LogSound (w : World) (sessionId : String) (session : SimulationSession) : Prop where
  log : session.LogMatches
  reports : ∀ result w', (closeSession sessionId).runAlone w = (.ok result, w') →
    result.coordEdgesWritten = session.clarified.length + session.handoffPairs.length

theorem closeSession_reports {result : CloseResult} (hs : w.sessions sessionId = some session)
    (h : (closeSession sessionId).runAlone w = (.ok result, w')) :
    result.coordEdgesWritten = coordEdgesWritten session := by
  obtain ⟨summary, w1, hsummary, -, -, rfl⟩ := closeSession_returns h
  obtain ⟨closedAt, rfl⟩ := flushSession_summary hs hsummary
  rfl

theorem logsMatch_iff_logSound :
    LogsMatch w ↔
      ∀ sessionId session, w.sessions sessionId = some session → LogSound w sessionId session := by
  constructor
  · intro h sessionId session hs
    refine ⟨h sessionId session hs, fun result w' hclose => ?_⟩
    rw [closeSession_reports hs hclose, coordEdgesWritten, ← (h sessionId session hs).length_eq,
      List.length_map]
  · exact fun h sessionId session hs => (h sessionId session hs).log

/-- In a process that has just started, the log of every session matches its violations in every
state that the requests reach, in whatever order they are made, exactly when no resolution is
accepted for a violation that has been clarified already. -/
theorem log_matches_iff (w : World) (hw : ∀ sessionId, w.sessions sessionId = none)
    (requests : ι → Request) (sched : List ι) :
    (∀ pre, pre <+: sched → ∀ sessionId session,
      ((serving w requests).run pre).store.sessions sessionId = some session →
        LogSound ((serving w requests).run pre).store sessionId session) ↔
      Loop.Meets (RespectsClarified requests) (serving w requests) sched := by
  have hstart : LogsMatch w := by
    intro sessionId session hs
    rw [hw] at hs
    cases hs
  rw [← Loop.meets_iff_throughout (I := fun c => LogsMatch c.store)
    (J := fun c => Serves requests c ∧ ResolvesAtOnce requests c)
    (fun c i hc => ⟨hc.1.step i, hc.2.step i⟩)
    (fun c i hc hlogs => hc.1.logsMatch_iff hc.2 hlogs i)
    ⟨serves_serving w requests, fun _ _ _ _ _ _ => .inl rfl⟩ hstart]
  exact forall₂_congr fun pre _ => logsMatch_iff_logSound.symm

/-- A message with a field that its receiver does not declare, and two resolutions. -/
def clarifying (again : Request) : Fin 4 → Request
  | 0 => .createSession "shop"
  | 1 => .turn Sample.sessionId Sample.order "cook" ["table"]
  | 2 => .resolve Sample.sessionId 0 "clarify_contract" (some "int")
  | 3 => again

theorem log_matches_clarified : ∃ session,
    ((serving (Sample.withTeam .approved) (clarifying (.close Sample.sessionId))).run
      [0, 0, 1, 2]).store.sessions Sample.sessionId = some session ∧
    session.clarified = [("cook", "table", 0)] ∧
    LogSound ((serving (Sample.withTeam .approved) (clarifying (.close Sample.sessionId))).run
      [0, 0, 1, 2]).store Sample.sessionId session :=
  ⟨_, rfl, by decide +kernel, (log_matches_iff (Sample.withTeam .approved) (fun _ => rfl)
    (clarifying (.close Sample.sessionId)) [0, 0, 1, 2]).mpr (by decide +kernel) [0, 0, 1, 2]
    (List.prefix_refl _) Sample.sessionId _ rfl⟩

/-- A violation can be clarified twice before the next turn: the log has two entries for it. -/
theorem clarified_twice :
    ¬ ∀ pre, pre <+: [0, 0, 1, 2, 3] → ∀ sessionId session,
      ((serving (Sample.withTeam .approved) (clarifying (.resolve Sample.sessionId 0
        "clarify_contract" (some "number")))).run pre).store.sessions sessionId = some session →
      LogSound ((serving (Sample.withTeam .approved) (clarifying (.resolve Sample.sessionId 0
        "clarify_contract" (some "number")))).run pre).store sessionId session := by
  intro h
  have hlog := (h [0, 0, 1, 2, 3] (List.prefix_refl _) Sample.sessionId _ rfl).log.length_eq
  exact absurd hlog (by decide +kernel)

end AgentWorx
