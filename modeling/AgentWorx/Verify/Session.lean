import AgentWorx.Verify.Requests
import AgentWorx.Verify.Sample

/-!
# Simulation sessions

The invariant of a session over all calls on it, and what becomes of a session once it is closed.
-/

namespace AgentWorx

open Coop Coop.Sync

/-! ## The history of a session -/

theorem getElem?_append_singleton {α : Type} {xs : List α} {x a : α} {i : Nat}
    (h : (xs ++ [x])[i]? = some a) :
    (xs[i]? = some a ∧ i < xs.length) ∨ (a = x ∧ i = xs.length) := by
  rcases Nat.lt_or_ge i xs.length with hi | hi
  · rw [List.getElem?_append_left hi] at h
    exact .inl ⟨h, hi⟩
  · rw [List.getElem?_append_right hi] at h
    obtain ⟨hlt, rfl⟩ := List.getElem?_eq_some_iff.mp h
    simp only [List.length_singleton] at hlt
    exact .inr ⟨by simp, by omega⟩

/-- Only the last turn may have pending violations, and the bookkeeping of the turns is right. -/
structure HistorySound (session : SimulationSession) : Prop where
  pending : ∀ (i : Nat) turn, session.turnHistory[i]? = some turn → 0 < pendingViolations turn →
    i + 1 = session.turnHistory.length
  paused : ∀ turn ∈ session.turnHistory,
    turn.pausedForViolation = true ↔ 0 < pendingViolations turn
  turnIndex : ∀ (i : Nat) turn, session.turnHistory[i]? = some turn → turn.turnIndex = i
  observations : session.observations = session.turnHistory.flatMap (·.observations)
  objects : ∀ ref ∈ session.observations, ref < session.objects.length

def totalPending (session : SimulationSession) : Nat :=
  (session.turnHistory.map pendingViolations).sum

variable {session : SimulationSession}

/-- The last turn speaks for the whole history. -/
theorem HistorySound.total (h : HistorySound session) :
    totalPending session = countUnresolvedViolations session := by
  unfold totalPending countUnresolvedViolations
  rcases List.eq_nil_or_concat session.turnHistory with hnil | ⟨init, last, hlast⟩
  · simp [hnil]
  · have hpending := h.pending
    rw [hlast] at hpending ⊢
    have hinit : (init.map pendingViolations).sum = 0 := by
      refine List.sum_eq_zero fun n hn => ?_
      obtain ⟨turn, hturn, rfl⟩ := List.mem_map.mp hn
      obtain ⟨i, hi⟩ := List.mem_iff_getElem?.mp hturn
      have hlt : i < init.length := (List.getElem?_eq_some_iff.mp hi).1
      have := hpending i turn (by rw [List.concat_eq_append, List.getElem?_append_left hlt, hi])
      simp only [List.concat_eq_append, List.length_append, List.length_singleton] at this
      omega
    simp [hinit]

theorem HistorySound.unresolved_eq_zero (h : HistorySound session) :
    countUnresolvedViolations session = 0 ↔
      ∀ turn ∈ session.turnHistory, pendingViolations turn = 0 := by
  rw [← h.total, totalPending, List.sum_eq_zero_iff_forall_eq_nat]
  simp

theorem historySound_new (id agentType : String) (compositionVersion : Int) (createdAt : Datetime) :
    HistorySound (newSession id agentType compositionVersion createdAt) where
  pending i turn h := by simp [newSession] at h
  paused turn h := by simp [newSession] at h
  turnIndex i turn h := by simp [newSession] at h
  observations := rfl
  objects ref h := by simp [newSession] at h

/-- A new violation is pending. -/
theorem validateMessage_pending {messageFields : List String} {fromAgent toAgent : String}
    {agents : List AgentContract} {violation : ContractViolation}
    (h : violation ∈ validateMessage messageFields fromAgent toAgent agents) :
    violation.resolution = .pending := by
  unfold validateMessage at h
  split at h
  · obtain ⟨field, -, rfl⟩ := List.mem_map.mp h
    rfl
  · obtain ⟨field, -, hfield⟩ := List.mem_filterMap.mp h
    split_ifs at hfield <;> cases hfield <;> rfl

/-- All violations of a new turn are pending. -/
theorem newTurn_pending (session : SimulationSession) (agents : List AgentContract)
    (turnInput : SimulationTurnInput) (toAgent : String) (messageFields : List String) :
    pendingViolations (newTurn session agents turnInput toAgent messageFields).1 =
      (newTurn session agents turnInput toAgent messageFields).1.violations.length :=
  List.countP_eq_length.mpr fun _ hviolation => decide_eq_true (validateMessage_pending hviolation)

theorem HistorySound.addTurn (h : HistorySound session) (agents : List AgentContract)
    (turnInput : SimulationTurnInput) (toAgent : String) (messageFields : List String)
    (hpending : countUnresolvedViolations session = 0) :
    HistorySound (session.addTurn (newTurn session agents turnInput toAgent messageFields).1
      (newTurn session agents turnInput toAgent messageFields).2) := by
  have hold := h.unresolved_eq_zero.mp hpending
  set turn := (newTurn session agents turnInput toAgent messageFields).1 with hturn
  set observations := (newTurn session agents turnInput toAgent messageFields).2 with hobservations
  have hviolations : pendingViolations turn = turn.violations.length := newTurn_pending ..
  refine ⟨fun i t ht hp => ?_, fun t ht => ?_, fun i t ht => ?_, ?_, fun ref href => ?_⟩
  · rcases getElem?_append_singleton ht with ⟨ht, -⟩ | ⟨-, rfl⟩
    · rw [hold t (List.mem_of_getElem? ht)] at hp
      cases hp
    · simp [SimulationSession.addTurn]
  · rcases List.mem_append.mp ht with ht | ht
    · exact h.paused t ht
    · obtain rfl := List.mem_singleton.mp ht
      rw [hviolations, List.length_pos_iff]
      simp [hturn, newTurn]
  · rcases getElem?_append_singleton ht with ⟨ht, -⟩ | ⟨rfl, rfl⟩
    · exact h.turnIndex i t ht
    · rfl
  · simp [SimulationSession.addTurn, h.observations]
  · simp only [SimulationSession.addTurn, List.mem_append, List.length_append] at href ⊢
    rcases href with href | href
    · exact Nat.lt_add_right _ (h.objects ref href)
    · simp only [hturn, newTurn, List.mem_range'_1] at href
      exact href.2

theorem HistorySound.resolve (h : HistorySound session) {lastTurn : SimulationTurnResult}
    (hlast : session.turnHistory.getLast? = some lastTurn) (index : Nat)
    (violation : ContractViolation) (resolution : String) (clarification : Option String)
    (coordEdgeWritten : Bool) :
    HistorySound (session.resolve lastTurn index violation resolution clarification
      coordEdgeWritten) := by
  set resolved := lastTurn.resolveAt index (Resolution.ofText resolution) with hresolved
  set init := session.turnHistory.dropLast with hinit
  have hhistory : session.turnHistory = init ++ [lastTurn] := by
    rw [hinit, List.dropLast_append_getLast? lastTurn hlast]
  have hold {i : Nat} {t : SimulationTurnResult} (ht : init[i]? = some t) (hi : i < init.length) :
      session.turnHistory[i]? = some t := by
    rw [hhistory, List.getElem?_append_left hi, ht]
  have hsound (objects : List SimulationObservation) (writes : List CoordNamespaceWrite)
      (hobjects : objects.length = session.objects.length) :
      HistorySound { session with turnHistory := init ++ [resolved], objects := objects,
                                  coordNamespaceWrites := writes } := by
    refine ⟨fun i t ht hp => ?_, fun t ht => ?_, fun i t ht => ?_, ?_, fun ref href => ?_⟩
    · rcases getElem?_append_singleton ht with ⟨ht, hi⟩ | ⟨-, rfl⟩
      · have := h.pending i t (hold ht hi) hp
        rw [hhistory, List.length_append, List.length_singleton] at this
        omega
      · simp
    · rcases List.mem_append.mp ht with ht | ht
      · exact h.paused t (hhistory ▸ List.mem_append_left _ ht)
      · obtain rfl := List.mem_singleton.mp ht
        simp [hresolved, SimulationTurnResult.resolveAt, pendingViolations]
    · rcases getElem?_append_singleton ht with ⟨ht, hi⟩ | ⟨rfl, rfl⟩
      · exact h.turnIndex i t (hold ht hi)
      · exact h.turnIndex init.length lastTurn (by simp [hhistory])
    · have := h.observations
      rw [hhistory] at this
      simpa [hresolved, SimulationTurnResult.resolveAt] using this
    · exact hobjects ▸ h.objects ref href
  unfold SimulationSession.resolve
  split_ifs
  · exact hsound _ _ (by simp [markObservations])
  · exact hsound _ _ rfl

theorem SessionStep.historySound {request : Request} {session' : SimulationSession}
    {agents agents' : List AgentContract}
    (hstep : SessionStep request (session, agents) (session', agents')) (h : HistorySound session) :
    HistorySound session' := by
  cases hstep with
  | turn hactive hpending => exact h.addTurn _ _ _ _ hpending
  | resolve hlast hindex hviolation happly => exact h.resolve hlast _ _ _ _ _
  | close hactive => exact ⟨h.pending, h.paused, h.turnIndex, h.observations, h.objects⟩

/-! ## Every reachable session -/

variable {ι : Type} [DecidableEq ι] {request : Request} {l : Option (Event host)} {w w' : World}
  {sessionId : String}

/-- What a session and the calls on it satisfy: only the last turn has pending violations; a turn
pauses the session exactly while it has some; the turns are numbered and their observations are
those of the session; a turn is accepted exactly when the session is active and nothing is pending;
and closing returns the number of all that is pending, as does the row that it inserts. -/
structure SessionSound (w : World) (sessionId : String) (session : SimulationSession) : Prop where
  history : HistorySound session
  accepts : ∀ turnInput toAgent messageFields,
    (∃ turn, ((submitTurn sessionId turnInput toAgent messageFields).exec w).1 = .ok turn) ↔
      session.status = .active ∧ ∀ turn ∈ session.turnHistory, pendingViolations turn = 0
  summarizes : ∀ summary, ((flushSession sessionId).exec w).1 = .ok summary →
    summary.violationsUnresolved = totalPending session
  reports : ∀ result w', (closeSession sessionId).runAlone w = (.ok result, w') →
    result.violationsUnresolved = totalPending session ∧
    ∃ row, row.sessionId = sessionId ∧ row.violationsUnresolved = totalPending session ∧
      w'.pg.simulationSessionSummaries = w.pg.simulationSessionSummaries ++ [row]

/-- All sessions in memory have the property. -/
def EverySession (P : SimulationSession → Prop) (w : World) : Prop :=
  ∀ sessionId session, w.sessions sessionId = some session → P session

/-- A request keeps what new sessions have and its transitions keep. -/
theorem Effect.everySession {P : SimulationSession → Prop} (he : Effect request l w w')
    (hnew : ∀ id agentType compositionVersion createdAt,
      P (newSession id agentType compositionVersion createdAt))
    (hstep : ∀ session agents session' agents',
      SessionStep request (session, agents) (session', agents') → P session → P session')
    (h : EverySession P w) : EverySession P w' := by
  intro sessionId session hs'
  rcases he.session_cases sessionId with ⟨hs, -⟩ | ⟨_, _, _, _, -, -, -, -, hs, -⟩ |
    ⟨session0, _, session1, _, -, hs0, -, hsession, hs, -⟩ <;> rw [hs] at hs'
  · exact h sessionId session hs'
  · cases hs'
    exact hnew _ _ _ _
  · cases hs'
    exact hstep _ _ _ _ hsession (h sessionId session0 hs0)

/-- What new sessions have and all transitions keep holds of every reachable session. -/
theorem everySession_run {P : SimulationSession → Prop}
    (hnew : ∀ id agentType compositionVersion createdAt,
      P (newSession id agentType compositionVersion createdAt))
    (hstep : ∀ request session agents session' agents',
      SessionStep request (session, agents) (session', agents') → P session → P session')
    (hw : ∀ sessionId, w.sessions sessionId = none) (requests : ι → Request) (sched : List ι) :
    EverySession P ((serving w requests).run sched).store := by
  refine (serves_serving w requests).invariant
    (fun i _ _ _ he => he.everySession hnew (hstep (requests i)))
    (fun _ _ q w _ h => by simpa [EverySession] using h) ?_ sched
  intro sessionId session hs
  exact absurd hs (by simp [Loop.start, hw])

/-- The histories are sound, and every session has its contracts. -/
def SessionsSound (w : World) : Prop :=
  ∀ sessionId session, w.sessions sessionId = some session →
    HistorySound session ∧ ∃ agents, w.sessionAgents sessionId = some agents

theorem Effect.sessionsSound (he : Effect request l w w') (h : SessionsSound w) :
    SessionsSound w' := by
  intro sessionId session hs'
  rcases he.session_cases sessionId with ⟨hs, ha⟩ |
    ⟨agentType, version, createdAt, agents, -, -, -, -, hs, ha⟩ |
    ⟨session0, agents0, session1, agents1, -, hs0, -, hstep, hs, ha⟩ <;> rw [hs] at hs'
  · rw [ha]
    exact h sessionId session hs'
  · cases hs'
    exact ⟨historySound_new _ _ _ _, agents, ha⟩
  · cases hs'
    obtain ⟨hsound, -⟩ := h sessionId session0 hs0
    exact ⟨hstep.historySound hsound, agents1, ha⟩

theorem sessionsSound_run (hw : ∀ sessionId, w.sessions sessionId = none) (requests : ι → Request)
    (sched : List ι) : SessionsSound ((serving w requests).run sched).store := by
  refine (serves_serving w requests).invariant (fun _ _ _ _ he => he.sessionsSound)
    (fun _ _ q w _ hsound => by simpa [SessionsSound] using hsound) ?_ sched
  intro sessionId session hs
  exact absurd hs (by simp [Loop.start, hw])

/-- Where a session and its contracts are in memory, a turn is accepted exactly when the session is
active and not paused. -/
theorem submitTurn_accepts {agents : List AgentContract} (hs : w.sessions sessionId = some session)
    (ha : w.sessionAgents sessionId = some agents) (turnInput : SimulationTurnInput)
    (toAgent : String) (messageFields : List String) :
    (∃ turn, ((submitTurn sessionId turnInput toAgent messageFields).exec w).1 = .ok turn) ↔
      session.status = .active ∧ countUnresolvedViolations session = 0 := by
  constructor
  · rintro ⟨turn, hturn⟩
    rcases submitTurn_cases sessionId turnInput toAgent messageFields w with
      ⟨e, he⟩ | ⟨session', agents', hs', -, hactive, hpending, -⟩
    · rw [he] at hturn
      cases hturn
    · rw [hs, Option.some.injEq] at hs'
      exact hs' ▸ ⟨hactive, hpending⟩
  · rintro ⟨hactive, hpending⟩
    rw [submitTurn, exec_bind_ok (getSession_some hs), if_neg (by simp [hactive])]
    dsimp only
    rw [if_neg (by simpa using hpending), exec_bind_ok (getSessionAgents_some ha)]
    exact ⟨_, rfl⟩

/-- The row that the segment of closing computes is about the session. -/
theorem flushSession_summary {summary : SummaryRow} (hs : w.sessions sessionId = some session)
    (h : (flushSession sessionId).exec w = (.ok summary, w')) :
    ∃ closedAt, summary = summaryRow sessionId session closedAt := by
  rcases flushSession_cases sessionId w with ⟨e, he⟩ | ⟨session', agents', hs', -, -, hflush⟩
  · rw [he] at h
    cases h
  · rw [hs, Option.some.injEq] at hs'
    subst hs'
    rcases hflush with ⟨e, w', -, he⟩ | ⟨w1, w2, edges, closedAt, -, -, he⟩ <;> rw [he] at h <;>
      cases h
    exact ⟨closedAt, rfl⟩

/-- Closing inserts the row that its segment has computed and returns what the row says. -/
theorem closeSession_returns {result : CloseResult}
    (h : (closeSession sessionId).runAlone w = (.ok result, w')) :
    ∃ summary w1, (flushSession sessionId).exec w = (.ok summary, w1) ∧ w'.graphs = w1.graphs ∧
      w'.pg.simulationSessionSummaries = w.pg.simulationSessionSummaries ++ [summary] ∧
      result = ⟨summary.sessionId, summary.coordEdgesWritten, summary.observationsCaptured,
        summary.violationsTotal, summary.violationsUnresolved⟩ := by
  rw [closeSession] at h
  obtain ⟨summary, w1, hflush, hrest⟩ := Async.runAlone_bind_returns h
  rw [Async.runAlone_liftM] at hflush
  obtain ⟨u, w2, hinsert, hresult⟩ := Async.runAlone_bind_returns hrest
  change World.serve (.execute (.insertSimulationSessionSummary summary)) w1 = (.ok u, w2)
    at hinsert
  have hpg : w1.pg = w.pg := by
    have hsegment := flushSession_segment (l := none) sessionId w
    rw [hflush] at hsegment
    exact hsegment.pg
  rcases World.serve_write (.insertSimulationSessionSummary summary) w1 with
    ⟨e, he⟩ | ⟨pg, hwrite, he⟩ <;> rw [he] at hinsert <;> cases hinsert
  cases hresult
  refine ⟨summary, w1, hflush, rfl, ?_, rfl⟩
  rw [← hpg, World.setPg_pg]
  exact Postgres.write_insertSummary hwrite

/-- In every state that any requests can reach in any order in a process that has just started,
every session is sound. -/
theorem sessions_sound (w : World) (hw : ∀ sessionId, w.sessions sessionId = none)
    (requests : ι → Request) (sched : List ι) (sessionId : String) (session : SimulationSession)
    (hs : ((serving w requests).run sched).store.sessions sessionId = some session) :
    SessionSound ((serving w requests).run sched).store sessionId session := by
  obtain ⟨hsound, agents, ha⟩ := sessionsSound_run hw requests sched sessionId session hs
  have hsummary {summary : SummaryRow} {w' : World}
      (h : (flushSession sessionId).exec ((serving w requests).run sched).store =
        (.ok summary, w')) :
      summary.sessionId = sessionId ∧ summary.violationsUnresolved = totalPending session := by
    obtain ⟨closedAt, rfl⟩ := flushSession_summary hs h
    exact ⟨rfl, hsound.total.symm⟩
  refine ⟨hsound, fun turnInput toAgent messageFields => ?_, fun summary h => ?_,
    fun result w' h => ?_⟩
  · rw [submitTurn_accepts hs ha, hsound.unresolved_eq_zero]
  · exact (hsummary (Prod.ext h rfl)).2
  · obtain ⟨summary, w1, hflush, -, hrow, rfl⟩ := closeSession_returns h
    obtain ⟨hid, hunresolved⟩ := hsummary hflush
    exact ⟨hunresolved, summary, hid, hunresolved, hrow⟩

/-- A simulation with one message that violates the contract of its receiver, and one more call. -/
def simulation (last : Request) : Fin 4 → Request
  | 0 => .createSession "shop"
  | 1 => .turn Sample.sessionId Sample.order "cook" ["table"]
  | 2 => .close Sample.sessionId
  | 3 => last

/-- Closing the paused session reports its one violation. -/
theorem sessions_sound_paused :
    ∃ session result w', ((serving (Sample.withTeam .approved)
        (simulation (.readiness "shop"))).run [0, 0, 1]).store.sessions Sample.sessionId =
          some session ∧ totalPending session = 1 ∧
      (closeSession Sample.sessionId).runAlone ((serving (Sample.withTeam .approved)
        (simulation (.readiness "shop"))).run [0, 0, 1]).store = (.ok result, w') ∧
      result.violationsUnresolved = 1 ∧
      SessionSound ((serving (Sample.withTeam .approved) (simulation (.readiness "shop"))).run
        [0, 0, 1]).store Sample.sessionId session := by
  have hsound := sessions_sound (Sample.withTeam .approved) (fun _ => rfl)
    (simulation (.readiness "shop")) [0, 0, 1] Sample.sessionId _ rfl
  have hclose : ((closeSession Sample.sessionId).runAlone ((serving (Sample.withTeam .approved)
      (simulation (.readiness "shop"))).run [0, 0, 1]).store).1.isOk = true := by decide +kernel
  rcases hreturns : (closeSession Sample.sessionId).runAlone ((serving (Sample.withTeam .approved)
      (simulation (.readiness "shop"))).run [0, 0, 1]).store with ⟨e | result, w'⟩
  · rw [hreturns] at hclose
    cases hclose
  · exact ⟨_, result, w', rfl, rfl, rfl, (hsound.reports result w' hreturns).1, hsound⟩

/-! ## Identifiers -/

/-- No identifier is drawn twice in the first `n` ticks. -/
def DistinctDraws (env : Env) (text : UUID → String) (n : Nat) : Prop :=
  ∀ i < n, ∀ j < n, text (env.uuid i) = text (env.uuid j) → i = j

instance (env : Env) (text : UUID → String) (n : Nat) : Decidable (DistinctDraws env text n) :=
  inferInstanceAs (Decidable (∀ i < n, ∀ j < n, _ → _))

/-- The id of every session has been drawn. -/
def SessionsDrawn (w : World) : Prop :=
  ∀ sessionId session, w.sessions sessionId = some session →
    ∃ k < w.tick, sessionId = (w.env.uuid k).toText

theorem Effect.sessionsDrawn (he : Effect request l w w') (h : SessionsDrawn w) :
    SessionsDrawn w' := by
  have hpersists := he.persists
  intro sessionId session hs'
  rw [hpersists.env]
  rcases he.session_cases sessionId with ⟨hs, -⟩ | ⟨_, _, _, _, -, -, hid, htick, -, -⟩ |
    ⟨session0, _, _, _, -, hs0, -, -, -, -⟩
  · rw [hs] at hs'
    obtain ⟨k, hk, hid⟩ := h sessionId session hs'
    exact ⟨k, hk.trans_le hpersists.tick, hid⟩
  · exact ⟨w.tick, htick, hid⟩
  · obtain ⟨k, hk, hid⟩ := h sessionId session0 hs0
    exact ⟨k, hk.trans_le hpersists.tick, hid⟩

theorem serve_sessionsDrawn (q : Sql) (h : SessionsDrawn w) :
    SessionsDrawn (World.serve q w).2 := by
  intro sessionId session hs
  rw [World.serve_sessions] at hs
  rw [World.serve_tick, World.serve_env]
  obtain ⟨k, hk, hid⟩ := h sessionId session hs
  exact ⟨k, by omega, hid⟩

/-- A session is started under an id that no session has. -/
theorem SessionsDrawn.unused {n : Nat} (h : SessionsDrawn w)
    (hdistinct : DistinctDraws w.env UUID.toText n) (hn : w.tick < n) :
    w.sessions (w.env.uuid w.tick).toText = none := by
  by_contra hsome
  obtain ⟨session, hs⟩ := Option.ne_none_iff_exists'.mp hsome
  obtain ⟨k, hk, hid⟩ := h _ session hs
  have hsame := hdistinct w.tick hn k (hk.trans hn) hid
  omega

/-- A session that is there stays as it is, or takes a transition. -/
theorem Effect.session_stays {n : Nat} (he : Effect request l w w') (hdrawn : SessionsDrawn w)
    (hdistinct : DistinctDraws w.env UUID.toText n) (hn : w'.tick ≤ n)
    (hs : w.sessions sessionId = some session) :
    w'.sessions sessionId = some session ∨
    ∃ agents session' agents', SessionStep request (session, agents) (session', agents') ∧
      w'.sessions sessionId = some session' := by
  rcases he.session_cases sessionId with ⟨hs', -⟩ | ⟨_, _, _, _, -, -, hid, htick, -, -⟩ |
    ⟨session0, agents, session1, agents1, -, hs0, -, hstep, hs1, -⟩
  · exact .inl (hs'.trans hs)
  · have hunused := hdrawn.unused hdistinct (htick.trans_le hn)
    rw [← hid, hs] at hunused
    cases hunused
  · obtain rfl := Option.some.inj (hs.symm.trans hs0)
    exact .inr ⟨agents, session1, agents1, hstep, hs1⟩

/-! ## Closed sessions -/

variable {requests : ι → Request} {c : Loop host ι Response} {i : ι} {n : Nat}
  {agents : List AgentContract}

/-- The request resolves a violation: the index names one in the last turn, and the resolution is
one that `apply_resolution` accepts. `B` holds of the session, the last turn, the index of the
violation in it, the violation and the resolution. -/
def ResolvesWhere
    (B : SimulationSession → SimulationTurnResult → Nat → ContractViolation → String → Prop)
    (w : World) : Request → Prop
  | .resolve sessionId violationIndex resolution clarification =>
    ∃ session ∈ w.sessions sessionId, ∃ agents ∈ w.sessionAgents sessionId,
    ∃ lastTurn ∈ session.turnHistory.getLast?,
    ∃ index ∈ pyIndex lastTurn.violations.length violationIndex,
    ∃ violation ∈ lastTurn.violations[index]?, B session lastTurn index violation resolution ∧
      (applyResolution violation resolution clarification agents).isOk
  | _ => False

instance (B : SimulationSession → SimulationTurnResult → Nat → ContractViolation → String → Prop)
    [∀ session turn index violation resolution,
      Decidable (B session turn index violation resolution)]
    (w : World) : (request : Request) → Decidable (ResolvesWhere B w request)
  | .resolve sessionId violationIndex resolution clarification =>
    inferInstanceAs (Decidable (∃ session ∈ w.sessions sessionId,
      ∃ agents ∈ w.sessionAgents sessionId, ∃ lastTurn ∈ session.turnHistory.getLast?,
      ∃ index ∈ pyIndex lastTurn.violations.length violationIndex,
      ∃ violation ∈ lastTurn.violations[index]?, B session lastTurn index violation resolution ∧
        (applyResolution violation resolution clarification agents).isOk = true))
  | .create _ | .question _ | .readiness _ | .answer _ _ | .getProposal _
  | .generateProposal _ _ _ _ _ | .reviewProposal _ _ | .createSession _ | .readSession _
  | .turn _ _ _ _ | .close _ | .cert1Status _ | .cert1Approve _ _ | .cert1Reject _ _ =>
    isFalse id

/-- The request resolves a violation of a session that is closed. -/
abbrev ResolvesClosed : World → Request → Prop :=
  ResolvesWhere fun session _ _ _ _ => session.status = .closed

/-- The call of task `i` does not resolve a violation of a closed session. -/
def RespectsClosed (requests : ι → Request) (c : Loop host ι Response) (i : ι) : Prop :=
  (c.tasks i).inSegment → ¬ ResolvesClosed c.store (requests i)

instance (requests : ι → Request) (c : Loop host ι Response) (i : ι) :
    Decidable (RespectsClosed requests c i) :=
  inferInstanceAs (Decidable ((c.tasks i).inSegment → ¬ ResolvesClosed c.store (requests i)))

/-- Nothing but a resolution changes a closed session or its contracts. -/
theorem Segment.closed (hseg : Segment request l w w') (hno : ¬ ResolvesClosed w request)
    (hdrawn : SessionsDrawn w) (hdistinct : DistinctDraws w.env UUID.toText n) (hn : w'.tick ≤ n)
    (hs : w.sessions sessionId = some session) (hclosed : session.status = .closed) :
    w'.sessions sessionId = some session ∧
      w'.sessionAgents sessionId = w.sessionAgents sessionId := by
  induction hseg with
  | refl => exact ⟨hs, rfl⟩
  | @tail w1 w2 hseg he ih =>
    obtain ⟨hs1, ha1⟩ := ih (he.persists.tick.trans hn)
    have hpersists := Segment.persists hseg
    rcases he.session_cases sessionId with ⟨hs2, ha2⟩ | ⟨_, _, _, _, -, -, hid, htick, -, -⟩ |
      ⟨session1, agents1, session2, agents2, hrequest, hs1', ha1', hstep, -, -⟩
    · exact ⟨hs2.trans hs1, ha2.trans ha1⟩
    · -- a new session takes an id that this one has drawn before
      obtain ⟨k, hk, hid'⟩ := hdrawn sessionId session hs
      rw [hid', hpersists.env] at hid
      have hold := hpersists.tick
      have hsame := hdistinct k (by omega) w1.tick (by omega) hid
      omega
    · rw [hs1, Option.some.injEq] at hs1'
      subst hs1'
      rw [ha1] at ha1'
      cases hstep with
      | turn hactive _ =>
        rw [hclosed] at hactive
        cases hactive
      | close hactive =>
        rw [hclosed] at hactive
        cases hactive
      | resolve hlast hindex hviolation happly =>
        cases hrequest
        exact absurd ⟨session, hs, agents1, ha1', _, hlast, _, hindex, _, hviolation, hclosed,
          by rw [happly]; rfl⟩ hno

theorem Serves.closed_step (hserves : Serves requests c) (hcond : RespectsClosed requests c i)
    (hdrawn : SessionsDrawn c.store) (hdistinct : DistinctDraws c.store.env UUID.toText n)
    (hn : (c.step i).store.tick ≤ n) (hs : c.store.sessions sessionId = some session)
    (hclosed : session.status = .closed) :
    (c.step i).store.sessions sessionId = some session ∧
      (c.step i).store.sessionAgents sessionId = c.store.sessionAgents sessionId := by
  rcases hserves.step_cases i with hstep | ⟨⟨f, k, hprog⟩, hseg, -⟩ | ⟨q, k, -, -, hstore, -⟩
  · rw [hstep]
    exact ⟨hs, rfl⟩
  · exact hseg.closed (hcond (by simp [Task.inSegment, hprog])) hdrawn hdistinct hn hs hclosed
  · rw [hstore]
    exact ⟨by simpa using hs, by simp⟩

/-! ## Calls on a closed session -/

/-- Every call on a closed session raises, if it does not resolve one of its violations. -/
theorem closed_raises (hrequest : request.sessionId = some sessionId)
    (hs : w.sessions sessionId = some session) (hclosed : session.status = .closed)
    (hno : ¬ ResolvesClosed w request) :
    ∃ e w', request.handle.settle w = (.done (.error e), w') := by
  have hraise {α : Type} {p : Coro α} {status : Exn → Option Nat} {f : α → Response} {e : Exn}
      {w' : World} (hp : p.settle w = (.done (.error e), w')) :
      ∃ e w', ((withHttp status p >>= fun a => pure (f a)) : Coro Response).settle w =
        (.done (.error e), w') := by
    refine ⟨toHttp status e, w', ?_⟩
    rw [Async.settle_bind, withHttp, Async.settle_tryCatch, hp]
    rfl
  have hlift {α : Type} {m : Py α} {e : Exn} (he : m.exec w = (.error e, w)) :
      (Async.lift m : Coro α).settle w = (.done (.error e), w) := by rw [Async.settle_lift, he]
  cases request with
  | turn id turnInput toAgent messageFields =>
    cases hrequest
    rcases submitTurn_cases sessionId turnInput toAgent messageFields w with
      ⟨e, he⟩ | ⟨session', _, hs', _, hactive, _⟩
    · exact hraise (hlift he)
    · rw [hs, Option.some.injEq] at hs'
      rw [← hs', hclosed] at hactive
      cases hactive
  | resolve id violationIndex resolution clarification =>
    cases hrequest
    rcases resolveViolation_cases sessionId violationIndex resolution clarification w with
      ⟨e, he⟩ | ⟨session', agents, lastTurn, index, violation, _, _, hs', ha, hlast, hindex,
        hviolation, happly, -⟩
    · exact hraise (hlift he)
    · rw [hs, Option.some.injEq] at hs'
      subst hs'
      exact absurd ⟨session, hs, agents, ha, lastTurn, hlast, index, hindex, violation, hviolation,
        hclosed, by rw [happly]; rfl⟩ hno
  | close id =>
    cases hrequest
    rcases flushSession_cases sessionId w with ⟨e, he⟩ | ⟨session', _, hs', -, hactive, -⟩
    · rcases close_settle sessionId w with ⟨e', e'', w', -, hraises⟩ | ⟨summary, w', k, hok, -⟩
      · exact ⟨e'', w', hraises⟩
      · rw [he] at hok
        cases hok
    · rw [hs, Option.some.injEq] at hs'
      rw [← hs', hclosed] at hactive
      cases hactive
  | _ => cases hrequest

/-! ## Summaries of closed sessions -/

/-- The summary counts what is in the session. -/
structure Summarizes (row : SummaryRow) (session : SimulationSession) : Prop where
  violationsTotal : row.violationsTotal = violationsTotal session
  violationsUnresolved : row.violationsUnresolved = countUnresolvedViolations session
  coordEdgesWritten : row.coordEdgesWritten = coordEdgesWritten session

/-- The summary is one of a closed session. -/
def SummarizesClosed (w : World) (row : SummaryRow) : Prop :=
  ∃ session, w.sessions row.sessionId = some session ∧ session.status = .closed ∧
    Summarizes row session

/-- All summaries written in this run, and those about to be written, are of closed sessions. -/
structure SummariesSound (rows : List SummaryRow) (c : Loop host ι Response) : Prop where
  written : ∀ row ∈ c.store.pg.simulationSessionSummaries, row ∉ rows →
    SummarizesClosed c.store row
  issued : ∀ i, ∀ q ∈ (c.tasks i).awaited, ∀ row, .insertSimulationSessionSummary row ∈ q.writes →
    SummarizesClosed c.store row

theorem summarizesClosed_of_issued {row : SummaryRow}
    (h : (SqlWrite.insertSimulationSessionSummary row).Issued w) : SummarizesClosed w row := by
  obtain ⟨session, closedAt, hs, hclosed, hrow⟩ := h
  exact ⟨session, hs, hclosed, by rw [hrow]; rfl, by rw [hrow]; rfl, by rw [hrow]; rfl⟩

theorem serve_summaries {q : Sql} {row : SummaryRow}
    (h : row ∈ (World.serve q w).2.pg.simulationSessionSummaries) :
    row ∈ w.pg.simulationSessionSummaries ∨ .insertSimulationSessionSummary row ∈ q.writes := by
  by_contra hno
  rw [not_or] at hno
  have hkeeps := World.serve_keeps (q := q) (w := w)
    (R := Preserves fun pg : Postgres => row ∉ pg.simulationSessionSummaries)
    fun pg pg' wr hwr hwrite hrow => by
      rcases Postgres.write_summaries hwrite with ⟨row', rfl, hrows⟩ | hrows <;> rw [hrows]
      · rw [List.mem_append, List.mem_singleton]
        rintro (h | rfl)
        · exact hrow h
        · exact hno.2 hwr
      · exact hrow
  exact hkeeps hno.1 h

theorem SummariesSound.step {rows : List SummaryRow} (h : SummariesSound rows c)
    (hserves : Serves requests c)
    (hclosed : ∀ sessionId session, c.store.sessions sessionId = some session →
      session.status = .closed → (c.step i).store.sessions sessionId = some session) :
    SummariesSound rows (c.step i) := by
  have hstays {row : SummaryRow} : SummarizesClosed c.store row →
      SummarizesClosed (c.step i).store row :=
    fun ⟨session, hs, hstatus, hrow⟩ => ⟨session, hclosed _ _ hs hstatus, hstatus, hrow⟩
  refine ⟨fun row hrow hnew => ?_, fun j q hq row hwr => ?_⟩
  · rcases hserves.step_cases i with hs | ⟨-, hseg, -⟩ | ⟨q, k, hprog, -, hstore, -⟩
    · rw [hs] at hrow
      exact hstays (h.written row hrow hnew)
    · rw [hseg.pg] at hrow
      exact hstays (h.written row hrow hnew)
    · rw [hstore] at hrow
      rcases serve_summaries hrow with hrow | hwr
      · exact hstays (h.written row hrow hnew)
      · exact hstays (h.issued i q (Task.awaited_eq_some.mpr ⟨k, hprog⟩) row hwr)
  · by_cases hij : j = i
    · subst hij
      exact summarizesClosed_of_issued (Loop.Conforms.issued hserves hq _ hwr)
    · rw [Loop.step_tasks_ne c hij] at hq
      exact hstays (h.issued j q hq row hwr)

/-! ## A closed session is frozen -/

/-- A call that is made on a closed session does not return. -/
theorem Serves.closed_call {j : ι} (hcond : RespectsClosed requests c i)
    (hrequest : (requests j).sessionId = some sessionId)
    (hs : c.store.sessions sessionId = some session) (hclosed : session.status = .closed)
    (h : c.tasks j = ⟨(requests j).handle, none⟩ ∨ ∃ e, (c.tasks j).Ended (.error e)) :
    (c.step i).tasks j = ⟨(requests j).handle, none⟩ ∨
      ∃ e, ((c.step i).tasks j).Ended (.error e) := by
  by_cases hij : j = i
  · subst hij
    rcases h with h | ⟨e, he⟩
    · rcases Loop.step_cases c j with hstep | ⟨f, k, hprog, hstep⟩ | ⟨q, k, hprog, -⟩
      · exact .inl (by rw [hstep, h])
      · have hno := hcond (by simp [Task.inSegment, hprog])
        obtain ⟨e, w', hraises⟩ := closed_raises hrequest hs hclosed hno
        rw [h] at hprog
        rw [show (requests j).handle = _ from hprog] at hraises
        exact .inr ⟨e, by simp [Task.Ended, hstep, hraises]⟩
      · obtain ⟨f, k', hhandle⟩ := session_handle hrequest
        rw [h, hhandle] at hprog
        cases hprog
    · exact .inr ⟨e, by rw [Loop.step_ended he]; exact he⟩
  · rwa [Loop.step_tasks_ne c hij]

/-- What every run of the requests keeps, if no resolution reaches a violation of a closed
session. -/
structure Freezing (w : World) (requests : ι → Request) (c : Loop host ι Response) : Prop where
  serves : Serves requests c
  env : c.store.env = w.env
  drawn : SessionsDrawn c.store
  summaries : SummariesSound w.pg.simulationSessionSummaries c

omit [DecidableEq ι] in
theorem freezing_serving {w : World} (hw : ∀ sessionId, w.sessions sessionId = none)
    (requests : ι → Request) : Freezing w requests (serving w requests) where
  serves := serves_serving w requests
  env := rfl
  drawn _ _ h := absurd h (by simp [Loop.start, hw])
  summaries :=
    ⟨fun _ hrow hnew => absurd hrow hnew,
      fun _ _ hq _ hwr => summarizesClosed_of_issued (handle_issued hq _ hwr)⟩

theorem Freezing.closed_step (h : Freezing w requests c)
    (hdistinct : DistinctDraws w.env UUID.toText n) (hcond : RespectsClosed requests c i)
    (hn : (c.step i).store.tick ≤ n)
    (hs : c.store.sessions sessionId = some session) (hclosed : session.status = .closed) :
    (c.step i).store.sessions sessionId = some session ∧
      (c.step i).store.sessionAgents sessionId = c.store.sessionAgents sessionId :=
  h.serves.closed_step hcond h.drawn (h.env ▸ hdistinct) hn hs hclosed

theorem Freezing.step (h : Freezing w requests c) (hdistinct : DistinctDraws w.env UUID.toText n)
    (hcond : RespectsClosed requests c i) (hn : (c.step i).store.tick ≤ n) :
    Freezing w requests (c.step i) where
  serves := h.serves.step i
  env := (h.serves.persists i).env.trans h.env
  drawn := h.serves.step_keeps (fun _ _ _ he => he.sessionsDrawn)
    (fun _ q _ _ => serve_sessionsDrawn q) h.drawn
  summaries := h.summaries.step h.serves fun _ _ hs hclosed =>
    (h.closed_step hdistinct hcond hn hs hclosed).1

/-- The closed session, its contracts and the calls on it since the state `c0`. -/
structure FrozenSince (c0 : Loop host ι Response) (requests : ι → Request) (sessionId : String)
    (session : SimulationSession) (c : Loop host ι Response) : Prop where
  session : c.store.sessions sessionId = some session
  agents : c.store.sessionAgents sessionId = c0.store.sessionAgents sessionId
  calls : ∀ j, (requests j).sessionId = some sessionId →
    c0.tasks j = ⟨(requests j).handle, none⟩ →
    c.tasks j = ⟨(requests j).handle, none⟩ ∨ ∃ e, (c.tasks j).Ended (.error e)

theorem FrozenSince.step {c0 : Loop host ι Response}
    (h : FrozenSince c0 requests sessionId session c) (hfreezing : Freezing w requests c)
    (hclosed : session.status = .closed)
    (hdistinct : DistinctDraws w.env UUID.toText n) (hcond : RespectsClosed requests c i)
    (hn : (c.step i).store.tick ≤ n) : FrozenSince c0 requests sessionId session (c.step i) := by
  obtain ⟨hs, ha⟩ := hfreezing.closed_step hdistinct hcond hn h.session hclosed
  refine ⟨hs, ha.trans h.agents, fun j hj hfresh => ?_⟩
  exact Serves.closed_call hcond hj h.session hclosed (h.calls j hj hfresh)

/-- In every run in which no resolution reaches a violation of a closed session, a closed session
and its contracts stay as they are, a later call on it has not begun or has raised, and its summary
keeps agreeing with it. -/
theorem closed_is_frozen (w : World) (hw : ∀ sessionId, w.sessions sessionId = none)
    (requests : ι → Request) (pre post : List ι)
    (hdistinct : DistinctDraws w.env UUID.toText
      ((serving w requests).run (pre ++ post)).store.tick)
    (hcond : Loop.Meets (RespectsClosed requests) (serving w requests) (pre ++ post))
    (sessionId : String) (session : SimulationSession)
    (hs : ((serving w requests).run pre).store.sessions sessionId = some session)
    (hclosed : session.status = .closed) :
    ((serving w requests).run (pre ++ post)).store.sessions sessionId = some session ∧
    ((serving w requests).run (pre ++ post)).store.sessionAgents sessionId =
      ((serving w requests).run pre).store.sessionAgents sessionId ∧
    (∀ j, (requests j).sessionId = some sessionId →
      ((serving w requests).run pre).tasks j = ⟨(requests j).handle, none⟩ →
      ((serving w requests).run (pre ++ post)).tasks j = ⟨(requests j).handle, none⟩ ∨
        ∃ e, (((serving w requests).run (pre ++ post)).tasks j).Ended (.error e)) ∧
    ∀ row ∈ ((serving w requests).run (pre ++ post)).store.pg.simulationSessionSummaries,
      row ∉ w.pg.simulationSessionSummaries → row.sessionId = sessionId →
        Summarizes row session := by
  set n := ((serving w requests).run (pre ++ post)).store.tick with hn
  have hmeets : Loop.Meets (fun c i => RespectsClosed requests c i ∧ (c.step i).store.tick ≤ n)
      (serving w requests) (pre ++ post) := hcond.and ((serves_serving w requests).ticks le_rfl)
  obtain ⟨hpre, hpost⟩ := Loop.meets_append.mp hmeets
  have hfreezing : Freezing w requests ((serving w requests).run pre) :=
    hpre.invariant (fun _ _ hc hi => hc.step hdistinct hi.1 hi.2) (freezing_serving hw requests)
  have hrun := hpost.invariant
    (I := fun c => Freezing w requests c ∧
      FrozenSince ((serving w requests).run pre) requests sessionId session c)
    (fun _ _ ⟨hc, hfrozen⟩ hi =>
      ⟨hc.step hdistinct hi.1 hi.2, hfrozen.step hc hclosed hdistinct hi.1 hi.2⟩)
    ⟨hfreezing, hs, rfl, fun _ _ h => .inl h⟩
  rw [← Loop.run_append] at hrun
  obtain ⟨hend, hfrozen⟩ := hrun
  refine ⟨hfrozen.session, hfrozen.agents, hfrozen.calls, fun row hrow hnew hid => ?_⟩
  obtain ⟨session', hs', -, hsummarizes⟩ := hend.summaries.written row hrow hnew
  rw [hid, hfrozen.session, Option.some.injEq] at hs'
  exact hs' ▸ hsummarizes

theorem closed_is_frozen_after_close :
    ∃ session, ((serving (Sample.withTeam .approved)
        (simulation (.turn Sample.sessionId Sample.order "cook" []))).run
        [0, 0, 1, 2, 2, 2, 3]).store.sessions Sample.sessionId = some session ∧
      session.status = .closed := by
  have hstatus : (((serving (Sample.withTeam .approved)
      (simulation (.turn Sample.sessionId Sample.order "cook" []))).run
      [0, 0, 1, 2, 2, 2]).store.sessions Sample.sessionId).map (·.status) = some .closed := by
    decide +kernel
  obtain ⟨session, hs, hclosed⟩ := Option.map_eq_some_iff.mp hstatus
  exact ⟨session, (closed_is_frozen (Sample.withTeam .approved) (fun _ => rfl)
    (simulation (.turn Sample.sessionId Sample.order "cook" [])) [0, 0, 1, 2, 2, 2] [3]
    (by decide +kernel) (by decide +kernel) Sample.sessionId session hs hclosed).1, hclosed⟩

/-- A resolution does not look at the status: it changes the closed session, and the persisted
summary still reports the violation as unresolved. -/
theorem closed_is_resolved :
    ¬ ∀ pre post, ∀ session,
      ((serving (Sample.withTeam .approved)
        (simulation (.resolve Sample.sessionId 0 "mark_edge_case" none))).run pre).store.sessions
          Sample.sessionId = some session → session.status = .closed →
      ((serving (Sample.withTeam .approved)
        (simulation (.resolve Sample.sessionId 0 "mark_edge_case" none))).run
          (pre ++ post)).store.sessions Sample.sessionId = some session := by
  intro h
  have hstatus : (((serving (Sample.withTeam .approved)
      (simulation (.resolve Sample.sessionId 0 "mark_edge_case" none))).run
      [0, 0, 1, 2, 2, 2]).store.sessions Sample.sessionId).map (·.status) = some .closed := by
    decide +kernel
  obtain ⟨session, hs, hclosed⟩ := Option.map_eq_some_iff.mp hstatus
  have hsame := h [0, 0, 1, 2, 2, 2] [3] session hs hclosed
  exact absurd (hs.trans hsame.symm) (by decide +kernel)

end AgentWorx
