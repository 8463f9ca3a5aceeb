import AgentWorx.Verify.Session

/-!
# One summary for a session

`close_session` marks the session as closed in a segment and inserts its summary in a statement, and
any number of requests may close the session at once. `Filing` says how far that has come: nobody is
on it, one request is about to insert the summary, or it has. No other state can be reached, so a
session has at most one summary, and the request that inserted it is the only one that returned.
-/

namespace AgentWorx

open Coop Coop.Sync

variable {request : Request} {l : Option (Event host)} {w w' : World} {sessionId : String} {n : Nat}

/-! ## Rows of a session -/

def World.summariesOf (w : World) (sessionId : String) : List SummaryRow :=
  w.pg.simulationSessionSummaries.filter (·.sessionId = sessionId)

/-- What `close_session` returns once it has inserted the row. -/
def SummaryRow.closeResult (row : SummaryRow) : CloseResult where
  sessionId := row.sessionId
  coordEdgesWritten := row.coordEdgesWritten
  observationsCaptured := row.observationsCaptured
  violationsTotal := row.violationsTotal
  violationsUnresolved := row.violationsUnresolved

/-- A statement that inserts no summary of the session leaves its summaries as they are. -/
theorem serve_summariesOf {q : Sql}
    (h : ∀ row, .insertSimulationSessionSummary row ∈ q.writes → row.sessionId ≠ sessionId) :
    (World.serve q w).2.summariesOf sessionId = w.summariesOf sessionId := by
  refine World.serve_keeps (R := Same fun pg : Postgres =>
    pg.simulationSessionSummaries.filter (·.sessionId = sessionId)) fun pg pg' wr hwr hwrite => ?_
  rcases Postgres.write_summaries hwrite with ⟨row, rfl, hrows⟩ | hrows
  · simp [Same, hrows, h row hwr]
  · simp only [Same, hrows]

theorem serve_summary_row {row : SummaryRow} (hid : row.sessionId = sessionId) :
    (∃ e, (World.serve (.execute (.insertSimulationSessionSummary row)) w).1 = .error e ∧
      (World.serve (.execute (.insertSimulationSessionSummary row)) w).2.summariesOf sessionId =
        w.summariesOf sessionId) ∨
    (World.serve (.execute (.insertSimulationSessionSummary row)) w).1 = .ok () ∧
      (World.serve (.execute (.insertSimulationSessionSummary row)) w).2.summariesOf sessionId =
        w.summariesOf sessionId ++ [row] := by
  rcases World.serve_write (.insertSimulationSessionSummary row) w with ⟨e, he⟩ | ⟨pg, hpg, he⟩
  · rw [he]
    exact .inl ⟨e, rfl, rfl⟩
  · rw [he]
    refine .inr ⟨rfl, ?_⟩
    simp only [Postgres.write, except_bind_eq_ok] at hpg
    obtain ⟨_, -, _, -, hpg⟩ := hpg
    cases hpg
    simp [World.summariesOf, hid]

/-! ## Closed sessions -/

def Closed (w : World) (sessionId : String) : Prop :=
  ∃ session, w.sessions sessionId = some session ∧ session.status = .closed

theorem SimulationSession.resolve_status (session : SimulationSession)
    (lastTurn : SimulationTurnResult) (index : Nat) (violation : ContractViolation)
    (resolution : String) (clarification : Option String) (coordEdgeWritten : Bool) :
    (session.resolve lastTurn index violation resolution clarification coordEdgeWritten).status =
      session.status := by
  cases coordEdgeWritten <;> rfl

/-- A closed session stays closed, as long as no new session takes its id. -/
theorem Effect.closed (he : Effect request l w w') (hdrawn : SessionsDrawn w)
    (hdistinct : DistinctDraws w.env UUID.toText n) (hn : w'.tick ≤ n)
    (h : Closed w sessionId) : Closed w' sessionId := by
  obtain ⟨session, hs, hclosed⟩ := h
  rcases he.session_stays hdrawn hdistinct hn hs with hs' | ⟨agents, session', agents', hstep, hs'⟩
  · exact ⟨session, hs', hclosed⟩
  · cases hstep with
    | turn hactive _ => cases hclosed.symm.trans hactive
    | close hactive => cases hclosed.symm.trans hactive
    | resolve => exact ⟨_, hs', (session.resolve_status ..).trans hclosed⟩

theorem Segment.closed_stays (hseg : Segment request l w w') (hdrawn : SessionsDrawn w)
    (hdistinct : DistinctDraws w.env UUID.toText n) (hn : w'.tick ≤ n)
    (h : Closed w sessionId) : Closed w' sessionId := by
  suffices hboth : SessionsDrawn w' ∧ Closed w' sessionId from hboth.2
  induction hseg with
  | refl => exact ⟨hdrawn, h⟩
  | @tail w1 w2 hseg he ih =>
    obtain ⟨hdrawn1, h1⟩ := ih (he.persists.tick.trans hn)
    have hdistinct1 : DistinctDraws w1.env UUID.toText n := by
      rwa [(Segment.persists hseg).env]
    exact ⟨he.sessionsDrawn hdrawn1, he.closed hdrawn1 hdistinct1 hn h1⟩

/-- A session that can be closed was not, and is afterwards. -/
theorem flushSession_closes {row : SummaryRow}
    (h : (flushSession sessionId).exec w = (.ok row, w')) :
    ¬ Closed w sessionId ∧ Closed w' sessionId ∧ row.sessionId = sessionId := by
  rcases flushSession_cases sessionId w with ⟨e, he⟩ |
    ⟨session, agents, hs, -, hactive, ⟨e, w1, -, he⟩ | ⟨w1, w2, edges, closedAt, -, -, he⟩⟩ <;>
    rw [he] at h <;> cases h
  refine ⟨?_, ⟨_, Function.update_self .., rfl⟩, rfl⟩
  rintro ⟨session', hs', hclosed⟩
  obtain rfl := Option.some.inj (hs.symm.trans hs')
  cases hclosed.symm.trans hactive

/-! ## One request to close -/

/-- After its first segment a request to close a session is left with inserting the summary, and
returns the row if that succeeds. -/
theorem close_settle_ok {row : SummaryRow} (h : (flushSession sessionId).exec w = (.ok row, w')) :
    ∃ k, (Request.close sessionId).handle.settle w =
        (.await (.execute (.insertSimulationSessionSummary row)) k, w') ∧
      k (.ok ()) = .done (.ok (.close row.closeResult)) ∧
      ∀ e, ∃ e', k (.error e) = .done (.error e') := by
  have hclose : ∃ k, (closeSession sessionId).settle w =
      (.await (.execute (.insertSimulationSessionSummary row)) k, w') ∧
      k (.ok ()) = .done (.ok row.closeResult) ∧ ∀ e, k (.error e) = .done (.error e) := by
    change ∃ k, (Async.lift (flushSession sessionId) >>= _ : Coro CloseResult).settle w = _ ∧ _
    rw [Async.settle_bind, Async.settle_lift, h]
    exact ⟨_, rfl, rfl, fun e => rfl⟩
  obtain ⟨k, hk, hok, herror⟩ := hclose
  change ∃ k, (withHttp _ (closeSession sessionId) >>= _ : Coro Response).settle w = _ ∧ _
  rw [Async.settle_bind, withHttp, Async.settle_tryCatch, hk]
  refine ⟨_, rfl, ?_, fun e => ?_⟩
  · dsimp only
    rw [hok]
    rfl
  · dsimp only
    rw [herror]
    exact ⟨_, rfl⟩

variable {ι : Type} [DecidableEq ι] {requests : ι → Request} {c : Loop host ι Response} {i j : ι}

/-- The request does not close the session, has not begun, or has raised. -/
def Quiet (sessionId : String) (requests : ι → Request) (c : Loop host ι Response) (j : ι) : Prop :=
  requests j = .close sessionId → c.tasks j = ⟨(requests j).handle, none⟩ ∨
    ∃ e, (c.tasks j).Ended (.error e)

/-- The request is about to insert the summary of the session. -/
structure Filing (sessionId : String) (requests : ι → Request) (c : Loop host ι Response) (i : ι)
    (row : SummaryRow) : Prop where
  request : requests i = .close sessionId
  closed : Closed c.store sessionId
  id : row.sessionId = sessionId
  waits : ∃ k, (c.tasks i).prog = .await (.execute (.insertSimulationSessionSummary row)) k ∧
    k (.ok ()) = .done (.ok (.close row.closeResult)) ∧ ∀ e, ∃ e', k (.error e) = .done (.error e')

/-- The request has closed the session: it is about to insert the summary, or it has. -/
inductive Closes (sessionId : String) (requests : ι → Request) (c : Loop host ι Response) (i : ι)
    (row : SummaryRow) : Prop
  | filing (hrows : c.store.summariesOf sessionId = []) (h : Filing sessionId requests c i row)
  | filed (hrows : c.store.summariesOf sessionId = [row]) (hrequest : requests i = .close sessionId)
      (hclosed : Closed c.store sessionId)
      (hreturned : (c.tasks i).Ended (.ok (.close row.closeResult)))

/-- How far the closing of a session has come. -/
def Filed (sessionId : String) (requests : ι → Request) (c : Loop host ι Response) : Prop :=
  (c.store.summariesOf sessionId = [] ∧ ∀ j, Quiet sessionId requests c j) ∨
  ∃ i row, Closes sessionId requests c i row ∧ ∀ j, j ≠ i → Quiet sessionId requests c j

omit [DecidableEq ι] in
theorem close_handle (h : requests i = .close sessionId) :
    ∃ f k, (requests i).handle = .sync f k := by
  have hsession : (requests i).sessionId = some sessionId := by
    rw [h]
    rfl
  exact session_handle hsession

omit [DecidableEq ι] in
/-- A quiet request that closes the session awaits nothing. -/
theorem Quiet.awaited (h : Quiet sessionId requests c i) (hclose : requests i = .close sessionId) :
    (c.tasks i).awaited = none := by
  rcases h hclose with hnew | ⟨e, he⟩
  · obtain ⟨f, k, hhandle⟩ := close_handle hclose
    rw [hnew, Task.awaited, hhandle]
  · rw [Task.awaited, show (c.tasks i).prog = _ from he]

/-- Only a request that closes the session and awaits a statement touches its summaries. -/
theorem Serves.summariesOf_step (hserves : Serves requests c)
    (h : requests i = .close sessionId → (c.tasks i).awaited = none) :
    (c.step i).store.summariesOf sessionId = c.store.summariesOf sessionId := by
  rcases hserves.step_cases i with hs | ⟨-, hseg, -⟩ | ⟨q, k, hprog, hallowed, hstore, -⟩
  · rw [hs]
  · simp only [World.summariesOf, hseg.pg]
  · rw [hstore]
    refine serve_summariesOf fun row hwr hid => ?_
    have hclose : requests i = .close row.sessionId := hallowed _ hwr
    have hnone := h (hid ▸ hclose)
    rw [Task.awaited, hprog] at hnone
    cases hnone

/-- The first step of a request to close a session: it raises, or an active session is closed and
its summary is about to be inserted. -/
theorem close_first (hclose : requests i = .close sessionId)
    (hnew : c.tasks i = ⟨(requests i).handle, none⟩) :
    (∃ e, ((c.step i).tasks i).Ended (.error e)) ∨
    ¬ Closed c.store sessionId ∧ ∃ row, Filing sessionId requests (c.step i) i row := by
  have htask : c.tasks i = ⟨(Request.close sessionId).handle, none⟩ := by rw [hnew, hclose]
  rcases close_step htask with ⟨e, e', -, hended⟩ | ⟨row, -, hflush, -, -⟩
  · exact .inl ⟨e', hended⟩
  · obtain ⟨k, hsettle, hreturns⟩ := close_settle_ok hflush
    obtain ⟨f, k', hhandle⟩ := close_handle hclose
    have hprog := (Loop.step_segment (c := c) (i := i) (by rw [hnew]; exact hhandle)).2
    rw [htask, hsettle] at hprog
    obtain ⟨hactive, hclosed, hid⟩ := flushSession_closes hflush
    exact .inr ⟨hactive, row, hclose, hclosed, hid, k, hprog, hreturns⟩

/-- A step of another request leaves a quiet one as it is. -/
theorem Quiet.step_ne (h : Quiet sessionId requests c j) (hij : j ≠ i) :
    Quiet sessionId requests (c.step i) j := by
  intro hj
  rw [Loop.step_tasks_ne c hij]
  exact h hj

/-- A quiet request stays quiet, or closes the session and is about to insert its summary. -/
theorem Quiet.step (h : Quiet sessionId requests c i) :
    Quiet sessionId requests (c.step i) i ∨
    ¬ Closed c.store sessionId ∧ ∃ row, Filing sessionId requests (c.step i) i row := by
  by_cases hclose : requests i = .close sessionId
  · rcases h hclose with hnew | ⟨e, he⟩
    · exact (close_first hclose hnew).imp_left fun hended _ => .inr hended
    · exact .inl fun _ => .inr ⟨e, by rwa [Loop.step_ended he]⟩
  · exact .inl fun h => absurd h hclose

/-- The insert is refused and the request raises, or the summary is stored and the request returns
it. -/
theorem Filing.step {row : SummaryRow} (h : Filing sessionId requests c i row) :
    (Quiet sessionId requests (c.step i) i ∧
      (c.step i).store.summariesOf sessionId = c.store.summariesOf sessionId) ∨
    ((c.step i).tasks i).Ended (.ok (.close row.closeResult)) ∧
      (c.step i).store.summariesOf sessionId = c.store.summariesOf sessionId ++ [row] := by
  obtain ⟨k, hprog, hok, herror⟩ := h.waits
  have hstep := Loop.step_await hprog
  have hstore : (c.step i).store =
      (World.serve (.execute (.insertSimulationSessionSummary row)) c.store).2 := by
    simp [Loop.step, hprog]
  rw [hstore]
  rcases serve_summary_row (w := c.store) h.id with ⟨e, he, hrows⟩ | ⟨hu, hrows⟩
  · obtain ⟨e', he'⟩ := herror e
    exact .inl ⟨fun _ => .inr ⟨e', (hstep.trans (congrArg k he)).trans he'⟩, hrows⟩
  · exact .inr ⟨(hstep.trans (congrArg k hu)).trans hok, hrows⟩

omit [DecidableEq ι] in
theorem Closes.closed {row : SummaryRow} (h : Closes sessionId requests c i row) :
    Closed c.store sessionId := by
  cases h with
  | filing _ h => exact h.closed
  | filed _ _ hclosed _ => exact hclosed

/-- A step that leaves the request, its session and the summaries alone. -/
theorem Closes.step_ne {row : SummaryRow} (h : Closes sessionId requests c i row) (hij : i ≠ j)
    (hclosed : Closed (c.step j).store sessionId)
    (hsame : (c.step j).store.summariesOf sessionId = c.store.summariesOf sessionId) :
    Closes sessionId requests (c.step j) i row := by
  have htask := Loop.step_tasks_ne c hij
  cases h with
  | filing hrows h => exact .filing (hsame.trans hrows) ⟨h.request, hclosed, h.id, htask ▸ h.waits⟩
  | filed hrows hrequest _ hreturned =>
    exact .filed (hsame.trans hrows) hrequest hclosed (htask ▸ hreturned)

/-! ## All requests together -/

theorem Serves.closed_stays (hserves : Serves requests c) (hdrawn : SessionsDrawn c.store)
    (hdistinct : DistinctDraws c.store.env UUID.toText n) (hn : (c.step i).store.tick ≤ n)
    (h : Closed c.store sessionId) : Closed (c.step i).store sessionId := by
  rcases hserves.step_cases i with hs | ⟨-, hseg, -⟩ | ⟨q, k, -, -, hstore, -⟩
  · rwa [hs]
  · exact hseg.closed_stays hdrawn hdistinct hn h
  · rw [hstore]
    obtain ⟨session, hs, hclosed⟩ := h
    exact ⟨session, by rwa [World.serve_sessions], hclosed⟩

/-- If the request that takes the step stays quiet, so does every other. -/
theorem Quiet.step_of (hi : Quiet sessionId requests (c.step i) i)
    (hj : j ≠ i → Quiet sessionId requests c j) : Quiet sessionId requests (c.step i) j := by
  by_cases hij : j = i
  · exact hij ▸ hi
  · exact (hj hij).step_ne hij

theorem Filed.step (h : Filed sessionId requests c) (hserves : Serves requests c)
    (hstays : Closed c.store sessionId → Closed (c.step i).store sessionId) :
    Filed sessionId requests (c.step i) := by
  rcases h with ⟨hrows, hquiet⟩ | ⟨k, row, hcloses, hquiet⟩
  · have hsame := hserves.summariesOf_step (hquiet i).awaited
    rcases (hquiet i).step with hi | ⟨-, row, hfiling⟩
    · exact .inl ⟨hsame.trans hrows, fun j => hi.step_of fun _ => hquiet j⟩
    · exact .inr ⟨i, row, .filing (hsame.trans hrows) hfiling, fun j hj => (hquiet j).step_ne hj⟩
  · by_cases hik : i = k
    · subst hik
      cases hcloses with
      | filing hrows hfiling =>
        rcases hfiling.step with ⟨hi, hsame⟩ | ⟨hreturned, hadds⟩
        · exact .inl ⟨hsame.trans hrows, fun j => hi.step_of (hquiet j)⟩
        · refine .inr ⟨i, row, .filed (by rw [hadds, hrows]; rfl) hfiling.request
            (hstays hfiling.closed) hreturned, fun j hj => (hquiet j hj).step_ne hj⟩
      | filed hrows hrequest hclosed hreturned =>
        have hsame : c.step i = c := by simp [Loop.step, show (c.tasks i).prog = _ from hreturned]
        rw [hsame]
        exact .inr ⟨i, row, .filed hrows hrequest hclosed hreturned, hquiet⟩
    · -- the session is closed, so that nobody else can close it
      have hi := hquiet i hik
      have hsame := hserves.summariesOf_step hi.awaited
      rcases hi.step with hi | ⟨hopen, -⟩
      · exact .inr ⟨k, row, hcloses.step_ne (Ne.symm hik) (hstays hcloses.closed) hsame,
          fun j hj => hi.step_of fun _ => hquiet j hj⟩
      · exact absurd hcloses.closed hopen

omit [DecidableEq ι] in
/-- A quiet request to close the session has not returned. -/
theorem Quiet.not_returned (h : Quiet sessionId requests c i)
    (hclose : requests i = .close sessionId) : ¬ (c.tasks i).Returned := by
  rintro ⟨a, ha⟩
  rcases h hclose with hnew | ⟨e, he⟩
  · obtain ⟨f, k, hhandle⟩ := close_handle hclose
    rw [Task.Ended, hnew, hhandle] at ha
    cases ha
  · cases ha.symm.trans he

/-- However many requests close a session, and whatever else is requested and fails meanwhile: as
long as none of them has returned the session has no summary, and after one of them has, it has
exactly the summary which that request returned, and no other request to close it returns. -/
theorem session_filed_once (w : World) (hdrawn : SessionsDrawn w) (requests : ι → Request)
    (sessionId : String) (hfresh : w.summariesOf sessionId = []) (sched : List ι)
    (hdistinct : DistinctDraws w.env UUID.toText ((serving w requests).run sched).store.tick) :
    (((serving w requests).run sched).store.summariesOf sessionId = [] ∧
      ∀ i, requests i = .close sessionId →
        ¬ (((serving w requests).run sched).tasks i).Returned) ∨
    ∃ i row, requests i = .close sessionId ∧
      ((serving w requests).run sched).store.summariesOf sessionId = [row] ∧
      (((serving w requests).run sched).tasks i).Ended (.ok (.close row.closeResult)) ∧
      ∀ j, requests j = .close sessionId →
        (((serving w requests).run sched).tasks j).Returned → j = i := by
  set n := ((serving w requests).run sched).store.tick
  have hstep (c : Loop host ι Response) (i : ι)
      (h : Serves requests c ∧ c.store.env = w.env ∧ SessionsDrawn c.store ∧
        Filed sessionId requests c) (hn : (c.step i).store.tick ≤ n) :
      Serves requests (c.step i) ∧ (c.step i).store.env = w.env ∧ SessionsDrawn (c.step i).store ∧
        Filed sessionId requests (c.step i) := by
    obtain ⟨hserves, henv, hdrawn, hfiled⟩ := h
    refine ⟨hserves.step i, (hserves.persists i).env.trans henv, ?_, ?_⟩
    · exact hserves.step_keeps (fun _ _ _ he => he.sessionsDrawn)
        (fun _ q _ _ => serve_sessionsDrawn q) hdrawn
    · refine hfiled.step hserves (hserves.closed_stays hdrawn ?_ hn)
      rwa [henv]
  have hstart : Filed sessionId requests (serving w requests) :=
    .inl ⟨hfresh, fun _ _ => .inl rfl⟩
  obtain ⟨-, -, -, hfiled⟩ := ((serves_serving w requests).ticks le_rfl).invariant hstep
    ⟨serves_serving w requests, rfl, hdrawn, hstart⟩
  set c := (serving w requests).run sched
  rcases hfiled with ⟨hrows, hquiet⟩ | ⟨i, row, hcloses, hquiet⟩
  · exact .inl ⟨hrows, fun i => (hquiet i).not_returned⟩
  · have hother (j : ι) (hclose : requests j = .close sessionId) (h : (c.tasks j).Returned) :
        j = i := by
      by_contra hij
      exact (hquiet j hij).not_returned hclose h
    cases hcloses with
    | filing hrows hfiling =>
      refine .inl ⟨hrows, fun j hclose h => ?_⟩
      obtain rfl := hother j hclose h
      obtain ⟨k, hprog, -⟩ := hfiling.waits
      obtain ⟨a, ha⟩ := h
      cases ha.symm.trans hprog
    | filed hrows hrequest _ hreturned =>
      exact .inr ⟨i, row, hrequest, hrows, hreturned, hother⟩

/-- Two requests to close the session of the sample run, the second while the first waits. -/
theorem session_filed_once_of_two :
    ∃ row, ((serving (Sample.withTeam .approved)
        (simulation (.close Sample.sessionId))).run [0, 0, 2, 3, 2]).store.summariesOf
      Sample.sessionId = [row] := by
  rcases session_filed_once (Sample.withTeam .approved) (fun _ _ h => by cases h)
      (simulation (.close Sample.sessionId)) Sample.sessionId rfl [0, 0, 2, 3, 2]
      (by decide +kernel) with ⟨-, hnone⟩ | ⟨i, row, -, hrows, -⟩
  · exact absurd (by decide +kernel) (hnone 2 rfl)
  · exact ⟨row, hrows⟩

end AgentWorx
