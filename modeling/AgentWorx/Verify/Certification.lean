import Mathlib.Data.Fintype.Basic
import AgentWorx.Verify.Requests
import AgentWorx.Verify.Sample

/-!
# The certification gate

Which steps change the phase of an agent type, the record behind every journeyman, and the two races
of the gate: a creation that resumes after the approval, and decisions that overtake each other
between the phase check and the insertion.
-/

namespace AgentWorx

open Coop

variable {request : Request} {l : Option (Event host)} {w w' : World} {name : String}

/-! ## The phase -/

/-- An expert has approved the agent type at the first gate. -/
structure Approves (row : CertEventRow) (agentType : String) : Prop where
  agentType : row.agentType = agentType
  gate : row.gate = .cert1
  decision : row.decision = .approved
  expertId : row.expertId ≠ ""

theorem CertApproveRequest.expertId_ne (body : CertApproveRequest) : body.expertId ≠ "" := by
  intro h
  have := body.expertId_length
  simp [h] at this

def Request.creates (name : String) : Request → Bool
  | .create payload => payload.name = name
  | _ => false

/-- The last statement is the accepted INSERT of a creation. -/
def insertedAgentType : Option (Event host) → Bool
  | some ⟨.execute (.insertAgentType _), .ok _⟩ => true
  | _ => false

/-- A creation of `name` resumes from its accepted INSERT. -/
def ResumesCreation (request : Request) (l : Option (Event host)) (name : String) : Prop :=
  request.creates name ∧ insertedAgentType l

/-- The three ways an effect treats the certification state of `name`: it leaves it alone, a
creation starts it over, or an approval with a recorded event graduates it. -/
theorem Effect.certification (h : Effect request l w w') (name : String) :
    (readPhase w'.redis name = readPhase w.redis name ∧
      readLearningRate w'.redis name = readLearningRate w.redis name) ∨
    (ResumesCreation request l name ∧ (readPhase w'.redis name = readPhase w.redis name ∨
      readPhase w'.redis name = .text Phase.apprentice.value)) ∨
    (Graduated w' name ∧ ∃ body row, request = .cert1Approve name body ∧
      l = some ⟨.execute (.insertCertEvent row), .ok ()⟩ ∧ row ∈ w.pg.certEvents ∧
      Approves row name) := by
  cases h with
  | tick | knowledge | start | session => exact .inl ⟨rfl, rfl⟩
  | @schema payload =>
    have := (initializeSchema_provisions payload.name w).redis
    exact .inl (by rw [this]; exact ⟨rfl, rfl⟩)
  | flush _ _ _ _ hstep => exact .inl (by cases hstep <;> exact ⟨rfl, rfl⟩)
  | score _ h =>
    have h1 := h.1.symm
    have h2 := h.2.symm
    exact .inl (by simp [readPhase, readLearningRate, h1, h2])
  | @reset payload row field value hrequest hlast hname hphase =>
    by_cases hn : payload.name = name
    · refine .inr (.inl ⟨⟨by simp [hrequest, Request.creates, hn], ?_⟩, ?_⟩)
      · simp [hlast, insertedAgentType]
      by_cases hfield : field = .phase
      · refine .inr ?_
        subst hn hfield
        rcases hphase rfl with rfl | rfl <;>
          simp [readPhase, RedisValue.orDefault, Phase.value]
      · exact .inl (by simp [readPhase, Ne.symm hfield])
    · exact .inl (by simp [readPhase, readLearningRate, Ne.symm hn])
  | @graduate row body hrequest hlast hrow hgate hdecision hexpert =>
    by_cases hn : row.agentType = name
    · subst hn
      exact .inr (.inr ⟨graduated_setPhase _ _, body, row, hrequest, hlast, hrow, rfl, hgate,
        hdecision, hexpert ▸ body.expertId_ne⟩)
    · exact .inl (by simp [readPhase, readLearningRate, World.setPhase, Ne.symm hn])

/-- A segment that does not resume a creation of `name` leaves the state alone or graduates it. -/
theorem Segment.certification (h : Segment request l w w')
    (hno : ¬ ResumesCreation request l name) :
    (readPhase w'.redis name = readPhase w.redis name ∧
      readLearningRate w'.redis name = readLearningRate w.redis name) ∨ Graduated w' name := by
  induction h with
  | refl => exact .inl ⟨rfl, rfl⟩
  | tail _ he ih =>
    rcases he.certification name with ⟨hphase, hrate⟩ | ⟨hresumes, -⟩ | ⟨hgraduated, -⟩
    · rcases ih with ⟨hp, hr⟩ | hg
      · exact .inl ⟨hphase.trans hp, hrate.trans hr⟩
      · exact .inr ⟨hphase.trans hg.phase, hrate.trans hg.learningRate⟩
    · exact absurd hresumes hno
    · exact .inr hgraduated

/-- A segment that makes a journeyman is one of an approval of the type, after the accepted INSERT
of its event. -/
theorem Segment.journeyman (h : Segment request l w w')
    (hw : readPhase w'.redis name = .text Phase.journeyman.value) :
    readPhase w.redis name = .text Phase.journeyman.value ∨
    ∃ body row, request = .cert1Approve name body ∧
      l = some ⟨.execute (.insertCertEvent row), .ok ()⟩ ∧ Approves row name := by
  induction h with
  | refl => exact .inl hw
  | tail _ he ih =>
    rcases he.certification name with
      ⟨hphase, -⟩ | ⟨-, hphase | hphase⟩ | ⟨-, body, row, hr, hl, -, happroves⟩
    · exact ih (hphase ▸ hw)
    · exact ih (hphase ▸ hw)
    · rw [hphase] at hw
      exact absurd hw (by decide)
    · exact .inr ⟨body, row, hr, hl, happroves⟩

/-! ## Every journeyman has a recorded approval -/

variable {ι : Type} [DecidableEq ι]

/-- Every journeyman has been approved by a named expert. -/
def Recorded (w : World) : Prop :=
  ∀ name, readPhase w.redis name = .text Phase.journeyman.value →
    ∃ row ∈ w.pg.certEvents, Approves row name

theorem Effect.recorded (h : Effect request l w w') (hw : Recorded w) : Recorded w' := by
  intro name hname
  have hrows := h.persists.certEvents
  rcases h.certification name with
    ⟨hphase, -⟩ | ⟨-, hphase | hphase⟩ | ⟨-, -, row, -, -, hrow, happroves⟩
  · obtain ⟨row, hrow, h⟩ := hw name (hphase ▸ hname)
    exact ⟨row, hrows row hrow, h⟩
  · obtain ⟨row, hrow, h⟩ := hw name (hphase ▸ hname)
    exact ⟨row, hrows row hrow, h⟩
  · rw [hphase] at hname
    exact absurd hname (by decide)
  · exact ⟨row, hrows row hrow, happroves⟩

theorem serve_recorded (q : Sql) (hw : Recorded w) : Recorded (World.serve q w).2 := by
  intro name hname
  obtain ⟨row, hrow, h⟩ := hw name (by simpa using hname)
  exact ⟨row, (serve_persists q w).certEvents row hrow, h⟩

theorem recorded_run (env : Env) (requests : ι → Request) (sched : List ι) :
    Recorded ((serving (.initial env) requests).run sched).store := by
  refine (serves_serving _ requests).invariant (fun _ _ _ _ he => he.recorded)
    (fun _ _ q _ _ => serve_recorded q) ?_ sched
  intro name h
  change readPhase (fun _ => none) name = _ at h
  exact absurd h (by simp [readPhase, RedisValue.orDefault, Phase.value])

/-- In every state that any requests can reach in any order and with any failures, a journeyman has
a recorded approval, and only an approval of the type itself makes it one. -/
theorem graduation_is_certified (env : Env) (requests : ι → Request) (sched : List ι)
    (name : String) :
    let c := (serving (.initial env) requests).run sched
    (readPhase c.store.redis name = .text Phase.journeyman.value →
      ∃ row ∈ c.store.pg.certEvents, row.agentType = name ∧ row.gate = .cert1 ∧
        row.decision = .approved ∧ row.expertId ≠ "") ∧
    ∀ i, readPhase c.store.redis name ≠ .text Phase.journeyman.value →
      readPhase (c.step i).store.redis name = .text Phase.journeyman.value →
      ∃ body, requests i = .cert1Approve name body := by
  intro c
  have hserves : Serves requests c := (serves_serving _ requests).run sched
  constructor
  · intro h
    obtain ⟨row, hrow, happroves⟩ := recorded_run env requests sched name h
    exact ⟨row, hrow, happroves.agentType, happroves.gate, happroves.decision, happroves.expertId⟩
  · intro i hbefore hafter
    rcases hserves.step_cases i with hs | ⟨-, hseg, -⟩ | ⟨q, k, -, -, hstore, -⟩
    · rw [hs] at hafter
      exact absurd hafter hbefore
    · obtain ⟨body, row, hrequest, -⟩ := (hseg.journeyman hafter).resolve_left hbefore
      exact ⟨body, hrequest⟩
    · rw [hstore, World.serve_redis] at hafter
      exact absurd hafter hbefore

/-! ## A graduation lasts unless a creation resumes -/

/-- The step of task `i` takes a creation of `name` up again after its INSERT, although the type is
already a journeyman. -/
def RestartsJourneyman (requests : ι → Request) (name : String) (c : Loop host ι Response) (i : ι) :
    Prop :=
  ResumesCreation (requests i) (c.tasks i).last name ∧ (c.tasks i).inSegment ∧
    readPhase c.store.redis name = .text Phase.journeyman.value

instance (requests : ι → Request) (name : String) (c : Loop host ι Response) (i : ι) :
    Decidable (RestartsJourneyman requests name c i) :=
  inferInstanceAs (Decidable ((_ ∧ _) ∧ _ ∧ _))

variable {requests : ι → Request} {c : Loop host ι Response}

/-- A graduation survives every step but one that restarts the type. -/
theorem Serves.graduated_step (h : Serves requests c) {i : ι}
    (hno : ¬ RestartsJourneyman requests name c i) (hw : Graduated c.store name) :
    Graduated (c.step i).store name := by
  rcases h.step_cases i with hs | ⟨⟨f, k, hprog⟩, hseg, -⟩ | ⟨q, k, -, -, hstore, -⟩
  · rwa [hs]
  · have hresumes : ¬ ResumesCreation (requests i) (c.tasks i).last name :=
      fun hr => hno ⟨hr, by simp [Task.inSegment, hprog], hw.phase⟩
    rcases hseg.certification hresumes with ⟨hphase, hrate⟩ | hgraduated
    · exact ⟨hphase.trans hw.phase, hrate.trans hw.learningRate⟩
    · exact hgraduated
  · rw [hstore]
    exact ⟨by simpa using hw.phase, by simpa using hw.learningRate⟩

/-- Once an approval of `name` has returned, the type is a journeyman: a step keeps this. -/
theorem Serves.returned_step (h : Serves requests c) {i j : ι} {body : CertApproveRequest}
    (hj : requests j = .cert1Approve name body) (hno : ¬ RestartsJourneyman requests name c i)
    (hc : (c.tasks j).Returned → Graduated c.store name)
    (hreturned : ((c.step i).tasks j).Returned) : Graduated (c.step i).store name := by
  by_cases hbefore : (c.tasks j).Returned
  · exact h.graduated_step hno (hc hbefore)
  · -- the approval returns with this step
    obtain ⟨a, ha⟩ := hreturned
    have hij : j = i := by
      by_contra hij
      rw [Loop.step_tasks_ne c hij] at ha
      exact hbefore ⟨a, ha⟩
    subst hij
    have hrunning : ∀ r, ¬ (c.tasks j).Ended r := by
      intro r hr
      rw [Loop.step_ended hr j] at ha
      exact hbefore ⟨a, ha⟩
    exact Loop.Conforms.ended h hrunning ha name body a hj rfl

/-- In every run in which no creation of `name` resumes from its INSERT while the type is a
journeyman, a type whose approval has returned stays one. -/
theorem graduation_lasts (w : World) (requests : ι → Request) (name : String) (sched : List ι)
    (hcond : Loop.Meets (fun c i => ¬ RestartsJourneyman requests name c i)
      (serving w requests) sched) {i : ι} {body : CertApproveRequest}
    (hi : requests i = .cert1Approve name body)
    (hreturned : (((serving w requests).run sched).tasks i).Returned) :
    Graduated ((serving w requests).run sched).store name := by
  have hinv := hcond.invariant
    (I := fun c => Serves requests c ∧ ((c.tasks i).Returned → Graduated c.store name))
    (fun c j ⟨hserves, hc⟩ hj => ⟨hserves.step j, hserves.returned_step hi hj hc⟩)
    ⟨serves_serving w requests, fun ⟨a, h⟩ => ?_⟩
  · exact hinv.2 hreturned
  · change (requests i).handle = _ at h
    rw [hi] at h
    cases h

/-- A creation and an approval of the same type. -/
def creationAndApproval : Fin 2 → Request
  | 0 => .create Sample.shop
  | 1 => .cert1Approve "shop" Sample.approval

theorem graduation_lasts_after_creation :
    Loop.Meets (fun c i => ¬ RestartsJourneyman creationAndApproval "shop" c i)
      (serving (.initial Sample.env) creationAndApproval) [0, 0, 0, 0, 0, 1, 1, 1, 1] ∧
    Graduated ((serving (.initial Sample.env) creationAndApproval).run
      [0, 0, 0, 0, 0, 1, 1, 1, 1]).store "shop" :=
  ⟨by decide, graduation_lasts (.initial Sample.env) creationAndApproval "shop"
    [0, 0, 0, 0, 0, 1, 1, 1, 1] (by decide) (i := 1) rfl (by decide)⟩

/-- The approval runs between the INSERT of the creation and its next segment, which then writes the
phase back. -/
theorem graduation_undone_by_creation :
    ¬ ∀ sched,
      (((serving (.initial Sample.env) creationAndApproval).run sched).tasks 1).Returned →
        Graduated ((serving (.initial Sample.env) creationAndApproval).run sched).store "shop" := by
  intro h
  have := (h [0, 0, 0, 0, 1, 1, 1, 1, 0] (by decide)).phase
  exact absurd this (by decide)

/-! ## Decisions on one agent type -/

/-- A decision on the agent type at the first gate. -/
inductive Decision where
  | approve (body : CertApproveRequest)
  | reject (body : CertRejectRequest)

def Decision.toRequest (name : String) : Decision → Request
  | .approve body => .cert1Approve name body
  | .reject body => .cert1Reject name body

def isDecision (decision : CertDecision) (name : String) (row : CertEventRow) : Bool :=
  row.agentType = name ∧ row.gate = .cert1 ∧ row.decision = decision

/-- The recorded decisions of one kind on the type at the first gate. -/
def recordedDecisions (decision : CertDecision) (name : String) (w : World) : List CertEventRow :=
  w.pg.certEvents.filter (isDecision decision name)

/-- The row that a served statement has inserted into `cert_events`. -/
def insertedCertEvent : Event host → Option CertEventRow
  | ⟨.execute (.insertCertEvent row), .ok _⟩ => some row
  | _ => none

/-- The row that the next step of task `i` inserts into `cert_events`. -/
def insertsCertEvent (c : Loop host ι Response) (i : ι) : Option CertEventRow :=
  (c.tasks i).awaited.bind fun q => insertedCertEvent ⟨q, (World.serve q c.store).1⟩

/-- The statement records a decision on the type. -/
def insertsEventOf (name : String) : Sql → Bool
  | .execute (.insertCertEvent row) => row.agentType = name
  | _ => false

/-- The call has passed the phase check for the type and waits for its INSERT. -/
def Undecided (name : String) (t : Task host Response) : Prop :=
  ∃ q ∈ t.awaited, insertsEventOf name q

instance (name : String) (t : Task host Response) : Decidable (Undecided name t) :=
  inferInstanceAs (Decidable (∃ q ∈ t.awaited, insertsEventOf name q))

/-- The next step of task `i` records an approval only if the approvals recorded before have
returned. -/
def RecordsAlone (name : String) (c : Loop host ι Response) (i : ι) : Prop :=
  ∀ row ∈ insertsCertEvent c i, isDecision .approved name row →
    ∀ p ∈ c.trace, ∀ row' ∈ insertedCertEvent p.2, isDecision .approved name row' →
      (c.tasks p.1).Returned

instance (name : String) (c : Loop host ι Response) (i : ι) : Decidable (RecordsAlone name c i) :=
  inferInstanceAs (Decidable (∀ row ∈ insertsCertEvent c i, isDecision .approved name row →
    ∀ p ∈ c.trace, ∀ row' ∈ insertedCertEvent p.2, isDecision .approved name row' →
      (c.tasks p.1).Returned))

/-- The task resumes from the accepted INSERT of an approval of the type. -/
def ResumesApproval (name : String) (t : Task host Response) : Prop :=
  t.inSegment ∧ ∃ e ∈ t.last, ∃ row ∈ insertedCertEvent e, isDecision .approved name row

instance (name : String) (t : Task host Response) : Decidable (ResumesApproval name t) :=
  inferInstanceAs (Decidable (_ ∧ ∃ e ∈ t.last, ∃ row ∈ insertedCertEvent e,
    isDecision .approved name row))

/-- Task `i` records an approval when those recorded before have returned, and goes on to write the
phase when no other call on the type waits between its phase check and its INSERT. -/
def TakesTurns (name : String) (c : Loop host ι Response) (i : ι) : Prop :=
  RecordsAlone name c i ∧
  (ResumesApproval name (c.tasks i) → ∀ j, j ≠ i → ¬ Undecided name (c.tasks j))

instance [Fintype ι] (name : String) (c : Loop host ι Response) (i : ι) :
    Decidable (TakesTurns name c i) :=
  inferInstanceAs (Decidable (RecordsAlone name c i ∧
    (ResumesApproval name (c.tasks i) → ∀ j, j ≠ i → ¬ Undecided name (c.tasks j))))

/-- What a statement adds to `cert_events`. -/
theorem serve_certEvents {q : Sql} (hq : ∀ wr ∈ q.writes, wr.Allowed request l w q) :
    (World.serve q w).2.pg.certEvents =
      w.pg.certEvents ++ (insertedCertEvent ⟨q, (World.serve q w).1⟩).toList := by
  rcases World.serve_cases q w with ⟨e, he⟩ | ⟨a, pg, hpg, he⟩
  · have hnone : insertedCertEvent ⟨q, .error e⟩ = none := by
      unfold insertedCertEvent
      split
      · rename_i h
        cases h
      · rfl
    rw [he, hnone]
    simp
  · rw [he]
    by_cases hins : ∃ row, q = .execute (.insertCertEvent row)
    · obtain ⟨row, rfl⟩ := hins
      have hwrite := Postgres.eval_execute hpg
      rcases Postgres.write_certEvents hwrite with ⟨row', hrow, hevents⟩ | ⟨hne, -⟩
      · cases hrow
        simpa [insertedCertEvent] using hevents
      · exact absurd rfl (hne row)
    · have hnone : insertedCertEvent ⟨q, .ok a⟩ = none := by
        unfold insertedCertEvent
        split
        · rename_i h
          cases h
          exact absurd ⟨_, rfl⟩ hins
        · rfl
      have hsame : pg.certEvents = w.pg.certEvents := by
        refine Postgres.eval_keeps (R := Sync.Same Postgres.certEvents) hpg ?_
        intro pg pg' wr hwr h
        rcases Postgres.write_certEvents h with ⟨row, rfl, -⟩ | ⟨-, hsame⟩
        · exact absurd ⟨row, (hq _ hwr).1⟩ hins
        · exact hsame
      rw [hnone]
      simpa using hsame

theorem insertedCertEvent_stmt {e : Event host} {row : CertEventRow}
    (h : row ∈ insertedCertEvent e) : e.stmt = .execute (.insertCertEvent row) := by
  unfold insertedCertEvent at h
  split at h
  · cases h
    rfl
  · cases h

/-- The run has recorded no approval, or it has recorded one whose call leaves a journeyman if it
returns. -/
def ApprovedOnce (requests : ι → Request) (name : String) (n : Nat) (c : Loop host ι Response) :
    Prop :=
  (recordedDecisions .approved name c.store).length ≤ n ∨
  ((recordedDecisions .approved name c.store).length ≤ n + 1 ∧
    ∃ p ∈ c.trace, (∃ row ∈ insertedCertEvent p.2, isDecision .approved name row) ∧
      (∃ body, requests p.1 = .cert1Approve name body) ∧
      ((c.tasks p.1).Returned → Graduated c.store name))

/-- Nothing is left to decide on a journeyman. -/
def AllDecided (name : String) (c : Loop host ι Response) : Prop :=
  readPhase c.store.redis name = .text Phase.journeyman.value → ∀ j, ¬ Undecided name (c.tasks j)

theorem isDecision_of_approves {row : CertEventRow} (h : Approves row name) :
    isDecision .approved name row := by
  simp [isDecision, h.agentType, h.gate, h.decision]

/-- Who issues the INSERT of a decision has seen an apprentice. -/
theorem issued_apprentice {q : Sql} (hissued : ∀ wr ∈ q.writes, wr.Issued w)
    (hinserts : insertsEventOf name q) :
    readPhase w.redis name = .text Phase.apprentice.value := by
  unfold insertsEventOf at hinserts
  split at hinserts
  · rename_i row
    obtain rfl := of_decide_eq_true hinserts
    exact hissued (.insertCertEvent row) (by simp [Sql.writes])
  · cases hinserts

theorem AllDecided.step {i : ι} (h : AllDecided name c) (hserves : Serves requests c)
    (hcond : TakesTurns name c i) : AllDecided name (c.step i) := by
  intro hphase j hj
  by_cases hij : j = i
  · subst hij
    obtain ⟨q, hq, hinserts⟩ := hj
    rw [issued_apprentice (Loop.Conforms.issued hserves hq) hinserts] at hphase
    exact absurd hphase (by decide)
  · rw [Loop.step_tasks_ne c hij] at hj
    rcases hserves.step_cases i with hs | ⟨⟨f, k, hprog⟩, hseg, -⟩ | ⟨q, k, -, -, hstore, -⟩
    · rw [hs] at hphase
      exact h hphase j hj
    · rcases hseg.journeyman hphase with hbefore | ⟨body, row, -, hlast, happroves⟩
      · exact h hbefore j hj
      · refine hcond.2 ⟨by simp [Task.inSegment, hprog], _, hlast, row, rfl, ?_⟩ j hij hj
        exact isDecision_of_approves happroves
    · rw [hstore, World.serve_redis] at hphase
      exact h hphase j hj

omit [DecidableEq ι] in
/-- A recorded decision on the type was waiting for its INSERT. -/
theorem undecided_of_inserts {q : Sql} {i : ι} {row : CertEventRow}
    (hq : (c.tasks i).awaited = some q)
    (hrow : row ∈ insertedCertEvent ⟨q, (World.serve q c.store).1⟩) (hname : row.agentType = name) :
    Undecided name (c.tasks i) :=
  ⟨q, hq, by rw [show q = _ from insertedCertEvent_stmt hrow]; simp [insertsEventOf, hname]⟩

theorem ApprovedOnce.step {n : Nat} {i : ι} (h : ApprovedOnce requests name n c)
    (hserves : Serves requests c) (hno : ¬ RestartsJourneyman requests name c i)
    (hdecided : AllDecided name c) (hcond : TakesTurns name c i) :
    ApprovedOnce requests name n (c.step i) := by
  -- a step that records no approval
  have hsame (hdecisions : recordedDecisions .approved name (c.step i).store =
      recordedDecisions .approved name c.store) : ApprovedOnce requests name n (c.step i) := by
    rw [ApprovedOnce, hdecisions]
    refine h.imp_right fun ⟨hle, p, hp, hrow, ⟨body, hbody⟩, hreturned⟩ => ⟨hle, p, ?_, hrow,
      ⟨body, hbody⟩, hserves.returned_step hbody hno hreturned⟩
    exact Loop.trace_subset_step c i hp
  rcases hserves.step_cases i with hs | ⟨-, hseg, -⟩ | ⟨q, k, hprog, hq, hstore, htrace, -⟩
  · rwa [hs]
  · exact hsame (by rw [recordedDecisions, recordedDecisions, hseg.pg])
  · have hevents := serve_certEvents (w := c.store) hq
    rw [← hstore] at hevents
    have hawaited : (c.tasks i).awaited = some q := Task.awaited_eq_some.mpr ⟨k, hprog⟩
    cases hrow : insertedCertEvent ⟨q, (World.serve q c.store).1⟩ with
    | none => exact hsame (by simp [recordedDecisions, hevents, hrow])
    | some row =>
      rw [hrow, Option.toList_some] at hevents
      by_cases happroved : isDecision .approved name row = true
      · have hinserts : row ∈ insertsCertEvent c i := by simp [insertsCertEvent, hawaited, hrow]
        have hdecision := happroved
        simp only [isDecision, decide_eq_true_eq] at hdecision
        rcases h with hle | ⟨-, p, hp, ⟨row', hrow', happroved'⟩, -, hreturned⟩
        · have hbody : ∃ body, requests i = .cert1Approve name body := by
            obtain rfl := insertedCertEvent_stmt (Option.mem_def.mpr hrow)
            exact hdecision.1 ▸ (hq (.insertCertEvent row) (by simp [Sql.writes])).2 hdecision.2.2
          obtain ⟨body, hbody⟩ := hbody
          refine .inr ⟨?_, (i, ⟨q, (World.serve q c.store).1⟩), by simp [htrace],
            ⟨row, hrow, happroved⟩, ⟨body, hbody⟩, hserves.returned_step hbody hno ?_⟩
          · simpa [recordedDecisions, hevents, happroved] using hle
          · rintro ⟨a, ha⟩
            rw [Task.Ended, hprog] at ha
            cases ha
        · -- the approval recorded before has returned, so the type is a journeyman
          have hended := hcond.1 row hinserts happroved p hp row' hrow' happroved'
          have hphase := (hreturned hended).phase
          exact absurd (undecided_of_inserts hawaited hrow hdecision.1) (hdecided hphase i)
      · exact hsame (by simp [recordedDecisions, hevents, happroved])

/-- Once the type is a journeyman and nothing is left to decide, no decision is recorded. -/
theorem Serves.recorded_step {i : ι} (hserves : Serves requests c)
    (hno : ¬ RestartsJourneyman requests name c i) (hdecided : AllDecided name c)
    (hphase : readPhase c.store.redis name = .text Phase.journeyman.value)
    (decision : CertDecision) :
    readPhase (c.step i).store.redis name = .text Phase.journeyman.value ∧
      recordedDecisions decision name (c.step i).store =
        recordedDecisions decision name c.store := by
  rcases hserves.step_cases i with hs | ⟨⟨f, k, hprog⟩, hseg, -⟩ | ⟨q, k, hprog, hq, hstore, -⟩
  · rw [hs]
    exact ⟨hphase, rfl⟩
  · refine ⟨?_, by rw [recordedDecisions, recordedDecisions, hseg.pg]⟩
    have hresumes : ¬ ResumesCreation (requests i) (c.tasks i).last name :=
      fun hr => hno ⟨hr, by simp [Task.inSegment, hprog], hphase⟩
    rcases hseg.certification hresumes with ⟨hp, -⟩ | hgraduated
    · exact hp.trans hphase
    · exact hgraduated.phase
  · rw [hstore]
    refine ⟨by simpa using hphase, ?_⟩
    rw [recordedDecisions, serve_certEvents hq, List.filter_append]
    cases hrow : insertedCertEvent ⟨q, (World.serve q c.store).1⟩ with
    | none => simp [recordedDecisions]
    | some row =>
      have hname : row.agentType ≠ name := fun hname =>
        hdecided hphase i (undecided_of_inserts (Task.awaited_eq_some.mpr ⟨k, hprog⟩) hrow hname)
      simp [recordedDecisions, isDecision, hname]

omit [DecidableEq ι] in
theorem Decision.not_restarts (name : String) (calls : ι → Decision) (c : Loop host ι Response)
    (i : ι) : ¬ RestartsJourneyman (fun i => (calls i).toRequest name) name c i := by
  rintro ⟨⟨hcreates, -⟩, -⟩
  cases h : calls i <;> simp [h, Decision.toRequest, Request.creates] at hcreates

/-- In every run of decisions on one agent type that take turns, at most one approval is recorded,
and no rejection once the type is a journeyman. -/
theorem one_decision (w : World) (calls : ι → Decision) (name : String) (sched : List ι)
    (hcond : Loop.Meets (TakesTurns name) (serving w fun i => (calls i).toRequest name) sched) :
    (recordedDecisions .approved name
      ((serving w fun i => (calls i).toRequest name).run sched).store).length ≤
        (recordedDecisions .approved name w).length + 1 ∧
    ∀ pre post, sched = pre ++ post →
      readPhase ((serving w fun i => (calls i).toRequest name).run pre).store.redis name =
        .text Phase.journeyman.value →
      recordedDecisions .rejected name
        ((serving w fun i => (calls i).toRequest name).run sched).store =
      recordedDecisions .rejected name
        ((serving w fun i => (calls i).toRequest name).run pre).store := by
  set requests : ι → Request := fun i => (calls i).toRequest name
  have hstart : Serves requests (serving w requests) ∧ AllDecided name (serving w requests) := by
    refine ⟨serves_serving w requests, fun hphase j ⟨q, hq, hinserts⟩ => ?_⟩
    have happrentice := issued_apprentice (handle_issued (w := w) hq) hinserts
    exact absurd (happrentice.symm.trans hphase) (by decide)
  have hstep (c : Loop host ι Response) (i : ι) (hc : Serves requests c ∧ AllDecided name c)
      (hi : TakesTurns name c i) : Serves requests (c.step i) ∧ AllDecided name (c.step i) :=
    ⟨hc.1.step i, hc.2.step hc.1 hi⟩
  have hno := Decision.not_restarts name calls
  constructor
  · have hinv := hcond.invariant
      (I := fun c => (Serves requests c ∧ AllDecided name c) ∧
        ApprovedOnce requests name (recordedDecisions .approved name w).length c)
      (fun c i ⟨hc, honce⟩ hi => ⟨hstep c i hc hi, honce.step hc.1 (hno c i) hc.2 hi⟩)
      ⟨hstart, .inl le_rfl⟩
    rcases hinv.2 with h | ⟨h, -⟩ <;> omega
  · rintro pre post rfl hphase
    obtain ⟨hpre, hpost⟩ := Loop.meets_append.mp hcond
    have hinv := hpost.invariant
      (I := fun c => (Serves requests c ∧ AllDecided name c) ∧
        readPhase c.store.redis name = .text Phase.journeyman.value ∧
        recordedDecisions .rejected name c.store =
          recordedDecisions .rejected name ((serving w requests).run pre).store)
      (fun c i ⟨hc, hp, he⟩ hi => ?_) ⟨hpre.invariant hstep hstart, hphase, rfl⟩
    · rw [Loop.run_append]
      exact hinv.2.2
    · have hrecorded := hc.1.recorded_step (hno c i) hc.2 hp .rejected
      exact ⟨hstep c i hc hi, hrecorded.1, hrecorded.2.trans he⟩

/-- Two experts decide on the same agent type. -/
def approveAndReject : Fin 2 → Decision
  | 0 => .approve Sample.approval
  | 1 => .reject Sample.rejection

theorem one_decision_in_turn :
    Loop.Meets (TakesTurns "shop")
      (serving Sample.withShop fun i => (approveAndReject i).toRequest "shop")
      [0, 0, 0, 0, 1, 1, 1] ∧
    (recordedDecisions .approved "shop"
      ((serving Sample.withShop fun i => (approveAndReject i).toRequest "shop").run
        [0, 0, 0, 0, 1, 1, 1]).store).length ≤ 1 :=
  ⟨by decide, (one_decision Sample.withShop approveAndReject "shop" [0, 0, 0, 0, 1, 1, 1]
    (by decide)).1⟩

/-- Two approvals that have both passed the phase check are both recorded. -/
theorem two_decisions :
    ¬ ∀ (calls : Fin 2 → Decision) (sched : List (Fin 2)),
      (recordedDecisions .approved "shop"
        ((serving Sample.withShop fun i => (calls i).toRequest "shop").run sched).store).length ≤
          1 := by
  intro h
  exact absurd (h (fun _ => .approve Sample.approval) [0, 0, 1, 1, 0, 1]) (by decide)

end AgentWorx
