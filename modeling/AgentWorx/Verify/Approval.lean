import AgentWorx.Lib.Issues
import AgentWorx.Verify.ReviewCalls

/-!
# How a version gets approved

`Request.Asks` lists the statements on `team_compositions` that each request can issue, with what
they carry over from its body. Every row that becomes approved does so by one of two of them, the
UPDATE of an approval and the INSERT of an edit; neither looks at the signature, and the second does
not look at the rationale.
-/

namespace AgentWorx

open Coop Coop.Sync

/-! ## What the requests ask for -/

/-- The write leaves the compositions alone. -/
def SqlWrite.Elsewhere (wr : SqlWrite) : Prop :=
  wr.decided = none ∧ ∀ row expertSignature, wr ≠ .insertComposition row expertSignature

inductive Request.Asks (request : Request) : Sql → Prop
  | other {q} (h : ∀ wr ∈ q.writes, wr.Elsewhere) : Asks request q
  | propose {id agentType version artifact createdAt}
      (hcovered : validateRationaleCoverage artifact = .ok ()) :
      Asks request (.execute (.insertComposition
        (compositionRow id agentType version artifact .proposed none createdAt) .null))
  | approve {agentTypeId body expertId signedAt agentType version}
      (hrequest : request = .reviewProposal agentTypeId body)
      (haction : body.action = some "approve") (hexpert : body.expertId = some expertId) :
      Asks request (.execute (.approveComposition expertId signedAt agentType version))
  | edit {agentTypeId body expertId edits agentType version signedAt createdAt}
      (hrequest : request = .reviewProposal agentTypeId body) (haction : body.action = some "edit")
      (hexpert : body.expertId = some expertId) (hedits : body.edits = .ok edits) :
      Asks request
        (.transaction (editTransaction agentType expertId edits version signedAt createdAt))
  | reject {rejectionReason agentType version} :
      Asks request (.execute (.rejectComposition rejectionReason agentType version))

/-- Nothing is said about the value. -/
abbrev AnyValue {α : Type} : α → Prop := fun _ => True

variable {request : Request} {I : Sql → Prop} {α β : Type}

theorem issues_lift (m : Py α) : Async.Issues I AnyValue (Async.lift m : Coro α) :=
  .lift fun _ _ _ => trivial

theorem issues_sql {q : Sql} (h : I q) : Async.Issues I AnyValue (sql q) := .call h

theorem issues_read {q : Sql} (hq : q.writes = []) :
    Async.Issues request.Asks AnyValue (sql q) := issues_sql (.other (by simp [hq]))

theorem issues_write {wr : SqlWrite} (h : wr.Elsewhere) :
    Async.Issues request.Asks AnyValue (sql (.execute wr)) :=
  issues_sql (.other (by simpa [Sql.writes] using h))

theorem issues_bind {p : Coro α} {g : α → Coro β} (hp : Async.Issues I AnyValue p)
    (hg : ∀ a, Async.Issues I AnyValue (g a)) : Async.Issues I AnyValue (p >>= g) :=
  hp.bind fun a _ => hg a

theorem issues_withHttp {status : Exn → Option Nat} {p : Coro α} (h : Async.Issues I AnyValue p) :
    Async.Issues I AnyValue (withHttp status p) := .tryCatch h fun _ => .throw _

theorem getAgentTypeByName_issues (name : String) :
    Async.Issues request.Asks AnyValue (getAgentTypeByName name) := by
  refine issues_bind (issues_read rfl) fun row => ?_
  cases row with
  | none => exact .throw _
  | some row => exact issues_lift _

theorem createAgentType_issues (payload : AgentTypeCreate) :
    Async.Issues request.Asks AnyValue (createAgentType payload) := by
  refine issues_bind (issues_lift _) fun agentTypeId => issues_bind (issues_read rfl) fun row => ?_
  cases row with
  | some id => exact .throw _
  | none =>
    refine issues_bind (issues_lift _) fun createdAt =>
      issues_bind (issues_write ⟨rfl, by simp⟩) fun _ => issues_bind (issues_lift _) fun r => ?_
    obtain ⟨ids, raised⟩ := r
    cases raised with
    | none => exact issues_bind (issues_lift _) fun _ => .pure trivial
    | some e =>
      exact issues_bind (issues_lift _) fun _ =>
        issues_bind (issues_write ⟨rfl, by simp⟩) fun _ => .throw _

theorem submitAnswer_issues (agentTypeId : String) (body : AnswerBody) :
    Async.Issues request.Asks AnyValue (submitAnswer agentTypeId body) := by
  refine issues_bind (getAgentTypeByName_issues _) fun agent =>
    issues_bind (issues_lift _) fun _ => ?_
  split
  · exact .throw _
  · split
    · exact .throw _
    · exact issues_lift _

theorem getLatestProposal_issues (agentType : String) :
    Async.Issues request.Asks AnyValue (getLatestProposal agentType) :=
  issues_bind (issues_read rfl) fun _ => .pure trivial

theorem getProposal_issues (agentTypeId : String) :
    Async.Issues request.Asks AnyValue (getProposal agentTypeId) := by
  refine issues_bind (getAgentTypeByName_issues _) fun agent =>
    issues_bind (getLatestProposal_issues _) fun proposal => ?_
  cases proposal with
  | none => exact .pure trivial
  | some proposal => exact issues_bind (issues_lift _) fun _ => .pure trivial

theorem generateProposal_issues (agentType agentGoal taskBoundary : String)
    (declaredTopology : TopologyType) (workflowParticipants : List String)
    (rejectionContext : Option String) :
    Async.Issues request.Asks AnyValue (generateProposal agentType agentGoal taskBoundary
      declaredTopology workflowParticipants rejectionContext) := by
  refine Async.Issues.bind (.lift (draftProposal_yields _ _ _ _ _ _)) fun artifact hdrafted => ?_
  refine issues_bind (issues_read rfl) fun maxVersion => ?_
  cases parseUUID artifact.id with
  | error e => exact .throw _
  | ok id => exact issues_bind (issues_sql (.propose hdrafted.covered)) fun _ => .pure trivial

theorem requireMutableLatest_issues (agentType : String) :
    Async.Issues request.Asks AnyValue (requireMutableLatest agentType) := by
  refine issues_bind (getLatestProposal_issues _) fun latest => ?_
  cases latest with
  | none => exact .throw _
  | some latest =>
    simp only
    split_ifs
    · exact .pure trivial
    · exact .throw _

/-- The three review calls. -/
theorem handleReview_issues (agentTypeId : String) (body : ReviewBody) (agent : AgentTypeResponse) :
    Async.Issues (Request.Asks (.reviewProposal agentTypeId body)) AnyValue
      (handleReview agent body) := by
  have hget {value : Option TextParam} {key : String} :
      Yields (fun p => value = some p) (liftExcept (ReviewBody.get value key)) := by
    intro w p h
    cases value with
    | none => cases h
    | some v =>
      cases h
      rfl
  unfold handleReview
  split
  · rename_i haction
    refine Async.Issues.bind (.lift hget) fun expertId hexpert => ?_
    refine issues_bind (requireMutableLatest_issues _) fun latest => issues_bind (issues_lift _)
      fun signedAt => issues_bind (issues_sql ?_) fun _ => .pure trivial
    exact .approve rfl haction hexpert
  · rename_i haction
    refine Async.Issues.bind (.lift hget) fun expertId hexpert =>
      Async.Issues.bind (P := fun edits => body.edits = .ok edits) (.lift fun w edits h => h)
        fun edits hedits => ?_
    refine issues_bind (requireMutableLatest_issues _) fun latest => issues_bind (issues_lift _)
      fun signedAt => issues_bind (issues_lift _) fun createdAt => issues_bind (issues_sql ?_)
      fun _ => .pure trivial
    exact .edit rfl haction hexpert hedits
  · refine issues_bind (issues_lift _) fun rejectionReason =>
      issues_bind (requireMutableLatest_issues _) fun latest => issues_bind (issues_sql .reject)
      fun _ => generateProposal_issues _ _ _ _ _ _
  · exact .throw _

theorem startSession_issues (agentType : String) :
    Async.Issues request.Asks AnyValue (startSession agentType) := by
  refine issues_bind (getLatestProposal_issues _) fun proposal => ?_
  cases proposal with
  | none => exact .throw _
  | some proposal =>
    simp only
    split_ifs
    · exact .throw _
    · exact issues_lift _

theorem closeSession_issues (sessionId : String) :
    Async.Issues request.Asks AnyValue (closeSession sessionId) :=
  issues_bind (issues_lift _) fun _ =>
    issues_bind (issues_write ⟨rfl, by simp⟩) fun _ => .pure trivial

theorem approveCert1_issues (agentType : String) (body : CertApproveRequest) :
    Async.Issues request.Asks AnyValue (approveCert1 agentType body) :=
  issues_bind (issues_lift _) fun _ => issues_bind (issues_write ⟨rfl, by simp⟩) fun _ =>
    issues_bind (issues_lift _) fun _ => .pure trivial

theorem rejectCert1_issues (agentType : String) (body : CertRejectRequest) :
    Async.Issues request.Asks AnyValue (rejectCert1 agentType body) :=
  issues_bind (issues_lift _) fun _ =>
    issues_bind (issues_write ⟨rfl, by simp⟩) fun _ => .pure trivial

theorem getCert1Status_issues (agentType : String) :
    Async.Issues request.Asks AnyValue (getCert1Status agentType) :=
  issues_bind (issues_lift _) fun _ => issues_bind (issues_read rfl) fun _ =>
    issues_bind (issues_read rfl) fun _ => .pure trivial

theorem handle_issues (request : Request) :
    Async.Issues request.Asks AnyValue request.handle := by
  have hresponse {α : Type} {p : Coro α} {f : α → Response}
      (h : Async.Issues request.Asks AnyValue p) :
      Async.Issues request.Asks AnyValue (p >>= fun a => pure (f a)) :=
    issues_bind h fun _ => .pure trivial
  cases request with
  | create payload => exact hresponse (issues_withHttp (createAgentType_issues payload))
  | question agentTypeId =>
    exact hresponse (issues_bind (getAgentTypeByName_issues _) fun _ =>
      issues_bind (issues_lift _) fun _ => issues_lift _)
  | readiness agentTypeId =>
    exact hresponse (issues_bind (getAgentTypeByName_issues _) fun _ => issues_lift _)
  | answer agentTypeId body => exact hresponse (submitAnswer_issues agentTypeId body)
  | getProposal agentTypeId => exact hresponse (getProposal_issues agentTypeId)
  | generateProposal => exact hresponse (generateProposal_issues _ _ _ _ _ _)
  | reviewProposal agentTypeId body =>
    exact hresponse (issues_bind (getAgentTypeByName_issues _) fun agent =>
      issues_withHttp (handleReview_issues agentTypeId body agent))
  | createSession agentTypeId => exact hresponse (issues_withHttp (startSession_issues agentTypeId))
  | readSession | turn | resolve => exact hresponse (issues_withHttp (issues_lift _))
  | close sessionId => exact hresponse (issues_withHttp (closeSession_issues sessionId))
  | cert1Status agentTypeId =>
    exact hresponse (issues_bind (getAgentTypeByName_issues _) fun _ => getCert1Status_issues _)
  | cert1Approve agentTypeId body =>
    exact hresponse (issues_bind (getAgentTypeByName_issues _) fun _ =>
      issues_withHttp (approveCert1_issues _ _))
  | cert1Reject agentTypeId body =>
    exact hresponse (issues_bind (getAgentTypeByName_issues _) fun _ =>
      issues_withHttp (rejectCert1_issues _ _))

/-! ## What the statements do to the compositions -/

/-- Statements on other tables leave the compositions alone. -/
theorem Postgres.eval_elsewhere {pg pg' : Postgres} {q : Sql} {a : q.Resp}
    (h : pg.eval q = .ok (a, pg')) (hq : ∀ wr ∈ q.writes, wr.Elsewhere) :
    pg'.teamCompositions = pg.teamCompositions := by
  refine eval_keeps (R := Same teamCompositions) h fun pg pg' wr hwr hwrite => ?_
  rcases write_teamCompositions hwrite with
    ⟨-, h'⟩ | ⟨_, _, _, hdecided, -, -⟩ | ⟨row, expertSignature, _, hinsert, -, -⟩
  · exact h'
  · rw [(hq wr hwr).1] at hdecided
    cases hdecided
  · exact absurd hinsert ((hq wr hwr).2 row expertSignature)

/-- A statement that a request asks for leaves the compositions alone, adds a proposal whose
rationale is complete, approves a version with the signature of the body, archives a version and
adds the edits of the body with its signature, or rejects a version. -/
theorem Request.Asks.serve_cases {q : Sql} (h : request.Asks q) (w : World) :
    (World.serve q w).2.pg.teamCompositions = w.pg.teamCompositions ∨
    (∃ id agentType version artifact createdAt, validateRationaleCoverage artifact = .ok () ∧
      (World.serve q w).2.pg.teamCompositions = w.pg.teamCompositions ++
        [compositionRow id agentType version artifact .proposed none createdAt]) ∨
    (∃ agentTypeId body expertId signature signedAt agentType version,
      request = .reviewProposal agentTypeId body ∧ body.action = some "approve" ∧
      body.expertId = some expertId ∧ expertId.encodeVarchar 200 = .ok signature ∧
      (agentType, version) ∈ decides ⟨q, (World.serve q w).1⟩ ∧
      (World.serve q w).2.pg.teamCompositions = Postgres.updateComposition agentType version
        (·.approve signature signedAt) w.pg.teamCompositions) ∨
    (∃ agentTypeId body expertId signature edits id agentType version signedAt createdAt,
      request = .reviewProposal agentTypeId body ∧ body.action = some "edit" ∧
      body.expertId = some expertId ∧ expertId.encodeVarchar 200 = .ok signature ∧
      body.edits = .ok edits ∧ (agentType, version) ∈ decides ⟨q, (World.serve q w).1⟩ ∧
      (World.serve q w).2.pg.teamCompositions = Postgres.updateComposition agentType version
        (fun row => { row with status := .archived }) w.pg.teamCompositions ++
          [editedRow id agentType version edits signature signedAt createdAt]) ∨
    ∃ reason agentType version,
      (World.serve q w).2.pg.teamCompositions = Postgres.updateComposition agentType version
        (·.reject reason) w.pg.teamCompositions := by
  rcases World.serve_cases q w with ⟨e, he⟩ | ⟨a, pg, hpg, he⟩ <;> rw [he]
  · exact .inl rfl
  · cases h with
    | other h =>
      exact .inl (Postgres.eval_elsewhere hpg h)
    | propose hcovered =>
      obtain ⟨signature, hsignature, -, rfl⟩ :=
        Postgres.write_insertComposition_eq (Postgres.eval_execute hpg)
      cases hsignature
      exact .inr (.inl ⟨_, _, _, _, _, hcovered, rfl⟩)
    | approve hrequest haction hexpert =>
      obtain ⟨signature, hsignature, rfl⟩ :=
        Postgres.write_approveComposition (Postgres.eval_execute hpg)
      exact .inr (.inr (.inl ⟨_, _, _, signature, _, _, _, hrequest, haction, hexpert, hsignature,
        List.mem_singleton.mpr rfl, rfl⟩))
    | @edit _ _ expertId edits agentType version signedAt createdAt hrequest haction hexpert
        hedits =>
      refine .inr (.inr (.inr (.inl ?_)))
      obtain ⟨id, signature, hid, -, hsignature, hcompositions⟩ :=
        writeAll_editTransaction (Postgres.eval_transaction hpg)
      refine ⟨_, _, expertId, signature, edits, id, agentType, version, _, _, hrequest, haction,
        hexpert, hsignature, hedits, ?_, hcompositions⟩
      simp [decides, Sql.writes, editTransaction, SqlWrite.decided]
    | @reject rejectionReason agentType version =>
      obtain ⟨-, rfl⟩ := Postgres.write_rejectComposition (Postgres.eval_execute hpg)
      exact .inr (.inr (.inr (.inr ⟨_, _, _, rfl⟩)))

/-- The rows of a table after an update of one version. -/
theorem Postgres.forall_updateComposition {P : CompositionRow → Prop} {rows : List CompositionRow}
    {agentType : String} {version : Int} {f : CompositionRow → CompositionRow}
    (h : ∀ row ∈ rows, P row) (hf : ∀ row ∈ rows, row.key = (agentType, version) → P (f row)) :
    ∀ row ∈ updateComposition agentType version f rows, P row := by
  intro row' hrow'
  obtain ⟨row, hrow, rfl⟩ := List.mem_map.mp hrow'
  split_ifs with hkey
  · exact hf row hrow (Prod.ext hkey.1 hkey.2)
  · exact h row hrow

/-- A property of the rows that every step of a run keeps, a segment or a statement. -/
theorem compositions_invariant {ι : Type} [DecidableEq ι] {P : CompositionRow → Prop}
    {requests : ι → Request} {Cond : Loop host ι Response → ι → Prop} {w : World}
    (hw : ∀ row ∈ w.pg.teamCompositions, P row)
    (hserve : ∀ c i q, Cond c i → (c.tasks i).awaited = some q → (requests i).Asks q →
      (∀ row ∈ c.store.pg.teamCompositions, P row) →
      ∀ row ∈ (World.serve q c.store).2.pg.teamCompositions, P row)
    {sched : List ι} (hcond : Loop.Meets Cond (serving w requests) sched) {pre post : List ι}
    (hsched : sched = pre ++ post) :
    ∀ row ∈ ((serving w requests).run pre).store.pg.teamCompositions, P row := by
  subst hsched
  let I (c : Loop host ι Response) : Prop := Serves requests c ∧
    Loop.Issues (fun i => (requests i).Asks) (fun _ => AnyValue) c ∧
    ∀ row ∈ c.store.pg.teamCompositions, P row
  refine ((Loop.meets_append.mp hcond).1.invariant (I := I) (fun c i hc hi => ?_)
    ⟨serves_serving w requests, Loop.issues_start fun i => handle_issues (requests i), hw⟩).2.2
  obtain ⟨hserves, hissues, hrows⟩ := hc
  refine ⟨hserves.step i, hissues.step i, ?_⟩
  rcases hserves.step_cases i with hs | ⟨-, hseg, -⟩ | ⟨q, k, hprog, -, hstore, -⟩
  · rwa [hs]
  · rwa [hseg.pg]
  · have hq : (c.tasks i).awaited = some q := Task.awaited_eq_some.mpr ⟨k, hprog⟩
    rw [hstore]
    exact hserve c i q hi hq (hissues.awaited hq) hrows

variable {ι : Type} [DecidableEq ι]

/-! ## Signatures -/

/-- Somebody has signed the version. -/
def CompositionRow.Signed (row : CompositionRow) : Prop :=
  ∃ signature ∈ row.expertSignature, signature ≠ ""

instance (row : CompositionRow) : Decidable row.Signed :=
  inferInstanceAs (Decidable (∃ signature ∈ row.expertSignature, _))

/-- The parameter names nobody. -/
def TextParam.Blank (p : TextParam) : Prop := p = .null ∨ p = .text ""

instance (p : TextParam) : Decidable p.Blank := inferInstanceAs (Decidable (_ ∨ _))

/-- The request is an approval or an edit in nobody's name. -/
def Request.Unsigned : Request → Prop
  | .reviewProposal _ body =>
    (body.action = some "approve" ∨ body.action = some "edit") ∧ ∃ p ∈ body.expertId, p.Blank
  | _ => False

instance (request : Request) : Decidable request.Unsigned := by
  cases request <;> unfold Request.Unsigned <;> infer_instance

/-- If the request of the next step is an approval or an edit in nobody's name, the step does not
change the status of a version. -/
def RefusesUnsigned (requests : ι → Request) (c : Loop host ι Response) (i : ι) : Prop :=
  (requests i).Unsigned → ∀ q ∈ (c.tasks i).awaited, decides ⟨q, (World.serve q c.store).1⟩ = []

instance (requests : ι → Request) (c : Loop host ι Response) (i : ι) :
    Decidable (RefusesUnsigned requests c i) :=
  inferInstanceAs (Decidable (_ → ∀ q ∈ (c.tasks i).awaited, _))

/-- What a column accepts of a name is a name. -/
theorem encodeVarchar_signed {p : TextParam} {signature : Option String}
    (h : p.encodeVarchar 200 = .ok signature) (hp : ¬ p.Blank) : ∃ s ∈ signature, s ≠ "" := by
  cases p with
  | null => exact absurd (.inl rfl) hp
  | other => cases h
  | text s =>
    simp only [TextParam.encodeVarchar] at h
    split_ifs at h with hshort hblanks
    · cases h
      refine ⟨s, rfl, ?_⟩
      rintro rfl
      exact hp (.inr rfl)
    · cases h
      refine ⟨_, rfl, fun hempty => ?_⟩
      have hlength := congrArg String.length hempty
      rw [String.length_ofList, List.length_take, String.length_toList, String.length_empty]
        at hlength
      omega

/-- In every run of any requests in which no approval and no edit without the name of an expert gets
its write through, every approved version is signed. -/
theorem approved_is_signed (w : World)
    (hw : ∀ row ∈ w.pg.teamCompositions, row.status = .approved → row.Signed)
    (requests : ι → Request) (sched : List ι)
    (hcond : Loop.Meets (RefusesUnsigned requests) (serving w requests) sched) :
    ∀ pre post, sched = pre ++ post →
      ∀ row ∈ ((serving w requests).run pre).store.pg.teamCompositions,
        row.status = .approved → row.Signed := by
  intro pre post hsched
  refine compositions_invariant (P := fun row => row.status = .approved → row.Signed) hw ?_ hcond
    hsched
  intro c i q hi hq hasks hrows
  have hnamed {agentTypeId : String} {body : ReviewBody} {expertId : TextParam}
      {key : String × Int} (hrequest : requests i = .reviewProposal agentTypeId body)
      (haction : body.action = some "approve" ∨ body.action = some "edit")
      (hexpert : body.expertId = some expertId)
      (hkey : key ∈ decides ⟨q, (World.serve q c.store).1⟩) : ¬ expertId.Blank := by
    intro hblank
    have hunsigned : (requests i).Unsigned := by
      rw [hrequest]
      exact ⟨haction, expertId, hexpert, hblank⟩
    rw [hi hunsigned q hq] at hkey
    cases hkey
  rcases hasks.serve_cases c.store with h | ⟨_, _, _, _, _, -, h⟩ |
    ⟨_, _, expertId, signature, _, _, _, hrequest, haction, hexpert, hsignature, hkey, h⟩ |
    ⟨_, _, expertId, signature, _, _, _, _, _, _, hrequest, haction, hexpert, hsignature, -, hkey,
      h⟩ | ⟨_, _, _, h⟩ <;> rw [h]
  · exact hrows
  · refine List.forall_mem_append.mpr ⟨hrows, List.forall_mem_singleton.mpr ?_⟩
    rintro ⟨⟩
  · exact Postgres.forall_updateComposition hrows fun row _ _ _ =>
      encodeVarchar_signed hsignature (hnamed hrequest (.inl haction) hexpert hkey)
  · refine List.forall_mem_append.mpr ⟨?_, List.forall_mem_singleton.mpr fun _ => ?_⟩
    · exact Postgres.forall_updateComposition hrows fun _ _ _ happroved => by cases happroved
    · exact encodeVarchar_signed hsignature (hnamed hrequest (.inr haction) hexpert hkey)
  · exact Postgres.forall_updateComposition hrows fun _ _ _ happroved => by cases happroved

/-- An approval by the expert of the body. -/
def approvalWith (expertId : TextParam) : Request :=
  .reviewProposal "shop" ⟨some "approve", some expertId, .error .modelError, none⟩

theorem approved_is_signed_ada :
    ∃ row ∈ ((serving (Sample.withTeam .proposed) fun _ : Fin 1 => approvalWith (.text "ada")).run
      [0, 0, 0, 0, 0]).store.pg.teamCompositions, row.status = .approved ∧ row.Signed := by
  have happroved : ∃ row ∈ ((serving (Sample.withTeam .proposed) fun _ : Fin 1 =>
      approvalWith (.text "ada")).run [0, 0, 0, 0, 0]).store.pg.teamCompositions,
      row.status = .approved := by
    decide +kernel
  obtain ⟨row, hrow, hstatus⟩ := happroved
  exact ⟨row, hrow, hstatus, approved_is_signed (Sample.withTeam .proposed) (by decide) _
    [0, 0, 0, 0, 0] (by decide) _ [] (List.append_nil _).symm row hrow hstatus⟩

/-- The expert is `null`. -/
theorem approved_unsigned :
    ¬ ∀ expertId, ∀ row ∈ (runAll [approvalWith expertId]
      (Sample.withTeam .proposed)).pg.teamCompositions, row.status = .approved → row.Signed := by
  intro h
  exact absurd (h .null) (by decide +kernel)

/-! ## Rationales -/

/-- Every agent and every contract of the team has an entry in the rationale. -/
def ProposalArtifact.Justified (artifact : ProposalArtifact) : Prop :=
  (∀ agent ∈ artifact.agents, agent.agentName ∈ artifact.rationalePerAgent) ∧
  ∀ c ∈ artifact.contracts, s!"{c.fromAgent}->{c.toAgent}" ∈ artifact.rationalePerContract

instance (artifact : ProposalArtifact) : Decidable artifact.Justified :=
  inferInstanceAs (Decidable (_ ∧ _))

theorem validateRationaleCoverage_ok {artifact : ProposalArtifact} :
    validateRationaleCoverage artifact = .ok () ↔ artifact.Justified := by
  have hagents : (artifact.agents.map (·.agentName)).filter (· ∉ artifact.rationalePerAgent) = [] ↔
      ∀ agent ∈ artifact.agents, agent.agentName ∈ artifact.rationalePerAgent := by
    simp [List.filter_eq_nil_iff]
  have hcontracts : (artifact.contracts.map fun c => s!"{c.fromAgent}->{c.toAgent}").filter
      (· ∉ artifact.rationalePerContract) = [] ↔
      ∀ c ∈ artifact.contracts, s!"{c.fromAgent}->{c.toAgent}" ∈ artifact.rationalePerContract := by
    simp [List.filter_eq_nil_iff]
  rw [ProposalArtifact.Justified, ← hagents, ← hcontracts]
  dsimp only [validateRationaleCoverage]
  split_ifs with h
  · refine iff_of_false (by simp) ?_
    rintro ⟨h1, h2⟩
    exact h.elim (fun h => h h1) fun h => h h2
  · exact iff_of_true rfl (by simpa [not_or] using h)

abbrev CompositionRow.Justified (row : CompositionRow) : Prop := (rowToArtifact row).Justified

theorem CompositionRow.justified_iff {row : CompositionRow} : row.Justified ↔
    (∀ agent ∈ row.agentList,
      agent.agentName ∈ (row.rationale.bind (·.rationalePerAgent)).getD ∅) ∧
    ∀ c ∈ row.contracts, s!"{c.fromAgent}->{c.toAgent}" ∈
      (row.rationale.bind (·.rationalePerContract)).getD ∅ :=
  Iff.rfl

/-- The row still has the rationale it was stored with, or needs none. -/
def CompositionRow.KeepsRationale (row : CompositionRow) : Prop :=
  (∃ r ∈ row.rationale, r.rationalePerAgent.isSome ∧ r.rationalePerContract.isSome) ∨
    (row.agentList = [] ∧ row.contracts = [])

/-- The artifact that the request wants stored as approved. -/
def Request.edits : Request → Option ProposalArtifact
  | .reviewProposal _ body => if body.action = some "edit" then body.edits.toOption else none
  | _ => none

/-- If the next step goes through and approves a version, the version has not lost its rationale; if
it inserts an edit, the edit is justified. -/
def ApprovesWithRationale (requests : ι → Request) (c : Loop host ι Response) (i : ι) : Prop :=
  ∀ q ∈ (c.tasks i).awaited, ∀ key ∈ decides ⟨q, (World.serve q c.store).1⟩,
    ((requests i).approvesProposal → ∀ row ∈ c.store.pg.teamCompositions, row.key = key →
      row.KeepsRationale) ∧
    ∀ edits ∈ (requests i).edits, edits.Justified

instance (row : CompositionRow) : Decidable row.KeepsRationale :=
  decidable_of_iff ((∃ r ∈ row.rationale, r.rationalePerAgent.isSome ∧
    r.rationalePerContract.isSome) ∨ (row.agentList.isEmpty ∧ row.contracts.isEmpty)) (by
      simp [CompositionRow.KeepsRationale])

instance (requests : ι → Request) (c : Loop host ι Response) (i : ι) :
    Decidable (ApprovesWithRationale requests c i) :=
  inferInstanceAs (Decidable (∀ q ∈ (c.tasks i).awaited,
    ∀ key ∈ decides ⟨q, (World.serve q c.store).1⟩, _ ∧ ∀ edits ∈ (requests i).edits, _))

/-- A version that is approved, or that has its rationale, is justified. -/
structure CompositionRow.Sound (row : CompositionRow) : Prop where
  approved : row.status = .approved → row.Justified
  kept : row.KeepsRationale → row.Justified

theorem compositionRow_sound {id : UUID} {agentType : String} {version : Int}
    {artifact : ProposalArtifact} {status : CompositionStatus} {signedAt : Option Int}
    {createdAt : Int} (h : artifact.Justified) :
    (compositionRow id agentType version artifact status signedAt createdAt).Sound :=
  ⟨fun _ => CompositionRow.justified_iff.mpr h, fun _ => CompositionRow.justified_iff.mpr h⟩

/-- A rejection leaves no rationale that has not been there. -/
theorem CompositionRow.Sound.reject {row : CompositionRow} (h : row.Sound)
    (reason : Option String) : (row.reject reason).Sound := by
  refine ⟨nofun, ?_⟩
  rintro (⟨r, hr, hagents, hcontracts⟩ | ⟨hagents, hcontracts⟩)
  · cases reason with
    | none => cases hr
    | some text =>
      cases hr
      -- the two maps are those of the row before, so it had its rationale
      cases hrow : row.rationale with
      | none =>
        rw [hrow] at hagents
        cases hagents
      | some old =>
        rw [hrow] at hagents hcontracts
        have hold := h.kept (.inl ⟨old, hrow, hagents, hcontracts⟩)
        simpa [CompositionRow.Justified, ProposalArtifact.Justified, rowToArtifact,
          CompositionRow.reject, Postgres.setRejectionReason, hrow] using hold
  · refine ⟨fun agent hagent => ?_, fun c hc => ?_⟩
    · rw [show (rowToArtifact (row.reject reason)).agents = row.agentList from rfl,
        show row.agentList = [] from hagents] at hagent
      cases hagent
    · rw [show (rowToArtifact (row.reject reason)).contracts = row.contracts from rfl,
        show row.contracts = [] from hcontracts] at hc
      cases hc

/-- In every run of any requests in which no version that has lost its rationale is approved, and no
edit that is not justified is stored, every approved version is justified. -/
theorem approved_is_justified (w : World) (hw : ∀ row ∈ w.pg.teamCompositions, row.Sound)
    (requests : ι → Request) (sched : List ι)
    (hcond : Loop.Meets (ApprovesWithRationale requests) (serving w requests) sched) :
    ∀ pre post, sched = pre ++ post →
      ∀ row ∈ ((serving w requests).run pre).store.pg.teamCompositions,
        row.status = .approved → row.Justified := by
  intro pre post hsched row hrow
  refine (compositions_invariant (P := CompositionRow.Sound) hw ?_ hcond hsched row hrow).approved
  intro c i q hi hq hasks hrows
  rcases hasks.serve_cases c.store with h | ⟨_, _, _, _, _, hcovered, h⟩ |
    ⟨_, body, _, _, _, _, _, hrequest, haction, -, -, hkey, h⟩ |
    ⟨_, body, _, _, edits, _, _, _, _, _, hrequest, haction, -, -, hedits, hkey, h⟩ |
    ⟨reason, _, _, h⟩ <;> rw [h]
  · exact hrows
  · exact List.forall_mem_append.mpr ⟨hrows, List.forall_mem_singleton.mpr
      (compositionRow_sound (validateRationaleCoverage_ok.mp hcovered))⟩
  · refine Postgres.forall_updateComposition hrows fun row hrow hrowkey => ?_
    have happroves : (requests i).approvesProposal := by
      rw [hrequest]
      simpa [Request.approvesProposal] using haction
    have hjustified := (hrows row hrow).kept ((hi q hq _ hkey).1 happroves row hrow hrowkey)
    exact ⟨fun _ => hjustified, fun _ => hjustified⟩
  · refine List.forall_mem_append.mpr ⟨?_, List.forall_mem_singleton.mpr ?_⟩
    · refine Postgres.forall_updateComposition hrows fun row hrow _ => ⟨fun happroved => ?_, ?_⟩
      · cases happroved
      · exact (hrows row hrow).kept
    · have hrequested : (requests i).edits = some edits := by
        rw [hrequest, Request.edits, if_pos haction, hedits]
        rfl
      have hjustified : edits.Justified := (hi q hq _ hkey).2 edits hrequested
      exact ⟨fun _ => CompositionRow.justified_iff.mpr hjustified,
        fun _ => CompositionRow.justified_iff.mpr hjustified⟩
  · exact Postgres.forall_updateComposition hrows fun row hrow _ => (hrows row hrow).reject reason

/-- An edit of the team of one, with this rationale for its agent. -/
def editWith (rationalePerAgent : Dict) : Request :=
  .reviewProposal "shop" ⟨some "edit", some (.text "ada"),
    .ok { rowToArtifact (Sample.team .proposed) with
      id := (Sample.uuid 300).toText, rationalePerAgent }, none⟩

theorem approved_is_justified_edit :
    ∃ row ∈ ((serving (Sample.withTeam .proposed) fun _ : Fin 1 =>
        editWith (AList.singleton "cook" "somebody has to")).run
      [0, 0, 0, 0, 0]).store.pg.teamCompositions, row.status = .approved ∧ row.Justified := by
  have happroved : ∃ row ∈ ((serving (Sample.withTeam .proposed) fun _ : Fin 1 =>
      editWith (AList.singleton "cook" "somebody has to")).run
      [0, 0, 0, 0, 0]).store.pg.teamCompositions, row.status = .approved := by
    decide +kernel
  obtain ⟨row, hrow, hstatus⟩ := happroved
  refine ⟨row, hrow, hstatus, approved_is_justified (Sample.withTeam .proposed)
    (fun row hrow => ?_) _ [0, 0, 0, 0, 0] (by decide +kernel) _ [] (List.append_nil _).symm row
    hrow hstatus⟩
  cases List.mem_singleton.mp hrow
  exact ⟨nofun, by decide⟩

/-- Nobody checks the rationale of an edit. -/
theorem approved_unjustified :
    ¬ ∀ edits, ∀ row ∈ (runAll [editWith edits] (Sample.withTeam .proposed)).pg.teamCompositions,
      row.status = .approved → row.Justified := by
  intro h
  exact absurd (h ∅) (by decide +kernel)

end AgentWorx
