import AgentWorx.Verify.Frames
import AgentWorx.Verify.Identifiers
import AgentWorx.Verify.Review
import AgentWorx.Verify.Statements

/-!
# Review calls with nobody in between

What the calls that store, read and review a proposal do when no other call runs in between: the
artifact that a writer returns is the one the next read returns, a rejection that raises has already
archived the version, and an artifact that has been fetched cannot be handed back as an edit.
-/

namespace AgentWorx

open Coop Coop.Sync Coop.Async

/-! ## The latest version -/

namespace Postgres

variable {pg : Postgres} {agentType : String} {row : CompositionRow}

theorem latestComposition_mem (h : pg.latestComposition agentType = some row) :
    row ∈ pg.teamCompositions ∧ row.agentType = agentType := by
  have hmem := List.maxOn?_mem h
  simpa using hmem

theorem latestComposition_le (h : pg.latestComposition agentType = some row) {r : CompositionRow}
    (hr : r ∈ pg.teamCompositions) (htype : r.agentType = agentType) :
    r.version ≤ row.version := by
  have hmem : r ∈ pg.teamCompositions.filter (·.agentType = agentType) := by
    simpa using ⟨hr, htype⟩
  have hle := List.le_apply_get_maxOn?_of_mem (f := CompositionRow.version) hmem
  have hget : ((pg.teamCompositions.filter (·.agentType = agentType)).maxOn?
      (·.version)).get (List.isSome_maxOn?_of_mem hmem) = row :=
    Option.get_of_eq_some _ h
  rwa [hget] at hle

theorem latestComposition_eq_none (h : pg.latestComposition agentType = none) {r : CompositionRow}
    (hr : r ∈ pg.teamCompositions) : r.agentType ≠ agentType := by
  intro htype
  have hmem : r ∈ pg.teamCompositions.filter (·.agentType = agentType) := by
    simpa using ⟨hr, htype⟩
  have hsome := List.isSome_maxOn?_of_mem (f := CompositionRow.version) hmem
  rw [latestComposition] at h
  rw [h] at hsome
  cases hsome

/-- A change that keeps the version keeps which element has the highest. -/
theorem maxOn?_map {f : CompositionRow → CompositionRow} (hf : ∀ r, (f r).version = r.version)
    (rows : List CompositionRow) :
    (rows.map f).maxOn? (·.version) = (rows.maxOn? (·.version)).map f := by
  induction rows with
  | nil => rfl
  | cons r rows ih =>
    rw [List.map_cons, List.maxOn?_cons, List.maxOn?_cons, ih]
    cases rows.maxOn? (·.version) with
    | none => rfl
    | some r' =>
      simp only [Option.map_some, Option.elim_some, maxOn_eq_if, hf]
      split_ifs <;> rfl

/-- A status update does not change which version is the latest. -/
theorem latestComposition_update {pg' : Postgres} {name : String} {version : Int}
    {f : CompositionRow → CompositionRow} (hf : ∀ r, SameProposal r (f r))
    (h : pg'.teamCompositions = updateComposition name version f pg.teamCompositions)
    (agentType : String) :
    pg'.latestComposition agentType = (pg.latestComposition agentType).map
      fun r => if r.agentType = name ∧ r.version = version then f r else r := by
  have htype : ((fun r : CompositionRow => decide (r.agentType = agentType)) ∘
      fun r => if r.agentType = name ∧ r.version = version then f r else r) =
        fun r => decide (r.agentType = agentType) := by
    funext r
    simp only [Function.comp_apply]
    split_ifs
    · rw [(hf r).agentType]
    · rfl
  simp only [latestComposition, h, updateComposition]
  rw [List.filter_map, htype]
  refine maxOn?_map (fun r => ?_) _
  split_ifs
  · exact (hf r).version
  · rfl

/-- A row with a higher version than all of its agent type is the latest. -/
theorem latestComposition_append {rows : List CompositionRow}
    (h : pg.teamCompositions = rows ++ [row])
    (hnext : ∀ r ∈ rows, r.agentType = row.agentType → r.version < row.version) :
    pg.latestComposition row.agentType = some row := by
  simp only [latestComposition, h, List.filter_append, List.filter_cons, List.filter_nil,
    decide_true, if_true, List.maxOn?_append, List.maxOn?_singleton]
  cases hlatest : (rows.filter (·.agentType = row.agentType)).maxOn? (·.version) with
  | none => rfl
  | some r =>
    have hmem := List.maxOn?_mem hlatest
    simp only [List.mem_filter, decide_eq_true_eq] at hmem
    have hlt := hnext r hmem.1 hmem.2
    rw [Option.merge_some_some, maxOn_eq_right (not_le.mpr hlt)]

/-! ## Writes -/

theorem write_approveComposition {pg' : Postgres} {expertSignature : TextParam}
    {signedAt version : Int}
    (h : pg.write (.approveComposition expertSignature signedAt agentType version) = .ok pg') :
    ∃ signature, expertSignature.encodeVarchar 200 = .ok signature ∧
      pg' = { pg with
        teamCompositions := updateComposition agentType version
          (fun row => { row with
            status := .approved, expertSignature := signature, signedAt := some signedAt })
          pg.teamCompositions } := by
  simp only [write, except_bind_eq_ok] at h
  obtain ⟨signature, hsignature, h⟩ := h
  cases h
  exact ⟨signature, hsignature, rfl⟩

/-- An inserted row has an id and a version of its own. -/
theorem write_insertComposition_eq {pg' : Postgres} {expertSignature : TextParam}
    (h : pg.write (.insertComposition row expertSignature) = .ok pg') :
    ∃ signature, expertSignature.encodeVarchar 200 = .ok signature ∧
      (∀ r ∈ pg.teamCompositions, r.id ≠ row.id) ∧
      pg' = { pg with
        teamCompositions :=
          pg.teamCompositions ++ [{ row with expertSignature := signature }] } := by
  simp only [write, except_bind_eq_ok] at h
  obtain ⟨signature, hsignature, u1, -, u2, -, u3, hid, u4, -, h⟩ := h
  cases h
  have hid := checkUnique_ok hid
  exact ⟨signature, hsignature, by simpa using hid, rfl⟩

end Postgres

/-! ## The calls -/

variable {w : World}

/-- A statement raises, without effect, if the store fails or refuses it. -/
theorem sql_alone (q : Sql) : TripleAlone (sql q) w
    (fun a w' => ¬ w.Fails .postgres ∧ ∃ pg, w.pg.eval q = .ok (a, pg) ∧ w' = w.bump.setPg pg)
    fun e w' => w' = w.bump ∧ (w.Fails .postgres ∨ w.pg.eval q = .error e) := by
  have hrun : (sql q).runAlone w = World.serve q w := rfl
  unfold TripleAlone
  rw [hrun, World.serve, World.call]
  by_cases hfail : w.Fails .postgres
  · rw [if_pos hfail]
    exact ⟨rfl, .inl hfail⟩
  · rw [if_neg hfail, World.bump_pg]
    cases heval : w.pg.eval q with
    | error e => exact ⟨rfl, .inr rfl⟩
    | ok r => exact ⟨hfail, r.2, rfl, rfl⟩

theorem getLatestProposal_alone (agentType : String) :
    TripleAlone (getLatestProposal agentType) w
    (fun found w' => ¬ w.Fails .postgres ∧
      found = (w.pg.latestComposition agentType).map rowToArtifact ∧ w' = w.bump)
    fun _ w' => w' = w.bump ∧ w.Fails .postgres := by
  refine .bind ((sql_alone (.selectLatestComposition agentType)).mono (fun a w' h => h) ?_) ?_
  · rintro e w' ⟨rfl, hfail | heval⟩
    · exact ⟨rfl, hfail⟩
    · cases heval
  · rintro row w' ⟨hserved, pg, heval, rfl⟩
    cases heval
    exact .pure ⟨hserved, rfl, rfl⟩

/-- The guard of the review calls. -/
theorem requireMutableLatest_alone (agentType : String) :
    TripleAlone (requireMutableLatest agentType) w
    (fun latest w' => ¬ w.Fails .postgres ∧ w' = w.bump ∧ latest.Mutable ∧
      ∃ row, w.pg.latestComposition agentType = some row ∧ latest = rowToArtifact row)
    fun _ w' => w' = w.bump ∧ (w.Fails .postgres ∨ ∀ row,
      w.pg.latestComposition agentType = some row → ¬ (rowToArtifact row).Mutable) := by
  refine .bind ((getLatestProposal_alone agentType).mono (fun a w' h => h) ?_) ?_
  · rintro e w' ⟨rfl, hfail⟩
    exact ⟨rfl, .inl hfail⟩
  · rintro found w' ⟨hserved, rfl, rfl⟩
    cases hlatest : w.pg.latestComposition agentType with
    | none => exact .throw ⟨rfl, .inr fun row hrow => by cases hrow⟩
    | some row =>
      simp only [Option.map_some]
      split_ifs with hmutable
      · exact .pure ⟨hserved, rfl, hmutable, row, rfl, rfl⟩
      · refine .throw ⟨rfl, .inr fun row' hrow => ?_⟩
        cases hrow
        exact hmutable

/-- The guard lets a version that is mutable pass, over a store that serves. -/
theorem requireMutableLatest_returns {agentType : String} {row : CompositionRow}
    (hserved : ¬ w.Fails .postgres) (hlatest : w.pg.latestComposition agentType = some row)
    (hmutable : (rowToArtifact row).Mutable) :
    TripleAlone (requireMutableLatest agentType) w
      (fun latest w' => latest = rowToArtifact row ∧ w' = w.bump) fun _ _ => False := by
  refine (requireMutableLatest_alone agentType).mono ?_ ?_
  · rintro latest w' ⟨-, rfl, -, row', hlatest', rfl⟩
    rw [hlatest] at hlatest'
    cases hlatest'
    exact ⟨rfl, rfl⟩
  · rintro e w' ⟨-, hfail | hno⟩
    · exact hserved hfail
    · exact hno row hlatest hmutable

/-- What follows the guard sees the latest version; the guard, raising, has changed nothing. -/
theorem mutableLatest_bind {α : Type} {agentType : String} {g : ProposalArtifact → Async host α}
    {Q : α → World → Prop}
    (hg : ∀ row, w.pg.latestComposition agentType = some row →
      TripleAlone (g (rowToArtifact row)) w.bump Q fun _ w' => w'.pg = w.pg) :
    TripleAlone (requireMutableLatest agentType >>= g) w Q fun _ w' => w'.pg = w.pg := by
  refine .bind ((requireMutableLatest_alone agentType).mono (fun a w' h => h) ?_) ?_
  · rintro e w' ⟨rfl, -⟩
    rfl
  · rintro latest w' ⟨-, rfl, -, row, hlatest, rfl⟩
    exact hg row hlatest

/-- The row of the latest version after its approval. -/
def CompositionRow.approve (row : CompositionRow) (signature : Option String) (signedAt : Int) :
    CompositionRow :=
  { row with status := .approved, expertSignature := signature, signedAt := some signedAt }

/-- An approval that returns has signed the latest version; one that raises has changed nothing. -/
theorem approveProposal_alone (agentType : String) (expertId : TextParam) :
    TripleAlone (approveProposal agentType expertId) w
      (fun artifact w' => ∃ row signature signedAt,
        w.pg.latestComposition agentType = some row ∧
        expertId.encodeVarchar 200 = .ok signature ∧
        artifact = { rowToArtifact row with
          status := .approved, expertSignature := expertId.toOption
          signedAt := some (asAwareUtc signedAt) } ∧
        w'.pg = { w.pg with
          teamCompositions := Postgres.updateComposition agentType row.version
            (·.approve signature signedAt) w.pg.teamCompositions })
      fun _ w' => w'.pg = w.pg := by
  refine mutableLatest_bind fun row hlatest => ?_
  refine .bind (.lift (datetimeNow_triple
    (Q := fun signedAt w' => signedAt = asAwareUtc signedAt.micros ∧ w'.pg = w.pg) ⟨rfl, rfl⟩)) ?_
  rintro signedAt w1 ⟨hsigned, hw1⟩
  refine .bind ((sql_alone _).mono (fun a w' h => h) ?_) ?_
  · rintro e w' ⟨rfl, -⟩
    exact hw1
  · rintro u w' ⟨-, pg, heval, rfl⟩
    have hwrite := Postgres.eval_execute heval
    obtain ⟨signature, hsignature, rfl⟩ := Postgres.write_approveComposition hwrite
    rw [hw1]
    exact .pure ⟨row, signature, signedAt.micros, hlatest, hsignature, by rw [← hsigned], rfl⟩

/-- The row that an edit of `version` inserts. -/
def editedRow (id : UUID) (agentType : String) (version : Int) (edits : ProposalArtifact)
    (signature : Option String) (signedAt createdAt : Int) : CompositionRow :=
  { compositionRow id agentType (version + 1) edits .approved (some signedAt) createdAt with
    expertSignature := signature }

/-- The transaction of an edit archives the version and inserts the edits after it. -/
theorem writeAll_editTransaction {pg pg' : Postgres} {agentType : String} {expertId : TextParam}
    {edits : ProposalArtifact} {version : Int} {signedAt createdAt : Datetime}
    (h : pg.writeAll (editTransaction agentType expertId edits version signedAt createdAt) =
      .ok pg') :
    ∃ id signature, UUID.parse edits.id = some id ∧ (∀ r ∈ pg.teamCompositions, r.id ≠ id) ∧
      expertId.encodeVarchar 200 = .ok signature ∧
      pg'.teamCompositions = Postgres.updateComposition agentType version
        (fun row => { row with status := .archived }) pg.teamCompositions ++
          [editedRow id agentType version edits signature signedAt.micros createdAt.micros] := by
  simp only [Postgres.writeAll, editTransaction, List.foldlM_cons, List.foldlM_nil,
    except_bind_eq_ok] at h
  obtain ⟨pg1, ⟨wr1, hwr1, hpg1⟩, pg2, ⟨wr2, hwr2, hpg2⟩, hpg⟩ := h
  cases hwr1
  cases hpg1
  cases hpg
  cases hid : UUID.parse edits.id with
  | none =>
    rw [parseUUID, hid] at hwr2
    cases hwr2
  | some id =>
    rw [parseUUID, hid] at hwr2
    cases hwr2
    obtain ⟨signature, hsignature, hnew, rfl⟩ := Postgres.write_insertComposition_eq hpg2
    refine ⟨id, signature, rfl, fun r hr => ?_, hsignature, rfl⟩
    have := hnew _ (List.mem_map_of_mem hr)
    split_ifs at this <;> exact this

/-- An edit that returns has archived the latest version and inserted the next one, under the id of
the edits, which was not taken; one that raises has changed nothing. -/
theorem editProposal_alone (agentType : String) (expertId : TextParam)
    (edits : ProposalArtifact) :
    TripleAlone (editProposal agentType expertId edits) w
      (fun artifact w' => ∃ row id signature signedAt createdAt,
        w.pg.latestComposition agentType = some row ∧ UUID.parse edits.id = some id ∧
        (∀ r ∈ w.pg.teamCompositions, r.id ≠ id) ∧
        expertId.encodeVarchar 200 = .ok signature ∧
        artifact = { edits with
          agentTypeId := agentType, version := row.version + 1, status := .approved
          expertSignature := expertId.toOption, signedAt := some (asAwareUtc signedAt)
          createdAt := asAwareUtc createdAt } ∧
        w'.pg.teamCompositions = Postgres.updateComposition agentType row.version
          (fun row => { row with status := .archived }) w.pg.teamCompositions ++
            [editedRow id agentType row.version edits signature signedAt createdAt])
      fun _ w' => w'.pg = w.pg := by
  refine mutableLatest_bind fun row hlatest => ?_
  refine .bind (.lift (datetimeNow_triple
    (Q := fun signedAt w' => signedAt = asAwareUtc signedAt.micros ∧ w'.pg = w.pg) ⟨rfl, rfl⟩)) ?_
  rintro signedAt w1 ⟨hsigned, hw1⟩
  refine .bind (.lift (datetimeNow_triple
    (Q := fun createdAt w' => createdAt = asAwareUtc createdAt.micros ∧ w'.pg = w.pg)
    ⟨rfl, hw1⟩)) ?_
  rintro createdAt w2 ⟨hcreated, hw2⟩
  refine .bind ((sql_alone _).mono (fun a w' h => h) ?_) ?_
  · rintro e w' ⟨rfl, -⟩
    exact hw2
  · rintro u w' ⟨-, pg, heval, rfl⟩
    have hall : w.pg.writeAll (editTransaction agentType expertId edits row.version signedAt
        createdAt) = .ok pg := by
      rw [← hw2]
      exact Postgres.eval_transaction heval
    obtain ⟨id, signature, hid, hnew, hsignature, hcompositions⟩ := writeAll_editTransaction hall
    refine .pure ⟨row, id, signature, signedAt.micros, createdAt.micros, hlatest, hid, hnew,
      hsignature, ?_, hcompositions⟩
    rw [← hsigned, ← hcreated]
    rfl

/-- An id that is taken is refused, if the columns before it are accepted. -/
theorem Postgres.write_insertComposition_taken {pg : Postgres} {row : CompositionRow}
    {expertSignature : TextParam} {signature : Option String}
    (hsignature : expertSignature.encodeVarchar 200 = .ok signature)
    (hlength : row.agentType.length ≤ 100)
    (hversion : -2147483648 ≤ row.version ∧ row.version ≤ 2147483647)
    (htaken : ∃ r ∈ pg.teamCompositions, r.id = row.id) :
    pg.write (.insertComposition row expertSignature) =
      .error (.uniqueViolation "team_compositions_pkey") := by
  have hany : pg.teamCompositions.any (·.id = row.id) = true := by simpa using htaken
  simp only [write, hsignature, checkLength, hlength, if_true, checkInt, hversion, and_self,
    checkUnique, hany]
  rfl

/-- A new proposal is stored under the number after the highest one. -/
theorem persistProposal_alone (agentType : String) (artifact : ProposalArtifact) :
    TripleAlone (persistProposal agentType artifact) w
      (fun stored w' => ∃ id version, UUID.parse artifact.id = some id ∧
        (∀ r ∈ w.pg.teamCompositions, r.agentType = agentType → r.version < version) ∧
        stored = { artifact with version } ∧
        w'.pg = { w.pg with
          teamCompositions := w.pg.teamCompositions ++
            [compositionRow id agentType version artifact .proposed none
              artifact.createdAt.micros] })
      fun _ w' => w'.pg = w.pg := by
  refine .bind ((sql_alone (.selectMaxVersion agentType)).mono (fun a w' h => h) ?_) ?_
  · rintro e w' ⟨rfl, -⟩
    rfl
  · rintro maxVersion w' ⟨-, pg, heval, rfl⟩
    cases heval
    have hnext : ∀ r ∈ w.pg.teamCompositions, r.agentType = agentType →
        r.version < ((w.pg.latestComposition agentType).map (·.version)).getD 0 + 1 := by
      intro r hr htype
      cases hlatest : w.pg.latestComposition agentType with
      | none => exact absurd htype (Postgres.latestComposition_eq_none hlatest hr)
      | some row => exact Int.lt_add_one_iff.mpr (Postgres.latestComposition_le hlatest hr htype)
    simp only [parseUUID]
    cases hid : UUID.parse artifact.id with
    | none => exact .throw rfl
    | some id =>
      refine .bind ((sql_alone _).mono (fun a w' h => h) ?_) ?_
      · rintro e w' ⟨rfl, -⟩
        rfl
      · rintro u w' ⟨-, pg, heval, rfl⟩
        have hwrite := Postgres.eval_execute heval
        obtain ⟨signature, hsignature, -, rfl⟩ := Postgres.write_insertComposition_eq hwrite
        cases hsignature
        exact .pure ⟨id, _, rfl, hnext, rfl, rfl⟩

/-- What a draft is made of. -/
structure Drafted (agentType : String) (artifact : ProposalArtifact) : Prop where
  id : ∃ u : UUID, artifact.id = u.toText
  agentTypeId : artifact.agentTypeId = agentType
  status : artifact.status = .proposed
  createdAt : artifact.createdAt = asAwareUtc artifact.createdAt.micros
  expertSignature : artifact.expertSignature = none
  signedAt : artifact.signedAt = none
  covered : validateRationaleCoverage artifact = .ok ()

theorem draftProposal_yields (agentType agentGoal taskBoundary : String)
    (declaredTopology : TopologyType) (workflowParticipants : List String)
    (rejectionContext : Option String) :
    Yields (Drafted agentType) (draftProposal agentType agentGoal taskBoundary declaredTopology
      workflowParticipants rejectionContext) := by
  refine .bind' fun _ => .bind' fun _ => .bind' fun _ => .bind' fun _ => .bind' fun _ =>
    .bind' fun _ => .bind' fun _ => .bind' fun _ => .bind' fun _ => .bind' fun _ =>
      .bind' fun _ => ?_
  refine .bind (P := fun createdAt => createdAt = asAwareUtc createdAt.micros) ?_
    fun createdAt hcreated => ?_
  · intro w createdAt h
    cases h
    rfl
  · refine .bind (P := fun _ => validateRationaleCoverage _ = .ok ()) (fun w u h => h)
      fun _ hcovered => .pure ?_
    exact ⟨⟨_, rfl⟩, rfl, rfl, hcreated, rfl, rfl, hcovered⟩

/-- A generated proposal is a draft that has been stored. -/
theorem generateProposal_alone (agentType agentGoal taskBoundary : String)
    (declaredTopology : TopologyType) (workflowParticipants : List String)
    (rejectionContext : Option String) :
    TripleAlone (generateProposal agentType agentGoal taskBoundary declaredTopology
        workflowParticipants rejectionContext) w
      (fun stored w' => ∃ id version, Drafted agentType stored ∧ UUID.parse stored.id = some id ∧
        stored.version = version ∧
        (∀ r ∈ w.pg.teamCompositions, r.agentType = agentType → r.version < version) ∧
        w'.pg = { w.pg with
          teamCompositions := w.pg.teamCompositions ++
            [compositionRow id agentType version stored .proposed none stored.createdAt.micros] })
      fun _ w' => w'.pg = w.pg := by
  have hdraft := Triple.of_keeps (keeps_draftProposal (R := Same World.pg) agentType agentGoal
    taskBoundary declaredTopology workflowParticipants rejectionContext) w
  have hyields := draftProposal_yields agentType agentGoal taskBoundary declaredTopology
    workflowParticipants rejectionContext w
  refine .bind (M := fun artifact (w' : World) => w'.pg = w.pg ∧ Drafted agentType artifact)
    (.lift ?_) fun artifact w1 hw1 => ?_
  · unfold Triple at hdraft ⊢
    rcases hx : (draftProposal agentType agentGoal taskBoundary declaredTopology
      workflowParticipants rejectionContext).exec w with ⟨e | artifact, w1⟩ <;>
      rw [hx] at hdraft hyields
    · exact hdraft
    · exact ⟨hdraft, hyields artifact rfl⟩
  · obtain ⟨hpg, hdrafted⟩ := hw1
    have hpersist := persistProposal_alone (w := w1) agentType artifact
    rw [hpg] at hpersist
    refine hpersist.mono ?_ fun _ _ h => h
    rintro stored w2 ⟨id, version, hid, hnext, rfl, hw2⟩
    exact ⟨id, version, ⟨hdrafted.id, hdrafted.agentTypeId, hdrafted.status, hdrafted.createdAt,
      hdrafted.expertSignature, hdrafted.signedAt, hdrafted.covered⟩, hid, rfl, hnext, hw2⟩

/-! ## What is read back -/

/-- A stored signature is the one that was given, up to blanks beyond its 200th character. -/
def SameSignature : Option String → Option String → Prop
  | none, none => True
  | some text, some stored => stored = text ∨
      stored.length = 200 ∧ ∃ k, text.toList = stored.toList ++ List.replicate k ' '
  | _, _ => False

/-- The artifacts agree in every field, their ids as UUIDs. -/
structure SameArtifact (artifact found : ProposalArtifact) : Prop where
  id : ∃ u, UUID.parse artifact.id = some u ∧ UUID.parse found.id = some u
  signature : SameSignature artifact.expertSignature found.expertSignature
  rest : artifact = { found with id := artifact.id, expertSignature := artifact.expertSignature }

/-- The next read of the latest proposal returns the artifact, unless the store fails. -/
def ReadsBack (agentType : String) (artifact : ProposalArtifact) (w : World) : Prop :=
  ¬ w.Fails .postgres → ∃ found,
    (getLatestProposal agentType).runAlone w = (.ok (some found), w.bump) ∧
      SameArtifact artifact found

theorem encodeVarchar_same {p : TextParam} {signature : Option String}
    (h : p.encodeVarchar 200 = .ok signature) : SameSignature p.toOption signature := by
  cases p with
  | null =>
    cases h
    trivial
  | other => cases h
  | text s =>
    simp only [TextParam.encodeVarchar] at h
    split_ifs at h with hshort hblanks
    · cases h
      exact .inl rfl
    · cases h
      refine .inr ⟨?_, (s.toList.drop 200).length, ?_⟩
      · rw [String.length_ofList, List.length_take, String.length_toList]
        omega
      · have hrest : s.toList.drop 200 = List.replicate (s.toList.drop 200).length ' ' :=
          List.eq_replicate_of_mem fun c hc => by simpa using List.all_eq_true.mp hblanks c hc
        rw [String.toList_ofList, ← hrest, List.take_append_drop]

theorem readsBack_of_latest {agentType : String} {artifact : ProposalArtifact}
    (row : CompositionRow) (hlatest : w.pg.latestComposition agentType = some row)
    (hsame : SameArtifact artifact (rowToArtifact row)) : ReadsBack agentType artifact w := by
  intro hserved
  have hread := getLatestProposal_alone (w := w) agentType
  rcases hx : (getLatestProposal agentType).runAlone w with ⟨e | found, w'⟩
  · exact absurd (hread.of_error hx).2 hserved
  · obtain ⟨-, rfl, rfl⟩ := hread.of_ok hx
    exact ⟨rowToArtifact row, by rw [hlatest]; rfl, hsame⟩

/-- The approved row is the latest. -/
theorem approved_latest {agentType : String} {row : CompositionRow} {signature : Option String}
    {signedAt : Int} {pg : Postgres} (hlatest : w.pg.latestComposition agentType = some row)
    (hpg : pg.teamCompositions = Postgres.updateComposition agentType row.version
      (·.approve signature signedAt) w.pg.teamCompositions) :
    pg.latestComposition agentType = some (row.approve signature signedAt) := by
  have htype := (Postgres.latestComposition_mem hlatest).2
  rw [Postgres.latestComposition_update (f := (·.approve signature signedAt))
    (fun r => ⟨rfl, rfl, rfl, rfl, rfl, rfl, rfl⟩) hpg agentType, hlatest]
  simp [htype]

/-- The artifact that a generation, an approval or an edit returns is the one that is read next. -/
theorem artifacts_round_trip (w : World) (agentType : String) :
    (∀ agentGoal taskBoundary declaredTopology workflowParticipants rejectionContext artifact w',
      (generateProposal agentType agentGoal taskBoundary declaredTopology workflowParticipants
        rejectionContext).runAlone w = (.ok artifact, w') → ReadsBack agentType artifact w') ∧
    (∀ expertId artifact w', (approveProposal agentType expertId).runAlone w = (.ok artifact, w') →
      ReadsBack agentType artifact w') ∧
    ∀ expertId edits artifact w',
      (editProposal agentType expertId edits).runAlone w = (.ok artifact, w') →
      ReadsBack agentType artifact w' := by
  refine ⟨?_, ?_, ?_⟩
  · intro agentGoal taskBoundary declaredTopology workflowParticipants rejectionContext artifact
      w' h
    have hgenerate := generateProposal_alone (w := w) agentType agentGoal taskBoundary
      declaredTopology workflowParticipants rejectionContext
    obtain ⟨id, version, hdrafted, hid, rfl, hnext, hpg⟩ := hgenerate.of_ok h
    refine readsBack_of_latest (compositionRow id agentType artifact.version artifact
      .proposed none artifact.createdAt.micros) ?_ ⟨⟨id, hid, UUID.parse_toText id⟩, ?_, ?_⟩
    · exact Postgres.latestComposition_append (congrArg Postgres.teamCompositions hpg) hnext
    · rw [hdrafted.expertSignature]
      trivial
    · cases artifact
      obtain ⟨-, rfl, rfl, hcreated, rfl, rfl, -⟩ := hdrafted
      simp only [rowToArtifact, compositionRow, Option.bind_some, Option.getD_some, Option.map_none]
      rw [← hcreated]
  · intro expertId artifact w' h
    have happrove := approveProposal_alone (w := w) agentType expertId
    obtain ⟨row, signature, signedAt, hlatest, hsignature, rfl, hpg⟩ := happrove.of_ok h
    exact readsBack_of_latest (row.approve signature signedAt)
      (approved_latest hlatest (congrArg Postgres.teamCompositions hpg))
      ⟨⟨row.id, UUID.parse_toText _, UUID.parse_toText _⟩, encodeVarchar_same hsignature, rfl⟩
  · intro expertId edits artifact w' h
    have hedit := editProposal_alone (w := w) agentType expertId edits
    obtain ⟨row, id, signature, signedAt, createdAt, hlatest, hid, -, hsignature, rfl, hpg⟩ :=
      hedit.of_ok h
    refine readsBack_of_latest
      (editedRow id agentType row.version edits signature signedAt createdAt) ?_
      ⟨⟨id, hid, UUID.parse_toText id⟩, encodeVarchar_same hsignature, rfl⟩
    refine Postgres.latestComposition_append hpg fun r hr htype => ?_
    obtain ⟨old, hold, rfl⟩ := List.mem_map.mp hr
    have hle := Postgres.latestComposition_le hlatest hold
    split_ifs at htype ⊢
    · exact Int.lt_add_one_iff.mpr (hle htype)
    · exact Int.lt_add_one_iff.mpr (hle htype)

theorem artifacts_round_trip_approved : ∃ artifact w',
    (approveProposal "shop" (.text "ada")).runAlone (Sample.withTeam .proposed) =
      (.ok artifact, w') ∧ ReadsBack "shop" artifact w' := by
  have hok : ((approveProposal "shop" (.text "ada")).runAlone
      (Sample.withTeam .proposed)).1.isOk := by
    decide +kernel
  rcases hx : (approveProposal "shop" (.text "ada")).runAlone (Sample.withTeam .proposed) with
    ⟨e | artifact, w'⟩ <;> rw [hx] at hok
  · cases hok
  · exact ⟨artifact, w', rfl, (artifacts_round_trip _ "shop").2.1 (.text "ada") artifact w' hx⟩

/-- A blank too many is dropped. -/
theorem encodeVarchar_blank {s : String} (h : s.length = 200) :
    TextParam.encodeVarchar 200 (.text (s ++ " ")) = .ok (some s) := by
  have hlist : s.toList.length = 200 := by rw [String.length_toList, h]
  have hlong : ¬ (s ++ " ").length ≤ 200 := by
    rw [String.length_append, h]
    decide
  have hdrop : (s ++ " ").toList.drop 200 = [' '] := by
    rw [String.toList_append, List.drop_left' hlist]
    rfl
  have htake : String.ofList ((s ++ " ").toList.take 200) = s := by
    rw [String.toList_append, List.take_left' hlist, String.ofList_toList]
  simp only [TextParam.encodeVarchar, if_neg hlong, hdrop, htake]
  rfl

/-- An approval that nothing prevents returns. -/
theorem approveProposal_returns {agentType : String} {expertId : TextParam} {row : CompositionRow}
    {signature : Option String} (hserved : ∀ n, w.env.fault n .postgres = false)
    (hlatest : w.pg.latestComposition agentType = some row) (hmutable : (rowToArtifact row).Mutable)
    (hsignature : expertId.encodeVarchar 200 = .ok signature) :
    TripleAlone (approveProposal agentType expertId) w (fun _ w' => w'.env = w.env)
      fun _ _ => False := by
  have hfails (n : Nat) : ¬ ({ w with tick := n } : World).Fails .postgres := by
    simp [World.Fails, hserved]
  refine .bind (requireMutableLatest_returns (hfails w.tick) hlatest hmutable) ?_
  rintro latest w' ⟨rfl, rfl⟩
  refine .bind (.lift (datetimeNow_triple (Q := fun _ w' => w' = w.bump.bump) rfl)) ?_
  rintro signedAt w1 rfl
  refine .bind ((sql_alone _).mono (fun a w' h => h) ?_) ?_
  · rintro e w' ⟨-, hfail | heval⟩
    · exact hfails _ hfail
    · simp only [Postgres.eval, Postgres.write, hsignature] at heval
      cases heval
  · rintro u w' ⟨-, pg, -, rfl⟩
    exact .pure rfl

/-- A text that fills the column of a signature. -/
@[irreducible] def longSignature : String := String.ofList (List.replicate 200 'a')

/-- The column drops the blank, the artifact that the approval returns keeps it. -/
theorem signature_not_read_back :
    ¬ ∀ expertId artifact found w' w'',
      (approveProposal "shop" expertId).runAlone (Sample.withTeam .proposed) = (.ok artifact, w') →
      (getLatestProposal "shop").runAlone w' = (.ok (some found), w'') →
      found.expertSignature = artifact.expertSignature := by
  intro h
  have hlength : longSignature.length = 200 := by
    unfold longSignature
    exact String.length_ofList.trans List.length_replicate
  have hlatest : (Sample.withTeam .proposed).pg.latestComposition "shop" =
      some (Sample.team .proposed) := rfl
  have hreturns := approveProposal_returns (fun _ => rfl) hlatest (by decide)
    (encodeVarchar_blank hlength)
  have happrove := approveProposal_alone (w := Sample.withTeam .proposed) "shop"
    (.text (longSignature ++ " "))
  rcases hx : (approveProposal "shop" (.text (longSignature ++ " "))).runAlone
    (Sample.withTeam .proposed) with ⟨e | artifact, w'⟩
  · exact hreturns.of_error hx
  · obtain ⟨row, signature, signedAt, hlatest, hsignature, rfl, hpg⟩ := happrove.of_ok hx
    obtain rfl : signature = some longSignature :=
      Except.ok.inj (hsignature.symm.trans (encodeVarchar_blank hlength))
    have hfound := getLatestProposal_alone (w := w') "shop"
    rcases hy : (getLatestProposal "shop").runAlone w' with ⟨e | found, w''⟩
    · have hfault := (hfound.of_error hy).2
      rw [World.Fails, hreturns.of_ok hx] at hfault
      cases hfault
    · obtain ⟨-, rfl, -⟩ := hfound.of_ok hy
      rw [approved_latest hlatest (congrArg Postgres.teamCompositions hpg)] at hy
      have heq := h _ _ _ w' w'' hx hy
      have hsame : longSignature = longSignature ++ " " := Option.some.inj heq
      have := congrArg String.length hsame
      rw [String.length_append] at this
      exact absurd this (by simp)

/-! ## Handing back what has been fetched -/

/-- An edit under the id of a stored row is refused by the primary key, if by nothing before it. -/
theorem editProposal_taken {agentType : String} {expertId : TextParam} {edits : ProposalArtifact}
    {row r : CompositionRow} {signature : Option String}
    (hserved : ∀ n, w.env.fault n .postgres = false)
    (hlatest : w.pg.latestComposition agentType = some row) (hmutable : (rowToArtifact row).Mutable)
    (hsignature : expertId.encodeVarchar 200 = .ok signature) (hlength : agentType.length ≤ 100)
    (hversion : -2147483648 ≤ row.version + 1 ∧ row.version + 1 ≤ 2147483647)
    (hr : r ∈ w.pg.teamCompositions) (hid : UUID.parse edits.id = some r.id) :
    ((editProposal agentType expertId edits).runAlone w).1 =
      .error (.uniqueViolation "team_compositions_pkey") := by
  have hfails (n : Nat) : ¬ ({ w with tick := n } : World).Fails .postgres := by
    simp [World.Fails, hserved]
  have htaken : ∃ old ∈ Postgres.updateComposition agentType row.version
      (fun r => { r with status := .archived }) w.pg.teamCompositions, old.id = r.id := by
    refine ⟨_, List.mem_map_of_mem hr, ?_⟩
    split_ifs <;> rfl
  have hrefused (signedAt createdAt : Datetime) :
      w.pg.writeAll (editTransaction agentType expertId edits row.version signedAt createdAt) =
        .error (.uniqueViolation "team_compositions_pkey") := by
    have hinsert : ({ w.pg with
        teamCompositions := Postgres.updateComposition agentType row.version
          (fun r => { r with status := .archived }) w.pg.teamCompositions } : Postgres).write
        (.insertComposition (compositionRow r.id agentType (row.version + 1) edits .approved
          (some signedAt.micros) createdAt.micros) expertId) =
        .error (.uniqueViolation "team_compositions_pkey") :=
      Postgres.write_insertComposition_taken hsignature hlength hversion htaken
    simp only [Postgres.writeAll, editTransaction, parseUUID, hid, Except.map, List.foldlM_cons,
      List.foldlM_nil]
    exact congrArg (· >>= pure) hinsert
  have hedit : TripleAlone (editProposal agentType expertId edits) w (fun _ _ => False)
      fun e _ => e = .uniqueViolation "team_compositions_pkey" := by
    refine .bind ((requireMutableLatest_returns (hfails w.tick) hlatest hmutable).mono
      (fun _ _ h => h) fun _ _ h => h.elim) ?_
    rintro latest w' ⟨rfl, rfl⟩
    refine .bind (.lift (datetimeNow_triple (Q := fun _ w' => w' = w.bump.bump) rfl)) ?_
    rintro signedAt w1 rfl
    refine .bind (.lift (datetimeNow_triple (Q := fun _ w' => w' = w.bump.bump.bump) rfl)) ?_
    rintro createdAt w2 rfl
    refine .bind (M := fun _ _ => False) ((sql_alone _).mono ?_ ?_) fun _ _ h => h.elim
    · rintro u w' ⟨-, pg, heval, -⟩
      simp only [Postgres.eval, World.bump_pg, rowToArtifact, hrefused] at heval
      cases heval
    · rintro e w' ⟨-, hfail | heval⟩
      · exact absurd hfail (hfails _)
      · simp only [Postgres.eval, World.bump_pg, rowToArtifact, hrefused] at heval
        cases heval
        rfl
  rcases hx : (editProposal agentType expertId edits).runAlone w with ⟨e | artifact, w'⟩
  · rw [hedit.of_error hx]
  · exact (hedit.of_ok hx).elim

/-- An artifact that has been fetched, whatever is replaced in its content, is never accepted as an
edit: the tables stay as they are, and if nothing else is wrong, it is the primary key that refuses
the id of the fetched version. -/
theorem fetched_edit_raises (w : World) (agentType : String) (expertId : TextParam)
    (latest : ProposalArtifact) (w1 : World)
    (hfetched : (getLatestProposal agentType).runAlone w = (.ok (some latest), w1))
    (topology : TopologyType) (agents : List AgentContract) (contracts : List HandoffContract)
    (rationalePerAgent rationalePerContract : Dict) :
    (¬ ∃ artifact, ((editProposal agentType expertId { latest with
        topology, agents, contracts, rationalePerAgent, rationalePerContract }).runAlone w1).1 =
          .ok artifact) ∧
    ((editProposal agentType expertId { latest with
        topology, agents, contracts, rationalePerAgent, rationalePerContract }).runAlone w1).2.pg =
          w.pg ∧
    (latest.Mutable → (∀ n, w.env.fault n .postgres = false) → agentType.length ≤ 100 →
      (∃ signature, expertId.encodeVarchar 200 = .ok signature) →
      -2147483648 ≤ latest.version + 1 ∧ latest.version + 1 ≤ 2147483647 →
      ((editProposal agentType expertId { latest with
        topology, agents, contracts, rationalePerAgent, rationalePerContract }).runAlone w1).1 =
          .error (.uniqueViolation "team_compositions_pkey")) := by
  obtain ⟨-, hfound, rfl⟩ := (getLatestProposal_alone (w := w) agentType).of_ok hfetched
  obtain ⟨row, hlatest, rfl⟩ := Option.map_eq_some_iff.mp hfound.symm
  have hmem := (Postgres.latestComposition_mem hlatest).1
  have hedit := editProposal_alone (w := w.bump) agentType expertId { rowToArtifact row with
    topology, agents, contracts, rationalePerAgent, rationalePerContract }
  refine ⟨?_, ?_, fun hmutable hserved hlength ⟨signature, hsignature⟩ hversion =>
    editProposal_taken hserved hlatest hmutable hsignature hlength hversion hmem
      (UUID.parse_toText row.id)⟩
  all_goals
    rcases hx : (editProposal agentType expertId { rowToArtifact row with
        topology, agents, contracts, rationalePerAgent, rationalePerContract }).runAlone w.bump with
      ⟨e | artifact, w'⟩
  · rintro ⟨artifact, hok⟩
    cases hok
  · obtain ⟨_, id, _, _, _, -, hid, hnew, -⟩ := hedit.of_ok hx
    cases (UUID.parse_toText row.id).symm.trans hid
    exact absurd rfl (hnew row hmem)
  · exact hedit.of_error hx
  · obtain ⟨_, id, _, _, _, -, hid, hnew, -⟩ := hedit.of_ok hx
    cases (UUID.parse_toText row.id).symm.trans hid
    exact absurd rfl (hnew row hmem)

theorem fetched_edit_raises_shop :
    ((editProposal "shop" (.text "ada") (rowToArtifact (Sample.team .proposed))).runAlone
      ((getLatestProposal "shop").runAlone (Sample.withTeam .proposed)).2).1 =
        .error (.uniqueViolation "team_compositions_pkey") :=
  (fetched_edit_raises (Sample.withTeam .proposed) "shop" (.text "ada")
    (rowToArtifact (Sample.team .proposed)) _ rfl .pipeline [Sample.cook] [] ∅ ∅).2.2
    (by decide) (fun _ => rfl) (by decide) ⟨some "ada", rfl⟩ (by decide)

/-- Handing back the fetched artifact as it is. -/
theorem fetched_edit_fails :
    ¬ ∀ (w : World) agentType expertId latest w1,
      (getLatestProposal agentType).runAlone w = (.ok (some latest), w1) → latest.Mutable →
      ((editProposal agentType expertId latest).runAlone w1).1.isOk := by
  intro h
  have hok := h (Sample.withTeam .proposed) "shop" (.text "ada")
    (rowToArtifact (Sample.team .proposed)) _ rfl (by decide)
  have hraises : ((editProposal "shop" (.text "ada")
      (rowToArtifact (Sample.team .proposed))).runAlone
        ((getLatestProposal "shop").runAlone (Sample.withTeam .proposed)).2).1.isOk = false := by
    decide +kernel
  exact absurd (hraises.symm.trans hok) (by decide)

/-! ## Rejections that raise -/

/-- The row of a version after its rejection. -/
def CompositionRow.reject (row : CompositionRow) (reason : Option String) : CompositionRow :=
  { row with
    status := .archived, rationale := Postgres.setRejectionReason reason row.rationale }

theorem Postgres.write_rejectComposition {pg pg' : Postgres} {rejectionReason : TextParam}
    {agentType : String} {version : Int}
    (h : pg.write (.rejectComposition rejectionReason agentType version) = .ok pg') :
    rejectionReason ≠ .other ∧
      pg' = { pg with
        teamCompositions := updateComposition agentType version
          (·.reject rejectionReason.toOption) pg.teamCompositions } := by
  cases rejectionReason with
  | other => cases h
  | null | text =>
    cases h
    exact ⟨by simp, rfl⟩

theorem Postgres.write_rejectComposition_error {pg : Postgres} {rejectionReason : TextParam}
    {agentType : String} {version : Int} {e : Exn}
    (h : pg.write (.rejectComposition rejectionReason agentType version) = .error e) :
    rejectionReason = .other := by
  cases rejectionReason with
  | other => rfl
  | null | text => cases h

/-- A rejection that raises has changed nothing if it did not get past its UPDATE, and otherwise
has rejected the latest version. -/
theorem rejectProposal_alone (agentType : String) (rejectionReason : TextParam)
    (agentGoal taskBoundary : String) (declaredTopology : TopologyType)
    (workflowParticipants : List String) {row : CompositionRow}
    (hlatest : w.pg.latestComposition agentType = some row)
    (hmutable : (rowToArtifact row).Mutable) :
    TripleAlone (rejectProposal agentType rejectionReason agentGoal taskBoundary declaredTopology
        workflowParticipants) w (fun _ _ => True)
      fun _ w' => (w'.pg = w.pg ∧
          (w.Fails .postgres ∨ w.bump.Fails .postgres ∨ rejectionReason = .other)) ∨
        (¬ w.Fails .postgres ∧ ¬ w.bump.Fails .postgres ∧ rejectionReason ≠ .other ∧
          w'.pg.teamCompositions = Postgres.updateComposition agentType row.version
            (·.reject rejectionReason.toOption) w.pg.teamCompositions) := by
  refine .bind ((requireMutableLatest_alone agentType).mono (fun a w' h => h) ?_) ?_
  · rintro e w' ⟨rfl, hfail | hno⟩
    · exact .inl ⟨rfl, .inl hfail⟩
    · exact absurd hmutable (hno row hlatest)
  · rintro latest w' ⟨hread, rfl, -, row', hlatest', rfl⟩
    rw [hlatest] at hlatest'
    cases hlatest'
    refine .bind ((sql_alone _).mono (fun a w' h => h) ?_) ?_
    · rintro e w' ⟨rfl, hfail | heval⟩
      · exact .inl ⟨rfl, .inr (.inl hfail)⟩
      · refine .inl ⟨rfl, .inr (.inr ?_)⟩
        simp only [Postgres.eval] at heval
        cases hw : w.bump.pg.write (.rejectComposition rejectionReason agentType
          (rowToArtifact row).version) <;> rw [hw] at heval <;> cases heval
        exact Postgres.write_rejectComposition_error hw
    · rintro u w' ⟨hupdate, pg, heval, rfl⟩
      have hwrite := Postgres.eval_execute heval
      obtain ⟨hreason, rfl⟩ := Postgres.write_rejectComposition hwrite
      refine (generateProposal_alone _ _ _ _ _ _).mono (fun _ _ _ => trivial) fun e w' hw' => ?_
      exact .inr ⟨hread, hupdate, hreason, congrArg Postgres.teamCompositions hw'⟩

/-- An update of one version changes nothing just if it does not change the row of the version. -/
theorem Postgres.updateComposition_eq_self {rows : List CompositionRow} {row : CompositionRow}
    {f : CompositionRow → CompositionRow} (hunique : (rows.map (·.key)).Nodup) (hrow : row ∈ rows) :
    updateComposition row.agentType row.version f rows = rows ↔ f row = row := by
  constructor
  · intro h
    obtain ⟨k, hk⟩ := List.getElem?_of_mem hrow
    have hget := congrArg (·[k]?) h
    simpa [updateComposition, hk] using hget
  · intro h
    refine (List.map_congr_left fun r hr => ?_).trans (List.map_id rows)
    split_ifs with hkey
    · obtain rfl := List.inj_on_of_nodup_map hunique hr hrow (Prod.ext hkey.1 hkey.2)
      exact h
    · rfl

/-- A rejection of a mutable version that raises leaves the table as it was just if it has raised
before its UPDATE took effect, or if the version had been archived with this reason before, so that
there was nothing to change. -/
theorem rejection_undone_iff (w : World) (agentType : String) (rejectionReason : TextParam)
    (agentGoal taskBoundary : String) (declaredTopology : TopologyType)
    (workflowParticipants : List String) (row : CompositionRow) (e : Exn) (w' : World)
    (hunique : UniqueVersions w.pg) (hlatest : w.pg.latestComposition agentType = some row)
    (hmutable : (rowToArtifact row).Mutable)
    (hraised : (rejectProposal agentType rejectionReason agentGoal taskBoundary declaredTopology
      workflowParticipants).runAlone w = (.error e, w')) :
    w'.pg.teamCompositions = w.pg.teamCompositions ↔
      w.Fails .postgres ∨ w.bump.Fails .postgres ∨ rejectionReason = .other ∨
        (row.status = .archived ∧
          row.rationale = Postgres.setRejectionReason rejectionReason.toOption row.rationale) := by
  have hreject := rejectProposal_alone agentType rejectionReason agentGoal taskBoundary
    declaredTopology workflowParticipants hlatest hmutable
  rcases hreject.of_error hraised with ⟨hpg, hcause⟩ | ⟨hread, hupdate, hreason, hpg⟩
  · refine iff_of_true (congrArg Postgres.teamCompositions hpg) ?_
    rcases hcause with hfail | hfail | hother
    · exact .inl hfail
    · exact .inr (.inl hfail)
    · exact .inr (.inr (.inl hother))
  · obtain ⟨hrow, rfl⟩ := Postgres.latestComposition_mem hlatest
    rw [hpg, Postgres.updateComposition_eq_self hunique hrow]
    constructor
    · intro h
      have hstatus := congrArg CompositionRow.status h
      have hrationale := congrArg CompositionRow.rationale h
      exact .inr (.inr (.inr ⟨hstatus.symm, hrationale.symm⟩))
    · rintro (hfail | hfail | hother | ⟨hstatus, hrationale⟩)
      · exact absurd hfail hread
      · exact absurd hfail hupdate
      · exact absurd hother hreason
      · rw [CompositionRow.reject, ← hstatus, ← hrationale]

/-- The rejection of the proposed version with this reason. -/
def rejecting (rejectionReason : TextParam) : Except Exn ProposalArtifact × World :=
  (rejectProposal "shop" rejectionReason "take orders" "orders only" .pipeline []).runAlone
    (Sample.withTeam .proposed)

/-- The database refuses a reason that is not a text. -/
theorem rejection_undone_other :
    (rejecting .other).2.pg.teamCompositions = (Sample.withTeam .proposed).pg.teamCompositions := by
  have hraised : (rejecting .other).1.isOk = false := by decide +kernel
  rcases hx : rejecting .other with ⟨e | artifact, w'⟩ <;> rw [hx] at hraised
  · exact (rejection_undone_iff (Sample.withTeam .proposed) "shop" .other "take orders"
      "orders only" .pipeline [] (Sample.team .proposed) e w' (List.nodup_singleton _) rfl
      (by decide) hx).mpr (.inr (.inr (.inl rfl)))
  · cases hraised

/-- The model call fails after the version has been archived. -/
theorem rejection_not_undone :
    ¬ ∀ rejectionReason e w', rejecting rejectionReason = (.error e, w') →
      w'.pg.teamCompositions = (Sample.withTeam .proposed).pg.teamCompositions := by
  intro h
  have hraised : (rejecting (.text "no")).1.isOk = false := by decide +kernel
  have harchived : (rejecting (.text "no")).2.pg.teamCompositions.map (·.status) = [.archived] := by
    decide +kernel
  rcases hx : rejecting (.text "no") with ⟨e | artifact, w'⟩ <;> rw [hx] at hraised harchived
  · have hsame := h (.text "no") e w' hx
    rw [hsame] at harchived
    exact absurd harchived (by decide)
  · cases hraised

end AgentWorx
