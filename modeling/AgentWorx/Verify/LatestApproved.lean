import AgentWorx.Verify.Approval
import AgentWorx.Verify.Contracts
import AgentWorx.Verify.Versions

/-!
# Simulations of the approved composition

A simulation starts from the latest version and raises if that is not approved. So it finds the
approved composition exactly when no other version lies on top of it, and a version that is proposed
while another is in force buries that one.
-/

namespace AgentWorx

open Coop Coop.Sync Coop.Async

/-! ## The highest approved version -/

namespace Postgres

variable {pg pg' : Postgres} {agentType : String} {row : CompositionRow}

def HasApproved (pg : Postgres) (agentType : String) : Prop :=
  ∃ row ∈ pg.teamCompositions, row.agentType = agentType ∧ row.status = .approved

instance (pg : Postgres) (agentType : String) : Decidable (pg.HasApproved agentType) :=
  inferInstanceAs (Decidable (∃ row ∈ pg.teamCompositions, _))

/-- The row is the approved version of the agent type with the highest number. -/
structure HighestApproved (pg : Postgres) (agentType : String) (row : CompositionRow) : Prop where
  mem : row ∈ pg.teamCompositions
  ofType : row.agentType = agentType
  approved : row.status = .approved
  highest : ∀ r ∈ pg.teamCompositions, r.agentType = agentType → r.status = .approved →
    r.version ≤ row.version

/-- If a version is approved, the latest one is. -/
def LatestApproved (pg : Postgres) (agentType : String) : Prop :=
  pg.HasApproved agentType → ∃ row ∈ pg.latestComposition agentType, row.status = .approved

theorem highestApproved_latest (h : pg.latestComposition agentType = some row)
    (happroved : row.status = .approved) : pg.HighestApproved agentType row := by
  obtain ⟨hmem, htype⟩ := latestComposition_mem h
  exact ⟨hmem, htype, happroved, fun r hr hrtype _ => latestComposition_le h hr hrtype⟩

/-- Versions of other agent types do not matter. -/
theorem LatestApproved.of_filter (hpg : pg.LatestApproved agentType)
    (h : pg'.teamCompositions.filter (·.agentType = agentType) =
      pg.teamCompositions.filter (·.agentType = agentType)) : pg'.LatestApproved agentType := by
  rintro ⟨row, hrow, htype, happroved⟩
  have hmem : row ∈ pg'.teamCompositions.filter (·.agentType = agentType) := by
    simpa using ⟨hrow, htype⟩
  rw [h] at hmem
  have hbefore := hpg ⟨row, (List.mem_filter.mp hmem).1, htype, happroved⟩
  rwa [latestComposition, h]

theorem LatestApproved.append {rows : List CompositionRow} (hpg : pg.LatestApproved agentType)
    (hrows : rows.filter (·.agentType = agentType) =
      pg.teamCompositions.filter (·.agentType = agentType))
    (h : pg'.teamCompositions = rows ++ [row]) (htype : row.agentType ≠ agentType) :
    pg'.LatestApproved agentType := by
  refine hpg.of_filter ?_
  simp [h, hrows, htype]

theorem filter_updateComposition {name : String} {version : Int}
    {f : CompositionRow → CompositionRow} (hname : name ≠ agentType)
    (hf : ∀ r, SameProposal r (f r)) (rows : List CompositionRow) :
    (updateComposition name version f rows).filter (·.agentType = agentType) =
      rows.filter (·.agentType = agentType) := by
  induction rows with
  | nil => rfl
  | cons r rows ih =>
    rw [updateComposition, List.map_cons, ← updateComposition]
    by_cases hkey : r.agentType = name ∧ r.version = version
    · have hr : r.agentType ≠ agentType := fun h => hname (hkey.1.symm.trans h)
      have hfr : (f r).agentType ≠ agentType := by
        rw [(hf r).agentType]
        exact hr
      rw [if_pos hkey, List.filter_cons_of_neg (by simpa using hfr),
        List.filter_cons_of_neg (by simpa using hr), ih]
    · rw [if_neg hkey, List.filter_cons, List.filter_cons, ih]

theorem LatestApproved.propose (hpg : pg.LatestApproved agentType)
    (h : pg'.teamCompositions = pg.teamCompositions ++ [row]) (hrow : row.status ≠ .approved)
    (hnone : row.agentType = agentType → ¬ pg.HasApproved agentType) :
    pg'.LatestApproved agentType := by
  by_cases htype : row.agentType = agentType
  · -- no version is approved after the insertion either
    rintro ⟨r, hr, hrtype, happroved⟩
    rw [h, List.mem_append, List.mem_singleton] at hr
    rcases hr with hr | rfl
    · exact absurd ⟨r, hr, hrtype, happroved⟩ (hnone htype)
    · exact absurd happroved hrow
  · exact hpg.append rfl h htype

variable {name : String} {version : Int} {f : CompositionRow → CompositionRow}

theorem LatestApproved.approve (hpg : pg.LatestApproved agentType)
    (h : pg'.teamCompositions = updateComposition name version f pg.teamCompositions)
    (hf : ∀ r, SameProposal r (f r)) (hstatus : ∀ r, (f r).status = .approved)
    (hlatest : name = agentType → ∀ row ∈ pg.latestComposition agentType,
      row.version = version ∨ row.status = .approved) : pg'.LatestApproved agentType := by
  by_cases hname : name = agentType
  · rintro ⟨r', hr', htype, -⟩
    rw [h] at hr'
    obtain ⟨r, hr, hkey, -⟩ := (mem_updateComposition hf).mp hr'
    have hrtype : r.agentType = agentType := (congrArg Prod.fst hkey).symm.trans htype
    rw [latestComposition_update hf h]
    cases htop : pg.latestComposition agentType with
    | none => exact absurd hrtype (latestComposition_eq_none htop hr)
    | some top =>
      refine ⟨_, rfl, ?_⟩
      have htoptype := (latestComposition_mem htop).2
      dsimp only
      split_ifs with htopkey
      · exact hstatus top
      · refine (hlatest hname top htop).resolve_left fun hversion => htopkey ⟨?_, hversion⟩
        exact htoptype.trans hname.symm
  · exact hpg.of_filter (by rw [h, filter_updateComposition hname hf])

theorem LatestApproved.archive (hpg : pg.LatestApproved agentType)
    (h : pg'.teamCompositions = updateComposition name version f pg.teamCompositions)
    (hf : ∀ r, SameProposal r (f r)) (hstatus : ∀ r, (f r).status ≠ .approved)
    (hlatest : name = agentType → (∃ row ∈ pg.latestComposition agentType,
      row.version = version) → ¬ ∃ row ∈ pg.teamCompositions, row.agentType = agentType ∧
        row.status = .approved ∧ row.version ≠ version) : pg'.LatestApproved agentType := by
  by_cases hname : name = agentType
  · rintro ⟨r', hr', htype, happroved⟩
    rw [h] at hr'
    obtain ⟨r, hr, hkey, hr'r⟩ := (mem_updateComposition hf).mp hr'
    split_ifs at hr'r with hrkey <;> subst hr'r
    · exact absurd happroved (hstatus r)
    · have hversion : r'.version ≠ version := fun hversion =>
        hrkey (Prod.ext (htype.trans hname.symm) hversion)
      obtain ⟨top, htop, htopstatus⟩ := hpg ⟨r', hr, htype, happroved⟩
      refine ⟨top, ?_, htopstatus⟩
      rw [latestComposition_update hf h, show pg.latestComposition agentType = some top from htop]
      refine congrArg some (if_neg fun htopkey => ?_)
      exact hlatest hname ⟨top, htop, htopkey.2⟩ ⟨r', hr, htype, happroved, hversion⟩
  · exact hpg.of_filter (by rw [h, filter_updateComposition hname hf])

theorem LatestApproved.edit {edited : String} (hpg : pg.LatestApproved agentType)
    (h : pg'.teamCompositions = updateComposition edited version f pg.teamCompositions ++ [row])
    (hedited : row.agentType = edited) (hf : ∀ r, SameProposal r (f r))
    (hrow : row.status = .approved) {m : Nat}
    (hversions : pg'.versions agentType = firstVersions m) : pg'.LatestApproved agentType := by
  subst hedited
  by_cases htype : row.agentType = agentType
  · subst htype
    intro _
    refine ⟨row, latestComposition_append h fun r hr hrtype => ?_, hrow⟩
    rw [versions, h, List.filter_append, List.map_append, List.filter_cons_of_pos (by simp)]
      at hversions
    exact lt_of_append_eq_firstVersions hversions (List.mem_map_of_mem (by simp [hr, hrtype]))
  · exact hpg.append (filter_updateComposition htype hf _) h htype

end Postgres

/-! ## Starting a session -/

variable {w : World} {agentType : String}

/-- A session that starts has the latest version, which is approved. -/
theorem startSession_alone (agentType : String) :
    TripleAlone (startSession agentType) w
      (fun session w' => ¬ w.Fails .postgres ∧
        ∃ row, w.pg.latestComposition agentType = some row ∧ row.status = .approved ∧
          session.compositionVersion = row.version ∧ w'.sessions session.id = some session ∧
          w'.sessionAgents session.id = some row.agentList)
      fun _ _ => w.Fails .postgres ∨
        ∀ row ∈ w.pg.latestComposition agentType, row.status ≠ .approved := by
  refine .bind ((getLatestProposal_alone agentType).mono (fun found w' h => h)
    fun e w' h => .inl h.2) ?_
  rintro found w' ⟨hserved, rfl, rfl⟩
  cases hlatest : w.pg.latestComposition agentType with
  | none => exact .throw (.inr (by simp))
  | some row =>
    dsimp only [Option.map_some]
    by_cases happroved : row.status = .approved
    · rw [if_neg (by simpa [rowToArtifact] using happroved)]
      obtain ⟨session, -, hversion, hopen⟩ := openSession_exec agentType (rowToArtifact row) w.bump
      rw [TripleAlone, Async.runAlone_liftM, hopen]
      refine ⟨hserved, row, rfl, happroved, hversion, by simp, by simp [rowToArtifact]⟩
    · rw [if_pos (by simpa [rowToArtifact] using happroved)]
      exact .throw (.inr (by simpa using happroved))

/-- A session starts exactly when a version is approved, and it has the number and the contracts of
the highest one. -/
structure FindsApproved (w : World) (agentType : String) : Prop where
  starts : (∃ session w', (startSession agentType).runAlone w = (.ok session, w')) ↔
    w.pg.HasApproved agentType
  highest : ∀ session w', (startSession agentType).runAlone w = (.ok session, w') →
    ∃ row, w.pg.HighestApproved agentType row ∧ session.compositionVersion = row.version ∧
      w'.sessions session.id = some session ∧ w'.sessionAgents session.id = some row.agentList

/-- A start finds the approved composition exactly when none is approved, or the latest version is
and the read is served. -/
theorem findsApproved_iff : FindsApproved w agentType ↔
    (w.pg.HasApproved agentType → ¬ w.Fails .postgres) ∧ w.pg.LatestApproved agentType := by
  have hstart := startSession_alone (w := w) agentType
  constructor
  · intro h
    have hread (hhas : w.pg.HasApproved agentType) : ¬ w.Fails .postgres ∧
        ∃ row ∈ w.pg.latestComposition agentType, row.status = .approved := by
      obtain ⟨session, w', hok⟩ := h.starts.mpr hhas
      obtain ⟨hserved, row, hlatest, happroved, -⟩ := hstart.of_ok hok
      exact ⟨hserved, row, hlatest, happroved⟩
    exact ⟨fun hhas => (hread hhas).1, fun hhas => (hread hhas).2⟩
  · rintro ⟨hserved, hlatest⟩
    refine ⟨⟨?_, fun hhas => ?_⟩, ?_⟩
    · rintro ⟨session, w', hok⟩
      obtain ⟨-, row, hrow, happroved, -⟩ := hstart.of_ok hok
      obtain ⟨hmem, htype⟩ := Postgres.latestComposition_mem hrow
      exact ⟨row, hmem, htype, happroved⟩
    · rcases hrun : (startSession agentType).runAlone w with ⟨e | session, w'⟩
      · obtain ⟨row, hrow, happroved⟩ := hlatest hhas
        rcases hstart.of_error hrun with hfails | hno
        · exact absurd hfails (hserved hhas)
        · exact absurd happroved (hno row hrow)
      · exact ⟨session, w', rfl⟩
    · intro session w' hok
      obtain ⟨-, row, hrow, happroved, hversion, hs, ha⟩ := hstart.of_ok hok
      exact ⟨row, Postgres.highestApproved_latest hrow happroved, hversion, hs, ha⟩

/-! ## Runs -/

/-- The write puts a version that is not approved on top of one that is: it proposes a version while
another is in force, it approves a version below such a latest one, or it rejects the latest version
while an older one is in force. -/
def SqlWrite.Buries (agentType : String) (pg : Postgres) : SqlWrite → Prop
  | .insertComposition row _ => row.agentType = agentType ∧ pg.HasApproved agentType
  | .approveComposition _ _ name version => name = agentType ∧
    ∃ row ∈ pg.latestComposition agentType, row.version ≠ version ∧ row.status ≠ .approved
  | .rejectComposition _ name version => name = agentType ∧
    (∃ row ∈ pg.latestComposition agentType, row.version = version) ∧
    ∃ row ∈ pg.teamCompositions, row.agentType = agentType ∧ row.status = .approved ∧
      row.version ≠ version
  | _ => False

instance (agentType : String) (pg : Postgres) (wr : SqlWrite) :
    Decidable (wr.Buries agentType pg) :=
  match wr with
  | .insertComposition .. => inferInstanceAs (Decidable (_ ∧ Postgres.HasApproved _ _))
  | .approveComposition .. => inferInstanceAs (Decidable (_ ∧ _))
  | .rejectComposition .. => inferInstanceAs (Decidable (_ ∧ _ ∧ _))
  | .insertAgentType _ | .deleteAgentType _ | .archiveComposition .. | .insertCertEvent _
  | .insertSimulationSessionSummary _ => inferInstanceAs (Decidable False)

variable {ι : Type} [DecidableEq ι] {requests : ι → Request} {c : Loop host ι Response} {i : ι}

/-- The write of a statement that is not a transaction. -/
def Sql.executed : Sql → Option SqlWrite
  | .execute wr => some wr
  | _ => none

/-- The next step of task `i` buries no approved version. -/
def BuriesNone (agentType : String) (c : Loop host ι Response) (i : ι) : Prop :=
  ∀ q ∈ (c.tasks i).awaited, ∀ wr ∈ q.executed, ¬ wr.Buries agentType c.store.pg

instance (agentType : String) (c : Loop host ι Response) (i : ι) :
    Decidable (BuriesNone agentType c i) :=
  inferInstanceAs (Decidable (∀ q ∈ (c.tasks i).awaited, ∀ wr ∈ q.executed, _))

/-- What a statement that buries no approved version keeps: the version that an edit inserts is the
highest, as the versions have no gaps. -/
theorem Request.Asks.latestApproved {request : Request} {l : Option (Event host)} {q : Sql}
    {n : Nat} (hasks : request.Asks q) (hq : ∀ wr ∈ q.writes, wr.Allowed request l w q)
    (hversions : w.pg.versions agentType = firstVersions n)
    (hread : ∀ v ∈ versionRead agentType l, 0 ≤ v ∧ v ≤ n)
    (hburies : ∀ wr ∈ q.executed, ¬ wr.Buries agentType w.pg)
    (h : w.pg.LatestApproved agentType) : (World.serve q w).2.pg.LatestApproved agentType := by
  obtain ⟨m, -, hversions'⟩ := serve_versions hq hversions hread
  rcases World.serve_cases q w with ⟨e, he⟩ | ⟨a, pg, hpg, he⟩ <;> rw [he] at hversions' ⊢
  · exact h
  · change pg.versions agentType = _ at hversions'
    change pg.LatestApproved agentType
    cases hasks with
    | other helse =>
      have hsame := Postgres.eval_elsewhere hpg helse
      exact h.of_filter (by rw [hsame])
    | propose =>
      obtain ⟨signature, -, -, rfl⟩ :=
        Postgres.write_insertComposition_eq (Postgres.eval_execute hpg)
      exact h.propose rfl (by rintro ⟨⟩) fun htype hhas => hburies _ rfl ⟨htype, hhas⟩
    | approve =>
      obtain ⟨signature, -, rfl⟩ := Postgres.write_approveComposition (Postgres.eval_execute hpg)
      refine h.approve rfl (fun _ => ⟨rfl, rfl, rfl, rfl, rfl, rfl, rfl⟩) (fun _ => rfl) ?_
      intro hname row hrow
      by_contra hno
      exact hburies _ rfl ⟨hname, row, hrow, not_or.mp hno⟩
    | reject =>
      obtain ⟨-, rfl⟩ := Postgres.write_rejectComposition (Postgres.eval_execute hpg)
      refine h.archive rfl (fun _ => ⟨rfl, rfl, rfl, rfl, rfl, rfl, rfl⟩) (fun _ => by rintro ⟨⟩) ?_
      exact fun hname hlatest hother => hburies _ rfl ⟨hname, hlatest, hother⟩
    | edit =>
      obtain ⟨id, signature, -, -, -, hcompositions⟩ :=
        writeAll_editTransaction (Postgres.eval_transaction hpg)
      exact h.edit hcompositions rfl (fun _ => ⟨rfl, rfl, rfl, rfl, rfl, rfl, rfl⟩) rfl hversions'

/-- In every state that a run of any requests reaches from an empty history, a start finds the
approved composition exactly when no version is approved, or the latest one is and the read is
served; and if no step of the run has buried an approved version, the latest one is. -/
theorem start_finds_approved (w : World) (requests : ι → Request) (sched : List ι)
    (agentType : String) (hempty : ∀ row ∈ w.pg.teamCompositions, row.agentType ≠ agentType) :
    (FindsApproved ((serving w requests).run sched).store agentType ↔
      (((serving w requests).run sched).store.pg.HasApproved agentType →
        ¬ ((serving w requests).run sched).store.Fails .postgres) ∧
      ((serving w requests).run sched).store.pg.LatestApproved agentType) ∧
    (Loop.Meets (BuriesNone agentType) (serving w requests) sched →
      ((serving w requests).run sched).store.pg.LatestApproved agentType ∧
      (¬ ((serving w requests).run sched).store.Fails .postgres →
        FindsApproved ((serving w requests).run sched).store agentType)) := by
  refine ⟨findsApproved_iff, fun hcond => ?_⟩
  let I (c : Loop host ι Response) : Prop := Serves requests c ∧
    Loop.Issues (fun i => (requests i).Asks) (fun _ => AnyValue) c ∧ GapFree agentType c ∧
    c.store.pg.LatestApproved agentType
  have hstep (c : Loop host ι Response) (i : ι) (hc : I c) (hi : BuriesNone agentType c i) :
      I (c.step i) := by
    obtain ⟨hserves, hissues, hversions, hlatest⟩ := hc
    refine ⟨hserves.step i, hissues.step i, hversions.step hserves i, ?_⟩
    rcases hserves.step_cases i with hs | ⟨-, hseg, -⟩ | ⟨q, k, hprog, hq, hstore, -⟩
    · rwa [hs]
    · rwa [hseg.pg]
    · have hawaited : (c.tasks i).awaited = some q := Task.awaited_eq_some.mpr ⟨k, hprog⟩
      obtain ⟨n, hn, hread⟩ := hversions
      rw [hstore]
      exact (hissues.awaited hawaited).latestApproved hq hn (hread i) (hi q hawaited) hlatest
  have hstart : (serving w requests).store.pg.LatestApproved agentType := by
    rintro ⟨row, hrow, htype, -⟩
    exact absurd htype (hempty row hrow)
  have hlatest := (hcond.invariant (I := I) hstep ⟨serves_serving w requests,
    Loop.issues_start fun i => handle_issues (requests i), .start requests hempty, hstart⟩).2.2.2
  exact ⟨hlatest, fun hserved => findsApproved_iff.mpr ⟨fun _ => hserved, hlatest⟩⟩

theorem start_finds_approved_once :
    FindsApproved ((serving unstaffed approvalAfterGeneration).run
      [0, 0, 0, 1, 1, 1, 1, 1]).store "shop" :=
  ((start_finds_approved unstaffed approvalAfterGeneration [0, 0, 0, 1, 1, 1, 1, 1] "shop"
    fun _ hrow => by cases hrow).2 (by decide +kernel)).2 (by decide +kernel)

/-- A proposal has been approved and another generated: no session starts. -/
theorem start_misses_approved :
    ¬ ∀ w, completed [generation, approvalBy "ada", generation] unstaffed = some w →
      FindsApproved w "shop" := by
  intro h
  have hrun : (completed [generation, approvalBy "ada", generation] unstaffed).map
      (fun w => (decide (w.pg.HasApproved "shop"), ((startSession "shop").runAlone w).1.isOk)) =
        some (true, false) := by
    decide +kernel
  obtain ⟨w, hw, hstart⟩ := Option.map_eq_some_iff.mp hrun
  simp only [Prod.mk.injEq, decide_eq_true_eq] at hstart
  obtain ⟨session, w', hok⟩ := (h w hw).starts.mpr hstart.1
  rw [hok] at hstart
  cases hstart.2

end AgentWorx
