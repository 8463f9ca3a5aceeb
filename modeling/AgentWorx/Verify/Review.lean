import AgentWorx.Verify.Requests
import AgentWorx.Verify.Sample

/-!
# The review of proposals

What the statements of the review calls do to the rows of `team_compositions`, and two consequences:
a version whose status updates all find it proposed is decided once and then immutable, and archived
versions stay archived as long as no approval finds one at the top.
-/

namespace AgentWorx

open Coop Coop.Sync

/-! ## Rows and their versions -/

def CompositionRow.key (row : CompositionRow) : String × Int := (row.agentType, row.version)

/-- The version is there and has not been decided. -/
def Proposed (pg : Postgres) (key : String × Int) : Prop :=
  (∃ row ∈ pg.teamCompositions, row.key = key) ∧
  ∀ row ∈ pg.teamCompositions, row.key = key → row.status = .proposed

instance (pg : Postgres) (key : String × Int) : Decidable (Proposed pg key) :=
  inferInstanceAs (Decidable (_ ∧ _))

/-- The version is there and has been decided. -/
def Decided (pg : Postgres) (key : String × Int) : Prop :=
  (∃ row ∈ pg.teamCompositions, row.key = key) ∧
  ∀ row ∈ pg.teamCompositions, row.key = key → row.status ≠ .proposed

/-- `UNIQUE(agent_type, version)` -/
def UniqueVersions (pg : Postgres) : Prop :=
  (pg.teamCompositions.map (·.key)).Nodup

theorem Proposed.not_decided {pg : Postgres} {key : String × Int} (h : Proposed pg key) :
    ¬ Decided pg key := by
  obtain ⟨row, hrow, hkey⟩ := h.1
  exact fun h' => h'.2 row hrow hkey (h.2 row hrow hkey)

namespace Postgres

variable {pg pg' : Postgres} {wr : SqlWrite} {key : String × Int}

theorem mem_updateComposition {agentType : String} {version : Int}
    {f : CompositionRow → CompositionRow} {rows : List CompositionRow} {row' : CompositionRow}
    (hf : ∀ row, SameProposal row (f row)) :
    row' ∈ updateComposition agentType version f rows ↔
      ∃ row ∈ rows, row'.key = row.key ∧
        row' = if row.key = (agentType, version) then f row else row := by
  simp only [updateComposition, List.mem_map]
  refine exists_congr fun row => and_congr_right fun _ => ?_
  have hkey : (row.agentType = agentType ∧ row.version = version) ↔
      row.key = (agentType, version) := by
    simp [CompositionRow.key]
  simp only [hkey]
  constructor
  · rintro rfl
    refine ⟨?_, rfl⟩
    split_ifs
    · simp [CompositionRow.key, (hf row).agentType, (hf row).version]
    · rfl
  · rintro ⟨-, rfl⟩
    rfl

theorem write_hasKey (h : pg.write wr = .ok pg')
    (hkey : ∃ row ∈ pg.teamCompositions, row.key = key) :
    ∃ row ∈ pg'.teamCompositions, row.key = key := by
  obtain ⟨row, hrow, rfl⟩ := hkey
  rcases write_teamCompositions h with ⟨-, h⟩ | ⟨_, _, f, -, hf, h⟩ | ⟨_, _, _, -, -, h⟩ <;> rw [h]
  · exact ⟨row, hrow, rfl⟩
  · refine ⟨_, (mem_updateComposition fun row => (hf row).1).mpr ⟨row, hrow, ?_, rfl⟩, ?_⟩ <;>
    · split_ifs
      · simp [CompositionRow.key, (hf row).1.agentType, (hf row).1.version]
      · rfl
  · exact ⟨row, by simp [hrow], rfl⟩

/-- A decision is never taken back. -/
theorem write_keeps_decided (h : pg.write wr = .ok pg') (hkey : Decided pg key) :
    Decided pg' key := by
  refine ⟨write_hasKey h hkey.1, fun row' hrow' hrow'key => ?_⟩
  rcases write_teamCompositions h with ⟨-, h⟩ | ⟨_, _, f, -, hf, h⟩ | ⟨row1, _, _, -, hnew, h⟩ <;>
    rw [h] at hrow'
  · exact hkey.2 row' hrow' hrow'key
  · obtain ⟨row, hrow, hsame, hrow'⟩ := (mem_updateComposition fun row => (hf row).1).mp hrow'
    split_ifs at hrow' <;> subst hrow'
    · rw [(hf row).2]
      exact wr.newStatus_ne_proposed
    · exact hkey.2 row' hrow hrow'key
  · rcases List.mem_append.mp hrow' with hrow' | hrow'
    · exact hkey.2 row' hrow' hrow'key
    · -- the constraint refuses a second row of the version
      obtain ⟨row, hrow, rfl⟩ := hkey.1
      obtain rfl := List.mem_singleton.mp hrow'
      simp only [CompositionRow.key, Prod.mk.injEq] at hrow'key
      exact absurd ⟨hrow'key.1.symm, hrow'key.2.symm⟩ (hnew row hrow)

theorem write_decides (h : pg.write wr = .ok pg') (hwr : wr.decided = some key)
    (hkey : ∃ row ∈ pg.teamCompositions, row.key = key) : Decided pg' key := by
  refine ⟨write_hasKey h hkey, fun row' hrow' hrow'key => ?_⟩
  rcases write_teamCompositions h with ⟨hnone, -⟩ | ⟨a, v, f, hsome, hf, h⟩ | ⟨_, _, _, rfl, -, -⟩
  · rw [hwr] at hnone
    cases hnone
  · rw [hwr, Option.some.injEq] at hsome
    rw [h] at hrow'
    obtain ⟨row, hrow, hsame, hrow'⟩ := (mem_updateComposition fun row => (hf row).1).mp hrow'
    rw [if_pos (hsame.symm.trans (hrow'key.trans hsome))] at hrow'
    rw [hrow', (hf row).2]
    exact wr.newStatus_ne_proposed
  · cases hwr

/-- Writes that do not decide the version of a row leave the row alone. -/
theorem write_keeps_row {k : Nat} {row : CompositionRow} (h : pg.write wr = .ok pg')
    (hwr : wr.decided ≠ some row.key) (hrow : pg.teamCompositions[k]? = some row) :
    pg'.teamCompositions[k]? = some row := by
  rcases write_teamCompositions h with
    ⟨-, h⟩ | ⟨a, v, f, hsome, -, h⟩ | ⟨_, _, _, -, -, h⟩ <;> rw [h]
  · exact hrow
  · have hkey : ¬ (row.agentType = a ∧ row.version = v) := by
      rintro ⟨rfl, rfl⟩
      exact hwr hsome
    simp [updateComposition, hrow, hkey]
  · rw [List.getElem?_append_left (List.getElem?_eq_some_iff.mp hrow).1]
    exact hrow

theorem write_keeps_unique (h : pg.write wr = .ok pg') (hpg : UniqueVersions pg) :
    UniqueVersions pg' := by
  unfold UniqueVersions at hpg ⊢
  rcases write_teamCompositions h with
    ⟨-, h⟩ | ⟨a, v, f, -, hf, h⟩ | ⟨row, _, _, -, hnew, h⟩ <;> rw [h]
  · exact hpg
  · have hkey : (updateComposition a v f pg.teamCompositions).map (·.key) =
        pg.teamCompositions.map (·.key) := by
      rw [updateComposition, List.map_map]
      refine List.map_congr_left fun row _ => ?_
      simp only [Function.comp_apply]
      split_ifs
      · simp [CompositionRow.key, (hf row).1.agentType, (hf row).1.version]
      · rfl
    rwa [hkey]
  · rw [List.map_append, List.map_singleton]
    refine List.Nodup.append hpg (List.nodup_singleton _) fun key hkey hrow => ?_
    obtain ⟨r, hr, rfl⟩ := List.mem_map.mp hkey
    have := List.mem_singleton.mp hrow
    simp only [CompositionRow.key, Prod.mk.injEq] at this
    exact hnew r hr this

end Postgres

/-! ## Decided once -/

variable {ι : Type} [DecidableEq ι] {requests : ι → Request} {c : Loop host ι Response} {i : ι}

/-- The versions whose status an accepted statement has set. -/
def decides : Event host → List (String × Int)
  | ⟨q, .ok _⟩ => q.writes.filterMap SqlWrite.decided
  | ⟨_, .error _⟩ => []

/-- How often the version has been decided. -/
def decisions (key : String × Int) (trace : List (ι × Event host)) : Nat :=
  trace.countP fun p => key ∈ decides p.2

/-- A status update that goes through with the next step of task `i` finds the version as the guard
has to have read it: proposed. -/
def FindsProposed (c : Loop host ι Response) (i : ι) : Prop :=
  ∀ q ∈ (c.tasks i).awaited, ∀ key ∈ decides ⟨q, (World.serve q c.store).1⟩,
    Proposed c.store.pg key

instance (c : Loop host ι Response) (i : ι) : Decidable (FindsProposed c i) :=
  inferInstanceAs (Decidable (∀ q ∈ (c.tasks i).awaited,
    ∀ key ∈ decides ⟨q, (World.serve q c.store).1⟩, Proposed c.store.pg key))

/-- Among the writes of a statement, the first that sets the status of the version decides it, and
the others do not take this back. -/
theorem Postgres.writes_decide {pg pg' : Postgres} {ws : List SqlWrite} {key : String × Int}
    (h : ws.foldlM Postgres.write pg = .ok pg') (hkey : ∃ row ∈ pg.teamCompositions, row.key = key)
    (hdecides : key ∈ ws.filterMap SqlWrite.decided) : Decided pg' key := by
  induction ws generalizing pg with
  | nil => cases hdecides
  | cons wr ws ih =>
    simp only [List.foldlM_cons, except_bind_eq_ok] at h
    obtain ⟨pg1, h1, h⟩ := h
    by_cases hwr : wr.decided = some key
    · exact writes_keep (R := Preserves (Decided · key)) h
        (fun _ _ _ _ hwr => write_keeps_decided hwr) (write_decides h1 hwr hkey)
    · refine ih h (write_hasKey h1 hkey) ?_
      obtain ⟨wr', hwr', hdecided⟩ := List.mem_filterMap.mp hdecides
      rcases List.mem_cons.mp hwr' with rfl | hwr'
      · exact absurd hdecided hwr
      · exact List.mem_filterMap.mpr ⟨wr', hwr', hdecided⟩

/-- A statement decides the versions it reports. -/
theorem serve_decides {q : Sql} {w : World} {key : String × Int}
    (hkey : ∃ row ∈ w.pg.teamCompositions, row.key = key)
    (h : key ∈ decides ⟨q, (World.serve q w).1⟩) : Decided (World.serve q w).2.pg key := by
  rcases World.serve_cases q w with ⟨e, he⟩ | ⟨a, pg, hpg, he⟩ <;> rw [he] at h ⊢
  · cases h
  · exact Postgres.writes_decide (Postgres.eval_writes hpg) hkey h

theorem serve_keeps_decided {q : Sql} {w : World} {key : String × Int} (h : Decided w.pg key) :
    Decided (World.serve q w).2.pg key :=
  World.serve_keeps (R := Preserves (Decided · key))
    (fun _ _ _ _ hwr => Postgres.write_keeps_decided hwr) h

/-- No version has been decided, or it has been decided once and shows it. -/
def DecidedOnce (c : Loop host ι Response) : Prop :=
  ∀ key, decisions key c.trace = 0 ∨ decisions key c.trace = 1 ∧ Decided c.store.pg key

theorem DecidedOnce.step (h : DecidedOnce c) (hserves : Serves requests c)
    (hcond : FindsProposed c i) : DecidedOnce (c.step i) := by
  rcases hserves.step_cases i with hs | ⟨-, hseg, htrace, -⟩ | ⟨q, k, hprog, -, hstore, htrace, -⟩
  · rwa [hs]
  · intro key
    rw [htrace, hseg.pg]
    exact h key
  · intro key
    rw [htrace, hstore, decisions, List.countP_append, List.countP_singleton]
    change decisions key c.trace + _ = 0 ∨ decisions key c.trace + _ = 1 ∧ _
    by_cases hkey : key ∈ decides ⟨q, (World.serve q c.store).1⟩
    · have hproposed := hcond q (Task.awaited_eq_some.mpr ⟨k, hprog⟩) key hkey
      have hzero := (h key).resolve_right fun h' => hproposed.not_decided h'.2
      exact .inr ⟨by simp [hkey, hzero], serve_decides hproposed.1 hkey⟩
    · simp only [hkey, decide_false, Bool.false_eq_true, if_false, Nat.add_zero]
      exact (h key).imp_right (And.imp_right serve_keeps_decided)

/-- An approved row is left alone by a step whose status updates find their versions proposed. -/
theorem Serves.approved_step {k : Nat} {row : CompositionRow} (hserves : Serves requests c)
    (hcond : FindsProposed c i) (happroved : row.status = .approved)
    (hrow : c.store.pg.teamCompositions[k]? = some row) :
    (c.step i).store.pg.teamCompositions[k]? = some row := by
  rcases hserves.step_cases i with hs | ⟨-, hseg, -⟩ | ⟨q, _, hprog, -, hstore, -⟩
  · rwa [hs]
  · rwa [hseg.pg]
  · rw [hstore]
    rcases World.serve_cases q c.store with ⟨e, he⟩ | ⟨a, pg, hpg, he⟩
    · rw [he]
      exact hrow
    · have hno : ∀ wr ∈ q.writes, wr.decided ≠ some row.key := by
        intro wr hwr hdecided
        have hproposed := hcond q (Task.awaited_eq_some.mpr ⟨_, hprog⟩) row.key
          (by rw [he]; exact List.mem_filterMap.mpr ⟨wr, hwr, hdecided⟩)
        have := hproposed.2 row (List.mem_of_getElem? hrow) rfl
        rw [happroved] at this
        cases this
      rw [he]
      exact Postgres.eval_keeps
        (R := Preserves fun pg : Postgres => pg.teamCompositions[k]? = some row) hpg
        (fun _ _ wr hwr h => Postgres.write_keeps_row h (hno wr hwr)) hrow

/-- In every run whose status updates find their versions proposed, a version is decided at most
once, and an approved row never changes again. -/
theorem decided_once (w : World) (requests : ι → Request) (sched : List ι)
    (hcond : Loop.Meets FindsProposed (serving w requests) sched) :
    (∀ key, decisions key ((serving w requests).run sched).trace ≤ 1) ∧
    ∀ pre post, sched = pre ++ post → ∀ (k : Nat) (row : CompositionRow),
      ((serving w requests).run pre).store.pg.teamCompositions[k]? = some row →
      row.status = .approved →
      ((serving w requests).run sched).store.pg.teamCompositions[k]? = some row := by
  have hserves := serves_serving w requests
  constructor
  · intro key
    have hinv := hcond.invariant (I := fun c => Serves requests c ∧ DecidedOnce c)
      (fun c i ⟨hs, hc⟩ hi => ⟨hs.step i, hc.step hs hi⟩) ⟨hserves, fun _ => .inl rfl⟩
    rcases hinv.2 key with h | ⟨h, -⟩ <;> omega
  · rintro pre post rfl k row hrow happroved
    rw [Loop.run_append]
    exact ((Loop.meets_append.mp hcond).2.invariant
      (I := fun c => Serves requests c ∧ c.store.pg.teamCompositions[k]? = some row)
      (fun c i ⟨hs, hc⟩ hi => ⟨hs.step i, hs.approved_step hi happroved hc⟩)
      ⟨hserves.run pre, hrow⟩).2

/-- Two experts approve the same proposal. -/
def twoApprovals : Fin 2 → Request
  | 0 => .reviewProposal "shop" (Sample.review "approve" "ada")
  | 1 => .reviewProposal "shop" (Sample.review "approve" "bob")

theorem decided_once_in_turn :
    decisions ("shop", 1) ((serving (Sample.withTeam .proposed) twoApprovals).run
      [0, 0, 0, 0, 0, 0, 1, 1, 1, 1]).trace ≤ 1 :=
  (decided_once (Sample.withTeam .proposed) twoApprovals [0, 0, 0, 0, 0, 0, 1, 1, 1, 1]
    (by decide)).1 ("shop", 1)

/-- Both guards read the proposed row before either update is served: both updates go through, and
the second changes the signature of the approved row. -/
theorem decided_twice :
    (¬ ∀ sched, decisions ("shop", 1)
      ((serving (Sample.withTeam .proposed) twoApprovals).run sched).trace ≤ 1) ∧
    ¬ ∀ pre post, ∀ row ∈
      ((serving (Sample.withTeam .proposed) twoApprovals).run pre).store.pg.teamCompositions,
      row.status = .approved → row.expertSignature ≠ none → row.expertSignature ∈
        ((serving (Sample.withTeam .proposed) twoApprovals).run
          (pre ++ post)).store.pg.teamCompositions.map (·.expertSignature) := by
  constructor
  · intro h
    exact absurd (h [0, 0, 0, 0, 1, 1, 1, 1, 0, 1]) (by decide)
  · intro h
    exact absurd (h [0, 0, 0, 0, 1, 1, 1, 1, 0] [1]) (by decide)

/-! ## Archived for good -/

/-- The row that the guard of a review call has read. -/
def readsLatest : Event host → Option (String × CompositionRow)
  | ⟨.selectLatestComposition agentType, .ok (some row)⟩ => some (agentType, row)
  | _ => none

/-- No approval reads a latest row that is archived and unsigned. -/
def FindsNoArchived (requests : ι → Request) (c : Loop host ι Response) (i : ι) : Prop :=
  (requests i).approvesProposal → ∀ q ∈ (c.tasks i).awaited,
    ∀ read ∈ readsLatest ⟨q, (World.serve q c.store).1⟩,
      ¬ (read.2.status = .archived ∧ read.2.expertSignature = none)

instance (requests : ι → Request) (c : Loop host ι Response) (i : ι) :
    Decidable (FindsNoArchived requests c i) :=
  inferInstanceAs (Decidable ((requests i).approvesProposal → ∀ q ∈ (c.tasks i).awaited,
    ∀ read ∈ readsLatest ⟨q, (World.serve q c.store).1⟩,
      ¬ (read.2.status = .archived ∧ read.2.expertSignature = none)))

/-- The row that an approval in progress has read is still in the table as it was read. -/
def ReadIsCurrent (requests : ι → Request) (c : Loop host ι Response) : Prop :=
  ∀ i, (requests i).approvesProposal → (∀ r, ¬ (c.tasks i).Ended r) →
    ∀ e ∈ (c.tasks i).last, ∀ read ∈ readsLatest e,
      read.2 ∈ c.store.pg.teamCompositions ∧ read.2.agentType = read.1 ∧
      ¬ (read.2.status = .archived ∧ read.2.expertSignature = none)

/-- What a guard reads is a row of the table. -/
theorem serve_readsLatest {q : Sql} {w : World} {read : String × CompositionRow}
    (h : read ∈ readsLatest ⟨q, (World.serve q w).1⟩) :
    read.2 ∈ (World.serve q w).2.pg.teamCompositions ∧ read.2.agentType = read.1 := by
  unfold readsLatest at h
  split at h
  · rename_i agentType row heq
    cases h
    injection heq with hq hresult
    subst hq
    obtain ⟨pg, hpg, hw⟩ := World.serve_ok (eq_of_heq hresult)
    have hlatest := congrArg Prod.fst (Except.ok.inj hpg)
    have hsame : w.pg = pg := congrArg Prod.snd (Except.ok.inj hpg)
    have hmem := List.maxOn?_mem hlatest
    simp only [List.mem_filter, decide_eq_true_eq] at hmem
    rw [hw]
    exact ⟨hsame ▸ hmem.1, hmem.2⟩
  · cases h

theorem ReadIsCurrent.step (h : ReadIsCurrent requests c) (hserves : Serves requests c)
    (halone : c.Alone (fun i => (requests i).handle) i) (hcond : FindsNoArchived requests c i) :
    ReadIsCurrent requests (c.step i) := by
  intro j happroves hrunning e he read hread
  by_cases hij : j = i
  · subst hij
    rcases hserves.step_cases j with hs | ⟨⟨f, k, hprog⟩, hseg, -, hlast⟩ |
      ⟨q, k, hprog, -, hstore, -, hlast⟩
    · rw [hs] at hrunning he ⊢
      exact h j happroves hrunning e he read hread
    · rw [hlast] at he
      rw [hseg.pg]
      exact h j happroves (by simp [Task.Ended, hprog]) e he read hread
    · rw [hlast] at he
      cases he
      obtain ⟨hmem, hname⟩ := serve_readsLatest hread
      rw [hstore]
      exact ⟨hmem, hname, hcond happroves q (Task.awaited_eq_some.mpr ⟨k, hprog⟩) read hread⟩
  · -- the other approvals have not begun or have ended
    rw [Loop.step_tasks_ne c hij] at hrunning he
    rcases halone j hij with hfresh | ⟨r, hr⟩
    · rw [hfresh] at he
      cases he
    · exact absurd hr (hrunning r)

/-- An archived row at position `k`. -/
def ArchivedAt (k : Nat) (pg : Postgres) : Prop :=
  ∃ row, pg.teamCompositions[k]? = some row ∧ row.status = .archived

theorem Postgres.write_keeps_archived {pg pg' : Postgres} {wr : SqlWrite} {k : Nat}
    (h : pg.write wr = .ok pg') (hrow : ArchivedAt k pg)
    (hwr : wr.newStatus = .archived ∨
      ∀ row ∈ pg.teamCompositions, row.status = .archived → wr.decided ≠ some row.key) :
    ArchivedAt k pg' := by
  obtain ⟨row, hk, harchived⟩ := hrow
  by_cases hkey : wr.decided = some row.key
  · have hnew := hwr.resolve_right fun h => h row (List.mem_of_getElem? hk) harchived hkey
    rcases write_teamCompositions h with ⟨-, h⟩ | ⟨a, v, f, hsome, hf, h⟩ | ⟨_, _, _, rfl, -, -⟩
    · exact ⟨row, h ▸ hk, harchived⟩
    · rw [hkey] at hsome
      simp only [CompositionRow.key, Option.some.injEq, Prod.mk.injEq] at hsome
      refine ⟨f row, ?_, (hf row).2.trans hnew⟩
      rw [h]
      simp [updateComposition, hk, hsome]
    · cases hkey
  · exact ⟨row, write_keeps_row h hkey hk, harchived⟩

theorem Serves.archived_step {k : Nat} (hserves : Serves requests c)
    (hread : ReadIsCurrent requests c) (hunique : UniqueVersions c.store.pg)
    (hrow : ArchivedAt k c.store.pg) : ArchivedAt k (c.step i).store.pg := by
  rcases hserves.step_cases i with hs | ⟨-, hseg, -⟩ | ⟨q, _, hprog, hq, hstore, -⟩
  · rwa [hs]
  · rwa [hseg.pg]
  · rw [hstore]
    rcases World.serve_cases q c.store with ⟨e, he⟩ | ⟨a, pg, hpg, he⟩ <;> rw [he]
    · exact hrow
    · by_cases happrove : ∃ wr ∈ q.writes, wr.newStatus ≠ .archived
      · obtain ⟨wr, hwr, hnew⟩ := happrove
        cases wr with
        | approveComposition expertSignature signedAt agentType version =>
          obtain ⟨rfl, happroves, row, hlast, rfl, hmutable⟩ := hq _ hwr
          obtain ⟨hmem, hname, hopen⟩ := hread i happroves (by simp [Task.Ended, hprog]) _ hlast
            (agentType, row) rfl
          have hwrite := Postgres.eval_execute hpg
          refine Postgres.write_keeps_archived hwrite hrow (.inr ?_)
          intro row' hrow' harchived hkey
          -- the row of the version is the one the guard has read, and that is not archived
          have hkey : row'.key = row.key := by
            simpa [SqlWrite.decided, CompositionRow.key, show row.agentType = agentType from hname]
              using hkey.symm
          obtain rfl := List.inj_on_of_nodup_map hunique hrow' hmem hkey
          simp only [ProposalArtifact.Mutable, rowToArtifact, not_or, not_not] at hmutable
          exact hopen ⟨harchived, hmutable.2⟩
        | _ => simp [SqlWrite.newStatus] at hnew
      · push Not at happrove
        exact Postgres.eval_keeps (R := Preserves (ArchivedAt k)) hpg
          (fun _ _ wr hwr h hrow => Postgres.write_keeps_archived h hrow (.inl (happrove wr hwr)))
          hrow

/-- In every run of calls that do not overlap in which no approval reads an archived and unsigned
version as the latest, archived rows stay archived. -/
theorem archived_stays (w : World) (requests : ι → Request) (sched : List ι)
    (hunique : UniqueVersions w.pg)
    (halone : Loop.Meets (Loop.Alone fun i => (requests i).handle) (serving w requests) sched)
    (hcond : Loop.Meets (FindsNoArchived requests) (serving w requests) sched) :
    ∀ pre post, sched = pre ++ post → ∀ k,
      ArchivedAt k ((serving w requests).run pre).store.pg →
      ArchivedAt k ((serving w requests).run sched).store.pg := by
  rintro pre post rfl k hrow
  obtain ⟨hpre, hpost⟩ := Loop.meets_append.mp (halone.and hcond)
  let I (c : Loop host ι Response) : Prop :=
    Serves requests c ∧ ReadIsCurrent requests c ∧ UniqueVersions c.store.pg
  have hstep (c : Loop host ι Response) (i : ι) (hc : I c)
      (hi : c.Alone (fun i => (requests i).handle) i ∧ FindsNoArchived requests c i) :
      I (c.step i) := by
    refine ⟨hc.1.step i, hc.2.1.step hc.1 hi.1 hi.2, ?_⟩
    rcases hc.1.step_cases i with hs | ⟨-, hseg, -⟩ | ⟨q, k, -, -, hstore, -⟩
    · rw [hs]
      exact hc.2.2
    · rw [hseg.pg]
      exact hc.2.2
    · rw [hstore]
      exact World.serve_keeps (R := Preserves UniqueVersions)
        (fun _ _ _ _ h => Postgres.write_keeps_unique h) hc.2.2
  have hI := hpre.invariant hstep
    ⟨serves_serving w requests, fun _ _ _ _ he => absurd he (by simp [Loop.start]), hunique⟩
  rw [Loop.run_append]
  exact (hpost.invariant (I := fun c => I c ∧ ArchivedAt k c.store.pg)
    (fun c i ⟨hc, hk⟩ hi => ⟨hstep c i hc hi, hc.1.archived_step hc.2.1 hc.2.2 hk⟩) ⟨hI, hrow⟩).2

/-- A rejection, and another review of the same agent type. -/
def rejectionAnd (action : String) : Fin 2 → Request
  | 0 => .reviewProposal "shop" (Sample.review "reject" "ada")
  | 1 => .reviewProposal "shop" (Sample.review action "ada")

/-- The rejection runs to its end, then the other review. -/
def oneAfterTheOther : List (Fin 2) := List.replicate 6 0 ++ List.replicate 6 1

theorem archived_stays_rejected :
    ArchivedAt 0 ((serving (Sample.withTeam .proposed) (rejectionAnd "reject")).run
      oneAfterTheOther).store.pg := by
  refine archived_stays (Sample.withTeam .proposed) (rejectionAnd "reject") oneAfterTheOther
    (List.nodup_singleton _) (Loop.meets_append.mpr ⟨.alone (fun j _ => .inl rfl) 6,
      .alone (fun j hj => .inr ?_) 6⟩) (by decide) (List.replicate 6 0) _ rfl 0 ⟨_, rfl, rfl⟩
  obtain rfl : j = 0 := by omega
  exact ⟨_, rfl⟩

/-- The rejection archives the version and then raises, as no proposal can be generated. The
approval finds the version at the top, unsigned, and approves it. -/
theorem archived_comes_back :
    ¬ ∀ sched,
      Loop.Meets (Loop.Alone fun i => (rejectionAnd "approve" i).handle)
        (serving (Sample.withTeam .proposed) (rejectionAnd "approve")) sched →
      ∀ pre post, sched = pre ++ post → ∀ k,
        ArchivedAt k
          ((serving (Sample.withTeam .proposed) (rejectionAnd "approve")).run pre).store.pg →
        ArchivedAt k
          ((serving (Sample.withTeam .proposed) (rejectionAnd "approve")).run sched).store.pg := by
  intro h
  have harchived := h oneAfterTheOther (Loop.meets_append.mpr ⟨.alone (fun j _ => .inl rfl) 6,
    .alone (fun j hj => .inr ?_) 6⟩) (List.replicate 6 0) _ rfl 0 ⟨_, rfl, rfl⟩
  · obtain ⟨row, hrow, hstatus⟩ := harchived
    cases hrow
    cases hstatus
  · obtain rfl : j = 0 := by omega
    exact ⟨_, rfl⟩

end AgentWorx
