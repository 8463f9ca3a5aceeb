import AgentWorx.Verify.Requests
import AgentWorx.Verify.Sample

/-!
# The version history of a team

A new version is one more than a version that has been read in an earlier statement. Rows are never
removed, so the version that has been read is still there when the new one is inserted; then the
number is the next free one, or it is taken and the constraint refuses the row.
-/

namespace AgentWorx

open Coop Coop.Sync

/-! ## The stored versions -/

/-- The versions of an agent type, in the order they were inserted. -/
def Postgres.versions (pg : Postgres) (agentType : String) : List Int :=
  (pg.teamCompositions.filter (·.agentType = agentType)).map (·.version)

/-- The versions `1..n`. -/
def firstVersions (n : Nat) : List Int := (List.range n).map fun k : Nat => (k : Int) + 1

theorem mem_firstVersions {n : Nat} {v : Int} : v ∈ firstVersions n ↔ 1 ≤ v ∧ v ≤ n := by
  simp only [firstVersions, List.mem_map, List.mem_range]
  constructor
  · rintro ⟨k, hk, rfl⟩
    omega
  · rintro ⟨h1, hn⟩
    exact ⟨(v - 1).toNat, by omega, by omega⟩

theorem nodup_firstVersions (n : Nat) : (firstVersions n).Nodup :=
  List.nodup_range.map fun _ _ h => by simpa using h

theorem firstVersions_succ (n : Nat) :
    firstVersions (n + 1) = firstVersions n ++ [(n : Int) + 1] := by
  simp [firstVersions, List.range_succ]

/-- The last of the versions `1..m` is the highest. -/
theorem lt_of_append_eq_firstVersions {vs : List Int} {v : Int} {m : Nat}
    (h : vs ++ [v] = firstVersions m) {u : Int} (hu : u ∈ vs) : u < v := by
  cases m with
  | zero => simp [firstVersions] at h
  | succ k =>
    rw [firstVersions_succ] at h
    obtain ⟨rfl, hlast⟩ := List.append_inj' h rfl
    have hle := (mem_firstVersions.mp hu).2
    cases hlast
    omega

/-- Every row keeps its place and what it proposes. -/
def KeepsRows (pg pg' : Postgres) : Prop :=
  ∀ (k : Nat) row, pg.teamCompositions[k]? = some row →
    ∃ row', pg'.teamCompositions[k]? = some row' ∧ SameProposal row row'

instance : IsPreorder Postgres KeepsRows where
  refl _ _ row h := ⟨row, h, refl_of _ row⟩
  trans _ _ _ h1 h2 k row h := by
    obtain ⟨row', h', hsame⟩ := h1 k row h
    obtain ⟨row'', h'', hsame'⟩ := h2 k row' h'
    exact ⟨row'', h'', trans_of _ hsame hsame'⟩

namespace Postgres

variable {pg pg' : Postgres} {wr : SqlWrite} {agentType : String}

theorem mem_versions {v : Int} :
    v ∈ pg.versions agentType ↔
      ∃ row ∈ pg.teamCompositions, row.agentType = agentType ∧ row.version = v := by
  simp [versions, and_assoc]

theorem write_keepsRows (h : pg.write wr = .ok pg') : KeepsRows pg pg' := by
  intro k row hrow
  rcases write_teamCompositions h with
    ⟨-, h⟩ | ⟨agentType, version, f, -, hf, h⟩ | ⟨new, _, _, -, -, h⟩ <;> rw [h]
  · exact ⟨row, hrow, refl_of _ row⟩
  · refine ⟨if row.agentType = agentType ∧ row.version = version then f row else row, ?_, ?_⟩
    · simp [updateComposition, hrow]
    · split_ifs
      · exact (hf row).1
      · exact refl_of _ row
  · refine ⟨row, ?_, refl_of _ row⟩
    rw [List.getElem?_append_left (List.getElem?_eq_some_iff.mp hrow).1]
    exact hrow

/-- A write leaves the versions alone, or it inserts one that is not there yet. -/
theorem write_versions (h : pg.write wr = .ok pg') (agentType : String) :
    pg'.versions agentType = pg.versions agentType ∨
    ∃ row expertSignature, wr = .insertComposition row expertSignature ∧
      row.agentType = agentType ∧ row.version ∉ pg.versions agentType ∧
      pg'.versions agentType = pg.versions agentType ++ [row.version] := by
  unfold versions
  rcases write_teamCompositions h with
    ⟨-, h⟩ | ⟨a, v, f, -, hf, h⟩ | ⟨row, expertSignature, signature, rfl, hnew, h⟩
  · left
    rw [h]
  · left
    rw [h, updateComposition, List.filter_map, List.map_map]
    have htype : ((fun row : CompositionRow => decide (row.agentType = agentType)) ∘
        fun row => if row.agentType = a ∧ row.version = v then f row else row) =
          fun row => decide (row.agentType = agentType) := by
      funext row
      simp only [Function.comp_apply]
      split_ifs
      · rw [(hf row).1.agentType]
      · rfl
    rw [htype]
    refine List.map_congr_left fun row _ => ?_
    simp only [Function.comp_apply]
    split_ifs
    · exact (hf row).1.version
    · rfl
  · by_cases htype : row.agentType = agentType
    · refine .inr ⟨row, expertSignature, rfl, htype, fun hmem => ?_, ?_⟩
      · obtain ⟨r, hr, hrtype, hrversion⟩ := mem_versions.mp hmem
        exact hnew r hr ⟨hrtype.trans htype.symm, hrversion⟩
      · simp [h, List.filter_append, htype]
    · left
      simp [h, List.filter_append, htype]

end Postgres

/-! ## Stale reads -/

/-- What has been read of a history without gaps is one of its versions, or zero. -/
theorem versionRead_serve {w : World} {q : Sql} {agentType : String} {n : Nat}
    (h : w.pg.versions agentType = firstVersions n) {v : Int}
    (hv : v ∈ versionRead agentType (some ⟨q, (World.serve q w).1⟩)) : 0 ≤ v ∧ v ≤ n := by
  have hlatest {row : CompositionRow} (hrow : w.pg.latestComposition agentType = some row) :
      0 ≤ row.version ∧ row.version ≤ n := by
    have hmem := List.maxOn?_mem hrow
    simp only [List.mem_filter, decide_eq_true_eq] at hmem
    have hversion : row.version ∈ w.pg.versions agentType :=
      Postgres.mem_versions.mpr ⟨row, hmem.1, hmem.2, rfl⟩
    rw [h, mem_firstVersions] at hversion
    omega
  unfold versionRead at hv
  split at hv
  · rename_i name version heq
    obtain ⟨rfl, rfl⟩ : name = agentType ∧ _ := by
      split_ifs at hv with hname
      · exact ⟨hname, Option.mem_some_iff.mp hv⟩
      · cases hv
    injection heq with hevent
    injection hevent with hq hresult
    subst hq
    obtain ⟨pg, hpg, -⟩ := World.serve_ok (eq_of_heq hresult)
    have hversion := congrArg Prod.fst (Except.ok.inj hpg)
    simp only at hversion
    rw [← hversion]
    cases hrow : w.pg.latestComposition name with
    | none => simp
    | some row => exact hlatest hrow
  · rename_i name row heq
    obtain ⟨rfl, rfl⟩ : name = agentType ∧ _ := by
      split_ifs at hv with hname
      · exact ⟨hname, Option.mem_some_iff.mp hv⟩
      · cases hv
    injection heq with hevent
    injection hevent with hq hresult
    subst hq
    obtain ⟨pg, hpg, -⟩ := World.serve_ok (eq_of_heq hresult)
    exact hlatest (congrArg Prod.fst (Except.ok.inj hpg))
  · cases hv

/-- A statement whose insertions go by a version that is there extends a history without gaps to one
without gaps. -/
theorem serve_versions {request : Request} {l : Option (Event host)} {w : World} {q : Sql}
    {agentType : String} {n : Nat} (hq : ∀ wr ∈ q.writes, wr.Allowed request l w q)
    (h : w.pg.versions agentType = firstVersions n)
    (hread : ∀ v ∈ versionRead agentType l, 0 ≤ v ∧ v ≤ n) :
    ∃ m, n ≤ m ∧ (World.serve q w).2.pg.versions agentType = firstVersions m := by
  refine World.serve_keeps
    (R := Preserves fun pg : Postgres => ∃ m, n ≤ m ∧ pg.versions agentType = firstVersions m)
    (fun pg pg' wr hwr hwrite => ?_) ⟨n, le_rfl, h⟩
  rintro ⟨m, hm, hpg⟩
  rcases Postgres.write_versions hwrite agentType with
    hsame | ⟨row, expertSignature, rfl, rfl, hnew, hversions⟩
  · exact ⟨m, hm, hsame.trans hpg⟩
  · -- the version that was read is at most `m`, and the one after it is not taken
    obtain ⟨-, v, hv, hversion⟩ := hq _ hwr
    have hbound := hread v hv
    rw [hpg, mem_firstVersions] at hnew
    have hnext : row.version = (m : Int) + 1 := by omega
    refine ⟨m + 1, by omega, ?_⟩
    rw [hversions, hpg, firstVersions_succ, hnext]

/-! ## Runs -/

variable {ι : Type} [DecidableEq ι] {requests : ι → Request} {c : Loop host ι Response}

/-- The versions are `1..n`, and no call goes by a version beyond them. -/
def GapFree (agentType : String) (c : Loop host ι Response) : Prop :=
  ∃ n, c.store.pg.versions agentType = firstVersions n ∧
    ∀ i, ∀ v ∈ versionRead agentType (c.tasks i).last, 0 ≤ v ∧ v ≤ n

omit [DecidableEq ι] in
theorem GapFree.start {w : World} {agentType : String} (requests : ι → Request)
    (hempty : ∀ row ∈ w.pg.teamCompositions, row.agentType ≠ agentType) :
    GapFree agentType (serving w requests) := by
  refine ⟨0, List.eq_nil_iff_forall_not_mem.mpr fun v hv => ?_, fun i v hv => by cases hv⟩
  obtain ⟨row, hrow, htype, -⟩ := Postgres.mem_versions.mp hv
  exact hempty row hrow htype

theorem GapFree.step {agentType : String} (h : GapFree agentType c) (hserves : Serves requests c)
    (i : ι) : GapFree agentType (c.step i) := by
  obtain ⟨n, hversions, hread⟩ := h
  rcases hserves.step_cases i with hs | ⟨-, hseg, -, hlast⟩ | ⟨q, k, hprog, hq, hstore, -, hlast⟩
  · rw [hs]
    exact ⟨n, hversions, hread⟩
  · refine ⟨n, by rw [hseg.pg]; exact hversions, fun j v hv => ?_⟩
    by_cases hij : j = i
    · subst hij
      rw [hlast] at hv
      exact hread j v hv
    · rw [Loop.step_tasks_ne c hij] at hv
      exact hread j v hv
  · obtain ⟨m, hm, hversions'⟩ := serve_versions hq hversions (hread i)
    refine ⟨m, by rw [hstore]; exact hversions', fun j v hv => ?_⟩
    have hbound : 0 ≤ v ∧ v ≤ n := by
      by_cases hij : j = i
      · subst hij
        rw [hlast] at hv
        exact versionRead_serve hversions hv
      · rw [Loop.step_tasks_ne c hij] at hv
        exact hread j v hv
    omega

theorem Serves.keepsRows (h : Serves requests c) (i : ι) :
    KeepsRows c.store.pg (c.step i).store.pg := by
  rcases h.step_cases i with hs | ⟨-, hseg, -⟩ | ⟨q, k, -, -, hstore, -⟩
  · rw [hs]
    exact refl_of _ _
  · rw [hseg.pg]
    exact refl_of _ _
  · rw [hstore]
    exact World.serve_keeps fun _ _ _ _ hwrite => Postgres.write_keepsRows hwrite

/-- From an empty history on, in every run of any requests, the versions of an agent type are
`1..n`, no row is removed, and no row changes what it proposes. -/
theorem versions_gap_free (w : World) (requests : ι → Request) (sched : List ι) (agentType : String)
    (hempty : ∀ row ∈ w.pg.teamCompositions, row.agentType ≠ agentType) :
    (∃ n, ((serving w requests).run sched).store.pg.versions agentType = firstVersions n) ∧
    ∀ pre post, sched = pre ++ post →
      KeepsRows ((serving w requests).run pre).store.pg
        ((serving w requests).run sched).store.pg := by
  constructor
  · obtain ⟨-, n, hn, -⟩ := Loop.run_invariant
      (I := fun c => Serves requests c ∧ GapFree agentType c)
      (fun c i ⟨hserves, hc⟩ => ⟨hserves.step i, hc.step hserves i⟩)
      ⟨serves_serving w requests, .start requests hempty⟩ sched
    exact ⟨n, hn⟩
  · rintro pre post rfl
    rw [Loop.run_append]
    refine (Loop.run_invariant (c := (serving w requests).run pre)
      (I := fun c => Serves requests c ∧
        KeepsRows ((serving w requests).run pre).store.pg c.store.pg)
      (fun c i ⟨hserves, hc⟩ => ⟨hserves.step i, trans_of _ hc (hserves.keepsRows i)⟩)
      ⟨(serves_serving w requests).run pre, refl_of _ _⟩ post).2

/-- A process with an agent type without a team, whose model proposes an empty one. -/
def unstaffed : World :=
  { Sample.withTeam .proposed with
    env := { Sample.env with
      reply := fun _ _ => .ok ""
      loadProposal := fun _ => .ok ⟨.ok .pipeline, .ok [], .ok [], .ok ∅, .ok ∅⟩ }
    pg := { Postgres.empty with agentTypes := [Sample.shopRow] } }

def generation : Request :=
  .generateProposal "shop" "take orders" "orders only" .pipeline []

/-- Both calls read that there is no version yet. -/
theorem versions_gap_free_interleaved :
    ∃ n, ((serving unstaffed fun _ : Fin 2 => generation).run
      [0, 1, 0, 1, 0, 1]).store.pg.versions "shop" = firstVersions n :=
  (versions_gap_free unstaffed (fun _ : Fin 2 => generation) [0, 1, 0, 1, 0, 1] "shop"
    fun _ hrow => by cases hrow).1

/-! ## Versions in force -/

/-- How many versions of the agent type are approved. -/
def Postgres.inForce (pg : Postgres) (agentType : String) : Nat :=
  pg.teamCompositions.countP fun row => row.agentType = agentType ∧ row.status = .approved

/-- The write approves a version of the agent type, or inserts an approved one. -/
def SqlWrite.PutsInForce (agentType : String) : SqlWrite → Prop
  | .approveComposition _ _ name _ => name = agentType
  | .insertComposition row _ => row.agentType = agentType ∧ row.status = .approved
  | _ => False

instance (agentType : String) (wr : SqlWrite) : Decidable (wr.PutsInForce agentType) := by
  cases wr <;> unfold SqlWrite.PutsInForce <;> infer_instance

namespace Postgres

variable {pg pg' : Postgres} {wr : SqlWrite} {agentType : String}

theorem write_inForce_le (h : pg.write wr = .ok pg') (hputs : ¬ wr.PutsInForce agentType) :
    pg'.inForce agentType ≤ pg.inForce agentType := by
  unfold inForce
  rcases write_teamCompositions h with
    ⟨-, h⟩ | ⟨a, v, f, hkey, hf, h⟩ | ⟨row, expertSignature, signature, rfl, -, h⟩ <;> rw [h]
  · rw [updateComposition, List.countP_map]
    refine List.countP_mono_left fun row _ => ?_
    simp only [Function.comp_apply, decide_eq_true_eq]
    split_ifs with hrow
    · -- the status of a version of the agent type is set to `archived`
      rintro ⟨htype, hstatus⟩
      rw [(hf row).1.agentType, hrow.1] at htype
      subst htype
      cases wr <;> cases hkey <;> first
        | exact absurd rfl hputs
        | simp [(hf row).2, SqlWrite.newStatus] at hstatus
    · exact id
  · rw [List.countP_append, List.countP_singleton]
    simpa [SqlWrite.PutsInForce] using hputs

/-- An approval puts one version in force, as the versions differ. -/
theorem approve_inForce_le {expertSignature : TextParam} {signedAt : Int} {name : String}
    {version : Int} (h : pg.write (.approveComposition expertSignature signedAt name version) =
      .ok pg') (hunique : (pg.versions agentType).Nodup) (hnone : pg.inForce agentType = 0) :
    pg'.inForce agentType ≤ 1 := by
  have hbefore : ∀ row ∈ pg.teamCompositions, row.agentType = agentType →
      row.status ≠ .approved := by
    simpa [inForce, List.countP_eq_zero] using hnone
  have hkey : pg.teamCompositions.countP (fun row => row.agentType = agentType ∧
      row.version = version) ≤ 1 := by
    refine le_trans (le_of_eq ?_) (List.nodup_iff_count_le_one.mp hunique version)
    rw [versions, List.count, List.countP_map, List.countP_filter]
    refine List.countP_congr fun row _ => ?_
    simp [and_comm]
  rcases write_teamCompositions h with ⟨hnone, -⟩ | ⟨a, v, f, hkeys, hf, h⟩ | ⟨_, _, _, hwr, -⟩
  · cases hnone
  · cases hkeys
    refine le_trans ?_ hkey
    rw [inForce, h, updateComposition, List.countP_map]
    refine List.countP_mono_left fun row hrow => ?_
    simp only [Function.comp_apply, decide_eq_true_eq]
    split_ifs with hrowkey
    · rintro ⟨htype, -⟩
      exact ⟨(hf row).1.agentType.symm.trans htype, hrowkey.2⟩
    · rintro ⟨htype, happroved⟩
      exact absurd happroved (hbefore row hrow htype)
  · cases hwr

/-- None is in force, or one is and the version after `v` has been inserted. -/
def InForceAfter (pg : Postgres) (agentType : String) (v : Int) : Prop :=
  pg.inForce agentType = 0 ∨ pg.inForce agentType ≤ 1 ∧ v + 1 ∈ pg.versions agentType

/-- A second insertion of the version after `v` is refused. -/
theorem write_inForceAfter {v : Int} (h : pg.write wr = .ok pg')
    (hputs : wr.PutsInForce agentType → ∃ row expertSignature,
      wr = .insertComposition row expertSignature ∧ row.version = v + 1)
    (hpg : pg.InForceAfter agentType v) : pg'.InForceAfter agentType v := by
  by_cases hwr : wr.PutsInForce agentType
  · obtain ⟨row, expertSignature, rfl, hversion⟩ := hputs hwr
    obtain ⟨htype, -⟩ := hwr
    obtain ⟨hnew, signature, h⟩ := write_insertComposition h
    have hno : v + 1 ∉ pg.versions agentType := by
      intro hv
      obtain ⟨r, hr, hrtype, hrversion⟩ := mem_versions.mp hv
      exact hnew r hr ⟨hrtype.trans htype.symm, hrversion.trans hversion.symm⟩
    have hzero : pg.inForce agentType = 0 := hpg.resolve_right fun h => hno h.2
    right
    constructor
    · rw [inForce] at hzero ⊢
      rw [h, List.countP_append, hzero, List.countP_singleton]
      split_ifs <;> simp
    · exact mem_versions.mpr
        ⟨{ row with expertSignature := signature }, by simp [h], htype, hversion⟩
  · have hle := write_inForce_le h hwr
    refine hpg.imp (fun hzero => by omega) fun ⟨hone, hv⟩ => ⟨hle.trans hone, ?_⟩
    rcases write_versions h agentType with hsame | ⟨row, _, -, -, -, hrow⟩
    · rwa [hsame]
    · rw [hrow]
      exact List.mem_append_left _ hv

end Postgres

/-- A statement that puts a version in force when none is puts one in force: an approval goes by one
version, and all the insertions of a transaction by the same. -/
theorem serve_inForce_le {request : Request} {l : Option (Event host)} {w : World} {q : Sql}
    {agentType : String} (hq : ∀ wr ∈ q.writes, wr.Allowed request l w q)
    (hunique : (w.pg.versions agentType).Nodup) (h : w.pg.inForce agentType ≤ 1)
    (hcond : (∃ wr ∈ q.writes, wr.PutsInForce agentType) → w.pg.inForce agentType = 0) :
    (World.serve q w).2.pg.inForce agentType ≤ 1 := by
  by_cases hputs : ∃ wr ∈ q.writes, wr.PutsInForce agentType
  · have hnone := hcond hputs
    obtain ⟨wr, hwr, hwrputs⟩ := hputs
    cases wr with
    | approveComposition expertSignature signedAt name version =>
      obtain ⟨rfl, -⟩ := hq _ hwr
      rcases World.serve_execute
        (.approveComposition expertSignature signedAt name version) w with hsame | hwrite
      · rwa [hsame]
      · exact Postgres.approve_inForce_le hwrite hunique hnone
    | insertComposition row expertSignature =>
      obtain ⟨-, v, hv, -⟩ := hq _ hwr
      obtain ⟨rfl, -⟩ := hwrputs
      have hafter : (World.serve q w).2.pg.InForceAfter row.agentType v := by
        refine World.serve_keeps (R := Preserves (Postgres.InForceAfter · row.agentType v))
          (fun pg pg' wr' hwr' hwrite => Postgres.write_inForceAfter hwrite fun hputs => ?_)
          (.inl hnone)
        cases wr' with
        | approveComposition =>
          obtain ⟨rfl, -⟩ := hq _ hwr'
          simp [Sql.writes] at hwr
        | insertComposition row' expertSignature' =>
          obtain ⟨-, v', hv', hversion⟩ := hq _ hwr'
          rw [hputs.1] at hv'
          obtain rfl := Option.mem_unique hv hv'
          exact ⟨row', expertSignature', rfl, hversion⟩
        | _ => cases hputs
      exact hafter.elim (by omega) And.left
    | _ => cases hwrputs
  · refine World.serve_keeps (R := Preserves fun pg : Postgres => pg.inForce agentType ≤ 1)
      (fun pg pg' wr hwr hwrite hpg => ?_) h
    exact (Postgres.write_inForce_le hwrite fun hwrputs => hputs ⟨wr, hwr, hwrputs⟩).trans hpg

/-- Task `i` is about to put a version in force only if none is. -/
def FindsNoneInForce (agentType : String) (c : Loop host ι Response) (i : ι) : Prop :=
  ∀ q ∈ (c.tasks i).awaited, (∃ wr ∈ q.writes, wr.PutsInForce agentType) →
    c.store.pg.inForce agentType = 0

instance (agentType : String) (c : Loop host ι Response) (i : ι) :
    Decidable (FindsNoneInForce agentType c i) :=
  inferInstanceAs (Decidable (∀ q ∈ (c.tasks i).awaited, _ → _))

theorem Serves.inForce_step {agentType : String} {i : ι} (hserves : Serves requests c)
    (hversions : GapFree agentType c) (hcond : FindsNoneInForce agentType c i)
    (h : c.store.pg.inForce agentType ≤ 1) : (c.step i).store.pg.inForce agentType ≤ 1 := by
  rcases hserves.step_cases i with hs | ⟨-, hseg, -⟩ | ⟨q, k, hprog, hq, hstore, -⟩
  · rwa [hs]
  · rwa [hseg.pg]
  · obtain ⟨n, hn, -⟩ := hversions
    rw [hstore]
    refine serve_inForce_le hq (hn ▸ nodup_firstVersions n) h ?_
    exact hcond q (Task.awaited_eq_some.mpr ⟨k, hprog⟩)

/-- From an empty history on, in every run in which no version is approved, and no approved one
inserted, while another is in force, at most one version of an agent type is in force. -/
theorem one_in_force (w : World) (requests : ι → Request) (sched : List ι) (agentType : String)
    (hempty : ∀ row ∈ w.pg.teamCompositions, row.agentType ≠ agentType)
    (hcond : Loop.Meets (FindsNoneInForce agentType) (serving w requests) sched) :
    ∀ pre post, sched = pre ++ post →
      ((serving w requests).run pre).store.pg.inForce agentType ≤ 1 := by
  rintro pre post rfl
  have hstart : (serving w requests).store.pg.inForce agentType ≤ 1 := by
    refine le_of_eq_of_le (List.countP_eq_zero.mpr fun row hrow => ?_) zero_le_one
    simp [hempty row hrow]
  exact ((Loop.meets_append.mp hcond).1.invariant
    (I := fun c => Serves requests c ∧ GapFree agentType c ∧ c.store.pg.inForce agentType ≤ 1)
    (fun c i ⟨hserves, hversions, h⟩ hi =>
      ⟨hserves.step i, hversions.step hserves i, hserves.inForce_step hversions hi h⟩)
    ⟨serves_serving w requests, .start requests hempty, hstart⟩).2.2

def approvalBy (expertId : String) : Request :=
  .reviewProposal "shop" (Sample.review "approve" expertId)

def approvalAfterGeneration : Fin 2 → Request
  | 0 => generation
  | 1 => approvalBy "ada"

theorem one_in_force_approved :
    ((serving unstaffed approvalAfterGeneration).run
      [0, 0, 0, 1, 1, 1, 1, 1]).store.pg.inForce "shop" ≤ 1 :=
  one_in_force unstaffed approvalAfterGeneration [0, 0, 0, 1, 1, 1, 1, 1] "shop"
    (fun _ hrow => by cases hrow) (by decide +kernel) _ [] (List.append_nil _).symm

/-- A newer version is approved while an older one is in force. -/
theorem two_in_force :
    ¬ ∀ w, completed [generation, approvalBy "ada", generation, approvalBy "ada"] unstaffed =
      some w → w.pg.inForce "shop" ≤ 1 := by
  intro h
  have hrun : (completed [generation, approvalBy "ada", generation, approvalBy "ada"]
      unstaffed).map (fun w => w.pg.inForce "shop") = some 2 := by
    decide +kernel
  obtain ⟨w, hw, htwo⟩ := Option.map_eq_some_iff.mp hrun
  have := h w hw
  omega

end AgentWorx
