import AgentWorx.Lib.Upsert
import Mathlib.Data.List.Forall2
import Mathlib.Order.Defs.Unbundled

/-!
# Tables that grow

`List.SublistForall₂ R rows rows'` says of a table that its rows are still there, in their order and
each related to what it was: a row may be updated, as long as the update is one that `R` allows, and
new rows may be added. An upsert is such a step, and what `R` never takes back can be counted.
-/

namespace Keyed

variable {α κ : Type} {R : α → α → Prop} {rows rows' : List α}

theorem grows_map {f : α → α} (h : ∀ row ∈ rows, R row (f row)) :
    List.SublistForall₂ R rows (rows.map f) := by
  induction rows with
  | nil => exact .nil
  | cons row rows ih =>
    exact .cons (h row List.mem_cons_self) (ih fun row' hrow' => h row' (.tail _ hrow'))

theorem grows_append [Std.Refl R] (rows added : List α) :
    List.SublistForall₂ R rows (rows ++ added) := by
  induction rows with
  | nil => exact .nil
  | cons row rows ih => exact .cons (refl_of R row) ih

theorem grows_upsert [Std.Refl R] [DecidableEq κ] {key : α → κ} {k : κ} {new : α} {f : α → α}
    (hf : ∀ row, key row = k → R row (f row)) :
    List.SublistForall₂ R rows (upsert key k new f rows) := by
  cases h : lookup key k rows with
  | none =>
    rw [upsert_of_none h]
    exact grows_append rows [new]
  | some row =>
    rw [upsert_of_some h]
    refine grows_map fun row' _ => ?_
    split_ifs with hkey
    · exact hf row' hkey
    · exact refl_of R row'

theorem mem_of_grows (h : List.SublistForall₂ R rows rows') {row : α} (hrow : row ∈ rows) :
    ∃ row' ∈ rows', R row row' := by
  induction h with
  | nil => cases hrow
  | @cons row1 row1' _ _ hR _ ih =>
    rcases List.mem_cons.mp hrow with rfl | hrow
    · exact ⟨row1', List.mem_cons_self, hR⟩
    · obtain ⟨row', hrow', hR'⟩ := ih hrow
      exact ⟨row', .tail _ hrow', hR'⟩
  | cons_right _ ih =>
    obtain ⟨row', hrow', hR⟩ := ih hrow
    exact ⟨row', .tail _ hrow', hR⟩

/-- A property that no row loses is counted at least as often afterwards. -/
theorem countP_le_of_grows {p : α → Bool} (hp : ∀ row row', R row row' → p row → p row')
    (h : List.SublistForall₂ R rows rows') : rows.countP p ≤ rows'.countP p := by
  induction h with
  | nil => exact Nat.zero_le _
  | @cons row row' _ _ hR _ ih =>
    rw [List.countP_cons, List.countP_cons]
    have hrow : (if p row then 1 else 0) ≤ if p row' then 1 else 0 := by
      split_ifs with h1 h2
      · exact Nat.le_refl _
      · exact absurd (hp row row' hR h1) h2
      · exact Nat.zero_le _
      · exact Nat.le_refl _
    exact Nat.add_le_add ih hrow
  | cons_right _ ih => exact Nat.le_trans ih (List.countP_cons ▸ Nat.le_add_right _ _)

end Keyed
