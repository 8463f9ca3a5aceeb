import Mathlib.Data.List.Forall2
import Mathlib.Data.List.Nodup

/-!
# Passes over a list

A loop that looks at every element and collects a result for those that pass a test computes a list
that matches the elements one by one. A stable sort of what several passes have collected keeps the
order of the passes among elements that compare equal.
-/

namespace Passes

variable {α β ε : Type} {P : α → Prop} [DecidablePred P] {R : α → β → Prop}

theorem forall₂_filterMap {f : α → Option β} {xs : List α}
    (hskip : ∀ x ∈ xs, ¬ P x → f x = none)
    (hadd : ∀ x ∈ xs, P x → ∃ b, f x = some b ∧ R x b) :
    List.Forall₂ R (xs.filter P) (xs.filterMap f) := by
  induction xs with
  | nil => exact .nil
  | cons x xs ih =>
    have hrest := ih (fun y hy => hskip y (List.mem_cons_of_mem _ hy))
      fun y hy => hadd y (List.mem_cons_of_mem _ hy)
    by_cases hx : P x
    · obtain ⟨b, hb, hR⟩ := hadd x (by simp) hx
      rw [List.filter_cons_of_pos (by simpa using hx), List.filterMap_cons_some hb]
      exact .cons hR hrest
    · rw [List.filter_cons_of_neg (by simpa using hx),
        List.filterMap_cons_none (hskip x (by simp) hx)]
      exact hrest

/-- A loop that appends to a list, or skips the element. -/
theorem forall₂_foldlM {f : List β → α → Except ε (List β)} {xs : List α}
    (hskip : ∀ x ∈ xs, ¬ P x → ∀ bs, f bs x = .ok bs)
    (hadd : ∀ x ∈ xs, P x → ∃ b, R x b ∧ ∀ bs, f bs x = .ok (bs ++ [b])) (acc : List β) :
    ∃ bs, xs.foldlM f acc = .ok (acc ++ bs) ∧ List.Forall₂ R (xs.filter P) bs := by
  induction xs generalizing acc with
  | nil => exact ⟨[], by simp [pure, Except.pure], .nil⟩
  | cons x xs ih =>
    have ih := ih (fun y hy => hskip y (List.mem_cons_of_mem _ hy))
      fun y hy => hadd y (List.mem_cons_of_mem _ hy)
    rw [List.foldlM_cons]
    by_cases hx : P x
    · obtain ⟨b, hR, hf⟩ := hadd x (by simp) hx
      obtain ⟨bs, hbs, hforall⟩ := ih (acc ++ [b])
      rw [hf acc, List.filter_cons_of_pos (by simpa using hx)]
      refine ⟨b :: bs, ?_, .cons hR hforall⟩
      change xs.foldlM f (acc ++ [b]) = _
      rw [hbs, List.append_assoc]
      rfl
    · obtain ⟨bs, hbs, hforall⟩ := ih acc
      rw [hskip x (by simp) hx acc, List.filter_cons_of_neg (by simpa using hx)]
      exact ⟨bs, hbs, hforall⟩

omit [DecidablePred P] in
theorem forall₂_mapM {f : α → Except ε β} {xs : List α}
    (h : ∀ x ∈ xs, ∃ b, f x = .ok b ∧ R x b) :
    ∃ bs, xs.mapM f = .ok bs ∧ List.Forall₂ R xs bs := by
  induction xs with
  | nil => exact ⟨[], rfl, .nil⟩
  | cons x xs ih =>
    obtain ⟨b, hb, hR⟩ := h x (by simp)
    obtain ⟨bs, hbs, hforall⟩ := ih fun y hy => h y (List.mem_cons_of_mem _ hy)
    rw [List.mapM_cons, hb]
    refine ⟨b :: bs, ?_, .cons hR hforall⟩
    change (do let bs' ← xs.mapM f; return b :: bs') = _
    rw [hbs]
    rfl

/-- What a matched list projects to, if every element fixes it. -/
theorem map_eq_of_forall₂ {γ : Type} {g : α → γ} {h : β → γ} {xs : List α} {bs : List β}
    (hforall : List.Forall₂ R xs bs) (hR : ∀ x b, R x b → h b = g x) : bs.map h = xs.map g := by
  induction hforall with
  | nil => rfl
  | cons hx _ ih => rw [List.map_cons, List.map_cons, hR _ _ hx, ih]

theorem exists_of_forall₂ {xs : List α} {bs : List β} (hforall : List.Forall₂ R xs bs) {b : β}
    (hb : b ∈ bs) : ∃ x ∈ xs, R x b := by
  induction hforall with
  | nil => cases hb
  | cons hx _ ih =>
    rcases List.mem_cons.mp hb with rfl | hb
    · exact ⟨_, by simp, hx⟩
    · obtain ⟨x, hmem, hR⟩ := ih hb
      exact ⟨x, List.mem_cons_of_mem _ hmem, hR⟩

/-! ## Stable sorting -/

/-- In a sorted list, elements that compare equal are in the order they had before. -/
theorem pairwise_mergeSort_stable {le : α → α → Bool}
    (htrans : ∀ a b c, le a b → le b c → le a c) (htotal : ∀ a b, le a b || le b a)
    {S : α → α → Prop} (hrefl : ∀ a, S a a) {xs : List α} (hxs : xs.Pairwise S) :
    (xs.mergeSort le).Pairwise fun a b => le a b ∧ (le b a → S a b) := by
  have hsorted := List.pairwise_mergeSort (List.zipIdxLE_trans htrans)
    (List.zipIdxLE_total htotal) xs.zipIdx
  rw [← List.mergeSort_zipIdx, List.pairwise_map]
  refine hsorted.imp_of_mem fun {a b} ha hb hab => ?_
  rw [List.mem_mergeSort, List.mem_zipIdx_iff_getElem?] at ha hb
  unfold List.zipIdxLE at hab
  split_ifs at hab with hle hback
  · refine ⟨hle, fun _ => ?_⟩
    -- the positions decide, and two elements at one position are the same
    rw [decide_eq_true_eq] at hab
    rcases Nat.lt_or_eq_of_le hab with hlt | heq
    · obtain ⟨hi, hai⟩ := List.getElem?_eq_some_iff.mp ha
      obtain ⟨hj, hbj⟩ := List.getElem?_eq_some_iff.mp hb
      rw [← hai, ← hbj]
      exact List.pairwise_iff_getElem.mp hxs _ _ hi hj hlt
    · rw [heq, hb] at ha
      rw [Option.some.inj ha]
      exact hrefl _
  · exact ⟨hle, fun hba => absurd hba hback⟩

end Passes
