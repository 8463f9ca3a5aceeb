import AgentWorx.Lib.Text
import Mathlib.Data.List.DropRight
import Mathlib.Data.List.Infix

/-!
# Trimmed texts

`str.strip` on lists of characters. What occurs in a trimmed text is what occurs in the text without
a character that is trimmed; a text that neither starts nor ends with a space is left as it is.
-/

namespace Text

variable {phrase text left mid right first last : List Char} {c : Char} {cs : List Char}

/-- `text.strip()` on characters. -/
def trim (text : List Char) : List Char := (text.dropWhile isSpace).rdropWhile isSpace

theorem trim_head (hc : c ∈ (trim text).head?) : ¬ isSpace c := by
  obtain ⟨cs, htrim⟩ := List.head?_eq_some_iff.mp hc
  have hprefix : c :: cs <+: text.dropWhile isSpace := htrim ▸ List.rdropWhile_prefix isSpace _
  obtain ⟨rest, hrest⟩ := hprefix
  have hhead := List.head?_dropWhile_not isSpace text
  rw [← hrest] at hhead
  simpa using hhead

theorem trim_getLast (hc : c ∈ (trim text).getLast?) : ¬ isSpace c := by
  obtain ⟨hne, rfl⟩ := List.mem_getLast?_eq_getLast hc
  exact List.rdropWhile_last_not isSpace _ hne

/-- A text is its trimmed part between spaces. -/
theorem trim_split (text : List Char) : text = text.takeWhile isSpace ++ trim text ++
    (text.dropWhile isSpace).rtakeWhile isSpace := by
  rw [List.append_assoc, trim, List.rdropWhile_append_rtakeWhile, List.takeWhile_append_dropWhile]

/-! ## What is left in the middle -/

/-- No character of the middle is trimmed: one at its start would be only if nothing but spaces came
before it, and one at its end only if nothing but spaces came after it. -/
structure Untrimmed (left mid right : List Char) : Prop where
  start : left.all isSpace → ¬ mid.head?.any isSpace
  stop : right.all isSpace → ¬ mid.getLast?.any isSpace

theorem untrimmed_iff : Untrimmed left mid right ↔
    (left.all isSpace → ¬ mid.head?.any isSpace) ∧
      (right.all isSpace → ¬ mid.getLast?.any isSpace) :=
  ⟨fun ⟨hstart, hstop⟩ => ⟨hstart, hstop⟩, fun ⟨hstart, hstop⟩ => ⟨hstart, hstop⟩⟩

instance : Decidable (Untrimmed left mid right) := decidable_of_iff _ untrimmed_iff.symm

theorem dropWhile_middle (h : left.all isSpace → ¬ mid.head?.any isSpace)
    (hmid : mid ≠ []) :
    (left ++ mid ++ right).dropWhile isSpace = left.dropWhile isSpace ++ mid ++ right := by
  obtain ⟨c, cs, rfl⟩ := List.exists_cons_of_ne_nil hmid
  rw [List.append_assoc, List.dropWhile_append]
  split_ifs with hempty
  · have hspaces := List.isEmpty_iff.mp hempty
    have hc : ¬ isSpace c := h (List.all_eq_true.mpr (List.dropWhile_eq_nil_iff.mp hspaces))
    rw [hspaces, List.cons_append, List.dropWhile_cons_of_neg hc]
    rfl
  · rw [List.append_assoc]

theorem rdropWhile_middle (h : right.all isSpace → ¬ mid.getLast?.any isSpace)
    (hmid : mid ≠ []) :
    (left ++ mid ++ right).rdropWhile isSpace = left ++ mid ++ right.rdropWhile isSpace := by
  have hreverse : (right.reverse ++ mid.reverse ++ left.reverse).dropWhile isSpace =
      right.reverse.dropWhile isSpace ++ mid.reverse ++ left.reverse :=
    dropWhile_middle (by simpa using h) (by simpa using hmid)
  rw [List.rdropWhile, List.rdropWhile, List.reverse_append, List.reverse_append,
    ← List.append_assoc, hreverse]
  simp

/-- What occurs in a trimmed text is what occurs in the text and is not trimmed. -/
theorem infix_trim_iff (hmid : mid ≠ []) : mid <:+: trim text ↔
    ∃ left right, text = left ++ mid ++ right ∧ Untrimmed left mid right := by
  constructor
  · rintro ⟨left, right, htrim⟩
    have hsplit := trim_split text
    rw [← htrim] at hsplit
    refine ⟨text.takeWhile isSpace ++ left, right ++ (text.dropWhile isSpace).rtakeWhile isSpace,
      by simpa using hsplit, fun hspaces hany => ?_, fun hspaces hany => ?_⟩
    · obtain ⟨c, hc, hspace⟩ := (Option.any_eq_true _ _).mp hany
      cases left with
      | nil => exact trim_head (htrim ▸ List.mem_head?_append_of_mem_head? hc) hspace
      | cons d left =>
        have hd : ¬ isSpace d := trim_head (by rw [← htrim]; rfl)
        exact hd (List.all_eq_true.mp hspaces d (by simp))
    · obtain ⟨c, hc, hspace⟩ := (Option.any_eq_true _ _).mp hany
      rcases List.eq_nil_or_concat' right with rfl | ⟨right, d, rfl⟩
      · rw [List.append_nil] at htrim
        exact trim_getLast (htrim ▸ List.mem_getLast?_append_of_mem_getLast? hc) hspace
      · have hd : ¬ isSpace d := trim_getLast (by rw [← htrim]; simp)
        exact hd (List.all_eq_true.mp hspaces d (by simp))
  · rintro ⟨left, right, rfl, h⟩
    rw [trim, dropWhile_middle h.start hmid, rdropWhile_middle h.stop hmid]
    exact ⟨_, _, rfl⟩

/-! ## Solid texts -/

/-- A phrase that neither starts nor ends with a space. -/
structure Solid (phrase : List Char) : Prop where
  ne_nil : phrase ≠ []
  start : phrase.dropWhile isSpace = phrase
  stop : phrase.rdropWhile isSpace = phrase

theorem Solid.not_isSpace_head (h : Solid (c :: cs)) : ¬ isSpace c := by
  simpa using List.dropWhile_eq_self_iff.mp h.start (Nat.succ_pos _)

theorem Solid.not_isSpace_last (h : Solid (cs ++ [c])) : ¬ isSpace c := by
  simpa using List.rdropWhile_eq_self_iff.mp h.stop (by simp)

theorem Solid.not_any_head (h : Solid phrase) : ¬ phrase.head?.any isSpace := by
  intro hany
  obtain ⟨c, hc, hspace⟩ := (Option.any_eq_true _ _).mp hany
  obtain ⟨cs, rfl⟩ := List.head?_eq_some_iff.mp hc
  exact h.not_isSpace_head hspace

theorem Solid.not_any_getLast (h : Solid phrase) : ¬ phrase.getLast?.any isSpace := by
  intro hany
  obtain ⟨c, hc, hspace⟩ := (Option.any_eq_true _ _).mp hany
  obtain ⟨cs, rfl⟩ := List.getLast?_eq_some_iff.mp hc
  exact h.not_isSpace_last hspace

theorem Solid.untrimmed (h : Solid phrase) : Untrimmed left phrase right where
  start _ := h.not_any_head
  stop _ := h.not_any_getLast

theorem Solid.infix_trim (h : Solid phrase) (htext : phrase <:+: text) :
    phrase <:+: trim text := by
  obtain ⟨left, right, rfl⟩ := htext
  exact (infix_trim_iff h.ne_nil).mpr ⟨left, right, rfl, h.untrimmed⟩

theorem Solid.append (hfirst : Solid first) (hlast : Solid last) :
    Solid (first ++ text ++ last) where
  ne_nil := by simp [hfirst.ne_nil]
  start := by
    have h : ([] ++ first ++ (text ++ last)).dropWhile isSpace = [] ++ first ++ (text ++ last) :=
      dropWhile_middle (fun _ => hfirst.not_any_head) hfirst.ne_nil
    simpa using h
  stop := by
    have h : (first ++ text ++ last ++ []).rdropWhile isSpace = first ++ text ++ last ++ [] :=
      rdropWhile_middle (fun _ => hlast.not_any_getLast) hlast.ne_nil
    simpa using h

/-- What trimming leaves as it is. -/
theorem solid_of_trim_eq (h : trim text = text) (hne : text ≠ []) : Solid text := by
  have hlen : text.length ≤ (text.dropWhile isSpace).length := by
    calc text.length = (trim text).length := by rw [h]
      _ ≤ (text.dropWhile isSpace).length := (List.rdropWhile_prefix isSpace _).length_le
  have hstart : text.dropWhile isSpace = text :=
    (List.dropWhile_suffix _).eq_of_length_le hlen
  refine ⟨hne, hstart, ?_⟩
  rw [trim, hstart] at h
  exact h

theorem Solid.trim_eq (h : Solid text) : trim text = text := by
  rw [trim, h.start, h.stop]

end Text
