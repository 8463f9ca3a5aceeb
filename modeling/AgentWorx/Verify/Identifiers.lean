import AgentWorx.Core.Models

/-!
# The text of a UUID

`str(uuid)` is a text that `uuid.UUID` reads back as the same UUID.
-/

namespace AgentWorx.UUID

/-! ## Digits -/

theorem ofHexChar_hexDigit (d : Fin 16) : ofHexChar (hexDigit d) = some d := by
  revert d
  decide

/-- The characters that `uuid.UUID` drops are not digits. -/
theorem hexDigit_ne (d : Fin 16) :
    hexDigit d ≠ 'u' ∧ hexDigit d ≠ '\x7b' ∧ hexDigit d ≠ '\x7d' ∧ hexDigit d ≠ '-' := by
  revert d
  decide

theorem mapM_ofHexChar (digits : List (Fin 16)) :
    (digits.map hexDigit).mapM ofHexChar = some digits := by
  induction digits with
  | nil => rfl
  | cons d digits ih => simp [ofHexChar_hexDigit, ih]

/-! ## The text -/

/-- The characters of `str(uuid)`, group by group. -/
theorem toList_toText (u : UUID) : u.toText.toList =
    (u.digits.take 8).map hexDigit ++ '-' :: (((u.digits.drop 8).take 4).map hexDigit ++
      '-' :: (((u.digits.drop 12).take 4).map hexDigit ++
      '-' :: (((u.digits.drop 16).take 4).map hexDigit ++
      '-' :: ((u.digits.drop 20).take 12).map hexDigit))) := by
  simp [toText]

/-- The groups are all of the digits. -/
theorem groups_eq (u : UUID) : u.digits.take 8 ++ ((u.digits.drop 8).take 4 ++
    ((u.digits.drop 12).take 4 ++ ((u.digits.drop 16).take 4 ++ (u.digits.drop 20).take 12))) =
      u.digits := by
  have hlast : (u.digits.drop 20).take 12 = u.digits.drop 20 :=
    List.take_of_length_le (by simp [u.length_eq])
  rw [hlast, ← List.drop_drop (i := 4) (j := 16), List.take_append_drop,
    ← List.drop_drop (i := 4) (j := 12), List.take_append_drop,
    ← List.drop_drop (i := 4) (j := 8), List.take_append_drop, List.take_append_drop]

theorem mem_toText {u : UUID} {c : Char} (h : c ∈ u.toText.toList) :
    c = '-' ∨ ∃ d, c = hexDigit d := by
  rw [toList_toText] at h
  simp only [List.mem_append, List.mem_cons, List.mem_map] at h
  grind

theorem filter_toText (u : UUID) :
    u.toText.toList.filter (· ≠ '-') = u.digits.map hexDigit := by
  have hgroup (digits : List (Fin 16)) :
      (digits.map hexDigit).filter (· ≠ '-') = digits.map hexDigit := by
    rw [List.filter_eq_self]
    intro c hc
    obtain ⟨d, -, rfl⟩ := List.mem_map.mp hc
    simpa using (hexDigit_ne d).2.2.2
  have hdash (chars : List Char) :
      ('-' :: chars).filter (· ≠ '-') = chars.filter (· ≠ '-') := by simp
  rw [toList_toText]
  simp only [List.filter_append, hdash, hgroup]
  rw [← List.map_append, ← List.map_append, ← List.map_append, ← List.map_append, groups_eq]

/-! ## Reading the text -/

/-- A text without the first character of the pattern has nothing to be removed. -/
theorem removeText_of_notMem {c : Char} {pattern chars : List Char} (h : c ∉ chars) :
    removeText (c :: pattern) 0 chars = chars := by
  induction chars with
  | nil => rfl
  | cons d chars ih =>
    rw [List.mem_cons, not_or] at h
    have hno : (c :: pattern).isPrefixOf (d :: chars) = false := by
      simp [List.isPrefixOf, h.1]
    simp [removeText, hno, ih h.2]

theorem dropWhile_of_forall_not {p : Char → Bool} {chars : List Char}
    (h : ∀ c ∈ chars, p c = false) : chars.dropWhile p = chars := by
  cases chars with
  | nil => rfl
  | cons c chars => simp [h c List.mem_cons_self]

@[simp] theorem parse_toText (u : UUID) : parse u.toText = some u := by
  have hu : 'u' ∉ u.toText.toList := by
    intro h
    rcases mem_toText h with h | ⟨d, h⟩
    · exact absurd h (by decide)
    · exact (hexDigit_ne d).1 h.symm
  have hurn : removeText ['u', 'r', 'n', ':'] 0 u.toText.toList = u.toText.toList :=
    removeText_of_notMem hu
  have huuid : removeText ['u', 'u', 'i', 'd', ':'] 0 u.toText.toList = u.toText.toList :=
    removeText_of_notMem hu
  have hbrace : ∀ c ∈ u.toText.toList, decide (c = '\x7b' ∨ c = '\x7d') = false := by
    intro c hc
    rcases mem_toText hc with rfl | ⟨d, rfl⟩
    · decide
    · simpa using ⟨(hexDigit_ne d).2.1, (hexDigit_ne d).2.2.1⟩
  have hfront := dropWhile_of_forall_not hbrace
  have hback := dropWhile_of_forall_not (p := fun c => decide (c = '\x7b' ∨ c = '\x7d'))
    fun c (hc : c ∈ u.toText.toList.reverse) => hbrace c (List.mem_reverse.mp hc)
  have hpatterns : "urn:".toList = ['u', 'r', 'n', ':'] ∧
      "uuid:".toList = ['u', 'u', 'i', 'd', ':'] := by decide
  simp only [parse, hpatterns.1, hpatterns.2, hurn, huuid, hfront, hback, List.reverse_reverse,
    filter_toText, mapM_ofHexChar, Option.bind_eq_bind, Option.bind_some, u.length_eq, dif_pos]

end AgentWorx.UUID
