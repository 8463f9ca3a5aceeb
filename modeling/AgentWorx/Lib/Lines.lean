import AgentWorx.Lib.Trimming

/-!
# Lines

A text that is split at every line boundary and joined again with newlines has its line boundaries
unified.
-/

namespace Text

/-- Every line boundary becomes a newline. -/
def unifyLines : List Char → List Char
  | [] => []
  | '\r' :: '\n' :: cs => '\n' :: unifyLines cs
  | c :: cs => (if isLineBreak c then '\n' else c) :: unifyLines cs

variable {c : Char} {cs line body first last : List Char}

/-! ## Line boundaries -/

theorem mem_of_isLineBreak (h : Text.isLineBreak c) :
    c ∈ ['\n', '\x0b', '\x0c', '\r', '\x1c', '\x1d', '\x1e', '\x85', '\u2028', '\u2029'] := by
  have hof : ∀ n, c.toNat = n → c = Char.ofNat n := by
    rintro n rfl
    exact (Char.ofNat_toNat c).symm
  have hcases : c.toNat = 10 ∨ c.toNat = 11 ∨ c.toNat = 12 ∨ c.toNat = 13 ∨ c.toNat = 28 ∨
      c.toNat = 29 ∨ c.toNat = 30 ∨ c.toNat = 0x85 ∨ c.toNat = 0x2028 ∨ c.toNat = 0x2029 := by
    simp only [Text.isLineBreak, decide_eq_true_eq] at h
    omega
  rcases hcases with h | h | h | h | h | h | h | h | h | h <;> rw [hof _ h] <;> decide

theorem isSpace_of_isLineBreak (h : isLineBreak c) : isSpace c := by
  simp only [isLineBreak, isSpace, decide_eq_true_eq] at h ⊢
  omega

theorem unifyLines_cons (h : ¬ isLineBreak c) : unifyLines (c :: cs) = c :: unifyLines cs := by
  rw [unifyLines.eq_3, if_neg h]
  rintro _ rfl
  exact absurd rfl h

theorem unifyLines_append_singleton (h : ¬ isLineBreak c) :
    unifyLines (cs ++ [c]) = unifyLines cs ++ [c] := by
  induction cs using unifyLines.induct with
  | case1 => exact unifyLines_cons h
  | case2 cs ih => rw [List.cons_append, List.cons_append, unifyLines, ih]; rfl
  | case3 d cs hcrlf ih =>
    rw [List.cons_append, unifyLines.eq_3, ih, unifyLines.eq_3 _ _ hcrlf, List.cons_append]
    rintro rest rfl hrest
    cases cs with
    | nil => exact h (by rw [(List.cons.inj hrest).1]; rfl)
    | cons e cs => exact hcrlf cs rfl (by rw [(List.cons.inj hrest).1])

/-! ## Splitting -/

theorem splitLinesFrom_cons (h : ¬ isLineBreak c) :
    splitLinesFrom line (c :: cs) = splitLinesFrom (line ++ [c]) cs := by
  rw [splitLinesFrom.eq_3, if_neg h]
  rintro _ rfl
  exact absurd rfl h

/-- The first line ends where its newline is. -/
theorem splitLinesFrom_newline (h : ∀ c ∈ first, ¬ isLineBreak c) :
    splitLinesFrom line (first ++ '\n' :: cs) = (line ++ first) :: splitLinesFrom [] cs := by
  induction first generalizing line with
  | nil => rw [List.append_nil]; rfl
  | cons c first ih =>
    rw [List.cons_append, splitLinesFrom_cons (h c List.mem_cons_self),
      ih fun d hd => h d (List.mem_cons_of_mem c hd), List.append_assoc]
    rfl

/-- The text does not end in a line boundary. -/
def Unended (body : List Char) : Prop := ∀ c ∈ body.getLast?, ¬ isLineBreak c

theorem Unended.ne_nil (h : Unended (c :: cs)) (hbreak : isLineBreak c) : cs ≠ [] := by
  rintro rfl
  exact h c rfl hbreak

theorem Unended.tail (h : Unended (c :: cs)) : Unended cs := by
  intro d hd
  refine h d ?_
  obtain ⟨init, rfl⟩ := List.getLast?_eq_some_iff.mp hd
  rw [← List.cons_append]
  exact List.getLast?_concat

/-- A newline after a text that does not end in a line boundary only ends its last line. -/
theorem splitLinesFrom_append (hbody : Unended body) (hne : line ≠ [] ∨ body ≠ []) :
    splitLinesFrom line (body ++ '\n' :: cs) =
      splitLinesFrom line body ++ splitLinesFrom [] cs := by
  induction line, body using splitLinesFrom.induct with
  | case1 line hline => exact absurd (List.isEmpty_iff.mp hline) (by simpa using hne)
  | case2 line hline =>
    rw [splitLinesFrom, if_neg hline]
    rfl
  | case3 line body ih =>
    have hnil : body ≠ [] := hbody.tail.ne_nil rfl
    rw [List.cons_append, List.cons_append, splitLinesFrom, splitLinesFrom,
      ih hbody.tail.tail (.inr hnil), List.cons_append]
  | case4 line c body hcrlf hbreak ih =>
    have hnil : body ≠ [] := hbody.ne_nil hbreak
    have hcrlf' : ∀ rest, c = '\r' → body ++ '\n' :: cs = '\n' :: rest → False := by
      rintro rest rfl hrest
      obtain ⟨d, body, rfl⟩ := List.exists_cons_of_ne_nil hnil
      exact hcrlf body rfl (by rw [(List.cons.inj hrest).1])
    rw [List.cons_append, splitLinesFrom.eq_3 _ _ _ hcrlf', splitLinesFrom.eq_3 _ _ _ hcrlf,
      if_pos hbreak, if_pos hbreak, ih hbody.tail (.inr hnil), List.cons_append]
  | case5 line c body hcrlf hbreak ih =>
    rw [List.cons_append, splitLinesFrom_cons hbreak, splitLinesFrom_cons hbreak,
      ih hbody.tail (.inl (by simp))]

theorem splitLinesFrom_ne_nil (hne : line ≠ [] ∨ body ≠ []) : splitLinesFrom line body ≠ [] := by
  induction line, body using splitLinesFrom.induct with
  | case1 line hline => exact absurd (List.isEmpty_iff.mp hline) (by simpa using hne)
  | case2 line hline => simp [splitLinesFrom, hline]
  | case3 line body ih => simp [splitLinesFrom]
  | case4 line c body hcrlf hbreak ih => simp [splitLinesFrom.eq_3 _ _ _ hcrlf, hbreak]
  | case5 line c body hcrlf hbreak ih =>
    rw [splitLinesFrom_cons hbreak]
    exact ih (.inl (by simp))

/-- The lines of a text, joined with newlines. -/
theorem intercalate_splitLinesFrom (hbody : Unended body) :
    ['\n'].intercalate (splitLinesFrom line body) = line ++ unifyLines body := by
  induction line, body using splitLinesFrom.induct with
  | case1 line hline =>
    rw [splitLinesFrom, if_pos hline, List.isEmpty_iff.mp hline]
    rfl
  | case2 line hline =>
    rw [splitLinesFrom, if_neg hline]
    simp [unifyLines]
  | case3 line body ih =>
    have hnil : body ≠ [] := hbody.tail.ne_nil rfl
    rw [splitLinesFrom, List.intercalate_cons_of_ne_nil (splitLinesFrom_ne_nil (.inr hnil)),
      ih hbody.tail.tail, unifyLines]
    simp
  | case4 line c body hcrlf hbreak ih =>
    have hnil : body ≠ [] := hbody.ne_nil hbreak
    rw [splitLinesFrom.eq_3 _ _ _ hcrlf, if_pos hbreak,
      List.intercalate_cons_of_ne_nil (splitLinesFrom_ne_nil (.inr hnil)), ih hbody.tail,
      unifyLines.eq_3 _ _ hcrlf, if_pos hbreak]
    simp
  | case5 line c body hcrlf hbreak ih =>
    rw [splitLinesFrom_cons hbreak, ih hbody.tail, unifyLines_cons hbreak, List.append_assoc]
    rfl

/-! ## Trimmed texts -/

theorem Solid.unended (h : Solid body) : Unended body := by
  intro c hc hbreak
  obtain ⟨init, rfl⟩ := List.getLast?_eq_some_iff.mp hc
  exact h.not_isSpace_last (isSpace_of_isLineBreak hbreak)

theorem Solid.unifyLines (h : Solid body) : Solid (unifyLines body) := by
  have hstart : (Text.unifyLines body).dropWhile isSpace = Text.unifyLines body := by
    obtain ⟨c, cs, rfl⟩ := List.exists_cons_of_ne_nil h.ne_nil
    have hspace := h.not_isSpace_head
    rw [unifyLines_cons fun hbreak => hspace (isSpace_of_isLineBreak hbreak)]
    exact List.dropWhile_cons_of_neg hspace
  obtain ⟨cs, c, rfl⟩ := (List.eq_nil_or_concat' body).resolve_left h.ne_nil
  have hspace := h.not_isSpace_last
  have hlast : Text.unifyLines (cs ++ [c]) = Text.unifyLines cs ++ [c] :=
    unifyLines_append_singleton fun hbreak => hspace (isSpace_of_isLineBreak hbreak)
  refine ⟨by simp [hlast], hstart, ?_⟩
  rw [hlast]
  exact List.rdropWhile_concat_neg isSpace _ c hspace

end Text
