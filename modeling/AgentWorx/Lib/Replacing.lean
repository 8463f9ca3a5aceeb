import AgentWorx.Lib.Trimming

/-!
# Replacing patterns one after another

One pattern after another is replaced by the same phrase, each in the text that the ones before have
left, and in the end the text is trimmed. What occurs in the result was there from the start, or a
replacement has brought it about over a character of the phrase; and no match taken since then has
had a character of it.
-/

namespace Text

variable {fold fold' : Char → Char}
  {pattern sought phrase text text' left left' mid right right' : List Char} {i j n skip : Nat}

/-! ## Matches -/

/-- The pattern matches the text at the position, up to the folding of characters. -/
def MatchAt (fold : Char → Char) (pattern : List Char) (i : Nat) (text : List Char) : Prop :=
  pattern.map fold <+: (text.map fold).drop i

instance : Decidable (MatchAt fold pattern i text) :=
  inferInstanceAs (Decidable (_ <+: _))

def Occurs (fold : Char → Char) (pattern text : List Char) : Prop :=
  pattern.map fold <:+: text.map fold

instance : Decidable (Occurs fold pattern text) :=
  inferInstanceAs (Decidable (_ <:+: _))

theorem occurs_iff : Occurs fold pattern text ↔ ∃ i, MatchAt fold pattern i text := by
  constructor
  · rintro ⟨before, after, h⟩
    refine ⟨before.length, after, ?_⟩
    rw [← h, List.append_assoc, List.drop_left]
  · rintro ⟨i, h⟩
    exact h.isInfix.trans (List.drop_suffix _ _).isInfix

theorem Occurs.mono (h : Occurs fold pattern text) (htext : text <:+: text') :
    Occurs fold pattern text' := h.trans (htext.map fold)

/-- The pattern occurs in the text where what is before the occurrence, the occurrence and what is
after it are as asked. -/
def OccursWhere (fold : Char → Char) (pattern text : List Char)
    (P : List Char → List Char → List Char → Prop) : Prop :=
  ∃ left mid right, text = left ++ mid ++ right ∧ mid.map fold = pattern.map fold ∧ P left mid right

theorem isPrefixFolded_iff :
    isPrefixFolded fold pattern text = true ↔ MatchAt fold pattern 0 text := by
  rw [MatchAt, List.drop_zero]
  fun_induction isPrefixFolded fold pattern text with
  | case1 => simp
  | case2 => simp
  | case3 p ps c cs ih => simp [List.cons_prefix_cons, ih]

theorem matchAt_cons_succ {c : Char} :
    MatchAt fold pattern (i + 1) (c :: text) ↔ MatchAt fold pattern i text := Iff.rfl

theorem MatchAt.length_le (h : MatchAt fold pattern i text) (hpattern : pattern ≠ []) :
    i + pattern.length ≤ text.length := by
  have hlength := List.IsPrefix.length_le h
  have := List.length_pos_iff.mpr hpattern
  simp only [List.length_map, List.length_drop] at hlength
  omega

theorem MatchAt.mono (h : MatchAt fold pattern i left) (htext : left <+: text) :
    MatchAt fold pattern i text := h.trans ((htext.map fold).drop i)

theorem length_of_map_eq (h : mid.map fold = pattern.map fold) : mid.length = pattern.length := by
  simpa using congrArg List.length h

theorem ne_nil_of_map_eq (h : mid.map fold = pattern.map fold) (hpattern : pattern ≠ []) :
    mid ≠ [] := by
  rintro rfl
  exact hpattern (List.map_eq_nil_iff.mp h.symm)

theorem matchAt_start (h : mid.map fold = pattern.map fold) :
    MatchAt fold pattern 0 (mid ++ right) :=
  ⟨right.map fold, by rw [List.drop_zero, List.map_append, h]⟩

/-- A part of the text that is the same as the pattern is a match. -/
theorem matchAt_mid (h : mid.map fold = pattern.map fold) :
    MatchAt fold pattern left.length (left ++ mid ++ right) := by
  refine ⟨right.map fold, ?_⟩
  rw [← h, List.append_assoc, List.map_append, List.map_append]
  exact (List.drop_left' (List.length_map _)).symm

theorem occursWhere_iff {P : List Char → List Char → List Char → Prop} :
    OccursWhere fold pattern text P ↔ ∃ i ∈ List.range (text.length + 1),
      MatchAt fold pattern i text ∧
        P (text.take i) ((text.drop i).take pattern.length) (text.drop (i + pattern.length)) := by
  constructor
  · rintro ⟨left, mid, right, rfl, hmid, hP⟩
    have hlength := length_of_map_eq hmid
    refine ⟨left.length, ?_, matchAt_mid hmid, ?_⟩
    · rw [List.mem_range, List.length_append, List.length_append]
      omega
    · rwa [List.append_assoc, List.take_left, ← List.drop_drop, List.drop_left, ← hlength,
        List.take_left, List.drop_left]
  · rintro ⟨i, -, ⟨rest, hrest⟩, hP⟩
    refine ⟨_, _, _, ?_, ?_, hP⟩
    · rw [List.append_assoc, ← List.drop_drop, List.take_append_drop, List.take_append_drop]
    · rw [List.map_take, List.map_drop, ← hrest, List.take_left' (List.length_map _)]

instance {P : List Char → List Char → List Char → Prop}
    [∀ left mid right, Decidable (P left mid right)] :
    Decidable (OccursWhere fold pattern text P) :=
  decidable_of_iff _ occursWhere_iff.symm

theorem occurs_iff_occursWhere :
    Occurs fold pattern text ↔ OccursWhere fold pattern text fun _ _ _ => True := by
  constructor
  · rintro ⟨before, after, h⟩
    obtain ⟨start, right, rfl, hstart, -⟩ := List.map_eq_append_iff.mp h.symm
    obtain ⟨left, mid, rfl, -, hmid⟩ := List.map_eq_append_iff.mp hstart
    exact ⟨left, mid, right, rfl, hmid, trivial⟩
  · rintro ⟨left, mid, right, rfl, hmid, -⟩
    exact occurs_iff.mpr ⟨_, matchAt_mid hmid⟩

theorem occurs_trim_iff (hpattern : pattern ≠ []) :
    Occurs fold pattern (trim text) ↔ OccursWhere fold pattern text Untrimmed := by
  rw [occurs_iff_occursWhere]
  constructor
  · rintro ⟨left, mid, right, htrim, hmid, -⟩
    obtain ⟨left, right, rfl, h⟩ :=
      (infix_trim_iff (ne_nil_of_map_eq hmid hpattern)).mp ⟨left, right, htrim.symm⟩
    exact ⟨left, mid, right, rfl, hmid, h⟩
  · rintro ⟨left, mid, right, rfl, hmid, h⟩
    obtain ⟨left, right, htrim⟩ :=
      (infix_trim_iff (ne_nil_of_map_eq hmid hpattern)).mpr ⟨left, right, rfl, h⟩
    exact ⟨left, mid, right, htrim.symm, hmid, trivial⟩

/-- Induction over the search for a pattern: a match is taken and the search goes on behind it, or
the first character is passed. -/
theorem search_induction {motive : List Char → Prop} (fold : Char → Char) (hpattern : pattern ≠ [])
    (nil : motive [])
    (found : ∀ mid right, mid.map fold = pattern.map fold → motive right → motive (mid ++ right))
    (passed : ∀ c cs, ¬ MatchAt fold pattern 0 (c :: cs) → motive cs → motive (c :: cs))
    (text : List Char) : motive text := by
  induction hn : text.length using Nat.strong_induction_on generalizing text with
  | _ n ih =>
    subst hn
    by_cases hmatch : MatchAt fold pattern 0 text
    · rw [MatchAt, List.drop_zero] at hmatch
      obtain ⟨rest, hrest⟩ := hmatch
      obtain ⟨mid, right, rfl, hmid, -⟩ := List.map_eq_append_iff.mp hrest.symm
      refine found mid right hmid (ih _ ?_ right rfl)
      have := List.length_pos_iff.mpr hpattern
      rw [List.length_append, length_of_map_eq hmid]
      omega
    · cases text with
      | nil => exact nil
      | cons c cs => exact passed c cs hmatch (ih _ (Nat.lt_succ_self _) cs rfl)

/-! ## Taken matches -/

/-- Where the matches are that are taken from left to right, none before the end of the one before;
`skip` characters of the match in progress remain to be skipped. -/
def takenFrom (fold : Char → Char) (pattern : List Char) (skip : Nat) : List Char → List Nat
  | [] => []
  | c :: cs =>
    if skip > 0 then (takenFrom fold pattern (skip - 1) cs).map (· + 1)
    else if isPrefixFolded fold pattern (c :: cs) then
      0 :: (takenFrom fold pattern (pattern.length - 1) cs).map (· + 1)
    else (takenFrom fold pattern 0 cs).map (· + 1)

/-- The matches that a replacement of the pattern takes. -/
def taken (fold : Char → Char) (pattern text : List Char) : List Nat :=
  takenFrom fold pattern 0 text

/-- Two parts of a text, each given by its start and its length, share a character. -/
def Overlap (i n j m : Nat) : Prop := i < j + m ∧ j < i + n

instance {i n j m : Nat} : Decidable (Overlap i n j m) := inferInstanceAs (Decidable (_ ∧ _))

theorem overlap_comm {m : Nat} : Overlap i n j m ↔ Overlap j m i n := and_comm

theorem overlap_add {k m : Nat} : Overlap (i + k) n (j + k) m ↔ Overlap i n j m := by
  unfold Overlap
  omega

/-- A part at the start of the text grows by a character there. -/
theorem overlap_cons {m : Nat} (hn : 0 < n) : Overlap (i + 1) n 0 (m + 1) ↔ Overlap i n 0 m := by
  unfold Overlap
  omega

theorem takenFrom_skip : takenFrom fold pattern skip text =
    (takenFrom fold pattern 0 (text.drop skip)).map (· + skip) := by
  induction text generalizing skip with
  | nil => rw [List.drop_nil]; rfl
  | cons c cs ih =>
    cases skip with
    | zero => rw [List.drop_zero]; exact (List.map_id _).symm
    | succ skip =>
      rw [takenFrom, if_pos (Nat.succ_pos _), Nat.add_sub_cancel, ih, List.map_map]
      rfl

theorem taken_found (hpattern : pattern ≠ []) (hmid : mid.map fold = pattern.map fold) :
    taken fold pattern (mid ++ right) =
      0 :: (taken fold pattern right).map (· + pattern.length) := by
  have hlength := length_of_map_eq hmid
  cases mid with
  | nil => exact absurd (List.length_eq_zero_iff.mp hlength.symm) hpattern
  | cons c cs =>
    have hmatch : isPrefixFolded fold pattern (c :: (cs ++ right)) = true :=
      isPrefixFolded_iff.mpr (matchAt_start hmid)
    rw [taken, List.cons_append, takenFrom, if_neg (lt_irrefl 0), if_pos hmatch, takenFrom_skip,
      ← hlength, List.length_cons, Nat.add_sub_cancel, List.drop_left, List.map_map]
    rfl

theorem taken_passed {c : Char} {cs : List Char} (h : ¬ MatchAt fold pattern 0 (c :: cs)) :
    taken fold pattern (c :: cs) = (taken fold pattern cs).map (· + 1) := by
  rw [taken, takenFrom, if_neg (lt_irrefl 0), if_neg (mt isPrefixFolded_iff.mp h)]
  rfl

/-- Every match shares a character with one that is taken. -/
theorem exists_taken (hpattern : pattern ≠ []) (h : MatchAt fold pattern j text) :
    ∃ i ∈ taken fold pattern text, Overlap i pattern.length j pattern.length := by
  have hpos := List.length_pos_iff.mpr hpattern
  induction text using search_induction fold hpattern generalizing j with
  | nil =>
    have := h.length_le hpattern
    rw [List.length_nil] at this
    omega
  | found mid right hmid ih =>
    have hlength := length_of_map_eq hmid
    rw [taken_found hpattern hmid]
    by_cases hj : j < pattern.length
    · exact ⟨0, List.mem_cons_self, by unfold Overlap; omega⟩
    · obtain ⟨j, rfl⟩ := Nat.exists_eq_add_of_le' (Nat.le_of_not_lt hj)
      have hright : MatchAt fold pattern j right := by
        rw [MatchAt, List.map_append, Nat.add_comm, ← List.drop_drop, ← hlength] at h
        rwa [List.drop_left' (List.length_map _)] at h
      obtain ⟨i, hi, hoverlap⟩ := ih hright
      exact ⟨i + pattern.length, List.mem_cons_of_mem _ (List.mem_map_of_mem hi),
        overlap_add.mpr hoverlap⟩
  | passed c cs hno ih =>
    rw [taken_passed hno]
    cases j with
    | zero => exact absurd h hno
    | succ j =>
      obtain ⟨i, hi, hoverlap⟩ := ih (matchAt_cons_succ.mp h)
      exact ⟨i + 1, List.mem_map_of_mem hi, overlap_add.mpr hoverlap⟩

/-! ## Replacing one pattern -/

theorem replaceFrom_skip : replaceFrom fold pattern phrase skip text =
    replaceFrom fold pattern phrase 0 (text.drop skip) := by
  induction text generalizing skip with
  | nil => rw [List.drop_nil]; rfl
  | cons c cs ih =>
    cases skip with
    | zero => rfl
    | succ skip => rw [replaceFrom, if_pos (Nat.succ_pos _)]; exact ih

theorem replaceFrom_found (hpattern : pattern ≠ []) (hmid : mid.map fold = pattern.map fold) :
    replaceFrom fold pattern phrase 0 (mid ++ right) =
      phrase ++ replaceFrom fold pattern phrase 0 right := by
  have hlength := length_of_map_eq hmid
  cases mid with
  | nil => exact absurd (List.length_eq_zero_iff.mp hlength.symm) hpattern
  | cons c cs =>
    have hmatch : isPrefixFolded fold pattern (c :: (cs ++ right)) = true :=
      isPrefixFolded_iff.mpr (matchAt_start hmid)
    rw [List.cons_append, replaceFrom, if_neg (lt_irrefl 0), if_pos hmatch, replaceFrom_skip,
      ← hlength, List.length_cons, Nat.add_sub_cancel, List.drop_left]

theorem replaceFrom_passed {c : Char} {cs : List Char} (h : ¬ MatchAt fold pattern 0 (c :: cs)) :
    replaceFrom fold pattern phrase 0 (c :: cs) = c :: replaceFrom fold pattern phrase 0 cs := by
  rw [replaceFrom, if_neg (lt_irrefl 0), if_neg (mt isPrefixFolded_iff.mp h)]

theorem replaceFrom_eq_nil (hpattern : pattern ≠ []) (hphrase : phrase ≠ [])
    (h : replaceFrom fold pattern phrase 0 text = []) : text = [] := by
  induction text using search_induction fold hpattern with
  | nil => rfl
  | found mid right hmid ih =>
    rw [replaceFrom_found hpattern hmid] at h
    exact absurd (List.append_eq_nil_iff.mp h).1 hphrase
  | passed c cs hno ih =>
    rw [replaceFrom_passed hno] at h
    cases h

/-- A replacement leaves the text, or puts the phrase into it. -/
theorem replaceFrom_cases (fold : Char → Char) (phrase text : List Char)
    (hpattern : pattern ≠ []) :
    (¬ Occurs fold pattern text ∧ replaceFrom fold pattern phrase 0 text = text) ∨
      (Occurs fold pattern text ∧ phrase <:+: replaceFrom fold pattern phrase 0 text) := by
  induction text using search_induction fold hpattern with
  | nil =>
    refine .inl ⟨fun hoccurs => ?_, rfl⟩
    rw [Occurs, List.map_nil, List.infix_nil, List.map_eq_nil_iff] at hoccurs
    exact hpattern hoccurs
  | found mid right hmid ih =>
    rw [replaceFrom_found hpattern hmid]
    exact .inr ⟨occurs_iff.mpr ⟨0, matchAt_start hmid⟩, (List.prefix_append _ _).isInfix⟩
  | passed c cs hno ih =>
    rw [replaceFrom_passed hno]
    rcases ih with ⟨hrest, heq⟩ | ⟨hrest, hput⟩
    · refine .inl ⟨fun hoccurs => ?_, by rw [heq]⟩
      obtain ⟨i, hi⟩ := occurs_iff.mp hoccurs
      cases i with
      | zero => exact hno hi
      | succ i => exact hrest (occurs_iff.mpr ⟨i, matchAt_cons_succ.mp hi⟩)
    · exact .inr ⟨hrest.mono (List.suffix_cons c cs).isInfix,
        hput.trans (List.suffix_cons c _).isInfix⟩

/-- The phrase stands between what the texts before and after a taken match become. -/
theorem replaceFrom_taken (hpattern : pattern ≠ []) (h : i ∈ taken fold pattern text) :
    replaceFrom fold pattern phrase 0 text =
      replaceFrom fold pattern phrase 0 (text.take i) ++ phrase ++
        replaceFrom fold pattern phrase 0 (text.drop (i + pattern.length)) := by
  induction text using search_induction fold hpattern generalizing i with
  | nil => cases h
  | found mid right hmid ih =>
    have hlength := length_of_map_eq hmid
    rw [taken_found hpattern hmid] at h
    rw [replaceFrom_found hpattern hmid]
    rcases List.mem_cons.mp h with rfl | h
    · rw [List.take_zero, replaceFrom, List.nil_append, Nat.zero_add, List.drop_left' hlength]
    · obtain ⟨i, hi, rfl⟩ := List.mem_map.mp h
      rw [ih hi, ← hlength, Nat.add_comm i, List.take_length_add_append,
        replaceFrom_found hpattern hmid, Nat.add_assoc, List.drop_length_add_append, Nat.add_comm i]
      simp only [List.append_assoc]
  | passed c cs hno ih =>
    rw [taken_passed hno] at h
    obtain ⟨i, hi, rfl⟩ := List.mem_map.mp h
    have hno' : ¬ MatchAt fold pattern 0 (c :: cs.take i) := fun hmatch =>
      hno (hmatch.mono (List.cons_prefix_cons.mpr ⟨rfl, List.take_prefix i cs⟩))
    rw [replaceFrom_passed hno, ih hi, List.take_succ_cons, replaceFrom_passed hno',
      Nat.add_right_comm, List.drop_succ_cons]
    rfl

/-- A match that is taken has a character of the middle. -/
def Hits (fold : Char → Char) (pattern left mid right : List Char) : Prop :=
  ∃ i ∈ taken fold pattern (left ++ mid ++ right),
    Overlap i pattern.length left.length mid.length

instance : Decidable (Hits fold pattern left mid right) :=
  inferInstanceAs (Decidable (∃ i ∈ _, _))

theorem exists_eq_append {start rest : List Char} (h : left ++ mid ++ right = start ++ rest)
    (hlength : start.length ≤ left.length) :
    ∃ left', left = start ++ left' ∧ left' ++ mid ++ right = rest := by
  rw [List.append_assoc] at h
  obtain ⟨left', rfl⟩ := List.prefix_of_prefix_length_le (h ▸ List.prefix_append start rest)
    (List.prefix_append left _) hlength
  rw [List.append_assoc, List.append_cancel_left_eq] at h
  exact ⟨left', rfl, by rw [List.append_assoc, h]⟩

/-- A middle of which no match that is taken has a character stays, and separates the texts beside
it. -/
theorem replaceFrom_of_not_hits (hpattern : pattern ≠ []) (hmid : mid ≠ [])
    (h : ¬ Hits fold pattern left mid right) :
    replaceFrom fold pattern phrase 0 (left ++ mid ++ right) =
      replaceFrom fold pattern phrase 0 left ++ mid ++
        replaceFrom fold pattern phrase 0 right := by
  have hpos := List.length_pos_iff.mpr hpattern
  have hpos' := List.length_pos_iff.mpr hmid
  replace h : ∀ i ∈ taken fold pattern (left ++ mid ++ right),
      ¬ Overlap i pattern.length left.length mid.length := fun i hi hoverlap => h ⟨i, hi, hoverlap⟩
  generalize htext : left ++ mid ++ right = text at h ⊢
  induction text using search_induction fold hpattern generalizing left mid with
  | nil => simp [hmid] at htext
  | found start rest hstart ih =>
    have hlength := length_of_map_eq hstart
    rw [taken_found hpattern hstart, List.forall_mem_cons, List.forall_mem_map] at h
    rw [replaceFrom_found hpattern hstart]
    -- the match ends before the middle
    have hend : start.length ≤ left.length := by
      have hfirst := h.1
      unfold Overlap at hfirst
      omega
    obtain ⟨left, rfl, hrest⟩ := exists_eq_append htext hend
    rw [ih hmid hpos' hrest fun i hi hoverlap => h.2 i hi ?_, replaceFrom_found hpattern hstart]
    · simp only [List.append_assoc]
    · rw [List.length_append, hlength, Nat.add_comm pattern.length, overlap_add]
      exact hoverlap
  | passed c cs hno ih =>
    rw [taken_passed hno, List.forall_mem_map] at h
    rw [replaceFrom_passed hno]
    -- the character is before the middle, or the first of it
    cases left with
    | nil =>
      obtain ⟨d, mid, rfl⟩ := List.exists_cons_of_ne_nil hmid
      obtain ⟨rfl, hrest⟩ := List.cons.inj htext
      rcases eq_or_ne mid [] with rfl | hmid
      · rw [← hrest]
        rfl
      · replace hrest : [] ++ mid ++ right = cs := hrest
        rw [ih hmid (List.length_pos_iff.mpr hmid) hrest fun i hi hoverlap =>
          h i hi ((overlap_cons hpos).mpr hoverlap)]
        rfl
    | cons d left =>
      obtain ⟨rfl, hrest⟩ := List.cons.inj htext
      have hno' : ¬ MatchAt fold pattern 0 (d :: left) := fun hmatch =>
        hno (hmatch.mono ⟨mid ++ right, by rw [← htext]; simp⟩)
      rw [ih hmid hpos' hrest fun i hi hoverlap => h i hi (overlap_add.mpr hoverlap),
        replaceFrom_passed hno']
      rfl

/-- What is in the replaced text without a character of a phrase put in was in the text, and no
match that has been taken had a character of it. -/
theorem exists_of_replaceFrom (hpattern : pattern ≠ []) (hphrase : phrase ≠ []) (hmid : mid ≠ [])
    (heq : left' ++ mid ++ right' = replaceFrom fold pattern phrase 0 text)
    (h : ∀ i ∈ taken fold pattern text, ¬ Overlap left'.length mid.length
      (replaceFrom fold pattern phrase 0 (text.take i)).length phrase.length) :
    ∃ left right, text = left ++ mid ++ right ∧
      left' = replaceFrom fold pattern phrase 0 left ∧
      right' = replaceFrom fold pattern phrase 0 right ∧
      ∀ i ∈ taken fold pattern text, ¬ Overlap i pattern.length left.length mid.length := by
  have hpos := List.length_pos_iff.mpr hpattern
  have hpos' := List.length_pos_iff.mpr hphrase
  induction text using search_induction fold hpattern generalizing left' mid with
  | nil => simp [replaceFrom, hmid] at heq
  | found start rest hstart ih =>
    have hlength := length_of_map_eq hstart
    rw [taken_found hpattern hstart, List.forall_mem_cons, List.forall_mem_map] at h
    rw [replaceFrom_found hpattern hstart] at heq
    -- the middle stands behind the phrase put in
    have hend : phrase.length ≤ left'.length := by
      have hfirst := h.1
      have := List.length_pos_iff.mpr hmid
      unfold Overlap at hfirst
      rw [List.take_zero, replaceFrom, List.length_nil] at hfirst
      omega
    obtain ⟨left', rfl, hrest⟩ := exists_eq_append heq hend
    obtain ⟨left, right, rfl, rfl, rfl, hapart⟩ := ih hmid hrest fun i hi hoverlap => by
      refine h.2 i hi ?_
      rw [← hlength, Nat.add_comm i, List.take_length_add_append, replaceFrom_found hpattern hstart,
        List.length_append, List.length_append, Nat.add_comm phrase.length,
        Nat.add_comm phrase.length, overlap_add]
      exact hoverlap
    refine ⟨start ++ left, right, by simp, (replaceFrom_found hpattern hstart).symm, rfl, ?_⟩
    rw [taken_found hpattern hstart, List.forall_mem_cons, List.forall_mem_map, List.length_append]
    refine ⟨fun hoverlap => ?_, fun i hi hoverlap => hapart i hi ?_⟩
    · unfold Overlap at hoverlap
      omega
    · rwa [hlength, Nat.add_comm pattern.length, overlap_add] at hoverlap
  | passed c cs hno ih =>
    have hno' {l : List Char} (hl : l <+: cs) : ¬ MatchAt fold pattern 0 (c :: l) := fun hmatch =>
      hno (hmatch.mono (List.cons_prefix_cons.mpr ⟨rfl, hl⟩))
    rw [taken_passed hno, List.forall_mem_map] at h
    rw [replaceFrom_passed hno] at heq
    simp only [taken_passed hno, List.forall_mem_map]
    simp only [List.take_succ_cons, replaceFrom_passed (hno' (List.take_prefix _ cs)),
      List.length_cons] at h
    cases left' with
    | nil =>
      obtain ⟨d, mid, rfl⟩ := List.exists_cons_of_ne_nil hmid
      obtain ⟨rfl, hrest⟩ := List.cons.inj heq
      rcases eq_or_ne mid [] with rfl | hmid
      · refine ⟨[], cs, rfl, rfl, hrest, fun i hi hoverlap => ?_⟩
        unfold Overlap at hoverlap
        simp at hoverlap
      · replace hrest : [] ++ mid ++ right' = replaceFrom fold pattern phrase 0 cs := hrest
        obtain ⟨left, right, rfl, hleft, rfl, hapart⟩ := ih hmid hrest fun i hi hoverlap =>
          h i hi (overlap_comm.mp ((overlap_cons hpos').mpr (overlap_comm.mp hoverlap)))
        obtain rfl := replaceFrom_eq_nil hpattern hphrase hleft.symm
        exact ⟨[], right, rfl, rfl, rfl, fun i hi hoverlap =>
          hapart i hi ((overlap_cons hpos).mp hoverlap)⟩
    | cons d left' =>
      obtain ⟨rfl, hrest⟩ := List.cons.inj heq
      obtain ⟨left, right, rfl, rfl, rfl, hapart⟩ := ih hmid hrest fun i hi hoverlap =>
        h i hi (overlap_add.mpr hoverlap)
      refine ⟨d :: left, right, rfl, (replaceFrom_passed (hno' (by simp))).symm, rfl, ?_⟩
      exact fun i hi hoverlap => hapart i hi (overlap_add.mp hoverlap)

/-! ## Replacing all patterns -/

variable {patterns : List (List Char)}

/-- The patterns replaced one after another. -/
def replaceAll (fold : Char → Char) (phrase : List Char) (patterns : List (List Char))
    (text : List Char) : List Char :=
  patterns.foldl (fun text pattern => replaceFrom fold pattern phrase 0 text) text

/-- The middle outlasts the replacement of the patterns one after another and the trimming of the
result: no match that is taken has a character of it, and none is trimmed. -/
def Lasts (fold : Char → Char) (phrase : List Char) :
    List (List Char) → List Char → List Char → List Char → Prop
  | [], left, mid, right => Untrimmed left mid right
  | pattern :: patterns, left, mid, right =>
    ¬ Hits fold pattern left mid right ∧
      Lasts fold phrase patterns (replaceFrom fold pattern phrase 0 left) mid
        (replaceFrom fold pattern phrase 0 right)

instance decidableLasts : ∀ (patterns : List (List Char)) (left mid right : List Char),
    Decidable (Lasts fold phrase patterns left mid right)
  | [], left, mid, right => inferInstanceAs (Decidable (Untrimmed left mid right))
  | pattern :: patterns, left, mid, right =>
    have := decidableLasts patterns (replaceFrom fold pattern phrase 0 left) mid
      (replaceFrom fold pattern phrase 0 right)
    inferInstanceAs (Decidable (¬ Hits fold pattern left mid right ∧ _))

/-- The phrase that is put in for the match at the position, between what the texts before and after
that match become, brings about what is sought over one of its characters, and this lasts. -/
def BringsAbout (fold fold' : Char → Char) (phrase sought pattern : List Char)
    (patterns : List (List Char)) (text : List Char) (i : Nat) : Prop :=
  OccursWhere fold' sought
    (replaceFrom fold pattern phrase 0 (text.take i) ++ phrase ++
      replaceFrom fold pattern phrase 0 (text.drop (i + pattern.length)))
    fun left mid right =>
      Overlap left.length mid.length
          (replaceFrom fold pattern phrase 0 (text.take i)).length phrase.length ∧
        Lasts fold phrase patterns left mid right

instance : Decidable (BringsAbout fold fold' phrase sought pattern patterns text i) :=
  inferInstanceAs (Decidable (OccursWhere _ _ _ _))

/-- A match that is taken for one of the patterns brings about what is sought. -/
def Arises (fold fold' : Char → Char) (phrase sought : List Char) :
    List (List Char) → List Char → Prop
  | [], _ => False
  | pattern :: patterns, text =>
    (∃ i ∈ taken fold pattern text, BringsAbout fold fold' phrase sought pattern patterns text i) ∨
      Arises fold fold' phrase sought patterns (replaceFrom fold pattern phrase 0 text)

instance decidableArises : ∀ (patterns : List (List Char)) (text : List Char),
    Decidable (Arises fold fold' phrase sought patterns text)
  | [], _ => inferInstanceAs (Decidable False)
  | pattern :: patterns, text =>
    have := decidableArises patterns (replaceFrom fold pattern phrase 0 text)
    inferInstanceAs (Decidable ((∃ i ∈ _, _) ∨ _))

/-- From its own turn on, no pattern is brought about for good by a phrase that is put in. -/
def KeptOut (fold : Char → Char) (phrase : List Char) : List (List Char) → List Char → Prop
  | [], _ => True
  | pattern :: patterns, text =>
    ¬ Arises fold fold phrase pattern (pattern :: patterns) text ∧
      KeptOut fold phrase patterns (replaceFrom fold pattern phrase 0 text)

instance decidableKeptOut : ∀ (patterns : List (List Char)) (text : List Char),
    Decidable (KeptOut fold phrase patterns text)
  | [], _ => inferInstanceAs (Decidable True)
  | pattern :: patterns, text =>
    have := decidableKeptOut patterns (replaceFrom fold pattern phrase 0 text)
    inferInstanceAs (Decidable (¬ Arises fold fold phrase pattern (pattern :: patterns) text ∧ _))

theorem lasts_nil : Lasts fold phrase patterns [] [] text := by
  induction patterns generalizing text with
  | nil => exact ⟨fun _ => Bool.false_ne_true, fun _ => Bool.false_ne_true⟩
  | cons pattern patterns ih =>
    refine ⟨?_, ih⟩
    rintro ⟨i, -, hi, -⟩
    exact absurd hi (Nat.not_lt_zero i)

/-- What occurs in the result has stayed, or has been brought about by a phrase. -/
theorem occurs_replaceAll_iff (hpatterns : ∀ pattern ∈ patterns, pattern ≠ [])
    (hphrase : phrase ≠ []) (fold' : Char → Char) (sought text : List Char) :
    Occurs fold' sought (trim (replaceAll fold phrase patterns text)) ↔
      OccursWhere fold' sought text (Lasts fold phrase patterns) ∨
        Arises fold fold' phrase sought patterns text := by
  rcases eq_or_ne sought [] with rfl | hsought
  · exact iff_of_true List.nil_infix (.inl ⟨[], [], text, rfl, rfl, lasts_nil⟩)
  induction patterns generalizing text with
  | nil =>
    rw [or_iff_left (show ¬ Arises fold fold' phrase sought [] text from id)]
    exact occurs_trim_iff hsought
  | cons pattern patterns ih =>
    rw [List.forall_mem_cons] at hpatterns
    refine (ih hpatterns.2 (replaceFrom fold pattern phrase 0 text)).trans ?_
    rw [Arises, ← or_assoc]
    refine or_congr_left ?_
    constructor
    · rintro ⟨left', mid, right', heq, hmid, hlasts⟩
      by_cases hput : ∃ i ∈ taken fold pattern text, Overlap left'.length mid.length
          (replaceFrom fold pattern phrase 0 (text.take i)).length phrase.length
      · obtain ⟨i, hi, hoverlap⟩ := hput
        rw [replaceFrom_taken hpatterns.1 hi] at heq
        exact .inr ⟨i, hi, left', mid, right', heq, hmid, hoverlap, hlasts⟩
      · have hne := ne_nil_of_map_eq hmid hsought
        obtain ⟨left, right, rfl, rfl, rfl, hapart⟩ := exists_of_replaceFrom hpatterns.1 hphrase hne
          heq.symm fun i hi hoverlap => hput ⟨i, hi, hoverlap⟩
        refine .inl ⟨left, mid, right, rfl, hmid, ?_, hlasts⟩
        rintro ⟨i, hi, hoverlap⟩
        exact hapart i hi hoverlap
    · rintro (⟨left, mid, right, rfl, hmid, hhits, hlasts⟩ |
        ⟨i, hi, left, mid, right, heq, hmid, -, hlasts⟩)
      · have hne := ne_nil_of_map_eq hmid hsought
        exact ⟨_, mid, _, replaceFrom_of_not_hits hpatterns.1 hne hhits, hmid, hlasts⟩
      · exact ⟨left, mid, right, (replaceFrom_taken hpatterns.1 hi).trans heq, hmid, hlasts⟩

/-- No occurrence of a pattern stays when it is replaced. -/
theorem not_occursWhere_lasts (hpattern : pattern ≠ []) :
    ¬ OccursWhere fold pattern text (Lasts fold phrase (pattern :: patterns)) := by
  rintro ⟨left, mid, right, rfl, hmid, hhits, -⟩
  have hlength := length_of_map_eq hmid
  obtain ⟨i, hi, hoverlap⟩ := exists_taken hpattern (matchAt_mid hmid)
  exact hhits ⟨i, hi, hlength ▸ hoverlap⟩

/-- The result is free of the patterns if and only if no phrase brings one of them about. -/
theorem not_occurs_replaceAll_iff (hpatterns : ∀ pattern ∈ patterns, pattern ≠ [])
    (hphrase : phrase ≠ []) (text : List Char) :
    (∀ pattern ∈ patterns, ¬ Occurs fold pattern (trim (replaceAll fold phrase patterns text))) ↔
      KeptOut fold phrase patterns text := by
  induction patterns generalizing text with
  | nil => exact iff_of_true (fun _ h => (nomatch h)) trivial
  | cons pattern patterns ih =>
    rw [List.forall_mem_cons, KeptOut, occurs_replaceAll_iff hpatterns hphrase,
      or_iff_right (not_occursWhere_lasts (hpatterns pattern List.mem_cons_self))]
    rw [List.forall_mem_cons] at hpatterns
    exact and_congr_right fun _ => ih hpatterns.2 _

theorem replaceAll_of_not_occurs (hpatterns : ∀ pattern ∈ patterns, pattern ≠ [])
    (h : ∀ pattern ∈ patterns, ¬ Occurs fold pattern text) :
    replaceAll fold phrase patterns text = text := by
  induction patterns with
  | nil => rfl
  | cons pattern patterns ih =>
    rw [List.forall_mem_cons] at hpatterns h
    have hfirst : replaceFrom fold pattern phrase 0 text = text :=
      ((replaceFrom_cases fold phrase text hpatterns.1).resolve_right fun ⟨hoccurs, _⟩ =>
        h.1 hoccurs).2
    rw [replaceAll, List.foldl_cons, hfirst]
    exact ih hpatterns.2 h.2

/-- The phrase is put in, unless no pattern occurs in the text. -/
theorem replaceAll_cases (fold : Char → Char) (phrase text : List Char)
    (hpatterns : ∀ pattern ∈ patterns, pattern ≠ []) :
    (replaceAll fold phrase patterns text = text ∧
        ∀ pattern ∈ patterns, ¬ Occurs fold pattern text) ∨
      phrase <:+: replaceAll fold phrase patterns text := by
  induction patterns using List.reverseRecOn with
  | nil => exact .inl ⟨rfl, fun _ h => (nomatch h)⟩
  | append_singleton patterns pattern ih =>
    have hlast : pattern ≠ [] := hpatterns pattern (by simp)
    have hconcat : replaceAll fold phrase (patterns ++ [pattern]) text =
        replaceFrom fold pattern phrase 0 (replaceAll fold phrase patterns text) :=
      List.foldl_concat _ _ _ _
    rw [hconcat]
    rcases replaceFrom_cases fold phrase (replaceAll fold phrase patterns text) hlast with
      ⟨hno, heq⟩ | ⟨-, hput⟩
    · rw [heq]
      refine (ih fun p hp => hpatterns p (List.mem_append_left _ hp)).imp_left ?_
      rintro ⟨hsame, hnone⟩
      rw [hsame] at hno
      refine ⟨hsame, fun p hp => ?_⟩
      rcases List.mem_append.mp hp with hp | hp
      · exact hnone p hp
      · exact List.mem_singleton.mp hp ▸ hno
    · exact .inr hput

/-- In some text around the phrase, the pattern matches over a character of it. -/
def Touches (fold : Char → Char) (pattern phrase : List Char) : Prop :=
  ∃ left right i, MatchAt fold pattern i (left ++ phrase ++ right) ∧
    Overlap i pattern.length left.length phrase.length

/-- What cannot share a character with the phrase is not brought about by it. -/
theorem not_arises_of_not_touches (h : ¬ Touches fold' sought phrase) (text : List Char) :
    ¬ Arises fold fold' phrase sought patterns text := by
  induction patterns generalizing text with
  | nil => exact id
  | cons pattern patterns ih =>
    rintro (⟨i, -, left, mid, right, heq, hmid, hoverlap, -⟩ | hlater)
    · have hmatch : MatchAt fold' sought left.length (left ++ mid ++ right) := matchAt_mid hmid
      rw [← heq] at hmatch
      exact h ⟨_, _, _, hmatch, length_of_map_eq hmid ▸ hoverlap⟩
    · exact ih _ hlater

theorem keptOut_of_not_touches (h : ∀ pattern ∈ patterns, ¬ Touches fold pattern phrase)
    (text : List Char) : KeptOut fold phrase patterns text := by
  induction patterns generalizing text with
  | nil => trivial
  | cons pattern patterns ih =>
    rw [List.forall_mem_cons] at h
    exact ⟨not_arises_of_not_touches h.1 text, ih h.2 _⟩

end Text
