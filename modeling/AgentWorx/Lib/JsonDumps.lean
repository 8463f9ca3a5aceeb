import AgentWorx.Lib.Json
import Mathlib.Data.List.Chain

/-!
# Writing JSON texts

`json.dumps` with its default arguments: strings are escaped to ASCII, items and keys are followed
by `", "` and `": "`. What it writes, `json.loads` reads back (`loads_dumps`). The proof goes
through the tokens of the text: the text is read as the tokens of the value, and these are read as
the value.
-/

namespace Json

variable {ι φ : Type} {numbers : Numbers ι φ}

/-! ## Writing -/

/-- How numbers are written: each as one atom that is read as the number again. -/
structure Rendering (numbers : Numbers ι φ) where
  int : ι → List Char
  float : φ → List Char
  int_atom : ∀ i, ∀ c ∈ int i, isAtomChar c
  float_atom : ∀ x, ∀ c ∈ float x, isAtomChar c
  int_value : ∀ i, atomValue numbers (int i) = some (.int i)
  float_value : ∀ x, atomValue numbers (float x) = some (.float x)

def hexDigit (d : Nat) : Char := if d < 10 then Char.ofNat (48 + d) else Char.ofNat (87 + d)

/-- `'\\u{0:04x}'.format(n)` of a number with at most four digits -/
def hexEscape (n : Nat) : List Char :=
  ['\\', 'u', hexDigit (n / 4096), hexDigit (n / 256 % 16), hexDigit (n / 16 % 16),
    hexDigit (n % 16)]

/-- One character of a string: the printable ones of ASCII stay, and beyond the first plane there is
an escape for each half of a surrogate pair. -/
def escapeCode (n : Nat) : List Char :=
  if n = 34 then ['\\', '"']
  else if n = 92 then ['\\', '\\']
  else if n = 10 then ['\\', 'n']
  else if n = 13 then ['\\', 'r']
  else if n = 9 then ['\\', 't']
  else if n = 12 then ['\\', 'f']
  else if n = 8 then ['\\', 'b']
  else if 32 ≤ n ∧ n ≤ 126 then [Char.ofNat n]
  else if n < 0x10000 then hexEscape n
  else hexEscape (0xd800 + (n - 0x10000) / 0x400) ++ hexEscape (0xdc00 + (n - 0x10000) % 0x400)

/-- `encode_basestring_ascii` -/
def quote (text : List Nat) : List Char := '"' :: text.flatMap escapeCode ++ ['"']

mutual

/-- `json.dumps(value)` -/
def dumps (r : Rendering numbers) : Value ι φ → List Char
  | .null => "null".toList
  | .bool true => "true".toList
  | .bool false => "false".toList
  | .int i => r.int i
  | .float x => r.float x
  | .constant name => name.toList
  | .string text => quote text
  | .array [] => ['[', ']']
  | .array (item :: items) => '[' :: (dumps r item ++ (dumpItems r items ++ [']']))
  | .object [] => ['{', '}']
  | .object ((key, value) :: members) =>
    '{' :: (quote key ++ ':' :: ' ' :: (dumps r value ++ (dumpMembers r members ++ ['}'])))

/-- The items after the first. -/
def dumpItems (r : Rendering numbers) : List (Value ι φ) → List Char
  | [] => []
  | item :: items => ',' :: ' ' :: (dumps r item ++ dumpItems r items)

/-- The members after the first. -/
def dumpMembers (r : Rendering numbers) : List (List Nat × Value ι φ) → List Char
  | [] => []
  | (key, value) :: members =>
    ',' :: ' ' :: (quote key ++ ':' :: ' ' :: (dumps r value ++ dumpMembers r members))

end

/-! ## Strings -/

def isHigh (n : Nat) : Prop := 0xd800 ≤ n ∧ n ≤ 0xdbff

def isLow (n : Nat) : Prop := 0xdc00 ≤ n ∧ n ≤ 0xdfff

/-- A Python string: code points, of which no two that follow each other would be read as one. -/
structure IsText (text : List Nat) : Prop where
  bounded : ∀ n ∈ text, n < 0x110000
  apart : text.IsChain fun m n => ¬ (isHigh m ∧ isLow n)

/-- The code units that the escape of a character denotes. -/
def units (n : Nat) : List Nat :=
  if n < 0x10000 then [n] else [0xd800 + (n - 0x10000) / 0x400, 0xdc00 + (n - 0x10000) % 0x400]

section

variable {state next : LexState} {c : Char} {cs : List Char} {text : List Nat} {n : Nat}

theorem lexFrom_step (h : state.step c = some (next, [])) :
    lexFrom state (c :: cs) = lexFrom next cs := by
  rw [lexFrom, h]
  exact Option.map_id_apply

theorem hexValue_hexDigit : ∀ d < 16, hexValue (hexDigit d) = some d := by decide

theorem lexFrom_hexEscape (h : n < 0x10000) :
    lexFrom (.string text) (hexEscape n ++ cs) = lexFrom (.string (text ++ [n])) cs := by
  have hdigit (value d k : Nat) (hd : d < 16) (cs : List Char) :
      lexFrom (.unicode text value (k + 2)) (hexDigit d :: cs) =
        lexFrom (.unicode text (16 * value + d) (k + 1)) cs :=
    lexFrom_step (by simp [LexState.step, hexValue_hexDigit d hd])
  have hlast (value d : Nat) (hd : d < 16) (cs : List Char) :
      lexFrom (.unicode text value 1) (hexDigit d :: cs) =
        lexFrom (.string (text ++ [16 * value + d])) cs :=
    lexFrom_step (by simp [LexState.step, hexValue_hexDigit d hd])
  calc lexFrom (.string text) (hexEscape n ++ cs)
      = lexFrom (.unicode text 0 4) (hexDigit (n / 4096) :: hexDigit (n / 256 % 16) ::
          hexDigit (n / 16 % 16) :: hexDigit (n % 16) :: cs) := by
        rw [hexEscape, List.cons_append, lexFrom_step rfl]
        exact lexFrom_step rfl
    _ = lexFrom (.string (text ++
          [16 * (16 * (16 * (16 * 0 + n / 4096) + n / 256 % 16) + n / 16 % 16) + n % 16])) cs := by
        rw [hdigit 0 _ 2 (by omega), hdigit _ _ 1 (by omega), hdigit _ _ 0 (by omega),
          hlast _ _ (by omega)]
    _ = _ := by
        congr 4
        omega

/-- The escape of a character is read as its code units. -/
theorem lexFrom_escapeCode (h : n < 0x110000) :
    lexFrom (.string text) (escapeCode n ++ cs) = lexFrom (.string (text ++ units n)) cs := by
  have hshort (c : Char) (hc : c ≠ 'u') (hn : unescape c = some n) (hlt : n < 0x10000) :
      lexFrom (.string text) ('\\' :: c :: cs) = lexFrom (.string (text ++ units n)) cs := by
    have hslash : LexState.step (.string text) '\\' = some (.escape text, []) := rfl
    rw [lexFrom_step hslash]
    exact lexFrom_step (by simp [LexState.step, hc, hn, units, hlt])
  unfold escapeCode
  split_ifs with h1 h2 h3 h4 h5 h6 h7 h8 h9
  · exact hshort '"' (by decide) (by rw [h1]; rfl) (by omega)
  · exact hshort '\\' (by decide) (by rw [h2]; rfl) (by omega)
  · exact hshort 'n' (by decide) (by rw [h3]; rfl) (by omega)
  · exact hshort 'r' (by decide) (by rw [h4]; rfl) (by omega)
  · exact hshort 't' (by decide) (by rw [h5]; rfl) (by omega)
  · exact hshort 'f' (by decide) (by rw [h6]; rfl) (by omega)
  · exact hshort 'b' (by decide) (by rw [h7]; rfl) (by omega)
  · -- a printable character stands for itself
    have hcode : (Char.ofNat n).toNat = n := by
      have hvalid : n.isValidChar := .inl (by omega)
      rw [Char.ofNat, dif_pos hvalid]
      rfl
    have hne (c : Char) (hc : n ≠ c.toNat) : Char.ofNat n ≠ c := fun he => hc (he ▸ hcode.symm)
    refine lexFrom_step ?_
    have hquote := hne '"' h1
    have hslash := hne '\\' h2
    have hlt : n < 0x10000 := by omega
    simp only [LexState.step, hquote, hslash, if_false, hcode, units, hlt, if_true,
      Nat.not_lt.mpr h8.1]
  · rw [units, if_pos h9, lexFrom_hexEscape h9]
  · rw [units, if_neg h9, List.append_assoc, lexFrom_hexEscape (by omega),
      lexFrom_hexEscape (by omega)]
    simp

theorem lexFrom_flatMap (h : ∀ n ∈ text, n < 0x110000) (acc : List Nat) :
    lexFrom (.string acc) (text.flatMap escapeCode ++ cs) =
      lexFrom (.string (acc ++ text.flatMap units)) cs := by
  induction text generalizing acc with
  | nil => simp
  | cons n text ih =>
    rw [List.flatMap_cons, List.append_assoc, lexFrom_escapeCode (h n List.mem_cons_self),
      ih fun m hm => h m (List.mem_cons_of_mem _ hm)]
    simp

/-- Joining the halves again gives back the characters. -/
theorem joinSurrogates_units (h : IsText text) : joinSurrogates (text.flatMap units) = text := by
  obtain ⟨hbounded, hapart⟩ := h
  induction text with
  | nil => rfl
  | cons n text ih =>
    have hrest := ih (fun m hm => hbounded m (List.mem_cons_of_mem _ hm)) hapart.tail
    rw [List.flatMap_cons]
    by_cases hn : n < 0x10000
    · rw [units, if_pos hn]
      -- the next code unit is the next character, or the first half of one
      cases hunits : text.flatMap units with
      | nil =>
        rw [hunits] at hrest
        rw [← hrest]
        rfl
      | cons m rest =>
        have hseparate : ¬ (isHigh n ∧ isLow m) := by
          cases text with
          | nil => cases hunits
          | cons k text =>
            rw [List.flatMap_cons] at hunits
            by_cases hk : k < 0x10000
            · rw [units, if_pos hk] at hunits
              cases hunits
              exact hapart.rel
            · rw [units, if_neg hk] at hunits
              cases hunits
              rintro ⟨-, hlow⟩
              have := hbounded k (by simp)
              simp only [isLow] at hlow
              omega
        rw [List.singleton_append, joinSurrogates, if_neg, ← hunits, hrest]
        simpa only [isHigh, isLow, and_assoc] using hseparate
    · have := hbounded n List.mem_cons_self
      have hjoined : 0x10000 + ((0xd800 + (n - 0x10000) / 0x400 - 0xd800) * 0x400 +
          (0xdc00 + (n - 0x10000) % 0x400 - 0xdc00)) = n := by omega
      rw [units, if_neg hn, List.cons_append, List.cons_append, List.nil_append, joinSurrogates,
        if_pos (by omega), hrest, hjoined]

/-- A quoted string is read as its token. -/
theorem lexFrom_quote (h : IsText text) :
    lexFrom .between (quote text ++ cs) = (lexFrom .between cs).map (.string text :: ·) := by
  have hend : LexState.step (.string (text.flatMap units)) '"' =
      some (.between, [.string text]) := by
    rw [LexState.step, if_pos rfl, joinSurrogates_units h]
  calc lexFrom .between (quote text ++ cs)
      = lexFrom (.string []) (text.flatMap escapeCode ++ '"' :: cs) := by
        rw [quote, List.cons_append, List.cons_append, List.append_assoc]
        exact lexFrom_step rfl
    _ = lexFrom (.string (text.flatMap units)) ('"' :: cs) := lexFrom_flatMap h.bounded []
    _ = _ := by
        rw [lexFrom, hend]
        rfl

end

/-! ## Tokens -/

mutual

/-- The tokens of a written value. -/
def tokens (r : Rendering numbers) : Value ι φ → List Token
  | .null => [.atom "null".toList]
  | .bool true => [.atom "true".toList]
  | .bool false => [.atom "false".toList]
  | .int i => [.atom (r.int i)]
  | .float x => [.atom (r.float x)]
  | .constant name => [.atom name.toList]
  | .string text => [.string text]
  | .array [] => [.punct '[', .punct ']']
  | .array (item :: items) => .punct '[' :: (tokens r item ++ (itemTokens r items ++ [.punct ']']))
  | .object [] => [.punct '{', .punct '}']
  | .object ((key, value) :: members) =>
    .punct '{' :: .string key :: .punct ':' ::
      (tokens r value ++ (memberTokens r members ++ [.punct '}']))

def itemTokens (r : Rendering numbers) : List (Value ι φ) → List Token
  | [] => []
  | item :: items => .punct ',' :: (tokens r item ++ itemTokens r items)

def memberTokens (r : Rendering numbers) : List (List Nat × Value ι φ) → List Token
  | [] => []
  | (key, value) :: members =>
    .punct ',' :: .string key :: .punct ':' :: (tokens r value ++ memberTokens r members)

end

mutual

/-- A value that `json.loads` can return: its strings are texts, its constants are the three that
Python writes, and the keys of an object are distinct. -/
def Value.Proper : Value ι φ → Prop
  | .constant name => name = "NaN" ∨ name = "Infinity" ∨ name = "-Infinity"
  | .string text => IsText text
  | .array items => Value.ProperItems items
  | .object members => (members.map Prod.fst).Nodup ∧ Value.ProperMembers members
  | _ => True

def Value.ProperItems : List (Value ι φ) → Prop
  | [] => True
  | item :: items => item.Proper ∧ Value.ProperItems items

def Value.ProperMembers : List (List Nat × Value ι φ) → Prop
  | [] => True
  | (key, value) :: members => IsText key ∧ value.Proper ∧ Value.ProperMembers members

end

/-- What follows an atom ends it. -/
def Delimited (cs : List Char) : Prop := ∀ c ∈ cs.head?, isAtomChar c = false

/-- The text is read as the tokens, where what follows does not go on with an atom. -/
def Reads (text : List Char) (ts : List Token) : Prop := ∀ cs, Delimited cs →
  lexFrom .between (text ++ cs) = (lexFrom .between cs).map (ts ++ ·)

theorem Delimited.append {cs ds : List Char} (h : Delimited cs) (hd : Delimited ds) :
    Delimited (cs ++ ds) := by
  cases cs with
  | nil => exact hd
  | cons c cs => exact h

namespace Reads

variable {text rest raw : List Char} {ts us : List Token}

theorem nil : Reads [] [] := fun cs _ => by simp

theorem append (h : Reads text ts) (hrest : Reads rest us) (hd : Delimited rest) :
    Reads (text ++ rest) (ts ++ us) := by
  intro cs hcs
  rw [List.append_assoc, h _ (hd.append hcs), hrest cs hcs, Option.map_map]
  congr 1
  funext vs
  simp

theorem punct (c : Char) (hc : isPunct c = true) (h : Reads text ts) :
    Reads (c :: text) (.punct c :: ts) := by
  intro cs hcs
  have hspace : isSpace c = false := by
    simp only [isPunct, decide_eq_true_eq] at hc
    rcases hc with rfl | rfl | rfl | rfl | rfl | rfl <;> rfl
  have hstep : LexState.step .between c = some (.between, [.punct c]) := by
    simp [LexState.step, LexState.start, hspace, hc]
  rw [List.cons_append, lexFrom, hstep]
  simp only [h cs hcs, Option.map_map]
  rfl

theorem space (h : Reads text ts) : Reads (' ' :: text) ts := by
  intro cs hcs
  have hstep : LexState.step .between ' ' = some (.between, []) := rfl
  rw [List.cons_append, lexFrom_step hstep, h cs hcs]

theorem quote {key : List Nat} (hkey : IsText key) (h : Reads text ts) :
    Reads (quote key ++ text) (.string key :: ts) := by
  intro cs hcs
  rw [List.append_assoc, lexFrom_quote hkey, h cs hcs, Option.map_map]
  rfl

theorem start_atomChar {c : Char} (h : isAtomChar c) : LexState.start c = some (.atom [c], []) := by
  have hspace : isSpace c = false := by
    by_contra hspace
    simp only [isSpace, Bool.not_eq_false, decide_eq_true_eq] at hspace
    rcases hspace with rfl | rfl | rfl | rfl <;> exact absurd h (by decide)
  have hpunct : isPunct c = false := by
    by_contra hpunct
    simp only [isPunct, Bool.not_eq_false, decide_eq_true_eq] at hpunct
    rcases hpunct with rfl | rfl | rfl | rfl | rfl | rfl <;> exact absurd h (by decide)
  have hquote : c ≠ '"' := by
    rintro rfl
    exact absurd h (by decide)
  simp [LexState.start, hspace, hpunct, hquote, h]

theorem lexFrom_atom (h : ∀ c ∈ raw, isAtomChar c) (acc : List Char) {cs : List Char}
    (hcs : Delimited cs) :
    lexFrom (.atom acc) (raw ++ cs) = (lexFrom .between cs).map (.atom (acc ++ raw) :: ·) := by
  induction raw generalizing acc with
  | nil =>
    rw [List.nil_append, List.append_nil]
    cases cs with
    | nil => rfl
    | cons c cs =>
      have hc : isAtomChar c = false := hcs c rfl
      simp only [lexFrom, LexState.step, hc, Bool.false_eq_true, if_false]
      cases LexState.start c with
      | none => rfl
      | some next =>
        simp only [Option.map_some, Option.map_map]
        rfl
  | cons c raw ih =>
    have hc : isAtomChar c = true := h c List.mem_cons_self
    have hstep : LexState.step (.atom acc) c = some (.atom (acc ++ [c]), []) := by
      simp [LexState.step, hc]
    rw [List.cons_append, lexFrom_step hstep, ih fun c' hc' => h c' (List.mem_cons_of_mem _ hc')]
    simp

/-- A run of atom characters is read as one atom. -/
theorem atom (raw : List Char) (hne : raw ≠ []) (h : ∀ c ∈ raw, isAtomChar c) :
    Reads raw [.atom raw] := by
  intro cs hcs
  cases raw with
  | nil => exact absurd rfl hne
  | cons c raw =>
    have hstep : LexState.step .between c = some (.atom [c], []) :=
      start_atomChar (h c List.mem_cons_self)
    rw [List.cons_append, lexFrom_step hstep,
      lexFrom_atom (fun c' hc' => h c' (List.mem_cons_of_mem _ hc')) _ hcs]
    rfl

theorem word (raw : List Char) (hne : raw ≠ []) (h : raw.all isAtomChar = true) :
    Reads raw [.atom raw] := .atom raw hne (List.all_eq_true.mp h)

end Reads

section

variable {r : Rendering numbers}

theorem ne_nil_of_atomValue {raw : List Char} {v : Value ι φ} (h : atomValue numbers raw = some v) :
    raw ≠ [] := by
  rintro rfl
  cases h

theorem delimited_dumpItems (items : List (Value ι φ)) : Delimited (dumpItems r items) := by
  cases items with
  | nil => simp [Delimited, dumpItems]
  | cons item items =>
    rintro _ ⟨⟩
    rfl

theorem delimited_dumpMembers (members : List (List Nat × Value ι φ)) :
    Delimited (dumpMembers r members) := by
  cases members with
  | nil => simp [Delimited, dumpMembers]
  | cons member members =>
    rintro _ ⟨⟩
    rfl

theorem delimited_punct {c : Char} (hc : isAtomChar c = false) : Delimited [c] := by
  rintro _ ⟨⟩
  exact hc

mutual

/-- The text of a value is read as its tokens. -/
theorem dumps_reads : ∀ (v : Value ι φ), v.Proper → Reads (dumps r v) (tokens r v)
  | .null, _ => .word "null".toList (by simp) rfl
  | .bool true, _ => .word "true".toList (by simp) rfl
  | .bool false, _ => .word "false".toList (by simp) rfl
  | .int i, _ => .atom _ (ne_nil_of_atomValue (r.int_value i)) (r.int_atom i)
  | .float x, _ => .atom _ (ne_nil_of_atomValue (r.float_value x)) (r.float_atom x)
  | .constant name, h => by
    rcases h with rfl | rfl | rfl
    · exact .word "NaN".toList (by simp) rfl
    · exact .word "Infinity".toList (by simp) rfl
    · exact .word "-Infinity".toList (by simp) rfl
  | .string text, h => by
    have hquote : Reads (quote text ++ []) [.string text] := .quote h .nil
    rwa [List.append_nil] at hquote
  | .array [], _ => .punct '[' rfl (.punct ']' rfl .nil)
  | .array (item :: items), h =>
    .punct '[' rfl (.append (dumps_reads item h.1)
      (.append (dumpItems_reads items h.2) (.punct ']' rfl .nil) (delimited_punct rfl))
      ((delimited_dumpItems items).append (delimited_punct rfl)))
  | .object [], _ => .punct '{' rfl (.punct '}' rfl .nil)
  | .object ((key, value) :: members), h =>
    .punct '{' rfl (.quote h.2.1 (.punct ':' rfl (.space (.append (dumps_reads value h.2.2.1)
      (.append (dumpMembers_reads members h.2.2.2) (.punct '}' rfl .nil) (delimited_punct rfl))
      ((delimited_dumpMembers members).append (delimited_punct rfl))))))

theorem dumpItems_reads : ∀ (items : List (Value ι φ)), Value.ProperItems items →
    Reads (dumpItems r items) (itemTokens r items)
  | [], _ => .nil
  | item :: items, h =>
    .punct ',' rfl (.space (.append (dumps_reads item h.1) (dumpItems_reads items h.2)
      (delimited_dumpItems items)))

theorem dumpMembers_reads : ∀ (members : List (List Nat × Value ι φ)),
    Value.ProperMembers members → Reads (dumpMembers r members) (memberTokens r members)
  | [], _ => .nil
  | (_, value) :: members, h =>
    .punct ',' rfl (.space (.quote h.1 (.punct ':' rfl (.space
      (.append (dumps_reads value h.2.1) (dumpMembers_reads members h.2.2)
        (delimited_dumpMembers members))))))

end

/-! ## Values -/

variable {next next' : Next ι φ} {frames frames' : List (Frame ι φ)} {t : Token} {ts : List Token}

theorem parseFrom_cons (h : advance numbers next frames t = some (next', frames')) :
    parseFrom numbers next frames (t :: ts) = parseFrom numbers next' frames' ts := by
  rw [parseFrom, h]

theorem setMember_new {members : List (List Nat × Value ι φ)} {key : List Nat} {v : Value ι φ}
    (h : key ∉ members.map Prod.fst) : setMember members key v = members ++ [(key, v)] := by
  rw [setMember, if_neg]
  simpa using h

theorem parseFrom_valueOrEnd_cons (h : t ≠ .punct ']') :
    parseFrom numbers .valueOrEnd frames (t :: ts) = parseFrom numbers .value frames (t :: ts) := by
  have hadvance : advance numbers .valueOrEnd frames t = openValue numbers frames t := by
    unfold advance
    split <;> simp_all
  rw [parseFrom, parseFrom, hadvance]
  rfl

/-- The tokens of a value do not start with the end of an array. -/
theorem parseFrom_valueOrEnd (v : Value ι φ) (frames : List (Frame ι φ)) (ts : List Token) :
    parseFrom numbers .valueOrEnd frames (tokens r v ++ ts) =
      parseFrom numbers .value frames (tokens r v ++ ts) := by
  rcases v with - | b | - | - | - | - | items | members
  · exact parseFrom_valueOrEnd_cons (by simp)
  · cases b <;> exact parseFrom_valueOrEnd_cons (by simp)
  · exact parseFrom_valueOrEnd_cons (by simp)
  · exact parseFrom_valueOrEnd_cons (by simp)
  · exact parseFrom_valueOrEnd_cons (by simp)
  · exact parseFrom_valueOrEnd_cons (by simp)
  · cases items <;> exact parseFrom_valueOrEnd_cons (by simp)
  · cases members <;> exact parseFrom_valueOrEnd_cons (by simp)

mutual

/-- The tokens of a value are read as the value. -/
theorem parseFrom_tokens : ∀ (v : Value ι φ), v.Proper → ∀ frames ts,
    parseFrom numbers .value frames (tokens r v ++ ts) = parseFrom numbers (.after v) frames ts
  | .null, _, _, _ | .bool true, _, _, _ | .bool false, _, _, _ => parseFrom_cons rfl
  | .int i, _, _, _ => parseFrom_cons (by simp [advance, openValue, r.int_value])
  | .float x, _, _, _ => parseFrom_cons (by simp [advance, openValue, r.float_value])
  | .constant name, h, _, _ => by
    rcases h with rfl | rfl | rfl <;> exact parseFrom_cons rfl
  | .string text, _, _, _ => parseFrom_cons rfl
  | .array [], _, _, _ => (parseFrom_cons rfl).trans (parseFrom_cons rfl)
  | .array (item :: items), h, frames, ts => by
    have hopen : advance numbers .value frames (.punct '[') =
        some (.valueOrEnd, .array [] :: frames) := rfl
    rw [tokens, List.cons_append, parseFrom_cons hopen, List.append_assoc, parseFrom_valueOrEnd,
      parseFrom_tokens item h.1, List.append_assoc, List.singleton_append,
      parseFrom_itemTokens items h.2]
    rfl
  | .object [], _, _, _ => (parseFrom_cons rfl).trans (parseFrom_cons rfl)
  | .object ((key, value) :: members), h, frames, ts => by
    have hopen : advance numbers .value frames (.punct '{') =
        some (.keyOrEnd, .object [] :: frames) := rfl
    have hkey : advance numbers .keyOrEnd (.object [] :: frames) (.string key) =
        some (.colon key, .object [] :: frames) := rfl
    have hcolon : advance numbers (.colon key) (.object [] :: frames) (.punct ':') =
        some (.value, .member [] key :: frames) := rfl
    rw [tokens, List.cons_append, parseFrom_cons hopen, List.cons_append, parseFrom_cons hkey,
      List.cons_append, parseFrom_cons hcolon, List.append_assoc, parseFrom_tokens value h.2.2.1,
      List.append_assoc, List.singleton_append,
      parseFrom_memberTokens members h.2.2.2 [] key value frames ts (by simpa using h.1)]
    rfl

/-- The items after the first, and the end of the array. -/
theorem parseFrom_itemTokens : ∀ (items : List (Value ι φ)), Value.ProperItems items →
    ∀ {done v frames ts}, parseFrom numbers (.after v) (.array done :: frames)
        (itemTokens r items ++ .punct ']' :: ts) =
      parseFrom numbers (.after (.array (done ++ v :: items))) frames ts
  | [], _, _, _, _, _ => parseFrom_cons rfl
  | item :: items, h, done, v, frames, ts => by
    have hcomma : advance numbers (.after v) (.array done :: frames) (.punct ',') =
        some (.value, .array (done ++ [v]) :: frames) := rfl
    rw [itemTokens, List.cons_append, parseFrom_cons hcomma, List.append_assoc,
      parseFrom_tokens item h.1, parseFrom_itemTokens items h.2, List.append_assoc]
    rfl

/-- The members after the first, and the end of the object: all keys are distinct, so every member
is added at the end. -/
theorem parseFrom_memberTokens : ∀ (members : List (List Nat × Value ι φ)),
    Value.ProperMembers members → ∀ done key v frames ts,
    (done.map Prod.fst ++ key :: members.map Prod.fst).Nodup →
    parseFrom numbers (.after v) (.member done key :: frames)
        (memberTokens r members ++ .punct '}' :: ts) =
      parseFrom numbers (.after (.object (done ++ (key, v) :: members))) frames ts
  | [], _, done, key, v, frames, ts, hkeys => by
    have hnew : key ∉ done.map Prod.fst := by
      have := (List.nodup_append.mp hkeys).2.2
      intro hmem
      exact this key hmem key (by simp) rfl
    have hend : advance numbers (.after v) (.member done key :: frames) (.punct '}') =
        some (.after (.object (done ++ [(key, v)])), frames) := by
      rw [← setMember_new hnew]
      rfl
    rw [memberTokens, List.nil_append, parseFrom_cons hend]
  | (key', value) :: members, h, done, key, v, frames, ts, hkeys => by
    have hnew : key ∉ done.map Prod.fst := by
      have := (List.nodup_append.mp hkeys).2.2
      intro hmem
      exact this key hmem key (by simp) rfl
    have hcomma : advance numbers (.after v) (.member done key :: frames) (.punct ',') =
        some (.key, .object (done ++ [(key, v)]) :: frames) := by
      rw [← setMember_new hnew]
      rfl
    have hkey : advance numbers .key (.object (done ++ [(key, v)]) :: frames) (.string key') =
        some (.colon key', .object (done ++ [(key, v)]) :: frames) := rfl
    have hcolon : advance numbers (.colon key') (.object (done ++ [(key, v)]) :: frames)
        (.punct ':') = some (.value, .member (done ++ [(key, v)]) key' :: frames) := rfl
    rw [memberTokens, List.cons_append, parseFrom_cons hcomma, List.cons_append,
      parseFrom_cons hkey, List.cons_append, parseFrom_cons hcolon, List.append_assoc,
      parseFrom_tokens value h.2.1, parseFrom_memberTokens members h.2.2 _ _ _ _ _ (by
        simpa using hkeys), List.append_assoc]
    rfl

end

/-- What `json.dumps` writes, `json.loads` reads back. -/
theorem loads_dumps (r : Rendering numbers) {v : Value ι φ} (h : v.Proper) :
    loads numbers (dumps r v) = some v := by
  have hlex : lexFrom .between (dumps r v) = some (tokens r v) := by
    simpa [lexFrom, LexState.finish] using dumps_reads (r := r) v h [] (by simp [Delimited])
  have hparse : parseFrom numbers .value [] (tokens r v) = some v := by
    simpa [parseFrom] using parseFrom_tokens (r := r) v h [] []
  rw [loads, hlex]
  exact hparse

end

end Json
