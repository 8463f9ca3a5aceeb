import AgentWorx.Lib.Lines

/-!
# JSON texts

`json.loads` of Python's standard library: a machine reads the text character by character and
yields tokens, and a machine with a stack of open containers reads the tokens. Where a text has line
boundaries that are not newlines, they are inside strings or among the white space between tokens:
what unifying them does to a text is a matter of the first machine.
-/

namespace Json

open Text (unifyLines)

/-! ## Values -/

/-- The conversions of number literals, which may raise. -/
structure Numbers (ι φ : Type) where
  parseInt : List Char → Option ι
  parseFloat : List Char → Option φ

/-- A value that `json.loads` returns. The texts of strings and keys are lists of code points, since
an escape may denote half of a surrogate pair. -/
inductive Value (ι φ : Type)
  | null
  | bool (b : Bool)
  | int (i : ι)
  | float (x : φ)
  | constant (name : String)
  | string (text : List Nat)
  | array (items : List (Value ι φ))
  | object (members : List (List Nat × Value ι φ))

/-! ## Tokens -/

inductive Token
  | punct (c : Char)
  | string (text : List Nat)
  | atom (raw : List Char)
  deriving DecidableEq

/-- White space between tokens. -/
def isSpace (c : Char) : Bool := c = ' ' ∨ c = '\t' ∨ c = '\n' ∨ c = '\r'

def isPunct (c : Char) : Bool := c = '{' ∨ c = '}' ∨ c = '[' ∨ c = ']' ∨ c = ',' ∨ c = ':'

/-- Is the character one of those from `first` to `last`? -/
def inRange (first last c : Char) : Bool := first.toNat ≤ c.toNat ∧ c.toNat ≤ last.toNat

def isDigit (c : Char) : Bool := inRange '0' '9' c

/-- A character of a literal name or of a number. -/
def isAtomChar (c : Char) : Bool :=
  isDigit c ∨ inRange 'a' 'z' c ∨ inRange 'A' 'Z' c ∨ c = '+' ∨ c = '-' ∨ c = '.'

def hexValue (c : Char) : Option Nat :=
  if isDigit c then some (c.toNat - 48)
  else if inRange 'a' 'f' c then some (c.toNat - 87)
  else if inRange 'A' 'F' c then some (c.toNat - 55)
  else none

/-- What `\` and the character stand for, unless it is a `u`. -/
def unescape : Char → Option Nat
  | '"' => some 34
  | '\\' => some 92
  | '/' => some 47
  | 'b' => some 8
  | 'f' => some 12
  | 'n' => some 10
  | 'r' => some 13
  | 't' => some 9
  | _ => none

/-- The halves of a surrogate pair that follow each other are one code point. -/
def joinSurrogates : List Nat → List Nat
  | high :: low :: rest =>
    if 0xd800 ≤ high ∧ high ≤ 0xdbff ∧ 0xdc00 ≤ low ∧ low ≤ 0xdfff then
      (0x10000 + ((high - 0xd800) * 0x400 + (low - 0xdc00))) :: joinSurrogates rest
    else high :: joinSurrogates (low :: rest)
  | rest => rest

/-- Where the reader is: between tokens, in an atom, in a string, after a `\`, or in the digits of
an escape, with the value so far and the number of digits to come. -/
inductive LexState
  | between
  | atom (raw : List Char)
  | string (text : List Nat)
  | escape (text : List Nat)
  | unicode (text : List Nat) (value digits : Nat)
  deriving DecidableEq

namespace LexState

/-- The start of a token. -/
def start (c : Char) : Option (LexState × List Token) :=
  if isSpace c then some (between, [])
  else if isPunct c then some (between, [.punct c])
  else if c = '"' then some (string [], [])
  else if isAtomChar c then some (atom [c], [])
  else none

/-- One character. A string has no raw control characters in it (`strict`). -/
def step : LexState → Char → Option (LexState × List Token)
  | between, c => start c
  | atom raw, c =>
    if isAtomChar c then some (atom (raw ++ [c]), [])
    else (start c).map fun (state, tokens) => (state, .atom raw :: tokens)
  | string text, c =>
    if c = '"' then some (between, [.string (joinSurrogates text)])
    else if c = '\\' then some (escape text, [])
    else if c.toNat < 32 then none
    else some (string (text ++ [c.toNat]), [])
  | escape text, c =>
    if c = 'u' then some (unicode text 0 4, [])
    else (unescape c).map fun code => (string (text ++ [code]), [])
  | unicode text value digits, c =>
    (hexValue c).map fun digit =>
      if digits = 1 then (string (text ++ [16 * value + digit]), [])
      else (unicode text (16 * value + digit) (digits - 1), [])

/-- The tokens that are complete when the text ends. -/
def finish : LexState → Option (List Token)
  | between => some []
  | atom raw => some [.atom raw]
  | _ => none

end LexState

/-- The tokens of the rest of a text. -/
def lexFrom : LexState → List Char → Option (List Token)
  | state, [] => state.finish
  | state, c :: cs =>
    match state.step c with
    | some (state, tokens) => (lexFrom state cs).map (tokens ++ ·)
    | none => none

/-! ## Atoms -/

variable {ι φ : Type}

/-- What is left after `0|[1-9][0-9]*`. -/
def scanInteger : List Char → Option (List Char)
  | '0' :: cs => some cs
  | c :: cs => if isDigit c then some (cs.dropWhile isDigit) else none
  | [] => none

/-- What is left after `(\.[0-9]+)?`. -/
def scanFraction : List Char → List Char
  | '.' :: c :: cs => if isDigit c then cs.dropWhile isDigit else '.' :: c :: cs
  | cs => cs

/-- What is left after `([eE][-+]?[0-9]+)?`. -/
def scanExponent : List Char → List Char
  | e :: sign :: c :: cs =>
    if (e = 'e' ∨ e = 'E') ∧ (sign = '+' ∨ sign = '-') ∧ isDigit c then cs.dropWhile isDigit
    else if (e = 'e' ∨ e = 'E') ∧ isDigit sign then (c :: cs).dropWhile isDigit
    else e :: sign :: c :: cs
  | [e, c] => if (e = 'e' ∨ e = 'E') ∧ isDigit c then [] else [e, c]
  | cs => cs

/-- The value of a number literal: without a fraction and an exponent it is an integer. -/
def numberValue (numbers : Numbers ι φ) (raw : List Char) : Option (Value ι φ) :=
  match scanInteger (if raw.head? = some '-' then raw.tail else raw) with
  | some [] => (numbers.parseInt raw).map .int
  | some rest =>
    if scanExponent (scanFraction rest) = [] then (numbers.parseFloat raw).map .float else none
  | none => none

def atomValue (numbers : Numbers ι φ) (raw : List Char) : Option (Value ι φ) :=
  if raw = "null".toList then some .null
  else if raw = "true".toList then some (.bool true)
  else if raw = "false".toList then some (.bool false)
  else if raw = "NaN".toList ∨ raw = "Infinity".toList ∨ raw = "-Infinity".toList then
    some (.constant (String.ofList raw))
  else numberValue numbers raw

/-! ## Containers -/

/-- An open container: an array with its items, an object with its members, or an object in which
the value of a key is next. -/
inductive Frame (ι φ : Type)
  | array (items : List (Value ι φ))
  | object (members : List (List Nat × Value ι φ))
  | member (members : List (List Nat × Value ι φ)) (key : List Nat)

/-- What is next: a value, a value or the end of the array, a key, a key or the end of the object, a
colon, or what follows a value. -/
inductive Next (ι φ : Type)
  | value
  | valueOrEnd
  | key
  | keyOrEnd
  | colon (key : List Nat)
  | after (value : Value ι φ)

/-- `members[key] = value`: a repeated key keeps its place and takes the new value. -/
def setMember (members : List (List Nat × Value ι φ)) (key : List Nat) (value : Value ι φ) :
    List (List Nat × Value ι φ) :=
  if members.any (·.1 = key) then
    members.map fun member => if member.1 = key then (key, value) else member
  else members ++ [(key, value)]

/-- What a value token, or the start of a container, leads to. -/
def openValue (numbers : Numbers ι φ) (frames : List (Frame ι φ)) :
    Token → Option (Next ι φ × List (Frame ι φ))
  | .atom raw => (atomValue numbers raw).map fun value => (.after value, frames)
  | .string text => some (.after (.string text), frames)
  | .punct '[' => some (.valueOrEnd, .array [] :: frames)
  | .punct '{' => some (.keyOrEnd, .object [] :: frames)
  | .punct _ => none

/-- One token. -/
def advance (numbers : Numbers ι φ) :
    Next ι φ → List (Frame ι φ) → Token → Option (Next ι φ × List (Frame ι φ))
  | .valueOrEnd, .array items :: frames, .punct ']' => some (.after (.array items), frames)
  | .value, frames, token | .valueOrEnd, frames, token => openValue numbers frames token
  | .keyOrEnd, .object members :: frames, .punct '}' => some (.after (.object members), frames)
  | .key, frames, .string key | .keyOrEnd, frames, .string key => some (.colon key, frames)
  | .colon key, .object members :: frames, .punct ':' =>
    some (.value, .member members key :: frames)
  | .after value, .array items :: frames, .punct ',' =>
    some (.value, .array (items ++ [value]) :: frames)
  | .after value, .array items :: frames, .punct ']' =>
    some (.after (.array (items ++ [value])), frames)
  | .after value, .member members key :: frames, .punct ',' =>
    some (.key, .object (setMember members key value) :: frames)
  | .after value, .member members key :: frames, .punct '}' =>
    some (.after (.object (setMember members key value)), frames)
  | _, _, _ => none

def parseFrom (numbers : Numbers ι φ) :
    Next ι φ → List (Frame ι φ) → List Token → Option (Value ι φ)
  | .after value, [], [] => some value
  | _, _, [] => none
  | next, frames, token :: tokens =>
    match advance numbers next frames token with
    | some (next, frames) => parseFrom numbers next frames tokens
    | none => none

/-- `json.loads(text)`, or nothing where it raises. -/
def loads (numbers : Numbers ι φ) (text : List Char) : Option (Value ι φ) :=
  (lexFrom .between text).bind fun tokens => parseFrom numbers .value [] tokens

/-! ## Line boundaries -/

/-- A line boundary that a string may hold as it is. -/
def isSeparator (c : Char) : Bool := c.toNat = 0x85 ∨ c.toNat = 0x2028 ∨ c.toNat = 0x2029

section

variable {state next : LexState} {c : Char} {cs : List Char} {tokens : List Token}
  {result : LexState × List Token}

/-- A line boundary other than `\n` and `\r` is part of no token but a string. -/
theorem LexState.foreign_of_isLineBreak (hbreak : Text.isLineBreak c) (hn : c ≠ '\n')
    (hr : c ≠ '\r') : start c = none ∧ isAtomChar c = false ∧ unescape c = none ∧
      hexValue c = none ∧ c ≠ 'u' ∧ c ≠ '"' ∧ c ≠ '\\' ∧ (32 ≤ c.toNat → isSeparator c) := by
  have hmem : c ∈ ['\x0b', '\x0c', '\x1c', '\x1d', '\x1e', '\x85', '\u2028', '\u2029'] := by
    simpa [hn, hr] using Text.mem_of_isLineBreak hbreak
  simp only [List.mem_cons, List.not_mem_nil, or_false] at hmem
  rcases hmem with rfl | rfl | rfl | rfl | rfl | rfl | rfl | rfl <;> decide

theorem LexState.step_of_isLineBreak (hbreak : Text.isLineBreak c) (hn : c ≠ '\n') (hr : c ≠ '\r')
    (h : state.step c = some result) : isSeparator c ∧ state.step '\n' = none := by
  obtain ⟨hstart, hatom, hescape, hhex, hu, hquote, hslash, hseparator⟩ :=
    foreign_of_isLineBreak hbreak hn hr
  cases state with
  | between => simp [step, hstart] at h
  | atom raw => simp [step, hstart, hatom] at h
  | string text =>
    refine ⟨hseparator ?_, rfl⟩
    by_contra hlt
    simp [step, hquote, hslash, Nat.lt_of_not_le hlt] at h
  | escape text => simp [step, hu, hescape] at h
  | unicode text value digits => simp [step, hhex] at h

/-- After a newline the reader is between tokens. -/
theorem LexState.step_newline (h : state.step '\n' = some (next, tokens)) : next = between := by
  have hstart : start '\n' = some (between, []) := rfl
  cases state with
  | between => exact (Prod.ext_iff.mp (Option.some.inj h)).1.symm
  | atom raw =>
    rw [step, hstart] at h
    exact (Prod.ext_iff.mp (Option.some.inj h)).1.symm
  | string text => cases h
  | escape text => cases h
  | unicode text value digits => cases h

theorem LexState.step_return : state.step '\r' = state.step '\n' := by
  cases state <;> rfl

theorem isLineBreak_of_isSeparator (h : isSeparator c) : Text.isLineBreak c := by
  simp only [isSeparator, Text.isLineBreak, decide_eq_true_eq] at h ⊢
  omega

/-- A character that the reader takes is read the same when it is unified, unless it is a separator:
then it is no longer read at all. -/
theorem LexState.step_unified (h : state.step c = some result) :
    state.step (if Text.isLineBreak c then '\n' else c) =
      if isSeparator c then none else some result := by
  by_cases hbreak : Text.isLineBreak c
  · rw [if_pos hbreak]
    by_cases hn : c = '\n'
    · rw [hn] at h ⊢
      exact h
    · by_cases hr : c = '\r'
      · rw [hr] at h ⊢
        exact step_return.symm.trans h
      · obtain ⟨hseparator, hnone⟩ := step_of_isLineBreak hbreak hn hr h
        rw [if_pos hseparator, hnone]
  · rw [if_neg hbreak, if_neg fun hseparator => hbreak (isLineBreak_of_isSeparator hseparator), h]

/-- One character of a text that can be read. -/
theorem lexFrom_cons (h : lexFrom state (c :: cs) = some tokens) :
    ∃ next read rest, state.step c = some (next, read) ∧ lexFrom next cs = some rest ∧
      tokens = read ++ rest := by
  simp only [lexFrom] at h
  split at h
  · rename_i next read hstep
    obtain ⟨rest, hrest, rfl⟩ := Option.map_eq_some_iff.mp h
    exact ⟨next, read, rest, hstep, hrest, rfl⟩
  · cases h

/-- `\r\n` is read like `\n`. -/
theorem lexFrom_return_newline (h : lexFrom state ('\r' :: '\n' :: cs) = some tokens) :
    lexFrom state ('\n' :: cs) = some tokens := by
  obtain ⟨next, read, rest, hstep, hrest, rfl⟩ := lexFrom_cons h
  rw [LexState.step_return] at hstep
  obtain rfl := LexState.step_newline hstep
  have hcs : lexFrom .between cs = some rest := by
    simpa [lexFrom, LexState.step, LexState.start, isSpace] using hrest
  simp [lexFrom, hstep, hcs]

/-- The step of `lexFrom_unifyLines`, for what is known of the rest of the text. -/
theorem lexFrom_unified_cons (h : lexFrom state (c :: cs) = some tokens)
    (ih : ∀ {state tokens}, lexFrom state cs = some tokens →
      lexFrom state (unifyLines cs) = if cs.any isSeparator then none else some tokens) :
    lexFrom state ((if Text.isLineBreak c then '\n' else c) :: unifyLines cs) =
      if (c :: cs).any isSeparator then none else some tokens := by
  obtain ⟨next, read, rest, hstep, hrest, rfl⟩ := lexFrom_cons h
  rw [lexFrom, LexState.step_unified hstep, List.any_cons]
  cases hseparator : isSeparator c with
  | true => rfl
  | false =>
    simp only [Bool.false_eq_true, if_false, Bool.false_or]
    rw [ih hrest]
    split <;> rfl

/-- What unifying the line boundaries does to a text that can be read: nothing, or it can no longer
be read. The induction is along `unifyLines`, for every state of the reader. -/
theorem lexFrom_unifyLines (h : lexFrom state cs = some tokens) :
    lexFrom state (unifyLines cs) = if cs.any isSeparator then none else some tokens := by
  induction cs using Text.unifyLines.induct generalizing state tokens with
  | case1 => simpa [unifyLines] using h
  | case2 cs ih => exact lexFrom_unified_cons (lexFrom_return_newline h) ih
  | case3 c cs hcrlf ih =>
    rw [unifyLines.eq_3 _ _ hcrlf]
    exact lexFrom_unified_cons h ih

variable {ι φ : Type} {numbers : Numbers ι φ} {text : List Char}

/-- A text that is accepted means the same with its line boundaries unified, unless it has a
separator in it. -/
theorem loads_unifyLines (h : (loads numbers text).isSome) :
    loads numbers (unifyLines text) = loads numbers text ↔ ¬ text.any isSeparator := by
  obtain ⟨value, hvalue⟩ := Option.isSome_iff_exists.mp h
  obtain ⟨tokens, htokens, hparse⟩ := Option.bind_eq_some_iff.mp hvalue
  rw [hvalue, loads, lexFrom_unifyLines htokens]
  by_cases hseparator : text.any isSeparator
  · simp [hseparator]
  · simpa [hseparator] using hparse

end

end Json
