/-!
# Texts

Operations of Python's `str` and `re` on texts, as functions of the list of characters.
-/

namespace Text

/-- `c.isspace()` -/
def isSpace (c : Char) : Bool :=
  let n := c.toNat
  (9 ≤ n ∧ n ≤ 13) ∨ (28 ≤ n ∧ n ≤ 32) ∨ n = 0x85 ∨ n = 0xa0 ∨ n = 0x1680 ∨
    (0x2000 ≤ n ∧ n ≤ 0x200a) ∨ n = 0x2028 ∨ n = 0x2029 ∨ n = 0x202f ∨ n = 0x205f ∨ n = 0x3000

/-- `text.strip()` -/
def strip (text : String) : String :=
  String.ofList ((text.toList.dropWhile isSpace).reverse.dropWhile isSpace).reverse

/-- A line boundary of `str.splitlines`. -/
def isLineBreak (c : Char) : Bool :=
  let n := c.toNat
  (10 ≤ n ∧ n ≤ 13) ∨ (28 ≤ n ∧ n ≤ 30) ∨ n = 0x85 ∨ n = 0x2028 ∨ n = 0x2029

/-- `str.splitlines`, given the characters of the line in progress; `\r\n` is one boundary and a
boundary at the end opens no further line. -/
def splitLinesFrom (line : List Char) : List Char → List (List Char)
  | [] => if line.isEmpty then [] else [line]
  | '\r' :: '\n' :: cs => line :: splitLinesFrom [] cs
  | c :: cs =>
    if isLineBreak c then line :: splitLinesFrom [] cs else splitLinesFrom (line ++ [c]) cs

/-- `text.splitlines()` -/
def splitLines (text : String) : List String := (splitLinesFrom [] text.toList).map String.ofList

/-- Is `pattern` a prefix of the text, up to the folding of characters? -/
def isPrefixFolded (fold : Char → Char) : List Char → List Char → Bool
  | [], _ => true
  | _ :: _, [] => false
  | p :: ps, c :: cs => fold p = fold c && isPrefixFolded fold ps cs

/-- Replace the matches of a non-empty pattern from left to right; `skip` characters of the match in
progress remain to be dropped. -/
def replaceFrom (fold : Char → Char) (pattern replacement : List Char) (skip : Nat) :
    List Char → List Char
  | [] => []
  | c :: cs =>
    if skip > 0 then replaceFrom fold pattern replacement (skip - 1) cs
    else if isPrefixFolded fold pattern (c :: cs) then
      replacement ++ replaceFrom fold pattern replacement (pattern.length - 1) cs
    else c :: replaceFrom fold pattern replacement 0 cs

/-- `re.sub(re.escape(pattern), replacement, text, flags=re.IGNORECASE)`: an empty pattern matches
before every character and at the end. -/
def subIgnoreCase (fold : Char → Char) (pattern replacement text : String) : String :=
  if pattern.toList = [] then
    String.ofList (text.toList.flatMap (fun c => replacement.toList ++ [c]) ++ replacement.toList)
  else
    String.ofList (replaceFrom fold pattern.toList replacement.toList 0 text.toList)

end Text
