import AgentWorx.Apprentice.AnswerProcessor
import AgentWorx.Lib.Json

/-!
# Fenced JSON replies

`_strip_json_fence` takes a fenced block apart into lines and joins them with newlines. A reply
means the same with a fence and without as long as its strings hold no line boundary; three line
boundaries may stand in a string as they are.
-/

namespace AgentWorx

open Text

variable {tag text : String} {cs : List Char}

/-- An opening line of three backticks and a tag, the text, and a closing line. -/
def fenced (tag text : String) : String := "```" ++ tag ++ "\n" ++ text ++ "\n```"

theorem strip_eq_trim : strip text = String.ofList (trim text.toList) := rfl

theorem solid_fence : Solid "```".toList := ⟨by decide, by decide, by decide⟩

theorem strip_ofList_of_solid (h : Solid cs) : strip (String.ofList cs) = String.ofList cs := by
  rw [strip_eq_trim, String.toList_ofList, h.trim_eq]

theorem solid_of_strip (h : strip text = text) (hne : text ≠ "") : Solid text.toList := by
  have htrim : trim text.toList = text.toList := by
    rw [← String.toList_ofList (l := trim text.toList), ← strip_eq_trim, h]
  exact solid_of_trim_eq htrim (by simpa using hne)

theorem fenced_toList : (fenced tag text).toList =
    "```".toList ++ (tag.toList ++ '\n' :: (text.toList ++ ['\n'])) ++ "```".toList := by
  simp [fenced]

theorem splitLines_fenced (htag : ∀ c ∈ tag.toList, ¬ isLineBreak c) (h : Solid text.toList) :
    splitLines (fenced tag text) =
      String.ofList ("```".toList ++ tag.toList) ::
        ((splitLinesFrom [] text.toList).map String.ofList ++ ["```"]) := by
  have hopening : ∀ c ∈ "```".toList ++ tag.toList, ¬ isLineBreak c := by
    intro c hc
    rcases List.mem_append.mp hc with hc | hc
    · have hbacktick : c = '`' := by simpa using hc
      rw [hbacktick]
      decide
    · exact htag c hc
  have hclosing : splitLinesFrom [] "```".toList = ["```".toList] := by decide
  have hlines : splitLinesFrom [] (fenced tag text).toList =
      ("```".toList ++ tag.toList) :: (splitLinesFrom [] text.toList ++ ["```".toList]) := by
    calc splitLinesFrom [] (fenced tag text).toList
        = splitLinesFrom [] (("```".toList ++ tag.toList) ++
            '\n' :: (text.toList ++ '\n' :: "```".toList)) := by
          rw [fenced_toList]
          simp
      _ = ("```".toList ++ tag.toList) ::
            splitLinesFrom [] (text.toList ++ '\n' :: "```".toList) :=
          splitLinesFrom_newline hopening
      _ = _ := by rw [splitLinesFrom_append h.unended (.inr h.ne_nil), hclosing]
  rw [splitLines, hlines, List.map_cons, List.map_append]
  rfl

/-- The text of a fenced block, its line boundaries unified. -/
theorem stripJsonFence_fenced (htag : ∀ c ∈ tag.toList, ¬ isLineBreak c) (h : Solid text.toList) :
    stripJsonFence (fenced tag text) = String.ofList (unifyLines text.toList) := by
  have hstrip : strip (fenced tag text) = fenced tag text := by
    have hsolid : Solid (fenced tag text).toList := by
      rw [fenced_toList]
      exact solid_fence.append solid_fence
    simpa using strip_ofList_of_solid hsolid
  have hstarts : "```".toList.isPrefixOf (fenced tag text).toList := by
    simp [fenced_toList]
  have hopening : "```".toList.isPrefixOf (String.ofList ("```".toList ++ tag.toList)).toList := by
    simp
  have hclosing : strip "```" = "```" := by decide
  have hjoined : "\n".intercalate ((splitLinesFrom [] text.toList).map String.ofList) =
      String.ofList (unifyLines text.toList) := by
    have hlines : ['\n'].intercalate (splitLinesFrom [] text.toList) = unifyLines text.toList :=
      intercalate_splitLinesFrom h.unended
    rw [← String.toList_inj, String.toList_intercalate, String.toList_ofList]
    simpa using hlines
  simp only [stripJsonFence, hstrip, hstarts, splitLines_fenced htag h, hopening, if_true,
    List.getLast?_concat, hclosing, List.dropLast_concat]
  rw [hjoined, strip_ofList_of_solid h.unifyLines]

variable {ι φ : Type} {numbers : Json.Numbers ι φ}

theorem ne_empty_of_loads (h : (Json.loads numbers text.toList).isSome) : text ≠ "" := by
  rintro rfl
  cases h

/-- No JSON text starts with a backtick. -/
theorem stripJsonFence_bare (h : (Json.loads numbers text.toList).isSome)
    (hstrip : strip text = text) : stripJsonFence text = text := by
  have hstarts : ¬ "```".toList.isPrefixOf text.toList := by
    intro hprefix
    obtain ⟨rest, hrest⟩ := List.isPrefixOf_iff_prefix.mp hprefix
    rw [← hrest] at h
    cases h
  simp only [stripJsonFence, hstrip, hstarts, Bool.false_eq_true, if_false]

theorem loads_fenced_iff (hloads : (Json.loads numbers text.toList).isSome)
    (hstrip : strip text = text) (htag : ∀ c ∈ tag.toList, ¬ isLineBreak c) :
    Json.loads numbers (stripJsonFence (fenced tag text)).toList = Json.loads numbers text.toList ↔
      ¬ text.toList.any Json.isSeparator := by
  have hsolid : Solid text.toList := solid_of_strip hstrip (ne_empty_of_loads hloads)
  rw [stripJsonFence_fenced htag hsolid, String.toList_ofList]
  exact Json.loads_unifyLines hloads

/-- A text that is accepted is left as it is when it is bare; it means the same in a fenced block
exactly when it has none of the three line boundaries that a string may hold as they are. -/
theorem stripJsonFence_agrees_iff (hloads : (Json.loads numbers text.toList).isSome)
    (hstrip : strip text = text) (htag : ∀ c ∈ tag.toList, ¬ isLineBreak c) :
    stripJsonFence text = text ∧
      (Json.loads numbers (stripJsonFence (fenced tag text)).toList =
          Json.loads numbers text.toList ↔
        ¬ text.toList.any Json.isSeparator) :=
  ⟨stripJsonFence_bare hloads hstrip, loads_fenced_iff hloads hstrip htag⟩

/-- Number literals that stay texts. -/
def rawNumbers : Json.Numbers (List Char) (List Char) := ⟨some, some⟩

theorem stripJsonFence_agrees_relations :
    stripJsonFence "\x7b\"a\": [1, \"b\"]\x7d" = "\x7b\"a\": [1, \"b\"]\x7d" ∧
      Json.loads rawNumbers
          (stripJsonFence (fenced "json" "\x7b\"a\": [1, \"b\"]\x7d")).toList =
        Json.loads rawNumbers "\x7b\"a\": [1, \"b\"]\x7d".toList := by
  have hagrees := @stripJsonFence_agrees_iff "json" "\x7b\"a\": [1, \"b\"]\x7d" _ _ rawNumbers
    (by decide) (by decide) (by simp [isLineBreak])
  exact ⟨hagrees.1, hagrees.2.mpr (by decide)⟩

/-- A line separator in a string: the bare text is accepted, the fenced one is not. -/
theorem fenced_separator_refused :
    (Json.loads rawNumbers "\x7b\"a\": \"b\u2028c\"\x7d".toList).isSome ∧
      strip "\x7b\"a\": \"b\u2028c\"\x7d" = "\x7b\"a\": \"b\u2028c\"\x7d" ∧
      Json.loads rawNumbers
        (stripJsonFence (fenced "json" "\x7b\"a\": \"b\u2028c\"\x7d")).toList ≠
      Json.loads rawNumbers "\x7b\"a\": \"b\u2028c\"\x7d".toList := by
  refine ⟨by decide, by decide, ?_⟩
  intro hsame
  exact (loads_fenced_iff (by decide) (by decide) (by simp [isLineBreak])).mp hsame (by decide)

end AgentWorx
