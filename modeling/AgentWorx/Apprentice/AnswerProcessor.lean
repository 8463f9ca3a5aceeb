import AgentWorx.Infra.World
import AgentWorx.Lib.Rounding
import AgentWorx.Lib.Text

/-!
# The answer processor

`apprentice/answer_processor.py`: an answer is extracted by the language model, and its relations
are checked one by one against the stored graph before anything is written.
-/

namespace AgentWorx

open Coop

def minWriteConfidence : ℚ := 1 / 2

/-- `_strip_json_fence`, of which `proposal_engine.py` has a copy. -/
def stripJsonFence (text : String) : String :=
  let stripped := Text.strip text
  if "```".toList.isPrefixOf stripped.toList then
    let lines := Text.splitLines stripped
    let lines :=
      match lines with
      | line :: rest => if "```".toList.isPrefixOf line.toList then rest else lines
      | [] => lines
    let lines :=
      match lines.getLast? with
      | some line => if Text.strip line = "```" then lines.dropLast else lines
      | none => lines
    Text.strip ("\n".intercalate lines)
  else stripped

/-- `_extract` -/
def extract (payload : AnswerProcessorInput) : Py Extraction := do
  let text ← messagesCreate (.extraction payload)
  let w ← get
  liftExcept (w.env.loadExtraction (stripJsonFence text))

/-- A row of the contradiction query: labels, relation and confidence. -/
structure ContradictionRow where
  source : String
  target : String
  relation : String
  confidence : ℚ
  deriving DecidableEq

/-- `CONTRADICTION_CHECK_QUERY` -/
def contradictionCheckQuery (sourceLabel relationType : String) : Cypher (List ContradictionRow) :=
  .query ["source_label", "relation_type"] [.concept, .relatesTo] fun g =>
    (g.relatesToRows.filter fun (a, r, _) =>
      a.label = sourceLabel ∧ r.relation ≠ relationType).map fun (a, r, b) =>
        ⟨a.label, b.label, r.relation, r.confidence⟩

/-- `f"{confidence:.2f}"` of a number that is not negative -/
def formatTwoDecimals (confidence : ℚ) : String :=
  let cents := (roundHalfEvenInt (confidence * 100)).toNat
  let fraction := toString (cents % 100)
  s!"{cents / 100}." ++ (if cents % 100 < 10 then "0" ++ fraction else fraction)

/-- The row loop: the first row that has the relation's target and enough confidence. -/
def findConflict (relation : ExtractedRelation) (rows : List ContradictionRow) :
    Option ContradictionRow :=
  rows.find? fun row => row.target = relation.target ∧ minWriteConfidence < row.confidence

def conflictDetail (relation : ExtractedRelation) (row : ContradictionRow) :
    Except Exn ConflictDetail := do
  let confidence ← Proportion.check "ConflictDetail" row.confidence
  return {
    existingSource := row.source
    existingTarget := row.target
    existingRelation := row.relation
    existingConfidence := confidence
    conflictDescription := s!"New answer implies '{relation.source}' {relation.relationType} " ++
      s!"'{relation.target}', but the graph already has '{row.source}' {row.relation} " ++
      s!"'{row.target}' at confidence {formatTwoDecimals row.confidence}." }

def checkContradictions (agentType : String) :
    List ExtractedRelation → Py (Option ConflictDetail)
  | [] => return none
  | relation :: relations => do
    let rows ← execute agentType
      (contradictionCheckQuery relation.source relation.relationType)
      ["source_label", "relation_type"]
    match findConflict relation rows with
    | some row => return some (← liftExcept (conflictDetail relation row))
    | none => checkContradictions agentType relations

def processAnswer (payload : AnswerProcessorInput) : Py AnswerProcessorResult := do
  let extraction ← extract payload
  let confidence ← liftExcept extraction.overallConfidence
  let isAmbiguous ← liftExcept extraction.isAmbiguous
  if isAmbiguous ∨ confidence < minWriteConfidence then
    let confidence ← liftExcept (Proportion.check "AnswerProcessorResult" confidence)
    return ⟨.followUp, [], [], confidence, none, none⟩
  else
    let entities ← liftExcept extraction.entities
    let relations ← liftExcept extraction.relations
    let conflict ← checkContradictions payload.agentTypeId relations
    let confidence ← liftExcept (Proportion.check "AnswerProcessorResult" confidence)
    match conflict with
    | some conflict => return ⟨.conflict, entities, relations, confidence, some conflict, none⟩
    | none => return ⟨.write, entities, relations, confidence, none, none⟩

end AgentWorx
