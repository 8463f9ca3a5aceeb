import AgentWorx.Apprentice.GapDetector
import AgentWorx.Lib.Text

/-!
# The question generator

`apprentice/question_generator.py`. The prompts are modelled by the values that go into them
(`Prompt`).
-/

namespace AgentWorx

open Coop

def highConfidenceThreshold : ℚ := 75 / 100

def knownConceptLimit : Nat := 20

/-- The rows of endpoints of the edges at or above the threshold. -/
def matchHighConfidence (threshold : ℚ) : Cypher (List ((String × String) × (String × String))) :=
  .query ["threshold"] [.concept, .relatesTo] fun g =>
    (g.relatesToRows.filter fun (_, r, _) => threshold ≤ r.confidence).map fun (a, _, b) =>
      ((a.id, a.label), (b.id, b.label))

/-- One endpoint of a row: its label is added unless it is excluded, empty or already there. -/
def addKnownConcept (excludeId : String) (concepts : List String) (endpoint : String × String) :
    List String :=
  if endpoint.1 = excludeId ∨ endpoint.2 = "" then concepts
  else if endpoint.2 ∈ concepts then concepts
  else concepts ++ [endpoint.2]

/-- The loop of `_get_high_confidence_concepts`: the limit is tested once for each row. -/
def collectKnownConcepts (excludeId : String) (limit : Nat) :
    List ((String × String) × (String × String)) → List String → List String
  | [], concepts => concepts
  | row :: rows, concepts =>
    if concepts.length < limit then
      collectKnownConcepts excludeId limit rows
        (addKnownConcept excludeId (addKnownConcept excludeId concepts row.1) row.2)
    else concepts

def getHighConfidenceConcepts (agentType excludeId : String) (threshold : ℚ) (limit : Nat) :
    Py (List String) := do
  let rows ← execute agentType (matchHighConfidence threshold) ["threshold"]
  return collectKnownConcepts excludeId limit rows []

def removeKnownConceptMentions (fold : Char → Char) (question : String)
    (knownConcepts : List String) : String :=
  Text.strip (knownConcepts.foldl (fun cleaned concept =>
    Text.subIgnoreCase fold concept "the already covered concept" cleaned) question)

/-- `_extract_text` of the reply to a prompt -/
def extractText (prompt : Prompt) : Py String := do
  let text ← messagesCreate prompt
  return Text.strip text

def generateQuestion (agentType agentGoal taskBoundary : String) : Py QuestionGeneratorResult := do
  let gapResult ← detectGaps agentType
  match gapResult.gaps with
  | [] => throw (.noGapsRemaining agentType)
  | topGap :: _ =>
    let knownConcepts ← getHighConfidenceConcepts agentType topGap.conceptId
      highConfidenceThreshold knownConceptLimit
    let questionText ← extractText (.question agentGoal taskBoundary topGap knownConcepts)
    let w ← get
    return {
      agentTypeId := agentType
      question := removeKnownConceptMentions w.env.foldCase questionText knownConcepts
      targetingGap := topGap
      isFollowup := false }

def generateFollowup (agentType taskBoundary originalQuestion ambiguousAnswer : String)
    (targetingGap : KnowledgeGap) : Py QuestionGeneratorResult := do
  let questionText ← extractText (.followup taskBoundary originalQuestion ambiguousAnswer)
  return {
    agentTypeId := agentType
    question := if questionText = originalQuestion then s!"Could you clarify: {ambiguousAnswer}?"
      else questionText
    targetingGap := targetingGap
    isFollowup := true }

end AgentWorx
