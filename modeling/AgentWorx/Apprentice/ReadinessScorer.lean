import AgentWorx.Infra.RedisClient
import AgentWorx.Lib.Rounding

/-!
# The readiness scorer

`apprentice/readiness_scorer.py`: a weighted sum of coverage, density and mean confidence of the
graph, cached in Redis together with the two readiness flags.
-/

namespace AgentWorx

open Coop

def defaultProposalThreshold : ℚ := 55 / 100

def edgeDensityCap : ℚ := 5

/-- `_task_concept_ids` -/
def taskConceptIds (agentType : String) : Py (List String) :=
  execute agentType
    (.query [] [.concept] fun g =>
      ((g.concepts.filter (·.nspace = "task")).map (·.id)).dedup) []

def computeNodeCoverage (agentType : String) : Py ℚ := do
  let taskConcepts ← taskConceptIds agentType
  if taskConcepts.isEmpty then
    return 0
  else
    let covered ← execute agentType
      (.query [] [.concept, .relatesTo] fun g =>
        g.relatesToRows.flatMap fun (a, _, b) =>
          (if a.nspace = "task" then [a.id] else []) ++ (if b.nspace = "task" then [b.id] else []))
      []
    return (taskConcepts.filter (· ∈ covered)).length / taskConcepts.length

def computeEdgeDensity (agentType : String) : Py ℚ := do
  let nodeCount ← execute agentType (.query [] [.concept] fun g => g.concepts.length) []
  if nodeCount = 0 then
    return 0
  else
    let edgeCount ← execute agentType
      (.query [] [.concept, .relatesTo] fun g => g.relatesToRows.length) []
    return min ((edgeCount / nodeCount : ℚ) / edgeDensityCap) 1

def computeConfidenceMean (agentType : String) : Py ℚ := do
  let confidences ← execute agentType
    (.query [] [.concept, .relatesTo] fun g => g.relatesToRows.map fun (_, r, _) => r.confidence) []
  if confidences.isEmpty then return 0 else return confidences.sum / confidences.length

/-- `str(flag).lower()` -/
def flagText (flag : Bool) : RedisValue := .text (if flag then "true" else "false")

def computeAndStore (agentType : String) : Py ReadinessScore := do
  let nodeCoverage ← computeNodeCoverage agentType
  let edgeDensity ← computeEdgeDensity agentType
  let confidenceMean ← computeConfidenceMean agentType
  let score := roundHalfEven 4
    (40 / 100 * nodeCoverage + 35 / 100 * edgeDensity + 25 / 100 * confidenceMean)
  let w ← get
  let now ← datetimeNow
  let result : ReadinessScore := {
    agentTypeId := agentType
    score := ← liftExcept (Proportion.check "ReadinessScore" score)
    nodeCoverage := ← liftExcept (Proportion.check "ReadinessScore" (roundHalfEven 4 nodeCoverage))
    edgeDensity := ← liftExcept (Proportion.check "ReadinessScore" (roundHalfEven 4 edgeDensity))
    confidenceMean :=
      ← liftExcept (Proportion.check "ReadinessScore" (roundHalfEven 4 confidenceMean))
    proposalReady := w.env.proposalThreshold ≤ score
    certReady := w.env.cert1Threshold ≤ score
    computedAt := now }
  redisSet (agentReadinessScoreKey agentType) (.float result.score.val)
  redisSet (agentProposalReadyKey agentType) (flagText result.proposalReady)
  redisSet (agentCertReadyKey agentType) (flagText result.certReady)
  return result

end AgentWorx
