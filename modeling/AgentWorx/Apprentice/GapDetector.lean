import AgentWorx.Infra.World
import AgentWorx.Lib.Rounding

/-!
# The gap detector

`apprentice/gap_detector.py`: orphan concepts, concepts with weak outgoing edges, and unexplored
task concepts, in order of priority. Breadth is a bounded breadth-first search.
-/

namespace AgentWorx

open Coop

def lowConfidenceThreshold : ℚ := 4 / 10

def unexploredOutgoingEdgeTarget : Nat := 2

structure ConceptRecord where
  id : String
  label : String
  nspace : String
  deriving DecidableEq

structure EdgeRecord where
  sourceId : String
  targetId : String
  confidence : ℚ
  deriving DecidableEq

/-- `concepts[id] = record`: a repeated id keeps its place and takes the new record. -/
def setRecord (concepts : List ConceptRecord) (record : ConceptRecord) : List ConceptRecord :=
  if concepts.any (·.id = record.id) then
    concepts.map fun c => if c.id = record.id then record else c
  else concepts ++ [record]

def matchConcepts : Cypher (List ConceptRecord) :=
  .query [] [.concept] fun g => g.concepts.map fun c => ⟨c.id, c.label, c.nspace⟩

/-- `_load_concepts`, as the records in the order of the dict. -/
def loadConcepts (agentType : String) : Py (List ConceptRecord) := do
  let rows ← execute agentType matchConcepts []
  return rows.foldl setRecord []

def matchEdges : Cypher (List EdgeRecord) :=
  .query [] [.concept, .relatesTo] fun g =>
    g.relatesToRows.map fun (a, r, b) => ⟨a.id, b.id, r.confidence⟩

/-- `_load_edges` -/
def loadEdges (agentType : String) : Py (List EdgeRecord) := execute agentType matchEdges []

/-- `outgoing.get(id, [])` of `_group_outgoing_edges` -/
def outgoingEdges (edges : List EdgeRecord) (id : String) : List EdgeRecord :=
  edges.filter (·.sourceId = id)

/-- `incoming.get(id, [])` of `_group_incoming_edges` -/
def incomingEdges (edges : List EdgeRecord) (id : String) : List EdgeRecord :=
  edges.filter (·.targetId = id)

/-- The keys of `_group_outgoing_edges`, in the order of their first edge. -/
def outgoingKeys (edges : List EdgeRecord) : List String :=
  edges.foldl (fun keys e => if e.sourceId ∈ keys then keys else keys ++ [e.sourceId]) []

/-- `_namespace` -/
def gapNamespace (value : String) : GapNamespace :=
  if value = "coordination" then .coordination else .task

/-- `KnowledgeGap(…)` with its bound checks. -/
def makeGap (conceptId conceptLabel : String) (gapType : GapType) (severity : ℚ) (breadth : Nat)
    (priorityScore : ℚ) (nspace : GapNamespace) : Except Exn KnowledgeGap := do
  let severity ← Proportion.check "KnowledgeGap" severity
  if h : 0 ≤ priorityScore then
    return ⟨conceptId, conceptLabel, gapType, severity, breadth, priorityScore, nspace, h⟩
  else .error (.validationError "KnowledgeGap")

def findOrphanNodes (concepts : List ConceptRecord) (edges : List EdgeRecord) :
    Except Exn (List KnowledgeGap) :=
  (concepts.filter fun c =>
      (outgoingEdges edges c.id).isEmpty && (incomingEdges edges c.id).isEmpty).mapM fun c =>
    makeGap c.id c.label .orphan 1 0 0 (gapNamespace c.nspace)

/-- The weight of a queue entry: it outweighs all the entries one level deeper that it can add. -/
def queueWeight (edges : List EdgeRecord) (maxDepth : Nat) (entry : String × Nat) : Nat :=
  (edges.length + 1) ^ (maxDepth + 1 - entry.2)

/-- The loop of `_count_dependent_concepts`. An entry adds at most one entry for each edge, all one
level deeper, and only above the depth bound: the total weight of the queue decreases. -/
def countDependentLoop (edges : List EdgeRecord) (maxDepth : Nat) :
    List String → List (String × Nat) → List String
  | seen, [] => seen
  | seen, (currentId, depth) :: queue =>
    if currentId ∈ seen ∨ maxDepth < depth then
      countDependentLoop edges maxDepth seen queue
    else if depth = maxDepth then
      countDependentLoop edges maxDepth (currentId :: seen) queue
    else
      countDependentLoop edges maxDepth (currentId :: seen)
        (queue ++ (outgoingEdges edges currentId).map fun e => (e.targetId, depth + 1))
termination_by _ queue => (queue.map (queueWeight edges maxDepth)).sum
decreasing_by
  · have : 0 < queueWeight edges maxDepth (currentId, depth) := by
      simp only [queueWeight]; positivity
    simp only [List.map_cons, List.sum_cons]
    omega
  · have : 0 < queueWeight edges maxDepth (currentId, depth) := by
      simp only [queueWeight]; positivity
    simp only [List.map_cons, List.sum_cons]
    omega
  · have hdepth : depth ≤ maxDepth := not_lt.mp (not_or.mp ‹_›).2
    have hlen : (outgoingEdges edges currentId).length ≤ edges.length := List.length_filter_le ..
    have hsum : ((outgoingEdges edges currentId).map fun e =>
        queueWeight edges maxDepth (e.targetId, depth + 1)).sum =
          (outgoingEdges edges currentId).length * (edges.length + 1) ^ (maxDepth - depth) := by
      simp [queueWeight]
    have hpow : (edges.length + 1) ^ (maxDepth + 1 - depth) =
        (edges.length + 1) * (edges.length + 1) ^ (maxDepth - depth) := by
      rw [← Nat.pow_succ', ← Nat.succ_sub hdepth]
    have hpos : 0 < (edges.length + 1) ^ (maxDepth - depth) := by positivity
    simp only [List.map_append, List.map_map, List.sum_append, List.map_cons, List.sum_cons,
      Function.comp_def, hsum]
    have hw : queueWeight edges maxDepth (currentId, depth) =
        (edges.length + 1) * (edges.length + 1) ^ (maxDepth - depth) := hpow
    rw [hw, add_mul, one_mul]
    have := Nat.mul_le_mul_right ((edges.length + 1) ^ (maxDepth - depth)) hlen
    omega

def countDependentConcepts (conceptId : String) (edges : List EdgeRecord) (maxDepth : Nat) : Nat :=
  (countDependentLoop edges maxDepth []
    ((outgoingEdges edges conceptId).map fun e => (e.targetId, 1))).length

/-- `max_depth` of `_count_dependent_concepts` -/
def defaultMaxDepth : Nat := 3

/-- The minimum of the confidences of a non-empty list of edges. -/
def minConfidence : EdgeRecord → List EdgeRecord → ℚ
  | e, es => es.foldl (fun m e => min m e.confidence) e.confidence

def findLowConfidenceEdges (concepts : List ConceptRecord) (edges : List EdgeRecord)
    (threshold : ℚ) : Except Exn (List KnowledgeGap) :=
  (outgoingKeys edges).foldlM (fun gaps conceptId =>
    match (outgoingEdges edges conceptId).filter (·.confidence < threshold) with
    | [] => .ok gaps
    | lowEdge :: lowEdges =>
      match concepts.find? (·.id = conceptId) with
      | none => .error (.keyError conceptId)
      | some concept => do
        let severity := roundHalfEven 3 (1 - minConfidence lowEdge lowEdges)
        let breadth := countDependentConcepts conceptId edges defaultMaxDepth
        let gap ← makeGap concept.id concept.label .lowConfidence severity breadth
          (roundHalfEven 3 (severity * breadth)) (gapNamespace concept.nspace)
        return gaps ++ [gap]) []

def findUnexploredBranches (concepts : List ConceptRecord) (edges : List EdgeRecord) :
    Except Exn (List KnowledgeGap) :=
  concepts.foldlM (fun gaps concept =>
    let outgoingCount := (outgoingEdges edges concept.id).length
    if concept.nspace ≠ "task" then .ok gaps
    else if outgoingCount = 0 ∧ (incomingEdges edges concept.id).isEmpty then .ok gaps
    else if unexploredOutgoingEdgeTarget ≤ outgoingCount then .ok gaps
    else do
      let severity : ℚ := 1 / 2 + 1 / 2 * (1 - outgoingCount / unexploredOutgoingEdgeTarget)
      let breadth := max (countDependentConcepts concept.id edges defaultMaxDepth) 1
      let gap ← makeGap concept.id concept.label .unexplored (roundHalfEven 3 severity) breadth
        (roundHalfEven 3 (severity * breadth)) .task
      return gaps ++ [gap]) []

/-- `all_gaps.sort(key=priority_score, reverse=True)`: descending, and stable. -/
def sortGaps (gaps : List KnowledgeGap) : List KnowledgeGap :=
  gaps.mergeSort fun a b => decide (b.priorityScore ≤ a.priorityScore)

def detectGaps (agentType : String) : Py GapDetectorResult := do
  let concepts ← loadConcepts agentType
  let edges ← loadEdges agentType
  let orphans ← liftExcept (findOrphanNodes concepts edges)
  let lowConfidence ← liftExcept (findLowConfidenceEdges concepts edges lowConfidenceThreshold)
  let unexplored ← liftExcept (findUnexploredBranches concepts edges)
  return {
    agentTypeId := agentType
    gaps := sortGaps (orphans ++ lowConfidence ++ unexplored)
    totalNodes := concepts.length
    orphanCount := orphans.length
    lowConfidenceCount := lowConfidence.length
    unexploredCount := unexplored.length }

end AgentWorx
