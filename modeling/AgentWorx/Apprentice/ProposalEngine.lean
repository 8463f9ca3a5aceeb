import AgentWorx.Apprentice.AnswerProcessor

/-!
# The proposal engine

`apprentice/proposal_engine.py`: the task graph is clustered by a union-find over its ordinary
edges, the language model proposes a team for the clusters, and the proposal is stored as the next
version.
-/

namespace AgentWorx

open Coop

def minClusterSize : Nat := 8

def crossClusterRelations : List String :=
  ["trigger", "triggers", "handoff", "hands_off_to", "passes_to", "routes_to"]

/-- `_is_cross_cluster_relation` -/
def isCrossClusterRelation (relation : String) : Bool :=
  relation.toLower ∈ crossClusterRelations

/-! ## Clusters -/

structure Cluster where
  id : String
  nodeIds : List String
  labels : List String
  deriving DecidableEq

/-- `_load_task_nodes`, as pairs of id and label; ids are primary keys. -/
def loadTaskNodes (agentType : String) : Py (List (String × String)) :=
  execute agentType
    (.query [] [.concept] fun g =>
      (g.concepts.filter (·.nspace = "task")).map fun c => (c.id, c.label)) []

/-- `_load_task_edges` -/
def loadTaskEdges (agentType : String) : Py (List (String × String × String)) :=
  execute agentType
    (.query [] [.concept, .relatesTo] fun g =>
      (g.relatesToRows.filter fun (a, _, b) => a.nspace = "task" ∧ b.nspace = "task").map
        fun (a, r, b) => (a.id, b.id, r.relation)) []

/-- The parent map of the union-find. -/
abbrev Parent := String → String

/-- `find`: walk to the root, pointing every visited node at its grandparent. `none` if the loop has
not ended after `fuel` rounds. -/
def findRoot : Nat → Parent → String → Option (String × Parent)
  | 0, _, _ => none
  | fuel + 1, parent, nodeId =>
    if parent nodeId = nodeId then some (nodeId, parent)
    else
      let parent := Function.update parent nodeId (parent (parent nodeId))
      findRoot fuel parent (parent nodeId)

/-- `union`: the root of `right` is attached to the root of `left`. -/
def unionNodes (fuel : Nat) (parent : Parent) (left right : String) : Option Parent := do
  let (leftRoot, parent) ← findRoot fuel parent left
  let (rightRoot, parent) ← findRoot fuel parent right
  return if leftRoot ≠ rightRoot then Function.update parent rightRoot leftRoot else parent

/-- The edge loop of `_find_clusters`. -/
def unionEdges (fuel : Nat) (ids : List String) :
    List (String × String × String) → Parent → Option Parent
  | [], parent => some parent
  | (sourceId, targetId, relation) :: edges, parent =>
    if isCrossClusterRelation relation then unionEdges fuel ids edges parent
    else if sourceId ∈ ids ∧ targetId ∈ ids then do
      unionEdges fuel ids edges (← unionNodes fuel parent sourceId targetId)
    else unionEdges fuel ids edges parent

/-- `groups.setdefault(root, []).append(node_id)` -/
def addToGroup (root nodeId : String) : List (String × List String) → List (String × List String)
  | [] => [(root, [nodeId])]
  | (r, members) :: groups =>
    if r = root then (r, members ++ [nodeId]) :: groups
    else (r, members) :: addToGroup root nodeId groups

/-- The grouping loop of `_find_clusters`. -/
def groupByRoot (fuel : Nat) :
    List String → Parent → List (String × List String) → Option (List (String × List String))
  | [], _, groups => some groups
  | nodeId :: ids, parent, groups => do
    let (root, parent) ← findRoot fuel parent nodeId
    groupByRoot fuel ids parent (addToGroup root nodeId groups)

/-- `nodes[node_id]` -/
def labelOf (nodes : List (String × String)) (nodeId : String) : String :=
  ((nodes.find? (·.1 = nodeId)).map (·.2)).getD ""

/-- The clusters of the groups: the large ones, and one for all the members of the small ones. -/
def clustersOfGroups (nodes : List (String × String)) (groups : List (String × List String)) :
    List Cluster :=
  let large := groups.filter fun (_, members) => minClusterSize ≤ members.length
  let generalIds :=
    (groups.filter fun (_, members) => members.length < minClusterSize).flatMap (·.2)
  large.map (fun (root, members) => ⟨root, members, members.map (labelOf nodes)⟩) ++
    if generalIds.isEmpty then [] else [⟨"general", generalIds, generalIds.map (labelOf nodes)⟩]

/-- The computation of `_find_clusters` on the nodes and edges it loads. -/
def clusterNodes (nodes : List (String × String)) (edges : List (String × String × String)) :
    Option (List Cluster) := do
  let ids := nodes.map (·.1)
  let fuel := ids.length + 1
  let parent ← unionEdges fuel ids edges id
  let groups ← groupByRoot fuel ids parent []
  return clustersOfGroups nodes groups

def findClusters (agentType : String) : Py (List Cluster) := do
  let nodes ← loadTaskNodes agentType
  if nodes.isEmpty then
    return []
  else
    let edges ← loadTaskEdges agentType
    match clusterNodes nodes edges with
    | some clusters => return clusters
    | none => throw (.valueError "a find loop has not ended")

/-! ## Handoff candidates -/

structure CrossEdge where
  sourceLabel : String
  sourceCluster : String
  targetLabel : String
  targetCluster : String
  relation : String
  deriving DecidableEq

/-- `node_to_cluster.get(node_id)`: the last cluster that lists the node. -/
def nodeToCluster (clusters : List Cluster) (nodeId : String) : Option String :=
  (clusters.reverse.find? (nodeId ∈ ·.nodeIds)).map (·.id)

def findCrossClusterEdges (agentType : String) (clusters : List Cluster) : Py (List CrossEdge) := do
  let rows ← execute agentType
    (.query [] [.concept, .relatesTo] fun g =>
      g.relatesToRows.filter fun (a, _, b) => a.nspace = "task" ∧ b.nspace = "task") []
  return rows.filterMap fun (a, r, b) =>
    match nodeToCluster clusters a.id, nodeToCluster clusters b.id with
    | some sourceCluster, some targetCluster =>
      if sourceCluster ≠ "" ∧ targetCluster ≠ "" ∧ sourceCluster ≠ targetCluster then
        some ⟨a.label, sourceCluster, b.label, targetCluster, r.relation⟩
      else none
    | _, _ => none

/-! ## Proposals -/

/-- `_validate_rationale_coverage` -/
def validateRationaleCoverage (artifact : ProposalArtifact) : Except Exn Unit :=
  let missingAgents := (artifact.agents.map (·.agentName)).filter
    (· ∉ artifact.rationalePerAgent)
  let missingContracts := (artifact.contracts.map fun c => s!"{c.fromAgent}->{c.toAgent}").filter
    (· ∉ artifact.rationalePerContract)
  if missingAgents ≠ [] ∨ missingContracts ≠ [] then
    .error (.valueError (s!"proposal rationale missing coverage for agents={missingAgents}, " ++
      s!"contracts={missingContracts}"))
  else .ok ()

/-- The row that the INSERT of `_persist_proposal` and `edit_proposal` writes for an artifact. -/
def compositionRow (id : UUID) (agentType : String) (version : Int) (artifact : ProposalArtifact)
    (status : CompositionStatus) (signedAt : Option Int) (createdAt : Int) : CompositionRow where
  id := id
  agentType := agentType
  version := version
  topology := artifact.topology
  agentList := artifact.agents
  contracts := artifact.contracts
  rationale := some ⟨some artifact.rationalePerAgent, some artifact.rationalePerContract, none⟩
  expertSignature := none
  signedAt := signedAt
  status := status
  createdAt := createdAt

/-- `uuid.UUID(text)` -/
def parseUUID (text : String) : Except Exn UUID :=
  match UUID.parse text with
  | some u => .ok u
  | none => .error (.valueError "badly formed hexadecimal UUID string")

/-- `_persist_proposal` -/
def persistProposal (agentType : String) (artifact : ProposalArtifact) : Coro ProposalArtifact := do
  let maxVersion ← sql (.selectMaxVersion agentType)
  let nextVersion := maxVersion.getD 0 + 1
  match parseUUID artifact.id with
  | .error e => throw e
  | .ok id =>
    sql (.execute (.insertComposition
      (compositionRow id agentType nextVersion artifact .proposed none artifact.createdAt.micros)
      .null))
    return { artifact with version := nextVersion }

/-- The part of `generate_proposal` before the proposal is stored. -/
def draftProposal (agentType agentGoal taskBoundary : String) (declaredTopology : TopologyType)
    (workflowParticipants : List String) (rejectionContext : Option String) :
    Py ProposalArtifact := do
  let clusters ← findClusters agentType
  let crossEdges ← findCrossClusterEdges agentType clusters
  let text ← messagesCreate (.proposal agentGoal taskBoundary declaredTopology workflowParticipants
    (clusters.map fun c => (c.id, c.labels))
    (crossEdges.map fun e => (e.sourceLabel, e.relation, e.targetLabel)) rejectionContext)
  let w ← get
  let parsed ← liftExcept (w.env.loadProposal (stripJsonFence text))
  let topology ← liftExcept parsed.topology
  let agents ← liftExcept parsed.agents
  let contracts ← liftExcept parsed.contracts
  let rationalePerAgent ← liftExcept parsed.rationalePerAgent
  let rationalePerContract ← liftExcept parsed.rationalePerContract
  let id ← uuid4
  let createdAt ← datetimeNow
  let artifact : ProposalArtifact := {
    id := id.toText
    agentTypeId := agentType
    version := 1
    topology := topology
    agents := agents
    contracts := contracts
    rationalePerAgent := rationalePerAgent
    rationalePerContract := rationalePerContract
    status := .proposed
    createdAt := createdAt
    expertSignature := none
    signedAt := none }
  liftExcept (validateRationaleCoverage artifact)
  return artifact

def generateProposal (agentType agentGoal taskBoundary : String) (declaredTopology : TopologyType)
    (workflowParticipants : List String) (rejectionContext : Option String) :
    Coro ProposalArtifact := do
  let artifact ← draftProposal agentType agentGoal taskBoundary declaredTopology
    workflowParticipants rejectionContext
  persistProposal agentType artifact

end AgentWorx
