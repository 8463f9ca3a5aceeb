import AgentWorx.Infra.RedisClient

/-!
# The agent type registry

`core/agent_type_service.py`. Creation publishes the row first and then, in one segment, builds the
graph and writes the Redis keys; if that segment raises, its rollback deletes the keys and the root
concepts and then awaits the deletion of the row.
-/

namespace AgentWorx

open Coop

/-- `CREATE (:Concept {…})`: the id is the primary key. -/
def createConcept (concept : Concept) : Cypher Unit where
  mentions := ["id", "label", "created_at"]
  tables := [.concept]
  eval g :=
    if g.concepts.any (·.id = concept.id) then
      .error (.kuzuError "Found duplicated primary key value.")
    else .ok ((), { g with concepts := g.concepts ++ [concept] })

/-- `MATCH (c:Concept {id: $id}) DELETE c`: a node with edges is refused. -/
def deleteConcept (id : String) : Cypher Unit where
  mentions := ["id"]
  tables := [.concept]
  eval g :=
    if g.relatesTo.any (fun r => r.source = id ∨ r.target = id) then
      .error (.kuzuError "Node has connected edges and cannot be deleted.")
    else .ok ((), { g with concepts := g.concepts.filter (·.id ≠ id) })

/-- The topic loop of the `try` block. It returns the ids of the root concepts created so far, and
the exception that ended it early. -/
def createRootConcepts (name : String) (now : Datetime) :
    List String → Nat → List String → Py (List String × Option Exn)
  | [], _, createdConceptIds => return (createdConceptIds, none)
  | topic :: topics, index, createdConceptIds => do
    let u ← uuid4
    let conceptId := s!"root-{index}-{u.hexPrefix 8}"
    let r : Option Exn ←
      tryCatch
        (do
          execute name (createConcept ⟨conceptId, topic, "task", 0, now⟩)
            ["id", "label", "created_at"]
          return none)
        (fun e => return some e)
    match r with
    | none => createRootConcepts name now topics (index + 1) (createdConceptIds ++ [conceptId])
    | some e => return (createdConceptIds, some e)

/-- The body of the `try` block: the root concepts that were created, and the exception raised. -/
def initializeAgentType (payload : AgentTypeCreate) : Py (List String × Option Exn) := do
  let r : Option Exn ←
    tryCatch (do initializeSchema payload.name; return none) (fun e => return some e)
  match r with
  | some e => return ([], some e)
  | none =>
    let now ← datetimeUtcnow
    let (createdConceptIds, raised) ← createRootConcepts payload.name now payload.topicList 0 []
    match raised with
    | some e => return (createdConceptIds, some e)
    | none =>
      let r : Option Exn ←
        tryCatch
          (do
            redisSet (agentPhaseKey payload.name) (.text Phase.apprentice.value)
            redisSet (agentLearningRateKey payload.name) (.float 1)
            redisSet (agentReadinessScoreKey payload.name) (.float 0)
            return none)
          (fun e => return some e)
      return (createdConceptIds, r)

/-- The part of the `except` block before the row is deleted. -/
def rollbackAgentType (name : String) (createdConceptIds : List String) : Py Unit := do
  [agentPhaseKey name, agentLearningRateKey name, agentReadinessScoreKey name].forM redisDelete
  createdConceptIds.forM fun conceptId => execute name (deleteConcept conceptId) ["id"]

def createAgentType (payload : AgentTypeCreate) : Coro AgentTypeResponse := do
  let agentTypeId ← uuid4
  let existing ← sql (.selectAgentTypeId payload.name)
  match existing with
  | some _ => throw (.agentTypeAlreadyExists payload.name)
  | none =>
    let createdAt ← datetimeUtcnow
    sql (.execute (.insertAgentType {
      id := agentTypeId
      name := payload.name
      goal := payload.goal
      taskBoundary := payload.taskBoundary
      topicList := payload.topicList
      topologyType := payload.topologyType
      workflowParticipants := payload.workflowParticipants
      createdAt := createdAt.micros }))
    let (createdConceptIds, raised) ← initializeAgentType payload
    match raised with
    | some e =>
      rollbackAgentType payload.name createdConceptIds
      sql (.execute (.deleteAgentType agentTypeId))
      throw e
    | none =>
      let now ← datetimeUtcnow
      return {
        agentTypeId := agentTypeId.toText
        name := payload.name
        goal := payload.goal
        taskBoundary := payload.taskBoundary
        topicList := payload.topicList
        topologyType := payload.topologyType
        workflowParticipants := payload.workflowParticipants
        phase := .apprentice
        learningRate := 1
        readinessScore := 0
        graphInitialized := true
        createdAt := now }

/-- `_row_to_response` -/
def rowToResponse (row : AgentTypeRow) : Py AgentTypeResponse := do
  let phase := RedisValue.orDefault (← redisGet (agentPhaseKey row.name))
    (.text Phase.apprentice.value)
  let learningRate ← liftExcept
    (RedisValue.orDefault (← redisGet (agentLearningRateKey row.name)) (.float 1)).toFloat
  let readiness ← liftExcept
    (RedisValue.orDefault (← redisGet (agentReadinessScoreKey row.name)) (.float 0)).toFloat
  let phase ← liftExcept phase.toPhase
  return {
    agentTypeId := row.id.toText
    name := row.name
    goal := row.goal
    taskBoundary := row.taskBoundary
    topicList := row.topicList
    topologyType := row.topologyType
    workflowParticipants := row.workflowParticipants
    phase := phase
    learningRate := learningRate
    readinessScore := readiness
    graphInitialized := true
    createdAt := ⟨row.createdAt, none⟩ }

def getAgentTypeByName (name : String) : Coro AgentTypeResponse := do
  let row ← sql (.selectAgentTypeByName name)
  match row with
  | none => throw (.agentTypeNotFound name)
  | some row => rowToResponse row

end AgentWorx
