import AgentWorx.Apprentice.ProposalReviewService
import AgentWorx.Apprentice.Simulation.ContractValidator

/-!
# Simulation sessions

`apprentice/simulation/session_manager.py`. Sessions and their copies of the contracts live in the
memory of the process; `close_session` writes the contracts and the handoffs to the graph in one
segment and then awaits the insertion of the summary.
-/

namespace AgentWorx

open Coop

/-! ## Sessions in memory -/

/-- `_sessions[session_id] = session` -/
def putSession (sessionId : String) (session : SimulationSession) : Py Unit :=
  modify (World.setSession · sessionId session)

/-- `_session_agents[session_id] = agents` -/
def putSessionAgents (sessionId : String) (agents : List AgentContract) : Py Unit :=
  modify (World.setSessionAgents · sessionId agents)

/-- `_session_agents[session_id]` -/
def getSessionAgents (sessionId : String) : Py (List AgentContract) := do
  let w ← get
  match w.sessionAgents sessionId with
  | some agents => return agents
  | none => throw (.keyError sessionId)

def getSession (sessionId : String) : Py SimulationSession := do
  let w ← get
  match w.sessions sessionId with
  | some session => return session
  | none => throw (.sessionNotFound sessionId)

/-- A session as `start_session` makes it. -/
def newSession (id agentType : String) (compositionVersion : Int) (createdAt : Datetime) :
    SimulationSession where
  id := id
  agentTypeId := agentType
  compositionVersion := compositionVersion
  currentRole := none
  turnHistory := []
  objects := []
  observations := []
  coordNamespaceWrites := []
  status := .active
  createdAt := createdAt
  closedAt := none

/-- The segment of `start_session` after the proposal has been read. -/
def openSession (agentType : String) (proposal : ProposalArtifact) : Py SimulationSession := do
  let id ← uuid4
  let createdAt ← datetimeNow
  let session := newSession id.toText agentType proposal.version createdAt
  putSession session.id session
  putSessionAgents session.id proposal.agents
  return session

def startSession (agentType : String) : Coro SimulationSession := do
  let proposal ← getLatestProposal agentType
  match proposal with
  | none => throw (.valueError s!"No approved composition for '{agentType}'")
  | some proposal =>
    if proposal.status ≠ .approved then
      throw (.valueError s!"No approved composition for '{agentType}'")
    else openSession agentType proposal

/-! ## Turns -/

def pendingViolations (turn : SimulationTurnResult) : Nat :=
  turn.violations.countP (·.resolution = .pending)

/-- `_count_unresolved_violations`: only the last turn is counted. -/
def countUnresolvedViolations (session : SimulationSession) : Nat :=
  match session.turnHistory.getLast? with
  | none => 0
  | some turn => pendingViolations turn

/-- `_observations_for_turn` -/
def observationsForTurn (fromAgent toAgent : String) (turnIndex : Nat)
    (violations : List ContractViolation) : List SimulationObservation :=
  if violations = [] then
    [{ type := .learned, description := s!"{fromAgent} -> {toAgent}: message conforms"
       turnIndex := turnIndex, rolesInvolved := [fromAgent, toAgent], coordEdgeWritten := false }]
  else violations.map fun violation =>
    { type := .violation, description := violation.reason, turnIndex := turnIndex
      rolesInvolved := [violation.fromAgent, violation.toAgent], coordEdgeWritten := false }

/-- The turn that a message makes in a session, with references to its new observations. -/
def newTurn (session : SimulationSession) (agents : List AgentContract)
    (turnInput : SimulationTurnInput) (toAgent : String) (messageFields : List String) :
    SimulationTurnResult × List SimulationObservation :=
  let violations := validateMessage messageFields turnInput.role toAgent agents
  let turnIndex := session.turnHistory.length
  let observations := observationsForTurn turnInput.role toAgent turnIndex violations
  ({ turnIndex := turnIndex
     role := turnInput.role
     message := turnInput.message
     violations := violations
     observations := List.range' session.objects.length observations.length
     pausedForViolation := !violations.isEmpty }, observations)

/-- The session after a turn has been appended. -/
def SimulationSession.addTurn (session : SimulationSession) (turn : SimulationTurnResult)
    (observations : List SimulationObservation) : SimulationSession :=
  { session with
    turnHistory := session.turnHistory ++ [turn]
    objects := session.objects ++ observations
    observations := session.observations ++ turn.observations
    currentRole := some turn.role }

def submitTurn (sessionId : String) (turnInput : SimulationTurnInput) (toAgent : String)
    (messageFields : List String) : Py SimulationTurnResult := do
  let session ← getSession sessionId
  if session.status = .closed then
    throw (.valueError s!"Session '{sessionId}' is closed")
  else
    let unresolved := countUnresolvedViolations session
    if unresolved ≠ 0 then
      throw (.sessionPausedForViolation sessionId unresolved)
    else
      let agents ← getSessionAgents sessionId
      let (turn, observations) := newTurn session agents turnInput toAgent messageFields
      putSession sessionId (session.addTurn turn observations)
      return turn

/-! ## Resolutions -/

/-- `list[index]`: a negative index counts from the end; `none` where Python raises `IndexError`. -/
def pyIndex (length : Nat) (index : Int) : Option Nat :=
  if 0 ≤ index then if index < length then some index.toNat else none
  else if 0 ≤ index + length then some (index + length).toNat else none

/-- The value that `violation.resolution = resolution` stores, for a resolution that
`apply_resolution` has accepted. -/
def Resolution.ofText (resolution : String) : Resolution :=
  if resolution = "mark_edge_case" then .markEdgeCase else .clarifyContract

/-- The test of the marking loop. -/
def SimulationObservation.Concerns (violation : ContractViolation)
    (observation : SimulationObservation) : Prop :=
  observation.type = .violation ∧ violation.fromAgent ∈ observation.rolesInvolved ∧
    violation.toAgent ∈ observation.rolesInvolved

instance (violation : ContractViolation) (observation : SimulationObservation) :
    Decidable (observation.Concerns violation) := inferInstanceAs (Decidable (_ ∧ _))

/-- The marking loop: it writes to the observation objects of the turn. -/
def markObservations (violation : ContractViolation) (refs : List ObservationRef)
    (objects : List SimulationObservation) : List SimulationObservation :=
  objects.mapIdx fun i observation =>
    if i ∈ refs ∧ observation.Concerns violation then { observation with coordEdgeWritten := true }
    else observation

/-- The last turn after the resolution of its violation at `index` has been set. -/
def SimulationTurnResult.resolveAt (turn : SimulationTurnResult) (index : Nat)
    (resolution : Resolution) : SimulationTurnResult :=
  let violations := turn.violations.modify index fun v => { v with resolution }
  { turn with
    violations := violations
    pausedForViolation := decide (0 < violations.countP (·.resolution = .pending)) }

/-- The session after `resolve_violation` has resolved `violation`, the one at `index` of its last
turn. -/
def SimulationSession.resolve (session : SimulationSession) (lastTurn : SimulationTurnResult)
    (index : Nat) (violation : ContractViolation) (resolution : String)
    (clarification : Option String) (coordEdgeWritten : Bool) : SimulationSession :=
  let session := { session with
    turnHistory := session.turnHistory.dropLast ++
      [lastTurn.resolveAt index (Resolution.ofText resolution)] }
  if coordEdgeWritten then
    { session with
      coordNamespaceWrites := session.coordNamespaceWrites ++
        [⟨violation.toAgent, violation.field, clarification.getD "", lastTurn.turnIndex⟩]
      objects := markObservations violation lastTurn.observations session.objects }
  else session

structure ResolveResult where
  resolved : Bool
  coordEdgeWritten : Bool
  deriving DecidableEq

def resolveViolation (sessionId : String) (violationIndex : Int) (resolution : String)
    (clarification : Option String) : Py ResolveResult := do
  let session ← getSession sessionId
  match session.turnHistory.getLast? with
  | none => throw (.valueError "No turns recorded yet")
  | some lastTurn =>
    if (lastTurn.violations.length : Int) ≤ violationIndex then
      throw (.indexError (s!"violation_index {violationIndex} out of range " ++
        s!"(turn has {lastTurn.violations.length} violations)"))
    else
      match pyIndex lastTurn.violations.length violationIndex with
      | none => throw (.indexError "list index out of range")
      | some index =>
        match lastTurn.violations[index]? with
        | none => throw (.indexError "list index out of range")
        | some violation =>
          let agents ← getSessionAgents sessionId
          let (updatedAgents, coordEdgeWritten) ←
            liftExcept (applyResolution violation resolution clarification agents)
          putSessionAgents sessionId updatedAgents
          putSession sessionId
            (session.resolve lastTurn index violation resolution clarification coordEdgeWritten)
          return ⟨true, coordEdgeWritten⟩

/-! ## Closing: the roles -/

/-- `MATCH (r:AgentRole) WHERE r.name = $name RETURN r.id` -/
def matchRoleByName (name : String) : Cypher (List String) :=
  .query ["name"] [.agentRole] fun g => (g.roles.filter (·.name = name)).map (·.id)

/-- The contract of a role is replaced, its name and id stay. -/
def AgentRole.setContract (role : AgentRole) (agent : AgentContract) : AgentRole :=
  { role with
    inputSchema := agent.inputSchema
    outputSchema := agent.outputSchema
    prohibitedFields := agent.prohibitedFields }

def Graph.setRole (g : Graph) (id : String) (agent : AgentContract) : Graph :=
  { g with roles := g.roles.map fun r => if r.id = id then r.setContract agent else r }

def Graph.addRole (g : Graph) (id : String) (agent : AgentContract) : Graph :=
  { g with roles := g.roles ++
      [⟨id, agent.agentName, agent.inputSchema, agent.outputSchema, agent.prohibitedFields⟩] }

/-- `MATCH (r:AgentRole) WHERE r.id = $id SET r.input_schema = …` -/
def setRole (id : String) (agent : AgentContract) : Cypher Unit :=
  .update ["id", "input_schema", "output_schema", "prohibited_fields"] [.agentRole]
    (·.setRole id agent)

/-- `CREATE (:AgentRole {…})`: the id is the primary key. -/
def createRole (id : String) (agent : AgentContract) : Cypher Unit where
  mentions := ["id", "name", "input_schema", "output_schema", "prohibited_fields"]
  tables := [.agentRole]
  eval g :=
    if g.roles.any (·.id = id) then
      .error (.kuzuError "Found duplicated primary key value.")
    else .ok ((), g.addRole id agent)

/-- The names of the parameter map of both branches: `{"id": …, **payload}`. -/
def rolePayload : List String :=
  ["id", "name", "input_schema", "output_schema", "prohibited_fields"]

/-- `f"role-{uuid.uuid4().hex[:12]}"` -/
def roleId (u : UUID) : String := s!"role-{u.hexPrefix 12}"

def upsertAgentRole (agentType : String) (agent : AgentContract) : Py Unit := do
  let rows ← execute agentType (matchRoleByName agent.agentName) ["name"]
  match rows.head? with
  | some id => execute agentType (setRole id agent) rolePayload
  | none =>
    let u ← uuid4
    execute agentType (createRole (roleId u) agent) rolePayload

/-! ## Closing: the handoffs -/

structure PairStats where
  clean : Nat
  total : Nat
  deriving DecidableEq

/-- `pair_stats.setdefault(pair, …)` and the two counters. -/
def countPair (pair : String × String) (isClean : Bool) :
    List ((String × String) × PairStats) → List ((String × String) × PairStats)
  | [] => [(pair, ⟨if isClean then 1 else 0, 1⟩)]
  | (p, stats) :: rest =>
    if p = pair then
      (p, ⟨stats.clean + if isClean then 1 else 0, stats.total + 1⟩) :: rest
    else (p, stats) :: countPair pair isClean rest

/-- The observation loop of `_write_handoff_edges`. -/
def pairStats (observations : List SimulationObservation) : List ((String × String) × PairStats) :=
  observations.foldl (fun stats observation =>
    match observation.rolesInvolved with
    | [fromRole, toRole] => countPair (fromRole, toRole) (observation.type = .learned) stats
    | _ => stats) []

/-- The observations of a turn, read through their references. -/
def SimulationSession.turnObservations (session : SimulationSession)
    (turn : SimulationTurnResult) : List SimulationObservation :=
  turn.observations.filterMap fun ref => session.objects[ref]?

/-- `MATCH (a:AgentRole)-[h:HANDS_OFF_TO]->(b:AgentRole) WHERE … RETURN h.confidence` -/
def matchHandoff (fromRole toRole : String) : Cypher (List ℚ) :=
  .query ["from_role", "to_role"] [.agentRole, .handsOffTo] fun g =>
    (g.handsOffToRows.filter fun (a, _, b) => a.name = fromRole ∧ b.name = toRole).map
      fun (_, h, _) => h.confidence

/-- The edge runs from a role named `fromRole` to one named `toRole`. -/
def Graph.handoffBetween (g : Graph) (fromRole toRole : String) (h : HandsOffTo) : Bool :=
  (g.role? h.source).any (·.name = fromRole) && (g.role? h.target).any (·.name = toRole)

/-- The same match with `SET h.confidence = $confidence` -/
def setHandoff (fromRole toRole : String) (confidence : ℚ) : Cypher Unit :=
  .update ["from_role", "to_role", "confidence"] [.agentRole, .handsOffTo] fun g =>
    { g with handsOffTo := g.handsOffTo.map fun h =>
        if g.handoffBetween fromRole toRole h then { h with confidence } else h }

/-- `MATCH (a:AgentRole), (b:AgentRole) WHERE … CREATE (a)-[:HANDS_OFF_TO {…}]->(b)` -/
def createHandoff (fromRole toRole : String) (confidence : ℚ) : Cypher Unit :=
  .update ["from_role", "to_role", "confidence"] [.agentRole, .handsOffTo] fun g =>
    { g with handsOffTo := g.handsOffTo ++
        ((g.roles.filter (·.name = fromRole)).flatMap fun a =>
          (g.roles.filter (·.name = toRole)).map fun b =>
            ⟨a.id, b.id, "observed during simulation", "[]", confidence⟩) }

def upsertHandoffEdge (agentType fromRole toRole : String) (confidence : ℚ) : Py Unit := do
  let rows ← execute agentType (matchHandoff fromRole toRole) ["from_role", "to_role"]
  match rows.head? with
  | some _ =>
    execute agentType (setHandoff fromRole toRole confidence)
      ["from_role", "to_role", "confidence"]
  | none =>
    execute agentType (createHandoff fromRole toRole confidence)
      ["from_role", "to_role", "confidence"]

/-- The share of clean observations of a pair, `stats["clean"] / stats["total"]`: a double. -/
def PairStats.confidence (stats : PairStats) : ℚ :=
  if stats.total ≠ 0 then toDouble (stats.clean / stats.total) else 0

/-- The pairs for which `_write_handoff_edges` writes an edge: those with a positive share. -/
def SimulationSession.handoffPairs (session : SimulationSession) :
    List ((String × String) × PairStats) :=
  (pairStats (session.turnHistory.flatMap session.turnObservations)).filter
    fun (_, stats) => 0 < stats.confidence

def writeHandoffEdges (agentType : String) (session : SimulationSession) : Py Nat := do
  session.handoffPairs.forM fun ((fromRole, toRole), stats) =>
    upsertHandoffEdge agentType fromRole toRole (pyRound 3 stats.confidence)
  return session.handoffPairs.length

/-! ## Closing -/

/-- The dict `close_session` returns. -/
structure CloseResult where
  sessionId : String
  coordEdgesWritten : Nat
  observationsCaptured : Nat
  violationsTotal : Nat
  violationsUnresolved : Nat
  deriving DecidableEq

def violationsTotal (session : SimulationSession) : Nat :=
  (session.turnHistory.map (·.violations.length)).sum

/-- `coord_edges_written` of the summary -/
def coordEdgesWritten (session : SimulationSession) : Nat :=
  session.coordNamespaceWrites.length + session.handoffPairs.length

/-- The summary row of a session closed at `closedAt`. -/
def summaryRow (sessionId : String) (session : SimulationSession) (closedAt : Datetime) :
    SummaryRow where
  agentType := session.agentTypeId
  sessionId := sessionId
  compositionVersion := session.compositionVersion
  coordEdgesWritten := coordEdgesWritten session
  observationsCaptured := session.observations.length
  violationsTotal := violationsTotal session
  violationsUnresolved := countUnresolvedViolations session
  closedAt := closedAt.micros

/-- The segment of `close_session` before the summary is inserted. -/
def flushSession (sessionId : String) : Py SummaryRow := do
  let session ← getSession sessionId
  if session.status = .closed then
    throw (.valueError s!"Session '{sessionId}' already closed")
  else
    let agents ← getSessionAgents sessionId
    agents.forM (upsertAgentRole session.agentTypeId)
    let edgesWritten ← writeHandoffEdges session.agentTypeId session
    let closedAt ← datetimeNow
    putSession sessionId { session with status := .closed, closedAt := some closedAt }
    return { summaryRow sessionId session closedAt with
      coordEdgesWritten := session.coordNamespaceWrites.length + edgesWritten }

def closeSession (sessionId : String) : Coro CloseResult := do
  let summary ← flushSession sessionId
  sql (.execute (.insertSimulationSessionSummary summary))
  return {
    sessionId := summary.sessionId
    coordEdgesWritten := summary.coordEdgesWritten
    observationsCaptured := summary.observationsCaptured
    violationsTotal := summary.violationsTotal
    violationsUnresolved := summary.violationsUnresolved }

end AgentWorx
