import AgentWorx.Infra.RedisClient

/-!
# The first certification gate

`apprentice/cert1_service.py`. An approval reads the phase, awaits the insertion of the event, and
then writes the phase: three steps.
-/

namespace AgentWorx

open Coop

/-- `JOURNEYMAN_LEARNING_RATE` -/
def journeymanLearningRate : ℚ := 1 / 2

/-- The agent type reads as a journeyman with the learning rate of one. -/
structure Graduated (w : World) (agentType : String) : Prop where
  phase : readPhase w.redis agentType = .text Phase.journeyman.value
  learningRate : readLearningRate w.redis agentType = .ok journeymanLearningRate

structure Cert1Status where
  readinessScore : ℚ
  simulationRunsCompleted : Nat
  violationsUnresolved : Nat
  certReady : Bool

def getCert1Status (agentType : String) : Coro Cert1Status := do
  let state ← getAgentState agentType
  let latest ← sql (.selectLatestViolationsUnresolved agentType)
  let violationsUnresolved := latest.getD 1
  let simulationRuns ← sql (.selectCountSummaries agentType)
  return {
    readinessScore := state.readinessScore
    simulationRunsCompleted := simulationRuns
    violationsUnresolved := violationsUnresolved
    certReady := state.certReady && violationsUnresolved = 0 }

/-- The row that `insert_cert_event` writes. -/
def CertEvent.toRow (event : CertEvent) : CertEventRow where
  id := event.id
  agentType := event.agentType
  gate := event.gate
  decision := event.decision
  expertId := event.expertId
  readinessScore := event.readinessScore
  notes := event.notes
  createdAt := event.createdAt.micros

def insertCertEvent (event : CertEvent) : Coro Unit :=
  sql (.execute (.insertCertEvent event.toRow))

/-- The phase check of both decisions, and the event that records the decision. -/
def openCertEvent (agentType : String) (decision : CertDecision) (expertId notes : String) :
    Py CertEvent := do
  let state ← getAgentState agentType
  if state.phase ≠ .text Phase.apprentice.value then
    let actual ← liftExcept state.phase.toPhase
    throw (.agentNotInPhase agentType .apprentice actual)
  else
    let id ← uuid4
    let createdAt ← datetimeNow
    return {
      id := id
      agentType := agentType
      gate := .cert1
      decision := decision
      expertId := expertId
      readinessScore := state.readinessScore
      notes := notes
      createdAt := createdAt }

structure Cert1Approval where
  certEventId : String
  previousPhase : Phase
  newPhase : Phase
  newLearningRate : ℚ

def approveCert1 (agentType : String) (request : CertApproveRequest) : Coro Cert1Approval := do
  let event ← openCertEvent agentType .approved request.expertId request.notes
  insertCertEvent event
  setAgentPhase agentType .journeyman journeymanLearningRate
  return {
    certEventId := event.id.toText
    previousPhase := .apprentice
    newPhase := .journeyman
    newLearningRate := journeymanLearningRate }

structure Cert1Rejection where
  certEventId : String
  phase : Phase

def rejectCert1 (agentType : String) (request : CertRejectRequest) : Coro Cert1Rejection := do
  let event ← openCertEvent agentType .rejected request.expertId request.reason
  insertCertEvent event
  return { certEventId := event.id.toText, phase := .apprentice }

end AgentWorx
