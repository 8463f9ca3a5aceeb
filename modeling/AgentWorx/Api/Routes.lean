import AgentWorx.Apprentice.QuestionGenerator
import AgentWorx.Apprentice.GraphWriter
import AgentWorx.Apprentice.ReadinessScorer
import AgentWorx.Apprentice.Cert1Service
import AgentWorx.Apprentice.Simulation.SessionManager
import AgentWorx.Lib.EventLoop

/-!
# The requests

The route handlers of `api/routes`, as one type of requests with one coroutine each. A body that a
route does not validate is modelled by what the handler reads from it: a missing key is an absent
value, and what a pydantic model makes of a nested object is given as its outcome.
`Request.generateProposal` has no route: it is the service call that makes the first proposal.
-/

namespace AgentWorx

open Coop

/-- Hand an exception on with the status code the route gives it. -/
def toHttp (status : Exn → Option Nat) (e : Exn) : Exn :=
  match status e with
  | some code => .http code e.message
  | none => e

/-- `try: … except … as exc: raise HTTPException(…)` around a coroutine. -/
def withHttp {α : Type} (status : Exn → Option Nat) (p : Coro α) : Coro α :=
  tryCatch p fun e => throw (toHttp status e)

/-! ## Agent types and questions -/

/-- `POST /agent-types`. The payload has at least one topic, so the check for an empty list never
applies. -/
def create (payload : AgentTypeCreate) : Coro AgentTypeResponse :=
  withHttp (fun
    | .agentTypeAlreadyExists _ => some 409
    | _ => some 500) (createAgentType payload)

/-- The phase check of the two Q&A routes. -/
def requireApprentice (agent : AgentTypeResponse) : Except Exn Unit :=
  if agent.phase ≠ .apprentice then
    .error (.http 409 s!"Agent is in {agent.phase.value} phase, not apprentice")
  else .ok ()

inductive NextQuestion where
  | question (result : QuestionGeneratorResult)
  | noGapsRemaining (agentType : String)

/-- `POST /agent-types/{id}/qa/question` -/
def getNextQuestion (agentTypeId : String) : Coro NextQuestion := do
  let agent ← getAgentTypeByName agentTypeId
  liftExcept (requireApprentice agent)
  let generated : Py NextQuestion :=
    tryCatch (.question <$> generateQuestion agent.name agent.goal agent.taskBoundary) fun
      | .noGapsRemaining agentType => return .noGapsRemaining agentType
      | e => throw e
  generated

/-- `GET /agent-types/{id}/readiness` -/
def getReadiness (agentTypeId : String) : Coro ReadinessScore := do
  let agent ← getAgentTypeByName agentTypeId
  computeAndStore agent.name

/-- The body of an answer: the text `str(body.get("answer", ""))`, and the question, answer and gap
context that `AnswerProcessorInput` reads and validates. -/
structure AnswerBody where
  answerText : String
  payload : Except Exn (String × String × KnowledgeGap)

structure AnswerResponse where
  result : AnswerProcessorResult
  readinessScore : Option ReadinessScore

/-- What `submit_answer` does once the payload is there. -/
def handleAnswer (agent : AgentTypeResponse) (payload : AnswerProcessorInput) :
    Py AnswerResponse := do
  let result ← processAnswer payload
  match result.status with
  | .write =>
    let _ ← writeToGraph agent.name result false
    let score ← computeAndStore agent.name
    return ⟨result, some score⟩
  | .followUp =>
    let followup ← generateFollowup agent.name agent.taskBoundary payload.question payload.answer
      payload.gapContext
    return ⟨{ result with followUpQuestion := some followup.question }, none⟩
  | .conflict => return ⟨result, none⟩

/-- `POST /agent-types/{id}/qa/answer` -/
def submitAnswer (agentTypeId : String) (body : AnswerBody) : Coro AnswerResponse := do
  let agent ← getAgentTypeByName agentTypeId
  liftExcept (requireApprentice agent)
  if Text.strip body.answerText = "" then
    throw (.http 400 "answer must not be empty")
  else
    match body.payload with
    | .error e => throw e
    | .ok (question, answer, gapContext) =>
      handleAnswer agent ⟨agent.name, question, answer, gapContext⟩

/-! ## Proposals -/

/-- `GET /agent-types/{id}/proposal` -/
def getProposal (agentTypeId : String) : Coro (Option ProposalArtifact) := do
  let agent ← getAgentTypeByName agentTypeId
  let proposal ← getLatestProposal agent.name
  match proposal with
  | none => return none
  | some proposal =>
    let ready ← redisGet (agentProposalReadyKey agent.name)
    return if ready = some (.text "true") then some proposal else none

/-- The body of a review: each key may be absent, and `edits` is what
`ProposalArtifact.model_validate` makes of it. -/
structure ReviewBody where
  action : Option String
  expertId : Option TextParam
  edits : Except Exn ProposalArtifact
  rejectionReason : Option TextParam

/-- `body[key]` -/
def ReviewBody.get (value : Option TextParam) (key : String) : Except Exn TextParam :=
  match value with
  | some v => .ok v
  | none => .error (.keyError key)

/-- The three branches of `review_proposal`. -/
def handleReview (agent : AgentTypeResponse) (body : ReviewBody) : Coro ProposalArtifact :=
  match body.action with
  | some "approve" => do
    let expertId ← liftExcept (ReviewBody.get body.expertId "expert_id")
    approveProposal agent.name expertId
  | some "edit" => do
    let expertId ← liftExcept (ReviewBody.get body.expertId "expert_id")
    let edits ← liftExcept body.edits
    editProposal agent.name expertId edits
  | some "reject" => do
    let rejectionReason ← liftExcept (ReviewBody.get body.rejectionReason "rejection_reason")
    rejectProposal agent.name rejectionReason agent.goal agent.taskBoundary agent.topologyType
      agent.workflowParticipants
  | _ => throw (.http 400 "action must be one of: approve, edit, reject")

/-- `PUT /agent-types/{id}/proposal` -/
def reviewProposal (agentTypeId : String) (body : ReviewBody) : Coro ProposalArtifact := do
  let agent ← getAgentTypeByName agentTypeId
  withHttp (fun
    | .noProposalFound _ => some 404
    | .proposalAlreadyApproved _ _ => some 409
    | _ => none) (handleReview agent body)

/-! ## Simulations -/

/-- `POST /simulations` -/
def createSession (agentTypeId : String) : Coro SimulationSession :=
  withHttp (fun
    | .valueError _ => some 409
    | _ => none) (startSession agentTypeId)

/-- The status codes of the session routes other than closing. -/
def sessionStatus : Exn → Option Nat
  | .sessionNotFound _ => some 404
  | .sessionPausedForViolation _ _ => some 409
  | .valueError _ => some 400
  | .indexError _ => some 400
  | _ => none

/-- `GET /simulations/{id}` -/
def readSession (sessionId : String) : Coro SimulationSession :=
  withHttp sessionStatus (getSession sessionId)

/-- `POST /simulations/{id}/turn` -/
def postTurn (sessionId : String) (turnInput : SimulationTurnInput) (toAgent : String)
    (messageFields : List String) : Coro SimulationTurnResult :=
  withHttp sessionStatus (submitTurn sessionId turnInput toAgent messageFields)

/-- `POST /simulations/{id}/violations/{index}/resolve` -/
def resolveTurnViolation (sessionId : String) (violationIndex : Int) (resolution : String)
    (clarification : Option String) : Coro ResolveResult :=
  withHttp sessionStatus (resolveViolation sessionId violationIndex resolution clarification)

/-- `POST /simulations/{id}/close` -/
def close (sessionId : String) : Coro CloseResult :=
  withHttp (fun
    | .sessionNotFound _ => some 404
    | .valueError _ => some 409
    | _ => none) (closeSession sessionId)

/-! ## Certification -/

/-- `GET /agent-types/{id}/cert1-status` -/
def cert1Status (agentTypeId : String) : Coro Cert1Status := do
  let agent ← getAgentTypeByName agentTypeId
  getCert1Status agent.name

/-- The status code of the two decision routes. -/
def certDecisionStatus : Exn → Option Nat
  | .agentNotInPhase _ _ _ => some 409
  | _ => none

/-- `POST /agent-types/{id}/cert1/approve` -/
def cert1Approve (agentTypeId : String) (body : CertApproveRequest) : Coro Cert1Approval := do
  let agent ← getAgentTypeByName agentTypeId
  withHttp certDecisionStatus (approveCert1 agent.name body)

/-- `POST /agent-types/{id}/cert1/reject` -/
def cert1Reject (agentTypeId : String) (body : CertRejectRequest) : Coro Cert1Rejection := do
  let agent ← getAgentTypeByName agentTypeId
  withHttp certDecisionStatus (rejectCert1 agent.name body)

/-! ## Requests -/

inductive Request where
  | create (payload : AgentTypeCreate)
  | question (agentTypeId : String)
  | readiness (agentTypeId : String)
  | answer (agentTypeId : String) (body : AnswerBody)
  | getProposal (agentTypeId : String)
  | generateProposal (agentType agentGoal taskBoundary : String)
      (declaredTopology : TopologyType) (workflowParticipants : List String)
  | reviewProposal (agentTypeId : String) (body : ReviewBody)
  | createSession (agentTypeId : String)
  | readSession (sessionId : String)
  | turn (sessionId : String) (turnInput : SimulationTurnInput) (toAgent : String)
      (messageFields : List String)
  | resolve (sessionId : String) (violationIndex : Int) (resolution : String)
      (clarification : Option String)
  | close (sessionId : String)
  | cert1Status (agentTypeId : String)
  | cert1Approve (agentTypeId : String) (body : CertApproveRequest)
  | cert1Reject (agentTypeId : String) (body : CertRejectRequest)

/-- The body of a successful response. -/
inductive Response where
  | agentType (response : AgentTypeResponse)
  | question (response : NextQuestion)
  | readiness (score : ReadinessScore)
  | answer (response : AnswerResponse)
  | proposal (artifact : Option ProposalArtifact)
  | session (session : SimulationSession)
  | turn (result : SimulationTurnResult)
  | resolve (result : ResolveResult)
  | close (result : CloseResult)
  | cert1Status (status : Cert1Status)
  | cert1Approval (approval : Cert1Approval)
  | cert1Rejection (rejection : Cert1Rejection)

def Request.handle : Request → Coro Response
  | .create payload => do return .agentType (← AgentWorx.create payload)
  | .question agentTypeId => do return .question (← getNextQuestion agentTypeId)
  | .readiness agentTypeId => do return .readiness (← getReadiness agentTypeId)
  | .answer agentTypeId body => do return .answer (← submitAnswer agentTypeId body)
  | .getProposal agentTypeId => do return .proposal (← AgentWorx.getProposal agentTypeId)
  | .generateProposal agentType agentGoal taskBoundary declaredTopology workflowParticipants => do
    return .proposal (some (← AgentWorx.generateProposal agentType agentGoal taskBoundary
      declaredTopology workflowParticipants none))
  | .reviewProposal agentTypeId body => do
    return .proposal (some (← AgentWorx.reviewProposal agentTypeId body))
  | .createSession agentTypeId => do return .session (← AgentWorx.createSession agentTypeId)
  | .readSession sessionId => do return .session (← AgentWorx.readSession sessionId)
  | .turn sessionId turnInput toAgent messageFields => do
    return .turn (← postTurn sessionId turnInput toAgent messageFields)
  | .resolve sessionId violationIndex resolution clarification => do
    return .resolve (← resolveTurnViolation sessionId violationIndex resolution clarification)
  | .close sessionId => do return .close (← AgentWorx.close sessionId)
  | .cert1Status agentTypeId => do return .cert1Status (← AgentWorx.cert1Status agentTypeId)
  | .cert1Approve agentTypeId body => do
    return .cert1Approval (← AgentWorx.cert1Approve agentTypeId body)
  | .cert1Reject agentTypeId body => do
    return .cert1Rejection (← AgentWorx.cert1Reject agentTypeId body)

/-- The requests `requests`, all made, on the event loop of a process in state `w`. -/
abbrev serving {ι : Type} (w : World) (requests : ι → Request) : Loop host ι Response :=
  Loop.start w fun i => (requests i).handle

/-- The requests run one after another. -/
def runAll (requests : List Request) (w : World) : World :=
  requests.foldl (fun w request => (request.handle.runAlone w).2) w

/-- The process after the requests have been made one after another and each has succeeded; `none`
if one of them raises. -/
def completed : List Request → World → Option World
  | [], w => some w
  | request :: requests, w =>
    match request.handle.runAlone w with
    | (.ok _, w') => completed requests w'
    | (.error _, _) => none

end AgentWorx
