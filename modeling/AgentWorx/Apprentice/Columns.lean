import AgentWorx.Apprentice.ProposalReviewService
import AgentWorx.Core.Encoding

/-!
# The columns of a composition

`CompositionRow` holds the contracts of a version as they are. In the table they are JSON: the
INSERTs of `proposal_engine.py` and `proposal_review_service.py` write texts, the driver gives back
texts, and `_row_to_artifact` decodes them. `CompositionColumns` is the row at this level.
-/

namespace AgentWorx

open Json (Value)

variable {ι φ : Type}

/-- A row of `team_compositions` as the driver gives it: enumerations and JSON are texts. -/
structure CompositionColumns where
  id : UUID
  agentType : String
  version : Int
  topology : String
  agentList : String
  contracts : String
  rationale : Option String
  expertSignature : Option String
  signedAt : Option Int
  status : String
  createdAt : Int

/-! ## Writing -/

def agentsDump (agents : List AgentContract) : Value ι φ := .array (agents.map (·.modelDump))

def contractsDump (contracts : List HandoffContract) : Value ι φ :=
  .array (contracts.map (·.modelDump))

/-- The members of the column `rationale` that are there. -/
def Rationale.members (rationale : Rationale) : List (List Nat × Value ι φ) :=
  rationale.rationalePerAgent.toList.map (fun d => (codes "rationale_per_agent", jsonDict d)) ++
    rationale.rationalePerContract.toList.map
      (fun d => (codes "rationale_per_contract", jsonDict d)) ++
    rationale.rejectionReason.toList.map fun s => (codes "rejection_reason", jsonText s)

def Rationale.dump (rationale : Rationale) : Value ι φ := .object rationale.members

def dumpsText {numbers : Json.Numbers ι φ} (r : Json.Rendering numbers) (v : Value ι φ) : String :=
  String.ofList (Json.dumps r v)

/-- The parameters of the INSERT. -/
def CompositionRow.columns {numbers : Json.Numbers ι φ} (r : Json.Rendering numbers)
    (row : CompositionRow) : CompositionColumns where
  id := row.id
  agentType := row.agentType
  version := row.version
  topology := row.topology.value
  agentList := dumpsText r (agentsDump row.agentList)
  contracts := dumpsText r (contractsDump row.contracts)
  rationale := row.rationale.map fun rationale => dumpsText r rationale.dump
  expertSignature := row.expertSignature
  signedAt := row.signedAt
  status := row.status.value
  createdAt := row.createdAt

/-! ## Reading -/

/-- `_json_value(row["rationale"]) if row["rationale"] else {}` -/
def loadRationale (numbers : Json.Numbers ι φ) :
    Option String → Except Exn (List (List Nat × Value ι φ))
  | none | some "" => .ok []
  | some text => do
    match ← loadsText numbers text with
    | .object members => .ok members
    | _ => .error (.valueError "the object has no attribute 'get'")

/-- `_row_to_artifact` -/
def columnsToArtifact (numbers : Json.Numbers ι φ) (row : CompositionColumns) :
    Except Exn ProposalArtifact := do
  let rationale ← loadRationale numbers row.rationale
  let some topology := TopologyType.ofValue row.topology
    | .error (.valueError s!"'{row.topology}' is not a valid TopologyType")
  let agents ← (← elements (← loadsText numbers row.agentList)).mapM AgentContract.modelValidate
  let contracts ←
    (← elements (← loadsText numbers row.contracts)).mapM HandoffContract.modelValidate
  let some status := CompositionStatus.ofValue row.status
    | .error (.valueError s!"'{row.status}' is not a valid CompositionStatus")
  let rationalePerAgent ← optional "ProposalArtifact" rationale "rationale_per_agent" asDict ∅
  let rationalePerContract ← optional "ProposalArtifact" rationale "rationale_per_contract" asDict ∅
  return {
    id := row.id.toText
    agentTypeId := row.agentType
    version := row.version
    topology := topology
    agents := agents
    contracts := contracts
    rationalePerAgent := rationalePerAgent
    rationalePerContract := rationalePerContract
    status := status
    createdAt := asAwareUtc row.createdAt
    expertSignature := row.expertSignature
    signedAt := row.signedAt.map asAwareUtc }

end AgentWorx
