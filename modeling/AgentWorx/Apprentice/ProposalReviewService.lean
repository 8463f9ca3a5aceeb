import AgentWorx.Apprentice.ProposalEngine

/-!
# Review of proposals

`apprentice/proposal_review_service.py`: approval and rejection update the latest version in place,
an edit archives it and inserts the next one as approved. The guard `requireMutableLatest` reads the
latest row in a statement of its own.
-/

namespace AgentWorx

open Coop

/-- `_as_aware_utc` of a TIMESTAMP column -/
def asAwareUtc (micros : Int) : Datetime := ⟨micros, some 0⟩

/-- `_row_to_artifact` -/
def rowToArtifact (row : CompositionRow) : ProposalArtifact where
  id := row.id.toText
  agentTypeId := row.agentType
  version := row.version
  topology := row.topology
  agents := row.agentList
  contracts := row.contracts
  rationalePerAgent := (row.rationale.bind (·.rationalePerAgent)).getD ∅
  rationalePerContract := (row.rationale.bind (·.rationalePerContract)).getD ∅
  status := row.status
  createdAt := asAwareUtc row.createdAt
  expertSignature := row.expertSignature
  signedAt := row.signedAt.map asAwareUtc

def getLatestProposal (agentType : String) : Coro (Option ProposalArtifact) := do
  let row ← sql (.selectLatestComposition agentType)
  return row.map rowToArtifact

/-- The test of `_require_mutable_latest`. -/
def ProposalArtifact.Mutable (artifact : ProposalArtifact) : Prop :=
  ¬ (artifact.status = .approved ∨ artifact.expertSignature ≠ none)

instance (artifact : ProposalArtifact) : Decidable artifact.Mutable :=
  inferInstanceAs (Decidable (¬ _))

/-- `_require_mutable_latest` -/
def requireMutableLatest (agentType : String) : Coro ProposalArtifact := do
  let latest ← getLatestProposal agentType
  match latest with
  | none => throw (.noProposalFound agentType)
  | some latest =>
    if latest.Mutable then return latest
    else throw (.proposalAlreadyApproved agentType latest.version)

/-- The text of a parameter that the database has accepted. -/
def TextParam.toOption : TextParam → Option String
  | .text s => some s
  | _ => none

def approveProposal (agentType : String) (expertId : TextParam) : Coro ProposalArtifact := do
  let latest ← requireMutableLatest agentType
  let signedAt ← datetimeNow
  sql (.execute (.approveComposition expertId signedAt.micros agentType latest.version))
  return { latest with
    status := .approved, expertSignature := expertId.toOption, signedAt := some signedAt }

/-- The statements of the transaction of `edit_proposal`. The id of the edits is parsed when the
INSERT is issued, after the UPDATE. -/
def editTransaction (agentType : String) (expertId : TextParam) (edits : ProposalArtifact)
    (version : Int) (signedAt createdAt : Datetime) : List (Except Exn SqlWrite) :=
  [.ok (.archiveComposition agentType version),
    (parseUUID edits.id).map fun id =>
      .insertComposition
        (compositionRow id agentType (version + 1) edits .approved (some signedAt.micros)
          createdAt.micros)
        expertId]

def editProposal (agentType : String) (expertId : TextParam) (edits : ProposalArtifact) :
    Coro ProposalArtifact := do
  let latest ← requireMutableLatest agentType
  let signedAt ← datetimeNow
  let createdAt ← datetimeNow
  sql (.transaction (editTransaction agentType expertId edits latest.version signedAt createdAt))
  return { edits with
    agentTypeId := agentType, version := latest.version + 1, status := .approved,
    expertSignature := expertId.toOption, signedAt := some signedAt, createdAt := createdAt }

def rejectProposal (agentType : String) (rejectionReason : TextParam)
    (agentGoal taskBoundary : String) (declaredTopology : TopologyType)
    (workflowParticipants : List String) : Coro ProposalArtifact := do
  let latest ← requireMutableLatest agentType
  sql (.execute (.rejectComposition rejectionReason agentType latest.version))
  generateProposal agentType agentGoal taskBoundary declaredTopology workflowParticipants
    rejectionReason.toOption

end AgentWorx
