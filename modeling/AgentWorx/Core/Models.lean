import AgentWorx.Core.Exceptions
import Mathlib.Data.List.AList
import Mathlib.Data.Rat.Floor

/-!
# The data model

The pydantic models of `core/models.py` that the modelled requests build, read or store. A bound
that a model declares on a field is a field of the structure here, so that a value outside it cannot
be built; `check` functions are where pydantic raises. Numbers are rationals (exact arithmetic), a
Python dict with text keys is an `AList`.
-/

namespace AgentWorx

/-- A dict from texts to texts. -/
abbrev Dict := AList fun _ : String => String

/-- A UUID: 32 hexadecimal digits. -/
structure UUID where
  digits : List (Fin 16)
  length_eq : digits.length = 32
  deriving DecidableEq

namespace UUID

def hexDigit (d : Fin 16) : Char :=
  if d.val < 10 then Char.ofNat (48 + d.val) else Char.ofNat (87 + d.val)

/-- `uuid.hex[:n]` -/
def hexPrefix (u : UUID) (n : Nat) : String := String.ofList ((u.digits.take n).map hexDigit)

/-- `str(uuid)`: the digits in groups of 8, 4, 4, 4 and 12. -/
def toText (u : UUID) : String :=
  let group (start n : Nat) := String.ofList (((u.digits.drop start).take n).map hexDigit)
  group 0 8 ++ "-" ++ group 8 4 ++ "-" ++ group 12 4 ++ "-" ++ group 16 4 ++ "-" ++ group 20 12

def ofHexChar (c : Char) : Option (Fin 16) :=
  if '0' ≤ c ∧ c ≤ '9' then some (Fin.ofNat 16 (c.toNat - 48))
  else if 'a' ≤ c ∧ c ≤ 'f' then some (Fin.ofNat 16 (c.toNat - 87))
  else if 'A' ≤ c ∧ c ≤ 'F' then some (Fin.ofNat 16 (c.toNat - 55))
  else none

/-- `text.replace(pattern, "")` on characters; `skip` characters of a match remain to be dropped. -/
def removeText (pattern : List Char) (skip : Nat) : List Char → List Char
  | [] => []
  | c :: cs =>
    if skip > 0 then removeText pattern (skip - 1) cs
    else if pattern.isPrefixOf (c :: cs) then removeText pattern (pattern.length - 1) cs
    else c :: removeText pattern 0 cs

/-- `uuid.UUID(text)`: the prefixes `urn:` and `uuid:`, enclosing braces and hyphens are dropped and
32 hexadecimal digits must remain; `none` where Python raises `ValueError`. The other spellings that
`int(digits, 16)` takes (a sign, `0x`, underscores) are left out. -/
def parse (text : String) : Option UUID := do
  let brace (c : Char) : Bool := c = '\x7b' ∨ c = '\x7d'
  let chars := removeText "uuid:".toList 0 (removeText "urn:".toList 0 text.toList)
  let chars := ((chars.dropWhile brace).reverse.dropWhile brace).reverse
  let digits ← (chars.filter (· ≠ '-')).mapM ofHexChar
  if h : digits.length = 32 then some ⟨digits, h⟩ else none

end UUID

/-- A datetime in microseconds; `tzinfo` is the offset from UTC, absent for a naive datetime. -/
structure Datetime where
  micros : Int
  tzinfo : Option Int
  deriving DecidableEq, Repr

/-- A number between 0 and 1 (`Field(..., ge=0.0, le=1.0)`). -/
def Proportion := { q : ℚ // 0 ≤ q ∧ q ≤ 1 }

namespace Proportion

instance : DecidableEq Proportion := inferInstanceAs (DecidableEq { q : ℚ // 0 ≤ q ∧ q ≤ 1 })

/-- The bound check of the pydantic model `model`. -/
def check (model : String) (q : ℚ) : Except Exn Proportion :=
  if h : 0 ≤ q ∧ q ≤ 1 then .ok ⟨q, h⟩ else .error (.validationError model)

end Proportion

/-! ## Agent types -/

structure AgentTypeCreate where
  name : String
  goal : String
  taskBoundary : String
  topicList : List String
  topologyType : TopologyType
  workflowParticipants : List String
  name_length : 1 ≤ name.length ∧ name.length ≤ 100
  goal_length : 10 ≤ goal.length ∧ goal.length ≤ 500
  taskBoundary_length : 10 ≤ taskBoundary.length ∧ taskBoundary.length ≤ 1000
  topicList_length : 1 ≤ topicList.length ∧ topicList.length ≤ 50

structure AgentTypeResponse where
  agentTypeId : String
  name : String
  goal : String
  taskBoundary : String
  topicList : List String
  topologyType : TopologyType
  workflowParticipants : List String
  phase : Phase
  learningRate : ℚ
  readinessScore : ℚ
  graphInitialized : Bool
  createdAt : Datetime

/-! ## Knowledge gaps, questions and answers -/

inductive GapType where
  | orphan | lowConfidence | unexplored
  deriving DecidableEq, Repr

inductive GapNamespace where
  | task | coordination
  deriving DecidableEq, Repr

structure KnowledgeGap where
  conceptId : String
  conceptLabel : String
  gapType : GapType
  severity : Proportion
  breadth : Nat
  priorityScore : ℚ
  nspace : GapNamespace
  priorityScore_nonneg : 0 ≤ priorityScore

structure GapDetectorResult where
  agentTypeId : String
  gaps : List KnowledgeGap
  totalNodes : Nat
  orphanCount : Nat
  lowConfidenceCount : Nat
  unexploredCount : Nat

structure QuestionGeneratorResult where
  agentTypeId : String
  question : String
  targetingGap : KnowledgeGap
  isFollowup : Bool

structure AnswerProcessorInput where
  agentTypeId : String
  question : String
  answer : String
  gapContext : KnowledgeGap

structure ExtractedEntity where
  label : String
  entityType : String
  confidence : Proportion
  deriving DecidableEq

structure ExtractedRelation where
  source : String
  target : String
  relationType : String
  confidence : Proportion
  deriving DecidableEq

structure ConflictDetail where
  existingSource : String
  existingTarget : String
  existingRelation : String
  existingConfidence : Proportion
  conflictDescription : String
  deriving DecidableEq

inductive AnswerStatus where
  | write | conflict | followUp
  deriving DecidableEq, Repr

structure AnswerProcessorResult where
  status : AnswerStatus
  entities : List ExtractedEntity
  relations : List ExtractedRelation
  confidence : Proportion
  conflict : Option ConflictDetail
  followUpQuestion : Option String
  deriving DecidableEq

structure ReadinessScore where
  agentTypeId : String
  score : Proportion
  nodeCoverage : Proportion
  edgeDensity : Proportion
  confidenceMean : Proportion
  proposalReady : Bool
  certReady : Bool
  computedAt : Datetime

/-! ## Team compositions -/

structure AgentContract where
  agentName : String
  inputSchema : Dict
  outputSchema : Dict
  prohibitedFields : List String

structure HandoffContract where
  fromAgent : String
  toAgent : String
  condition : String
  validates : List String
  rationale : String
  deriving DecidableEq

structure ProposalArtifact where
  id : String
  agentTypeId : String
  version : Int
  topology : TopologyType
  agents : List AgentContract
  contracts : List HandoffContract
  rationalePerAgent : Dict
  rationalePerContract : Dict
  status : CompositionStatus
  createdAt : Datetime
  expertSignature : Option String
  signedAt : Option Datetime

/-! ## Simulation sessions -/

structure SimulationTurnInput where
  role : String
  message : String
  role_length : 1 ≤ role.length
  message_length : 1 ≤ message.length ∧ message.length ≤ 4000

structure SimulationObservation where
  type : ObservationType
  description : String
  turnIndex : Nat
  rolesInvolved : List String
  coordEdgeWritten : Bool
  deriving DecidableEq

inductive Resolution where
  | pending | clarifyContract | markEdgeCase
  deriving DecidableEq, Repr

structure ContractViolation where
  field : String
  reason : String
  fromAgent : String
  toAgent : String
  resolution : Resolution
  deriving DecidableEq

/-- An observation object: its position in `SimulationSession.objects`. -/
abbrev ObservationRef := Nat

structure SimulationTurnResult where
  turnIndex : Nat
  role : String
  message : String
  violations : List ContractViolation
  observations : List ObservationRef
  pausedForViolation : Bool
  deriving DecidableEq

/-- One entry of `coord_namespace_writes`; its `type` is always `input_schema_update`. -/
structure CoordNamespaceWrite where
  agentName : String
  field : String
  fieldType : String
  turnIndex : Nat
  deriving DecidableEq

inductive SessionStatus where
  | active | closed
  deriving DecidableEq, Repr

/-- A session. The observations of a turn and those of the session are the same Python objects:
`objects` holds them, the two lists hold references. -/
structure SimulationSession where
  id : String
  agentTypeId : String
  compositionVersion : Int
  currentRole : Option String
  turnHistory : List SimulationTurnResult
  objects : List SimulationObservation
  observations : List ObservationRef
  coordNamespaceWrites : List CoordNamespaceWrite
  status : SessionStatus
  createdAt : Datetime
  closedAt : Option Datetime
  deriving DecidableEq

/-! ## Certification -/

structure CertEvent where
  id : UUID
  agentType : String
  gate : CertGate
  decision : CertDecision
  expertId : String
  readinessScore : ℚ
  notes : String
  createdAt : Datetime
  deriving DecidableEq

structure CertApproveRequest where
  expertId : String
  notes : String
  expertId_length : 1 ≤ expertId.length
  notes_length : notes.length ≤ 2000

structure CertRejectRequest where
  expertId : String
  reason : String
  expertId_length : 1 ≤ expertId.length
  reason_length : 10 ≤ reason.length ∧ reason.length ≤ 2000

end AgentWorx
