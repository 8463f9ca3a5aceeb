import AgentWorx.Apprentice.ProposalEngine
import AgentWorx.Core.Encoding

/-!
# Reading the replies of the language model

What `_extract` and `generate_proposal` make of the text of a reply: `json.loads`, then the parts
that the code picks out and validates. They are what `Env.loadExtraction` and `Env.loadProposal`
stand for.

A number beyond the range of a float ends in an exception whatever it is used for; it is refused
where it is read.
-/

namespace AgentWorx

open Json (Value)

variable {ι φ : Type}

/-- The numbers that Python makes of JSON numbers, and of texts where it converts them:
`float(text)` and a float field of a pydantic model. -/
structure Conversions (ι φ : Type) where
  ofInt : ι → ℚ
  ofFloat : φ → Option ℚ
  floatOfText : List Nat → Option ℚ
  fieldOfText : List Nat → Option ℚ

/-! ## Values -/

/-- `value[key]`; of anything but an object it is a `TypeError`. -/
def item (key : String) : Value ι φ → Except Exn (Value ι φ)
  | .object members =>
    match Json.member members (codes key) with
    | some value => .ok value
    | none => .error (.keyError key)
  | _ => .error (.valueError "the object has no keys")

/-- `value.get(key, [])` -/
def itemOrEmpty (key : String) : Value ι φ → Except Exn (Value ι φ)
  | .object members => .ok ((Json.member members (codes key)).getD (.array []))
  | _ => .error (.valueError "the object has no attribute 'get'")

namespace Conversions

variable (c : Conversions ι φ)

/-- `float(value)` -/
def toFloat : Value ι φ → Except Exn ℚ
  | .int i => .ok (c.ofInt i)
  | .bool b => .ok (if b then 1 else 0)
  | .float x =>
    match c.ofFloat x with
    | some q => .ok q
    | none => .error (.validationError "AnswerProcessorResult")
  | .constant _ => .error (.validationError "AnswerProcessorResult")
  | .string text =>
    match c.floatOfText text with
    | some q => .ok q
    | none => .error (.valueError "could not convert string to float")
  | _ => .error (.valueError "float() argument must be a string or a real number")

/-- `bool(value)` -/
def truthy : Value ι φ → Bool
  | .null => false
  | .bool b => b
  | .int i => c.ofInt i ≠ 0
  | .float x => c.ofFloat x ≠ some 0
  | .constant _ => true
  | .string text => !text.isEmpty
  | .array items => !items.isEmpty
  | .object members => !members.isEmpty

/-- A field `confidence: float = Field(..., ge=0.0, le=1.0)`. -/
def asProportion (model : String) : Value ι φ → Except Exn Proportion
  | .int i => Proportion.check model (c.ofInt i)
  | .bool b => Proportion.check model (if b then 1 else 0)
  | .float x =>
    match c.ofFloat x with
    | some q => Proportion.check model q
    | none => .error (.validationError model)
  | .string text =>
    match c.fieldOfText text with
    | some q => Proportion.check model q
    | none => .error (.validationError model)
  | _ => .error (.validationError model)

end Conversions

/-! ## Extractions -/

variable (c : Conversions ι φ)

def ExtractedEntity.modelValidate : Value ι φ → Except Exn ExtractedEntity
  | .object members => do
    let label ← required "ExtractedEntity" members "label" asText
    let entityType ← required "ExtractedEntity" members "entity_type" asText
    let confidence ← required "ExtractedEntity" members "confidence" c.asProportion
    return ⟨label, entityType, confidence⟩
  | _ => .error (.validationError "ExtractedEntity")

def ExtractedRelation.modelValidate : Value ι φ → Except Exn ExtractedRelation
  | .object members => do
    let source ← required "ExtractedRelation" members "source" asText
    let target ← required "ExtractedRelation" members "target" asText
    let relationType ← required "ExtractedRelation" members "relation_type" asText
    let confidence ← required "ExtractedRelation" members "confidence" c.asProportion
    return ⟨source, target, relationType, confidence⟩
  | _ => .error (.validationError "ExtractedRelation")

/-- The parts that `process_answer` picks out of an extraction. -/
def decodeExtraction (extraction : Value ι φ) : Extraction where
  overallConfidence := do c.toFloat (← item "overall_confidence" extraction)
  isAmbiguous := do return c.truthy (← item "is_ambiguous" extraction)
  entities := do
    (← elements (← itemOrEmpty "entities" extraction)).mapM (ExtractedEntity.modelValidate c)
  relations := do
    (← elements (← itemOrEmpty "relations" extraction)).mapM (ExtractedRelation.modelValidate c)

def loadExtraction (numbers : Json.Numbers ι φ) (text : String) : Except Exn Extraction := do
  return decodeExtraction c (← loadsText numbers text)

/-! ## Proposals -/

/-- `TopologyType(value)` -/
def asTopology : Value ι φ → Except Exn TopologyType
  | .string text =>
    match (ofCodes text).bind TopologyType.ofValue with
    | some topology => .ok topology
    | none => .error (.valueError "not a valid TopologyType")
  | _ => .error (.valueError "not a valid TopologyType")

/-- The parts that `generate_proposal` picks out of a reply. -/
def decodeProposal (parsed : Value ι φ) : ProposalReply where
  topology := do asTopology (← item "topology" parsed)
  agents := do (← elements (← itemOrEmpty "agents" parsed)).mapM AgentContract.modelValidate
  contracts := do
    (← elements (← itemOrEmpty "contracts" parsed)).mapM HandoffContract.modelValidate
  rationalePerAgent := do asDict "ProposalArtifact" (← item "rationale_per_agent" parsed)
  rationalePerContract := do asDict "ProposalArtifact" (← item "rationale_per_contract" parsed)

def loadProposal (numbers : Json.Numbers ι φ) (text : String) : Except Exn ProposalReply := do
  return decodeProposal (← loadsText numbers text)

/-! ## The format that the prompts ask for -/

/-- The reply format of `EXTRACTION_PROMPT`; a confidence is given as the JSON number it is
written as. -/
def entityJson (label entityType : String) (confidence : Value ι φ) : Value ι φ :=
  .object [(codes "label", jsonText label), (codes "entity_type", jsonText entityType),
    (codes "confidence", confidence)]

def relationJson (source target relationType : String) (confidence : Value ι φ) : Value ι φ :=
  .object [(codes "source", jsonText source), (codes "target", jsonText target),
    (codes "relation_type", jsonText relationType), (codes "confidence", confidence)]

def extractionJson (entities relations : List (Value ι φ)) (overallConfidence : Value ι φ)
    (isAmbiguous : Bool) : Value ι φ :=
  .object [(codes "entities", .array entities), (codes "relations", .array relations),
    (codes "overall_confidence", overallConfidence), (codes "is_ambiguous", .bool isAmbiguous)]

/-- The reply format of `PROPOSAL_PROMPT_TEMPLATE`. -/
def proposalJson (topology : TopologyType) (agents : List AgentContract)
    (contracts : List HandoffContract) (rationalePerAgent rationalePerContract : Dict) :
    Value ι φ :=
  .object [(codes "topology", jsonText topology.value),
    (codes "agents", .array (agents.map (·.modelDump))),
    (codes "contracts", .array (contracts.map (·.modelDump))),
    (codes "rationale_per_agent", jsonDict rationalePerAgent),
    (codes "rationale_per_contract", jsonDict rationalePerContract)]

end AgentWorx
