import AgentWorx.Core.Models
import AgentWorx.Lib.JsonDumps
import AgentWorx.Lib.JsonObjects

/-!
# JSON forms of the models

`model_dump` of the models that are stored or sent as JSON, and `model_validate` of what
`json.loads` returns for them. A model ignores keys it does not have, and refuses a value of
another type; the validators that pydantic runs before it gives up are one exception here.
-/

namespace AgentWorx

open Json (Value)

variable {ι φ : Type}

/-! ## Enumerations -/

namespace TopologyType

def value : TopologyType → String
  | .pipeline => "pipeline"
  | .orchestrated => "orchestrated"
  | .peer => "peer"

/-- `TopologyType(text)`; `none` where Python raises `ValueError`. -/
def ofValue (text : String) : Option TopologyType :=
  if text = "pipeline" then some .pipeline
  else if text = "orchestrated" then some .orchestrated
  else if text = "peer" then some .peer
  else none

end TopologyType

namespace CompositionStatus

def value : CompositionStatus → String
  | .proposed => "proposed"
  | .approved => "approved"
  | .archived => "archived"

/-- `CompositionStatus(text)`; `none` where Python raises `ValueError`. -/
def ofValue (text : String) : Option CompositionStatus :=
  if text = "proposed" then some .proposed
  else if text = "approved" then some .approved
  else if text = "archived" then some .archived
  else none

end CompositionStatus

/-! ## Texts -/

/-- The code points of a text. -/
def codes (s : String) : List Nat := s.toList.map Char.toNat

/-- The character of a code point; half of a surrogate pair is none. -/
def charOfCode (n : Nat) : Option Char := if n.isValidChar then some (Char.ofNat n) else none

/-- The text of the code points, where pydantic accepts them as a `str`. -/
def ofCodes (text : List Nat) : Option String := (text.mapM charOfCode).map String.ofList

def jsonText (s : String) : Value ι φ := .string (codes s)

def jsonTexts (texts : List String) : Value ι φ := .array (texts.map jsonText)

def jsonDict (d : Dict) : Value ι φ :=
  .object (d.entries.map fun entry => (codes entry.1, jsonText entry.2))

/-- `json.loads(text)`; a `JSONDecodeError` is a `ValueError`. -/
def loadsText (numbers : Json.Numbers ι φ) (text : String) : Except Exn (Value ι φ) :=
  match Json.loads numbers text.toList with
  | some value => .ok value
  | none => .error (.valueError "the text is not JSON")

/-- What a `for` loop over the value yields: items, keys, or characters. A `TypeError` is a
`valueError` here, since no route tells the two apart. -/
def elements : Value ι φ → Except Exn (List (Value ι φ))
  | .array items => .ok items
  | .object members => .ok (members.map fun m => .string m.1)
  | .string text => .ok (text.map fun code => .string [code])
  | _ => .error (.valueError "the object is not iterable")

/-! ## `model_dump` -/

def AgentContract.modelDump (agent : AgentContract) : Value ι φ :=
  .object [(codes "agent_name", jsonText agent.agentName),
    (codes "input_schema", jsonDict agent.inputSchema),
    (codes "output_schema", jsonDict agent.outputSchema),
    (codes "prohibited_fields", jsonTexts agent.prohibitedFields)]

def HandoffContract.modelDump (contract : HandoffContract) : Value ι φ :=
  .object [(codes "from_agent", jsonText contract.fromAgent),
    (codes "to_agent", jsonText contract.toAgent),
    (codes "condition", jsonText contract.condition),
    (codes "validates", jsonTexts contract.validates),
    (codes "rationale", jsonText contract.rationale)]

/-! ## `model_validate` -/

section

variable (model : String)

/-- A field of type `str`. -/
def asText : Value ι φ → Except Exn String
  | .string text =>
    match ofCodes text with
    | some s => .ok s
    | none => .error (.validationError model)
  | _ => .error (.validationError model)

/-- A field of type `list[str]`. -/
def asTexts : Value ι φ → Except Exn (List String)
  | .array items => items.mapM (asText model)
  | _ => .error (.validationError model)

/-- A field of type `dict[str, str]`. -/
def asDict : Value ι φ → Except Exn Dict
  | .object members => do
    let entries ← members.mapM fun (key, value) => do
      let key ← asText (ι := ι) (φ := φ) model (.string key)
      let value ← asText model value
      return (⟨key, value⟩ : Sigma fun _ : String => String)
    return entries.toAList
  | _ => .error (.validationError model)

/-- A field without a default. -/
def required {α : Type} (members : List (List Nat × Value ι φ)) (key : String)
    (decode : String → Value ι φ → Except Exn α) : Except Exn α :=
  match Json.member members (codes key) with
  | some value => decode model value
  | none => .error (.validationError model)

/-- A field with a default. -/
def optional {α : Type} (members : List (List Nat × Value ι φ)) (key : String)
    (decode : String → Value ι φ → Except Exn α) (default : α) : Except Exn α :=
  match Json.member members (codes key) with
  | some value => decode model value
  | none => .ok default

end

def AgentContract.modelValidate : Value ι φ → Except Exn AgentContract
  | .object members => do
    let agentName ← required "AgentContract" members "agent_name" asText
    let inputSchema ← required "AgentContract" members "input_schema" asDict
    let outputSchema ← required "AgentContract" members "output_schema" asDict
    let prohibitedFields ← optional "AgentContract" members "prohibited_fields" asTexts []
    return ⟨agentName, inputSchema, outputSchema, prohibitedFields⟩
  | _ => .error (.validationError "AgentContract")

def HandoffContract.modelValidate : Value ι φ → Except Exn HandoffContract
  | .object members => do
    let fromAgent ← required "HandoffContract" members "from_agent" asText
    let toAgent ← required "HandoffContract" members "to_agent" asText
    let condition ← required "HandoffContract" members "condition" asText
    let validates ← required "HandoffContract" members "validates" asTexts
    let rationale ← required "HandoffContract" members "rationale" asText
    return ⟨fromAgent, toAgent, condition, validates, rationale⟩
  | _ => .error (.validationError "HandoffContract")

end AgentWorx
