/-!
# Enumerations and exceptions

The enumerations of `core/enums.py` that the modelled code uses, each with the text of its members,
and the exceptions the modelled code raises (`core/exceptions.py`, the built-in ones, and those of
the stores and of the request models).
-/

namespace AgentWorx

inductive Phase where
  | apprentice | journeyman | work
  deriving DecidableEq, Repr

namespace Phase

def value : Phase → String
  | .apprentice => "apprentice"
  | .journeyman => "journeyman"
  | .work => "work"

/-- `Phase(text)`; `none` where Python raises `ValueError`. -/
def ofValue (text : String) : Option Phase :=
  if text = "apprentice" then some .apprentice
  else if text = "journeyman" then some .journeyman
  else if text = "work" then some .work
  else none

end Phase

inductive TopologyType where
  | pipeline | orchestrated | peer
  deriving DecidableEq, Repr

inductive ObservationType where
  | violation | learned | ambiguous
  deriving DecidableEq, Repr

inductive CompositionStatus where
  | proposed | approved | archived
  deriving DecidableEq, Repr

inductive CertGate where
  | cert1 | cert2
  deriving DecidableEq, Repr

inductive CertDecision where
  | approved | rejected
  deriving DecidableEq, Repr

/-- The stores a request talks to. -/
inductive Store where
  | postgres | redis | kuzu
  deriving DecidableEq, Repr

inductive Exn where
  | agentTypeAlreadyExists (name : String)
  | agentTypeNotFound (agentTypeId : String)
  | noProposalFound (agentType : String)
  | proposalAlreadyApproved (agentType : String) (version : Int)
  | agentNotInPhase (agentType : String) (expected actual : Phase)
  | noGapsRemaining (agentType : String)
  | sessionNotFound (sessionId : String)
  | sessionPausedForViolation (sessionId : String) (unresolvedCount : Nat)
  | valueError (message : String)
  | indexError (message : String)
  | keyError (key : String)
  /-- A pydantic model refused its input. -/
  | validationError (model : String)
  /-- Postgres refused a value or a row. -/
  | dataError (message : String)
  | uniqueViolation (constraint : String)
  /-- Kuzu refused a statement. -/
  | kuzuError (message : String)
  /-- The call of the language model failed. -/
  | modelError
  /-- A call of a store failed. -/
  | storeDown (store : Store)
  | http (statusCode : Nat) (detail : String)
  deriving DecidableEq, Repr

/-- `str(exc)`, for the exceptions whose text a route passes on. -/
def Exn.message : Exn → String
  | .agentTypeAlreadyExists name => s!"Agent type '{name}' already exists"
  | .agentTypeNotFound agentTypeId => s!"Agent type '{agentTypeId}' not found"
  | .noProposalFound agentType => s!"No proposal found for agent type '{agentType}'"
  | .proposalAlreadyApproved agentType version =>
    s!"Proposal version {version} for '{agentType}' is already approved and immutable"
  | .agentNotInPhase agentType expected actual =>
    s!"Agent '{agentType}' is in phase '{actual.value}', " ++
      s!"but this operation requires phase '{expected.value}'"
  | .noGapsRemaining agentType =>
    s!"No knowledge gaps remaining for '{agentType}' -- graph may be saturated"
  | .sessionNotFound sessionId => s!"Simulation session '{sessionId}' not found"
  | .sessionPausedForViolation sessionId unresolvedCount =>
    s!"Session '{sessionId}' has {unresolvedCount} unresolved violation(s)"
  | .valueError message | .indexError message | .dataError message | .kuzuError message
  | .uniqueViolation message | .validationError message | .http _ message => message
  | .keyError key => s!"'{key}'"
  | .modelError => "the model call failed"
  | .storeDown _ => "the store call failed"

end AgentWorx
