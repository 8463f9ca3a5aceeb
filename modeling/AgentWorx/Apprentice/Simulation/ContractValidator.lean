import AgentWorx.Core.Models

/-!
# The contract validator

`apprentice/simulation/contract_validator.py`. A message is the list of its field names.
-/

namespace AgentWorx

/-- `_find_agent` -/
def findAgent (agentName : String) (agents : List AgentContract) : Option AgentContract :=
  agents.find? (·.agentName = agentName)

def validateMessage (messageFields : List String) (fromAgent toAgent : String)
    (agents : List AgentContract) : List ContractViolation :=
  match findAgent toAgent agents with
  | none => messageFields.map fun field =>
    { field, fromAgent, toAgent, resolution := .pending
      reason := s!"'{toAgent}' has no contract in the approved composition" }
  | some receivingAgent => messageFields.filterMap fun field =>
    if field ∈ receivingAgent.prohibitedFields then
      some { field, fromAgent, toAgent, resolution := .pending
             reason := s!"'{toAgent}' is prohibited from receiving '{field}'" }
    else if field ∉ receivingAgent.inputSchema then
      some { field, fromAgent, toAgent, resolution := .pending
             reason := s!"'{field}' is not declared in '{toAgent}'s input_schema" }
    else none

/-- Add `field` to the input schema of every contract of the agent. -/
def clarifyField (agentName field fieldType : String) (agents : List AgentContract) :
    List AgentContract :=
  agents.map fun agent =>
    if agent.agentName = agentName then
      { agent with inputSchema := agent.inputSchema.insert field fieldType }
    else agent

def applyResolution (violation : ContractViolation) (resolution : String)
    (clarification : Option String) (agents : List AgentContract) :
    Except Exn (List AgentContract × Bool) :=
  if resolution = "mark_edge_case" then .ok (agents, false)
  else if resolution ≠ "clarify_contract" then
    .error (.valueError "resolution must be clarify_contract or mark_edge_case")
  else
    match clarification with
    | none | some "" => .error (.valueError "clarification is required for clarify_contract")
    | some text => .ok (clarifyField violation.toAgent violation.field text agents, true)

end AgentWorx
