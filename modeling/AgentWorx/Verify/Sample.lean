import AgentWorx.Api.Routes

/-!
# A sample process

A process in which nothing fails, the clock counts and every UUID is new, and the bodies of a few
requests to it: the inputs of the concrete runs in the following modules.
-/

namespace AgentWorx.Sample

/-- The hexadecimal digits of `n`, the lowest first. -/
def uuid (n : Nat) : UUID where
  digits := (List.range 32).map fun k => ⟨(n >>> (4 * k)) % 16, Nat.mod_lt _ (by decide)⟩
  length_eq := by simp

def env : Env where
  fault _ _ := false
  clock n := n
  uuid := uuid
  reply _ _ := .error .modelError
  loadExtraction _ := .error .modelError
  loadProposal _ := .error .modelError
  foldCase := id
  proposalThreshold := 7 / 10
  cert1Threshold := 9 / 10
  strictParams := true

def shop : AgentTypeCreate where
  name := "shop"
  goal := "take orders"
  taskBoundary := "orders only"
  topicList := ["menu"]
  topologyType := .pipeline
  workflowParticipants := []
  name_length := by decide
  goal_length := by decide
  taskBoundary_length := by decide
  topicList_length := by decide

def approval : CertApproveRequest where
  expertId := "ada"
  notes := ""
  expertId_length := by decide
  notes_length := by decide

def rejection : CertRejectRequest where
  expertId := "ada"
  reason := "not ready yet"
  expertId_length := by decide
  reason_length := by decide

def shopRow : AgentTypeRow :=
  ⟨uuid 100, "shop", "take orders", "orders only", ["menu"], .pipeline, [], 0⟩

/-- The process in which the agent type is there and none of its keys has been written. -/
def withShop : World :=
  { World.initial env with pg := { Postgres.empty with agentTypes := [shopRow] } }

def cook : AgentContract := ⟨"cook", ∅, ∅, []⟩

/-- A team of one, as the first version. -/
def team (status : CompositionStatus) : CompositionRow :=
  ⟨uuid 200, "shop", 1, .pipeline, [cook], [], none, none, none, status, 0⟩

/-- The process with that team and with the tables of the graph, but nothing in them. -/
def withTeam (status : CompositionStatus) : World :=
  { World.initial env with
    pg := { Postgres.empty with agentTypes := [shopRow], teamCompositions := [team status] }
    graphs := fun _ => { Graph.empty with
      tables := [.concept, .constraint, .relatesTo, .hasConstraint, .agentRole, .handsOffTo,
        .hasRole] } }

def review (action expertId : String) : ReviewBody :=
  ⟨some action, some (.text expertId), .error .modelError, some (.text "no")⟩

/-- The first session of the process, when nothing but the read of the proposal has come before. -/
def sessionId : String := (uuid 1).toText

def order : SimulationTurnInput where
  role := "waiter"
  message := "one soup for table four"
  role_length := by decide
  message_length := by decide

def certain : Proportion := ⟨1, by norm_num⟩

def answer : AnswerBody where
  answerText := "orders go to the kitchen"
  payload := .ok ("what happens to an order?", "orders go to the kitchen",
    ⟨"", "order", .orphan, certain, 0, 0, .task, le_rfl⟩)

end AgentWorx.Sample
