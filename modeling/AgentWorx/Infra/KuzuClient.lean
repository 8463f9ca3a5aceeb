import AgentWorx.Core.Models

/-!
# The graph store

One graph for each agent type (`infra/kuzu_client.py`), and the statements the code runs on it. A
statement is what it does to the graph together with the parameter names its text mentions and the
tables it names: the engine refuses a statement on a table that was never created and, if it is
strict, one whose parameter map has a name that the text does not mention. Rows are returned in the
order the nodes and edges were created.
-/

namespace AgentWorx

/-! ## The graph -/

inductive GraphTable where
  | concept | constraint | relatesTo | hasConstraint | agentRole | handsOffTo | hasRole
  deriving DecidableEq, Repr

structure Concept where
  id : String
  label : String
  nspace : String
  confidence : ℚ
  createdAt : Datetime
  deriving DecidableEq

/-- A `RELATES_TO` edge between the concepts with ids `source` and `target`. -/
structure RelatesTo where
  source : String
  target : String
  relation : String
  confidence : ℚ
  version : Int
  deriving DecidableEq

structure AgentRole where
  id : String
  name : String
  inputSchema : Dict
  outputSchema : Dict
  prohibitedFields : List String

/-- A `HANDS_OFF_TO` edge between the roles with ids `source` and `target`. -/
structure HandsOffTo where
  source : String
  target : String
  condition : String
  validates : String
  confidence : ℚ
  deriving DecidableEq

structure Graph where
  tables : List GraphTable
  concepts : List Concept
  relatesTo : List RelatesTo
  roles : List AgentRole
  handsOffTo : List HandsOffTo

namespace Graph

def empty : Graph := ⟨[], [], [], [], []⟩

/-- The first concept with the id. -/
def concept? (g : Graph) (id : String) : Option Concept := g.concepts.find? (·.id = id)

/-- The first role with the id. -/
def role? (g : Graph) (id : String) : Option AgentRole := g.roles.find? (·.id = id)

/-- The rows of `MATCH (a:Concept)-[r:RELATES_TO]->(b:Concept)`: every edge with its end nodes. -/
def relatesToRows (g : Graph) : List (Concept × RelatesTo × Concept) :=
  g.relatesTo.filterMap fun r => do
    let a ← g.concept? r.source
    let b ← g.concept? r.target
    return (a, r, b)

/-- The rows of `MATCH (a:AgentRole)-[h:HANDS_OFF_TO]->(b:AgentRole)`. -/
def handsOffToRows (g : Graph) : List (AgentRole × HandsOffTo × AgentRole) :=
  g.handsOffTo.filterMap fun h => do
    let a ← g.role? h.source
    let b ← g.role? h.target
    return (a, h, b)

end Graph

/-! ## Statements -/

/-- A statement of the graph store with answers in `α`. -/
structure Cypher (α : Type) where
  mentions : List String
  tables : List GraphTable
  eval : Graph → Except Exn (α × Graph)

namespace Cypher

/-- A statement that only reads. -/
def query {α : Type} (mentions : List String) (tables : List GraphTable) (f : Graph → α) :
    Cypher α := ⟨mentions, tables, fun g => .ok (f g, g)⟩

/-- A statement that only changes the graph. -/
def update (mentions : List String) (tables : List GraphTable) (f : Graph → Graph) :
    Cypher Unit := ⟨mentions, tables, fun g => .ok ((), f g)⟩

/-- `CREATE NODE TABLE IF NOT EXISTS`, `CREATE REL TABLE IF NOT EXISTS` -/
def createTable (t : GraphTable) : Cypher Unit :=
  update [] [] fun g => if t ∈ g.tables then g else { g with tables := g.tables ++ [t] }

/-- What the engine does with a statement and the names of a parameter map. -/
def execute {α : Type} (strict : Bool) (stmt : Cypher α) (params : List String) (g : Graph) :
    Except Exn (α × Graph) :=
  if strict ∧ ∃ p ∈ params, p ∉ stmt.mentions then
    .error (.kuzuError "Parameter not found.")
  else if ∃ t ∈ stmt.tables, t ∉ g.tables then
    .error (.kuzuError "Table does not exist.")
  else stmt.eval g

end Cypher

/-- `SCHEMA_DDL` -/
def schemaDDL : List (Cypher Unit) :=
  [.concept, .constraint, .relatesTo, .hasConstraint, .agentRole, .handsOffTo, .hasRole].map
    Cypher.createTable

/-! ## Agent type names -/

def isAlnum (c : Char) : Bool :=
  ('A' ≤ c ∧ c ≤ 'Z') ∨ ('a' ≤ c ∧ c ≤ 'z') ∨ ('0' ≤ c ∧ c ≤ '9')

/-- `AGENT_TYPE_PATTERN.fullmatch`: `^[A-Za-z0-9][A-Za-z0-9_-]{0,99}$` -/
def matchesAgentTypePattern (agentType : String) : Bool :=
  match agentType.toList with
  | [] => false
  | c :: cs => isAlnum c && cs.all (fun c => isAlnum c || c = '_' || c = '-') && cs.length ≤ 99

/-- `_validate_agent_type` -/
def validateAgentType (agentType : String) : Except Exn Unit :=
  if matchesAgentTypePattern agentType then .ok ()
  else .error (.valueError ("agent_type must be a single path segment using letters, numbers, " ++
    "underscores, or hyphens"))

/-! ## Paths -/

/-- A `pathlib.PurePosixPath`: what it is relative to, and its components. -/
structure PosixPath where
  root : String
  parts : List String
  deriving DecidableEq

namespace PosixPath

/-- The root of a path text: two leading slashes, and no more, are kept apart from one. -/
def rootOf (text : String) : String :=
  match text.toList with
  | '/' :: '/' :: '/' :: _ => "/"
  | '/' :: '/' :: _ => "//"
  | '/' :: _ => "/"
  | _ => ""

/-- The components of a path text: empty ones and `.` are left out, `..` is kept. -/
def partsOf (text : String) : List String :=
  ((text.toList.splitOn '/').map String.ofList).filter fun part => part ≠ "" ∧ part ≠ "."

/-- `path / text`: a text with a root replaces the path. -/
def joinpath (path : PosixPath) (text : String) : PosixPath :=
  if rootOf text = "" then { path with parts := path.parts ++ partsOf text }
  else ⟨rootOf text, partsOf text⟩

end PosixPath

/-- `get_db_path`, given the path of `get_graphs_dir`. -/
def getDbPath (graphsDir : PosixPath) (agentType : String) : Except Exn PosixPath := do
  validateAgentType agentType
  return (graphsDir.joinpath agentType).joinpath "domain.kuzu"

end AgentWorx
