import AgentWorx.Lib.Async
import AgentWorx.Infra.PostgresClient
import AgentWorx.Infra.KuzuClient
import Mathlib.Logic.Function.Basic

/-!
# The process, its stores, and what the outside decides

`World` is the state all requests share: the three stores and the memory of the process. `Env` is
what the outside decides, as functions of the number of calls made so far: which store calls fail,
what the clock shows, which UUIDs are drawn, and what the language model answers. Every run is a run
under some `Env`, so a statement for every `Env` covers every failure pattern and every answer.

A store call that fails raises and has no effect.
-/

namespace AgentWorx

/-! ## The language model -/

/-- What the code tells the language model: the values it puts into each prompt. -/
inductive Prompt where
  | question (agentGoal taskBoundary : String) (gap : KnowledgeGap) (knownConcepts : List String)
  | followup (taskBoundary originalQuestion ambiguousAnswer : String)
  | extraction (payload : AnswerProcessorInput)
  | proposal (agentGoal taskBoundary : String) (declaredTopology : TopologyType)
      (workflowParticipants : List String) (clusters : List (String × List String))
      (crossEdges : List (String × String × String)) (rejectionContext : Option String)

/-- The reply to an extraction prompt, decoded from JSON: each part as the code reads it, or the
exception that reading it raises. -/
structure Extraction where
  overallConfidence : Except Exn ℚ
  isAmbiguous : Except Exn Bool
  entities : Except Exn (List ExtractedEntity)
  relations : Except Exn (List ExtractedRelation)

/-- The reply to a proposal prompt, decoded from JSON and validated part by part. -/
structure ProposalReply where
  topology : Except Exn TopologyType
  agents : Except Exn (List AgentContract)
  contracts : Except Exn (List HandoffContract)
  rationalePerAgent : Except Exn Dict
  rationalePerContract : Except Exn Dict

/-! ## Redis -/

/-- A Redis value. Redis stores texts; `float q` is the text `str(q)` of a float. -/
inductive RedisValue where
  | text (s : String)
  | float (q : ℚ)
  deriving DecidableEq

/-! ## The shared state -/

structure Env where
  /-- The `n`-th call fails if it is a call of this store. -/
  fault : Nat → Store → Bool
  clock : Nat → Int
  uuid : Nat → UUID
  reply : Nat → Prompt → Except Exn String
  /-- `json.loads` of a reply without its fence, and the validation of its parts. -/
  loadExtraction : String → Except Exn Extraction
  loadProposal : String → Except Exn ProposalReply
  /-- The regular expression engine's case folding. -/
  foldCase : Char → Char
  proposalThreshold : ℚ
  cert1Threshold : ℚ
  /-- The graph engine refuses parameters that a statement does not mention. -/
  strictParams : Bool

structure World where
  env : Env
  tick : Nat
  pg : Postgres
  redis : String → Option RedisValue
  graphs : String → Graph
  sessions : String → Option SimulationSession
  sessionAgents : String → Option (List AgentContract)

namespace World

/-- A process that has just started, over empty stores. -/
def initial (env : Env) : World where
  env := env
  tick := 0
  pg := .empty
  redis _ := none
  graphs _ := .empty
  sessions _ := none
  sessionAgents _ := none

/-- One more call has been made. -/
@[simps] def bump (w : World) : World := { w with tick := w.tick + 1 }

@[simps] def setPg (w : World) (pg : Postgres) : World := { w with pg }

@[simps] def setRedis (w : World) (key : String) (value : Option RedisValue) : World :=
  { w with redis := Function.update w.redis key value }

@[simps] def setGraph (w : World) (agentType : String) (g : Graph) : World :=
  { w with graphs := Function.update w.graphs agentType g }

@[simps] def setSession (w : World) (sessionId : String) (session : SimulationSession) : World :=
  { w with sessions := Function.update w.sessions sessionId (some session) }

@[simps] def setSessionAgents (w : World) (sessionId : String) (agents : List AgentContract) :
    World :=
  { w with sessionAgents := Function.update w.sessionAgents sessionId (some agents) }

/-- The next call of the store fails. -/
def Fails (w : World) (store : Store) : Prop := w.env.fault w.tick store = true

instance (w : World) (store : Store) : Decidable (w.Fails store) :=
  inferInstanceAs (Decidable (_ = true))

/-- A call of a store: it fails without effect, or does `act`. -/
def call {α : Type} (w : World) (store : Store) (act : World → Except Exn α × World) :
    Except Exn α × World :=
  if w.Fails store then (.error (.storeDown store), w.bump) else act w.bump

/-- A statement served by Postgres. -/
def serve (q : Sql) (w : World) : Except Exn q.Resp × World :=
  w.call .postgres fun w =>
    match w.pg.eval q with
    | .ok (a, pg) => (.ok a, w.setPg pg)
    | .error e => (.error e, w)

end World

/-- Postgres serves the awaited statements. -/
abbrev host : Coop.Host where
  Stmt := Sql
  Resp := Sql.Resp
  State := World
  Err := Exn
  serve := World.serve

/-- A Python function. -/
abbrev Py (α : Type) := Coop.Sync World Exn α

/-- A Python coroutine function. -/
abbrev Coro (α : Type) := Coop.Async host α

/-- `await conn.fetchrow(…)`, `await conn.execute(…)` -/
def sql (q : Sql) : Coro q.Resp := Coop.Async.call (H := host) q

/-! ## Clock, identifiers, language model -/

def liftExcept {α : Type} (r : Except Exn α) : Py α := fun w => (r, w)

/-- `datetime.now(UTC)` -/
def datetimeNow : Py Datetime := fun w => (.ok ⟨w.env.clock w.tick, some 0⟩, w.bump)

/-- `datetime.utcnow()` -/
def datetimeUtcnow : Py Datetime := fun w => (.ok ⟨w.env.clock w.tick, none⟩, w.bump)

/-- `uuid.uuid4()` -/
def uuid4 : Py UUID := fun w => (.ok (w.env.uuid w.tick), w.bump)

/-- `str(_client.messages.create(…).content[0].text)` -/
def messagesCreate (prompt : Prompt) : Py String := fun w => (w.env.reply w.tick prompt, w.bump)

/-! ## Graph statements -/

/-- `execute(agent_type, query, params)`: the name is validated when the connection is looked up. -/
def execute {α : Type} (agentType : String) (stmt : Cypher α) (params : List String) : Py α :=
  fun w =>
    if matchesAgentTypePattern agentType then
      w.call .kuzu fun w =>
        match stmt.execute w.env.strictParams params (w.graphs agentType) with
        | .ok (a, g) => (.ok a, w.setGraph agentType g)
        | .error e => (.error e, w)
    else
      (.error (.valueError ("agent_type must be a single path segment using letters, numbers, " ++
        "underscores, or hyphens")), w)

def initializeSchema (agentType : String) : Py Unit :=
  schemaDDL.forM fun ddl => execute agentType ddl []

end AgentWorx
