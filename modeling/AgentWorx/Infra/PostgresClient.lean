import AgentWorx.Core.Models

/-!
# The relational store

The tables of `infra/postgres_client.py` that the modelled requests use, and the statements they
issue. A JSONB column holds the value that was written to it; a TIMESTAMP column holds naive
microseconds; the counts of a summary are taken to fit their INT columns. `Postgres.write` is what a
statement that changes a table does: it checks the column types and the constraints of the DDL and
either changes the table or raises and leaves everything as it was.
-/

namespace AgentWorx

/-! ## Rows -/

structure AgentTypeRow where
  id : UUID
  name : String
  goal : String
  taskBoundary : String
  topicList : List String
  topologyType : TopologyType
  workflowParticipants : List String
  createdAt : Int

/-- The JSON object in the column `rationale`, by the keys the code reads or writes. -/
structure Rationale where
  rationalePerAgent : Option Dict
  rationalePerContract : Option Dict
  rejectionReason : Option String

structure CompositionRow where
  id : UUID
  agentType : String
  version : Int
  topology : TopologyType
  agentList : List AgentContract
  contracts : List HandoffContract
  rationale : Option Rationale
  expertSignature : Option String
  signedAt : Option Int
  status : CompositionStatus
  createdAt : Int

structure CertEventRow where
  id : UUID
  agentType : String
  gate : CertGate
  decision : CertDecision
  expertId : String
  readinessScore : ℚ
  notes : String
  createdAt : Int
  deriving DecidableEq

structure SummaryRow where
  agentType : String
  sessionId : String
  compositionVersion : Int
  coordEdgesWritten : Nat
  observationsCaptured : Nat
  violationsTotal : Nat
  violationsUnresolved : Nat
  closedAt : Int
  deriving DecidableEq

/-! ## Statements -/

/-- A value handed to a text parameter of a statement: the JSON bodies are not validated, so it may
be something asyncpg cannot encode as a text. -/
inductive TextParam where
  | null
  | text (s : String)
  | other
  deriving DecidableEq

namespace TextParam

def encode : TextParam → Except Exn (Option String)
  | .null => .ok none
  | .text s => .ok (some s)
  | .other => .error (.dataError "invalid input for query argument: expected str")

/-- `encode` for a `VARCHAR(n)` column. A text that is too long by nothing but blanks is stored
without them. -/
def encodeVarchar (n : Nat) (p : TextParam) : Except Exn (Option String) :=
  match p with
  | .text s =>
    if s.length ≤ n then .ok (some s)
    else if (s.toList.drop n).all (· = ' ') then .ok (some (String.ofList (s.toList.take n)))
    else .error (.dataError s!"value too long for type character varying({n})")
  | p => p.encode

end TextParam

/-- The statements the code runs with `conn.execute`. -/
inductive SqlWrite where
  | insertAgentType (row : AgentTypeRow)
  | deleteAgentType (id : UUID)
  /-- `SET status = 'approved', expert_signature, signed_at` (`approve_proposal`) -/
  | approveComposition (expertSignature : TextParam) (signedAt : Int) (agentType : String)
      (version : Int)
  /-- `SET status = 'archived'` (`edit_proposal`) -/
  | archiveComposition (agentType : String) (version : Int)
  /-- `SET status = 'archived', rationale` (`reject_proposal`) -/
  | rejectComposition (rejectionReason : TextParam) (agentType : String) (version : Int)
  /-- The signature is a parameter of its own: it comes from the request body unvalidated. -/
  | insertComposition (row : CompositionRow) (expertSignature : TextParam)
  | insertCertEvent (row : CertEventRow)
  | insertSimulationSessionSummary (row : SummaryRow)

/-- What a coroutine awaits. A transaction is a list of statements; an `error` entry is Python code
that raises at that point of the `async with` block. -/
inductive Sql where
  | execute (w : SqlWrite)
  | transaction (ws : List (Except Exn SqlWrite))
  | selectAgentTypeId (name : String)
  | selectAgentTypeByName (name : String)
  | selectLatestComposition (agentType : String)
  | selectMaxVersion (agentType : String)
  | selectLatestViolationsUnresolved (agentType : String)
  | selectCountSummaries (agentType : String)

/-- The answer to a statement. -/
def Sql.Resp : Sql → Type
  | .execute _ | .transaction _ => Unit
  | .selectAgentTypeId _ => Option UUID
  | .selectAgentTypeByName _ => Option AgentTypeRow
  | .selectLatestComposition _ => Option CompositionRow
  | .selectMaxVersion _ => Option Int
  | .selectLatestViolationsUnresolved _ => Option Nat
  | .selectCountSummaries _ => Nat

/-! ## Tables -/

structure Postgres where
  agentTypes : List AgentTypeRow
  teamCompositions : List CompositionRow
  certEvents : List CertEventRow
  simulationSessionSummaries : List SummaryRow

namespace Postgres

def empty : Postgres := ⟨[], [], [], []⟩

/-- The rows an `UPDATE … WHERE agent_type = $ AND version = $` reaches. -/
def updateComposition (agentType : String) (version : Int)
    (f : CompositionRow → CompositionRow) (rows : List CompositionRow) : List CompositionRow :=
  rows.map fun row => if row.agentType = agentType ∧ row.version = version then f row else row

/-- `jsonb_set(COALESCE(rationale, '{}'), '{rejection_reason}', to_jsonb(reason))`, which is `NULL`
for a `NULL` reason. -/
def setRejectionReason (reason : Option String) (rationale : Option Rationale) :
    Option Rationale :=
  reason.map fun text =>
    { rationale.getD ⟨none, none, none⟩ with rejectionReason := some text }

/-- The length check of the other `VARCHAR(n)` columns, which hold names; that blanks at the end do
not count is left out. -/
def checkLength (n : Nat) (s : String) : Except Exn Unit :=
  if s.length ≤ n then .ok ()
  else .error (.dataError s!"value too long for type character varying({n})")

/-- The range check of an `INT` column. -/
def checkInt (n : Int) : Except Exn Unit :=
  if -2147483648 ≤ n ∧ n ≤ 2147483647 then .ok ()
  else .error (.dataError "value out of int32 range")

def checkUnique (constraint : String) (violated : Bool) : Except Exn Unit :=
  if violated then .error (.uniqueViolation constraint) else .ok ()

def write (pg : Postgres) : SqlWrite → Except Exn Postgres
  | .insertAgentType row => do
    checkLength 100 row.name
    checkUnique "agent_types_pkey" (pg.agentTypes.any (·.id = row.id))
    checkUnique "agent_types_name_key" (pg.agentTypes.any (·.name = row.name))
    return { pg with agentTypes := pg.agentTypes ++ [row] }
  | .deleteAgentType id =>
    .ok { pg with agentTypes := pg.agentTypes.filter (·.id ≠ id) }
  | .approveComposition expertSignature signedAt agentType version => do
    let signature ← expertSignature.encodeVarchar 200
    return { pg with
      teamCompositions := updateComposition agentType version
        (fun row => { row with
          status := .approved, expertSignature := signature, signedAt := some signedAt })
        pg.teamCompositions }
  | .archiveComposition agentType version =>
    .ok { pg with
      teamCompositions := updateComposition agentType version
        (fun row => { row with status := .archived }) pg.teamCompositions }
  | .rejectComposition rejectionReason agentType version => do
    let reason ← rejectionReason.encode
    return { pg with
      teamCompositions := updateComposition agentType version
        (fun row => { row with
          status := .archived, rationale := setRejectionReason reason row.rationale })
        pg.teamCompositions }
  | .insertComposition row expertSignature => do
    let signature ← expertSignature.encodeVarchar 200
    checkLength 100 row.agentType
    checkInt row.version
    checkUnique "team_compositions_pkey" (pg.teamCompositions.any (·.id = row.id))
    checkUnique "team_compositions_agent_type_version_key"
      (pg.teamCompositions.any fun r => r.agentType = row.agentType ∧ r.version = row.version)
    return { pg with
      teamCompositions := pg.teamCompositions ++ [{ row with expertSignature := signature }] }
  | .insertCertEvent row => do
    checkLength 100 row.agentType
    checkLength 100 row.expertId
    checkUnique "cert_events_pkey" (pg.certEvents.any (·.id = row.id))
    return { pg with certEvents := pg.certEvents ++ [row] }
  | .insertSimulationSessionSummary row => do
    checkLength 100 row.agentType
    checkLength 100 row.sessionId
    return { pg with simulationSessionSummaries := pg.simulationSessionSummaries ++ [row] }

/-- A transaction takes effect as a whole or not at all. -/
def writeAll (pg : Postgres) (ws : List (Except Exn SqlWrite)) : Except Exn Postgres :=
  ws.foldlM (fun pg w => w >>= pg.write) pg

/-- `SELECT * FROM team_compositions WHERE agent_type = $1 ORDER BY version DESC LIMIT 1` -/
def latestComposition (pg : Postgres) (agentType : String) : Option CompositionRow :=
  (pg.teamCompositions.filter (·.agentType = agentType)).maxOn? (·.version)

/-- The answer to a statement, and the tables after it. -/
def eval (pg : Postgres) : (q : Sql) → Except Exn (q.Resp × Postgres)
  | .execute w => (pg.write w).map ((), ·)
  | .transaction ws => (pg.writeAll ws).map ((), ·)
  | .selectAgentTypeId name =>
    .ok ((pg.agentTypes.find? (·.name = name)).map (·.id), pg)
  | .selectAgentTypeByName name => .ok (pg.agentTypes.find? (·.name = name), pg)
  | .selectLatestComposition agentType => .ok (pg.latestComposition agentType, pg)
  | .selectMaxVersion agentType => .ok ((pg.latestComposition agentType).map (·.version), pg)
  | .selectLatestViolationsUnresolved agentType =>
    .ok (((pg.simulationSessionSummaries.filter (·.agentType = agentType)).maxOn?
      (·.closedAt)).map (·.violationsUnresolved), pg)
  | .selectCountSummaries agentType =>
    .ok ((pg.simulationSessionSummaries.filter (·.agentType = agentType)).length, pg)

end Postgres

end AgentWorx
