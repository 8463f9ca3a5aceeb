import AgentWorx.Verify.SessionCalls
import AgentWorx.Verify.Tables
import AgentWorx.Lib.RelyGuarantee

/-!
# What a request can do

`Effect request l` lists the changes that a segment of a request can make to the world, given the
last statement `l` the request has awaited. `handle_follows` proves once, over the code of every
request, that its segments are chains of these effects; an invariant of the system is then a case
analysis over the effects and the writes of `Verify.Tables`.

The effects of the three session calls on their session are the transitions of `SessionStep`, a
state machine over one session and its contracts.
-/

namespace AgentWorx

open Coop Coop.Sync

/-! ## Facts that stay -/

/-- The graph of the agent type can be read: its name is valid and its concept table exists. -/
def Ready (w : World) (agentType : String) : Prop :=
  matchesAgentTypePattern agentType = true ∧ .concept ∈ (w.graphs agentType).tables

def HasComposition (w : World) (agentType : String) : Prop :=
  ∃ row ∈ w.pg.teamCompositions, row.agentType = agentType

/-- The version of the agent type is stored, and its team has these contracts. -/
def HasTeam (w : World) (agentType : String) (version : Int) (agents : List AgentContract) : Prop :=
  ∃ row ∈ w.pg.teamCompositions, row.agentType = agentType ∧ row.version = version ∧
    row.agentList = agents

theorem HasTeam.composition {w : World} {agentType : String} {version : Int}
    {agents : List AgentContract} (h : HasTeam w agentType version agents) :
    HasComposition w agentType := by
  obtain ⟨row, hrow, htype, -⟩ := h
  exact ⟨row, hrow, htype⟩

/-- What no request takes back; every request relies on it across its awaits. -/
structure Persists (w w' : World) : Prop where
  env : w'.env = w.env
  tick : w.tick ≤ w'.tick
  ready : ∀ agentType, Ready w agentType → Ready w' agentType
  proposals : ∀ row ∈ w.pg.teamCompositions, ∃ row' ∈ w'.pg.teamCompositions, SameProposal row row'
  certEvents : ∀ row ∈ w.pg.certEvents, row ∈ w'.pg.certEvents

instance : IsPreorder World Persists where
  refl _ := ⟨rfl, le_rfl, fun _ h => h, fun row h => ⟨row, h, refl_of _ row⟩, fun _ h => h⟩
  trans _ _ _ h1 h2 := by
    refine ⟨h2.env.trans h1.env, h1.tick.trans h2.tick, fun a h => h2.ready a (h1.ready a h),
      fun row h => ?_, fun row h => h2.certEvents row (h1.certEvents row h)⟩
    obtain ⟨row', hrow', hsame⟩ := h1.proposals row h
    obtain ⟨row'', hrow'', hsame'⟩ := h2.proposals row' hrow'
    exact ⟨row'', hrow'', trans_of _ hsame hsame'⟩

/-- Nothing is taken back when the tables of the relational store stay as they are. -/
theorem Persists.of_pg {w w' : World} (henv : w'.env = w.env) (htick : w.tick ≤ w'.tick)
    (hready : ∀ agentType, Ready w agentType → Ready w' agentType) (hpg : w'.pg = w.pg) :
    Persists w w' where
  env := henv
  tick := htick
  ready := hready
  proposals row h := ⟨row, hpg ▸ h, refl_of _ row⟩
  certEvents _ h := hpg ▸ h

theorem Persists.team {w w' : World} (h : Persists w w') {agentType : String} {version : Int}
    {agents : List AgentContract} (hteam : HasTeam w agentType version agents) :
    HasTeam w' agentType version agents := by
  obtain ⟨row, hrow, rfl, rfl, rfl⟩ := hteam
  obtain ⟨row', hrow', hsame⟩ := h.proposals row hrow
  exact ⟨row', hrow', hsame.agentType, hsame.version, hsame.agentList⟩

theorem Persists.composition {w w' : World} (h : Persists w w') (agentType : String)
    (hcomposition : HasComposition w agentType) : HasComposition w' agentType := by
  obtain ⟨row, hrow, rfl⟩ := hcomposition
  have hteam : HasTeam w row.agentType row.version row.agentList := ⟨row, hrow, rfl, rfl, rfl⟩
  exact (h.team hteam).composition

/-! ## Effects -/

/-- The agent type whose graph learns from the request. -/
def Request.learns : Request → Option String
  | .create payload => some payload.name
  | .answer agentTypeId _ => some agentTypeId
  | _ => none

/-- The agent type whose score the request caches. -/
def Request.scores : Request → Option String
  | .answer agentTypeId _ | .readiness agentTypeId => some agentTypeId
  | _ => none

inductive Effect (request : Request) (l : Option (Event host)) : World → World → Prop
  | tick (w) : Effect request l w w.bump
  | knowledge {w name g} (hrequest : request.learns = some name) (h : Learns (w.graphs name) g) :
      Effect request l w (w.setGraph name g)
  | score {w name field value} (hrequest : request.scores = some name)
      (h : AgentField.IsScore field) :
      Effect request l w (w.setRedis (agentKey name field) (some value))
  | schema {w payload} (hrequest : request = .create payload) :
      Effect request l w ((initializeSchema payload.name).exec w).2
  /-- Creation writes the Redis keys of the new agent type, or deletes them in its rollback. -/
  | reset {w payload row field value} (hrequest : request = .create payload)
      (hlast : l = some ⟨.execute (.insertAgentType row), .ok ()⟩) (hname : row.name = payload.name)
      (hphase : field = .phase → value = none ∨ value = some (.text Phase.apprentice.value)) :
      Effect request l w (w.setRedis (agentKey payload.name field) value)
  | graduate {w row body} (hrequest : request = .cert1Approve row.agentType body)
      (hlast : l = some ⟨.execute (.insertCertEvent row), .ok ()⟩) (hrow : row ∈ w.pg.certEvents)
      (hgate : row.gate = .cert1) (hdecision : row.decision = .approved)
      (hexpert : row.expertId = body.expertId) :
      Effect request l w (w.setPhase row.agentType .journeyman journeymanLearningRate)
  | start {w agentType version createdAt agents} (hrequest : request = .createSession agentType)
      (hteam : HasTeam w agentType version agents) :
      Effect request l w
        ((w.bump.bump.setSession (w.env.uuid w.tick).toText
          (newSession (w.env.uuid w.tick).toText agentType version createdAt)).setSessionAgents
          (w.env.uuid w.tick).toText agents)
  | session {w sessionId session agents session' agents'}
      (hrequest : request.sessionId = some sessionId) (hs : w.sessions sessionId = some session)
      (ha : w.sessionAgents sessionId = some agents)
      (hstep : SessionStep request (session, agents) (session', agents')) :
      Effect request l w ((w.setSession sessionId session').setSessionAgents sessionId agents')
  | flush {w w' sessionId session agents} (hrequest : request = .close sessionId)
      (hs : w.sessions sessionId = some session) (hactive : session.status = .active)
      (ha : w.sessionAgents sessionId = some agents)
      (hstep : FlushStep session.agentTypeId agents w w') : Effect request l w w'

/-- What a segment of the request can do. -/
abbrev Segment (request : Request) (l : Option (Event host)) : World → World → Prop :=
  Relation.ReflTransGen (Effect request l)

instance (request : Request) (l : Option (Event host)) : IsPreorder World (Segment request l) where
  refl _ := .refl
  trans _ _ _ h1 h2 := h1.trans h2

instance (request : Request) (l : Option (Event host)) : Ticks (Segment request l) where
  tick w := .single (.tick w)

theorem Segment.learning {request : Request} {l : Option (Event host)} {name : String}
    (h : request.learns = some name) : Learning name (Segment request l) :=
  ⟨fun _ _ hg => .single (.knowledge h hg)⟩

theorem Segment.scores {request : Request} {l : Option (Event host)} {name : String}
    (h : request.scores = some name) : Scores name (Segment request l) :=
  ⟨fun _ _ _ hfield => .single (.score h hfield)⟩

def Request.approvesProposal : Request → Bool
  | .reviewProposal _ body => body.action = some "approve"
  | _ => false

/-- The version of the agent type that the statement has read, zero if there was none. -/
def versionRead (agentType : String) : Option (Event host) → Option Int
  | some ⟨.selectMaxVersion name, .ok version⟩ =>
    if name = agentType then some (Option.getD version 0) else none
  | some ⟨.selectLatestComposition name, .ok (some row)⟩ =>
    if name = agentType then some (CompositionRow.version row) else none
  | _ => none

/-- The writes a request may issue in a statement `q` after its last statement `l`, and what holds
when they are served. -/
def SqlWrite.Allowed (request : Request) (l : Option (Event host)) (w : World) (q : Sql) :
    SqlWrite → Prop
  | .approveComposition expertSignature signedAt agentType version =>
    q = .execute (.approveComposition expertSignature signedAt agentType version) ∧
    request.approvesProposal ∧
    ∃ row, l = some ⟨.selectLatestComposition agentType, .ok (some row)⟩ ∧
      row.version = version ∧ (rowToArtifact row).Mutable
  | .insertComposition row _ => (Ready w row.agentType ∨ HasComposition w row.agentType) ∧
    ∃ version ∈ versionRead row.agentType l, row.version = version + 1
  | .insertCertEvent row => q = .execute (.insertCertEvent row) ∧
    (row.decision = .approved → ∃ body, request = .cert1Approve row.agentType body)
  | .insertSimulationSessionSummary row => request = .close row.sessionId
  | .insertAgentType row => ∃ payload, request = .create payload ∧ row.name = payload.name
  | .deleteAgentType _ => ∃ payload, request = .create payload
  | _ => True

/-- What the request has just made sure of when it issues a write. -/
def SqlWrite.Issued (w : World) : SqlWrite → Prop
  | .insertCertEvent row => readPhase w.redis row.agentType = .text Phase.apprentice.value
  | .insertSimulationSessionSummary row => ∃ session closedAt,
      w.sessions row.sessionId = some session ∧ session.status = .closed ∧
      row = summaryRow row.sessionId session closedAt
  | _ => True

/-- What the request may do and what it relies on. -/
def effects (request : Request) : Spec host where
  issue _ w q := ∀ wr ∈ q.writes, wr.Issued w
  stmt l w q := ∀ wr ∈ q.writes, wr.Allowed request l w q
  seg l := Segment request l
  rely := Persists
  seg_preorder _ := inferInstance
  rely_preorder := inferInstance

/-! ## Effects keep what persists -/

/-- Tables of the graph `name` have been created, and time has passed. -/
structure Provisions (name : String) (w w' : World) : Prop where
  env : w'.env = w.env
  tick : w.tick ≤ w'.tick
  pg : w'.pg = w.pg
  redis : w'.redis = w.redis
  sessions : w'.sessions = w.sessions
  sessionAgents : w'.sessionAgents = w.sessionAgents
  others : ∀ a, a ≠ name → w'.graphs a = w.graphs a
  graph : ∃ tables, (∀ t ∈ (w.graphs name).tables, t ∈ tables) ∧
    w'.graphs name = { w.graphs name with tables := tables }

instance (name : String) : IsPreorder World (Provisions name) where
  refl w := ⟨rfl, le_rfl, rfl, rfl, rfl, rfl, fun _ _ => rfl, (w.graphs name).tables,
    fun _ h => h, rfl⟩
  trans w1 w2 w3 h1 h2 := by
    obtain ⟨tables1, hsub1, hg1⟩ := h1.graph
    obtain ⟨tables2, hsub2, hg2⟩ := h2.graph
    refine ⟨h2.env.trans h1.env, h1.tick.trans h2.tick, h2.pg.trans h1.pg,
      h2.redis.trans h1.redis, h2.sessions.trans h1.sessions,
      h2.sessionAgents.trans h1.sessionAgents,
      fun a ha => (h2.others a ha).trans (h1.others a ha), tables2, fun t ht => ?_, ?_⟩
    · exact hsub2 t (by simpa [hg1] using hsub1 t ht)
    · rw [hg2, hg1]

theorem initializeSchema_provisions (name : String) :
    Keeps (Provisions name) (initializeSchema name) := by
  have htick (w : World) : Provisions name w w.bump :=
    ⟨rfl, Nat.le_succ _, rfl, rfl, rfl, rfl, fun _ _ => rfl, (w.graphs name).tables,
      fun _ h => h, rfl⟩
  have hcreate (t : GraphTable) : Keeps (Provisions name) (execute name (.createTable t) []) := by
    refine keeps_execute htick fun w u g hg => ?_
    simp only [Cypher.createTable, Cypher.update, Except.ok.injEq, Prod.mk.injEq] at hg
    obtain ⟨-, rfl⟩ := hg
    refine ⟨rfl, le_rfl, rfl, rfl, rfl, rfl, fun a ha => Function.update_of_ne ha _ _, ?_⟩
    split_ifs with h
    · exact ⟨(w.graphs name).tables, fun _ ht => ht, by simp⟩
    · exact ⟨(w.graphs name).tables ++ [t], fun _ ht => by simp [ht], by simp⟩
  have hddl (ts : List GraphTable) : Keeps (Provisions name)
      ((ts.map Cypher.createTable).forM fun ddl => execute name ddl []) := by
    induction ts with
    | nil => exact .pure _
    | cons t ts ih => exact .bind (hcreate t) fun _ => ih
  exact hddl _

theorem Provisions.persists {name : String} {w w' : World} (h : Provisions name w w') :
    Persists w w' := by
  refine .of_pg h.env h.tick (fun a ha => ⟨ha.1, ?_⟩) h.pg
  by_cases hname : a = name
  · subst hname
    obtain ⟨tables, hsub, hg⟩ := h.graph
    rw [hg]
    exact hsub _ ha.2
  · rw [h.others a hname]
    exact ha.2

variable {request : Request} {l : Option (Event host)} {w w' : World}

theorem Effect.persists (h : Effect request l w w') : Persists w w' := by
  have hgraph (name : String) (g : Graph) (hg : g.tables = (w.graphs name).tables) :
      Persists w (w.setGraph name g) := by
    refine .of_pg rfl le_rfl (fun a ha => ⟨ha.1, ?_⟩) rfl
    by_cases hname : a = name
    · subst hname
      simpa [hg] using ha.2
    · simpa [hname] using ha.2
  cases h with
  | tick => exact .of_pg rfl (Nat.le_succ _) (fun _ h => h) rfl
  | knowledge _ h => exact hgraph _ _ h.tables
  | schema hrequest => exact (initializeSchema_provisions _ w).persists
  | start => exact .of_pg rfl (by simp; omega) (fun _ h => h) rfl
  | flush _ _ _ _ hstep =>
    cases hstep with
    | tick => exact .of_pg rfl (Nat.le_succ _) (fun _ h => h) rfl
    | role _ hg =>
      refine hgraph _ _ ?_
      cases hg <;> rfl
    | handoffs => exact hgraph _ _ rfl
  | score => exact .of_pg rfl le_rfl (fun _ h => h) rfl
  | reset => exact .of_pg rfl le_rfl (fun _ h => h) rfl
  | graduate => exact .of_pg rfl le_rfl (fun _ h => h) rfl
  | session => exact .of_pg rfl le_rfl (fun _ h => h) rfl

/-- What every effect keeps, a segment keeps. -/
theorem Segment.keeps {R : World → World → Prop} [IsPreorder World R]
    (h : ∀ w w', Effect request l w w' → R w w') (hs : Segment request l w w') : R w w' := by
  induction hs with
  | refl => exact refl_of R w
  | tail _ he ih => exact trans_of R ih (h _ _ he)

/-- Segments do not touch the relational store. -/
theorem Segment.pg (h : Segment request l w w') : w'.pg = w.pg := by
  refine h.keeps (R := Same World.pg) fun w w' he => ?_
  cases he with
  | @schema payload => exact (initializeSchema_provisions payload.name w).pg
  | flush _ _ _ _ hstep => cases hstep <;> rfl
  | _ => rfl

theorem Segment.persists (h : Segment request l w w') : Persists w w' :=
  h.keeps fun _ _ => Effect.persists

/-- An effect leaves a session and its contracts alone, starts the session under an id that has just
been drawn, or is a transition of it. -/
theorem Effect.session_cases (h : Effect request l w w') (sessionId : String) :
    (w'.sessions sessionId = w.sessions sessionId ∧
      w'.sessionAgents sessionId = w.sessionAgents sessionId) ∨
    (∃ agentType version createdAt agents, request = .createSession agentType ∧
      HasTeam w agentType version agents ∧ sessionId = (w.env.uuid w.tick).toText ∧
      w.tick < w'.tick ∧
      w'.sessions sessionId = some (newSession sessionId agentType version createdAt) ∧
      w'.sessionAgents sessionId = some agents) ∨
    ∃ session agents session' agents', request.sessionId = some sessionId ∧
      w.sessions sessionId = some session ∧ w.sessionAgents sessionId = some agents ∧
      SessionStep request (session, agents) (session', agents') ∧
      w'.sessions sessionId = some session' ∧ w'.sessionAgents sessionId = some agents' := by
  cases h with
  | tick | knowledge | score | reset | graduate => exact .inl ⟨rfl, rfl⟩
  | @schema payload =>
    have hschema := initializeSchema_provisions payload.name w
    exact .inl ⟨by rw [hschema.sessions], by rw [hschema.sessionAgents]⟩
  | flush _ _ _ _ hstep => cases hstep <;> exact .inl ⟨rfl, rfl⟩
  | @start agentType version createdAt agents hrequest hteam =>
    by_cases hid : sessionId = (w.env.uuid w.tick).toText
    · subst hid
      exact .inr (.inl ⟨agentType, version, createdAt, agents, hrequest, hteam, rfl,
        Nat.lt_add_of_pos_right (Nat.succ_pos 1), by simp, by simp⟩)
    · exact .inl (by simp [hid])
  | @session id session agents session' agents' hrequest hs ha hstep =>
    by_cases hid : sessionId = id
    · subst hid
      exact .inr (.inr ⟨session, agents, session', agents', hrequest, hs, ha, hstep, by simp,
        by simp⟩)
    · exact .inl (by simp [hid])

/-- The roles of a graph change only when an active session of the agent type is being closed, and
then by one of its contracts. -/
theorem Effect.roles_cases (h : Effect request l w w') (agentType : String) :
    (w'.graphs agentType).roles = (w.graphs agentType).roles ∨
    ∃ sessionId session agents agent, request = .close sessionId ∧
      w.sessions sessionId = some session ∧ session.status = .active ∧
      w.sessionAgents sessionId = some agents ∧ session.agentTypeId = agentType ∧ agent ∈ agents ∧
      UpsertsRole w agent (w.graphs agentType) (w'.graphs agentType) := by
  have hgraph (name : String) (g : Graph) (hg : g.roles = (w.graphs name).roles) :
      ((w.setGraph name g).graphs agentType).roles = (w.graphs agentType).roles := by
    by_cases hname : agentType = name
    · subst hname
      simpa using hg
    · simp [hname]
  cases h with
  | tick | score | reset | graduate | start | session => exact .inl rfl
  | knowledge _ h => exact .inl (hgraph _ _ h.roles)
  | @schema payload =>
    have hschema := initializeSchema_provisions payload.name w
    by_cases hname : agentType = payload.name
    · subst hname
      obtain ⟨tables, -, hg⟩ := hschema.graph
      exact .inl (by rw [hg])
    · exact .inl (by rw [hschema.others agentType hname])
  | @flush _ _ session _ hrequest hs hactive ha hstep =>
    cases hstep with
    | tick => exact .inl rfl
    | handoffs => exact .inl (hgraph _ _ rfl)
    | role hagent hrole =>
      by_cases hname : agentType = session.agentTypeId
      · subst hname
        exact .inr ⟨_, _, _, _, hrequest, hs, hactive, ha, rfl, hagent, by simpa using hrole⟩
      · exact .inl (by simp [hname])

/-- Rows of both tables stay, so serving a statement takes nothing back. -/
theorem serve_persists (q : Sql) (w : World) : Persists w (World.serve q w).2 := by
  refine ⟨by simp, by simp, fun a ha => by simpa [Ready] using ha, fun row hrow => ?_, ?_⟩
  · refine World.serve_keeps
      (R := Preserves fun pg : Postgres => ∃ row' ∈ pg.teamCompositions, SameProposal row row')
      (fun pg pg' wr _ hwr => ?_) ⟨row, hrow, refl_of _ row⟩
    rintro ⟨row', hrow', hsame⟩
    rcases Postgres.write_teamCompositions hwr with
      ⟨-, h⟩ | ⟨_, _, f, -, hf, h⟩ | ⟨_, _, _, -, -, h⟩
    · exact ⟨row', h ▸ hrow', hsame⟩
    · rw [h]
      refine ⟨_, List.mem_map_of_mem hrow', ?_⟩
      split_ifs
      · exact trans_of _ hsame (hf row').1
      · exact hsame
    · exact ⟨row', by simp [h, hrow'], hsame⟩
  · intro row
    refine World.serve_keeps (R := Preserves fun pg : Postgres => row ∈ pg.certEvents)
      fun pg pg' wr _ hwr hrow => ?_
    rcases Postgres.write_certEvents hwr with ⟨row', -, h⟩ | ⟨-, h⟩ <;> simp [h, hrow]

end AgentWorx
