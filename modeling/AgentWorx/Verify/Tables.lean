import AgentWorx.Infra.World

/-!
# What a statement can do to the tables

The inversion lemmas of `Postgres.write`, one for each table a result is about, and their form for a
served statement. Rows are only ever appended to `team_compositions` and `cert_events`, and a status
update leaves the key of a row alone.
-/

namespace AgentWorx

open Coop.Sync (except_bind_eq_ok)

/-- The writes of a statement, in the order they are issued. -/
def Sql.writes : Sql → List SqlWrite
  | .execute w => [w]
  | .transaction ws => ws.filterMap fun
    | .ok w => some w
    | .error _ => none
  | _ => []

namespace SqlWrite

/-- The agent type and version whose status a write sets. -/
def decided : SqlWrite → Option (String × Int)
  | .approveComposition _ _ agentType version => some (agentType, version)
  | .archiveComposition agentType version => some (agentType, version)
  | .rejectComposition _ agentType version => some (agentType, version)
  | _ => none

/-- The status that a status update sets. -/
def newStatus : SqlWrite → CompositionStatus
  | .approveComposition .. => .approved
  | _ => .archived

theorem newStatus_ne_proposed (w : SqlWrite) : w.newStatus ≠ .proposed := by
  cases w <;> simp [newStatus]

end SqlWrite

/-- The columns that no status update writes are the same. -/
structure SameProposal (row row' : CompositionRow) : Prop where
  id : row'.id = row.id
  agentType : row'.agentType = row.agentType
  version : row'.version = row.version
  topology : row'.topology = row.topology
  agentList : row'.agentList = row.agentList
  contracts : row'.contracts = row.contracts
  createdAt : row'.createdAt = row.createdAt

instance : IsPreorder CompositionRow SameProposal where
  refl _ := ⟨rfl, rfl, rfl, rfl, rfl, rfl, rfl⟩
  trans _ _ _ h1 h2 := ⟨h2.id.trans h1.id, h2.agentType.trans h1.agentType,
    h2.version.trans h1.version, h2.topology.trans h1.topology, h2.agentList.trans h1.agentList,
    h2.contracts.trans h1.contracts, h2.createdAt.trans h1.createdAt⟩

namespace Postgres

variable {pg pg' : Postgres} {w : SqlWrite}

/-! ## One write -/

theorem checkUnique_ok {constraint : String} {violated : Bool} {u : Unit}
    (h : checkUnique constraint violated = .ok u) : violated = false := by
  cases violated with
  | false => rfl
  | true => simp [checkUnique] at h

theorem write_insertComposition {row : CompositionRow} {expertSignature : TextParam}
    (h : pg.write (.insertComposition row expertSignature) = .ok pg') :
    (∀ r ∈ pg.teamCompositions, ¬ (r.agentType = row.agentType ∧ r.version = row.version)) ∧
    ∃ signature, pg'.teamCompositions =
      pg.teamCompositions ++ [{ row with expertSignature := signature }] := by
  simp only [write, except_bind_eq_ok] at h
  obtain ⟨signature, -, u1, -, u2, -, u3, -, u4, hkey, h⟩ := h
  cases h
  have := checkUnique_ok hkey
  exact ⟨by simpa using this, signature, rfl⟩

theorem write_teamCompositions (h : pg.write w = .ok pg') :
    (w.decided = none ∧ pg'.teamCompositions = pg.teamCompositions) ∨
    (∃ agentType version f, w.decided = some (agentType, version) ∧
      (∀ row, SameProposal row (f row) ∧ (f row).status = w.newStatus) ∧
      pg'.teamCompositions = updateComposition agentType version f pg.teamCompositions) ∨
    (∃ row expertSignature signature, w = .insertComposition row expertSignature ∧
      (∀ r ∈ pg.teamCompositions, ¬ (r.agentType = row.agentType ∧ r.version = row.version)) ∧
      pg'.teamCompositions =
        pg.teamCompositions ++ [{ row with expertSignature := signature }]) := by
  cases w with
  | approveComposition expertSignature signedAt agentType version =>
    simp only [write, except_bind_eq_ok] at h
    obtain ⟨signature, -, h⟩ := h
    cases h
    refine .inr (.inl ⟨agentType, version, _, rfl, ?_, rfl⟩)
    exact fun row => ⟨⟨rfl, rfl, rfl, rfl, rfl, rfl, rfl⟩, rfl⟩
  | archiveComposition agentType version =>
    cases h
    refine .inr (.inl ⟨agentType, version, _, rfl, ?_, rfl⟩)
    exact fun row => ⟨⟨rfl, rfl, rfl, rfl, rfl, rfl, rfl⟩, rfl⟩
  | rejectComposition rejectionReason agentType version =>
    simp only [write, except_bind_eq_ok] at h
    obtain ⟨reason, -, h⟩ := h
    cases h
    refine .inr (.inl ⟨agentType, version, _, rfl, ?_, rfl⟩)
    exact fun row => ⟨⟨rfl, rfl, rfl, rfl, rfl, rfl, rfl⟩, rfl⟩
  | insertComposition row expertSignature =>
    obtain ⟨hnew, signature, h⟩ := write_insertComposition h
    exact .inr (.inr ⟨row, expertSignature, signature, rfl, hnew, h⟩)
  | insertAgentType row =>
    simp only [write, except_bind_eq_ok] at h
    obtain ⟨u1, -, u2, -, u3, -, h⟩ := h
    cases h
    exact .inl ⟨rfl, rfl⟩
  | deleteAgentType id =>
    cases h
    exact .inl ⟨rfl, rfl⟩
  | insertCertEvent row =>
    simp only [write, except_bind_eq_ok] at h
    obtain ⟨u1, -, u2, -, u3, -, h⟩ := h
    cases h
    exact .inl ⟨rfl, rfl⟩
  | insertSimulationSessionSummary row =>
    simp only [write, except_bind_eq_ok] at h
    obtain ⟨u1, -, u2, -, h⟩ := h
    cases h
    exact .inl ⟨rfl, rfl⟩

theorem write_agentTypes (h : pg.write w = .ok pg') :
    (∃ row, w = .insertAgentType row ∧
      (∀ r ∈ pg.agentTypes, r.id ≠ row.id ∧ r.name ≠ row.name) ∧
      pg'.agentTypes = pg.agentTypes ++ [row]) ∨
    (∃ id, w = .deleteAgentType id ∧ pg'.agentTypes = pg.agentTypes.filter (·.id ≠ id)) ∨
    ((∀ row, w ≠ .insertAgentType row) ∧ (∀ id, w ≠ .deleteAgentType id) ∧
      pg'.agentTypes = pg.agentTypes) := by
  cases w with
  | insertAgentType row =>
    simp only [write, except_bind_eq_ok] at h
    obtain ⟨u1, -, u2, hid, u3, hname, h⟩ := h
    cases h
    have hid := checkUnique_ok hid
    have hname := checkUnique_ok hname
    simp only [List.any_eq_false, decide_eq_true_eq] at hid hname
    exact .inl ⟨row, rfl, fun r hr => ⟨hid r hr, hname r hr⟩, rfl⟩
  | deleteAgentType id =>
    cases h
    exact .inr (.inl ⟨id, rfl, rfl⟩)
  | _ =>
    refine .inr (.inr ⟨fun row => by simp, fun id => by simp, ?_⟩)
    simp [write, except_bind_eq_ok, pure, Except.pure] at h
    grind

theorem write_certEvents (h : pg.write w = .ok pg') :
    (∃ row, w = .insertCertEvent row ∧ pg'.certEvents = pg.certEvents ++ [row]) ∨
    ((∀ row, w ≠ .insertCertEvent row) ∧ pg'.certEvents = pg.certEvents) := by
  cases w with
  | insertCertEvent row =>
    simp only [write, except_bind_eq_ok] at h
    obtain ⟨u1, -, u2, -, u3, -, h⟩ := h
    cases h
    exact .inl ⟨row, rfl, rfl⟩
  | _ =>
    refine .inr ⟨fun row => by simp, ?_⟩
    simp [write, except_bind_eq_ok, pure, Except.pure] at h
    grind

theorem write_insertSummary {row : SummaryRow}
    (h : pg.write (.insertSimulationSessionSummary row) = .ok pg') :
    pg'.simulationSessionSummaries = pg.simulationSessionSummaries ++ [row] := by
  simp only [write, except_bind_eq_ok] at h
  obtain ⟨u1, -, u2, -, h⟩ := h
  cases h
  rfl

theorem write_summaries (h : pg.write w = .ok pg') :
    (∃ row, w = .insertSimulationSessionSummary row ∧
      pg'.simulationSessionSummaries = pg.simulationSessionSummaries ++ [row]) ∨
    pg'.simulationSessionSummaries = pg.simulationSessionSummaries := by
  cases w with
  | insertSimulationSessionSummary row => exact .inl ⟨row, rfl, write_insertSummary h⟩
  | _ =>
    refine .inr ?_
    simp [write, except_bind_eq_ok, pure, Except.pure] at h
    grind

/-! ## A statement -/

variable {q : Sql}

theorem eval_execute {wr : SqlWrite} {a : (Sql.execute wr).Resp}
    (h : pg.eval (.execute wr) = .ok (a, pg')) : pg.write wr = .ok pg' := by
  simp only [eval] at h
  cases hw : pg.write wr <;> rw [hw] at h <;> cases h
  rfl

theorem eval_transaction {ws : List (Except Exn SqlWrite)} {a : (Sql.transaction ws).Resp}
    (h : pg.eval (.transaction ws) = .ok (a, pg')) : pg.writeAll ws = .ok pg' := by
  simp only [eval] at h
  cases hw : pg.writeAll ws <;> rw [hw] at h <;> cases h
  rfl

/-- A statement that succeeds has made its writes one after another. -/
theorem eval_writes {a : q.Resp} (h : pg.eval q = .ok (a, pg')) :
    q.writes.foldlM write pg = .ok pg' := by
  cases q with
  | execute wr => simp [Sql.writes, eval_execute h]
  | transaction ws =>
    have hw := eval_transaction h
    clear h a
    induction ws generalizing pg with
    | nil => exact hw
    | cons w ws ih =>
      simp only [writeAll, List.foldlM_cons, except_bind_eq_ok] at hw
      obtain ⟨pg2, ⟨w', rfl, hw'⟩, hw⟩ := hw
      simp only [Sql.writes, List.filterMap_cons, List.foldlM_cons, except_bind_eq_ok]
      exact ⟨pg2, hw', ih hw⟩
  | _ =>
    cases h
    rfl

/-- What every write of a list keeps, the list keeps. -/
theorem writes_keep {R : Postgres → Postgres → Prop} [IsPreorder Postgres R] {ws : List SqlWrite}
    (h : ws.foldlM write pg = .ok pg')
    (hR : ∀ pg pg' w, w ∈ ws → pg.write w = .ok pg' → R pg pg') : R pg pg' := by
  induction ws generalizing pg with
  | nil =>
    cases h
    exact refl_of R _
  | cons w ws ih =>
    simp only [List.foldlM_cons, except_bind_eq_ok] at h
    obtain ⟨pg1, h1, h⟩ := h
    exact trans_of R (hR _ _ w (by simp) h1)
      (ih h fun pg pg' w' hw' => hR pg pg' w' (by simp [hw']))

/-- What every write of the statement keeps, the statement keeps. -/
theorem eval_keeps {R : Postgres → Postgres → Prop} [IsPreorder Postgres R] {a : q.Resp}
    (h : pg.eval q = .ok (a, pg'))
    (hR : ∀ pg pg' w, w ∈ q.writes → pg.write w = .ok pg' → R pg pg') : R pg pg' :=
  writes_keep (eval_writes h) hR

end Postgres

namespace World

variable {q : Sql} {w : World}

/-- A served statement fails and changes nothing, or has the effect of `Postgres.eval`. -/
theorem serve_cases (q : Sql) (w : World) :
    (∃ e, World.serve q w = (.error e, w.bump)) ∨
    (∃ a pg, w.pg.eval q = .ok (a, pg) ∧ World.serve q w = (.ok a, w.bump.setPg pg)) := by
  unfold World.serve World.call
  split_ifs with hf
  · exact .inl ⟨_, rfl⟩
  · simp only [bump_pg]
    cases h : w.pg.eval q with
    | error e => exact .inl ⟨e, rfl⟩
    | ok r => exact .inr ⟨r.1, r.2, rfl, rfl⟩

theorem serve_ok {a : q.Resp} (h : (World.serve q w).1 = .ok a) :
    ∃ pg, w.pg.eval q = .ok (a, pg) ∧ (World.serve q w).2 = w.bump.setPg pg := by
  rcases serve_cases q w with ⟨e, he⟩ | ⟨b, pg, hpg, he⟩
  · rw [he] at h
    cases h
  · rw [he] at h ⊢
    cases h
    exact ⟨pg, hpg, rfl⟩

/-- What the writes of a statement keep of the tables, serving it keeps. -/
theorem serve_keeps {R : Postgres → Postgres → Prop} [IsPreorder Postgres R]
    (hR : ∀ pg pg' wr, wr ∈ q.writes → pg.write wr = .ok pg' → R pg pg') :
    R w.pg (World.serve q w).2.pg := by
  rcases serve_cases q w with ⟨e, he⟩ | ⟨a, pg, hpg, he⟩
  · rw [he]
    exact refl_of R w.pg
  · rw [he]
    exact Postgres.eval_keeps hpg hR

/-- A served write fails and changes nothing, or takes effect. -/
theorem serve_write (wr : SqlWrite) (w : World) :
    (∃ e, World.serve (.execute wr) w = (.error e, w.bump)) ∨
    (∃ pg, w.pg.write wr = .ok pg ∧ World.serve (.execute wr) w = (.ok (), w.bump.setPg pg)) := by
  rcases serve_cases (.execute wr) w with h | ⟨a, pg, hpg, he⟩
  · exact .inl h
  · exact .inr ⟨pg, Postgres.eval_execute hpg, he⟩

/-- A row of the registry is only inserted if its id and its name are new. -/
theorem serve_insertAgentType (row : AgentTypeRow) (w : World) :
    (∃ e, World.serve (.execute (.insertAgentType row)) w = (.error e, w.bump)) ∨
    ((∀ r ∈ w.pg.agentTypes, r.id ≠ row.id ∧ r.name ≠ row.name) ∧
      ∃ pg, World.serve (.execute (.insertAgentType row)) w = (.ok (), w.bump.setPg pg) ∧
        pg.agentTypes = w.pg.agentTypes ++ [row]) := by
  rcases serve_write (.insertAgentType row) w with h | ⟨pg, hpg, he⟩
  · exact .inl h
  · rcases Postgres.write_agentTypes hpg with ⟨row', hrow, hnew, hrows⟩ | ⟨id, hid, -⟩ | ⟨hno, -⟩
    · cases hrow
      exact .inr ⟨hnew, pg, he, hrows⟩
    · cases hid
    · exact absurd rfl (hno row)

theorem serve_execute (wr : SqlWrite) (w : World) :
    (World.serve (.execute wr) w).2.pg = w.pg ∨
    w.pg.write wr = .ok (World.serve (.execute wr) w).2.pg := by
  rcases serve_write wr w with ⟨e, he⟩ | ⟨pg, hpg, he⟩ <;> rw [he]
  · exact .inl rfl
  · exact .inr hpg

@[simp] theorem serve_env (q : Sql) (w : World) : (World.serve q w).2.env = w.env := by
  rcases serve_cases q w with ⟨e, he⟩ | ⟨a, pg, -, he⟩ <;> rw [he] <;> rfl

@[simp] theorem serve_tick (q : Sql) (w : World) : (World.serve q w).2.tick = w.tick + 1 := by
  rcases serve_cases q w with ⟨e, he⟩ | ⟨a, pg, -, he⟩ <;> rw [he] <;> rfl

@[simp] theorem serve_redis (q : Sql) (w : World) : (World.serve q w).2.redis = w.redis := by
  rcases serve_cases q w with ⟨e, he⟩ | ⟨a, pg, -, he⟩ <;> rw [he] <;> rfl

@[simp] theorem serve_graphs (q : Sql) (w : World) : (World.serve q w).2.graphs = w.graphs := by
  rcases serve_cases q w with ⟨e, he⟩ | ⟨a, pg, -, he⟩ <;> rw [he] <;> rfl

@[simp] theorem serve_sessions (q : Sql) (w : World) :
    (World.serve q w).2.sessions = w.sessions := by
  rcases serve_cases q w with ⟨e, he⟩ | ⟨a, pg, -, he⟩ <;> rw [he] <;> rfl

@[simp] theorem serve_sessionAgents (q : Sql) (w : World) :
    (World.serve q w).2.sessionAgents = w.sessionAgents := by
  rcases serve_cases q w with ⟨e, he⟩ | ⟨a, pg, -, he⟩ <;> rw [he] <;> rfl

end World

end AgentWorx
