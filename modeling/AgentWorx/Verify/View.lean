import AgentWorx.Lib.Mirroring
import AgentWorx.Verify.Isolation

/-!
# What one agent type sees

`World.only` is the world of a service that holds nothing but one agent type. The calls of the
stores that are about the agent type mirror through it: they read and change nothing that it
forgets. The one thing they could learn of other agent types is that an id they insert is taken,
and `SqlWrite.Fresh` says that it is not.
-/

namespace AgentWorx

open Coop Coop.Sync

variable {name : String} {w w' : World} {α β : Type}

/-! ## The view -/

/-- The rows of the agent type. -/
def Postgres.only (pg : Postgres) (name : String) : Postgres where
  agentTypes := pg.agentTypes.filter (·.name = name)
  teamCompositions := pg.teamCompositions.filter (·.agentType = name)
  certEvents := pg.certEvents.filter (·.agentType = name)
  simulationSessionSummaries := pg.simulationSessionSummaries.filter (·.agentType = name)

/-- Is the key one of the agent type? -/
def IsAgentKey (name key : String) : Prop := ∃ field, key = agentKey name field

instance (name key : String) : Decidable (IsAgentKey name key) :=
  decidable_of_iff (∃ field ∈ [AgentField.phase, .learningRate, .readinessScore, .proposalReady,
      .certReady], key = agentKey name field)
    ⟨fun ⟨field, _, h⟩ => ⟨field, h⟩, fun ⟨field, h⟩ => ⟨field, by cases field <;> simp, h⟩⟩

/-- The world with nothing but what belongs to the agent type. -/
def World.only (w : World) (name : String) : World :=
  { w with
    pg := w.pg.only name
    redis := fun key => if IsAgentKey name key then w.redis key else none
    graphs := fun agentType => if agentType = name then w.graphs agentType else .empty
    sessions := fun id => (w.sessions id).filter (·.agentTypeId = name)
    sessionAgents := fun id =>
      if (w.sessions id).any (·.agentTypeId = name) then w.sessionAgents id else none }

/-- The session is one of the agent type. -/
def Holds (name sessionId : String) (sessions : String → Option SimulationSession) : Prop :=
  ∃ session, sessions sessionId = some session ∧ session.agentTypeId = name

theorem ite_update {κ : Type} [DecidableEq κ] {p : κ → Prop} [DecidablePred p] {k : κ} (h : p k)
    (f : κ → α) (a d : α) : (fun x => if p x then Function.update f k a x else d) =
      Function.update (fun x => if p x then f x else d) k a := by
  funext x
  by_cases hx : x = k
  · subst hx
    simp [h]
  · simp [hx]

namespace World

@[simp] theorem only_graphs : (w.only name).graphs name = w.graphs name := if_pos rfl

@[simp] theorem only_redis (field : AgentField) :
    (w.only name).redis (agentKey name field) = w.redis (agentKey name field) :=
  if_pos ⟨field, rfl⟩

theorem only_setGraph (w : World) (g : Graph) :
    (w.setGraph name g).only name = (w.only name).setGraph name g := by
  simp only [only, setGraph, mk.injEq, true_and]
  exact ⟨ite_update (p := (· = name)) rfl .., rfl⟩

theorem only_setRedis (w : World) (field : AgentField) (value : Option RedisValue) :
    (w.setRedis (agentKey name field) value).only name =
      (w.only name).setRedis (agentKey name field) value := by
  simp only [only, setRedis, mk.injEq, true_and]
  exact ⟨ite_update (p := IsAgentKey name) ⟨field, rfl⟩ .., rfl⟩

theorem only_setPhase (w : World) (phase : Phase) (learningRate : ℚ) :
    (w.setPhase name phase learningRate).only name =
      (w.only name).setPhase name phase learningRate := by
  rw [setPhase, setPhase, only_setRedis, only_setRedis]

variable {sessionId : String} {session : SimulationSession}

theorem only_sessions_of_holds (h : Holds name sessionId w.sessions) :
    (w.only name).sessions sessionId = w.sessions sessionId := by
  obtain ⟨session, hs, hname⟩ := h
  simp [only, hs, hname]

theorem only_sessionAgents_of_holds (h : Holds name sessionId w.sessions) :
    (w.only name).sessionAgents sessionId = w.sessionAgents sessionId := by
  obtain ⟨session, hs, hname⟩ := h
  simp [only, hs, hname]

/-- A session of the agent type is put among those that are seen. -/
theorem filter_update_session (hname : session.agentTypeId = name)
    (sessions : String → Option SimulationSession) :
    (fun id => (Function.update sessions sessionId (some session) id).filter
        (·.agentTypeId = name)) =
      Function.update (fun id => (sessions id).filter (·.agentTypeId = name)) sessionId
        (some session) := by
  funext id
  by_cases hid : id = sessionId
  · subst hid
    simp [hname]
  · simp [hid]

theorem only_setSession (h : Holds name sessionId w.sessions) (hname : session.agentTypeId = name) :
    (w.setSession sessionId session).only name = (w.only name).setSession sessionId session := by
  obtain ⟨session', hs, hname'⟩ := h
  simp only [only, setSession, mk.injEq, true_and]
  refine ⟨filter_update_session hname w.sessions, funext fun id => ?_⟩
  by_cases hid : id = sessionId
  · subst hid
    simp [hs, hname, hname']
  · simp [hid]

theorem only_setSessionAgents (h : Holds name sessionId w.sessions) (agents : List AgentContract) :
    (w.setSessionAgents sessionId agents).only name =
      (w.only name).setSessionAgents sessionId agents := by
  obtain ⟨session', hs, hname'⟩ := h
  simp only [only, setSessionAgents, mk.injEq, true_and]
  exact ite_update (by simp [hs, hname']) ..

/-- A new session comes with its copy of the contracts. -/
theorem only_openSession (w : World) (hname : session.agentTypeId = name)
    (agents : List AgentContract) :
    ((w.setSession sessionId session).setSessionAgents sessionId agents).only name =
      ((w.only name).setSession sessionId session).setSessionAgents sessionId agents := by
  simp only [only, setSession, setSessionAgents, mk.injEq, true_and]
  refine ⟨filter_update_session hname w.sessions, funext fun id => ?_⟩
  by_cases hid : id = sessionId
  · subst hid
    simp [hname]
  · simp [hid]

end World

/-- Time passes: calls are made that the agent type knows nothing of. -/
def World.wait (n : Nat) (w : World) : World := { w with tick := w.tick + n }

/-- Steps that leave everything of the agent type alone look like the passing of time. -/
theorem SameTenant.only (h : SameTenant name w w') (hp : Persists w w') :
    w'.only name = (w.only name).wait (w'.tick - w.tick) := by
  have hsessions (id : String) : (w'.sessions id).filter (·.agentTypeId = name) =
      (w.sessions id).filter (·.agentTypeId = name) := by
    ext session
    simp only [Option.filter_eq_some_iff, decide_eq_true_eq]
    exact and_congr_left fun hname => h.sessions id session hname
  have hany (id : String) : (w'.sessions id).any (·.agentTypeId = name) =
      (w.sessions id).any (·.agentTypeId = name) := by
    have hsome := congrArg Option.isSome (hsessions id)
    rwa [Option.isSome_filter, Option.isSome_filter] at hsome
  simp only [World.only, World.wait, World.mk.injEq]
  refine ⟨hp.env, (Nat.add_sub_of_le hp.tick).symm, ?_, ?_, ?_, funext hsessions, ?_⟩
  · simp only [Postgres.only, h.rows.agentTypes, h.rows.teamCompositions, h.rows.certEvents,
      h.rows.summaries]
  · funext key
    by_cases hkey : IsAgentKey name key
    · obtain ⟨field, rfl⟩ := hkey
      simp [h.redis field]
    · simp [hkey]
  · funext agentType
    by_cases hname : agentType = name
    · subst hname
      simp [h.graph]
    · simp [hname]
  · funext id
    rw [hany id]
    by_cases hheld : (w.sessions id).any (·.agentTypeId = name)
    · obtain ⟨session, hs, hname⟩ := (Option.any_eq_true ..).mp hheld
      rw [if_pos hheld, if_pos hheld]
      exact h.sessionAgents id session (of_decide_eq_true hname) hs
    · simp [hheld]

/-! ## Statements -/

/-- The write is about rows of the agent type. -/
def SqlWrite.About (name : String) : SqlWrite → Prop
  | .insertAgentType row => row.name = name
  | .deleteAgentType _ => True
  | .approveComposition _ _ agentType _ | .archiveComposition agentType _
  | .rejectComposition _ agentType _ => agentType = name
  | .insertComposition row _ => row.agentType = name
  | .insertCertEvent row => row.agentType = name
  | .insertSimulationSessionSummary row => row.agentType = name

/-- The id of a row that is inserted is not that of a row of another agent type. -/
def SqlWrite.Fresh (name : String) (pg : Postgres) : SqlWrite → Prop
  | .insertAgentType row => ∀ r ∈ pg.agentTypes, r.id = row.id → r.name = name
  | .insertComposition row _ => ∀ r ∈ pg.teamCompositions, r.id = row.id → r.agentType = name
  | .insertCertEvent row => ∀ r ∈ pg.certEvents, r.id = row.id → r.agentType = name
  | _ => True

instance (name : String) (pg : Postgres) : (wr : SqlWrite) → Decidable (wr.Fresh name pg)
  | .insertAgentType row =>
    inferInstanceAs (Decidable (∀ r ∈ pg.agentTypes, r.id = row.id → r.name = name))
  | .insertComposition row _ =>
    inferInstanceAs (Decidable (∀ r ∈ pg.teamCompositions, r.id = row.id → r.agentType = name))
  | .insertCertEvent row =>
    inferInstanceAs (Decidable (∀ r ∈ pg.certEvents, r.id = row.id → r.agentType = name))
  | .deleteAgentType _ | .approveComposition .. | .archiveComposition .. | .rejectComposition ..
  | .insertSimulationSessionSummary _ => isTrue trivial

/-- The statement is about rows of the agent type. -/
def Sql.About (name : String) : Sql → Prop
  | .execute wr => wr.About name
  | .transaction ws => ∀ wr, .ok wr ∈ ws → wr.About name
  | .selectAgentTypeId n | .selectAgentTypeByName n | .selectLatestComposition n
  | .selectMaxVersion n | .selectLatestViolationsUnresolved n | .selectCountSummaries n => n = name

/-- No id that the statement inserts is that of a row of another agent type. -/
def Sql.Fresh (name : String) (q : Sql) (pg : Postgres) : Prop :=
  ∀ wr ∈ q.writes, wr.Fresh name pg

instance (name : String) (q : Sql) (pg : Postgres) : Decidable (q.Fresh name pg) :=
  inferInstanceAs (Decidable (∀ wr ∈ q.writes, _))

namespace Postgres

variable {pg pg' : Postgres} {wr : SqlWrite}

/-- A row with the key is found among those of the agent type if no other agent type has one. -/
theorem any_only {rows : List α} {p q : α → Bool} (h : ∀ r ∈ rows, q r → p r) :
    (rows.filter p).any q = rows.any q := by
  rw [List.any_filter, Bool.eq_iff_iff, List.any_eq_true, List.any_eq_true]
  refine exists_congr fun r => and_congr_right fun hr => ?_
  rw [Bool.and_eq_true]
  exact and_iff_right_of_imp (h r hr)

theorem updateComposition_only {rows : List CompositionRow} {version : Int}
    {f : CompositionRow → CompositionRow} (hf : ∀ row, (f row).agentType = row.agentType) :
    updateComposition name version f (rows.filter (·.agentType = name)) =
      (updateComposition name version f rows).filter (·.agentType = name) := by
  rw [updateComposition, updateComposition, List.filter_map]
  congr 2
  funext row
  simp only [Function.comp_apply]
  split_ifs
  · rw [hf]
  · rfl

theorem map_bind {ε : Type} (x : Except ε α) (f : α → Except ε β) {γ : Type} (g : β → γ) :
    (x >>= f).map g = x >>= fun a => (f a).map g := by
  cases x <;> rfl

/-- A write about the agent type does to its rows what it does. -/
theorem write_only (habout : wr.About name) (hfresh : wr.Fresh name pg) :
    (pg.only name).write wr = (pg.write wr).map (·.only name) := by
  cases wr with
  | insertAgentType row =>
    obtain rfl : row.name = name := habout
    have hid : (pg.only row.name).agentTypes.any (·.id = row.id) =
        pg.agentTypes.any (·.id = row.id) :=
      any_only fun r hr hid => by simpa using hfresh r hr (by simpa using hid)
    have hname : (pg.only row.name).agentTypes.any (·.name = row.name) =
        pg.agentTypes.any (·.name = row.name) := any_only fun _ _ h => h
    simp only [write, hid, hname, map_bind]
    simp [only, pure, Except.pure, Except.map]
  | deleteAgentType id =>
    simp only [write, Except.map, only, List.filter_filter, Bool.and_comm]
  | approveComposition expertSignature signedAt agentType version =>
    obtain rfl : agentType = name := habout
    simp only [write, map_bind]
    simp [only, pure, Except.pure, Except.map, updateComposition_only]
  | archiveComposition agentType version =>
    obtain rfl : agentType = name := habout
    simp [write, only, Except.map, updateComposition_only]
  | rejectComposition rejectionReason agentType version =>
    obtain rfl : agentType = name := habout
    simp only [write, map_bind]
    simp [only, pure, Except.pure, Except.map, updateComposition_only]
  | insertComposition row expertSignature =>
    obtain rfl : row.agentType = name := habout
    have hid : (pg.only row.agentType).teamCompositions.any (·.id = row.id) =
        pg.teamCompositions.any (·.id = row.id) :=
      any_only fun r hr hid => by simpa using hfresh r hr (by simpa using hid)
    have hkey : (pg.only row.agentType).teamCompositions.any
          (fun r => r.agentType = row.agentType ∧ r.version = row.version) =
        pg.teamCompositions.any fun r => r.agentType = row.agentType ∧ r.version = row.version :=
      any_only fun r _ h => by simpa using (of_decide_eq_true h).1
    simp only [write, hid, hkey, map_bind]
    simp [only, pure, Except.pure, Except.map]
  | insertCertEvent row =>
    obtain rfl : row.agentType = name := habout
    have hid : (pg.only row.agentType).certEvents.any (·.id = row.id) =
        pg.certEvents.any (·.id = row.id) :=
      any_only fun r hr hid => by simpa using hfresh r hr (by simpa using hid)
    simp only [write, hid, map_bind]
    simp [only, pure, Except.pure, Except.map]
  | insertSimulationSessionSummary row =>
    obtain rfl : row.agentType = name := habout
    simp only [write, map_bind]
    simp [only, pure, Except.pure, Except.map]

/-- A write about the agent type takes no id for another. -/
theorem write_fresh {wr' : SqlWrite} (habout : wr.About name) (h : pg.write wr = .ok pg')
    (hfresh : wr'.Fresh name pg) : wr'.Fresh name pg' := by
  cases wr' with
  | insertAgentType row' =>
    rcases write_agentTypes h with ⟨row, rfl, -, hrows⟩ | ⟨id, -, hrows⟩ | ⟨-, -, hrows⟩ <;>
      intro r hr hid <;> rw [hrows] at hr
    · rcases List.mem_append.mp hr with hr | hr
      · exact hfresh r hr hid
      · rw [List.mem_singleton.mp hr]
        exact habout
    · exact hfresh r (List.mem_of_mem_filter hr) hid
    · exact hfresh r hr hid
  | insertComposition row' _ =>
    rcases write_teamCompositions h with ⟨-, hrows⟩ | ⟨agentType, version, f, -, hf, hrows⟩ |
      ⟨row, _, signature, rfl, -, hrows⟩ <;> intro r hr hid <;> rw [hrows] at hr
    · exact hfresh r hr hid
    · obtain ⟨r0, hr0, rfl⟩ := List.mem_map.mp hr
      split_ifs at hid ⊢
      · rw [(hf r0).1.agentType]
        exact hfresh r0 hr0 ((hf r0).1.id.symm.trans hid)
      · exact hfresh r0 hr0 hid
    · rcases List.mem_append.mp hr with hr | hr
      · exact hfresh r hr hid
      · rw [List.mem_singleton.mp hr]
        exact habout
  | insertCertEvent row' =>
    rcases write_certEvents h with ⟨row, rfl, hrows⟩ | ⟨-, hrows⟩ <;> intro r hr hid <;>
      rw [hrows] at hr
    · rcases List.mem_append.mp hr with hr | hr
      · exact hfresh r hr hid
      · rw [List.mem_singleton.mp hr]
        exact habout
    · exact hfresh r hr hid
  | _ => trivial

theorem writeAll_only {ws : List (Except Exn SqlWrite)} (habout : ∀ wr, .ok wr ∈ ws → wr.About name)
    (hfresh : ∀ wr, .ok wr ∈ ws → wr.Fresh name pg) :
    (pg.only name).writeAll ws = (pg.writeAll ws).map (·.only name) := by
  induction ws generalizing pg with
  | nil => rfl
  | cons w ws ih =>
    rw [writeAll, writeAll, List.foldlM_cons, List.foldlM_cons, map_bind]
    cases w with
    | error e => rfl
    | ok wr =>
      have hwr : (pg.only name).write wr = (pg.write wr).map (·.only name) :=
        write_only (habout wr List.mem_cons_self) (hfresh wr List.mem_cons_self)
      show ((pg.only name).write wr >>= _) = (pg.write wr >>= _)
      rw [hwr]
      cases hw : pg.write wr with
      | error e => rfl
      | ok pg1 =>
        refine ih (fun wr' h => habout wr' (List.mem_cons_of_mem _ h)) fun wr' h => ?_
        exact write_fresh (habout wr List.mem_cons_self) hw
          (hfresh wr' (List.mem_cons_of_mem _ h))

/-- A statement about the agent type finds the answer in its rows. -/
theorem eval_only {q : Sql} (habout : q.About name) (hfresh : q.Fresh name pg) :
    (pg.only name).eval q = (pg.eval q).map fun r => (r.1, r.2.only name) := by
  cases q with
  | execute wr =>
    simp only [eval, write_only habout (hfresh wr List.mem_cons_self)]
    cases pg.write wr <;> rfl
  | transaction ws =>
    have hws : (pg.only name).writeAll ws = (pg.writeAll ws).map (·.only name) :=
      writeAll_only habout fun wr h => hfresh wr (List.mem_filterMap.mpr ⟨_, h, rfl⟩)
    simp only [eval, hws]
    cases pg.writeAll ws <;> rfl
  | selectAgentTypeId n =>
    obtain rfl : n = name := habout
    simp [eval, only, Except.map]
  | selectAgentTypeByName n =>
    obtain rfl : n = name := habout
    simp [eval, only, Except.map]
  | selectLatestComposition n | selectMaxVersion n =>
    obtain rfl : n = name := habout
    simp [eval, latestComposition, only, Except.map]
  | selectLatestViolationsUnresolved n | selectCountSummaries n =>
    obtain rfl : n = name := habout
    simp [eval, only, Except.map]

end Postgres

/-- A call that does the same on the view also fails there in the same way. -/
theorem World.call_only {store : Store} {act : World → Except Exn α × World}
    (h : act (w.bump.only name) = ((act w.bump).1, (act w.bump).2.only name)) :
    (w.only name).call store act = ((w.call store act).1, (w.call store act).2.only name) := by
  simp only [call]
  by_cases hf : w.Fails store
  · rw [if_pos hf, if_pos (show (w.only name).Fails store from hf)]
    rfl
  · rw [if_neg hf, if_neg (show ¬ (w.only name).Fails store from hf)]
    exact h

theorem World.serve_only {q : Sql} (habout : q.About name) (hfresh : q.Fresh name w.pg) :
    World.serve q (w.only name) = ((World.serve q w).1, (World.serve q w).2.only name) := by
  refine World.call_only ?_
  have heval : (w.bump.only name).pg.eval q =
      (w.bump.pg.eval q).map fun r => (r.1, r.2.only name) := Postgres.eval_only habout hfresh
  simp only [heval]
  cases w.bump.pg.eval q <;> rfl

/-! ## Calls -/

/-- A call about the agent type: where `P` holds of the sessions it mirrors, and `P` still holds
afterwards. -/
abbrev Own (name : String) (P : (String → Option SimulationSession) → Prop) (Q : α → Prop)
    (m : Py α) : Prop := Sync.Mirrors (fun w => w.only name) (fun w => P w.sessions) Q m

variable {P : (String → Option SimulationSession) → Prop}

theorem liftExcept_own (r : Except Exn α) : Own name P (fun _ => True) (liftExcept r) :=
  fun _ hw => ⟨rfl, hw, fun _ _ => trivial⟩

/-- What follows a value whose computation may raise. -/
theorem liftExcept_bind_own {Q : β → Prop} {r : Except Exn α} {f : α → Py β}
    (h : ∀ a, Own name P Q (f a)) : Own name P Q (liftExcept r >>= f) :=
  (liftExcept_own r).andThen h

theorem call_own {store : Store} {act : World → Except Exn α × World}
    (h : ∀ w, act (w.only name) = ((act w).1, (act w).2.only name))
    (hsessions : ∀ w, (act w).2.sessions = w.sessions) :
    Own name P (fun _ => True) (fun w => w.call store act : Py α) := by
  intro w hw
  refine ⟨World.call_only (h w.bump), ?_, fun _ _ => trivial⟩
  show P (w.call store act).2.sessions
  rw [World.call]
  split_ifs
  · exact hw
  · rw [hsessions]
    exact hw

theorem datetimeNow_own : Own name P (fun _ => True) datetimeNow :=
  fun _ hw => ⟨rfl, hw, fun _ _ => trivial⟩

theorem datetimeUtcnow_own : Own name P (fun _ => True) datetimeUtcnow :=
  fun _ hw => ⟨rfl, hw, fun _ _ => trivial⟩

theorem uuid4_own : Own name P (fun _ => True) uuid4 :=
  fun _ hw => ⟨rfl, hw, fun _ _ => trivial⟩

theorem messagesCreate_own (prompt : Prompt) :
    Own name P (fun _ => True) (messagesCreate prompt) :=
  fun _ hw => ⟨rfl, hw, fun _ _ => trivial⟩

theorem execute_own (stmt : Cypher α) (params : List String) :
    Own name P (fun _ => True) (execute name stmt params) := by
  unfold execute
  by_cases hname : matchesAgentTypePattern name
  · simp only [if_pos hname]
    refine call_own (fun w => ?_) fun w => ?_
    · have henv : (w.only name).env = w.env := rfl
      rw [World.only_graphs, henv]
      cases stmt.execute w.env.strictParams params (w.graphs name) with
      | error e => rfl
      | ok r => exact congrArg (Prod.mk _) (World.only_setGraph w r.2).symm
    · split <;> rfl
  · simp only [if_neg hname]
    exact fun _ hw => ⟨rfl, hw, fun _ _ => trivial⟩

theorem redisGet_own (field : AgentField) :
    Own name P (fun _ => True) (redisGet (agentKey name field)) :=
  call_own (fun w => by rw [World.only_redis]) fun _ => rfl

theorem redisSet_own (field : AgentField) (value : RedisValue) :
    Own name P (fun _ => True) (redisSet (agentKey name field) value) :=
  call_own (fun w => by rw [World.only_setRedis]) fun _ => rfl

theorem redisDelete_own (field : AgentField) :
    Own name P (fun _ => True) (redisDelete (agentKey name field)) :=
  call_own (fun w => by rw [World.only_setRedis]) fun _ => rfl

theorem getAgentState_own : Own name P (fun _ => True) (getAgentState name) :=
  call_own (fun w => by simp [readAgentState, readPhase, readLearningRate]) fun _ => rfl

theorem setAgentPhase_own (phase : Phase) (learningRate : ℚ) :
    Own name P (fun _ => True) (setAgentPhase name phase learningRate) :=
  call_own (fun w => by rw [World.only_setPhase]) fun _ => rfl

end AgentWorx
