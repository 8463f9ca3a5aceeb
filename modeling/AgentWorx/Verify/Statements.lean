import AgentWorx.Verify.Frames
import AgentWorx.Verify.Tables

/-!
# Single calls from a given state

Triples of the calls that segments are made of, and what a statement does on a graph whose tables
are there and whose store does not fail.
-/

namespace AgentWorx

open Coop Coop.Sync

variable {w : World} {name agentType : String}

/-! ## Rows -/

theorem Graph.mem_relatesToRows {g : Graph} {a b : Concept} {r : RelatesTo} :
    (a, r, b) ∈ g.relatesToRows ↔
      r ∈ g.relatesTo ∧ g.concept? r.source = some a ∧ g.concept? r.target = some b := by
  simp only [relatesToRows, List.mem_filterMap, Option.bind_eq_bind, Option.bind_eq_some_iff,
    Option.pure_def, Option.some.injEq, Prod.mk.injEq]
  constructor
  · rintro ⟨r', hr', a', ha, b', hb, rfl, rfl, rfl⟩
    exact ⟨hr', ha, hb⟩
  · rintro ⟨hr, ha, hb⟩
    exact ⟨r, hr, a, ha, b, hb, rfl, rfl, rfl⟩

/-! ## Triples -/

theorem uuid4_triple {Q : UUID → World → Prop} {E : Exn → World → Prop}
    (h : Q (w.env.uuid w.tick) w.bump) : Triple uuid4 w Q E := h

theorem datetimeNow_triple {Q : Datetime → World → Prop} {E : Exn → World → Prop}
    (h : Q ⟨w.env.clock w.tick, some 0⟩ w.bump) : Triple datetimeNow w Q E := h

theorem datetimeUtcnow_triple {Q : Datetime → World → Prop} {E : Exn → World → Prop}
    (h : Q ⟨w.env.clock w.tick, none⟩ w.bump) : Triple datetimeUtcnow w Q E := h

theorem liftExcept_triple {α : Type} {r : Except Exn α} {E : Exn → World → Prop} (hE : ∀ e, E e w) :
    Triple (liftExcept r) w (fun a w' => r = .ok a ∧ w' = w) E := by
  unfold Triple
  cases r with
  | error e => exact hE e
  | ok a => exact ⟨rfl, rfl⟩

/-- A command of Redis. -/
theorem callRedis_triple {key : String} {value : Option RedisValue} :
    Triple (fun w => w.call .redis fun w => (.ok (), w.setRedis key value)) w
      (fun _ w' => ¬ w.Fails .redis ∧ w' = w.bump.setRedis key value)
      fun e w' => w.Fails .redis ∧ e = .storeDown .redis ∧ w' = w.bump := by
  simp only [Triple, exec, World.call]
  split_ifs with h
  · exact ⟨h, rfl, rfl⟩
  · exact ⟨h, rfl⟩

theorem redisSet_triple {key : String} {value : RedisValue} :
    Triple (redisSet key value) w
      (fun _ w' => ¬ w.Fails .redis ∧ w' = w.bump.setRedis key (some value))
      fun e w' => w.Fails .redis ∧ e = .storeDown .redis ∧ w' = w.bump := callRedis_triple

theorem redisDelete_triple {key : String} :
    Triple (redisDelete key) w
      (fun _ w' => ¬ w.Fails .redis ∧ w' = w.bump.setRedis key none)
      fun e w' => w.Fails .redis ∧ e = .storeDown .redis ∧ w' = w.bump := callRedis_triple

/-- A statement raises before or after the call has been made, or does what its `eval` says. -/
theorem execute_rule {α : Type} {stmt : Cypher α} {params : List String} {Q : α → World → Prop}
    {E : Exn → World → Prop} (herr : ∀ e, E e w) (herr' : ∀ e, E e w.bump)
    (h : ∀ a g, stmt.eval (w.graphs name) = .ok (a, g) → Q a (w.bump.setGraph name g)) :
    Triple (execute name stmt params) w Q E := by
  unfold Triple
  rcases execute_cases name stmt params w with ⟨e, he⟩ | ⟨e, he⟩ | ⟨a, g, -, -, hg, he⟩ <;> rw [he]
  · exact herr e
  · exact herr' e
  · exact h a g hg

theorem query_rule {α : Type} {mentions : List String} {tables : List GraphTable} {f : Graph → α}
    {params : List String} {Q : α → World → Prop} {E : Exn → World → Prop} (herr : ∀ e, E e w)
    (herr' : ∀ e, E e w.bump) (h : Q (f (w.graphs name)) w.bump) :
    Triple (execute name (.query mentions tables f) params) w Q E :=
  execute_rule herr herr' fun a g hg => by
    cases hg
    rwa [← World.bump_graphs, World.setGraph_self]

/-- A statement that fails leaves the graph as it was. -/
theorem execute_triple {α : Type} {stmt : Cypher α} {params : List String}
    {Q : α → Graph → Prop} {I : Graph → Prop} (hI : I (w.graphs name))
    (h : ∀ a g, stmt.eval (w.graphs name) = .ok (a, g) → Q a g) :
    Triple (execute name stmt params) w (fun a w' => Q a (w'.graphs name))
      fun _ w' => I (w'.graphs name) :=
  execute_rule (fun _ => hI) (fun _ => hI) fun a g hg => by simpa using h a g hg

/-- A read of the graph. -/
theorem query_triple {α : Type} {mentions : List String} {tables : List GraphTable} {f : Graph → α}
    {params : List String} {I : Graph → Prop} (hI : I (w.graphs name)) :
    Triple (execute name (.query mentions tables f) params) w
      (fun a w' => a = f (w.graphs name) ∧ w'.graphs name = w.graphs name)
      fun _ w' => I (w'.graphs name) :=
  query_rule (fun _ => hI) (fun _ => hI) ⟨rfl, rfl⟩

/-! ## Statements on a graph with its tables -/

/-- The graph of the agent type has its tables. -/
structure HasSchema (w : World) (agentType : String) : Prop where
  name : matchesAgentTypePattern agentType = true
  tables : ∀ t, t ∈ (w.graphs agentType).tables

/-- A statement with the parameters it mentions raises only if its store fails, or its `eval`
raises. -/
theorem execute_served {α : Type} {stmt : Cypher α} {params : List String}
    (h : HasSchema w agentType)
    (hparams : w.env.strictParams = true → ∀ p ∈ params, p ∈ stmt.mentions) :
    Triple (execute agentType stmt params) w
      (fun a w' => ¬ w.Fails .kuzu ∧ ∃ g, stmt.eval (w.graphs agentType) = .ok (a, g) ∧
        w' = w.bump.setGraph agentType g)
      fun e w' => w' = w.bump ∧ (w.Fails .kuzu ∨ stmt.eval (w.graphs agentType) = .error e) := by
  simp only [Triple, exec, execute, World.call, Cypher.execute, h.name, if_true]
  split_ifs with hfail hrefused htable
  · exact ⟨rfl, .inl hfail⟩
  · obtain ⟨hstrict, p, hp, hno⟩ := hrefused
    exact absurd (hparams hstrict p hp) hno
  · obtain ⟨t, -, hno⟩ := htable
    exact absurd (h.tables t) hno
  · rw [World.bump_graphs]
    cases heval : stmt.eval (w.graphs agentType) with
    | error e => exact ⟨rfl, .inr rfl⟩
    | ok r => exact ⟨hfail, r.2, rfl, rfl⟩

/-- Some call of the graph store fails. -/
def KuzuFails (w : World) : Prop := ∃ m, w.env.fault m .kuzu = true

/-- A read of a graph that has its tables. -/
theorem query_served {α : Type} {mentions : List String} {tables : List GraphTable} {f : Graph → α}
    {params : List String} (h : HasSchema w agentType) (hparams : ∀ p ∈ params, p ∈ mentions) :
    Triple (execute agentType (.query mentions tables f) params) w
      (fun a w' => ¬ w.Fails .kuzu ∧ a = f (w.graphs agentType) ∧ w' = w.bump)
      fun _ w' => w' = w.bump ∧ w.Fails .kuzu := by
  apply (execute_served h fun _ => hparams).mono
  · rintro a w' ⟨hfail, g, hg, rfl⟩
    cases hg
    exact ⟨hfail, rfl, World.setGraph_self w.bump agentType⟩
  · rintro e w' ⟨rfl, hfail | heval⟩
    · exact ⟨rfl, hfail⟩
    · cases heval

/-! ## Statements on a ready graph -/

/-- The graph of the agent type has its tables, and its store does not fail. -/
structure GraphReady (w : World) (agentType : String) : Prop where
  name : matchesAgentTypePattern agentType = true
  tables : ∀ t, t ∈ (w.graphs agentType).tables
  healthy : ∀ n, w.env.fault n .kuzu = false

theorem GraphReady.hasSchema (h : GraphReady w agentType) : HasSchema w agentType :=
  ⟨h.name, h.tables⟩

theorem GraphReady.setGraph (h : GraphReady w agentType) {g : Graph}
    (hg : g.tables = (w.graphs agentType).tables) :
    GraphReady (w.bump.setGraph agentType g) agentType where
  name := h.name
  tables t := by simpa [hg] using h.tables t
  healthy := h.healthy

/-- A statement that finds its tables and mentions all its parameters does what its `eval` says. -/
theorem execute_healthy {α : Type} (stmt : Cypher α) (params : List String)
    (hname : matchesAgentTypePattern agentType = true) (hhealthy : ∀ n, w.env.fault n .kuzu = false)
    (htables : ∀ t ∈ stmt.tables, t ∈ (w.graphs agentType).tables)
    (hparams : ∀ p ∈ params, p ∈ stmt.mentions) :
    (execute agentType stmt params).exec w = match stmt.eval (w.graphs agentType) with
      | .ok (a, g) => (.ok a, w.bump.setGraph agentType g)
      | .error e => (.error e, w.bump) := by
  have hparams' : ¬ (w.env.strictParams = true ∧ ∃ p ∈ params, p ∉ stmt.mentions) := by
    rintro ⟨-, p, hp, hno⟩
    exact hno (hparams p hp)
  have htables' : ¬ ∃ t ∈ stmt.tables, t ∉ (w.graphs agentType).tables := by
    rintro ⟨t, ht, hno⟩
    exact hno (htables t ht)
  cases heval : stmt.eval (w.graphs agentType) <;>
    simp only [exec, execute, World.call, World.Fails, Cypher.execute, hname, hhealthy, if_true,
      World.bump_env, World.bump_graphs, hparams', htables', if_false, Bool.false_eq_true, heval]

/-- Over a healthy store every table that is asked for is there afterwards. -/
theorem createTables_tables (hname : matchesAgentTypePattern agentType = true)
    (hhealthy : ∀ n, w.env.fault n .kuzu = false) (ts : List GraphTable) :
    ∃ w', ((ts.map Cypher.createTable).forM fun ddl => execute agentType ddl []).exec w =
        (.ok (), w') ∧
      (∀ t ∈ (w.graphs agentType).tables, t ∈ (w'.graphs agentType).tables) ∧
      ∀ t ∈ ts, t ∈ (w'.graphs agentType).tables := by
  induction ts generalizing w with
  | nil => exact ⟨w, rfl, fun _ h => h, by simp⟩
  | cons t ts ih =>
    have hcreate := execute_healthy (Cypher.createTable t) [] hname hhealthy
      (by simp [Cypher.createTable, Cypher.update]) (by simp)
    simp only [Cypher.createTable, Cypher.update] at hcreate
    set w1 := w.bump.setGraph agentType (if t ∈ (w.graphs agentType).tables then w.graphs agentType
      else { w.graphs agentType with tables := (w.graphs agentType).tables ++ [t] }) with hw1
    have hsub : ∀ t' ∈ (w.graphs agentType).tables, t' ∈ (w1.graphs agentType).tables := by
      intro t' ht'
      rw [hw1]
      simp only [World.setGraph_graphs, Function.update_self]
      split_ifs
      · exact ht'
      · exact List.mem_append_left _ ht'
    have hnew : t ∈ (w1.graphs agentType).tables := by
      rw [hw1]
      simp only [World.setGraph_graphs, Function.update_self]
      split_ifs with ht
      · exact ht
      · simp
    obtain ⟨w', he, hsub', hall⟩ := ih (w := w1) hhealthy
    refine ⟨w', ?_, fun t' ht' => hsub' t' (hsub t' ht'), ?_⟩
    · change exec (execute agentType (Cypher.createTable t) [] >>= fun _ =>
        (ts.map Cypher.createTable).forM fun ddl => execute agentType ddl []) w = _
      exact (exec_bind_ok hcreate).trans he
    · intro t' ht'
      rcases List.mem_cons.mp ht' with rfl | ht'
      · exact hsub' _ hnew
      · exact hall t' ht'

theorem execute_ready {α : Type} (stmt : Cypher α) (params : List String)
    (h : GraphReady w agentType) (hparams : ∀ p ∈ params, p ∈ stmt.mentions) :
    (execute agentType stmt params).exec w = match stmt.eval (w.graphs agentType) with
      | .ok (a, g) => (.ok a, w.bump.setGraph agentType g)
      | .error e => (.error e, w.bump) :=
  execute_healthy stmt params h.name h.healthy (fun t _ => h.tables t) hparams

theorem query_ready {α : Type} {mentions : List String} {tables : List GraphTable} {f : Graph → α}
    {params : List String} (h : GraphReady w agentType) (hparams : ∀ p ∈ params, p ∈ mentions) :
    (execute agentType (.query mentions tables f) params).exec w =
      (.ok (f (w.graphs agentType)), w.bump) := by
  rw [execute_ready _ _ h hparams]
  exact congrArg _ (World.setGraph_self w.bump agentType)

theorem GraphReady.bump (h : GraphReady w agentType) : GraphReady w.bump agentType :=
  ⟨h.name, h.tables, h.healthy⟩

/-- A read raises only on a graph that is not ready, and it is not a validation that fails. -/
theorem query_reads {α : Type} {mentions : List String} {tables : List GraphTable} {f : Graph → α}
    {params : List String} (hparams : ∀ p ∈ params, p ∈ mentions) :
    Triple (execute agentType (.query mentions tables f) params) w
      (fun a w' => a = f (w.graphs agentType) ∧ w' = w.bump)
      fun e _ => ¬ GraphReady w agentType ∧ ∀ model, e ≠ .validationError model := by
  by_cases h : GraphReady w agentType
  · rw [Triple, query_ready h hparams]
    exact ⟨rfl, rfl⟩
  · simp only [Triple, exec, execute, World.call, Cypher.execute, Cypher.query, World.bump_graphs]
    split_ifs
    · exact ⟨h, by simp⟩
    · exact ⟨h, by simp⟩
    · exact ⟨h, by simp⟩
    · exact ⟨rfl, World.setGraph_self w.bump agentType⟩
    · exact ⟨h, by simp⟩

/-! ## Worlds that have only aged -/

/-- Nothing has changed but the time. -/
def Idle (w w' : World) : Prop := w' = { w with tick := w'.tick }

instance : IsPreorder World Idle where
  refl _ := rfl
  trans _ _ _ h1 h2 := by
    rw [Idle] at h1 h2
    rw [h1] at h2
    exact h2

instance : Ticks Idle := ⟨fun _ => rfl⟩

theorem Idle.graphReady {w w' : World} (h : Idle w w') (hw : GraphReady w name) :
    GraphReady w' name := by
  rw [h]
  exact ⟨hw.name, hw.tables, hw.healthy⟩

/-- A statement that does not write. -/
theorem World.serve_idle {q : Sql} (hq : q.writes = []) (w : World) :
    Idle w (World.serve q w).2 := by
  rcases World.serve_cases q w with ⟨e, he⟩ | ⟨a, pg, hpg, he⟩ <;> rw [he]
  · exact Ticks.tick w
  · have hpg := Postgres.eval_writes hpg
    rw [hq] at hpg
    cases hpg
    exact Ticks.tick w

/-- A read of the graph has failed. -/
def ReadFails (w : World) (name : String) (e : Exn) (_ : World) : Prop :=
  ¬ GraphReady w name ∧ ∀ model, e ≠ .validationError model

theorem ReadFails.idle {w w' w1 : World} {e : Exn} (h : ReadFails w' name e w1) (hw : Idle w w') :
    ReadFails w name e w1 := ⟨fun hready => h.1 (hw.graphReady hready), h.2⟩

/-- A read from a world that has only aged. -/
theorem query_idle {α : Type} {mentions : List String} {tables : List GraphTable} {f : Graph → α}
    {params : List String} {w w' : World} (hw : Idle w w') (hparams : ∀ p ∈ params, p ∈ mentions) :
    Triple (execute name (.query mentions tables f) params) w'
      (fun a w1 => a = f (w.graphs name) ∧ Idle w w1) (ReadFails w name) := by
  refine (query_reads hparams).mono (fun a w1 h => ⟨?_, ?_⟩) fun e w1 h =>
    ReadFails.idle h hw
  · rw [h.1, hw]
  · exact trans_of Idle hw (h.2 ▸ Ticks.tick w')

/-! ## Refused parameters -/

/-- A strict engine does not execute a statement with a parameter that it does not mention. -/
theorem execute_refused {α : Type} {stmt : Cypher α} {params : List String}
    (hstrict : w.env.strictParams = true) (hparams : ∃ p ∈ params, p ∉ stmt.mentions) :
    Triple (execute agentType stmt params) w (fun _ _ => False) fun _ _ => True := by
  simp only [Triple, exec, execute, World.call, Cypher.execute]
  split_ifs with hname hfail hrefused
  · trivial
  · trivial
  · exact absurd ⟨hstrict, hparams⟩ hrefused
  · exact absurd ⟨hstrict, hparams⟩ hrefused
  · trivial

end AgentWorx
