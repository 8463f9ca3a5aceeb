import AgentWorx.Verify.Effects
import AgentWorx.Verify.Statements
import AgentWorx.Verify.Sample

/-!
# What a creation leaves behind

The `try` block of `create_agent_type` and its rollback. `Initialized` is what the block has done
when it ends, normally or not: the root concepts it reports are new nodes at the end of the graph,
and nothing but the graph and the keys has changed. The rollback takes them away again if every one
of its calls succeeds. It calls Redis first, then the graph store, and deletes the row last, so a
store that is down for good stops it before the row is deleted.
-/

namespace AgentWorx

open Coop Coop.Sync

variable {w : World} {name : String} {payload : AgentTypeCreate}

/-! ## Calls and ticks -/

/-- A raised `storeDown` names a call that has failed. -/
def Reported (e : Exn) (w : World) : Prop :=
  ∀ s, e = .storeDown s → ∃ k, k < w.tick ∧ w.env.fault k s = true

/-- A statement takes effect after one tick, or raises and changes nothing. -/
theorem execute_reports {α : Type} {stmt : Cypher α} {params : List String}
    (hstmt : ∀ g e s, stmt.eval g = .error e → e ≠ .storeDown s) :
    Triple (execute name stmt params) w
      (fun a w' => ¬ w.Fails .kuzu ∧
        ∃ g, stmt.eval (w.graphs name) = .ok (a, g) ∧ w' = w.bump.setGraph name g)
      fun e w' => Idle w w' ∧ w'.tick ≤ w.tick + 1 ∧ Reported e w' := by
  simp only [Triple, exec, execute, World.call, Cypher.execute]
  split_ifs with hname hfail
  · refine ⟨rfl, le_rfl, fun s hs => ⟨w.tick, Nat.lt_succ_self _, ?_⟩⟩
    cases hs
    exact hfail
  · exact ⟨rfl, le_rfl, fun s hs => by cases hs⟩
  · exact ⟨rfl, le_rfl, fun s hs => by cases hs⟩
  · rw [World.bump_graphs]
    cases heval : stmt.eval (w.graphs name) with
    | error e => exact ⟨rfl, le_rfl, fun s hs => absurd hs (hstmt _ e s heval)⟩
    | ok r => exact ⟨hfail, r.2, rfl, rfl⟩
  · exact ⟨rfl, Nat.le_succ _, fun s hs => by cases hs⟩

/-- The schema takes one tick for each table. -/
theorem initializeSchema_ticks (name : String) (w : World) :
    Triple (initializeSchema name) w
      (fun _ w' => w'.tick = w.tick + 7 ∧ w'.env = w.env)
      fun e w' => w'.tick ≤ w.tick + 7 ∧ w'.env = w.env ∧ Reported e w' := by
  have hcreate (t : GraphTable) (w : World) : Triple (execute name (.createTable t) []) w
      (fun _ w' => w'.tick = w.tick + 1 ∧ w'.env = w.env)
      fun e w' => w'.tick ≤ w.tick + 1 ∧ w'.env = w.env ∧ Reported e w' := by
    apply (execute_reports (by simp [Cypher.createTable, Cypher.update])).mono
    · rintro u w' ⟨-, g, -, rfl⟩
      exact ⟨rfl, rfl⟩
    · rintro e w' ⟨hidle, htick, he⟩
      exact ⟨htick, by rw [hidle], he⟩
  have hddl (ts : List GraphTable) : ∀ w : World,
      Triple ((ts.map Cypher.createTable).forM fun ddl => execute name ddl []) w
        (fun _ w' => w'.tick = w.tick + ts.length ∧ w'.env = w.env)
        fun e w' => w'.tick ≤ w.tick + ts.length ∧ w'.env = w.env ∧ Reported e w' := by
    induction ts with
    | nil => exact fun w => .pure ⟨rfl, rfl⟩
    | cons t ts ih =>
      intro w
      rw [List.length_cons]
      apply Triple.bind ((hcreate t w).mono (fun _ _ h => h) fun e w' h => ⟨by omega, h.2⟩)
      intro _ w1 h1
      apply (ih w1).mono
      · exact fun _ w' h => ⟨by omega, h.2.trans h1.2⟩
      · exact fun e w' h => ⟨by omega, h.2.1.trans h1.2, h.2.2⟩
  exact hddl _ w

/-! ## Root concepts -/

theorem createConcept_error (concept : Concept) (g : Graph) (e : Exn) (s : Store)
    (h : (createConcept concept).eval g = .error e) : e ≠ .storeDown s := by
  simp only [createConcept] at h
  split_ifs at h
  cases h
  simp

theorem deleteConcept_error (id : String) (g : Graph) (e : Exn) (s : Store)
    (h : (deleteConcept id).eval g = .error e) : e ≠ .storeDown s := by
  simp only [deleteConcept] at h
  split_ifs at h
  cases h
  simp

/-- The concepts `roots` are new at the end of `g'`, and `g'` has no other concept that `g` does not
have. -/
structure Graph.Rooted (g g' : Graph) (roots : List Concept) : Prop where
  concepts : g'.concepts = g.concepts ++ roots
  nodup : (roots.map (·.id)).Nodup
  fresh : ∀ c ∈ g.concepts, c.id ∉ roots.map (·.id)
  root : ∀ c ∈ roots, c.nspace = "task" ∧ c.confidence = 0

theorem Graph.Rooted.create {g g' g'' : Graph} {roots : List Concept} {concept : Concept}
    {u : Unit} (h : g.Rooted g' roots) (hc : (createConcept concept).eval g' = .ok (u, g''))
    (hroot : concept.nspace = "task" ∧ concept.confidence = 0) :
    g.Rooted g'' (roots ++ [concept]) := by
  simp only [createConcept] at hc
  split_ifs at hc with hid
  cases hc
  have hid : ∀ c ∈ g.concepts ++ roots, c.id ≠ concept.id := by
    simpa [h.concepts, or_imp, forall_and] using hid
  refine ⟨by simp [h.concepts], ?_, fun c hc => ?_, fun c hc => ?_⟩
  · rw [List.map_append, List.map_singleton, List.nodup_append]
    refine ⟨h.nodup, List.nodup_singleton _, fun i hi j hj => ?_⟩
    obtain ⟨c, hc, rfl⟩ := List.mem_map.mp hi
    rw [List.mem_singleton.mp hj]
    exact hid c (List.mem_append_right _ hc)
  · rw [List.map_append, List.mem_append, not_or]
    exact ⟨h.fresh c hc, by simpa using hid c (List.mem_append_left _ hc)⟩
  · rcases List.mem_append.mp hc with hc | hc
    · exact h.root c hc
    · rw [List.mem_singleton.mp hc]
      exact hroot

/-- Deleting the first root. -/
theorem Graph.Rooted.delete {g g' g'' : Graph} {concept : Concept} {roots : List Concept}
    {u : Unit} (h : g.Rooted g' (concept :: roots))
    (hd : (deleteConcept concept.id).eval g' = .ok (u, g'')) : g.Rooted g'' roots := by
  simp only [deleteConcept] at hd
  split_ifs at hd
  cases hd
  obtain ⟨hnew, hnodup⟩ := List.nodup_cons.mp h.nodup
  refine ⟨?_, hnodup, fun c hc hr => ?_, fun c hc => h.root c (List.mem_cons_of_mem _ hc)⟩
  · show g'.concepts.filter (·.id ≠ concept.id) = g.concepts ++ roots
    rw [h.concepts, List.filter_append, List.filter_cons_of_neg (by simp)]
    congr 1
    · refine List.filter_eq_self.mpr fun c hc => ?_
      simpa using fun hid => h.fresh c hc (by simp [hid])
    · refine List.filter_eq_self.mpr fun c hc => ?_
      simpa using fun hid : c.id = concept.id => hnew (List.mem_map.mpr ⟨c, hc, hid⟩)
  · exact h.fresh c hc (List.mem_cons_of_mem _ hr)

/-- What the topic loop has done so far: nothing but new root concepts. -/
structure Planted (name : String) (w w' : World) (roots : List Concept) : Prop where
  env : w'.env = w.env
  pg : w'.pg = w.pg
  redis : w'.redis = w.redis
  graph : (w.graphs name).Rooted (w'.graphs name) roots

theorem Planted.idle {w w' w'' : World} {roots : List Concept} (h : Planted name w w' roots)
    (hidle : Idle w' w'') : Planted name w w'' roots := by
  rw [hidle]
  exact ⟨h.env, h.pg, h.redis, h.graph⟩

/-- How the topic loop ends that goes on from `w1` with the concepts `roots`: it raises with those
it has created, or has one for each topic. -/
structure Sown (name : String) (w w1 : World) (topics : List String) (roots roots' : List Concept)
    (raised : Option Exn) (w' : World) : Prop where
  planted : Planted name w w' roots'
  grows : roots <+: roots'
  labels : raised = none → roots'.map (·.label) = roots.map (·.label) ++ topics
  reported : ∀ e, raised = some e → Reported e w'
  stopped : topics ≠ [] → w.env.fault (w1.tick + 1) .kuzu = true → roots' = roots
  early : ∀ s, raised = some (.storeDown s) → roots' = roots →
    ∃ k, k ≤ w1.tick + 1 ∧ w.env.fault k s = true

theorem createRootConcepts_triple {w w1 : World} {now : Datetime} {topics : List String}
    {index : Nat} {roots : List Concept} (h : Planted name w w1 roots) :
    Triple (createRootConcepts name now topics index (roots.map (·.id))) w1
      (fun r w' => ∃ roots', r.1 = roots'.map (·.id) ∧ Sown name w w1 topics roots roots' r.2 w')
      fun _ _ => False := by
  induction topics generalizing index roots w1 with
  | nil => exact .pure ⟨roots, rfl, h, List.prefix_rfl, by simp, by simp, by simp, by simp⟩
  | cons topic topics ih =>
    apply Triple.bind (uuid4_triple (Q := fun _ w2 => w2 = w1.bump) rfl)
    rintro u _ rfl
    apply Triple.bind (M := fun r w2 =>
      (r = none → ¬ w1.bump.Fails .kuzu ∧ ∃ concept : Concept,
        concept.id = s!"root-{index}-{u.hexPrefix 8}" ∧ concept.label = topic ∧
        Planted name w w2 (roots ++ [concept])) ∧
      ∀ e, r = some e → Planted name w w2 roots ∧ w2.tick ≤ w1.tick + 2 ∧ Reported e w2)
    · apply Triple.attempt
      apply (execute_reports (createConcept_error _)).mono
      · rintro _ w2 ⟨hfail, g, hg, rfl⟩
        refine ⟨fun _ => ⟨hfail, ⟨_, topic, "task", 0, now⟩, rfl, rfl, h.env, h.pg, h.redis, ?_⟩,
          by simp⟩
        simpa using h.graph.create hg ⟨rfl, rfl⟩
      · rintro e w2 ⟨hidle, htick, hreported⟩
        refine ⟨by simp, fun e' he' => ?_⟩
        cases he'
        exact ⟨h.idle (trans_of Idle (Ticks.tick w1) hidle), htick, hreported⟩
    · rintro (_ | e) w2 h2
      · obtain ⟨hfail, concept, hid, hlabel, h2⟩ := h2.1 rfl
        have hids : roots.map (·.id) ++ [s!"root-{index}-{u.hexPrefix 8}"] =
            (roots ++ [concept]).map (·.id) := by simp [hid]
        dsimp only
        rw [hids]
        apply (ih h2).mono
        · rintro r w3 ⟨roots', hr, h3⟩
          -- the concept just created stays
          have hne : roots' ≠ roots := by
            rintro rfl
            simpa using h3.grows.length_le
          refine ⟨roots', hr, h3.planted, (List.prefix_append ..).trans h3.grows, fun hnone => ?_,
            h3.reported, fun _ hfault => ?_, fun s _ heq => absurd heq hne⟩
          · rw [h3.labels hnone, List.map_append, List.append_assoc, List.map_singleton, hlabel]
            rfl
          · rw [World.Fails, World.bump_env, World.bump_tick, h.env] at hfail
            exact absurd hfault hfail
        · exact fun _ _ h => h
      · obtain ⟨h3, htick, hreported⟩ := h2.2 e rfl
        refine .pure ⟨roots, rfl, h3, List.prefix_rfl, by simp, by simpa using hreported,
          fun _ _ => rfl, fun s hs _ => ?_⟩
        cases hs
        obtain ⟨k, hk, hfault⟩ := hreported s rfl
        exact ⟨k, by omega, h3.env ▸ hfault⟩

/-! ## The `try` block -/

/-- What the `try` block has done when it ends with the root concepts `roots`. The first of them is
created by its tenth call. -/
structure Initialized (payload : AgentTypeCreate) (w : World) (roots : List Concept)
    (raised : Option Exn) (w' : World) : Prop where
  env : w'.env = w.env
  pg : w'.pg = w.pg
  graph : (w.graphs payload.name).Rooted (w'.graphs payload.name) roots
  labels : raised = none → roots.map (·.label) = payload.topicList
  keys : raised = none → ∀ field value, field.initial = some value →
    w'.redis (agentKey payload.name field) = some value
  reported : ∀ e, raised = some e → Reported e w'
  stopped : w.env.fault (w.tick + 9) .kuzu = true → roots = []
  early : ∀ s, raised = some (.storeDown s) → roots = [] →
    ∃ k, k ≤ w.tick + 9 ∧ w.env.fault k s = true

/-- Nothing but the keys has changed. -/
def Rekeyed (w w' : World) : Prop := w' = { w with tick := w'.tick, redis := w'.redis }

/-- The three keys of a new agent type. -/
theorem initialKeys_triple (name : String) (w : World) :
    Triple (do
        redisSet (agentPhaseKey name) (.text Phase.apprentice.value)
        redisSet (agentLearningRateKey name) (.float 1)
        redisSet (agentReadinessScoreKey name) (.float 0)
        return (none : Option Exn)) w
      (fun raised w' => raised = none ∧ Rekeyed w w' ∧ ∀ field value, field.initial = some value →
        w'.redis (agentKey name field) = some value)
      fun e w' => Rekeyed w w' ∧ Reported e w' := by
  have hraise {w' : World} {e : Exn} (h : w'.Fails .redis ∧ e = .storeDown .redis) :
      Reported e w'.bump := by
    intro s hs
    rw [h.2] at hs
    cases hs
    exact ⟨w'.tick, Nat.lt_succ_self _, h.1⟩
  apply Triple.bind (redisSet_triple.mono (fun _ _ h => h.2) ?_)
  · rintro _ _ rfl
    apply Triple.bind (redisSet_triple.mono (fun _ _ h => h.2) ?_)
    · rintro _ _ rfl
      apply Triple.bind (redisSet_triple.mono (fun _ _ h => h.2) ?_)
      · rintro _ _ rfl
        refine .pure ⟨rfl, rfl, fun field value h => ?_⟩
        cases field <;> cases h <;> simp [Function.update]
      · rintro e _ ⟨hfail, he, rfl⟩
        exact ⟨rfl, hraise ⟨hfail, he⟩⟩
    · rintro e _ ⟨hfail, he, rfl⟩
      exact ⟨rfl, hraise ⟨hfail, he⟩⟩
  · rintro e _ ⟨hfail, he, rfl⟩
    exact ⟨rfl, hraise ⟨hfail, he⟩⟩

/-- The tables of the graph come before its first concept. -/
theorem initializeSchema_planted (name : String) (w : World) :
    Triple (tryCatch (do initializeSchema name; return none)
        fun e => return some e : Py (Option Exn)) w
      (fun r w1 => Planted name w w1 [] ∧ (r = none → w1.tick = w.tick + 7) ∧
        ∀ e, r = some e → w1.tick ≤ w.tick + 7 ∧ Reported e w1)
      fun _ _ => False := by
  have hschema := (initializeSchema_ticks name w).and
    (.of_keeps (initializeSchema_provisions name) w)
  have hplanted {w' : World} (h : Provisions name w w') : Planted name w w' [] := by
    obtain ⟨tables, -, hg⟩ := h.graph
    exact ⟨h.env, h.pg, h.redis, by rw [hg]; simp, List.nodup_nil, by simp, by simp⟩
  apply Triple.attempt
  apply hschema.mono
  · exact fun _ w1 h => ⟨hplanted h.2, fun _ => h.1.1, by simp⟩
  · rintro e w1 ⟨htick, h⟩
    refine ⟨hplanted h, by simp, fun e' he' => ?_⟩
    cases he'
    exact ⟨htick.1, htick.2.2⟩

/-- The keys are written after all root concepts. -/
theorem Sown.initialized {payload : AgentTypeCreate} {w w1 w2 w3 : World} {roots : List Concept}
    {raised : Option Exn} (h : Sown payload.name w w1 payload.topicList [] roots none w2)
    (htick : w1.tick = w.tick + 8) (hw3 : Rekeyed w2 w3)
    (hkeys : raised = none → ∀ field value, field.initial = some value →
      w3.redis (agentKey payload.name field) = some value)
    (hreported : ∀ e, raised = some e → Reported e w3) :
    Initialized payload w roots raised w3 := by
  have hne : payload.topicList ≠ [] := List.ne_nil_of_length_pos payload.topicList_length.1
  have hlabels : roots.map (·.label) = payload.topicList := by simpa using h.labels rfl
  have hroots : roots ≠ [] := by
    rintro rfl
    exact hne hlabels.symm
  refine ⟨?_, ?_, ?_, fun _ => hlabels, hkeys, hreported, fun hfault => ?_,
    fun _ _ h => absurd h hroots⟩
  · rw [hw3]
    exact h.planted.env
  · rw [hw3]
    exact h.planted.pg
  · rw [hw3]
    exact h.planted.graph
  · exact h.stopped hne (by rwa [htick])

theorem initializeAgentType_triple (payload : AgentTypeCreate) (w : World) :
    Triple (initializeAgentType payload) w
      (fun r w' => ∃ roots, r.1 = roots.map (·.id) ∧ Initialized payload w roots r.2 w')
      fun _ _ => False := by
  apply Triple.bind (initializeSchema_planted payload.name w)
  rintro (_ | e) w1 ⟨h1, htick, hraised⟩
  · refine .bind (M := fun _ w2 => w2 = w1.bump) rfl fun now _ hw2 => ?_
    subst hw2
    have h2 : Planted payload.name w w1.bump [] := h1.idle rfl
    have htick2 : w1.bump.tick = w.tick + 8 := congrArg (· + 1) (htick rfl)
    apply Triple.bind ((createRootConcepts_triple h2).mono (fun _ _ h => h) (by simp))
    rintro ⟨ids, raised⟩ w3 ⟨roots, rfl, h3⟩
    cases raised with
    | some e =>
      have hne : payload.topicList ≠ [] := List.ne_nil_of_length_pos payload.topicList_length.1
      refine .pure ⟨roots, rfl, h3.planted.env, h3.planted.pg, h3.planted.graph, by simp, by simp,
        h3.reported, fun hfault => h3.stopped hne (by rwa [htick2]), fun s hs hroots => ?_⟩
      have := h3.early s hs hroots
      rwa [htick2] at this
    | none =>
      apply Triple.bind (M := fun raised w4 => Initialized payload w roots raised w4)
      · apply Triple.tryCatch (M := fun e w4 => Rekeyed w3 w4 ∧ Reported e w4)
        · apply (initialKeys_triple payload.name w3).mono
          · rintro _ w4 ⟨rfl, h4, hkeys⟩
            exact h3.initialized htick2 h4 (fun _ => hkeys) (by simp)
          · exact fun _ _ h => h
        · rintro e w4 ⟨h4, hreported⟩
          exact .pure (h3.initialized htick2 h4 (by simp) (by simpa using hreported))
      · exact fun raised w4 h4 => .pure ⟨roots, rfl, h4⟩
  · obtain ⟨htick, hreported⟩ := hraised e rfl
    refine .pure ⟨[], rfl, h1.env, h1.pg, h1.graph, by simp, by simp, by simpa using hreported,
      fun _ => rfl, fun s hs _ => ?_⟩
    cases hs
    obtain ⟨k, hk, hfault⟩ := hreported s rfl
    exact ⟨k, by omega, h1.env ▸ hfault⟩

/-! ## The rollback -/

/-- No key of the agent type is left. -/
def NoKeys (name : String) (w : World) : Prop :=
  ∀ field, field.initial ≠ none → w.redis (agentKey name field) = none

theorem deleteKeys_triple (name : String) (w : World) :
    Triple ([agentPhaseKey name, agentLearningRateKey name, agentReadinessScoreKey name].forM
        redisDelete) w
      (fun _ w' => ¬ w.Fails .redis ∧ w'.tick = w.tick + 3 ∧ Rekeyed w w' ∧ NoKeys name w')
      fun _ w' => Rekeyed w w' ∧ ∃ k, w.env.fault k .redis = true := by
  apply Triple.bind (redisDelete_triple.mono (fun _ _ h => h) ?_)
  · rintro _ _ ⟨hhealthy, rfl⟩
    apply Triple.bind (redisDelete_triple.mono (fun _ _ h => h.2) ?_)
    · rintro _ _ rfl
      apply Triple.bind (redisDelete_triple.mono (fun _ _ h => h.2) ?_)
      · rintro _ _ rfl
        refine .pure ⟨hhealthy, rfl, rfl, fun field h => ?_⟩
        cases field <;> first | exact absurd rfl h | simp [Function.update]
      · rintro e _ ⟨hfail, -, rfl⟩
        exact ⟨rfl, _, hfail⟩
    · rintro e _ ⟨hfail, -, rfl⟩
      exact ⟨rfl, _, hfail⟩
  · rintro e _ ⟨hfail, -, rfl⟩
    exact ⟨rfl, _, hfail⟩

theorem deleteConcepts_triple {g : Graph} {roots : List Concept}
    (h : g.Rooted (w.graphs name) roots) :
    Triple ((roots.map (·.id)).forM fun id => execute name (deleteConcept id) ["id"]) w
      (fun _ w' => (roots ≠ [] → ¬ w.Fails .kuzu) ∧ w'.env = w.env ∧ w'.pg = w.pg ∧
        w'.redis = w.redis ∧ (w'.graphs name).concepts = g.concepts)
      fun _ w' => roots ≠ [] ∧ w'.pg = w.pg := by
  induction roots generalizing w with
  | nil => exact .pure ⟨by simp, rfl, rfl, rfl, by simpa using h.concepts⟩
  | cons root roots ih =>
    apply Triple.bind ((execute_reports (deleteConcept_error _)).mono (fun _ _ h => h)
      fun e w' h => ⟨by simp, by rw [h.1]⟩)
    rintro _ _ ⟨hfail, g', hg', rfl⟩
    apply (ih (by simpa using h.delete hg')).mono
    · exact fun _ w' h' => ⟨fun _ => hfail, h'.2⟩
    · exact fun e w' h' => ⟨by simp, h'.2⟩

/-- A rollback that succeeds takes away all that the `try` block has made. It fails if Redis is
down, or if the graph store is and there is a concept to delete. -/
theorem rollbackAgentType_triple {g : Graph} {roots : List Concept}
    (h : g.Rooted (w.graphs name) roots) :
    Triple (rollbackAgentType name (roots.map (·.id))) w
      (fun _ w' => ¬ w.Fails .redis ∧ (roots ≠ [] → w.env.fault (w.tick + 3) .kuzu = false) ∧
        w'.env = w.env ∧ w'.pg = w.pg ∧ NoKeys name w' ∧
        (w'.graphs name).concepts = g.concepts)
      fun _ w' => w'.pg = w.pg ∧ (roots ≠ [] ∨ ∃ k, w.env.fault k .redis = true) := by
  apply Triple.bind ((deleteKeys_triple name w).mono (fun _ _ h => h) ?_)
  · rintro _ w1 ⟨hhealthy, htick, h1, hkeys⟩
    have hg : w1.graphs = w.graphs := by rw [h1]
    have hpg : w1.pg = w.pg := by rw [h1]
    have henv : w1.env = w.env := by rw [h1]
    apply (deleteConcepts_triple (hg ▸ h)).mono
    · rintro _ w2 ⟨hfail, henv2, hpg2, hredis, hconcepts⟩
      refine ⟨hhealthy, fun hroots => ?_, henv2.trans henv, hpg2.trans hpg,
        fun field hfield => ?_, hconcepts⟩
      · have := hfail hroots
        rw [World.Fails, htick, henv] at this
        simpa using this
      · rw [hredis]
        exact hkeys field hfield
    · exact fun e w2 h2 => ⟨h2.2.trans hpg, .inl h2.1⟩
  · rintro e w1 ⟨h1, hfault⟩
    exact ⟨by rw [h1], .inr hfault⟩

/-! ## One store goes down -/

/-- The row of a new agent type. -/
def AgentTypeCreate.toRow (payload : AgentTypeCreate) (id : UUID) (createdAt : Int) :
    AgentTypeRow where
  id := id
  name := payload.name
  goal := payload.goal
  taskBoundary := payload.taskBoundary
  topicList := payload.topicList
  topologyType := payload.topologyType
  workflowParticipants := payload.workflowParticipants
  createdAt := createdAt

/-- `create_agent_type` up to its `try` block: it returns the id of the new row. -/
def openAgentType (payload : AgentTypeCreate) : Coro UUID := do
  let agentTypeId ← uuid4
  let existing ← sql (.selectAgentTypeId payload.name)
  match existing with
  | some _ => throw (.agentTypeAlreadyExists payload.name)
  | none =>
    let createdAt ← datetimeUtcnow
    sql (.execute (.insertAgentType (payload.toRow agentTypeId createdAt.micros)))
    return agentTypeId

/-- The row is in when the `try` block starts, four calls after the start. -/
theorem openAgentType_triple (payload : AgentTypeCreate) (w : World) :
    Async.TripleAlone (openAgentType payload) w
      (fun id w0 => w0.env = w.env ∧ w0.tick = w.tick + 4 ∧ ∃ row ∈ w0.pg.agentTypes, row.id = id)
      fun _ _ => True := by
  refine .bind (.lift (uuid4_triple (Q := fun _ w1 => w1 = w.bump) rfl)) fun id w1 hw1 => ?_
  subst hw1
  refine .bind (M := fun _ (w2 : World) => w2.env = w.env ∧ w2.tick = w.tick + 2)
    (.call (fun _ _ => ⟨by simp, by simp⟩) fun _ _ => trivial) fun existing w2 h2 => ?_
  cases existing with
  | some row => exact .throw trivial
  | none =>
    refine .bind (M := fun _ w3 => w3 = w2.bump) (.lift (datetimeUtcnow_triple rfl))
      fun now w3 hw3 => ?_
    subst hw3
    refine .bind (M := fun _ (w0 : World) => w0.env = w.env ∧ w0.tick = w.tick + 4 ∧
      ∃ row ∈ w0.pg.agentTypes, row.id = id) (.call (fun _ hok => ?_) fun _ _ => trivial)
      fun _ w0 h0 => .pure h0
    refine ⟨by simp [h2.1], by simp [h2.2], ?_⟩
    rcases World.serve_insertAgentType (payload.toRow id now.micros) w2.bump with
      ⟨e, he⟩ | ⟨-, pg, he, hrows⟩
    · cases (congrArg Prod.fst he).symm.trans hok
    · exact ⟨payload.toRow id now.micros, by simp [he, hrows], rfl⟩

/-- The `except` block of `create_agent_type`. -/
def undoAgentType (name : String) (agentTypeId : UUID) (createdConceptIds : List String) (e : Exn) :
    Coro AgentTypeResponse := do
  rollbackAgentType name createdConceptIds
  sql (.execute (.deleteAgentType agentTypeId))
  throw e

/-- `create_agent_type` from its `try` block on. -/
def finishAgentType (payload : AgentTypeCreate) (agentTypeId : UUID) : Coro AgentTypeResponse := do
  let (createdConceptIds, raised) ← initializeAgentType payload
  match raised with
  | some e => undoAgentType payload.name agentTypeId createdConceptIds e
  | none =>
    let now ← datetimeUtcnow
    return {
      agentTypeId := agentTypeId.toText
      name := payload.name
      goal := payload.goal
      taskBoundary := payload.taskBoundary
      topicList := payload.topicList
      topologyType := payload.topologyType
      workflowParticipants := payload.workflowParticipants
      phase := .apprentice
      learningRate := 1
      readinessScore := 0
      graphInitialized := true
      createdAt := now }

theorem createAgentType_opened {payload : AgentTypeCreate} {w w0 : World} {id : UUID}
    (hopen : (openAgentType payload).runAlone w = (.ok id, w0)) :
    (createAgentType payload).runAlone w = (finishAgentType payload id).runAlone w0 := by
  obtain ⟨id', w2, hid, hopen⟩ := Async.runAlone_bind_returns hopen
  obtain ⟨existing, w3, hselect, hopen⟩ := Async.runAlone_bind_returns hopen
  refine (Async.runAlone_bind_ok hid).trans ((Async.runAlone_bind_ok hselect).trans ?_)
  cases existing with
  | some row => cases hopen
  | none =>
    obtain ⟨now, w4, hnow, hopen⟩ := Async.runAlone_bind_returns hopen
    obtain ⟨u, w5, hinsert, hopen⟩ := Async.runAlone_bind_returns hopen
    cases hopen
    exact (Async.runAlone_bind_ok hnow).trans (Async.runAlone_bind_ok hinsert)

theorem finishAgentType_raised {payload : AgentTypeCreate} {w w1 : World} {id : UUID}
    {ids : List String} {e : Exn}
    (hraised : (initializeAgentType payload).exec w = (.ok (ids, some e), w1)) :
    (finishAgentType payload id).runAlone w = (undoAgentType payload.name id ids e).runAlone w1 :=
  Async.runAlone_bind_ok (p := (liftM (initializeAgentType payload) : Coro _)) hraised

theorem undoAgentType_of_error {name : String} {w w' : World} {id : UUID} {ids : List String}
    {e e' : Exn} (h : (rollbackAgentType name ids).exec w = (.error e', w')) :
    (undoAgentType name id ids e).runAlone w = (.error e', w') :=
  Async.runAlone_bind_error (p := (liftM (rollbackAgentType name ids) : Coro _)) h

theorem undoAgentType_of_ok {name : String} {w w' : World} {id : UUID} {ids : List String}
    {e : Exn} {u : Unit} (h : (rollbackAgentType name ids).exec w = (.ok u, w'))
    (hhealthy : ¬ w'.Fails .postgres) :
    (undoAgentType name id ids e).runAlone w = (.error e, w'.bump.setPg
      { w'.pg with agentTypes := w'.pg.agentTypes.filter (·.id ≠ id) }) := by
  have hserve : World.serve (.execute (.deleteAgentType id)) w' = (.ok (), w'.bump.setPg
      { w'.pg with agentTypes := w'.pg.agentTypes.filter (·.id ≠ id) }) := by
    simp [World.serve, World.call, hhealthy, Postgres.eval, Postgres.write, Except.map]
  exact (Async.runAlone_bind_ok (p := (liftM (rollbackAgentType name ids) : Coro _)) h).trans
    (Async.runAlone_bind_ok (p := sql (.execute (.deleteAgentType id))) hserve)

/-- The store `s` goes down at the `n`-th call and stays down; the others do not fail. -/
def Outage (env : Env) (s : Store) (n : Nat) : Prop :=
  ∀ k store, env.fault k store = true ↔ store = s ∧ n ≤ k

/-- The stores other than `s` hold nothing of a creation with the row `id` and the concepts
`ids`. -/
structure LeavesNothing (name : String) (s : Store) (id : UUID) (ids : List String) (w : World) :
    Prop where
  row : ∀ row ∈ w.pg.agentTypes, row.id ≠ id
  roots : s ≠ .kuzu → ∀ c ∈ (w.graphs name).concepts, c.id ∉ ids
  keys : s ≠ .redis → NoKeys name w

/-- A creation whose `try` block hits a store that is down for good raises. It leaves nothing behind
in the healthy stores exactly if that store is the graph store and it goes down before the block
has created a root concept: Redis is the first store that the rollback needs, and the graph store is
needed as soon as there is a concept to delete. -/
theorem creation_leaves_nothing_iff {payload : AgentTypeCreate} {w w0 : World} {s : Store} {n : Nat}
    {id : UUID} {ids : List String} (hs : s ≠ .postgres) (houtage : Outage w.env s n)
    (hopen : (openAgentType payload).runAlone w = (.ok id, w0))
    (hraised : ((initializeAgentType payload).exec w0).1 = .ok (ids, some (.storeDown s))) :
    (∃ e, ((createAgentType payload).runAlone w).1 = .error e) ∧
    (LeavesNothing payload.name s id ids ((createAgentType payload).runAlone w).2 ↔
      s = .kuzu ∧ n ≤ w.tick + 13) := by
  obtain ⟨henv, htick, row, hrow, hid⟩ := (openAgentType_triple payload w).of_ok hopen
  have htry := initializeAgentType_triple payload w0
  rcases hx : (initializeAgentType payload).exec w0 with ⟨e | r, w1⟩
  · rw [hx] at hraised
    cases hraised
  rw [hx] at hraised
  cases hraised
  obtain ⟨roots, rfl, h1⟩ := htry.of_ok hx
  have henv1 : w1.env = w.env := h1.env.trans henv
  -- the store has been down since before the rollback
  obtain ⟨k, hk, hfault⟩ := h1.reported _ rfl s rfl
  have hdown : n ≤ w1.tick := by
    rw [henv1] at hfault
    exact ((houtage k s).mp hfault).2.trans hk.le
  have hrollback := rollbackAgentType_triple h1.graph
  rw [createAgentType_opened hopen, finishAgentType_raised hx]
  rcases hy : (rollbackAgentType payload.name (roots.map (·.id))).exec w1 with ⟨e | u, w2⟩
  · -- the rollback has raised, and the row is still there
    obtain ⟨hpg, hcause⟩ := hrollback.of_error hy
    rw [undoAgentType_of_error hy]
    refine ⟨⟨e, rfl⟩, fun h => ?_, fun h => ?_⟩
    · refine absurd hid (h.row row ?_)
      rwa [hpg, h1.pg]
    · obtain ⟨rfl, hn⟩ := h
      rcases hcause with hroots | ⟨k, hk⟩
      · refine absurd (h1.stopped ?_) hroots
        rw [henv, htick]
        exact (houtage _ _).mpr ⟨rfl, hn⟩
      · rw [henv1] at hk
        exact absurd ((houtage _ _).mp hk).1 (by decide)
  · obtain ⟨hredis, hkuzu, henv2, -, hkeys, -⟩ := hrollback.of_ok hy
    have hfails (k : Nat) (hk : n ≤ k) : w1.env.fault k s = true := by
      rw [henv1]
      exact (houtage k s).mpr ⟨rfl, hk⟩
    have hhealthy : ¬ w2.Fails .postgres := by
      rw [World.Fails, henv2, henv1, houtage]
      exact fun h => hs h.1.symm
    rw [undoAgentType_of_ok hy hhealthy]
    have hs' : s = .kuzu := by
      cases s with
      | postgres => exact absurd rfl hs
      | kuzu => rfl
      | redis => exact absurd (hfails _ hdown) hredis
    subst hs'
    have hroots : roots = [] := by
      by_contra hroots
      have := hkuzu hroots
      rw [hfails _ (by omega)] at this
      cases this
    refine ⟨⟨_, rfl⟩, fun _ => ⟨rfl, ?_⟩, fun _ => ⟨?_, fun h => absurd rfl h, fun _ => hkeys⟩⟩
    · obtain ⟨k, hk, hfault⟩ := h1.early _ rfl hroots
      rw [henv] at hfault
      have := ((houtage k _).mp hfault).2
      omega
    · intro row hrow
      simpa using (List.mem_filter.mp hrow).2

/-- A process in which one store is down. -/
def Sample.without (s : Store) : World :=
  World.initial { Sample.env with fault := fun _ store => store = s }

theorem creation_leaves_nothing_without_kuzu :
    LeavesNothing Sample.shop.name .kuzu (Sample.uuid 0) []
      ((createAgentType Sample.shop).runAlone (Sample.without .kuzu)).2 :=
  (creation_leaves_nothing_iff (w := Sample.without .kuzu) (n := 0) (by decide)
    (by simp [Outage, Sample.without, World.initial]) rfl rfl).2.mpr ⟨rfl, Nat.zero_le _⟩

/-- Without Redis the rollback stops before it deletes the row. -/
theorem creation_leaves_row_without_redis :
    Outage (Sample.without .redis).env .redis 0 ∧
    ∃ w0 ids, (openAgentType Sample.shop).runAlone (Sample.without .redis) =
        (.ok (Sample.uuid 0), w0) ∧
      ((initializeAgentType Sample.shop).exec w0).1 = .ok (ids, some (.storeDown .redis)) ∧
      ((createAgentType Sample.shop).runAlone (Sample.without .redis)).1 =
        .error (.storeDown .redis) ∧
      ¬ LeavesNothing Sample.shop.name .redis (Sample.uuid 0) ids
        ((createAgentType Sample.shop).runAlone (Sample.without .redis)).2 := by
  refine ⟨by simp [Outage, Sample.without, World.initial], _, _, rfl, rfl, rfl, fun h => ?_⟩
  exact h.row (Sample.shop.toRow (Sample.uuid 0) 2) (List.mem_singleton.mpr rfl) rfl

end AgentWorx
