import AgentWorx.Verify.Merge
import AgentWorx.Verify.Creation

/-!
# One label, one concept

Concepts are made in two places. The writer looks a label up first and makes a concept only if it
finds none, so an answer keeps the labels distinct. A creation makes one concept for each topic and
looks nothing up, so the labels of a new graph are the topics, with their repetitions. Nothing in
the payload's model keeps the topics distinct.
-/

namespace AgentWorx

open Coop Coop.Sync

variable {w : World} {name : String} {payload : AgentTypeCreate}

/-! ## Answers -/

/-- No two concepts of the agent type have the same label. -/
def LabelsUnique (name : String) (w : World) : Prop := (w.graphs name).labels.Nodup

theorem labelsUnique_of_graphs {w w' : World} (h : w'.graphs = w.graphs) :
    Preserves (LabelsUnique name) w w' := by
  intro hw
  simpa only [LabelsUnique, h] using hw

theorem LabelsUnique.setGraph (hw : LabelsUnique name w) {other : String} {g : Graph}
    (hg : (w.graphs other).labels.Nodup → g.labels.Nodup) :
    LabelsUnique name (w.setGraph other g) := by
  by_cases hname : name = other
  · subst hname
    simpa [LabelsUnique] using hg hw
  · simpa [LabelsUnique, hname] using hw

instance : Ticks (Preserves (LabelsUnique name)) := ⟨fun _ => labelsUnique_of_graphs rfl⟩

instance (other : String) : Scores other (Preserves (LabelsUnique name)) :=
  ⟨fun _ _ _ _ => labelsUnique_of_graphs rfl⟩

instance (other : String) : Relating other (Preserves (LabelsUnique name)) :=
  ⟨fun _ _ hw => hw.setGraph fun h => h⟩

/-- The writer makes a concept only for a label that it does not find. -/
theorem findOrCreateConcept_labels (agentType : String) (entity : ExtractedEntity) (now : Datetime)
    (summary : WriteSummary) :
    Keeps (Preserves (LabelsUnique name)) (findOrCreateConcept agentType entity now summary) := by
  intro w hw
  have hidle {w1 : World} (h : Idle w w1) : LabelsUnique name w1 :=
    labelsUnique_of_graphs h.graphs hw
  have hset {w1 : World} (h : Idle w w1) {g : Graph}
      (hg : (w.graphs agentType).labels.Nodup → g.labels.Nodup) :
      LabelsUnique name (w1.setGraph agentType g) :=
    (hidle h).setGraph fun hold => hg (h.graphs ▸ hold)
  refine (findOrCreateConcept_rule (Q := fun _ => LabelsUnique name)
    (E := fun _ => LabelsUnique name) rfl (fun _ _ h _ => hidle h) (fun _ _ h _ _ => hidle h)
    (fun c w1 h _ _ => hset h fun hold => ?_) fun u w1 h hmissing _ => hset h fun hold => ?_).state
    (fun _ _ h => h) fun _ _ h => h
  · rw [Graph.labels, List.map_map]
    convert hold using 1
    refine List.map_congr_left fun c' _ => ?_
    simp only [Function.comp_apply]
    split_ifs <;> rfl
  · rw [Graph.labels, List.map_append]
    refine hold.append (List.nodup_singleton _) ?_
    simpa [Graph.labels] using Keyed.lookup_eq_none.mp hmissing

theorem answer_labels (agentTypeId : String) (body : AnswerBody) :
    Async.KeepsAlone (Preserves (LabelsUnique name)) (Request.answer agentTypeId body).handle := by
  have hwrite (agentType : String) (result : AnswerProcessorResult) :
      Keeps (Preserves (LabelsUnique name)) (writeToGraph agentType result false) :=
    keeps_writeToGraph_of (findOrCreateConcept_labels agentType)
      (fun _ _ _ => keeps_upsertRelation _ _ _ _ _) result
  exact .bind (submitAnswer_alone (fun q w _ => labelsUnique_of_graphs (by simp))
    (fun _ _ => keeps_handleAnswer_of (hwrite _) _) _ _) fun _ => .pure _

/-- Answers keep the labels of a graph distinct. -/
theorem answers_labels (agentTypeId : String) (answers : List AnswerBody)
    (hw : LabelsUnique name w) :
    LabelsUnique name (runAll (answers.map (.answer agentTypeId)) w) := by
  induction answers generalizing w with
  | nil => exact hw
  | cons body answers ih => exact ih (answer_labels agentTypeId body w hw)

/-! ## Creations -/

/-- The topic loop labels its concepts with the topics, from the first on. -/
theorem createRootConcepts_labels {now : Datetime} {topics : List String} {index : Nat}
    {ids : List String} :
    Triple (createRootConcepts name now topics index ids) w
      (fun _ w' => ∃ made, made <+: topics ∧
        (w'.graphs name).labels = (w.graphs name).labels ++ made ∧
        (made ≠ [] → matchesAgentTypePattern name = true))
      fun _ _ => False := by
  induction topics generalizing index ids w with
  | nil => exact .pure ⟨[], List.prefix_rfl, by simp, by simp⟩
  | cons topic topics ih =>
    refine .bind (uuid4_triple (Q := fun _ w1 => w1.graphs = w.graphs) rfl) fun u w1 hw1 => ?_
    rw [← hw1]
    refine .bind (M := fun r w2 =>
      (r = none → matchesAgentTypePattern name = true ∧
        (w2.graphs name).labels = (w1.graphs name).labels ++ [topic]) ∧
      (r ≠ none → w2.graphs = w1.graphs)) (Triple.attempt ?_) fun r w2 h2 => ?_
    · unfold Triple
      rcases execute_cases name (createConcept ⟨s!"root-{index}-{u.hexPrefix 8}", topic, "task", 0,
        now⟩) ["id", "label", "created_at"] w1 with ⟨e, he⟩ | ⟨e, he⟩ | ⟨a, g, hname, -, hg, he⟩ <;>
        rw [he]
      · exact ⟨by simp, fun _ => rfl⟩
      · exact ⟨by simp, fun _ => rfl⟩
      · simp only [createConcept] at hg
        split_ifs at hg
        cases hg
        exact ⟨fun _ => ⟨hname, by simp [Graph.labels]⟩, fun h => absurd rfl h⟩
    · cases r with
      | none =>
        obtain ⟨hname, hlabels⟩ := h2.1 rfl
        refine ih.mono ?_ fun _ _ h => h
        rintro r w3 ⟨made, hmade, hlabels3, -⟩
        refine ⟨topic :: made, (List.prefix_cons_inj topic).mpr hmade, ?_, fun _ => hname⟩
        rw [hlabels3, hlabels, List.append_assoc, List.singleton_append]
      | some e => exact .pure ⟨[], List.nil_prefix, by simp [h2.2], by simp⟩

/-- The segment of a creation has labelled new concepts with the first topics. -/
def Labelled (payload : AgentTypeCreate) (w w' : World) : Prop :=
  ∃ made, made <+: payload.topicList ∧
    (w'.graphs payload.name).labels = (w.graphs payload.name).labels ++ made ∧
    (made ≠ [] → matchesAgentTypePattern payload.name = true)

theorem initializeAgentType_labels (payload : AgentTypeCreate) :
    Keeps (Labelled payload) (initializeAgentType payload) := by
  intro w
  have hschema {w' : World} (h : Provisions payload.name w w') :
      (w'.graphs payload.name).labels = (w.graphs payload.name).labels := by
    obtain ⟨tables, -, hg⟩ := h.graph
    rw [hg]
    rfl
  have hkeys : Keeps (Same World.graphs) (tryCatch (do
      redisSet (agentPhaseKey payload.name) (.text Phase.apprentice.value)
      redisSet (agentLearningRateKey payload.name) (.float 1)
      redisSet (agentReadinessScoreKey payload.name) (.float 0)
      return (none : Option Exn)) fun e => return some e) :=
    .tryCatch (.bind (keeps_callRedis fun _ => rfl) fun _ => .bind (keeps_callRedis fun _ => rfl)
      fun _ => .bind (keeps_callRedis fun _ => rfl) fun _ => .pure _) fun _ => .pure _
  refine (Triple.bind (M := fun _ w1 => (w1.graphs payload.name).labels =
    (w.graphs payload.name).labels) (Q := fun _ => Labelled payload w)
    (E := fun _ => Labelled payload w) (Triple.attempt ((Triple.of_keeps
      (initializeSchema_provisions payload.name) w).mono (fun _ _ => hschema) fun _ _ => hschema))
    fun r w1 h1 => ?_).state (fun _ _ h => h) fun _ _ h => h
  cases r with
  | some e => exact .pure ⟨[], List.nil_prefix, by simp [h1], by simp⟩
  | none =>
    refine .bind (datetimeUtcnow_triple (Q := fun _ w2 => w2.graphs = w1.graphs) rfl)
      fun now w2 h2 => .bind (createRootConcepts_labels.mono (fun _ _ h => h) (by simp)) ?_
    rintro ⟨ids, raised⟩ w3 ⟨made, hmade, hlabels, hname⟩
    rw [h2, h1] at hlabels
    cases raised with
    | some e => exact .pure ⟨made, hmade, hlabels, hname⟩
    | none =>
      have hdone {w' : World} (h : w'.graphs = w3.graphs) : Labelled payload w w' :=
        ⟨made, hmade, by rw [h, hlabels], hname⟩
      exact .bind ((Triple.of_keeps hkeys w3).mono (fun _ _ => hdone) fun _ _ => hdone)
        fun raised w4 h4 => .pure h4

theorem runAll_create (payload : AgentTypeCreate) (w : World) :
    runAll [.create payload] w = ((createAgentType payload).runAlone w).2 := by
  change ((withHttp _ (createAgentType payload) >>= fun a => pure (Response.agentType a) :
    Coro Response).runAlone w).2 = _
  rw [Async.runAlone_bind, withHttp, Async.runAlone_tryCatch]
  rcases (createAgentType payload).runAlone w with ⟨e | a, w'⟩ <;> rfl

/-- The labels of a new graph are topics, each at most as often as it is given, and there are none
under a name that the graph store refuses. -/
theorem create_labels (hempty : w.graphs payload.name = .empty) :
    ((runAll [.create payload] w).graphs payload.name).labels.Sublist payload.topicList ∧
      (matchesAgentTypePattern payload.name = false →
        ((runAll [.create payload] w).graphs payload.name).labels = []) := by
  set R : World → World → Prop := fun w w' =>
    (w'.graphs payload.name).labels.Sublist (w.graphs payload.name).labels
  have hsame {w w' : World} (h : w'.graphs = w.graphs) : R w w' := by
    simp only [R, h]
    exact .refl _
  have : Ticks R := {
    refl := fun _ => .refl _
    trans := fun _ _ _ h1 h2 => h2.trans h1
    tick := fun _ => hsame rfl }
  have hrollback (ids : List String) : Keeps R (rollbackAgentType payload.name ids) := by
    refine keeps_rollbackAgentType (fun field => keeps_callRedis fun w => hsame rfl)
      (fun id => keeps_execute Ticks.tick fun w _ g hg => ?_) ids
    simp only [deleteConcept] at hg
    split_ifs at hg
    cases hg
    simpa [R, Graph.labels] using (List.filter_sublist (l := (w.graphs payload.name).concepts)).map
      Concept.label
  have hnone {w' : World} (h : R w w') : (w'.graphs payload.name).labels = [] := by
    have hw : (w.graphs payload.name).labels = [] := by
      rw [hempty]
      rfl
    exact List.sublist_nil.mp (hw ▸ (h : List.Sublist _ _))
  rw [runAll_create]
  rcases createAgentType_phases (fun q w => hsame (by simp)) (initializeAgentType_labels payload)
    hrollback w with h | ⟨w1, w2, h1, ⟨made, hmade, h2, hname⟩, h3⟩
  · rw [hnone h]
    exact ⟨List.nil_sublist _, fun _ => rfl⟩
  · rw [hnone h1, List.nil_append] at h2
    have hsub : (((createAgentType payload).runAlone w).2.graphs payload.name).labels.Sublist
        made := h2 ▸ h3
    refine ⟨hsub.trans hmade.sublist, fun hinvalid => ?_⟩
    have hnil : made = [] := by
      by_contra hne
      rw [hname hne] at hinvalid
      cases hinvalid
    exact List.sublist_nil.mp (hnil ▸ hsub)

/-! ## A creation over healthy stores -/

/-- The id of the root concept of the topic at the index. -/
def rootId (index : Nat) (u : UUID) : String := s!"root-{index}-{u.hexPrefix 8}"

/-- Root concepts of different topics have different ids, whatever is drawn for them. -/
theorem rootId_index {i j : Nat} {u v : UUID} (h : rootId i u = rootId j v) : i = j := by
  have hlength (u : UUID) : (u.hexPrefix 8).toList.length = 8 := by
    simp [UUID.hexPrefix, u.length_eq]
  have h := congrArg String.toList h
  simp only [rootId, toString, String.toList_append, Nat.toList_repr] at h
  -- the last nine characters are the dash and the digits of the UUID
  have hindex := (List.append_inj' h (by rw [hlength, hlength])).1
  have hdigits := List.append_cancel_left (List.append_cancel_right hindex)
  rw [← Nat.ofDigitChars_ten_toDigits (n := i), hdigits, Nat.ofDigitChars_ten_toDigits]

/-- On a graph that is ready and has no root concept of a later topic, the topic loop does not
raise, and it labels a concept with each topic. -/
theorem createRootConcepts_ready {now : Datetime} {topics : List String} {index : Nat}
    {ids : List String} (hw : GraphReady w name)
    (hold : ∀ c ∈ (w.graphs name).concepts, ∃ i < index, ∃ u, c.id = rootId i u) :
    Triple (createRootConcepts name now topics index ids) w
      (fun r w' => r.2 = none ∧ w'.env = w.env ∧
        (w'.graphs name).labels = (w.graphs name).labels ++ topics)
      fun _ _ => False := by
  induction topics generalizing index ids w with
  | nil => exact .pure ⟨rfl, rfl, by simp⟩
  | cons topic topics ih =>
    refine .bind (uuid4_triple (Q := fun u w1 => w1 = w.bump) rfl) fun u w1 hw1 => ?_
    subst hw1
    set concept : Concept := ⟨rootId index u, topic, "task", 0, now⟩
    refine .bind (M := fun r w2 => r = none ∧ w2 = w.bump.bump.setGraph name
      { w.graphs name with concepts := (w.graphs name).concepts ++ [concept] }) (Triple.attempt ?_)
      fun r w2 ⟨hr, hw2⟩ => ?_
    · have hnew : (w.graphs name).concepts.any (·.id = concept.id) = false := by
        rw [List.any_eq_false]
        intro c hc hid
        obtain ⟨i, hi, u', hid'⟩ := hold c hc
        have heq : rootId i u' = rootId index u := hid'.symm.trans (by simpa using hid)
        exact hi.ne (rootId_index heq)
      have hrun := execute_ready (createConcept concept) ["id", "label", "created_at"] hw.bump
        (by simp [createConcept])
      simp only [createConcept, World.bump_graphs, hnew, Bool.false_eq_true, if_false] at hrun
      rw [Triple]
      exact hrun ▸ ⟨rfl, rfl⟩
    · subst hr hw2
      have hw2 : GraphReady (w.bump.bump.setGraph name
          { w.graphs name with concepts := (w.graphs name).concepts ++ [concept] }) name :=
        hw.bump.setGraph rfl
      refine (ih hw2 fun c hc => ?_).mono ?_ fun _ _ h => h
      · simp only [World.setGraph_graphs, Function.update_self] at hc
        rcases List.mem_append.mp hc with hc | hc
        · obtain ⟨i, hi, u', hid⟩ := hold c hc
          exact ⟨i, Nat.lt_succ_of_lt hi, u', hid⟩
        · rw [List.mem_singleton.mp hc]
          exact ⟨index, Nat.lt_succ_self _, u, rfl⟩
      · rintro r w' ⟨hr, henv, hlabels⟩
        refine ⟨hr, henv, ?_⟩
        simpa [Graph.labels] using hlabels

/-- Nothing fails. -/
def Healthy (w : World) : Prop := ∀ n store, w.env.fault n store = false

theorem Healthy.redisSet (hw : Healthy w) (key : String) (value : RedisValue) :
    Triple (redisSet key value) w (fun _ w' => Healthy w' ∧ w'.graphs = w.graphs)
      fun _ _ => False := by
  refine redisSet_triple.mono ?_ ?_
  · rintro _ w' ⟨-, rfl⟩
    exact ⟨hw, rfl⟩
  · rintro _ w' ⟨hfail, -⟩
    rw [World.Fails, hw] at hfail
    cases hfail

/-- Over healthy stores a creation labels one concept with each topic. -/
theorem initializeAgentType_healthy (hw : Healthy w) (hempty : w.graphs payload.name = .empty)
    (hname : matchesAgentTypePattern payload.name = true) :
    Triple (initializeAgentType payload) w
      (fun r w' => r.2 = none ∧ (w'.graphs payload.name).labels = payload.topicList)
      fun _ _ => False := by
  have hschema : Triple (initializeSchema payload.name) w
      (fun _ w1 => GraphReady w1 payload.name ∧ Healthy w1 ∧
        (w1.graphs payload.name).concepts = []) fun _ _ => False := by
    obtain ⟨w1, hrun, -, htables⟩ := createTables_tables hname (fun n => hw n .kuzu)
      [.concept, .constraint, .relatesTo, .hasConstraint, .agentRole, .handsOffTo, .hasRole]
    have hrun : (initializeSchema payload.name).exec w = (.ok (), w1) := hrun
    have h1 := initializeSchema_provisions payload.name w
    rw [hrun] at h1
    rw [Triple, hrun]
    have hw1 : Healthy w1 := fun n store => by rw [h1.env, hw]
    obtain ⟨tables, -, hg⟩ := h1.graph
    refine ⟨⟨hname, fun t => htables t (by cases t <;> simp), fun n => hw1 n .kuzu⟩, hw1, ?_⟩
    rw [hg, hempty]
    rfl
  refine .bind (M := fun r w1 => r = none ∧ GraphReady w1 payload.name ∧ Healthy w1 ∧
    (w1.graphs payload.name).concepts = []) (.attempt (hschema.mono (fun _ _ h => ⟨rfl, h⟩)
      (by simp))) ?_
  rintro _ w1 ⟨rfl, hready, hw1, hnone⟩
  refine .bind (datetimeUtcnow_triple (Q := fun _ w2 => w2 = w1.bump) rfl) fun now w2 hw2 => ?_
  subst hw2
  refine .bind ((createRootConcepts_ready hready.bump (by simp [hnone])).mono (fun _ _ h => h)
    fun _ _ h => h) ?_
  rintro ⟨ids, raised⟩ w3 ⟨rfl, henv, hlabels⟩
  have hw3 : Healthy w3 := fun n store => by rw [henv]; exact hw1 n store
  rw [Graph.labels, Graph.labels, World.bump_graphs, hnone, List.map_nil, List.nil_append]
    at hlabels
  refine .bind (M := fun raised w4 => raised = none ∧ w4.graphs = w3.graphs) (.tryCatch
    (M := fun _ _ => False) (.bind (hw3.redisSet _ _) fun _ w4 h4 => .bind (h4.1.redisSet _ _)
      fun _ w5 h5 => .bind (h5.1.redisSet _ _) fun _ w6 h6 => .pure
        ⟨rfl, h6.2.trans (h5.2.trans h4.2)⟩) fun _ _ h => h.elim) fun raised w4 h4 => .pure ?_
  refine ⟨h4.1, ?_⟩
  rw [h4.2]
  exact hlabels

/-- A statement over healthy stores. -/
theorem Healthy.sql {q : Sql} {a : q.Resp} {pg : Postgres} {Q : q.Resp → World → Prop}
    {E : Exn → World → Prop} (hw : Healthy w) (h : w.pg.eval q = .ok (a, pg))
    (hQ : Q a (w.bump.setPg pg)) : Async.TripleAlone (sql q) w Q E := by
  have hhealthy : ¬ w.Fails .postgres := by
    rw [World.Fails, hw]
    exact Bool.false_ne_true
  have hserve : host.serve q w = (.ok a, w.bump.setPg pg) := by
    simp only [World.serve, World.call, hhealthy, if_false, World.bump_pg, h]
  refine .call (fun a' h' => ?_) fun e h' => ?_
  · cases (congrArg Prod.fst hserve).symm.trans h'
    rwa [hserve]
  · cases (congrArg Prod.fst hserve).symm.trans h'

/-- Over healthy stores without agent types the row goes in. -/
theorem openAgentType_healthy (payload : AgentTypeCreate) (hw : Healthy w)
    (hrows : w.pg.agentTypes = []) :
    Async.TripleAlone (openAgentType payload) w (fun _ w0 => Healthy w0 ∧ w0.graphs = w.graphs)
      fun _ _ => False := by
  refine .bind (.lift (uuid4_triple (Q := fun _ w1 => w1 = w.bump) rfl)) fun id w1 hw1 => ?_
  subst hw1
  have hselect : w.bump.pg.eval (.selectAgentTypeId payload.name) = .ok (none, w.pg) := by
    simp [Postgres.eval, hrows]
  refine .bind (M := fun existing w2 => existing = none ∧ w2 = w.bump.bump.setPg w.pg)
    (Healthy.sql hw hselect ⟨rfl, rfl⟩) ?_
  rintro _ _ ⟨rfl, rfl⟩
  refine .bind (.lift (datetimeUtcnow_triple (Q := fun _ w3 => w3 = (w.bump.bump.setPg w.pg).bump)
    rfl)) fun createdAt w3 hw3 => ?_
  subst hw3
  have hinsert : (w.bump.bump.setPg w.pg).bump.pg.eval
      (.execute (.insertAgentType (payload.toRow id createdAt.micros))) =
        .ok ((), { w.pg with agentTypes := [payload.toRow id createdAt.micros] }) := by
    simp [Postgres.eval, Postgres.write, Postgres.checkLength, Postgres.checkUnique, hrows,
      AgentTypeCreate.toRow, payload.name_length.2, Except.map]
    rfl
  exact .bind (M := fun _ (w4 : World) => Healthy w4 ∧ w4.graphs = w.graphs)
    (Healthy.sql hw hinsert ⟨hw, rfl⟩) fun _ w4 h4 => .pure h4

/-- Over healthy empty stores the labels of a new graph are the topics. -/
theorem created_labels (env : Env) (payload : AgentTypeCreate)
    (hhealthy : ∀ n store, env.fault n store = false)
    (hname : matchesAgentTypePattern payload.name = true) :
    ((runAll [.create payload] (.initial env)).graphs payload.name).labels = payload.topicList := by
  have hopen := openAgentType_healthy payload (w := .initial env) hhealthy rfl
  rw [runAll_create]
  rcases hx : (openAgentType payload).runAlone (.initial env) with ⟨e | id, w0⟩
  · exact (hopen.of_error hx).elim
  obtain ⟨hw0, hgraphs⟩ := hopen.of_ok hx
  have htry := initializeAgentType_healthy hw0 (congrFun hgraphs payload.name) hname
  rw [createAgentType_opened hx]
  rcases hy : (initializeAgentType payload).exec w0 with ⟨e | ⟨ids, raised⟩, w1⟩
  · exact (htry.of_error hy).elim
  obtain ⟨rfl, hlabels⟩ := htry.of_ok hy
  rw [finishAgentType, Async.runAlone_bind_ok (p := (liftM (initializeAgentType payload) : Coro _))
    hy]
  exact hlabels

/-! ## One label, one concept -/

/-- However a creation and the answers after it go, no two concepts have the same label, exactly if
no two topics are the same or nothing can be created under the name. -/
theorem labels_unique_iff (payload : AgentTypeCreate) :
    (∀ (w : World) (answers : List AnswerBody), w.graphs payload.name = .empty →
      ((runAll (.create payload :: answers.map (.answer payload.name)) w).graphs
        payload.name).labels.Nodup) ↔
    payload.topicList.Nodup ∨ matchesAgentTypePattern payload.name = false := by
  constructor
  · intro h
    by_contra hno
    obtain ⟨htopics, hname⟩ := not_or.mp hno
    have hlabels := created_labels Sample.env payload (fun _ _ => rfl) (by simpa using hname)
    exact htopics (hlabels ▸ h (.initial Sample.env) [] rfl)
  · intro h w answers hempty
    refine answers_labels payload.name answers (w := runAll [.create payload] w) ?_
    obtain ⟨hsub, hnone⟩ := create_labels hempty
    rcases h with htopics | hname
    · exact htopics.sublist hsub
    · rw [LabelsUnique, hnone hname]
      exact List.nodup_nil

/-- An agent type with the same topic twice. -/
def Sample.twice : AgentTypeCreate :=
  { Sample.shop with
    topicList := ["menu", "menu"]
    topicList_length := by decide }

/-- The two root concepts of a topic that is given twice have the same label. -/
theorem label_twice : ¬ ∀ (payload : AgentTypeCreate) (w : World) (answers : List AnswerBody),
    w.graphs payload.name = .empty →
      ((runAll (.create payload :: answers.map (.answer payload.name)) w).graphs
        payload.name).labels.Nodup := by
  intro h
  have hlabels := created_labels Sample.env Sample.twice (fun _ _ => rfl) (by decide)
  have hnodup : Sample.twice.topicList.Nodup :=
    hlabels ▸ h Sample.twice (.initial Sample.env) [] rfl
  simp [Sample.twice] at hnodup

end AgentWorx
