import AgentWorx.Lib.Growing
import AgentWorx.Verify.Gaps
import AgentWorx.Verify.Writer

/-!
# Knowledge that stays

Nothing that an expert has taught is taken back: in every interleaving of requests the relations
between concepts stay, with the concepts that they connect, and no confidence falls. A gap that has
been closed is therefore closed for good.
-/

namespace AgentWorx

open Coop Coop.Sync

/-! ## Graphs -/

/-- The edge is still there, at least as certain and at least as often told. -/
structure RelatesTo.Stays (r r' : RelatesTo) : Prop where
  key : Graph.edgeKey r' = Graph.edgeKey r
  confidence : r.confidence ≤ r'.confidence
  version : r.version ≤ r'.version

instance : IsPreorder RelatesTo RelatesTo.Stays where
  refl _ := ⟨rfl, le_rfl, le_rfl⟩
  trans _ _ _ h1 h2 := ⟨h2.key.trans h1.key, h1.confidence.trans h2.confidence,
    h1.version.trans h2.version⟩

namespace Graph

variable {g g' : Graph}

/-- The edges of `g` stay, and so do the concepts that have one. -/
structure Grows (g g' : Graph) : Prop where
  edges : List.SublistForall₂ RelatesTo.Stays g.relatesTo g'.relatesTo
  concepts : ∀ c ∈ g.concepts, g.Incident c.id →
    ∃ c' ∈ g'.concepts, c'.identity = c.identity ∧ c.confidence ≤ c'.confidence

theorem Grows.incident (h : g.Grows g') {id : String} (hid : g.Incident id) : g'.Incident id := by
  obtain ⟨r, hr, hend⟩ := hid
  obtain ⟨r', hr', hstays⟩ := Keyed.mem_of_grows h.edges hr
  have hkey := hstays.key
  simp only [edgeKey, Prod.mk.injEq] at hkey
  rw [← hkey.1, ← hkey.2.2] at hend
  exact ⟨r', hr', hend⟩

instance : IsPreorder Graph Grows where
  refl g := ⟨refl_of _ _, fun c hc _ => ⟨c, hc, rfl, le_rfl⟩⟩
  trans _ _ _ h1 h2 := by
    refine ⟨trans_of _ h1.edges h2.edges, fun c hc hid => ?_⟩
    obtain ⟨c', hc', hsame, hle⟩ := h1.concepts c hc hid
    have hid' : c'.id = c.id := congrArg Prod.fst hsame
    obtain ⟨c'', hc'', hsame', hle'⟩ := h2.concepts c' hc' (hid' ▸ h1.incident hid)
    exact ⟨c'', hc'', hsame'.trans hsame, hle.trans hle'⟩

/-- At least as many edges leave each concept. -/
theorem Grows.outgoing (h : g.Grows g') (id : String) :
    (g.outgoing id).length ≤ (g'.outgoing id).length := by
  have hcount := Keyed.countP_le_of_grows (p := fun r : RelatesTo => r.source = id)
    (fun r r' hstays hr => ?_) h.edges
  · simpa only [Graph.outgoing, List.countP_eq_length_filter] using hcount
  · have hsource : r'.source = r.source := congrArg Prod.fst hstays.key
    simpa only [hsource] using hr

/-- No relation is stored twice, and every edge has the confidence of something that was learned. -/
structure Sturdy (g : Graph) : Prop extends WellFormed g where
  keys : (g.relatesTo.map edgeKey).Nodup
  graded : g.Graded

theorem Sturdy.congr (h : g.Sturdy) (hconcepts : g'.concepts = g.concepts)
    (hedges : g'.relatesTo = g.relatesTo) : g'.Sturdy ∧ g.Grows g' := by
  have hnames : g'.names = g.names := by rw [names, names, hconcepts]
  refine ⟨⟨⟨hnames ▸ h.ids, ?_⟩, hedges ▸ h.keys, ?_⟩, ?_, ?_⟩
  · rw [hnames, hedges]
    exact h.ends
  · intro r hr
    exact h.graded r (hedges ▸ hr)
  · rw [hedges]
    exact refl_of _ _
  · intro c hc _
    exact ⟨c, hconcepts ▸ hc, rfl, le_rfl⟩

/-- A new concept. -/
theorem Sturdy.addConcept (h : g.Sturdy) {concept : Concept}
    (hid : concept.id ∉ g.concepts.map (·.id)) :
    Sturdy { g with concepts := g.concepts ++ [concept] } ∧
      g.Grows { g with concepts := g.concepts ++ [concept] } := by
  have hnames := names_addConcept g concept
  have hids := h.ids_concat concept.label (names_ids ▸ hid)
  refine ⟨⟨h.grow (hnames ▸ hids) (hnames ▸ List.subset_append_left _ _) rfl, h.keys, h.graded⟩,
    refl_of _ _, fun c hc _ => ?_⟩
  exact ⟨c, List.mem_append_left _ hc, rfl, le_rfl⟩

/-- A concept without edges is deleted. -/
theorem Sturdy.deleteConcept (h : g.Sturdy) {id : String}
    (hfree : ∀ r ∈ g.relatesTo, r.source ≠ id ∧ r.target ≠ id) :
    Sturdy { g with concepts := g.concepts.filter (·.id ≠ id) } ∧
      g.Grows { g with concepts := g.concepts.filter (·.id ≠ id) } := by
  have hkept {other : String} (hother : other ∈ g.names.map (·.1)) (hne : other ≠ id) :
      other ∈ (names { g with concepts := g.concepts.filter (·.id ≠ id) }).map (·.1) := by
    rw [names_ids] at hother ⊢
    obtain ⟨c, hc, rfl⟩ := List.mem_map.mp hother
    exact List.mem_map_of_mem (List.mem_filter.mpr ⟨hc, by simpa using hne⟩)
  refine ⟨⟨⟨?_, fun r hr => ?_⟩, h.keys, h.graded⟩, refl_of _ _, fun c hc hincident => ?_⟩
  · exact h.ids.sublist (List.Sublist.map _ (List.Sublist.map _ List.filter_sublist))
  · exact ⟨hkept (h.ends r hr).1 (hfree r hr).1, hkept (h.ends r hr).2 (hfree r hr).2⟩
  · obtain ⟨r, hr, hend⟩ := hincident
    refine ⟨c, List.mem_filter.mpr ⟨hc, ?_⟩, rfl, le_rfl⟩
    have hne : c.id ≠ id := by
      rintro rfl
      exact hend.elim (hfree r hr).1 (hfree r hr).2
    simpa using hne

/-- A concept is given a higher confidence. -/
theorem Sturdy.setConfidence (h : g.Sturdy) {c : Concept} (hc : c ∈ g.concepts) {confidence : ℚ}
    (hlow : c.confidence < confidence) :
    Sturdy { g with
      concepts := g.concepts.map fun c' => if c'.id = c.id then { c' with confidence } else c' } ∧
    g.Grows { g with
      concepts := g.concepts.map fun c' =>
        if c'.id = c.id then { c' with confidence } else c' } := by
  have hnames := names_setConfidence g c.id confidence
  refine ⟨⟨h.grow (hnames ▸ h.ids) (hnames ▸ List.Subset.refl _) rfl, h.keys, h.graded⟩,
    refl_of _ _, fun c' hc' _ => ?_⟩
  refine ⟨_, List.mem_map_of_mem hc', ?_⟩
  split_ifs with hid
  · obtain rfl : c' = c := List.inj_on_of_nodup_map h.nodup_ids hc' hc hid
    exact ⟨rfl, hlow.le⟩
  · exact ⟨rfl, le_rfl⟩

/-- A relation between two concepts is told. -/
theorem Sturdy.upsertEdge (h : g.Sturdy) {a b : Concept} (ha : a ∈ g.concepts)
    (hb : b ∈ g.concepts) {relation : String} {confidence : ℚ}
    (hgrade : inferredConfidence ≤ confidence ∧ confidence ≤ 1) :
    (g.upsertEdge ⟨a.id, b.id, relation, confidence, 1⟩).Sturdy ∧
      g.Grows (g.upsertEdge ⟨a.id, b.id, relation, confidence, 1⟩) := by
  have hstays (r : RelatesTo) : r.Stays (strengthen confidence r) :=
    ⟨rfl, le_max_left _ _, Int.le_add_one le_rfl⟩
  refine ⟨⟨h.toWellFormed.upsertEdge ha hb, Keyed.nodup_upsert rfl (fun _ hr => hr) h.keys,
    fun r hr => ?_⟩, Keyed.grows_upsert fun r _ => hstays r, fun c hc _ => ⟨c, hc, rfl, le_rfl⟩⟩
  rcases Keyed.mem_upsert hr with ⟨hold, -⟩ | rfl | ⟨old, hold, -, rfl⟩
  · exact h.graded r hold
  · exact hgrade
  · exact ⟨(h.graded old hold).1.trans (le_max_left _ _), max_le (h.graded old hold).2 hgrade.2⟩

end Graph

/-! ## Worlds -/

/-- No graph has lost anything, provided that all were sturdy, and then they still are. -/
def Grown (w w' : World) : Prop :=
  EveryGraph Graph.Sturdy w →
    EveryGraph Graph.Sturdy w' ∧ ∀ name, (w.graphs name).Grows (w'.graphs name)

theorem grown_of_graphs {w w' : World} (h : w'.graphs = w.graphs) : Grown w w' := by
  intro hw
  refine ⟨everyGraph_of_graphs h hw, fun name => ?_⟩
  rw [h]
  exact refl_of _ _

instance : IsPreorder World Grown where
  refl _ := grown_of_graphs rfl
  trans _ _ _ h1 h2 hw := by
    obtain ⟨hw', hgrows⟩ := h1 hw
    obtain ⟨hw'', hgrows'⟩ := h2 hw'
    exact ⟨hw'', fun name => trans_of _ (hgrows name) (hgrows' name)⟩

instance : Ticks Grown := ⟨fun _ => grown_of_graphs rfl⟩

instance (name : String) : Scores name Grown := ⟨fun _ _ _ _ => grown_of_graphs rfl⟩

theorem grown_setGraph {w : World} {name : String} {g : Graph}
    (h : (w.graphs name).Sturdy → g.Sturdy ∧ (w.graphs name).Grows g) :
    Grown w (w.setGraph name g) := by
  intro hw
  refine ⟨hw.setGraph (h (hw name)).1, fun other => ?_⟩
  by_cases hother : other = name
  · subst hother
    simpa using (h (hw other)).2
  · simpa [hother] using refl_of Graph.Grows (w.graphs other)

variable {w w' : World} {name : String}

/-! ## The writer -/

theorem findOrCreateConcept_grown (entity : ExtractedEntity) (now : Datetime)
    (summary : WriteSummary) : Keeps Grown (findOrCreateConcept name entity now summary) := by
  intro w
  have hidle {w1 : World} (h : Idle w w1) : Grown w w1 := grown_of_graphs h.graphs
  have hset {w1 : World} {g : Graph} (h : Idle w w1)
      (hg : (w.graphs name).Sturdy → g.Sturdy ∧ (w.graphs name).Grows g) :
      Grown w (w1.setGraph name g) :=
    trans_of Grown (hidle h) (grown_setGraph (by rwa [h.graphs]))
  refine (findOrCreateConcept_rule (Q := fun _ => Grown w) (E := fun _ => Grown w) rfl
    (fun _ _ h _ => hidle h) (fun _ _ h _ _ => hidle h) (fun c w1 h hc hlow => hset h ?_)
    fun u w1 h _ hid => hset h ?_).state (fun _ _ h => h) fun _ _ h => h
  · exact fun hg => hg.setConfidence (Keyed.mem_of_lookup hc).1 hlow
  · exact fun hg => hg.addConcept hid

/-- The edges of a relation that is there are set to what the upsert of one edge leaves. -/
theorem Graph.Sturdy.setRelation {g : Graph} (h : g.Sturdy) {sourceId targetId relation : String}
    {confidence : ℚ} (hgrade : inferredConfidence ≤ confidence ∧ confidence ≤ 1) {old : ℚ × Int}
    (hhead : (g.relations sourceId targetId relation).head? = some old) :
    let g' : Graph := { g with
      relatesTo := g.relatesTo.map fun r =>
        if r.source = sourceId ∧ r.target = targetId ∧ r.relation = relation then
          { r with confidence := max old.1 confidence, version := old.2 + 1 }
        else r }
    g'.Sturdy ∧ g.Grows g' := by
  have hlookup := hhead
  rw [head_relations h.toWellFormed, Option.map_eq_some_iff] at hlookup
  obtain ⟨r, hr, -⟩ := hlookup
  obtain ⟨hmem, hkey⟩ := Keyed.mem_of_lookup hr
  simp only [Graph.edgeKey, Prod.mk.injEq] at hkey
  obtain ⟨rfl, rfl, rfl⟩ := hkey
  have hends := h.ends r hmem
  rw [Graph.names_ids] at hends
  obtain ⟨a, ha, hsource⟩ := List.mem_map.mp hends.1
  obtain ⟨b, hb, htarget⟩ := List.mem_map.mp hends.2
  set new : RelatesTo := ⟨a.id, b.id, r.relation, confidence, 1⟩
  rw [← hsource, ← htarget] at hhead ⊢
  have hupsert := upsertEdge_of_head h.toWellFormed h.keys (show (g.relations new.source new.target
    new.relation).head? = some old from hhead)
  intro g'
  change g' = g.upsertEdge new at hupsert
  rw [hupsert]
  exact h.upsertEdge ha hb hgrade

/-- An edge is made between two concepts that have none of the relation; nothing is made if an end
is missing. -/
theorem Graph.Sturdy.createRelation {g : Graph} (h : g.Sturdy)
    {sourceId targetId relation : String} {confidence : ℚ}
    (hgrade : inferredConfidence ≤ confidence ∧ confidence ≤ 1)
    (hhead : (g.relations sourceId targetId relation).head? = none) :
    let g' : Graph := { g with
      relatesTo := g.relatesTo ++ ((g.concepts.filter (·.id = sourceId)).flatMap fun a =>
        (g.concepts.filter (·.id = targetId)).map fun b => ⟨a.id, b.id, relation, confidence, 1⟩) }
    g'.Sturdy ∧ g.Grows g' := by
  have hmissing {id : String} (hid : ¬ ∃ c ∈ g.concepts, c.id = id) :
      g.concepts.filter (·.id = id) = [] := by simpa using hid
  by_cases hsource : ∃ a ∈ g.concepts, a.id = sourceId
  · by_cases htarget : ∃ b ∈ g.concepts, b.id = targetId
    · obtain ⟨a, ha, rfl⟩ := hsource
      obtain ⟨b, hb, rfl⟩ := htarget
      rw [upsertEdge_of_none h.toWellFormed ha hb hhead]
      exact h.upsertEdge ha hb hgrade
    · exact h.congr rfl (by simp [hmissing htarget])
  · exact h.congr rfl (by simp [hmissing hsource])

theorem upsertRelation_grown {confidence : ℚ}
    (hgrade : inferredConfidence ≤ confidence ∧ confidence ≤ 1) (relation : ExtractedRelation)
    (labelToId : Dict) (summary : WriteSummary) :
    Keeps Grown (upsertRelation name relation confidence labelToId summary) := by
  intro w
  have hidle {w1 : World} (h : Idle w w1) : Grown w w1 := grown_of_graphs h.graphs
  have hset {w1 : World} {g : Graph} (h : Idle w w1)
      (hg : (w.graphs name).Sturdy → g.Sturdy ∧ (w.graphs name).Grows g) :
      Grown w (w1.setGraph name g) :=
    trans_of Grown (hidle h) (grown_setGraph (by rwa [h.graphs]))
  refine (upsertRelation_rule (Q := fun _ => Grown w) (E := fun _ => Grown w) rfl
    (fun _ _ h _ => hidle h) (fun _ h _ => hidle h)
    (fun sourceId targetId old w1 h _ _ hhead => hset h fun hg => ?_)
    fun sourceId targetId w1 h _ _ hhead => hset h fun hg => ?_).state
    (fun _ _ h => h) fun _ _ h => h
  · exact hg.setRelation hgrade hhead
  · exact hg.createRelation hgrade hhead

theorem writeToGraph_grown (result : AnswerProcessorResult) (isFollowup : Bool) :
    Keeps Grown (writeToGraph name result isFollowup) :=
  keeps_writeToGraph_of findOrCreateConcept_grown
    (fun relation => upsertRelation_grown (assignConfidence_bounds relation isFollowup) relation)
    result

/-! ## Requests -/

variable {request : Request} {l : Option (Event host)}

/-- The requests that teach nothing do not touch what is known. -/
theorem Effect.grown (h : Effect request l w w') (hlearns : request.learns = none) :
    Grown w w' := by
  have hgraph {w : World} {name : String} {g : Graph}
      (hconcepts : g.concepts = (w.graphs name).concepts)
      (hedges : g.relatesTo = (w.graphs name).relatesTo) : Grown w (w.setGraph name g) :=
    grown_setGraph fun hg => hg.congr hconcepts hedges
  cases h with
  | tick | score | reset | graduate | start | session => exact grown_of_graphs rfl
  | knowledge hrequest =>
    rw [hlearns] at hrequest
    cases hrequest
  | schema hrequest =>
    subst hrequest
    cases hlearns
  | flush _ _ _ _ hstep =>
    cases hstep with
    | tick => exact grown_of_graphs rfl
    | handoffs => exact hgraph rfl rfl
    | role _ hrole => cases hrole <;> exact hgraph rfl rfl

theorem initializeAgentType_grown (payload : AgentTypeCreate) :
    Keeps Grown (initializeAgentType payload) := by
  refine keeps_initializeAgentType (fun w hw => ?_) (fun concept _ => ?_)
    fun _ _ _ => keeps_callRedis fun _ => grown_of_graphs rfl
  · have hschema := initializeSchema_provisions payload.name w
    have hsturdy (name : String) : ((exec (initializeSchema payload.name) w).2.graphs name).Sturdy ∧
        (w.graphs name).Grows ((exec (initializeSchema payload.name) w).2.graphs name) := by
      by_cases hname : name = payload.name
      · subst hname
        obtain ⟨tables, -, hg⟩ := hschema.graph
        rw [hg]
        exact (hw payload.name).congr rfl rfl
      · rw [hschema.others name hname]
        exact ⟨hw name, refl_of _ _⟩
    exact ⟨fun name => (hsturdy name).1, fun name => (hsturdy name).2⟩
  · refine keeps_execute Ticks.tick fun w u g hg => grown_setGraph fun hw => ?_
    simp only [createConcept] at hg
    split_ifs at hg with hid
    cases hg
    exact hw.addConcept (by simpa using hid)

theorem rollbackAgentType_grown (createdConceptIds : List String) :
    Keeps Grown (rollbackAgentType name createdConceptIds) := by
  refine keeps_rollbackAgentType (fun _ => keeps_callRedis fun _ => grown_of_graphs rfl)
    (fun id => keeps_execute Ticks.tick fun w u g hg => grown_setGraph fun hw => ?_) _
  simp only [AgentWorx.deleteConcept] at hg
  split_ifs at hg with hid
  cases hg
  exact hw.deleteConcept (by simpa using hid)

/-- The segments of a request take no knowledge back. -/
def teaching : Spec host where
  issue _ _ _ := True
  stmt _ _ _ := True
  seg _ := Grown
  rely := Persists
  seg_preorder _ := inferInstance
  rely_preorder := instIsPreorderWorldPersists

variable {α β : Type}

theorem bind_teaching {p : Coro α} {g : α → Coro β} (hp : Follows teaching AnyEnd l p w)
    (hg : ∀ a l w, Follows teaching AnyEnd l (g a) w) : Follows teaching AnyEnd l (p >>= g) w :=
  hp.bind (fun l a w _ => hg a l w) fun _ _ _ _ => trivial

theorem lift_teaching {m : Py α} (h : Keeps Grown m) :
    Follows teaching AnyEnd l (Async.lift m) w := .lift (h w) trivial

theorem sql_teaching {q : Sql} : Follows teaching AnyEnd l (sql q) w :=
  .call trivial fun _ _ => ⟨trivial, fun _ _ => trivial⟩

theorem handle_teaching (request : Request) (w : World) :
    Follows teaching AnyEnd none request.handle w := by
  by_cases hlearns : request.learns = none
  · exact (handle_follows request w).weaken (fun _ _ _ _ => trivial) (fun _ _ _ _ => trivial)
      (fun l w w' h => Segment.keeps (R := Grown) (fun _ _ he => he.grown hlearns) h)
      (fun _ _ h => h) fun _ _ _ _ => trivial
  cases request with
  | create payload =>
    refine bind_teaching ?_ fun _ _ _ => .pure trivial
    refine Follows.tryCatch (M := AnyEnd) ?_ (fun _ _ _ _ => trivial) fun _ _ _ _ => .throw trivial
    refine bind_teaching (lift_teaching keeps_uuid4) fun agentTypeId _ _ =>
      bind_teaching sql_teaching fun existing _ _ => ?_
    cases existing with
    | some id => exact .throw trivial
    | none =>
      refine bind_teaching (lift_teaching keeps_datetimeUtcnow) fun createdAt _ _ =>
        bind_teaching sql_teaching fun _ _ _ =>
        bind_teaching (lift_teaching (initializeAgentType_grown payload)) fun r _ _ => ?_
      obtain ⟨ids, raised⟩ := r
      cases raised with
      | some e =>
        exact bind_teaching (lift_teaching (rollbackAgentType_grown ids)) fun _ _ _ =>
          bind_teaching sql_teaching fun _ _ _ => .throw trivial
      | none =>
        exact bind_teaching (lift_teaching keeps_datetimeUtcnow) fun _ _ _ => .pure trivial
  | answer agentTypeId body =>
    refine bind_teaching ?_ fun _ _ _ => .pure trivial
    refine bind_teaching (bind_teaching sql_teaching fun row _ _ => ?_) fun agent _ _ =>
      bind_teaching (lift_teaching (keeps_liftExcept _)) fun _ _ _ => ?_
    · cases row with
      | none => exact .throw trivial
      | some row => exact lift_teaching (keeps_rowToResponse row)
    · split
      · exact .throw trivial
      · split
        · exact .throw trivial
        · exact lift_teaching (keeps_handleAnswer_of (fun _ => writeToGraph_grown _ _) _)
  | _ => exact absurd rfl hlearns

/-! ## Runs -/

variable {ι : Type} [DecidableEq ι] {requests : ι → Request}

/-- The requests are served, and they teach. -/
structure Teaches (requests : ι → Request) (c : Loop host ι Response) : Prop where
  serves : Serves requests c
  teaches : c.Conforms (fun _ => teaching) fun _ => AnyEnd

omit [DecidableEq ι] in
theorem teaches_serving (w : World) (requests : ι → Request) :
    Teaches requests (serving w requests) :=
  ⟨serves_serving w requests, Loop.conforms_start fun i w' _ => handle_teaching (requests i) w'⟩

variable {c : Loop host ι Response}

theorem Teaches.step (h : Teaches requests c) (i : ι) : Teaches requests (c.step i) :=
  ⟨h.serves.step i, h.teaches.step fun _ _ => h.serves.persists i⟩

/-- A step takes no knowledge back. -/
theorem Teaches.grown (h : Teaches requests c) (i : ι) : Grown c.store (c.step i).store := by
  rcases h.teaches.step_cases i with hs | ⟨-, hseg, -⟩ | ⟨q, k, -, -, hstore, -⟩
  · rw [hs]
    exact refl_of Grown _
  · exact hseg
  · rw [hstore]
    exact grown_of_graphs (World.serve_graphs q c.store)

theorem Teaches.run (h : Teaches requests c) (sched : List ι) :
    Teaches requests (c.run sched) ∧ Grown c.store (c.run sched).store := by
  induction sched generalizing c with
  | nil => exact ⟨h, refl_of Grown _⟩
  | cons i sched ih =>
    obtain ⟨hteaches, hgrown⟩ := ih (h.step i)
    exact ⟨hteaches, trans_of Grown (h.grown i) hgrown⟩

/-- Whatever requests are made, in whatever interleaving and with whatever failures: every relation
that has been stored stays stored, between the same concepts, and its confidence never falls. -/
theorem knowledge_only_grows {w : World} (hw : EveryGraph Graph.Sturdy w) (requests : ι → Request)
    (sched later : List ι) (name : String) :
    (((serving w requests).run sched).store.graphs name).Grows
      (((serving w requests).run (sched ++ later)).store.graphs name) := by
  obtain ⟨hteaches, hgrown⟩ := (teaches_serving w requests).run sched
  have hlater := (hteaches.run later).2 (hgrown hw).1
  rw [Loop.run_append]
  exact hlater.2 name

theorem sturdy_initial (env : Env) : EveryGraph Graph.Sturdy (.initial env) := fun _ =>
  ⟨⟨List.nodup_nil, fun _ hr => by cases hr⟩, List.nodup_nil, fun _ hr => by cases hr⟩

/-- The agent type is created, and then it is told the same again and again. -/
def Sample.lessons : Nat → Request
  | 0 => .create Sample.shop
  | _ => .answer "shop" Sample.answer

/-- The creation, and the first lesson. -/
def Sample.firstLesson : List Nat := List.replicate 8 0 ++ List.replicate 6 1

theorem knowledge_only_grows_twice :
    (((serving (.initial (answering [goesTo])) Sample.lessons).run
        Sample.firstLesson).store.graphs "shop").Grows
      (((serving (.initial (answering [goesTo])) Sample.lessons).run
        (Sample.firstLesson ++ List.replicate 6 2)).store.graphs "shop") :=
  knowledge_only_grows (sturdy_initial _) Sample.lessons Sample.firstLesson (List.replicate 6 2)
    "shop"

/-! ## Gaps -/

/-- Whatever fails, a report of the detector is exact. -/
theorem detectGaps_exact (hg : (w.graphs name).Sturdy) :
    Triple (detectGaps name) w (fun result _ => ReportsGaps (w.graphs name) result)
      fun _ _ => True := by
  obtain ⟨orphans, horphans, hfindsOrphans⟩ := findOrphanNodes_finds hg.toWellFormed
  obtain ⟨low, hlow, hfindsLow, hweak⟩ :=
    findLowConfidenceEdges_finds hg.toWellFormed hg.graded.weighted
  obtain ⟨unexplored, hunexplored, hfindsUnexplored⟩ := findUnexploredBranches_finds hg.toWellFormed
  refine detectGaps_triple.mono ?_ fun _ _ _ => trivial
  rintro result - ⟨os, ls, us, hos, hls, hus, hgaps, hcounts⟩
  cases horphans.symm.trans hos
  cases hlow.symm.trans hls
  cases hunexplored.symm.trans hus
  have hfound (gapType : GapType) : FindsGaps (w.graphs name) gapType
      ((w.graphs name).Lacks gapType) (gapType.pick orphans low unexplored) := by
    cases gapType with
    | orphan => exact hfindsOrphans
    | lowConfidence => exact hfindsLow
    | unexplored => exact hfindsUnexplored
  exact reportsGaps_of_finds hfound hweak hgaps hcounts

/-- What a concept lacks after the growth, it lacked before, or more. -/
theorem Graph.Grows.lacks {g g' : Graph} (h : g.Grows g') (hg' : g'.Sturdy)
    {id : String} (hid : ∃ c ∈ g.concepts, c.id = id) {gapType : GapType}
    (hlacks : g'.Lacks gapType id) : ∃ before, g.Lacks before id ∧ before.rank ≤ gapType.rank := by
  by_cases hincident : g.Incident id
  · cases gapType with
    | orphan => exact absurd (h.incident hincident) hlacks
    | lowConfidence =>
      obtain ⟨r, hr, hweak⟩ := hlacks
      have hgraded := (hg'.graded r (List.mem_of_mem_filter hr)).1
      exact absurd hweak (not_lt.mpr (le_trans (by norm_num [inferredConfidence]) hgraded))
    | unexplored =>
      obtain ⟨⟨c', hc', rfl, htask⟩, -, hfew⟩ := hlacks
      obtain ⟨c, hc, hsame⟩ := hid
      refine ⟨.unexplored, ⟨⟨c, hc, hsame, ?_⟩, hincident, (h.outgoing _).trans_lt hfew⟩, le_rfl⟩
      -- the concept is still the only one with its id
      obtain ⟨c'', hc'', hidentity, -⟩ := h.concepts c hc (hsame ▸ hincident)
      simp only [Concept.identity, Prod.mk.injEq] at hidentity
      obtain rfl : c'' = c' :=
        List.inj_on_of_nodup_map hg'.nodup_ids hc'' hc' (hidentity.1.trans hsame)
      exact hidentity.2.2.1 ▸ htask
  · exact ⟨.orphan, hincident, Nat.zero_le _⟩

/-- A gap that the detector reports of a concept was already there, in the same form or a worse one,
in every report since the concept is known: a gap that has been closed stays closed. -/
theorem closed_gaps_stay_closed {w w1 w2 : World} (hw : EveryGraph Graph.Sturdy w)
    (requests : ι → Request) (sched later : List ι) {name : String}
    {result result' : GapDetectorResult}
    (hresult : (detectGaps name).exec ((serving w requests).run sched).store = (.ok result, w1))
    (hresult' : (detectGaps name).exec ((serving w requests).run (sched ++ later)).store =
      (.ok result', w2)) {gap' : KnowledgeGap} (hgap' : gap' ∈ result'.gaps)
    (hknown : ∃ c ∈ (((serving w requests).run sched).store.graphs name).concepts,
      c.id = gap'.conceptId) :
    ∃ gap ∈ result.gaps, gap.conceptId = gap'.conceptId ∧
      gap.gapType.rank ≤ gap'.gapType.rank := by
  obtain ⟨-, hgrown⟩ := (teaches_serving w requests).run sched
  obtain ⟨-, hgrown'⟩ := (teaches_serving w requests).run (sched ++ later)
  have hsturdy := (hgrown hw).1 name
  have hsturdy' := (hgrown' hw).1 name
  have hreports := (detectGaps_exact hsturdy).of_ok hresult
  have hreports' := (detectGaps_exact hsturdy').of_ok hresult'
  have hlacks := ((hreports'.exact gap'.gapType gap'.conceptId).mp ⟨gap', hgap', rfl, rfl⟩).2
  obtain ⟨before, hbefore, hrank⟩ := (knowledge_only_grows hw requests sched later name).lacks
    hsturdy' hknown hlacks
  obtain ⟨gap, hgap, rfl, hid⟩ := (hreports.exact before gap'.conceptId).mpr ⟨hknown, hbefore⟩
  exact ⟨gap, hgap, hid, hrank⟩

/-- What the detector reports of the process after the schedule. -/
def Sample.report (sched : List Nat) : Except Exn GapDetectorResult × World :=
  (detectGaps "shop").exec
    ((serving (.initial (answering [goesTo])) Sample.lessons).run sched).store

theorem Sample.report_ok {sched : List Nat} (h : (Sample.report sched).1.isOk = true) :
    ∃ result w1, Sample.report sched = (.ok result, w1) := by
  rcases hreport : Sample.report sched with ⟨e | result, w1⟩
  · rw [hreport] at h
    cases h
  · exact ⟨result, w1, rfl⟩

theorem closed_gaps_stay_closed_menu :
    ∃ result w1, Sample.report (List.replicate 8 0) = (.ok result, w1) ∧
      ∃ gap ∈ result.gaps, gap.conceptId = "root-0-c0000000" ∧
        gap.gapType.rank ≤ GapType.orphan.rank := by
  obtain ⟨result, w1, hresult⟩ := @Sample.report_ok (List.replicate 8 0) (by decide +kernel)
  obtain ⟨result', w2, hresult'⟩ := @Sample.report_ok Sample.firstLesson (by decide +kernel)
  have hknown : ∃ c ∈ (((serving (.initial (answering [goesTo])) Sample.lessons).run
      (List.replicate 8 0)).store.graphs "shop").concepts, c.id = "root-0-c0000000" := by
    decide +kernel
  -- after the first lesson the topic of the agent type still has no relations
  have hsturdy := ((teaches_serving (.initial (answering [goesTo])) Sample.lessons).run
    Sample.firstLesson).2 (sturdy_initial _)
  obtain ⟨gap', hgap', htype, hid⟩ := (((detectGaps_exact (hsturdy.1 "shop")).of_ok
    hresult').exact .orphan "root-0-c0000000").mpr ⟨by decide +kernel, by
      rintro ⟨r, hr, hend⟩
      revert r
      decide +kernel⟩
  refine ⟨result, w1, hresult, ?_⟩
  rw [← hid, ← htype]
  exact closed_gaps_stay_closed (sturdy_initial _) Sample.lessons (List.replicate 8 0)
    (List.replicate 6 1) hresult hresult' hgap' (hid ▸ hknown)

end AgentWorx
