import AgentWorx.Verify.Effects

/-!
# Every request keeps its specification

The proof of `handle_follows`, request by request: the segments are chains of effects, and the
writes are allowed when they are served.
-/

namespace AgentWorx

open Coop Coop.Sync

variable {request : Request} {l : Option (Event host)} {w : World} {α β : Type}

/-- Nothing is said about the end. -/
abbrev AnyEnd : Post host α := fun _ _ _ => True

/-! ## Rules -/

theorem lift_follows {m : Py α} (h : Keeps (Segment request l) m) :
    Follows (effects request) AnyEnd l (Async.lift m) w := .lift (h w) trivial

/-- A segment awaits nothing and takes nothing back. -/
theorem lift_persists {m : Py α} (h : Keeps (Segment request l) m) :
    Follows (effects request) (fun l' _ w' => l' = l ∧ Persists w w') l (Async.lift m) w :=
  .lift (h w) ⟨rfl, (h w).persists⟩

theorem bind_follows {p : Coro α} {g : α → Coro β} {M : Post host α}
    (hp : Follows (effects request) M l p w)
    (hg : ∀ l a w, M l (.ok a) w → Follows (effects request) AnyEnd l (g a) w) :
    Follows (effects request) AnyEnd l (p >>= g) w :=
  hp.bind hg fun _ _ _ _ => trivial

theorem withHttp_follows {status : Exn → Option Nat} {p : Coro α}
    (h : Follows (effects request) AnyEnd l p w) :
    Follows (effects request) AnyEnd l (withHttp status p) w :=
  h.tryCatch (fun _ _ _ _ => trivial) fun _ _ _ _ => trivial

/-- A statement without writes; `P` may use that the answer was read from the tables. -/
theorem read_follows {q : Sql} {P : Post host q.Resp} (hq : q.writes = [])
    (h : ∀ w1 w2, Persists w w1 → Persists (World.serve q w1).2 w2 →
      P (some ⟨q, (World.serve q w1).1⟩) (World.serve q w1).1 w2) :
    Follows (effects request) P l (sql q) w :=
  have hno {I : SqlWrite → Prop} : ∀ wr ∈ q.writes, I wr := by simp [hq]
  .call hno fun w1 h1 => ⟨hno, fun w2 h2 => h w1 w2 h1 h2⟩

theorem execute_follows {wr : SqlWrite} {P : Post host Unit} (hissued : wr.Issued w)
    (h : ∀ w1, Persists w w1 → wr.Allowed request l w1 (.execute wr))
    (hP : ∀ w1 w2, Persists (World.serve (.execute wr) w1).2 w2 →
      P (some ⟨.execute wr, (World.serve (.execute wr) w1).1⟩)
        (World.serve (.execute wr) w1).1 w2) :
    Follows (effects request) P l (sql (.execute wr)) w := by
  have honly {I : SqlWrite → Prop} (hI : I wr) : ∀ wr' ∈ Sql.writes (.execute wr), I wr' := by
    simpa [Sql.writes] using hI
  exact .call (honly hissued) fun w1 h1 => ⟨honly (h w1 h1), hP w1⟩

/-! ## Shared parts -/

theorem rowToResponse_yields (row : AgentTypeRow) :
    Yields (fun agent : AgentTypeResponse => agent.name = row.name) (rowToResponse row) :=
  .bind' fun _ => .bind' fun _ => .bind' fun _ => .bind' fun _ => .bind' fun _ => .bind' fun _ =>
    .pure rfl

theorem getAgentTypeByName_follows (name : String) :
    Follows (effects request) (fun _ r _ => ∀ agent, r = .ok agent → agent.name = name) l
      (getAgentTypeByName name) w := by
  refine Follows.bind (M := fun _ r _ => ∀ row, r = .ok (some row) → row.name = name)
    (read_follows rfl fun w1 w2 _ _ row hrow => ?_)
    (fun l row w hrow => ?_) fun _ _ _ _ _ h => by cases h
  · obtain ⟨pg, hpg, -⟩ := World.serve_ok hrow
    have hfind : w1.pg.agentTypes.find? (·.name = name) = some row :=
      congrArg Prod.fst (Except.ok.inj hpg)
    simpa using List.find?_some hfind
  · cases row with
    | none => exact .throw fun _ h => by cases h
    | some row =>
      refine .lift (keeps_rowToResponse (R := Segment request l) row w) fun agent h => ?_
      exact (rowToResponse_yields row w agent h).trans (hrow row rfl)

theorem getAgentTypeByName_alone {R : World → World → Prop} [Ticks R]
    (hread : ∀ (q : Sql) w, q.writes = [] → R w (World.serve q w).2) (name : String) :
    Async.KeepsAlone R (getAgentTypeByName name) := by
  refine .bind (.call fun w => hread _ w rfl) fun row => ?_
  cases row with
  | none => exact .throw _
  | some row => exact .lift (keeps_rowToResponse row)

theorem submitAnswer_alone {R : World → World → Prop} [Ticks R]
    (hread : ∀ (q : Sql) w, q.writes = [] → R w (World.serve q w).2)
    (hhandle : ∀ agent payload, Keeps R (handleAnswer agent payload)) (agentTypeId : String)
    (body : AnswerBody) : Async.KeepsAlone R (submitAnswer agentTypeId body) := by
  refine .bind (getAgentTypeByName_alone hread agentTypeId) fun agent =>
    .bind (.lift (keeps_liftExcept _)) fun _ => ?_
  split
  · exact .throw _
  · split
    · exact .throw _
    · exact .lift (hhandle _ _)

/-! ## Creation -/

/-- A creation is one segment, with what all its other parts keep before and after it. -/
theorem createAgentType_phases {R S : World → World → Prop} [Ticks R] {payload : AgentTypeCreate}
    (hserve : ∀ q w, R w (World.serve q w).2) (hsegment : Keeps S (initializeAgentType payload))
    (hrollback : ∀ ids, Keeps R (rollbackAgentType payload.name ids)) :
    Async.KeepsAlone (fun w w' => R w w' ∨ ∃ w1 w2, R w w1 ∧ S w1 w2 ∧ R w2 w')
      (createAgentType payload) := by
  set T : World → World → Prop := fun w w' => R w w' ∨ ∃ w1 w2, R w w1 ∧ S w1 w2 ∧ R w2 w'
  have hafter {α β : Type} {p : Coro α} {g : α → Coro β} (hp : Async.KeepsAlone R p)
      (hg : ∀ a, Async.KeepsAlone T (g a)) : Async.KeepsAlone T (p >>= g) := by
    refine .comp hp hg (fun _ _ => .inl) fun w1 w2 w3 h1 h2 => ?_
    rcases h2 with h2 | ⟨w', w'', h2, h3, h4⟩
    · exact .inl (trans_of R h1 h2)
    · exact .inr ⟨w', w'', trans_of R h1 h2, h3, h4⟩
  refine hafter (.lift keeps_uuid4) fun id => hafter (.call (hserve _)) fun existing => ?_
  cases existing with
  | some id => exact fun w => .inl (refl_of R w)
  | none =>
    refine hafter (.lift keeps_datetimeUtcnow) fun createdAt => hafter (.call (hserve _)) fun _ =>
      .comp (R := S) (.lift hsegment) (fun r => ?_)
        (fun w w' h => .inr ⟨w, w', refl_of R w, h, refl_of R w'⟩)
        fun w1 w2 w3 h1 h2 => .inr ⟨w1, w2, refl_of R w1, h1, h2⟩
    obtain ⟨ids, raised⟩ := r
    cases raised with
    | some e =>
      refine .bind (.lift (hrollback ids)) fun _ => .bind (.call (hserve _)) fun _ => ?_
      exact .throw e
    | none => exact .bind (.lift keeps_datetimeUtcnow) fun _ => .pure _

theorem createAgentType_alone {R : World → World → Prop} [Ticks R] {payload : AgentTypeCreate}
    (hserve : ∀ q w, R w (World.serve q w).2) (hsegment : Keeps R (initializeAgentType payload))
    (hrollback : ∀ ids, Keeps R (rollbackAgentType payload.name ids)) :
    Async.KeepsAlone R (createAgentType payload) := by
  intro w
  rcases createAgentType_phases hserve hsegment hrollback w with h | ⟨w1, w2, h1, h2, h3⟩
  · exact h
  · exact trans_of R (trans_of R h1 h2) h3

/-- The `try` block writes the phase key as apprentice. -/
theorem initializeAgentType_segment {payload : AgentTypeCreate} {row : AgentTypeRow}
    (hlast : l = some ⟨.execute (.insertAgentType row), .ok ()⟩) (hname : row.name = payload.name) :
    Keeps (Segment (.create payload) l) (initializeAgentType payload) := by
  have : Learning payload.name (Segment (.create payload) l) := Segment.learning rfl
  refine keeps_initializeAgentType (fun w => .single (.schema rfl))
    (fun _ _ => keeps_name fun _ _ _ => createConcept_concepts) fun field value h => ?_
  refine keeps_callRedis fun w => .single (.reset rfl hlast hname fun hf => .inr ?_)
  subst hf
  exact h.symm

/-- The rollback deletes the keys. -/
theorem rollbackAgentType_segment {payload : AgentTypeCreate} {row : AgentTypeRow}
    (hlast : l = some ⟨.execute (.insertAgentType row), .ok ()⟩) (hname : row.name = payload.name)
    (createdConceptIds : List String) :
    Keeps (Segment (.create payload) l) (rollbackAgentType payload.name createdConceptIds) := by
  have : Learning payload.name (Segment (.create payload) l) := Segment.learning rfl
  exact keeps_rollbackAgentType
    (fun field => keeps_callRedis fun w => .single (.reset rfl hlast hname fun _ => .inl rfl))
    (fun id => keeps_name fun _ _ _ => deleteConcept_concepts) _

theorem createAgentType_follows (payload : AgentTypeCreate) :
    Follows (effects (.create payload)) AnyEnd l (createAgentType payload) w := by
  refine bind_follows (lift_follows keeps_uuid4) fun l agentTypeId w _ => ?_
  refine bind_follows (M := AnyEnd) (read_follows rfl fun _ _ _ _ => trivial)
    fun l existing w _ => ?_
  cases existing with
  | some id => exact .throw trivial
  | none =>
    refine bind_follows (lift_follows keeps_datetimeUtcnow) fun l createdAt w _ => ?_
    -- from here on the last statement is the accepted INSERT
    let row : AgentTypeRow := ⟨agentTypeId, payload.name, payload.goal, payload.taskBoundary,
      payload.topicList, payload.topologyType, payload.workflowParticipants, createdAt.micros⟩
    refine bind_follows (M := fun l r _ => l = some ⟨.execute (.insertAgentType row), r⟩)
      (execute_follows trivial (fun _ _ => ⟨payload, rfl, rfl⟩) fun _ _ _ => rfl) fun l _ w hl => ?_
    refine bind_follows (lift_persists (initializeAgentType_segment hl rfl)) ?_
    rintro l' r w ⟨hl', -⟩
    subst hl'
    rcases r with ⟨createdConceptIds, raised⟩
    cases raised with
    | none => exact bind_follows (lift_follows keeps_datetimeUtcnow) fun l now w _ => .pure trivial
    | some e =>
      refine bind_follows (lift_follows (rollbackAgentType_segment hl rfl _)) fun l _ w _ => ?_
      exact bind_follows (M := AnyEnd)
        (execute_follows trivial (fun _ _ => ⟨payload, rfl⟩) fun _ _ _ => trivial)
        fun l _ w _ => .throw trivial

/-! ## Questions and answers -/

theorem getNextQuestion_follows (agentTypeId : String) :
    Follows (effects request) AnyEnd l (getNextQuestion agentTypeId) w := by
  refine bind_follows (getAgentTypeByName_follows _) fun l agent w _ => ?_
  refine bind_follows (lift_follows (keeps_liftExcept _)) fun l _ w _ => ?_
  refine lift_follows (.tryCatch ((keeps_generateQuestion _ _ _).map _) fun e => ?_)
  split
  · exact .pure _
  · exact .throw _

theorem getReadiness_follows (agentTypeId : String) :
    Follows (effects (.readiness agentTypeId)) AnyEnd l (getReadiness agentTypeId) w := by
  refine bind_follows (getAgentTypeByName_follows _) fun l agent w hname => ?_
  obtain rfl := hname agent rfl
  have : Scores agent.name (Segment (.readiness agent.name) l) := Segment.scores rfl
  exact lift_follows (keeps_computeAndStore _)

theorem submitAnswer_follows (agentTypeId : String) (body : AnswerBody) :
    Follows (effects (.answer agentTypeId body)) AnyEnd l (submitAnswer agentTypeId body) w := by
  refine bind_follows (getAgentTypeByName_follows _) fun l agent w hname => ?_
  obtain rfl := hname agent rfl
  refine bind_follows (lift_follows (keeps_liftExcept _)) fun l _ w _ => ?_
  have : Learning agent.name (Segment (.answer agent.name body) l) := Segment.learning rfl
  have : Scores agent.name (Segment (.answer agent.name body) l) := Segment.scores rfl
  split
  · exact .throw trivial
  · split
    · exact .throw trivial
    · exact lift_follows (keeps_handleAnswer _ _)

/-! ## Proposals -/

/-- After a proposal has been read, the agent type has it, and the reading was the last statement.
-/
theorem getLatestProposal_follows (agentType : String) :
    Follows (effects request)
      (fun l r w => ∀ proposal, r = .ok (some proposal) →
        HasTeam w agentType proposal.version proposal.agents ∧
        ∃ row, l = some ⟨.selectLatestComposition agentType, .ok (some row)⟩ ∧
          proposal = rowToArtifact row) l
      (getLatestProposal agentType) w := by
  refine Follows.bind
    (M := fun (l : Option (Event host)) (r : Except Exn (Option CompositionRow)) w =>
      l = some ⟨.selectLatestComposition agentType, r⟩ ∧
        ∀ row, r = .ok (some row) → HasTeam w agentType row.version row.agentList)
    (read_follows rfl fun w1 w2 _ h2 => ⟨rfl, fun row hrow => ?_⟩)
    (fun l row w ⟨hl, hrow⟩ => .pure fun proposal h => ?_) fun _ _ _ _ _ h => by cases h
  · obtain ⟨pg, hpg, hw⟩ := World.serve_ok hrow
    have hlatest : w1.pg.latestComposition agentType = some row :=
      congrArg Prod.fst (Except.ok.inj hpg)
    have hmem := List.maxOn?_mem hlatest
    simp only [List.mem_filter, decide_eq_true_eq] at hmem
    exact h2.team ((serve_persists _ _).team ⟨row, hmem.1, hmem.2, rfl, rfl⟩)
  · cases row with
    | none => cases h
    | some row =>
      cases h
      exact ⟨hrow row rfl, row, hl, rfl⟩

theorem getProposal_follows (agentTypeId : String) :
    Follows (effects request) AnyEnd l (getProposal agentTypeId) w := by
  refine bind_follows (getAgentTypeByName_follows _) fun l agent w _ => ?_
  refine bind_follows (getLatestProposal_follows _) fun l proposal w _ => ?_
  cases proposal with
  | none => exact .pure trivial
  | some proposal =>
    refine bind_follows (lift_follows (keeps_redisGet _)) fun l ready w _ => ?_
    exact .pure trivial

/-- A drafted proposal has been read off the graph. -/
theorem draftProposal_ready {agentType agentGoal taskBoundary : String}
    {declaredTopology : TopologyType} {workflowParticipants : List String}
    {rejectionContext : Option String} {artifact : ProposalArtifact}
    (h : ((draftProposal agentType agentGoal taskBoundary declaredTopology workflowParticipants
      rejectionContext).exec w).1 = .ok artifact) : Ready w agentType := by
  obtain ⟨clusters, w1, hclusters, -⟩ := exec_bind_returns h
  have hclusters : ((findClusters agentType).exec w).1 = .ok clusters := by rw [hclusters]
  obtain ⟨nodes, w2, hnodes, -⟩ := exec_bind_returns hclusters
  rcases execute_cases agentType (.query [] [.concept] fun g =>
    (g.concepts.filter (·.nspace = "task")).map fun c => (c.id, c.label)) [] w with
    ⟨e, he⟩ | ⟨e, he⟩ | ⟨rows, g, hname, htables, -, -⟩
  · cases he.symm.trans hnodes
  · cases he.symm.trans hnodes
  · exact ⟨hname, htables _ (by simp [Cypher.query])⟩

theorem generateProposal_follows (agentType agentGoal taskBoundary : String)
    (declaredTopology : TopologyType) (workflowParticipants : List String)
    (rejectionContext : Option String) :
    Follows (effects request) AnyEnd l (generateProposal agentType agentGoal taskBoundary
      declaredTopology workflowParticipants rejectionContext) w := by
  refine bind_follows (M := fun _ r w => ∀ artifact, r = .ok artifact → Ready w agentType)
    (.lift (keeps_draftProposal (R := Segment request l) _ _ _ _ _ _ w) fun artifact h => ?_)
    fun l artifact w hready => ?_
  · exact (Segment.persists (keeps_draftProposal (R := Segment request l) _ _ _ _ _ _ w)).ready _
      (draftProposal_ready h)
  · refine bind_follows
      (M := fun l r w => l = some ⟨.selectMaxVersion agentType, r⟩ ∧ Ready w agentType)
      (read_follows rfl fun w1 w2 h1 h2 => ⟨rfl, ?_⟩) fun l maxVersion w ⟨hl, hready⟩ => ?_
    · exact h2.ready _ ((serve_persists _ _).ready _ (h1.ready _ (hready _ rfl)))
    · simp only
      cases parseUUID artifact.id with
      | error e => exact .throw trivial
      | ok id =>
        have hread : Option.getD maxVersion 0 ∈ versionRead agentType l := by
          simp [hl, versionRead]
        exact bind_follows (M := AnyEnd)
          (execute_follows trivial
            (fun w1 h1 => ⟨.inl (h1.ready _ hready), Option.getD maxVersion 0, hread, rfl⟩)
            fun _ _ _ => trivial)
          fun l _ w _ => .pure trivial

theorem requireMutableLatest_follows (agentType : String) :
    Follows (effects request)
      (fun l r w => ∀ latest, r = .ok latest → HasComposition w agentType ∧ latest.Mutable ∧
        ∃ row, l = some ⟨.selectLatestComposition agentType, .ok (some row)⟩ ∧
          latest = rowToArtifact row) l
      (requireMutableLatest agentType) w := by
  refine (getLatestProposal_follows agentType).bind (fun l latest w h => ?_)
    fun _ _ _ _ _ h => by cases h
  cases latest with
  | none => exact .throw fun _ h => by cases h
  | some latest =>
    simp only
    split
    · refine .pure fun _ h' => ?_
      cases h'
      exact ⟨(h latest rfl).1.composition, ‹_›, (h latest rfl).2⟩
    · exact .throw fun _ h => by cases h

theorem approveProposal_follows (agentType : String) (expertId : TextParam)
    {agentTypeId : String} {body : ReviewBody} (haction : body.action = some "approve") :
    Follows (effects (.reviewProposal agentTypeId body)) AnyEnd l
      (approveProposal agentType expertId) w := by
  refine bind_follows (requireMutableLatest_follows agentType) fun l latest w h => ?_
  obtain ⟨-, hmutable, row, rfl, rfl⟩ := h latest rfl
  refine bind_follows (lift_persists keeps_datetimeNow) fun l signedAt w ⟨hl, _⟩ => ?_
  subst hl
  refine bind_follows (M := AnyEnd) (execute_follows trivial
    (fun _ _ => ⟨rfl, by simp [Request.approvesProposal, haction], row, rfl, rfl, hmutable⟩)
    fun _ _ _ => trivial)
    fun l _ w _ => .pure trivial

theorem editTransaction_writes {agentType : String} {expertId : TextParam}
    {edits : ProposalArtifact} {version : Int} {signedAt createdAt : Datetime} {wr : SqlWrite}
    (h : wr ∈ Sql.writes
      (.transaction (editTransaction agentType expertId edits version signedAt createdAt))) :
    wr = .archiveComposition agentType version ∨
    ∃ id, wr = .insertComposition (compositionRow id agentType (version + 1) edits .approved
      (some signedAt.micros) createdAt.micros) expertId := by
  cases hid : parseUUID edits.id with
  | error e => exact .inl (by simpa [Sql.writes, editTransaction, hid, Except.map] using h)
  | ok id =>
    simp only [Sql.writes, editTransaction, hid, Except.map, List.filterMap_cons,
      List.filterMap_nil, List.mem_cons, List.not_mem_nil, or_false] at h
    exact h.imp_right fun h => ⟨id, h⟩

theorem editProposal_follows (agentType : String) (expertId : TextParam)
    (edits : ProposalArtifact) :
    Follows (effects request) AnyEnd l (editProposal agentType expertId edits) w := by
  refine bind_follows (requireMutableLatest_follows agentType) fun l latest w h => ?_
  obtain ⟨hc, -, row, rfl, rfl⟩ := h latest rfl
  have hread : row.version ∈
      versionRead agentType (some ⟨.selectLatestComposition agentType, .ok (some row)⟩) := by
    simp [versionRead]
  refine bind_follows (lift_persists keeps_datetimeNow) fun l signedAt w1 ⟨hl, h1⟩ => ?_
  subst hl
  refine bind_follows (lift_persists keeps_datetimeNow) fun l createdAt w2 ⟨hl, h2⟩ => ?_
  subst hl
  refine bind_follows (M := AnyEnd)
    (.call (fun wr hwr => ?_) fun w3 h3 => ⟨fun wr hwr => ?_, fun _ _ => trivial⟩)
    fun l _ w _ => .pure trivial
  · rcases editTransaction_writes hwr with rfl | ⟨id, rfl⟩ <;> trivial
  · have hc := h3.composition _ (h2.composition _ (h1.composition _ hc))
    rcases editTransaction_writes hwr with rfl | ⟨id, rfl⟩
    · trivial
    · exact ⟨.inr hc, row.version, hread, rfl⟩

theorem rejectProposal_follows (agentType : String) (rejectionReason : TextParam)
    (agentGoal taskBoundary : String) (declaredTopology : TopologyType)
    (workflowParticipants : List String) :
    Follows (effects request) AnyEnd l (rejectProposal agentType rejectionReason agentGoal
      taskBoundary declaredTopology workflowParticipants) w := by
  refine bind_follows (requireMutableLatest_follows agentType) fun l latest w _ => ?_
  exact bind_follows (M := AnyEnd)
    (execute_follows trivial (fun _ _ => trivial) fun _ _ _ => trivial) fun l _ w _ =>
    generateProposal_follows _ _ _ _ _ _

theorem reviewProposal_follows (agentTypeId : String) (body : ReviewBody) :
    Follows (effects (.reviewProposal agentTypeId body)) AnyEnd l
      (reviewProposal agentTypeId body) w := by
  refine bind_follows (getAgentTypeByName_follows _) fun l agent w _ => withHttp_follows ?_
  unfold handleReview
  split
  · rename_i haction
    exact bind_follows (lift_follows (keeps_liftExcept _)) fun l expertId w _ =>
      approveProposal_follows _ _ haction
  · exact bind_follows (lift_follows (keeps_liftExcept _)) fun l expertId w _ =>
      bind_follows (lift_follows (keeps_liftExcept _)) fun l edits w _ =>
      editProposal_follows _ _ _
  · exact bind_follows (lift_follows (keeps_liftExcept _)) fun l reason w _ =>
      rejectProposal_follows _ _ _ _ _ _
  · exact .throw trivial

/-! ## Sessions -/

theorem startSession_follows (agentType : String) :
    Follows (effects (.createSession agentType)) AnyEnd l (startSession agentType) w := by
  refine bind_follows (getLatestProposal_follows agentType) fun l proposal w h => ?_
  cases proposal with
  | none => exact .throw trivial
  | some proposal =>
    simp only
    split
    · exact .throw trivial
    · exact .lift (.single (.start rfl (h proposal rfl).1)) trivial

theorem flushSession_segment (sessionId : String) :
    Keeps (Segment (.close sessionId) l) (flushSession sessionId) := by
  intro w
  rcases flushSession_cases sessionId w with ⟨e, he⟩ | ⟨session, agents, hs, ha, hactive, h⟩
  · rw [he]
  · have hflush {w' : World} (h : Flush session.agentTypeId agents w w') :
        Segment (.close sessionId) l w w' ∧ w'.sessions = w.sessions ∧
          w'.sessionAgents = w.sessionAgents := by
      induction h with
      | refl => exact ⟨.refl, rfl, rfl⟩
      | tail _ hstep ih =>
        refine ⟨ih.1.tail (.flush rfl (ih.2.1 ▸ hs) hactive (ih.2.2 ▸ ha) hstep), ?_⟩
        rw [← ih.2.1, ← ih.2.2]
        cases hstep <;> exact ⟨rfl, rfl⟩
    rcases h with ⟨e, w', h, he⟩ | ⟨w1, w2, edges, closedAt, hroles, hedges, he⟩
    · rw [he]
      exact (hflush h).1
    · have h1 : Flush session.agentTypeId agents w w1 := by
        have : Keeps (Flush session.agentTypeId agents)
          (agents.forM (upsertAgentRole session.agentTypeId)) :=
            .forM fun agent h => upsertAgentRole_flush h
        have := this w
        rwa [hroles] at this
      have h2 : Flush session.agentTypeId agents w1 w2 := by
        have : Keeps (Flush session.agentTypeId agents)
          (writeHandoffEdges session.agentTypeId session) := writeHandoffEdges_flush session
        have := this w1
        rwa [hedges] at this
      obtain ⟨hseg, hsessions, hagents⟩ := hflush (h1.trans h2)
      rw [he]
      refine (hseg.tail (.tick w2)).tail ?_
      have : Effect (.close sessionId) l w2.bump _ := .session rfl (hsessions ▸ hs) (hagents ▸ ha)
        (@SessionStep.close sessionId session agents closedAt hactive)
      rwa [World.setSessionAgents_self (by simpa [hagents] using ha)] at this

theorem closeSession_follows (sessionId : String) :
    Follows (effects (.close sessionId)) AnyEnd l (closeSession sessionId) w := by
  refine bind_follows
    (M := fun _ r w => ∀ summary, r = .ok summary → ∃ session closedAt,
      w.sessions sessionId = some session ∧ session.status = .closed ∧
      summary = summaryRow sessionId session closedAt)
    (.lift (flushSession_segment sessionId w) fun summary h => ?_) fun l summary w h => ?_
  · change ((flushSession sessionId).exec w).1 = _ at h
    change ∃ session closedAt, ((flushSession sessionId).exec w).2.sessions _ = _ ∧ _
    rcases flushSession_cases sessionId w with ⟨e, he⟩ | ⟨session, agents, -, -, -, h'⟩
    · rw [he] at h
      cases h
    · rcases h' with ⟨e, w', -, he⟩ | ⟨w1, w2, edges, closedAt, -, -, he⟩ <;> rw [he] at h ⊢ <;>
        cases h
      exact ⟨{ session with status := .closed, closedAt := some closedAt }, closedAt,
        by simp, rfl, rfl⟩
  · obtain ⟨session, closedAt, hsession, hclosed, rfl⟩ := h summary rfl
    exact bind_follows (M := AnyEnd)
      (execute_follows ⟨session, closedAt, hsession, hclosed, rfl⟩ (fun _ _ => rfl)
        fun _ _ _ => trivial) fun l _ w _ => .pure trivial

theorem submitTurn_segment (sessionId : String) (turnInput : SimulationTurnInput) (toAgent : String)
    (messageFields : List String) :
    Keeps (Segment (.turn sessionId turnInput toAgent messageFields) l)
      (submitTurn sessionId turnInput toAgent messageFields) := by
  intro w
  rcases submitTurn_cases sessionId turnInput toAgent messageFields w with
    ⟨e, he⟩ | ⟨session, agents, hs, ha, hactive, hpending, he⟩
  · rw [he]
  · rw [he]
    have : Effect (.turn sessionId turnInput toAgent messageFields) l w _ :=
      .session rfl hs ha (.turn hactive hpending)
    rw [World.setSessionAgents_self (by simpa using ha)] at this
    exact .single this

theorem resolveViolation_segment (sessionId : String) (violationIndex : Int) (resolution : String)
    (clarification : Option String) :
    Keeps (Segment (.resolve sessionId violationIndex resolution clarification) l)
      (resolveViolation sessionId violationIndex resolution clarification) := by
  intro w
  rcases resolveViolation_cases sessionId violationIndex resolution clarification w with
    ⟨e, he⟩ | ⟨session, agents, lastTurn, index, violation, updatedAgents, coordEdgeWritten, hs, ha,
      hlast, hindex, hviolation, happly, he⟩
  · rw [he]
  · rw [he]
    exact .single (.session rfl hs ha (.resolve hlast hindex hviolation happly))

/-! ## Certification -/

/-- An event is only made of an apprentice. -/
theorem openCertEvent_ok {agentType : String} {decision : CertDecision} {expertId notes : String}
    {event : CertEvent}
    (h : ((openCertEvent agentType decision expertId notes).exec w).1 = .ok event) :
    readPhase ((openCertEvent agentType decision expertId notes).exec w).2.redis event.agentType =
      .text Phase.apprentice.value ∧
    event.agentType = agentType ∧ event.gate = .cert1 ∧ event.decision = decision ∧
      event.expertId = expertId := by
  obtain ⟨state, w1, hstate, he⟩ := exec_bind_returns h
  have hread : state.phase = readPhase w.redis agentType ∧ w1 = w.bump := by
    simp only [getAgentState, exec, World.call] at hstate
    split_ifs at hstate
    · cases hstate
    · simp only [readAgentState, Prod.mk.injEq, except_bind_eq_ok] at hstate
      obtain ⟨⟨rate, -, score, -, hok⟩, rfl⟩ := hstate
      cases hok
      exact ⟨rfl, rfl⟩
  change (openCertEvent agentType decision expertId notes).exec w = _ at he
  rw [he] at h ⊢
  split_ifs at h ⊢ with hphase
  · cases hactual : state.phase.toPhase <;> rw [hactual] at h <;> cases h
  · cases h
    refine ⟨?_, rfl, rfl, rfl, rfl⟩
    obtain ⟨hread, rfl⟩ := hread
    exact hread ▸ not_not.mp hphase

/-- After an accepted insertion the row is there. -/
theorem insertCertEvent_follows (event : CertEvent)
    (hphase : readPhase w.redis event.agentType = .text Phase.apprentice.value)
    (happroves : event.decision = .approved →
      ∃ body, request = .cert1Approve event.agentType body) :
    Follows (effects request)
      (fun l r w => l = some ⟨.execute (.insertCertEvent event.toRow), r⟩ ∧
        (r = .ok () → event.toRow ∈ w.pg.certEvents)) l (insertCertEvent event) w := by
  refine execute_follows hphase (fun _ _ => ⟨rfl, happroves⟩) fun w1 w2 h2 => ⟨rfl, fun h => ?_⟩
  obtain ⟨pg, hpg, hw⟩ := World.serve_ok h
  refine h2.certEvents _ ?_
  have hwrite := Postgres.eval_execute hpg
  rcases Postgres.write_certEvents hwrite with ⟨row, hrow, hevents⟩ | ⟨hne, -⟩
  · cases hrow
    rw [hw]
    simp [hevents]
  · exact absurd rfl (hne _)

theorem graduated_setPhase (w : World) (agentType : String) :
    Graduated (w.setPhase agentType .journeyman journeymanLearningRate) agentType := by
  constructor <;> simp [readPhase, readLearningRate, World.setPhase, RedisValue.orDefault,
    RedisValue.toFloat, Phase.value]

/-- An approval that returns leaves a journeyman. -/
theorem approveCert1_follows (agentType : String) (body : CertApproveRequest) :
    Follows (effects (.cert1Approve agentType body))
      (fun _ r w => ∀ a, r = .ok a → Graduated w agentType) l (approveCert1 agentType body) w := by
  refine Follows.bind (M := fun _ r (w : World) => ∀ event, r = .ok event →
      readPhase w.redis event.agentType = .text Phase.apprentice.value ∧
      event.agentType = agentType ∧ event.gate = .cert1 ∧ event.decision = .approved ∧
      event.expertId = body.expertId)
    (.lift (keeps_openCertEvent (R := Segment _ l) _ _ _ _ w) fun event h => openCertEvent_ok h)
    (fun l event w h => ?_) fun _ _ _ _ _ h => by cases h
  obtain ⟨hphase, hname, hgate, hdecision, hexpert⟩ := h event rfl
  subst hname
  refine (insertCertEvent_follows event hphase fun _ => ⟨body, rfl⟩).bind
    (fun l _ w ⟨hl, hrow⟩ => ?_) fun _ _ _ _ _ h => by cases h
  refine Follows.bind (M := fun _ r w => r = .ok () → Graduated w event.agentType)
    (.lift ?_ fun h => ?_) (fun l _ w h => .pure fun _ _ => h rfl) fun _ _ _ _ _ h => by cases h
  · show Segment _ l w ((setAgentPhase event.agentType .journeyman journeymanLearningRate).exec w).2
    simp only [exec, setAgentPhase, World.call]
    split_ifs
    · exact .single (.tick w)
    · exact (Relation.ReflTransGen.single (.tick w)).tail
        (@Effect.graduate _ _ w.bump event.toRow body rfl hl (hrow rfl) hgate hdecision hexpert)
  · change ((setAgentPhase event.agentType .journeyman journeymanLearningRate).exec w).1 = _ at h
    show Graduated ((setAgentPhase event.agentType .journeyman journeymanLearningRate).exec w).2 _
    simp only [exec, setAgentPhase, World.call] at h ⊢
    split_ifs at h ⊢
    exact graduated_setPhase _ _

theorem rejectCert1_follows (agentType : String) (body : CertRejectRequest) :
    Follows (effects request) AnyEnd l (rejectCert1 agentType body) w := by
  refine bind_follows (M := fun _ r (w : World) => ∀ event, r = .ok event →
      readPhase w.redis event.agentType = .text Phase.apprentice.value ∧ event.decision = .rejected)
    (.lift (keeps_openCertEvent (R := Segment request l) _ _ _ _ w) fun event h =>
      ⟨(openCertEvent_ok h).1, (openCertEvent_ok h).2.2.2.1⟩) fun l event w h => ?_
  obtain ⟨hphase, hdecision⟩ := h event rfl
  refine bind_follows (insertCertEvent_follows event hphase fun happroved => ?_)
    fun _ _ _ _ => .pure trivial
  rw [hdecision] at happroved
  cases happroved

theorem getCert1Status_follows (agentType : String) :
    Follows (effects request) AnyEnd l (getCert1Status agentType) w := by
  refine bind_follows (lift_follows (keeps_getAgentState _)) fun l state w _ => ?_
  refine bind_follows (M := AnyEnd) (read_follows rfl fun _ _ _ _ => trivial) fun l latest w _ => ?_
  refine bind_follows (M := AnyEnd) (read_follows rfl fun _ _ _ _ => trivial) fun l runs w _ => ?_
  exact .pure trivial

/-! ## All requests -/

/-- At the end of a successful approval the agent type is a journeyman. -/
def Ends (request : Request) : Post host Response := fun _ r w =>
  ∀ agentType body a, request = .cert1Approve agentType body → r = .ok a → Graduated w agentType

/-- The code of every request keeps the specification of the request. -/
theorem handle_follows (request : Request) (w : World) :
    Follows (effects request) (Ends request) none request.handle w := by
  have hresponse {α : Type} {p : Coro α} {f : α → Response}
      (h : Follows (effects request) AnyEnd none p w)
      (hno : ∀ agentType body, request ≠ .cert1Approve agentType body) :
      Follows (effects request) (Ends request) none (p >>= fun a => pure (f a)) w :=
    h.bind (fun _ _ _ _ => .pure fun _ _ _ h => absurd h (hno _ _)) fun _ _ _ _ _ _ _ h =>
      absurd h (hno _ _)
  cases request with
  | create payload => exact hresponse (withHttp_follows (createAgentType_follows payload)) (by simp)
  | question agentTypeId => exact hresponse (getNextQuestion_follows agentTypeId) (by simp)
  | readiness agentTypeId => exact hresponse (getReadiness_follows agentTypeId) (by simp)
  | answer agentTypeId body => exact hresponse (submitAnswer_follows agentTypeId body) (by simp)
  | getProposal agentTypeId => exact hresponse (getProposal_follows agentTypeId) (by simp)
  | generateProposal => exact hresponse (generateProposal_follows _ _ _ _ _ _) (by simp)
  | reviewProposal agentTypeId body =>
    exact hresponse (reviewProposal_follows agentTypeId body) (by simp)
  | createSession agentTypeId =>
    exact hresponse (withHttp_follows (startSession_follows agentTypeId)) (by simp)
  | readSession sessionId =>
    have hread : Keeps (Segment (.readSession sessionId) none) (getSession sessionId) := by
      intro w
      rcases getSession_cases sessionId w with ⟨session, -, he⟩ | ⟨-, he⟩ <;> rw [he]
    exact hresponse (withHttp_follows (lift_follows hread)) (by simp)
  | turn =>
    exact hresponse (withHttp_follows (lift_follows (submitTurn_segment _ _ _ _))) (by simp)
  | resolve =>
    exact hresponse (withHttp_follows (lift_follows (resolveViolation_segment _ _ _ _))) (by simp)
  | close sessionId =>
    exact hresponse (withHttp_follows (closeSession_follows sessionId)) (by simp)
  | cert1Status agentTypeId =>
    exact hresponse (bind_follows (getAgentTypeByName_follows _) fun l agent w _ =>
      getCert1Status_follows _) (by simp)
  | cert1Approve agentTypeId body =>
    refine Follows.bind (M := fun _ r w => ∀ a, r = .ok a → Graduated w agentTypeId) ?_
      (fun l a w h => .pure ?_) fun _ _ _ _ _ _ _ _ h => by cases h
    · refine (getAgentTypeByName_follows _).bind (fun l agent w h => ?_)
        fun _ _ _ _ _ h => by cases h
      obtain rfl := h agent rfl
      exact (approveCert1_follows _ _).tryCatch (fun _ _ _ h => h) fun _ _ _ _ => .throw fun _ h =>
        by cases h
    · rintro agentType body' _ hrequest -
      cases hrequest
      exact h a rfl
  | cert1Reject agentTypeId body =>
    exact hresponse (bind_follows (getAgentTypeByName_follows _) fun l agent w _ =>
      withHttp_follows (rejectCert1_follows _ _)) (by simp)

/-! ## All requests together -/

variable {ι : Type} [DecidableEq ι] {requests : ι → Request} {c : Loop host ι Response}

/-- What is left of every request keeps the specification of the request. -/
abbrev Serves (requests : ι → Request) (c : Loop host ι Response) : Prop :=
  c.Conforms (fun i => effects (requests i)) fun i => Ends (requests i)

omit [DecidableEq ι] in
theorem serves_serving (w : World) (requests : ι → Request) :
    Serves requests (serving w requests) :=
  Loop.conforms_start fun i w' _ => handle_follows (requests i) w'

/-- A step is nothing, a segment of its request, or a statement with allowed writes. -/
theorem Serves.step_cases (h : Serves requests c) (i : ι) :
    c.step i = c ∨
    ((∃ f k, (c.tasks i).prog = .sync f k) ∧
      Segment (requests i) (c.tasks i).last c.store (c.step i).store ∧
      (c.step i).trace = c.trace ∧ ((c.step i).tasks i).last = (c.tasks i).last) ∨
    (∃ (q : Sql) (k : _), (c.tasks i).prog = .await q k ∧
      (∀ wr ∈ q.writes, wr.Allowed (requests i) (c.tasks i).last c.store q) ∧
      (c.step i).store = (World.serve q c.store).2 ∧
      (c.step i).trace = c.trace ++ [(i, ⟨q, (World.serve q c.store).1⟩)] ∧
      ((c.step i).tasks i).last = some ⟨q, (World.serve q c.store).1⟩) :=
  Loop.Conforms.step_cases h i

theorem Serves.persists (h : Serves requests c) (i : ι) : Persists c.store (c.step i).store := by
  rcases h.step_cases i with hs | ⟨-, hseg, -⟩ | ⟨q, k, -, -, hstore, -⟩
  · rw [hs]
    exact refl_of _ _
  · exact hseg.persists
  · rw [hstore]
    exact serve_persists q c.store

theorem Serves.step (h : Serves requests c) (i : ι) : Serves requests (c.step i) :=
  Loop.Conforms.step h fun _ _ => h.persists i

theorem Serves.run (h : Serves requests c) (sched : List ι) : Serves requests (c.run sched) :=
  Loop.run_invariant (I := Serves requests) (fun _ i h => h.step i) h sched

theorem Serves.run_persists (h : Serves requests c) (sched : List ι) :
    Persists c.store (c.run sched).store := by
  induction sched generalizing c with
  | nil => exact refl_of _ _
  | cons i sched ih => exact trans_of _ (h.persists i) (ih (h.step i))

/-- What every effect and every allowed statement of the request keeps, its step keeps. -/
theorem Serves.step_keeps {I : World → Prop} {i : ι} (h : Serves requests c)
    (heffect : ∀ l w w', Effect (requests i) l w w' → I w → I w')
    (hserve : ∀ l (q : Sql) w, (∀ wr ∈ q.writes, wr.Allowed (requests i) l w q) → I w →
      I (World.serve q w).2) (hI : I c.store) : I (c.step i).store := by
  refine Loop.Conforms.step_keeps h (fun l w w' hseg => ?_) (fun l w q hq => hserve l q w hq) hI
  exact Segment.keeps (R := Preserves I) (fun w w' he => heffect l w w' he) hseg

/-- An invariant of the system: what every effect and every allowed statement of every request keeps
holds in every reachable state. -/
theorem Serves.invariant {I : World → Prop}
    (heffect : ∀ i l w w', Effect (requests i) l w w' → I w → I w')
    (hserve : ∀ i l (q : Sql) w, (∀ wr ∈ q.writes, wr.Allowed (requests i) l w q) → I w →
      I (World.serve q w).2) (h : Serves requests c) (hI : I c.store) (sched : List ι) :
    I (c.run sched).store :=
  (Loop.run_invariant (I := fun c => Serves requests c ∧ I c.store)
    (fun _ i hc => ⟨hc.1.step i, hc.1.step_keeps (heffect i) (hserve i) hc.2⟩) ⟨h, hI⟩ sched).2

/-- What every effect and every allowed statement of the requests keeps, they keep when they are
made one after another. -/
theorem runAll_invariant {I : World → Prop} {requests : List Request} {w : World}
    (heffect : ∀ request ∈ requests, ∀ l w w', Effect request l w w' → I w → I w')
    (hserve : ∀ request ∈ requests, ∀ l (q : Sql) w,
      (∀ wr ∈ q.writes, wr.Allowed request l w q) → I w → I (World.serve q w).2)
    (hI : I w) : I (runAll requests w) := by
  induction requests generalizing w with
  | nil => exact hI
  | cons request requests ih =>
    refine ih (fun r hr => heffect r (List.mem_cons_of_mem _ hr))
      (fun r hr => hserve r (List.mem_cons_of_mem _ hr)) ?_
    refine (handle_follows request w).runAlone_keeps (fun l w w' hseg => ?_)
      (fun l w q hq => ?_) hI
    · exact Segment.keeps (R := Preserves I)
        (fun w w' he => heffect request List.mem_cons_self l w w' he) hseg
    · exact hserve request List.mem_cons_self l q w hq

/-- The clock of a run never passes its last reading. -/
theorem Serves.ticks (h : Serves requests c) {n : Nat} {sched : List ι}
    (hn : (c.run sched).store.tick ≤ n) :
    Loop.Meets (fun (c : Loop host ι Response) i => (c.step i).store.tick ≤ n) c sched := by
  induction sched generalizing c with
  | nil => trivial
  | cons i sched ih =>
    exact ⟨((h.step i).run_persists sched).tick.trans hn, ih (h.step i) hn⟩

/-- A request that begins with a statement may issue it. -/
theorem handle_issued {request : Request} {q : Sql} {w : World}
    (h : q ∈ (⟨request.handle, none⟩ : Task host Response).awaited) :
    ∀ wr ∈ q.writes, wr.Issued w := by
  obtain ⟨k, hk⟩ := Task.awaited_eq_some.mp (Option.mem_def.mp h)
  have hf := handle_follows request w
  rw [show request.handle = _ from hk] at hf
  exact hf.1

/-! ## All graphs -/

/-- The graph of every agent type has the property. -/
def EveryGraph (P : Graph → Prop) (w : World) : Prop := ∀ name, P (w.graphs name)

theorem EveryGraph.setGraph {P : Graph → Prop} {w : World} (hw : EveryGraph P w) {name : String}
    {g : Graph} (hg : P g) : EveryGraph P (w.setGraph name g) := by
  intro other
  by_cases hname : other = name
  · subst hname
    simpa using hg
  · simpa [hname] using hw other

theorem everyGraph_of_graphs {P : Graph → Prop} {w w' : World} (h : w'.graphs = w.graphs) :
    Preserves (EveryGraph P) w w' := by
  intro hw
  simpa only [EveryGraph, h] using hw

instance (P : Graph → Prop) : Ticks (Preserves (EveryGraph P)) :=
  ⟨fun _ => everyGraph_of_graphs rfl⟩

instance (P : Graph → Prop) (name : String) : Scores name (Preserves (EveryGraph P)) :=
  ⟨fun _ _ _ _ => everyGraph_of_graphs rfl⟩

end AgentWorx
