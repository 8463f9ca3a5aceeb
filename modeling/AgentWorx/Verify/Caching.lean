import AgentWorx.Verify.Readiness

/-!
# The cached readiness

Between requests the readiness that Redis holds is that of the graph. A request that teaches the
graph something scores it before it ends; creation makes a graph without edges, which has no
readiness; and no other request touches the edges or the cache.
-/

namespace AgentWorx

open Coop Coop.Sync

variable {w w' : World} {name : String}

/-! ## The invariant -/

/-- What `get_agent_state` makes of the cache is what the scorer would compute. -/
structure Cached (w : World) (name : String) : Prop where
  score : RedisValue.orDefault (w.redis (agentReadinessScoreKey name)) (.float 0) =
    .float (w.graphs name).readiness
  proposal : w.redis (agentProposalReadyKey name) = some (.text "true") ↔
    w.env.proposalThreshold ≤ (w.graphs name).readiness
  cert : w.redis (agentCertReadyKey name) = some (.text "true") ↔
    w.env.cert1Threshold ≤ (w.graphs name).readiness

theorem Cached.congr (h : Cached w name) (henv : w'.env = w.env)
    (hready : (w'.graphs name).readiness = (w.graphs name).readiness)
    (hredis : ∀ field, AgentField.IsScore field →
      w'.redis (agentKey name field) = w.redis (agentKey name field)) : Cached w' name where
  score := by
    rw [hredis _ ⟨by decide, by decide⟩, hready]
    exact h.score
  proposal := by
    rw [hredis _ ⟨by decide, by decide⟩, hready, henv]
    exact h.proposal
  cert := by
    rw [hredis _ ⟨by decide, by decide⟩, hready, henv]
    exact h.cert

/-- Every edge is graded and every cache is right. -/
structure Settled (w : World) : Prop where
  graded : Graded w
  cached : ∀ name, Cached w name
  registered : ∀ name, (w.graphs name).relatesTo ≠ [] → ∃ row ∈ w.pg.agentTypes, row.name = name

theorem Settled.mono (h : Settled w) (henv : w'.env = w.env)
    (hrows : ∀ row ∈ w.pg.agentTypes, row ∈ w'.pg.agentTypes)
    (hedges : ∀ name, (w'.graphs name).relatesTo = (w.graphs name).relatesTo)
    (hready : ∀ name, (w'.graphs name).readiness = (w.graphs name).readiness)
    (hredis : ∀ name field, AgentField.IsScore field →
      w'.redis (agentKey name field) = w.redis (agentKey name field)) : Settled w' where
  graded name := by
    rw [Graph.Graded, hedges]
    exact h.graded name
  cached name := (h.cached name).congr henv (hready name) (hredis name)
  registered name hne := by
    rw [hedges] at hne
    obtain ⟨row, hrow, hname⟩ := h.registered name hne
    exact ⟨row, hrows row hrow, hname⟩

theorem settled_initial {env : Env} (hproposal : 0 < env.proposalThreshold)
    (hcert : 0 < env.cert1Threshold) : Settled (.initial env) where
  graded name r hr := by cases hr
  cached name := by
    have hzero : Graph.readiness .empty = 0 := Graph.readiness_eq_zero rfl
    have hready : ((World.initial env).graphs name).readiness = 0 := hzero
    constructor
    · rw [hready]
      rfl
    · rw [hready]
      exact ⟨fun h => (by cases h), fun h => absurd h (not_le.mpr hproposal)⟩
    · rw [hready]
      exact ⟨fun h => (by cases h), fun h => absurd h (not_le.mpr hcert)⟩
  registered name hne := absurd rfl hne

instance : Ticks (Preserves Settled) :=
  ⟨fun _ hw => hw.mono rfl (fun _ h => h) (fun _ => rfl) (fun _ => rfl) fun _ _ _ => rfl⟩

theorem Settled.idle (h : Settled w) (hidle : Idle w w') : Settled w' := by
  rw [hidle]
  exact h.mono rfl (fun _ h => h) (fun _ => rfl) (fun _ => rfl) fun _ _ _ => rfl

/-! ## Requests that neither learn nor score -/

variable {request : Request} {l : Option (Event host)}

theorem Effect.settled (he : Effect request l w w') (hlearns : request.learns = none)
    (hscores : request.scores = none) (hw : Settled w) : Settled w' := by
  have hother {g : Graph} {name : String} (hedges : g.relatesTo = (w.graphs name).relatesTo)
      (hconcepts : g.concepts = (w.graphs name).concepts) : Settled (w.setGraph name g) := by
    have hready := Graph.readiness_congr hconcepts hedges
    refine hw.mono rfl (fun _ h => h) (fun other => ?_) (fun other => ?_) fun _ _ _ => rfl
    · by_cases hname : other = name
      · subst hname
        simpa using hedges
      · simp [hname]
    · by_cases hname : other = name
      · subst hname
        simpa using hready
      · simp [hname]
  cases he with
  | tick | start | session =>
    exact hw.mono rfl (fun _ h => h) (fun _ => rfl) (fun _ => rfl) fun _ _ _ => rfl
  | graduate =>
    refine hw.mono rfl (fun _ h => h) (fun _ => rfl) (fun _ => rfl) fun name field hfield => ?_
    simp [World.setPhase, hfield.1, hfield.2]
  | knowledge hrequest =>
    rw [hlearns] at hrequest
    cases hrequest
  | score hrequest =>
    rw [hscores] at hrequest
    cases hrequest
  | schema hrequest | reset hrequest =>
    subst hrequest
    cases hlearns
  | flush _ _ _ _ hstep =>
    cases hstep with
    | tick => exact hw.mono rfl (fun _ h => h) (fun _ => rfl) (fun _ => rfl) fun _ _ _ => rfl
    | handoffs => exact hother rfl rfl
    | role _ hrole => exact hother (by cases hrole <;> rfl) (by cases hrole <;> rfl)

theorem serve_settled {q : Sql} (hallowed : ∀ wr ∈ q.writes, wr.Allowed request l w q)
    (hlearns : request.learns = none) (hw : Settled w) : Settled (World.serve q w).2 := by
  have hrows : (World.serve q w).2.pg.agentTypes = w.pg.agentTypes := by
    refine World.serve_keeps (R := Same Postgres.agentTypes) fun pg pg' wr hwr h => ?_
    rcases Postgres.write_agentTypes h with ⟨row, rfl, -⟩ | ⟨id, rfl, -⟩ | ⟨-, -, h⟩
    · obtain ⟨payload, rfl, -⟩ := hallowed _ hwr
      cases hlearns
    · obtain ⟨payload, rfl⟩ := hallowed _ hwr
      cases hlearns
    · exact h
  refine hw.mono (by simp) (fun row hrow => hrows ▸ hrow) (fun _ => by simp) (fun _ => by simp) ?_
  intro name field _
  simp

/-! ## Scores and answers -/

/-- All that is settled except the cache of the agent type, which is registered. -/
structure Unscored (w : World) (name : String) : Prop where
  cached : ∀ other, other ≠ name → Cached w other
  registered : ∀ name, (w.graphs name).relatesTo ≠ [] → ∃ row ∈ w.pg.agentTypes, row.name = name
  row : ∃ row ∈ w.pg.agentTypes, row.name = name

instance : Ticks (Preserves fun w => Unscored w name) :=
  ⟨fun _ hw => ⟨fun other h => (hw.cached other h).congr rfl rfl fun _ _ => rfl, hw.registered,
    hw.row⟩⟩

instance : Learning name (Preserves fun w => Unscored w name) where
  knowledge w g _ hw := by
    refine ⟨fun other h => (hw.cached other h).congr rfl (by simp [h]) fun _ _ => rfl, ?_, hw.row⟩
    intro other hne
    by_cases hname : other = name
    · subst hname
      exact hw.row
    · exact hw.registered other (by simpa [hname] using hne)

/-- The scorer settles the cache. -/
theorem computeAndStore_settles (hgraded : Graded w) (hw : Unscored w name) :
    Triple (computeAndStore name) w (fun _ => Settled) fun _ _ => True := by
  have hsettled : Settled (w.cacheReadiness name) := by
    refine ⟨hgraded, fun other => ?_, hw.registered⟩
    by_cases hname : other = name
    · subst hname
      constructor
      · simp [World.cacheReadiness, RedisValue.orDefault]
      · simp [World.cacheReadiness, flagText]
      · simp [World.cacheReadiness, flagText]
    · refine (hw.cached other hname).congr rfl rfl fun field _ => ?_
      simp [World.cacheReadiness, hname]
  exact (computeAndStore_triple (hgraded name).weighted).mono
    (fun _ _ h => hsettled.idle h.2.2.2) fun _ _ _ => trivial

theorem handleAnswer_settles {agent : AgentTypeResponse} {payload : AnswerProcessorInput}
    (hw : Settled w) (hrow : ∃ row ∈ w.pg.agentTypes, row.name = agent.name) :
    Triple (handleAnswer agent payload) w (fun _ => Settled) fun _ _ => True := by
  refine .bind ((Triple.of_keeps (keeps_processAnswer (R := Idle) payload) w).mono (fun _ _ h => h)
    fun _ _ _ => trivial) fun result w1 hidle => ?_
  have hw1 : Settled w1 := hw.idle hidle
  have hunscored : Unscored w1 agent.name := by
    refine ⟨fun other _ => hw1.cached other, hw1.registered, ?_⟩
    rw [hidle]
    exact hrow
  cases result.status with
  | conflict => exact .pure hw1
  | followUp =>
    refine .bind ((Triple.of_keeps (keeps_generateFollowup (R := Idle) _ _ _ _ _) w1).mono
      (fun _ _ h => h) fun _ _ _ => trivial) fun followup w2 hidle => .pure (hw1.idle hidle)
  | write =>
    have hwrite := (writeToGraph_graded agent.name result false).and
      (keeps_writeToGraph (R := Preserves fun w => Unscored w agent.name) agent.name result false)
    refine .bind ((Triple.of_keeps hwrite w1).mono (fun _ _ h => h ⟨hw1.graded, hunscored⟩)
      fun _ _ _ => trivial) fun summary w2 hw2 => ?_
    exact .bind (computeAndStore_settles hw2.1 hw2.2) fun score w3 hw3 => .pure hw3

/-- A response about an agent type comes from its row. -/
theorem getAgentTypeByName_triple (name : String) :
    Async.TripleAlone (getAgentTypeByName name) w
      (fun agent w' => agent.name = name ∧ (∃ row ∈ w.pg.agentTypes, row.name = name) ∧ Idle w w')
      fun _ _ => True := by
  refine .bind (M := fun row w' => row = w.pg.agentTypes.find? (·.name = name) ∧ Idle w w')
    (.call (fun row hrow => ?_) fun _ _ => trivial) fun row w1 ⟨hrow, hidle⟩ => ?_
  · obtain ⟨pg, hpg, hserve⟩ := World.serve_ok hrow
    cases hpg
    rw [hserve]
    exact ⟨rfl, rfl⟩
  · cases row with
    | none => exact .throw trivial
    | some row =>
      have hname : row.name = name := by simpa using List.find?_some hrow.symm
      have hyields := rowToResponse_yields row w1
      have hkeeps := keeps_rowToResponse (R := Idle) row w1
      refine .lift ?_
      unfold Triple
      rcases hx : (rowToResponse row).exec w1 with ⟨e | agent, w2⟩ <;> rw [hx] at hyields hkeeps
      · trivial
      · exact ⟨(hyields agent rfl).trans hname, ⟨row, List.mem_of_find?_eq_some hrow.symm, hname⟩,
          trans_of Idle hidle hkeeps⟩

theorem getReadiness_settles (hw : Settled w) :
    Async.TripleAlone (getReadiness name) w (fun _ => Settled) fun _ _ => True := by
  refine .bind (getAgentTypeByName_triple name) fun agent w1 ⟨hname, hrow, hidle⟩ => .lift ?_
  have hw1 := hw.idle hidle
  subst hname
  refine computeAndStore_settles hw1.graded ⟨fun other _ => hw1.cached other, hw1.registered, ?_⟩
  rw [hidle]
  exact hrow

theorem submitAnswer_settles {body : AnswerBody} (hw : Settled w) :
    Async.TripleAlone (submitAnswer name body) w (fun _ => Settled) fun _ _ => True := by
  refine .bind (getAgentTypeByName_triple name) fun agent w1 ⟨hname, hrow, hidle⟩ => ?_
  refine .bind (M := fun _ w2 => Idle w w2) (.lift ((liftExcept_triple fun _ => trivial).mono
    (fun _ _ h => h.2 ▸ hidle) fun _ _ h => h)) fun _ w2 hidle2 => ?_
  split
  · exact .throw trivial
  · split
    · exact .throw trivial
    · refine .lift (handleAnswer_settles (hw.idle hidle2) ?_)
      rw [hidle2, hname]
      exact hrow

/-! ## Creation -/

/-- The graph of the agent type has no edges, so its readiness stays zero whatever concepts it gets.
-/
structure Starting (name : String) (w : World) : Prop where
  settled : Settled w
  edges : (w.graphs name).relatesTo = []

instance : Ticks (Preserves (Starting name)) :=
  ⟨fun w hw => ⟨Ticks.tick (R := Preserves Settled) w hw.settled, hw.edges⟩⟩

instance : Naming name (Preserves (Starting name)) where
  concepts w concepts hw := by
    refine ⟨hw.settled.mono rfl (fun _ h => h) (fun other => ?_) (fun other => ?_)
      fun _ _ _ => rfl, by simpa using hw.edges⟩
    · by_cases hname : other = name
      · subst hname
        simp
      · simp [hname]
    · by_cases hname : other = name
      · subst hname
        rw [Graph.readiness_eq_zero hw.edges, Graph.readiness_eq_zero (by simpa using hw.edges)]
      · simp [hname]

theorem initializeAgentType_settles (payload : AgentTypeCreate) :
    Keeps (Preserves (Starting payload.name)) (initializeAgentType payload) := by
  refine keeps_initializeAgentType (fun w hw => ?_)
    (fun concept _ => keeps_name fun _ _ _ => createConcept_concepts)
    fun field value hinitial => keeps_callRedis fun w hw => ?_
  · have hschema := initializeSchema_provisions payload.name w
    obtain ⟨tables, -, hg⟩ := hschema.graph
    have hsame (other : String) :
        ((exec (initializeSchema payload.name) w).2.graphs other).relatesTo =
          (w.graphs other).relatesTo ∧
        ((exec (initializeSchema payload.name) w).2.graphs other).concepts =
          (w.graphs other).concepts := by
      by_cases hname : other = payload.name
      · subst hname
        rw [hg]
        exact ⟨rfl, rfl⟩
      · rw [hschema.others other hname]
        exact ⟨rfl, rfl⟩
    refine ⟨hw.settled.mono hschema.env (fun row hrow => hschema.pg ▸ hrow)
      (fun other => (hsame other).1)
      (fun other => Graph.readiness_congr (hsame other).2 (hsame other).1) fun _ _ _ => ?_, ?_⟩
    · rw [hschema.redis]
    · rw [(hsame payload.name).1]
      exact hw.edges
  · have hkey (field' : AgentField) (hne : field' ≠ field) (other : String) :
        (w.setRedis (agentKey payload.name field) (some value)).redis (agentKey other field') =
          w.redis (agentKey other field') := by simp [hne]
    refine ⟨⟨hw.settled.graded, fun other => ?_, hw.settled.registered⟩, hw.edges⟩
    by_cases hfield : field = .readinessScore ∧ other = payload.name
    · -- the score is written over with that of a graph without edges
      obtain ⟨rfl, rfl⟩ := hfield
      cases hinitial
      have hcached := hw.settled.cached payload.name
      refine ⟨?_, ?_, ?_⟩
      · simp [RedisValue.orDefault, Graph.readiness_eq_zero hw.edges]
      · rw [hkey _ (by decide)]
        exact hcached.proposal
      · rw [hkey _ (by decide)]
        exact hcached.cert
    · refine (hw.settled.cached other).congr rfl rfl fun field' hscore => ?_
      have hne : ¬ (other = payload.name ∧ field' = field) := by
        rintro ⟨rfl, rfl⟩
        cases field' with
        | phase => exact hscore.1 rfl
        | learningRate => exact hscore.2 rfl
        | readinessScore => exact hfield ⟨rfl, rfl⟩
        | proposalReady | certReady => cases hinitial
      exact Function.update_of_ne (by simpa using hne) _ _

theorem createAgentType_settles {payload : AgentTypeCreate} (hw : Settled w) :
    Async.TripleAlone (createAgentType payload) w (fun _ => Settled) fun _ _ => True := by
  refine .bind (.keeps keeps_uuid4 hw) fun agentTypeId w1 hw1 => ?_
  refine .bind (M := fun existing w2 => Settled w2 ∧
    (existing = none → (w2.graphs payload.name).relatesTo = []))
    (.call (fun existing hexisting => ?_) fun _ _ => trivial) fun existing w2 hw2 => ?_
  · obtain ⟨pg, hpg, hserve⟩ := World.serve_ok hexisting
    cases hpg
    rw [hserve]
    refine ⟨hw1.idle rfl, fun hnone => ?_⟩
    by_contra hne
    obtain ⟨row, hrow, hname⟩ := hw1.registered payload.name hne
    rw [Option.map_eq_none_iff, List.find?_eq_none] at hnone
    exact hnone row hrow (by simpa using hname)
  · cases existing with
    | some id => exact .throw trivial
    | none =>
      have hstart : Starting payload.name w2 := ⟨hw2.1, hw2.2 rfl⟩
      refine .bind (.keeps keeps_datetimeUtcnow hstart) fun createdAt w3 hw3 => ?_
      refine .bind (M := fun _ => Starting payload.name) (.call (fun _ hinsert => ?_)
        fun _ _ => trivial) fun _ w4 hw4 => ?_
      · obtain ⟨pg, hpg, hserve⟩ := World.serve_ok hinsert
        rw [hserve]
        have hrows : ∀ row ∈ w3.pg.agentTypes, row ∈ pg.agentTypes := by
          intro row hrow
          refine Postgres.eval_keeps (R := Preserves fun pg => row ∈ pg.agentTypes) hpg ?_ hrow
          intro pg pg' wr hwr hwrite hrow
          obtain rfl := List.mem_singleton.mp hwr
          rcases Postgres.write_agentTypes hwrite with ⟨row', -, -, h⟩ | ⟨id, h, -⟩ | ⟨h, -⟩
          · simp [h, hrow]
          · cases h
          · exact absurd rfl (h _)
        exact ⟨hw3.settled.mono rfl hrows (fun _ => rfl) (fun _ => rfl) fun _ _ _ => rfl, hw3.edges⟩
      · refine .bind (.keeps (initializeAgentType_settles payload) hw4) fun r w5 hw5 => ?_
        obtain ⟨ids, raised⟩ := r
        cases raised with
        | some e =>
          -- the rollback ends in the exception
          exact .bind (.any _ _) fun _ _ _ => .bind (.any _ _) fun _ _ _ => .throw trivial
        | none => exact .bind (.keeps keeps_datetimeUtcnow hw5.settled) fun _ _ hw6 => .pure hw6

/-! ## Completed requests -/

theorem handle_settles (request : Request) (hw : Settled w) :
    Async.TripleAlone request.handle w (fun _ => Settled) fun _ _ => True := by
  by_cases hother : request.learns = none ∧ request.scores = none
  · obtain ⟨hlearns, hscores⟩ := hother
    have hsettled : Settled (request.handle.runAlone w).2 :=
      (handle_follows request w).runAlone_keeps
        (fun l w w' hseg => Segment.keeps (R := Preserves Settled)
          (fun w w' he => he.settled hlearns hscores) hseg)
        (fun l w q hq => serve_settled hq hlearns) hw
    unfold Async.TripleAlone
    rcases hx : request.handle.runAlone w with ⟨e | response, w'⟩ <;> rw [hx] at hsettled
    · trivial
    · exact hsettled
  · cases request with
    | create payload =>
      exact .bind (.tryCatch (createAgentType_settles hw) fun _ _ _ => .throw trivial)
        fun _ _ hw' => .pure hw'
    | readiness agentTypeId => exact .bind (getReadiness_settles hw) fun _ _ hw' => .pure hw'
    | answer agentTypeId body => exact .bind (submitAnswer_settles hw) fun _ _ hw' => .pure hw'
    | _ => exact absurd ⟨rfl, rfl⟩ hother

theorem completed_settled {requests : List Request} (hw : Settled w)
    (h : completed requests w = some w') : Settled w' := by
  induction requests generalizing w with
  | nil =>
    cases h
    exact hw
  | cons request requests ih =>
    have hsettled := handle_settles request hw
    unfold Async.TripleAlone at hsettled
    rw [completed] at h
    rcases hx : request.handle.runAlone w with ⟨e | response, w1⟩ <;> rw [hx] at hsettled h
    · cases h
    · exact ih hsettled h

/-- What `get_agent_state` returns is read from the cache. -/
theorem getAgentState_cached (hw : Cached w name) {state : AgentState}
    (hstate : ((getAgentState name).exec w).1 = .ok state) :
    state.readinessScore = (w.graphs name).readiness ∧
      state.proposalReady = decide (w.env.proposalThreshold ≤ (w.graphs name).readiness) ∧
      state.certReady = decide (w.env.cert1Threshold ≤ (w.graphs name).readiness) := by
  simp only [exec, getAgentState, World.call] at hstate
  split_ifs at hstate
  simp only [readAgentState, World.bump_redis, hw.score, except_bind_eq_ok] at hstate
  obtain ⟨learningRate, -, score, hscore, hstate⟩ := hstate
  cases hscore
  cases hstate
  exact ⟨rfl, decide_eq_decide.mpr hw.proposal, decide_eq_decide.mpr hw.cert⟩

/-- After any successful requests, no score that the scorer computes next, now or once an answer has
been written, fails its validation; and the cache of every agent type is what it would compute. -/
theorem readiness_is_cached {env : Env} {requests : List Request} {w : World}
    (hproposal : 0 < env.proposalThreshold) (hcert : 0 < env.cert1Threshold)
    (h : completed requests (.initial env) = some w) (name : String) :
    ((computeAndStore name).exec w).1 ≠ .error (.validationError "ReadinessScore") ∧
    (∀ result isFollowup, ((computeAndStore name).exec
      ((writeToGraph name result isFollowup).exec w).2).1 ≠
        .error (.validationError "ReadinessScore")) ∧
    ∀ state score, ((getAgentState name).exec w).1 = .ok state →
      ((computeAndStore name).exec w).1 = .ok score →
      state.readinessScore = score.score.val ∧ state.proposalReady = score.proposalReady ∧
        state.certReady = score.certReady := by
  have hw : Settled w := completed_settled (settled_initial hproposal hcert) h
  have hvalid {w : World} (hw : Graded w) :
      ((computeAndStore name).exec w).1 ≠ .error (.validationError "ReadinessScore") := by
    intro herror
    rcases (computeAndStore_triple (hw name).weighted).error herror with hfail | ⟨hdown, -⟩
    · exact hfail.2 "ReadinessScore" rfl
    · cases hdown
  refine ⟨hvalid hw.graded, fun result isFollowup => ?_, fun state score hstate hscore => ?_⟩
  · exact hvalid (writeToGraph_graded name result isFollowup w hw.graded)
  · obtain ⟨hread, hproposal, hcert⟩ := getAgentState_cached (hw.cached name) hstate
    obtain ⟨hcomputed, hproposal', hcert', -⟩ :=
      (computeAndStore_triple (hw.graded name).weighted).ok hscore
    exact ⟨hread.trans hcomputed.symm, hproposal.trans hproposal'.symm, hcert.trans hcert'.symm⟩

/-- The shop is made and taught that orders go to the kitchen. -/
theorem readiness_is_cached_once : ∃ w state score,
    completed [.create Sample.shop, .answer "shop" Sample.answer]
      (.initial (answering [goesTo])) = some w ∧
    ((getAgentState "shop").exec w).1 = .ok state ∧
    ((computeAndStore "shop").exec w).1 = .ok score ∧
    state.readinessScore = score.score.val ∧ state.proposalReady = score.proposalReady ∧
      state.certReady = score.certReady := by
  have hrun : ((completed [.create Sample.shop, .answer "shop" Sample.answer]
      (.initial (answering [goesTo]))).bind fun w =>
        ((getAgentState "shop").exec w).1.toOption.bind fun _ =>
          ((computeAndStore "shop").exec w).1.toOption).isSome = true := by
    decide +kernel
  obtain ⟨score, hrun⟩ := Option.isSome_iff_exists.mp hrun
  obtain ⟨w, hw, hrun⟩ := Option.bind_eq_some_iff.mp hrun
  obtain ⟨state, hstate, hscore⟩ := Option.bind_eq_some_iff.mp hrun
  have htoOption {α : Type} {r : Except Exn α} {a : α} (h : r.toOption = some a) : r = .ok a := by
    cases r with
    | error e => cases h
    | ok b => rw [Option.some.inj h]
  have hstate := htoOption hstate
  have hscore := htoOption hscore
  exact ⟨w, state, score, hw, hstate, hscore,
    (readiness_is_cached (by norm_num [answering, Sample.env])
      (by norm_num [answering, Sample.env]) hw "shop").2.2 state score hstate hscore⟩

end AgentWorx
