import AgentWorx.Verify.Certification
import AgentWorx.Verify.Isolation

/-!
# Who is taught

`submit_answer` reads the phase of the agent type and writes to its graph in one segment, with no
await between the check and the write. So no answer that was sent to an apprentice reaches a graph
after its agent type has graduated: from then on what it knows is final. Creation writes to the
graph without a check, but not when the agent type is registered already.
-/

namespace AgentWorx

open Coop Coop.Sync

variable {request : Request} {name : String} {l : Option (Event host)} {w w' : World}
  {α β : Type}

/-! ## The gate -/

def Graph.taught (g : Graph) : List Concept × List RelatesTo := (g.concepts, g.relatesTo)

/-- The phase of the agent type is another than apprentice. -/
def PastApprentice (name : String) (w : World) : Prop :=
  readPhase w.redis name ≠ .text Phase.apprentice.value

/-- An agent type that is not an apprentice is taught nothing, and does not become one again. -/
def Untaught (name : String) (w w' : World) : Prop :=
  PastApprentice name w →
    PastApprentice name w' ∧ (w'.graphs name).taught = (w.graphs name).taught

instance (name : String) : IsPreorder World (Untaught name) where
  refl _ h := ⟨h, rfl⟩
  trans _ _ _ h1 h2 h := by
    obtain ⟨hpast, hsame⟩ := h1 h
    obtain ⟨hpast', hsame'⟩ := h2 hpast
    exact ⟨hpast', hsame'.trans hsame⟩

/-- Neither the phase of the agent type nor what it knows has changed. -/
theorem Untaught.of_same (hredis : w'.redis (agentKey name .phase) = w.redis (agentKey name .phase))
    (hgraph : (w'.graphs name).taught = (w.graphs name).taught) : Untaught name w w' := by
  have hphase : readPhase w'.redis name = readPhase w.redis name := by
    unfold readPhase
    exact congrArg (RedisValue.orDefault · _) hredis
  exact fun h => ⟨fun hw => h (hphase ▸ hw), hgraph⟩

instance (name : String) : Ticks (Untaught name) := ⟨fun _ => .of_same rfl rfl⟩

/-- Only a request that teaches the agent type gets past the gate. -/
theorem Effect.untaught (he : Effect request l w w') (hlearns : request.learns ≠ some name) :
    Untaught name w w' := by
  have hcreates : ¬ request.creates name := by
    intro h
    cases request with
    | create payload => exact hlearns (congrArg some (by simpa [Request.creates] using h))
    | _ => cases h
  intro hpast
  constructor
  · rcases he.certification name with ⟨hphase, -⟩ | ⟨⟨hresumes, -⟩, -⟩ | ⟨hgraduated, -⟩
    · exact fun h => hpast (hphase ▸ h)
    · exact absurd hresumes hcreates
    · rw [PastApprentice, hgraduated.phase]
      decide
  · have hgraph {other : String} {g : Graph} (h : g.taught = (w.graphs other).taught) :
        ((w.setGraph other g).graphs name).taught = (w.graphs name).taught := by
      by_cases hname : name = other
      · subst hname
        simpa using h
      · simp [hname]
    cases he with
    | tick | score | reset | graduate | start | session => rfl
    | @knowledge other g hrequest =>
      have hname : name ≠ other := fun h => hlearns (h ▸ hrequest)
      simp [hname]
    | @schema payload hrequest =>
      have hname : name ≠ payload.name := fun h => hlearns (by rw [hrequest, h]; rfl)
      rw [(initializeSchema_provisions payload.name w).others name hname]
    | flush _ _ _ _ hstep =>
      cases hstep with
      | tick => rfl
      | handoffs => exact hgraph rfl
      | role _ hrole => cases hrole <;> exact hgraph rfl

/-- The request keeps to the gate, unless it is a creation of the agent type that has inserted its
row. -/
def gate (name : String) (request : Request) : Spec host where
  issue _ _ _ := True
  stmt _ _ _ := True
  seg l w w' := ResumesCreation request l name ∨ Untaught name w w'
  rely := Persists
  seg_preorder _ :=
    { refl := fun w => .inr (refl_of _ w)
      trans := fun _ _ _ h1 h2 => h1.elim .inl fun h1 => h2.imp_right (trans_of _ h1) }
  rely_preorder := instIsPreorderWorldPersists

theorem bind_gate {p : Coro α} {g : α → Coro β} {M : Post host α}
    (hp : Follows (gate name request) M l p w)
    (hg : ∀ l a w, M l (.ok a) w → Follows (gate name request) AnyEnd l (g a) w) :
    Follows (gate name request) AnyEnd l (p >>= g) w :=
  hp.bind hg fun _ _ _ _ => trivial

theorem lift_gate {m : Py α} (h : Keeps (Untaught name) m) :
    Follows (gate name request) AnyEnd l (Async.lift m) w := .lift (.inr (h w)) trivial

theorem sql_gate {q : Sql} : Follows (gate name request)
    (fun l r _ => ∃ w0, r = (World.serve q w0).1 ∧ l = some ⟨q, r⟩) l (sql q) w :=
  .call trivial fun w1 _ => ⟨trivial, fun _ _ => ⟨w1, rfl, rfl⟩⟩

/-! ## Answers -/

/-- The phase of a response is the one that is read from Redis meanwhile. -/
theorem rowToResponse_phase {row : AgentTypeRow} {agent : AgentTypeResponse}
    (h : ((rowToResponse row).exec w).1 = .ok agent) :
    agent.name = row.name ∧ (readPhase w.redis row.name).toPhase = .ok agent.phase := by
  have hget {key : String} {value : Option RedisValue} {w w1 : World}
      (h : (redisGet key).exec w = (.ok value, w1)) : value = w.redis key ∧ w1 = w.bump := by
    simp only [redisGet, exec, World.call] at h
    split_ifs at h
    · cases h
    · obtain ⟨hvalue, hw⟩ := Prod.mk.inj h
      exact ⟨(Except.ok.inj hvalue).symm, hw.symm⟩
  unfold rowToResponse at h
  obtain ⟨phase, w1, hphase, he⟩ := exec_bind_returns h
  obtain ⟨rfl, rfl⟩ := hget hphase
  rw [he] at h
  obtain ⟨rateText, w2, -, he⟩ := exec_bind_returns h
  rw [he] at h
  obtain ⟨rate, w3, -, he⟩ := exec_bind_returns h
  rw [he] at h
  obtain ⟨scoreText, w4, -, he⟩ := exec_bind_returns h
  rw [he] at h
  obtain ⟨score, w5, -, he⟩ := exec_bind_returns h
  rw [he] at h
  obtain ⟨phase, w6, hphase, he⟩ := exec_bind_returns h
  rw [he] at h
  obtain rfl := Except.ok.inj h
  exact ⟨rfl, congrArg Prod.fst hphase⟩

theorem toPhase_apprentice {value : RedisValue} (h : value.toPhase = .ok .apprentice) :
    value = .text Phase.apprentice.value := by
  cases value with
  | float => cases h
  | text s =>
    simp only [RedisValue.toPhase, Phase.ofValue] at h
    split_ifs at h with hs
    · rw [hs]
      rfl
    all_goals cases h

instance : Ticks (Same World.redis) := ⟨fun _ => rfl⟩

/-- An answer is only taken up for an apprentice. -/
theorem getAgentTypeByName_gate (name : String) :
    Follows (gate name request)
      (fun _ r w => ∀ agent, r = .ok agent → agent.name = name ∧
        (agent.phase = .apprentice → ¬ PastApprentice name w)) l
      (getAgentTypeByName name) w := by
  refine Follows.bind sql_gate (fun l row w hrow => ?_) fun _ _ _ _ _ h => by cases h
  obtain ⟨w0, hread, -⟩ := hrow
  cases row with
  | none => exact .throw fun _ h => by cases h
  | some row =>
    obtain ⟨pg, hpg, -⟩ := World.serve_ok hread.symm
    have hfind : w0.pg.agentTypes.find? (·.name = name) = some row :=
      congrArg Prod.fst (Except.ok.inj hpg)
    have hname : row.name = name := by simpa using List.find?_some hfind
    refine .lift (.inr (keeps_rowToResponse (R := Untaught name) row w)) fun agent h => ?_
    obtain ⟨hagent, hphase⟩ := rowToResponse_phase h
    refine ⟨hagent.trans hname, fun happrentice hpast => hpast ?_⟩
    have hredis : ((rowToResponse row).exec w).2.redis = w.redis :=
      keeps_rowToResponse (R := Same World.redis) row w
    change readPhase ((rowToResponse row).exec w).2.redis name = _
    rw [hredis, ← hname]
    exact toPhase_apprentice (happrentice ▸ hphase)

theorem submitAnswer_gate (name : String) (body : AnswerBody) :
    Follows (gate name request) AnyEnd l (submitAnswer name body) w := by
  refine bind_gate (getAgentTypeByName_gate name) fun l agent w hagent => ?_
  obtain ⟨rfl, happrentice⟩ := hagent agent rfl
  refine bind_gate (M := fun _ r w => ∀ u, r = .ok u → ¬ PastApprentice agent.name w)
    (.lift (.inr (refl_of _ w)) fun u h => ?_) fun l u w hw => ?_
  · refine happrentice ?_
    by_contra hphase
    change requireApprentice agent = .ok u at h
    rw [requireApprentice, if_pos hphase] at h
    cases h
  · -- from here on nothing is awaited
    have hopen := hw u rfl
    split
    · exact .throw trivial
    · split
      · exact .throw trivial
      · exact .lift (.inr fun hpast => absurd hpast hopen) trivial

/-! ## Creation -/

theorem createAgentType_gate (payload : AgentTypeCreate) :
    Follows (gate payload.name (.create payload)) AnyEnd l (createAgentType payload) w := by
  refine bind_gate (lift_gate keeps_uuid4) fun l id w _ =>
    bind_gate sql_gate fun l existing w _ => ?_
  cases existing with
  | some id => exact .throw trivial
  | none =>
    refine bind_gate (lift_gate keeps_datetimeUtcnow) fun l createdAt w _ =>
      bind_gate sql_gate fun l u w hlast => ?_
    obtain ⟨w0, -, hl⟩ := hlast
    have hresumes : ResumesCreation (.create payload) l payload.name :=
      ⟨by simp [Request.creates], by rw [hl]; rfl⟩
    -- the row is in, and nothing that follows is held to the gate
    have hlift {α : Type} {m : Py α} {w : World} : Follows (gate payload.name (.create payload))
        (fun l' _ _ => l' = l) l (Async.lift m) w := .lift (.inl hresumes) rfl
    refine bind_gate hlift fun l' r w hl' => ?_
    obtain ⟨ids, raised⟩ := r
    subst hl'
    cases raised with
    | none => exact bind_gate hlift fun l now w _ => .pure trivial
    | some e =>
      exact bind_gate hlift fun l u w _ => bind_gate sql_gate fun l u w _ => .throw trivial

theorem handle_gate (name : String) (request : Request) (w : World) :
    Follows (gate name request) AnyEnd none request.handle w := by
  by_cases hlearns : request.learns = some name
  · cases request with
    | create payload =>
      obtain rfl := Option.some.inj hlearns
      refine bind_gate (M := AnyEnd) ?_ fun _ _ _ _ => .pure trivial
      exact (createAgentType_gate payload).tryCatch (fun _ _ _ _ => trivial)
        fun _ _ _ _ => .throw trivial
    | answer agentTypeId body =>
      obtain rfl := Option.some.inj hlearns
      exact bind_gate (submitAnswer_gate _ body) fun _ _ _ _ => .pure trivial
    | _ => cases hlearns
  · exact (handle_follows request w).weaken (fun _ _ _ _ => trivial) (fun _ _ _ _ => trivial)
      (fun l w w' h => .inr (Segment.keeps (fun _ _ he => he.untaught hlearns) h))
      (fun _ _ h => h) fun _ _ _ _ => trivial

/-! ## All requests together -/

variable {ι : Type} [DecidableEq ι] {requests : ι → Request} {c : Loop host ι Response} {n : Nat}

/-- What every run keeps in which the agent type is registered at first. -/
structure Gated (requests : ι → Request) (name : String) (n : Nat) (c : Loop host ι Response) :
    Prop extends Apart requests name n c where
  gates : c.Conforms (fun i => gate name (requests i)) fun _ => AnyEnd
  notResumed : ∀ i, ¬ ResumesCreation (requests i) (c.tasks i).last name

omit [DecidableEq ι] in
theorem gated_serving (hdrawn : SessionsDrawn w) (hdistinct : DistinctDraws w.env UUID.toText n)
    (hregistered : Registered name w) : Gated requests name n (serving w requests) where
  toApart := apart_serving hdrawn hdistinct hregistered
  gates := Loop.conforms_start fun i w' _ => handle_gate name (requests i) w'
  notResumed _ h := by cases h.2

/-- No creation of a registered agent type gets its row in. -/
theorem Gated.notResumed_step (h : Gated requests name n c) (i j : ι) :
    ¬ ResumesCreation (requests j) ((c.step i).tasks j).last name := by
  by_cases hij : j = i
  · subst hij
    rcases h.serves.step_cases j with hs | ⟨-, -, -, hlast⟩ | ⟨q, k, -, hallowed, -, -, hlast⟩
    · rw [hs]
      exact h.notResumed j
    · rw [hlast]
      exact h.notResumed j
    · rw [hlast]
      rintro ⟨hcreates, hinserted⟩
      cases q with
      | execute wr =>
        cases wr with
        | insertAgentType row =>
          obtain ⟨payload, hrequest, hrow⟩ := hallowed _ List.mem_cons_self
          rw [hrequest, Request.creates, decide_eq_true_eq] at hcreates
          rcases World.serve_insertAgentType row c.store with ⟨e, he⟩ | ⟨hnew, -⟩
          · rw [he] at hinserted
            cases hinserted
          · obtain ⟨other, hother, hname⟩ := h.registered
            exact (hnew other hother).2 (hname.trans (hrow.trans hcreates).symm)
        | _ => cases hinserted
      | _ => cases hinserted
  · rw [Loop.step_tasks_ne c hij]
    exact h.notResumed j

theorem Gated.step (h : Gated requests name n c) {i : ι} (hn : (c.step i).store.tick ≤ n) :
    Gated requests name n (c.step i) where
  toApart := h.toApart.step hn
  gates := h.gates.step fun _ _ => h.serves.persists i
  notResumed := h.notResumed_step i

theorem Gated.untaught (h : Gated requests name n c) (i : ι) :
    Untaught name c.store (c.step i).store := by
  rcases h.gates.step_cases i with hs | ⟨-, hseg, -⟩ | ⟨q, k, -, -, hstore, -⟩
  · rw [hs]
    exact refl_of _ _
  · exact hseg.resolve_left (h.notResumed i)
  · rw [hstore]
    exact .of_same (by rw [World.serve_redis]) (by rw [World.serve_graphs])

/-- Once a registered agent type is no apprentice any more, it learns nothing: whatever requests are
in flight or made later, in whatever interleaving and with whatever failures, its concepts and their
relations stay exactly as they are. -/
theorem graduated_stops_learning (w : World) (hdrawn : SessionsDrawn w) (requests : ι → Request)
    (name : String) (hregistered : Registered name w) (sched later : List ι)
    (hdistinct : DistinctDraws w.env UUID.toText
      ((serving w requests).run (sched ++ later)).store.tick)
    (hpast : PastApprentice name ((serving w requests).run sched).store) :
    PastApprentice name ((serving w requests).run (sched ++ later)).store ∧
      (((serving w requests).run (sched ++ later)).store.graphs name).taught =
        (((serving w requests).run sched).store.graphs name).taught := by
  set n := ((serving w requests).run (sched ++ later)).store.tick
  obtain ⟨hpre, hpost⟩ := Loop.meets_append.mp ((serves_serving w requests).ticks (le_refl n))
  have hgated : Gated requests name n ((serving w requests).run sched) :=
    hpre.invariant (fun _ _ hc hn => hc.step hn) (gated_serving hdrawn hdistinct hregistered)
  have hrun := hpost.invariant
    (I := fun c => Gated requests name n c ∧
      Untaught name ((serving w requests).run sched).store c.store)
    (fun c i ⟨hc, huntaught⟩ hn => ⟨hc.step hn, trans_of _ huntaught (hc.untaught i)⟩)
    ⟨hgated, refl_of _ _⟩
  rw [Loop.run_append]
  exact hrun.2 hpast

/-- An answer and an approval of the same apprentice. -/
def Sample.lastLesson : Bool → Request
  | false => .cert1Approve "shop" Sample.approval
  | true => .answer "shop" Sample.answer

theorem graduated_stops_learning_shop :
    (((serving Sample.withShop Sample.lastLesson).run
        ([true, false, false, false, false] ++ [true, true])).store.graphs "shop").taught =
      (((serving Sample.withShop Sample.lastLesson).run
        [true, false, false, false, false]).store.graphs "shop").taught :=
  (graduated_stops_learning Sample.withShop (fun _ _ h => by cases h) Sample.lastLesson "shop"
    ⟨Sample.shopRow, List.mem_cons_self, rfl⟩ [true, false, false, false, false] [true, true]
    (by decide +kernel) (by
      have hphase : readPhase ((serving Sample.withShop Sample.lastLesson).run
          [true, false, false, false, false]).store.redis "shop" =
          .text Phase.journeyman.value := by rfl
      rw [PastApprentice, hphase]
      decide)).2

end AgentWorx
