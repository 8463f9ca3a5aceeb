import AgentWorx.Lib.Exclusion
import AgentWorx.Verify.Creation

/-!
# Concurrent creations of one agent type

The UNIQUE constraint on the name makes the row of an agent type a lock: a call has it from its
`INSERT` to the `DELETE` of its rollback, or for good. Only the call that has the row touches the
graph and the keys of the agent type, so what a creation leaves is out of reach of every other
creation with its name.
-/

namespace AgentWorx

open Coop Coop.Sync

variable {w w' : World} {payload : AgentTypeCreate} {concepts roots : List Concept}
  {row : AgentTypeRow} {p : Coro AgentTypeResponse}

/-- The row and the root concepts that a response stands for, in a graph that had `concepts`
before. -/
structure StandsFor (payload : AgentTypeCreate) (concepts : List Concept)
    (response : AgentTypeResponse) (row : AgentTypeRow) (roots : List Concept) : Prop where
  row : ∃ id createdAt, row = payload.toRow id createdAt ∧ response.agentTypeId = id.toText
  labels : roots.map (·.label) = payload.topicList
  nodup : (roots.map (·.id)).Nodup
  fresh : ∀ c ∈ concepts, c.id ∉ roots.map (·.id)
  root : ∀ c ∈ roots, c.nspace = "task" ∧ c.confidence = 0

/-- They are there, with the three keys, and no other concept has come. -/
structure Created (name : String) (concepts : List Concept) (row : AgentTypeRow)
    (roots : List Concept) (w : World) : Prop where
  row : row ∈ w.pg.agentTypes
  keys : ∀ field value, field.initial = some value → w.redis (agentKey name field) = some value
  concepts : (w.graphs name).concepts = concepts ++ roots

theorem Created.idle {name : String} (h : Created name concepts row roots w) (hw : Idle w w') :
    Created name concepts row roots w' := by
  rw [hw]
  exact ⟨h.row, h.keys, h.concepts⟩

/-! ## A creation and its row -/

/-- How the segment ends that starts in `w`, when the row is in. -/
inductive Outcome (payload : AgentTypeCreate) (row : AgentTypeRow) (w : World) :
    Coro AgentTypeResponse → World → Prop
  | created {response} {roots : List Concept} {w' : World}
    (hstands : StandsFor payload (w.graphs payload.name).concepts response row roots)
    (hpg : w'.pg = w.pg)
    (hkeys : ∀ field value, field.initial = some value →
      w'.redis (agentKey payload.name field) = some value)
    (hconcepts : (w'.graphs payload.name).concepts = (w.graphs payload.name).concepts ++ roots) :
    Outcome payload row w (.done (.ok response)) w'
  | stuck {e} {w' : World} (hpg : w'.pg = w.pg) : Outcome payload row w (.done (.error e)) w'
  | undone {k} {w' : World} (hpg : w'.pg = w.pg)
    (hconcepts : (w'.graphs payload.name).concepts = (w.graphs payload.name).concepts)
    (hk : ∀ r, ∃ e, k r = .done (.error e)) :
    Outcome payload row w (.await (.execute (.deleteAgentType row.id)) k) w'

/-- A creation that has no row: it has not inserted it yet, or it has failed. -/
inductive Rowless (payload : AgentTypeCreate) : Coro AgentTypeResponse → Prop
  | failed {e} : Rowless payload (.done (.error e))
  | segment {f k} (hidle : ∀ w, Idle w (f w)) (hk : ∀ w, Rowless payload (k w)) :
    Rowless payload (.sync f k)
  | select {k} (hk : ∀ r, Rowless payload (k r)) :
    Rowless payload (.await (.selectAgentTypeId payload.name) k)
  | insert {row : AgentTypeRow} {k} (hname : row.name = payload.name)
    (herr : ∀ e, Rowless payload (k (.error e))) (hgo : ∀ r, k (.ok ()) ≠ .done r)
    (hok : ∀ w, Outcome payload row w ((k (.ok ())).next w).1 ((k (.ok ())).next w).2) :
    Rowless payload (.await (.execute (.insertAgentType row)) k)

theorem finishAgentType_outcome (payload : AgentTypeCreate) (id : UUID) (createdAt : Int)
    (w : World) : Outcome payload (payload.toRow id createdAt) w
      ((finishAgentType payload id).next w).1 ((finishAgentType payload id).next w).2 := by
  have htry := initializeAgentType_triple payload w
  rcases hx : (initializeAgentType payload).exec w with ⟨e | ⟨ids, raised⟩, w1⟩
  · exact (htry.of_error hx).elim
  obtain ⟨roots, rfl, h1⟩ := htry.of_ok hx
  cases raised with
  | none =>
    have hnext : (finishAgentType payload id).next w = _ := Async.settle_lift_bind_ok hx
    rw [hnext]
    have hroots := h1.graph
    refine .created ?_ h1.pg (h1.keys rfl) hroots.concepts
    exact ⟨⟨id, createdAt, rfl, rfl⟩, h1.labels rfl, hroots.nodup, hroots.fresh, hroots.root⟩
  | some e =>
    have hnext : (finishAgentType payload id).next w =
        (undoAgentType payload.name id (roots.map (·.id)) e).settle w1 :=
      Async.settle_lift_bind_ok (H := host) hx
    rw [hnext]
    have hrollback := rollbackAgentType_triple h1.graph
    rcases hy : (rollbackAgentType payload.name (roots.map (·.id))).exec w1 with ⟨e' | u, w2⟩
    · have hstuck : (undoAgentType payload.name id (roots.map (·.id)) e).settle w1 =
          (.done (.error e'), w2) := Async.settle_lift_bind_error hy
      rw [hstuck]
      exact .stuck ((hrollback.of_error hy).1.trans h1.pg)
    · have hundone : (undoAgentType payload.name id (roots.map (·.id)) e).settle w1 = _ :=
        Async.settle_lift_bind_ok hy
      rw [hundone]
      obtain ⟨-, -, -, hpg, -, hconcepts⟩ := hrollback.of_ok hy
      exact .undone (hpg.trans h1.pg) hconcepts fun r => by cases r <;> exact ⟨_, rfl⟩

theorem createAgentType_rowless (payload : AgentTypeCreate) :
    Rowless payload (createAgentType payload) := by
  refine .segment (fun w => rfl) fun w => .select fun r => ?_
  rcases r with e | existing
  · exact .failed
  · cases existing with
    | some _ => exact .failed
    | none =>
      refine .segment (fun w => rfl) fun w1 => .insert rfl (fun e => .failed) nofun fun w2 => ?_
      exact finishAgentType_outcome payload _ _ w2

/-! ## The row as a lock -/

/-- A row with the name is in. -/
def Registered (name : String) (w : World) : Prop := ∃ row ∈ w.pg.agentTypes, row.name = name

/-- A creation that has the row. Unless it has succeeded, the concepts are those from before. -/
inductive HasRow (payload : AgentTypeCreate) (concepts : List Concept) :
    Coro AgentTypeResponse → World → Prop
  | fresh {row : AgentTypeRow} {p : Coro AgentTypeResponse} {w : World}
    (hrow : row ∈ w.pg.agentTypes) (hname : row.name = payload.name)
    (hconcepts : (w.graphs payload.name).concepts = concepts) (hgo : ∀ r, p ≠ .done r)
    (hp : ∀ w, Outcome payload row w (p.next w).1 (p.next w).2) : HasRow payload concepts p w
  | undone {row : AgentTypeRow} {k} {w : World} (hrow : row ∈ w.pg.agentTypes)
    (hname : row.name = payload.name) (hconcepts : (w.graphs payload.name).concepts = concepts)
    (hk : ∀ r, ∃ e, k r = .done (.error e)) :
    HasRow payload concepts (.await (.execute (.deleteAgentType row.id)) k) w
  | created {response} {row : AgentTypeRow} {roots : List Concept} {w : World}
    (hstands : StandsFor payload concepts response row roots)
    (hcreated : Created payload.name concepts row roots w) :
    HasRow payload concepts (.done (.ok response)) w

/-- Nobody has the row: it was there before, its creation has failed for good, or nothing has
happened to the concepts. -/
def RowFree (name : String) (concepts : List Concept) (w : World) : Prop :=
  Registered name w ∨ (w.graphs name).concepts = concepts

theorem HasRow.idle (h : HasRow payload concepts p w) (hw : Idle w w') :
    HasRow payload concepts p w' := by
  cases h with
  | fresh hrow hname hconcepts hgo hp => exact .fresh (by rwa [hw]) hname (by rwa [hw]) hgo hp
  | undone hrow hname hconcepts hk => exact .undone (by rwa [hw]) hname (by rwa [hw]) hk
  | created hstands hcreated => exact .created hstands (hcreated.idle hw)

theorem HasRow.registered (h : HasRow payload concepts p w) : Registered payload.name w := by
  cases h with
  | fresh hrow hname hconcepts hgo hp => exact ⟨_, hrow, hname⟩
  | undone hrow hname hconcepts hk => exact ⟨_, hrow, hname⟩
  | created hstands hcreated =>
    obtain ⟨id, createdAt, rfl, -⟩ := hstands.row
    exact ⟨_, hcreated.row, rfl⟩

/-- What settling does to a creation that has no row: time passes. -/
theorem Rowless.settle (h : Rowless payload p) (w : World) :
    Rowless payload (p.settle w).1 ∧ Idle w (p.settle w).2 := by
  induction h generalizing w with
  | failed => exact ⟨.failed, refl_of Idle w⟩
  | @segment f k hidle hk ih =>
    obtain ⟨h, hsettle⟩ := ih w (f w)
    exact ⟨h, trans_of Idle (hidle w) hsettle⟩
  | select hk => exact ⟨.select hk, refl_of Idle w⟩
  | insert hname herr hgo hok => exact ⟨.insert hname herr hgo hok, refl_of Idle w⟩

/-- A step of a creation that has no row: time passes, or it inserts its row where there was
none. -/
theorem Rowless.next (h : Rowless payload p) (w : World) :
    (Rowless payload (p.next w).1 ∧ Idle w (p.next w).2) ∨
    (¬ Registered payload.name w ∧ ∃ row ∈ (p.next w).2.pg.agentTypes, row.name = payload.name ∧
      (p.next w).2.graphs = w.graphs ∧ (∀ r, (p.next w).1 ≠ .done r) ∧
      ∀ w', Outcome payload row w' ((p.next w).1.next w').1 ((p.next w).1.next w').2) := by
  cases h with
  | failed => exact .inl ⟨.failed, refl_of Idle w⟩
  | segment hidle hk => exact .inl ((Rowless.segment hidle hk).settle w)
  | @select k hk => exact .inl ⟨hk _, World.serve_idle rfl w⟩
  | @insert row k hname herr hgo hok =>
    have hnext : (Async.await (H := host) (.execute (.insertAgentType row)) k).next w =
      (k (World.serve (.execute (.insertAgentType row)) w).1,
        (World.serve (.execute (.insertAgentType row)) w).2) := rfl
    rw [hnext]
    rcases World.serve_insertAgentType row w with ⟨e, he⟩ | ⟨hnew, pg, he, hrows⟩ <;> rw [he]
    · exact .inl ⟨herr e, Ticks.tick w⟩
    · refine .inr ⟨fun h => ?_, row, by simp [hrows], hname, rfl, hgo, hok⟩
      obtain ⟨other, hother, hsame⟩ := h
      exact (hnew other hother).2 (hsame.trans hname.symm)

theorem creation_excludes (name : String) (concepts : List Concept) {ι : Type}
    {payloads : ι → AgentTypeCreate} (hname : ∀ i, (payloads i).name = name) :
    Exclusion (H := host) (RowFree name concepts) (fun i => Rowless (payloads i))
      (fun i => HasRow (payloads i) concepts) where
  enter {i p w} hp hfree := by
    rcases hp.next w with ⟨hp', hidle⟩ | ⟨hno, row, hrow, hrowname, hgraphs, hgo, hok⟩
    · refine .inl ⟨hp', ?_⟩
      rw [hidle]
      exact hfree
    · rw [hname i] at hno
      refine .inr (.fresh hrow hrowname ?_ hgo hok)
      rw [hgraphs, hname i]
      exact hfree.resolve_left hno
  frame {i j p p' w} hp hheld := by
    rcases hp.next w with ⟨hp', hidle⟩ | ⟨hno, -⟩
    · exact ⟨hp', hheld.idle hidle⟩
    · rw [hname j, ← hname i] at hno
      exact absurd hheld.registered hno
  leave {i p w} hheld := by
    cases hheld with
    | fresh hrow hrowname hconcepts hgo hp =>
      have hout := hp w
      rcases hx : p.next w with ⟨p', w'⟩
      rw [hx] at hout
      cases hout with
      | created hstands hpg hkeys hroots =>
        rw [hconcepts] at hstands hroots
        exact .inl (.created hstands ⟨hpg ▸ hrow, hkeys, hroots⟩)
      | stuck hpg => exact .inr ⟨.failed, .inl ⟨_, hpg ▸ hrow, hrowname.trans (hname i)⟩⟩
      | undone hpg hsame hk =>
        exact .inl (.undone (hpg ▸ hrow) hrowname (hsame.trans hconcepts) hk)
    | @undone row k _ hrow hrowname hconcepts hk =>
      obtain ⟨e, he⟩ := hk (World.serve (.execute (.deleteAgentType row.id)) w).1
      refine .inr ⟨?_, .inr ?_⟩
      · show Rowless (payloads i) (k (World.serve (.execute (.deleteAgentType row.id)) w).1)
        rw [he]
        exact .failed
      · show ((World.serve (.execute (.deleteAgentType row.id)) w).2.graphs name).concepts = _
        rw [World.serve_graphs, ← hname i]
        exact hconcepts
    | created hstands hcreated => exact .inl (.created hstands hcreated)

/-- Of a successful creation no other one alters anything. -/
theorem creation_stays (name : String) {concepts roots : List Concept} {row : AgentTypeRow}
    {ι : Type} {payloads : ι → AgentTypeCreate} (hname : ∀ i, (payloads i).name = name)
    (hrow : row.name = name) {response : AgentTypeResponse} {i : ι} :
    Exclusion (H := host) (fun _ => False) (fun i => Rowless (payloads i))
      (fun j p w => j = i ∧ p = .done (.ok response) ∧ Created name concepts row roots w) where
  enter _ h := h.elim
  frame {j k p p' w} hp hheld := by
    obtain ⟨rfl, rfl, hcreated⟩ := hheld
    rcases hp.next w with ⟨hp', hidle⟩ | ⟨hno, -⟩
    · exact ⟨hp', rfl, rfl, hcreated.idle hidle⟩
    · exact absurd ⟨row, hcreated.row, hrow.trans (hname k).symm⟩ hno
  leave {j p w} hheld := by
    obtain ⟨rfl, rfl, hcreated⟩ := hheld
    exact .inl ⟨rfl, rfl, hcreated⟩

/-- Of any number of interleaved creations with one name, at most one succeeds. What it has made is
then there, and no step of another creation removes or alters it. -/
theorem one_creation_succeeds {ι : Type} [DecidableEq ι] {name : String}
    {payloads : ι → AgentTypeCreate} (hname : ∀ i, (payloads i).name = name) {w : World}
    {sched : List ι} {i : ι} {response : AgentTypeResponse}
    (hi : (((Loop.start w fun i => createAgentType (payloads i)).run sched).tasks i).Ended
      (.ok response)) :
    ∃ row roots, StandsFor (payloads i) (w.graphs name).concepts response row roots ∧
      ∀ more, let c := (Loop.start w fun i => createAgentType (payloads i)).run (sched ++ more)
        (∀ j, (c.tasks j).Returned → j = i) ∧
        Created name (w.graphs name).concepts row roots c.store := by
  have hnot {j : ι} {response : AgentTypeResponse} :
      ¬ Rowless (payloads j) (.done (.ok response)) := by
    intro h
    cases h
  have hexcl := (creation_excludes name (w.graphs name).concepts hname).run
    (c := Loop.start w fun i => createAgentType (payloads i))
    (.inl ⟨.inr rfl, fun i => createAgentType_rowless (payloads i)⟩) sched
  rw [Task.Ended] at hi
  obtain ⟨hheld, hothers⟩ := hexcl.held (i := i) (by rw [hi]; exact hnot)
  rw [hi] at hheld
  generalize hw' : ((Loop.start w fun i => createAgentType (payloads i)).run sched).store = w'
    at hheld
  cases hheld with
  | fresh hrow hrowname hconcepts hgo hp => exact absurd rfl (hgo _)
  | @created _ row roots _ hstands hcreated =>
    rw [hname i] at hcreated
    have hrow : row.name = name := by
      obtain ⟨id, createdAt, rfl, -⟩ := hstands.row
      exact hname i
    refine ⟨row, roots, hstands, fun more => ?_⟩
    have hstays := (creation_stays name hname hrow).run
      (.inr ⟨i, ⟨rfl, hi, hw' ▸ hcreated⟩, hothers⟩) more
    dsimp only
    rw [Loop.run_append]
    obtain ⟨h, -⟩ | ⟨j, ⟨rfl, hj, hcreated'⟩, hothers'⟩ := hstays
    · exact h.elim
    · refine ⟨fun j' hj' => ?_, hcreated'⟩
      by_contra hne
      obtain ⟨response', hj'⟩ := hj'
      have hout := hothers' j' hne
      rw [Task.Ended] at hj'
      rw [hj'] at hout
      exact hnot hout

/-- Two creations that both have seen no row when the first inserts its own. -/
def Sample.rivals : Loop host Bool AgentTypeResponse :=
  Loop.start (World.initial Sample.env) fun _ => createAgentType Sample.shop

theorem one_creation_succeeds_of_two : ∃ response row roots,
    StandsFor Sample.shop [] response row roots ∧
    ∀ more, Created "shop" [] row roots
      (Sample.rivals.run ([true, false, true, false, true, false, true, true] ++ more)).store := by
  have hi : ((Sample.rivals.run [true, false, true, false, true, false, true, true]).tasks
    true).Ended (.ok _) := rfl
  obtain ⟨row, roots, hstands, hmore⟩ := one_creation_succeeds (fun _ => rfl) hi
  exact ⟨_, row, roots, hstands, fun more => (hmore more).2⟩

end AgentWorx
