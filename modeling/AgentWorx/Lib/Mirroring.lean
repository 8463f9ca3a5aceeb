import AgentWorx.Lib.EventLoop

/-!
# Coroutines seen through a view

A view forgets a part of the shared state. Code *mirrors* through it if on the viewed state it does
what it does on the state itself: it returns the same, and leaves the view of what it leaves there.
Such code neither reads nor changes what the view forgets. Mirroring is closed under everything a
call or a coroutine is built from.

If some tasks of a loop mirror, and the steps of the others look, through the view, like moves from
a given set, then a loop over the viewed state in which only the former take steps, with moves in
between, keeps up with the whole loop (`Loop.shadow_run`).
-/

namespace Coop

/-! ## Synchronous calls -/

namespace Sync

variable {σ ε α β : Type}

/-- From every state that satisfies `ok`, `m` does the same through the view, and `ok` still holds
afterwards; every value it returns satisfies `Q`. -/
def Mirrors (v : σ → σ) (ok : σ → Prop) (Q : α → Prop) (m : Sync σ ε α) : Prop :=
  ∀ s, ok s → m.exec (v s) = ((m.exec s).1, v (m.exec s).2) ∧ ok (m.exec s).2 ∧
    ∀ a, (m.exec s).1 = .ok a → Q a

namespace Mirrors

variable {v : σ → σ} {ok : σ → Prop} {Q : α → Prop}

theorem pure {a : α} (h : Q a) : Mirrors v ok Q (pure a : Sync σ ε α) := by
  intro s hs
  refine ⟨rfl, hs, fun b hb => ?_⟩
  cases hb
  exact h

theorem throw (e : ε) : Mirrors v ok Q (throw e : Sync σ ε α) :=
  fun _ hs => ⟨rfl, hs, fun _ hb => by cases hb⟩

theorem bind {P : α → Prop} {Q : β → Prop} {m : Sync σ ε α} {f : α → Sync σ ε β}
    (hm : Mirrors v ok P m) (hf : ∀ a, P a → Mirrors v ok Q (f a)) : Mirrors v ok Q (m >>= f) := by
  intro s hs
  obtain ⟨hview, hok, hP⟩ := hm s hs
  rw [exec_bind, exec_bind, hview]
  rcases hx : exec m s with ⟨e | a, s'⟩ <;> rw [hx] at hok hP
  · exact ⟨rfl, hok, fun _ hb => by cases hb⟩
  · exact hf a (hP a rfl) s' hok

/-- The value of the first call does not matter. -/
theorem andThen {Q : β → Prop} {m : Sync σ ε α} {f : α → Sync σ ε β}
    (hm : Mirrors v ok (fun _ => True) m) (hf : ∀ a, Mirrors v ok Q (f a)) :
    Mirrors v ok Q (m >>= f) := hm.bind fun a _ => hf a

theorem tryCatch {m : Sync σ ε α} {h : ε → Sync σ ε α} (hm : Mirrors v ok Q m)
    (hh : ∀ e, Mirrors v ok Q (h e)) : Mirrors v ok Q (tryCatch m h) := by
  intro s hs
  obtain ⟨hview, hok, hQ⟩ := hm s hs
  rw [exec_tryCatch, exec_tryCatch, hview]
  rcases hx : exec m s with ⟨e | a, s'⟩ <;> rw [hx] at hok hQ
  · exact hh e s' hok
  · exact ⟨rfl, hok, hQ⟩

theorem map {P : α → Prop} {Q : β → Prop} {m : Sync σ ε α} {f : α → β} (hm : Mirrors v ok P m)
    (hf : ∀ a, P a → Q (f a)) : Mirrors v ok Q (f <$> m) := by
  intro s hs
  obtain ⟨hview, hok, hP⟩ := hm s hs
  rw [exec_map, exec_map, hview]
  refine ⟨rfl, hok, fun b hb => ?_⟩
  rcases hx : exec m s with ⟨e | a, s'⟩ <;> rw [hx] at hP hb
  · cases hb
  · cases hb
    exact hf a (hP a rfl)

/-- Code that reads nothing of the state but what the view shows. -/
theorem get {f : σ → Sync σ ε α} (hf : ∀ s, ok s → f (v s) = f s)
    (h : ∀ s, ok s → Mirrors v ok Q (f s)) : Mirrors v ok Q (get >>= f) := by
  intro s hs
  rw [exec_get_bind, exec_get_bind, hf s hs]
  exact h s hs s hs

theorem modify {g : σ → σ} (hg : ∀ s, ok s → g (v s) = v (g s)) (hok : ∀ s, ok s → ok (g s)) :
    Mirrors v ok (fun _ => True) (modify g : Sync σ ε PUnit) := by
  intro s hs
  rw [exec_modify, exec_modify, hg s hs]
  exact ⟨rfl, hok s hs, fun _ _ => trivial⟩

theorem forM {f : α → Sync σ ε PUnit} {xs : List α}
    (hf : ∀ a ∈ xs, Mirrors v ok (fun _ => True) (f a)) :
    Mirrors v ok (fun _ => True) (xs.forM f) := by
  induction xs with
  | nil => exact pure trivial
  | cons x xs ih =>
    exact andThen (hf x List.mem_cons_self) fun _ => ih fun a ha => hf a (List.mem_cons_of_mem x ha)

theorem mono {Q' : α → Prop} {m : Sync σ ε α} (h : Mirrors v ok Q m) (hQ : ∀ a, Q a → Q' a) :
    Mirrors v ok Q' m := fun s hs =>
  let ⟨hview, hok, hQ'⟩ := h s hs
  ⟨hview, hok, fun a ha => hQ a (hQ' a ha)⟩

/-- The condition may be split into cases that the code keeps apart. -/
theorem split {ok₁ ok₂ : σ → Prop} {m : Sync σ ε α} (hcases : ∀ s, ok s → ok₁ s ∨ ok₂ s)
    (h₁ : Mirrors v ok₁ Q m) (h₂ : Mirrors v ok₂ Q m) (hok₁ : ∀ s, ok₁ s → ok s)
    (hok₂ : ∀ s, ok₂ s → ok s) : Mirrors v ok Q m := by
  intro s hs
  rcases hcases s hs with hs₁ | hs₂
  · obtain ⟨hview, hok, hQ⟩ := h₁ s hs₁
    exact ⟨hview, hok₁ _ hok, hQ⟩
  · obtain ⟨hview, hok, hQ⟩ := h₂ s hs₂
    exact ⟨hview, hok₂ _ hok, hQ⟩

end Mirrors

end Sync

/-! ## Coroutines -/

namespace Async

variable {H : Host} {α β : Type}

/-- Every segment of the coroutine mirrors where it starts in a state that satisfies `ok`, and every
statement it awaits is answered alike where it is `safe`; every value it returns satisfies `Q`. -/
def Mirrors (v : H.State → H.State) (ok : H.State → Prop) (safe : H.Stmt → H.State → Prop)
    (Q : α → Prop) : Async H α → Prop
  | .done r => ∀ a, r = .ok a → Q a
  | .sync f k => ∀ s, ok s → f (v s) = v (f s) ∧ ok (f s) ∧ k (v s) = k s ∧
    (k s).Mirrors v ok safe Q
  | .await q k => ∀ s, ok s → safe q s →
    H.serve q (v s) = ((H.serve q s).1, v (H.serve q s).2) ∧
      (k (H.serve q s).1).Mirrors v ok safe Q

namespace Mirrors

variable {v : H.State → H.State} {ok : H.State → Prop} {safe : H.Stmt → H.State → Prop}
  {Q : α → Prop}

theorem pure {a : α} (h : Q a) : Mirrors v ok safe Q (pure a : Async H α) := by
  intro b hb
  cases hb
  exact h

theorem throw (e : H.Err) : Mirrors v ok safe Q (throw e : Async H α) :=
  fun _ hb => by cases hb

theorem lift {m : Sync H.State H.Err α} (h : Sync.Mirrors v ok Q m) :
    Mirrors v ok safe Q (lift m) := by
  intro s hs
  obtain ⟨hview, hok, hQ⟩ := h s hs
  exact ⟨congrArg Prod.snd hview, hok, congrArg (fun r => done r.1) hview, hQ⟩

theorem call {q : H.Stmt} {Q : H.Resp q → Prop}
    (h : ∀ s, ok s → safe q s → H.serve q (v s) = ((H.serve q s).1, v (H.serve q s).2))
    (hQ : ∀ s a, (H.serve q s).1 = .ok a → Q a) : Mirrors v ok safe Q (call q) :=
  fun s hs hsafe => ⟨h s hs hsafe, hQ s⟩

theorem bind {P : α → Prop} {Q : β → Prop} {p : Async H α} {g : α → Async H β}
    (hp : Mirrors v ok safe P p) (hg : ∀ a, P a → Mirrors v ok safe Q (g a)) :
    Mirrors v ok safe Q (p >>= g) := by
  show (p.bind g).Mirrors v ok safe Q
  induction p with
  | done r =>
    cases r with
    | error e => exact throw e
    | ok a => exact hg a (hp a rfl)
  | sync f k ih =>
    intro s hs
    obtain ⟨hf, hok, hk, hrest⟩ := hp s hs
    exact ⟨hf, hok, congrArg (Async.bind · g) hk, ih s hrest⟩
  | await q k ih =>
    intro s hs hsafe
    obtain ⟨hserve, hrest⟩ := hp s hs hsafe
    exact ⟨hserve, ih _ hrest⟩

/-- The value of the first part does not matter. -/
theorem andThen {Q : β → Prop} {p : Async H α} {g : α → Async H β}
    (hp : Mirrors v ok safe (fun _ => True) p) (hg : ∀ a, Mirrors v ok safe Q (g a)) :
    Mirrors v ok safe Q (p >>= g) := hp.bind fun a _ => hg a

theorem tryCatch {p : Async H α} {h : H.Err → Async H α} (hp : Mirrors v ok safe Q p)
    (hh : ∀ e, Mirrors v ok safe Q (h e)) :
    Mirrors v ok safe Q (MonadExcept.tryCatch p h) := by
  show (Async.tryCatch p h).Mirrors v ok safe Q
  induction p with
  | done r =>
    cases r with
    | error e => exact hh e
    | ok a => exact hp
  | sync f k ih =>
    intro s hs
    obtain ⟨hf, hok, hk, hrest⟩ := hp s hs
    exact ⟨hf, hok, congrArg (Async.tryCatch · h) hk, ih s hrest⟩
  | await q k ih =>
    intro s hs hsafe
    obtain ⟨hserve, hrest⟩ := hp s hs hsafe
    exact ⟨hserve, ih _ hrest⟩

/-- Nothing is forgotten. -/
theorem self (p : Async H α) : Mirrors id (fun _ => True) (fun _ _ => True) (fun _ => True) p := by
  induction p with
  | done r => exact fun _ _ => trivial
  | sync f k ih => exact fun s _ => ⟨rfl, trivial, rfl, ih s⟩
  | await q k ih => exact fun s _ _ => ⟨rfl, ih _⟩

theorem settle {p : Async H α} (h : Mirrors v ok safe Q p) {s : H.State} (hs : ok s) :
    p.settle (v s) = ((p.settle s).1, v (p.settle s).2) ∧
      (p.settle s).1.Mirrors v ok safe Q := by
  induction p generalizing s with
  | done r => exact ⟨rfl, h⟩
  | await q k ih => exact ⟨rfl, h⟩
  | sync f k ih =>
    obtain ⟨hf, hok, hk, hrest⟩ := h s hs
    rw [settle_sync, settle_sync, hf, hk]
    exact ih s hrest hok

end Mirrors

end Async

/-! ## Loops -/

namespace Loop

variable {H : Host} {ι μ α : Type} [DecidableEq ι]

/-- A loop takes a step of a task, or its state moves. -/
def act (move : μ → H.State → H.State) (c : Loop H ι α) : ι ⊕ μ → Loop H ι α
  | .inl i => c.step i
  | .inr x => { c with store := move x c.store }

def runActs (move : μ → H.State → H.State) (c : Loop H ι α) (acts : List (ι ⊕ μ)) :
    Loop H ι α := acts.foldl (act move) c

/-- The loop `d` is what the tasks of `c` in `mine` see of `c` through the view. -/
structure Shadow (v : H.State → H.State) (mine : ι → Prop) (c d : Loop H ι α) : Prop where
  store : d.store = v c.store
  tasks : ∀ i, mine i → d.tasks i = c.tasks i

variable {v : H.State → H.State} {mine : ι → Prop} {ok : ι → H.State → Prop}
  {safe : H.Stmt → H.State → Prop} {move : μ → H.State → H.State} {c d : Loop H ι α} {i : ι}

/-- What is left of the tasks in `mine` mirrors. -/
def Mirroring (v : H.State → H.State) (mine : ι → Prop) (ok : ι → H.State → Prop)
    (safe : H.Stmt → H.State → Prop) (c : Loop H ι α) : Prop :=
  ∀ i, mine i → (c.tasks i).prog.Mirrors v (ok i) safe fun _ => True

/-- The stores and the task that takes the step decide the shadow of a step. -/
theorem Shadow.of_own (h : Shadow v mine c d) (hstore : (d.step i).store = v (c.step i).store)
    (htask : (d.step i).tasks i = (c.step i).tasks i) : Shadow v mine (c.step i) (d.step i) := by
  refine ⟨hstore, fun j hj => ?_⟩
  by_cases hij : j = i
  · subst hij
    exact htask
  · rw [step_tasks_ne c hij, step_tasks_ne d hij]
    exact h.tasks j hj

theorem Mirroring.of_own (h : Mirroring v mine ok safe c)
    (htask : ((c.step i).tasks i).prog.Mirrors v (ok i) safe fun _ => True) :
    Mirroring v mine ok safe (c.step i) := by
  intro j hj
  by_cases hij : j = i
  · subst hij
    exact htask
  · rw [step_tasks_ne c hij]
    exact h j hj

/-- A step of a task that mirrors is the same step in the shadow. -/
theorem Shadow.step (h : Shadow v mine c d) (hm : Mirroring v mine ok safe c) (hi : mine i)
    (hok : ok i c.store) (hsafe : ∀ q, (c.tasks i).awaited = some q → safe q c.store) :
    Shadow v mine (c.step i) (d.step i) ∧ Mirroring v mine ok safe (c.step i) := by
  have hown := hm i hi
  have htask := h.tasks i hi
  cases hprog : (c.tasks i).prog with
  | done r =>
    have hc : c.step i = c := by simp [Loop.step, hprog]
    have hd : d.step i = d := by simp [Loop.step, htask, hprog]
    rw [hc, hd]
    exact ⟨h, hm⟩
  | sync f k =>
    rw [hprog] at hown
    obtain ⟨hsettle, hrest⟩ := hown.settle hok
    rw [← h.store] at hsettle
    refine ⟨h.of_own ?_ ?_, hm.of_own ?_⟩
    · simp only [Loop.step, htask, hprog, hsettle]
    · simp only [Loop.step, htask, hprog, hsettle, Function.update_self]
    · simpa only [Loop.step, hprog, Function.update_self] using hrest
  | await q k =>
    rw [hprog] at hown
    obtain ⟨hserve, hrest⟩ := hown c.store hok (hsafe q (Task.awaited_eq_some.mpr ⟨k, hprog⟩))
    rw [← h.store] at hserve
    refine ⟨h.of_own ?_ ?_, hm.of_own ?_⟩
    · simp only [Loop.step, htask, hprog, hserve]
    · simp only [Loop.step, htask, hprog, hserve, Function.update_self]
    · simpa only [Loop.step, hprog, Function.update_self] using hrest

/-- A step of another task that looks like a move is that move in the shadow. -/
theorem Shadow.stay (h : Shadow v mine c d) (hm : Mirroring v mine ok safe c) (hi : ¬ mine i)
    {x : μ} (hx : v (c.step i).store = move x (v c.store)) :
    Shadow v mine (c.step i) (d.act move (.inr x)) ∧ Mirroring v mine ok safe (c.step i) := by
  have hne {j : ι} (hj : mine j) : j ≠ i := by
    rintro rfl
    exact hi hj
  refine ⟨⟨?_, fun j hj => ?_⟩, fun j hj => ?_⟩
  · rw [hx, ← h.store]
    rfl
  · rw [step_tasks_ne c (hne hj)]
    exact h.tasks j hj
  · rw [step_tasks_ne c (hne hj)]
    exact hm j hj

/-- What each step of the run has to meet: a task in `mine` mirrors there, and the step of another
looks like a move. -/
def Shadowed (v : H.State → H.State) (mine : ι → Prop) (ok : ι → H.State → Prop)
    (safe : H.Stmt → H.State → Prop) (move : μ → H.State → H.State) (c : Loop H ι α) (i : ι) :
    Prop :=
  (mine i → ok i c.store ∧ ∀ q, (c.tasks i).awaited = some q → safe q c.store) ∧
    (¬ mine i → ∃ x, v (c.step i).store = move x (v c.store))

/-- The shadow keeps up with the run: it takes the steps of the tasks in `mine`, in the same order,
with moves in between. -/
theorem shadow_run [DecidablePred mine] (h : Shadow v mine c d) (hm : Mirroring v mine ok safe c)
    {sched : List ι} (hsched : c.Meets (Shadowed v mine ok safe move) sched) :
    ∃ acts : List (ι ⊕ μ), acts.filterMap Sum.getLeft? = sched.filter mine ∧
      Shadow v mine (c.run sched) (d.runActs move acts) := by
  induction sched generalizing c d with
  | nil => exact ⟨[], rfl, h⟩
  | cons i sched ih =>
    obtain ⟨⟨hmine, hother⟩, hrest⟩ := hsched
    by_cases hi : mine i
    · obtain ⟨hstep, hm'⟩ := h.step hm hi (hmine hi).1 (hmine hi).2
      obtain ⟨acts, horder, hrun⟩ := ih hstep hm' hrest
      exact ⟨.inl i :: acts, by simp [horder, hi], hrun⟩
    · obtain ⟨x, hx⟩ := hother hi
      obtain ⟨hmove, hm'⟩ := h.stay hm hi hx
      obtain ⟨acts, horder, hrun⟩ := ih hmove hm' hrest
      refine ⟨.inr x :: acts, ?_, hrun⟩
      rw [List.filterMap_cons_none (by rfl), horder]
      simp [hi]

end Loop

end Coop
