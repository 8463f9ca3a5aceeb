import AgentWorx.Lib.EventLoop

/-!
# What a coroutine can ask for

`Async.Issues I Q p` is the judgement that every statement the coroutine `p` can await satisfies `I`
and every value it can return satisfies `Q`, whatever is answered and whatever the states in between
are. It says nothing about states, so it holds of a coroutine among any others.
-/

namespace Coop

variable {H : Host} {ι α β : Type}

namespace Async

def Issues (I : H.Stmt → Prop) (Q : α → Prop) : Async H α → Prop
  | .done (.ok a) => Q a
  | .done (.error _) => True
  | .sync _ k => ∀ s, Issues I Q (k s)
  | .await q k => I q ∧ ∀ r, Issues I Q (k r)

namespace Issues

variable {I : H.Stmt → Prop} {P : α → Prop}

theorem pure {a : α} (h : P a) : Issues I P (pure a : Async H α) := h

theorem throw (e : H.Err) : Issues I P (throw e : Async H α) := trivial

theorem lift {m : Sync H.State H.Err α} (h : Sync.Yields P m) :
    Issues I P (Async.lift m : Async H α) := by
  intro s
  show Issues I P (done (m.exec s).1)
  rcases hr : (m.exec s).1 with e | a
  · exact trivial
  · exact h s a hr

theorem call {q : H.Stmt} (h : I q) : Issues I (fun _ => True) (Async.call q : Async H _) := by
  refine ⟨h, fun r => ?_⟩
  cases r <;> exact trivial

theorem bind {Q : β → Prop} {p : Async H α} {g : α → Async H β} (hp : Issues I P p)
    (hg : ∀ a, P a → Issues I Q (g a)) : Issues I Q (p >>= g) := by
  show Issues I Q (p.bind g)
  induction p with
  | done r =>
    cases r with
    | ok a => exact hg a hp
    | error e => exact trivial
  | sync f k ih => exact fun s => ih s (hp s)
  | await q k ih => exact ⟨hp.1, fun r => ih r (hp.2 r)⟩

theorem tryCatch {p : Async H α} {g : H.Err → Async H α} (hp : Issues I P p)
    (hg : ∀ e, Issues I P (g e)) : Issues I P (MonadExcept.tryCatch p g) := by
  show Issues I P (p.tryCatch g)
  induction p with
  | done r =>
    cases r with
    | ok a => exact hp
    | error e => exact hg e
  | sync f k ih => exact fun s => ih s (hp s)
  | await q k ih => exact ⟨hp.1, fun r => ih r (hp.2 r)⟩

/-- What is left after some segments can ask for no more. -/
theorem settle {p : Async H α} (h : Issues I P p) (s : H.State) : Issues I P (p.settle s).1 := by
  induction p generalizing s with
  | done r => exact h
  | sync f k ih => exact ih s (h s) (f s)
  | await q k ih => exact h

end Issues

end Async

namespace Loop

variable {I : ι → H.Stmt → Prop} {Q : ι → α → Prop} {c : Loop H ι α}

/-- What is left of every task asks only for what its call may ask for. -/
def Issues (I : ι → H.Stmt → Prop) (Q : ι → α → Prop) (c : Loop H ι α) : Prop :=
  ∀ i, (c.tasks i).prog.Issues (I i) (Q i)

theorem issues_start {s : H.State} {progs : ι → Async H α} (h : ∀ i, (progs i).Issues (I i) (Q i)) :
    Issues I Q (start s progs) := h

theorem Issues.awaited (h : Issues I Q c) {i : ι} {q : H.Stmt} (hq : (c.tasks i).awaited = some q) :
    I i q := by
  obtain ⟨k, hk⟩ := Task.awaited_eq_some.mp hq
  have hi := h i
  rw [hk] at hi
  exact hi.1

theorem Issues.step [DecidableEq ι] (h : Issues I Q c) (i : ι) : Issues I Q (c.step i) := by
  intro j
  by_cases hij : j = i
  · subst hij
    have hj := h j
    rcases step_cases c j with hs | ⟨f, k, hp, hs⟩ | ⟨q, k, hp, hs⟩
    · rw [hs]
      exact hj
    · rw [hp] at hj
      simpa [hs] using hj.settle c.store
    · rw [hp] at hj
      simpa [hs] using hj.2 (H.serve q c.store).1
  · rw [step_tasks_ne c hij]
    exact h j

end Loop

end Coop
