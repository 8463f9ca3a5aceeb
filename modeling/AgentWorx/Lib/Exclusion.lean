import AgentWorx.Lib.EventLoop

/-!
# Mutual exclusion

Coroutines that compete for something only one of them can have: a lock, a key of a table, a lease.
Who has it is not recorded anywhere; it is read off what a coroutine still has to run (`Held`),
together with a condition on the state that nobody else can falsify. `Exclusion` lists what has to
be shown of one step of one coroutine, and `Exclusion.run` is what follows for every interleaving.
-/

namespace Coop

variable {H : Host} {ι α : Type}

namespace Async

/-- One step of a coroutine: to the next awaited statement, or past the one that is awaited. -/
def next : Async H α → H.State → Async H α × H.State
  | .done r, s => (.done r, s)
  | .sync f k, s => (Async.sync f k).settle s
  | .await q k, s => (k (H.serve q s).1, (H.serve q s).2)

@[simp] theorem next_done (r : Except H.Err α) (s : H.State) :
    (done r : Async H α).next s = (done r, s) := rfl

@[simp] theorem next_sync (f : H.State → H.State) (k : H.State → Async H α) (s : H.State) :
    (sync f k).next s = (k s).settle (f s) := rfl

@[simp] theorem next_await (q : H.Stmt) (k : Except H.Err (H.Resp q) → Async H α) (s : H.State) :
    (await q k).next s = (k (H.serve q s).1, (H.serve q s).2) := rfl

end Async

/-- What the steps of competing coroutines do. `Free s`: nobody has it. `Out i p`: coroutine `i`,
with `p` left to run, does not have it. `Held i p s`: it does. -/
structure Exclusion (Free : H.State → Prop) (Out : ι → Async H α → Prop)
    (Held : ι → Async H α → H.State → Prop) : Prop where
  enter : ∀ {i p s}, Out i p → Free s →
    Out i (p.next s).1 ∧ Free (p.next s).2 ∨ Held i (p.next s).1 (p.next s).2
  frame : ∀ {i j p p' s}, Out j p → Held i p' s →
    Out j (p.next s).1 ∧ Held i p' (p.next s).2
  leave : ∀ {i p s}, Held i p s →
    Held i (p.next s).1 (p.next s).2 ∨ Out i (p.next s).1 ∧ Free (p.next s).2

namespace Loop

variable {Free : H.State → Prop} {Out : ι → Async H α → Prop}
  {Held : ι → Async H α → H.State → Prop} {c : Loop H ι α} {i : ι}

/-- Nobody has it, or exactly one task does. -/
def Exclusive (Free : H.State → Prop) (Out : ι → Async H α → Prop)
    (Held : ι → Async H α → H.State → Prop) (c : Loop H ι α) : Prop :=
  (Free c.store ∧ ∀ i, Out i (c.tasks i).prog) ∨
  ∃ i, Held i (c.tasks i).prog c.store ∧ ∀ j, j ≠ i → Out j (c.tasks j).prog

/-- A task that is not without it has it. -/
theorem Exclusive.held (h : Exclusive Free Out Held c) (hi : ¬ Out i (c.tasks i).prog) :
    Held i (c.tasks i).prog c.store ∧ ∀ j, j ≠ i → Out j (c.tasks j).prog := by
  rcases h with ⟨-, hout⟩ | ⟨k, hheld, hout⟩
  · exact absurd (hout i) hi
  · obtain rfl : i = k := Classical.byContradiction fun hik => hi (hout i hik)
    exact ⟨hheld, hout⟩

variable [DecidableEq ι]

/-- A step of the loop is a step of one coroutine. -/
theorem step_next (c : Loop H ι α) (i : ι) :
    ((c.step i).tasks i).prog = ((c.tasks i).prog.next c.store).1 ∧
      (c.step i).store = ((c.tasks i).prog.next c.store).2 := by
  cases hp : (c.tasks i).prog with
  | done r => simp [step, hp]
  | sync f k => simp [step, hp]
  | await q k => simp [step, hp]

/-- After a step of `i` that leaves `i` without it, `j` is as it was unless it is `i`. -/
theorem step_out {i j : ι} (hi : Out i ((c.tasks i).prog.next c.store).1)
    (hj : j ≠ i → Out j (c.tasks j).prog) : Out j ((c.step i).tasks j).prog := by
  by_cases hij : j = i
  · subst hij
    rwa [(step_next c j).1]
  · rw [step_tasks_ne c hij]
    exact hj hij

end Loop

namespace Exclusion

variable {Free : H.State → Prop} {Out : ι → Async H α → Prop}
  {Held : ι → Async H α → H.State → Prop} {c : Loop H ι α} [DecidableEq ι]

open Loop

theorem step (hex : Exclusion Free Out Held) (h : Exclusive Free Out Held c) (i : ι) :
    Exclusive Free Out Held (c.step i) := by
  obtain ⟨hprog, hstore⟩ := step_next c i
  rcases h with ⟨hfree, hout⟩ | ⟨k, hheld, hout⟩
  · rcases hex.enter (hout i) hfree with ⟨hi, hfree'⟩ | hheld
    · exact .inl ⟨hstore ▸ hfree', fun j => step_out hi fun _ => hout j⟩
    · refine .inr ⟨i, ?_, fun j hj => ?_⟩
      · rwa [hprog, hstore]
      · rw [step_tasks_ne c hj]
        exact hout j
  · by_cases hik : i = k
    · subst hik
      rcases hex.leave hheld with hheld' | ⟨hi, hfree⟩
      · refine .inr ⟨i, ?_, fun j hj => ?_⟩
        · rwa [hprog, hstore]
        · rw [step_tasks_ne c hj]
          exact hout j hj
      · exact .inl ⟨hstore ▸ hfree, fun j => step_out hi (hout j)⟩
    · -- a step of another task, which the holder does not notice
      obtain ⟨hi, hheld'⟩ := hex.frame (hout i hik) hheld
      refine .inr ⟨k, ?_, fun j hj => step_out hi fun _ => hout j hj⟩
      rwa [step_tasks_ne c (Ne.symm hik), hstore]

/-- In every interleaving at most one task has it. -/
theorem run (hex : Exclusion Free Out Held) (h : Exclusive Free Out Held c) (sched : List ι) :
    Exclusive Free Out Held (c.run sched) :=
  Loop.run_invariant (I := Exclusive Free Out Held) (fun _ i hc => hex.step hc i) h sched

end Exclusion

end Coop
