import AgentWorx.Lib.Async
import Mathlib.Logic.Function.Basic

/-!
# Interleaving coroutines on one event loop

A loop holds the shared state and one task for each call. `Loop.step c i` lets task `i` take its
next step: a task in a segment runs it up to the next awaited statement, a task that awaits has its
statement served. The answer is only taken up by the task's next step, so other tasks may run
between a statement and the code that follows it. A schedule is a list of tasks; every interleaving
at the `await` points is a schedule.

A property that holds only of runs in which no step takes a certain turn is stated with
`Loop.Meets Cond`: `Cond` is a condition on the loop before a step and the task that takes it.
-/

namespace Coop

variable {H : Host} {ι α : Type}

/-- A call in progress: what is left of it, and the last statement it awaited. -/
structure Task (H : Host) (α : Type) where
  prog : Async H α
  last : Option (Event H)

/-- The shared state, the tasks, and the statements served so far, oldest first. -/
structure Loop (H : Host) (ι α : Type) where
  store : H.State
  tasks : ι → Task H α
  trace : List (ι × Event H)

namespace Task

/-- The task has ended with outcome `r`. -/
def Ended (t : Task H α) (r : Except H.Err α) : Prop := t.prog = .done r

/-- The task has returned a value. -/
def Returned (t : Task H α) : Prop := ∃ a, t.Ended (.ok a)

/-- The next step of the task is a segment. -/
def inSegment (t : Task H α) : Bool :=
  match t.prog with
  | .sync _ _ => true
  | _ => false

/-- The statement the task awaits. -/
def awaited (t : Task H α) : Option H.Stmt :=
  match t.prog with
  | .await q _ => some q
  | _ => none

theorem awaited_eq_some {t : Task H α} {q : H.Stmt} :
    t.awaited = some q ↔ ∃ k, t.prog = .await q k := by
  unfold awaited
  cases h : t.prog with
  | await q' k =>
    constructor
    · rintro ⟨⟩
      exact ⟨k, rfl⟩
    · rintro ⟨k', ⟨⟩⟩
      rfl
  | _ => simp

instance (t : Task H α) : Decidable t.Returned :=
  match h : t.prog with
  | .done (.ok a) => isTrue ⟨a, h⟩
  | .done (.error e) => isFalse fun ⟨a, ha⟩ => by simp [Ended, h] at ha
  | .sync f k => isFalse fun ⟨a, ha⟩ => by simp [Ended, h] at ha
  | .await q k => isFalse fun ⟨a, ha⟩ => by simp [Ended, h] at ha

end Task

namespace Loop

/-- All calls have been made and none has taken a step. -/
def start (s : H.State) (progs : ι → Async H α) : Loop H ι α where
  store := s
  tasks i := ⟨progs i, none⟩
  trace := []

variable [DecidableEq ι]

def step (c : Loop H ι α) (i : ι) : Loop H ι α :=
  match (c.tasks i).prog with
  | .done _ => c
  | .sync f k =>
    { c with
      store := ((Async.sync f k).settle c.store).2
      tasks := Function.update c.tasks i
        ⟨((Async.sync f k).settle c.store).1, (c.tasks i).last⟩ }
  | .await q k =>
    { store := (H.serve q c.store).2
      tasks := Function.update c.tasks i
        ⟨k (H.serve q c.store).1, some ⟨q, (H.serve q c.store).1⟩⟩
      trace := c.trace ++ [(i, ⟨q, (H.serve q c.store).1⟩)] }

def run (c : Loop H ι α) (sched : List ι) : Loop H ι α := sched.foldl step c

@[simp] theorem run_nil (c : Loop H ι α) : c.run [] = c := rfl

@[simp] theorem run_cons (c : Loop H ι α) (i : ι) (sched : List ι) :
    c.run (i :: sched) = (c.step i).run sched := rfl

theorem run_append (c : Loop H ι α) (pre post : List ι) :
    c.run (pre ++ post) = (c.run pre).run post := List.foldl_append ..

/-! ## Conditions on the steps of a run -/

/-- Every step of the run from `c` along the schedule meets the condition. -/
def Meets (Cond : Loop H ι α → ι → Prop) : Loop H ι α → List ι → Prop
  | _, [] => True
  | c, i :: sched => Cond c i ∧ Meets Cond (c.step i) sched

instance instDecidableMeets {Cond : Loop H ι α → ι → Prop} [∀ c i, Decidable (Cond c i)] :
    ∀ (c : Loop H ι α) (sched : List ι), Decidable (Meets Cond c sched)
  | _, [] => isTrue trivial
  | c, i :: sched =>
    have : Decidable (Meets Cond (c.step i) sched) := instDecidableMeets _ sched
    inferInstanceAs (Decidable (Cond c i ∧ Meets Cond (c.step i) sched))

variable {Cond : Loop H ι α → ι → Prop} {c : Loop H ι α}

theorem Meets.of_forall (h : ∀ c i, Cond c i) : ∀ (c : Loop H ι α) (sched : List ι),
    Meets Cond c sched
  | _, [] => trivial
  | c, i :: sched => ⟨h c i, of_forall h (c.step i) sched⟩

theorem meets_append {pre post : List ι} :
    Meets Cond c (pre ++ post) ↔ Meets Cond c pre ∧ Meets Cond (c.run pre) post := by
  induction pre generalizing c with
  | nil => simp [Meets]
  | cons i pre ih => simp [Meets, ih, and_assoc]

theorem Meets.and {Cond' : Loop H ι α → ι → Prop} {sched : List ι} (h : Meets Cond c sched)
    (h' : Meets Cond' c sched) : Meets (fun c i => Cond c i ∧ Cond' c i) c sched := by
  induction sched generalizing c with
  | nil => trivial
  | cons i sched ih => exact ⟨⟨h.1, h'.1⟩, ih h.2 h'.2⟩

/-- What the steps of each task of a kind meet is met by those of all of them. -/
theorem meets_of_each {P : ι → Prop} {sched : List ι}
    (h : ∀ i, P i → Meets (fun c j => j = i → Cond c j) c sched) :
    Meets (fun c j => P j → Cond c j) c sched := by
  induction sched generalizing c with
  | nil => trivial
  | cons i sched ih => exact ⟨fun hi => (h i hi).1 rfl, ih fun j hj => (h j hj).2⟩

/-- A run all of whose steps meet the condition keeps what every such step keeps. -/
theorem Meets.invariant {I : Loop H ι α → Prop} (hstep : ∀ c i, I c → Cond c i → I (c.step i))
    {sched : List ι} (h : Meets Cond c sched) (hc : I c) : I (c.run sched) := by
  induction sched generalizing c with
  | nil => exact hc
  | cons i sched ih => exact ih h.2 (hstep c i hc h.1)

/-- What every step keeps holds after every run. -/
theorem run_invariant {I : Loop H ι α → Prop} (hstep : ∀ c i, I c → I (c.step i))
    (hc : I c) (sched : List ι) : I (c.run sched) := by
  have h : Meets (fun _ _ => True) c sched := .of_forall (fun _ _ => trivial) c sched
  exact h.invariant (fun c i hc _ => hstep c i hc) hc

/-- An invariant that every step keeps exactly when it meets the condition holds throughout a run
exactly when every step of the run meets it. -/
theorem meets_iff_throughout {I J : Loop H ι α → Prop} (hJ : ∀ c i, J c → J (c.step i))
    (hstep : ∀ c i, J c → I c → (I (c.step i) ↔ Cond c i)) {sched : List ι} (hc : J c)
    (hI : I c) : (∀ pre, pre <+: sched → I (c.run pre)) ↔ Meets Cond c sched := by
  induction sched generalizing c with
  | nil =>
    refine iff_of_true (fun pre hpre => ?_) trivial
    rw [List.prefix_nil.mp hpre]
    exact hI
  | cons i sched ih =>
    constructor
    · intro h
      have hnext : I (c.step i) := h [i] ⟨sched, rfl⟩
      refine ⟨(hstep c i hc hI).mp hnext, (ih (hJ c i hc) hnext).mp fun pre hpre => ?_⟩
      exact h (i :: pre) (List.cons_prefix_cons.mpr ⟨rfl, hpre⟩)
    · rintro ⟨hcond, hmeets⟩ pre hpre
      have hnext := (hstep c i hc hI).mpr hcond
      cases pre with
      | nil => exact hI
      | cons j pre =>
        obtain ⟨rfl, htail⟩ := List.cons_prefix_cons.mp hpre
        exact (ih (hJ c j hc) hnext).mpr hmeets pre htail

/-- While task `i` takes a step, no other task is in progress: each has ended or not yet begun. -/
def Alone (progs : ι → Async H α) (c : Loop H ι α) (i : ι) : Prop :=
  ∀ j, j ≠ i → c.tasks j = ⟨progs j, none⟩ ∨ ∃ r, (c.tasks j).Ended r

/-! ## What a step can do -/

/-- The three things a step of task `i` can be: nothing, a segment, or a served statement. -/
theorem step_cases (c : Loop H ι α) (i : ι) :
    c.step i = c ∨
    (∃ f k, (c.tasks i).prog = .sync f k ∧
      c.step i = { c with
        store := ((Async.sync f k).settle c.store).2
        tasks := Function.update c.tasks i
          ⟨((Async.sync f k).settle c.store).1, (c.tasks i).last⟩ }) ∨
    (∃ q k, (c.tasks i).prog = .await q k ∧
      c.step i =
        { store := (H.serve q c.store).2
          tasks := Function.update c.tasks i
            ⟨k (H.serve q c.store).1, some ⟨q, (H.serve q c.store).1⟩⟩
          trace := c.trace ++ [(i, ⟨q, (H.serve q c.store).1⟩)] }) := by
  cases h : (c.tasks i).prog with
  | done r => exact .inl (by simp [step, h])
  | sync f k => exact .inr (.inl ⟨f, k, rfl, by simp [step, h]⟩)
  | await q k => exact .inr (.inr ⟨q, k, rfl, by simp [step, h]⟩)

theorem step_tasks_ne (c : Loop H ι α) {i j : ι} (h : j ≠ i) :
    (c.step i).tasks j = c.tasks j := by
  rcases step_cases c i with hs | ⟨f, k, -, hs⟩ | ⟨q, k, -, hs⟩ <;> simp [hs, h]

theorem step_ended {r : Except H.Err α} {i : ι} (h : (c.tasks i).Ended r) (j : ι) :
    (c.step j).tasks i = c.tasks i := by
  by_cases hij : i = j
  · subst hij
    rw [Task.Ended] at h
    simp [step, h]
  · exact step_tasks_ne c hij

/-- A step of a task in a segment settles it. -/
theorem step_segment {f k} {i : ι} (h : (c.tasks i).prog = .sync f k) :
    (c.step i).store = ((c.tasks i).prog.settle c.store).2 ∧
      ((c.step i).tasks i).prog = ((c.tasks i).prog.settle c.store).1 := by
  simp [step, h]

/-- A step of a task that awaits a statement serves it. -/
theorem step_await {q k} {i : ι} (h : (c.tasks i).prog = .await q k) :
    ((c.step i).tasks i).prog = k (H.serve q c.store).1 := by
  simp [step, h]

/-- A task that takes no step stays as it is. -/
theorem run_tasks_of_notMem (c : Loop H ι α) {i : ι} {sched : List ι} (h : i ∉ sched) :
    (c.run sched).tasks i = c.tasks i := by
  induction sched generalizing c with
  | nil => rfl
  | cons j sched ih =>
    rw [List.mem_cons, not_or] at h
    obtain ⟨hij, hsched⟩ := h
    exact (ih (c.step j) hsched).trans (step_tasks_ne c hij)

/-- Steps of one task overlap with no other if none is in progress before them. -/
theorem Meets.alone {progs : ι → Async H α} {c : Loop H ι α} {i : ι} (h : Alone progs c i)
    (n : Nat) : Meets (Alone progs) c (List.replicate n i) := by
  induction n generalizing c with
  | zero => trivial
  | succ n ih => exact ⟨h, ih fun j hj => by rw [step_tasks_ne c hj]; exact h j hj⟩

/-- An outcome is final. -/
theorem run_ended {r : Except H.Err α} {i : ι} (h : (c.tasks i).Ended r) (sched : List ι) :
    ((c.run sched).tasks i).Ended r := by
  have := run_invariant (I := fun c' => c'.tasks i = c.tasks i)
    (fun c' j hc' => (step_ended (hc' ▸ h) j).trans hc') rfl sched
  rw [this]
  exact h

/-- Served statements stay in the trace. -/
theorem trace_subset_step (c : Loop H ι α) (i : ι) : c.trace ⊆ (c.step i).trace := by
  rcases step_cases c i with hs | ⟨f, k, -, hs⟩ | ⟨q, k, -, hs⟩ <;> simp [hs]

end Loop

end Coop
