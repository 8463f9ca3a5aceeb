import AgentWorx.Lib.Sync

/-!
# Coroutines on an event loop

A coroutine is a tree of *segments* and *awaited statements*. A segment (`Async.sync`) is code of
the process itself: it runs without giving up control. An awaited statement (`Async.await`) is
served by somebody else (a database), who executes it in one step and answers; between the answer
and the next segment other coroutines may run. `Async.runAlone` runs a coroutine with nobody in
between; `AgentWorx.Lib.EventLoop` interleaves many.
-/

namespace Coop

/-- Who serves the awaited statements, and the state the coroutines share with it. -/
structure Host where
  Stmt : Type
  Resp : Stmt → Type
  State : Type
  Err : Type
  serve : (q : Stmt) → State → Except Err (Resp q) × State

/-- A coroutine. The continuation of a segment sees the state the segment started in. -/
inductive Async (H : Host) (α : Type) : Type where
  | done (r : Except H.Err α)
  | sync (f : H.State → H.State) (k : H.State → Async H α)
  | await (q : H.Stmt) (k : Except H.Err (H.Resp q) → Async H α)

/-- A served statement and its answer. -/
structure Event (H : Host) where
  stmt : H.Stmt
  result : Except H.Err (H.Resp stmt)

namespace Async

variable {H : Host} {α β γ : Type}

def bind : Async H α → (α → Async H β) → Async H β
  | .done (.ok a), g => g a
  | .done (.error e), _ => .done (.error e)
  | .sync f k, g => .sync f fun s => (k s).bind g
  | .await q k, g => .await q fun r => (k r).bind g

/-- `try`/`except`: a raised error is handed to `h`. -/
def tryCatch : Async H α → (H.Err → Async H α) → Async H α
  | .done (.ok a), _ => .done (.ok a)
  | .done (.error e), h => h e
  | .sync f k, h => .sync f fun s => (k s).tryCatch h
  | .await q k, h => .await q fun r => (k r).tryCatch h

instance : Monad (Async H) where
  pure a := .done (.ok a)
  bind := Async.bind

instance : MonadExceptOf H.Err (Async H) where
  throw e := .done (.error e)
  tryCatch := Async.tryCatch

/-- A call that does not give up control, as one segment. -/
def lift (m : Sync H.State H.Err α) : Async H α :=
  .sync (fun s => (m.exec s).2) fun s => .done (m.exec s).1

instance : MonadLift (Sync H.State H.Err) (Async H) where
  monadLift := lift

/-- Await one statement. -/
def call (q : H.Stmt) : Async H (H.Resp q) := .await q .done

/-- Run segments up to the next awaited statement or the end. -/
def settle : Async H α → H.State → Async H α × H.State
  | .sync f k, s => (k s).settle (f s)
  | p, s => (p, s)

/-- Run the coroutine to its end with no other coroutine in between. -/
def runAlone : Async H α → H.State → Except H.Err α × H.State
  | .done r, s => (r, s)
  | .sync f k, s => (k s).runAlone (f s)
  | .await q k, s => (k (H.serve q s).1).runAlone (H.serve q s).2

@[simp] theorem settle_done (r : Except H.Err α) (s : H.State) :
    (done r : Async H α).settle s = (done r, s) := rfl

@[simp] theorem settle_await (q : H.Stmt) (k : Except H.Err (H.Resp q) → Async H α)
    (s : H.State) : (await q k).settle s = (await q k, s) := rfl

@[simp] theorem settle_sync (f : H.State → H.State) (k : H.State → Async H α) (s : H.State) :
    (sync f k).settle s = (k s).settle (f s) := rfl

@[simp] theorem runAlone_pure (a : α) (s : H.State) :
    runAlone (pure a : Async H α) s = (.ok a, s) := rfl

@[simp] theorem runAlone_throw (e : H.Err) (s : H.State) :
    runAlone (throw e : Async H α) s = (.error e, s) := rfl

@[simp] theorem runAlone_lift (m : Sync H.State H.Err α) (s : H.State) :
    (lift m : Async H α).runAlone s = m.exec s := rfl

@[simp] theorem runAlone_monadLift (m : Sync H.State H.Err α) (s : H.State) :
    (MonadLift.monadLift m : Async H α).runAlone s = m.exec s := rfl

@[simp] theorem runAlone_liftM (m : Sync H.State H.Err α) (s : H.State) :
    (liftM m : Async H α).runAlone s = m.exec s := rfl

@[simp] theorem runAlone_call (q : H.Stmt) (s : H.State) :
    (call q : Async H _).runAlone s = H.serve q s := rfl

/-- What is left after settling does not start with a segment. -/
theorem settle_ne_sync (p : Async H α) (s : H.State) (f k) : (p.settle s).1 ≠ .sync f k := by
  induction p generalizing s with
  | done r => simp
  | sync g h ih => exact ih s (g s)
  | await q h ih => simp

@[simp] theorem settle_lift (m : Sync H.State H.Err α) (s : H.State) :
    (lift m : Async H α).settle s = (done (m.exec s).1, (m.exec s).2) := rfl

theorem settle_bind (p : Async H α) (g : α → Async H β) (s : H.State) :
    (p >>= g).settle s = match p.settle s with
      | (.done (.ok a), s') => (g a).settle s'
      | (p', s') => (p' >>= g, s') := by
  show (p.bind g).settle s = _
  induction p generalizing s with
  | done r => cases r <;> rfl
  | sync f k ih => exact ih s (f s)
  | await q k ih => rfl

theorem settle_lift_bind_ok {m : Sync H.State H.Err α} {g : α → Async H β} {s s' : H.State} {a : α}
    (h : m.exec s = (.ok a, s')) : (lift m >>= g).settle s = (g a).settle s' := by
  rw [settle_bind, settle_lift, h]

theorem settle_lift_bind_error {m : Sync H.State H.Err α} {g : α → Async H β} {s s' : H.State}
    {e : H.Err} (h : m.exec s = (.error e, s')) :
    (lift m >>= g).settle s = (done (.error e), s') := by
  rw [settle_bind, settle_lift, h]
  rfl

theorem settle_tryCatch (p : Async H α) (h : H.Err → Async H α) (s : H.State) :
    (MonadExcept.tryCatch p h).settle s = match p.settle s with
      | (.done (.error e), s') => (h e).settle s'
      | (p', s') => (MonadExcept.tryCatch p' h, s') := by
  induction p generalizing s with
  | done r => cases r <;> rfl
  | sync f k ih => exact ih s (f s)
  | await q k ih => rfl

theorem runAlone_bind (p : Async H α) (g : α → Async H β) (s : H.State) :
    (p >>= g).runAlone s = match p.runAlone s with
      | (.ok a, s') => (g a).runAlone s'
      | (.error e, s') => (.error e, s') := by
  show (p.bind g).runAlone s = _
  induction p generalizing s with
  | done r => cases r <;> rfl
  | sync f k ih => exact ih s (f s)
  | await q k ih => exact ih _ _

theorem runAlone_bind_ok {p : Async H α} {g : α → Async H β} {s s' : H.State} {a : α}
    (h : p.runAlone s = (.ok a, s')) : (p >>= g).runAlone s = (g a).runAlone s' := by
  rw [runAlone_bind, h]

theorem runAlone_bind_error {p : Async H α} {g : α → Async H β} {s s' : H.State} {e : H.Err}
    (h : p.runAlone s = (.error e, s')) : (p >>= g).runAlone s = (.error e, s') := by
  rw [runAlone_bind, h]

/-- A sequence returns a value only if its first part does. -/
theorem runAlone_bind_returns {p : Async H α} {g : α → Async H β} {s s' : H.State} {b : β}
    (h : (p >>= g).runAlone s = (.ok b, s')) :
    ∃ a s1, p.runAlone s = (.ok a, s1) ∧ (g a).runAlone s1 = (.ok b, s') := by
  rw [runAlone_bind] at h
  rcases hx : p.runAlone s with ⟨_ | a, s1⟩ <;> rw [hx] at h
  · cases h
  · exact ⟨a, s1, rfl, h⟩

theorem runAlone_tryCatch (p : Async H α) (h : H.Err → Async H α) (s : H.State) :
    (MonadExcept.tryCatch p h).runAlone s = match p.runAlone s with
      | (.ok a, s') => (.ok a, s')
      | (.error e, s') => (h e).runAlone s' := by
  induction p generalizing s with
  | done r => cases r <;> rfl
  | sync f k ih => exact ih s (f s)
  | await q k ih => exact ih _ _

/-- However the coroutine ends when it runs alone, the state it leaves is related by `R` to the one
it started in. -/
def KeepsAlone (R : H.State → H.State → Prop) (p : Async H α) : Prop :=
  ∀ s, R s (p.runAlone s).2

namespace KeepsAlone

variable {R : H.State → H.State → Prop} [IsPreorder H.State R]

theorem pure (a : α) : KeepsAlone R (pure a : Async H α) := fun s => refl_of R s

theorem throw (e : H.Err) : KeepsAlone R (throw e : Async H α) := fun s => refl_of R s

omit [IsPreorder H.State R] in
theorem lift {m : Sync H.State H.Err α} (h : Sync.Keeps R m) : KeepsAlone R (lift m) := h

omit [IsPreorder H.State R] in
theorem call {q : H.Stmt} (h : ∀ s, R s (H.serve q s).2) : KeepsAlone R (call q : Async H _) := h

omit [IsPreorder H.State R] in
/-- The parts of a sequence may keep different relations. -/
theorem comp {R' T : H.State → H.State → Prop} {p : Async H α} {g : α → Async H β}
    (hp : KeepsAlone R p) (hg : ∀ a, KeepsAlone R' (g a)) (herr : ∀ s s', R s s' → T s s')
    (hcomp : ∀ s1 s2 s3, R s1 s2 → R' s2 s3 → T s1 s3) : KeepsAlone T (p >>= g) := by
  intro s
  have h := hp s
  rw [runAlone_bind]
  rcases hx : p.runAlone s with ⟨e | a, s'⟩ <;> rw [hx] at h
  · exact herr _ _ h
  · exact hcomp _ _ _ h (hg a s')

theorem bind {p : Async H α} {g : α → Async H β} (hp : KeepsAlone R p)
    (hg : ∀ a, KeepsAlone R (g a)) : KeepsAlone R (p >>= g) :=
  comp hp hg (fun _ _ h => h) fun _ _ _ => trans_of R

theorem tryCatch {p : Async H α} {g : H.Err → Async H α} (hp : KeepsAlone R p)
    (hg : ∀ e, KeepsAlone R (g e)) : KeepsAlone R (MonadExcept.tryCatch p g) := by
  intro s
  have h := hp s
  rw [runAlone_tryCatch]
  rcases hx : p.runAlone s with ⟨e | a, s'⟩ <;> rw [hx] at h
  · exact trans_of R h (hg e s')
  · exact h

end KeepsAlone

/-- Run alone from the state `s`, the coroutine returns a value and a state that satisfy `Q`, or
raises with an error and a state that satisfy `E`. -/
def TripleAlone (p : Async H α) (s : H.State) (Q : α → H.State → Prop)
    (E : H.Err → H.State → Prop) : Prop :=
  match p.runAlone s with
  | (.ok a, s') => Q a s'
  | (.error e, s') => E e s'

namespace TripleAlone

variable {Q : α → H.State → Prop} {E : H.Err → H.State → Prop} {s : H.State}

theorem of_ok {p : Async H α} {a : α} {s' : H.State} (h : TripleAlone p s Q E)
    (hp : p.runAlone s = (.ok a, s')) : Q a s' := by
  unfold TripleAlone at h
  rwa [hp] at h

theorem of_error {p : Async H α} {e : H.Err} {s' : H.State} (h : TripleAlone p s Q E)
    (hp : p.runAlone s = (.error e, s')) : E e s' := by
  unfold TripleAlone at h
  rwa [hp] at h

theorem pure {a : α} (h : Q a s) : TripleAlone (pure a : Async H α) s Q E := h

theorem throw {e : H.Err} (h : E e s) : TripleAlone (throw e : Async H α) s Q E := h

theorem lift {m : Sync H.State H.Err α} (h : Sync.Triple m s Q E) :
    TripleAlone (lift m : Async H α) s Q E := by
  unfold Sync.Triple at h
  unfold TripleAlone
  rw [runAlone_lift]
  rcases hx : m.exec s with ⟨e | a, s'⟩ <;> rw [hx] at h <;> exact h

theorem any (p : Async H α) (s : H.State) : TripleAlone p s (fun _ _ => True) fun _ _ => True := by
  unfold TripleAlone
  rcases p.runAlone s with ⟨e | a, s'⟩ <;> exact trivial

/-- A segment that does not falsify `P`. -/
theorem keeps {P : H.State → Prop} {m : Sync H.State H.Err α} (h : Sync.Keeps (Sync.Preserves P) m)
    (hs : P s) : TripleAlone (Async.lift m) s (fun _ => P) fun _ _ => True :=
  lift ((Sync.Triple.of_keeps h s).mono (fun _ _ h => h hs) fun _ _ _ => trivial)

theorem call {q : H.Stmt} {Q : H.Resp q → H.State → Prop}
    (hok : ∀ a, (H.serve q s).1 = .ok a → Q a (H.serve q s).2)
    (herr : ∀ e, (H.serve q s).1 = .error e → E e (H.serve q s).2) :
    TripleAlone (call q : Async H _) s Q E := by
  unfold TripleAlone
  rw [runAlone_call]
  rcases hx : H.serve q s with ⟨e | a, s'⟩ <;> rw [hx] at hok herr
  · exact herr e rfl
  · exact hok a rfl

theorem bind {M : α → H.State → Prop} {Q : β → H.State → Prop} {p : Async H α}
    {g : α → Async H β} (hp : TripleAlone p s M E)
    (hg : ∀ a s', M a s' → TripleAlone (g a) s' Q E) : TripleAlone (p >>= g) s Q E := by
  unfold TripleAlone at hp ⊢
  rw [runAlone_bind]
  rcases hx : p.runAlone s with ⟨e | a, s'⟩ <;> rw [hx] at hp
  · exact hp
  · exact hg a s' hp

theorem tryCatch {M : H.Err → H.State → Prop} {p : Async H α} {g : H.Err → Async H α}
    (hp : TripleAlone p s Q M) (hg : ∀ e s', M e s' → TripleAlone (g e) s' Q E) :
    TripleAlone (MonadExcept.tryCatch p g) s Q E := by
  unfold TripleAlone at hp ⊢
  rw [runAlone_tryCatch]
  rcases hx : p.runAlone s with ⟨e | a, s'⟩ <;> rw [hx] at hp
  · exact hg e s' hp
  · exact hp

theorem mono {Q' : α → H.State → Prop} {E' : H.Err → H.State → Prop} {p : Async H α}
    (h : TripleAlone p s Q E) (hQ : ∀ a s, Q a s → Q' a s) (hE : ∀ e s, E e s → E' e s) :
    TripleAlone p s Q' E' := by
  unfold TripleAlone at h ⊢
  rcases hx : p.runAlone s with ⟨e | a, s'⟩ <;> rw [hx] at h
  · exact hE e s' h
  · exact hQ a s' h

end TripleAlone

end Async

end Coop
