import AgentWorx.Lib.RelyGuarantee

/-!
# Calls that are turned down

A call that ends with an exception in `E` should not have done anything. `Async.Declines P R E p`
is the judgement that the coroutine `p` has changed nothing, up to `R`, as long as it can still end
so: each step leads to a related state, or is one from which no exception in `E` can come any more
(`Async.Committed`). `Async.Harmless P R p` says of a coroutine that none of its steps changes
anything. All of them hold of a coroutine among any others, in states with `P`.
-/

namespace Coop

variable {H : Host} {ι α β : Type}

/-! ## How a call ends -/

namespace Sync

variable {σ ε : Type} {P : σ → Prop} {Q : α → Prop} {E : ε → Prop}

/-- From states with `P` the call leads to states with `P`, its values satisfy `Q` and its
exceptions `E`. -/
def Results (P : σ → Prop) (Q : α → Prop) (E : ε → Prop) (m : Sync σ ε α) : Prop :=
  ∀ s, P s → Triple m s (fun a s' => P s' ∧ Q a) fun e s' => P s' ∧ E e

namespace Results

theorem pure {a : α} (h : Q a) : Results P Q E (pure a : Sync σ ε α) := fun _ hs =>
  Triple.pure ⟨hs, h⟩

theorem throw {e : ε} (h : E e) : Results P Q E (throw e : Sync σ ε α) := fun _ hs =>
  Triple.throw ⟨hs, h⟩

theorem get {Q : σ → Prop} (h : ∀ s, P s → Q s) : Results P Q E (get : Sync σ ε σ) := fun s hs =>
  Triple.get ⟨hs, h s hs⟩

theorem bind {Q' : β → Prop} {m : Sync σ ε α} {f : α → Sync σ ε β} (hm : Results P Q E m)
    (hf : ∀ a, Q a → Results P Q' E (f a)) : Results P Q' E (m >>= f) := fun s hs =>
  (hm s hs).bind fun a s' ⟨hs', ha⟩ => hf a ha s' hs'

/-- The value of `m` does not matter. -/
theorem bind' {Q' : β → Prop} {m : Sync σ ε α} {f : α → Sync σ ε β}
    (hm : Results P (fun _ => True) E m) (hf : ∀ a, Results P Q' E (f a)) :
    Results P Q' E (m >>= f) := hm.bind fun a _ => hf a

theorem mono {Q' : α → Prop} {E' : ε → Prop} {m : Sync σ ε α} (hm : Results P Q E m)
    (hQ : ∀ a, Q a → Q' a) (hE : ∀ e, E e → E' e) : Results P Q' E' m := fun s hs =>
  (hm s hs).mono (fun a _ h => ⟨h.1, hQ a h.2⟩) fun e _ h => ⟨h.1, hE e h.2⟩

theorem tryCatch {E' : ε → Prop} {m : Sync σ ε α} {h : ε → Sync σ ε α} (hm : Results P Q E' m)
    (hh : ∀ e, E' e → Results P Q E (h e)) : Results P Q E (tryCatch m h) := fun s hs =>
  (hm s hs).tryCatch fun e s' ⟨hs', he⟩ => hh e he s' hs'

/-- A call whose error is kept as a value. -/
theorem attempt {E' : ε → Prop} {m : Sync σ ε (Option ε)} (hm : Results P (· = none) E m) :
    Results P (fun r => ∀ e ∈ r, E e) E' (MonadExcept.tryCatch m fun e => return some e) :=
  .tryCatch (hm.mono (fun r hr e he => by rw [hr] at he; cases he) fun _ h => h) fun e he =>
    .pure (by simpa using he)

theorem forM {xs : List β} {f : β → Sync σ ε PUnit}
    (h : ∀ x ∈ xs, Results P (fun _ => True) E (f x)) :
    Results P (fun _ => True) E (xs.forM f) := fun _ hs =>
  (Triple.forM (fun x hx s hs => (h x hx s hs).mono (fun _ _ h => h.1) fun _ _ h => h) hs).mono
    (fun _ _ h => ⟨h, trivial⟩) fun _ _ h => h

/-- What is known of an exception that is raised. -/
theorem error {m : Sync σ ε α} (hm : Results P Q E m) {s : σ} (hs : P s) {e : ε}
    (h : (exec m s).1 = .error e) : E e := by
  have hend : exec m s = (.error e, (exec m s).2) := Prod.ext h rfl
  exact ((hm s hs).of_error hend).2

end Results

end Sync

/-! ## Judgements -/

namespace Async

section

variable (P : H.State → Prop) (R : H.State → H.State → Prop) (E : H.Err → Prop)

/-- The coroutine does not end with an exception in `E`. -/
def Committed : Async H α → Prop
  | .done (.ok _) => True
  | .done (.error e) => ¬ E e
  | .sync _ k => ∀ s, P s → Committed (k s)
  | .await q k => ∀ s, P s → Committed (k (H.serve q s).1)

def Declines : Async H α → Prop
  | .done _ => True
  | .sync f k => ∀ s, P s → R s (f s) ∧ Declines (k s) ∨ Committed P E (k s)
  | .await q k => ∀ s, P s → R s (H.serve q s).2 ∧ Declines (k (H.serve q s).1) ∨
      Committed P E (k (H.serve q s).1)

def Harmless : Async H α → Prop
  | .done _ => True
  | .sync f k => ∀ s, P s → R s (f s) ∧ Harmless (k s)
  | .await q k => ∀ s, P s → R s (H.serve q s).2 ∧ Harmless (k (H.serve q s).1)

end

variable {P : H.State → Prop} {R : H.State → H.State → Prop} {E : H.Err → Prop}

/-! ## Committed -/

namespace Committed

theorem pure {a : α} : Committed P E (pure a : Async H α) := trivial

theorem throw {e : H.Err} (h : ¬ E e) : Committed P E (throw e : Async H α) := h

theorem lift {m : Sync H.State H.Err α} (h : ∀ s, P s → ∀ e, (m.exec s).1 = .error e → ¬ E e) :
    Committed P E (Async.lift m : Async H α) := by
  intro s hs
  show Committed P E (done (m.exec s).1)
  cases hr : (m.exec s).1 with
  | ok a => exact trivial
  | error e => exact h s hs e hr

theorem call {q : H.Stmt} (h : ∀ s, P s → ∀ e, (H.serve q s).1 = .error e → ¬ E e) :
    Committed P E (Async.call q : Async H _) := by
  intro s hs
  show Committed P E (done (H.serve q s).1)
  cases hr : (H.serve q s).1 with
  | ok a => exact trivial
  | error e => exact h s hs e hr

theorem bind {p : Async H α} {g : α → Async H β} (hp : Committed P E p)
    (hg : ∀ a, Committed P E (g a)) : Committed P E (p >>= g) := by
  show Committed P E (p.bind g)
  induction p with
  | done r =>
    cases r with
    | ok a => exact hg a
    | error e => exact hp
  | sync f k ih => exact fun s hs => ih s (hp s hs)
  | await q k ih => exact fun s hs => ih _ (hp s hs)

theorem lift_bind {Q : α → Prop} {m : Sync H.State H.Err α} {g : α → Async H β}
    (hm : Sync.Results P Q (fun e => ¬ E e) m) (hg : ∀ a, Q a → Committed P E (g a)) :
    Committed P E (Async.lift m >>= g) := by
  intro s hs
  show Committed P E ((done (m.exec s).1).bind g)
  have hend := hm s hs
  rcases hx : m.exec s with ⟨e | a, s'⟩
  · exact (hend.of_error hx).2
  · exact hg a (hend.of_ok hx).2

theorem mono {E' : H.Err → Prop} {p : Async H α} (h : Committed P E p) (hE : ∀ e, E' e → E e) :
    Committed P E' p := by
  induction p with
  | done r =>
    cases r with
    | ok a => exact trivial
    | error e => exact fun he => h (hE e he)
  | sync f k ih => exact fun s hs => ih s (h s hs)
  | await q k ih => exact fun s hs => ih _ (h s hs)

/-- Handing exceptions on as others. -/
theorem tryCatch {p : Async H α} {f : H.Err → H.Err} (hp : Committed P (fun e => E (f e)) p) :
    Committed P E (MonadExcept.tryCatch p fun e => MonadExcept.throw (f e)) := by
  show Committed P E (p.tryCatch _)
  induction p with
  | done r =>
    cases r with
    | ok a => exact trivial
    | error e => exact hp
  | sync f k ih => exact fun s hs => ih s (hp s hs)
  | await q k ih => exact fun s hs => ih _ (hp s hs)

theorem settle {S : Spec H} {Q : Post H α} {l : Option (Event H)} {p : Async H α} {s : H.State}
    (h : Committed P E p) (hf : Follows S Q l p s)
    (hseg : ∀ l s s', S.seg l s s' → P s → P s') (hs : P s) : Committed P E (p.settle s).1 := by
  induction p generalizing s with
  | done r => exact h
  | sync f k ih => exact ih s (h s hs) hf.2 (hseg _ _ _ hf.1 hs)
  | await q k ih => exact h

end Committed

/-! ## Declines -/

namespace Declines

theorem pure {a : α} : Declines P R E (pure a : Async H α) := trivial

theorem throw {e : H.Err} : Declines P R E (throw e : Async H α) := trivial

theorem of_committed {p : Async H α} (h : Committed P E p) : Declines P R E p := by
  cases p with
  | done r => exact trivial
  | sync f k => exact fun s hs => .inr (h s hs)
  | await q k => exact fun s hs => .inr (h s hs)

/-- A call that has changed something does not raise an exception in `E`. -/
theorem lift {m : Sync H.State H.Err α}
    (h : ∀ s, P s → ∀ e, (m.exec s).1 = .error e → E e → R s (m.exec s).2) :
    Declines P R E (Async.lift m : Async H α) := by
  intro s hs
  show R s (m.exec s).2 ∧ Declines P R E (done (m.exec s).1) ∨
    Committed P E (done (m.exec s).1 : Async H α)
  cases hr : (m.exec s).1 with
  | ok a => exact .inr trivial
  | error e =>
    by_cases he : E e
    · exact .inl ⟨h s hs e hr he, trivial⟩
    · exact .inr he

theorem call {q : H.Stmt}
    (h : ∀ s, P s → ∀ e, (H.serve q s).1 = .error e → E e → R s (H.serve q s).2) :
    Declines P R E (Async.call q : Async H _) := by
  intro s hs
  show R s (H.serve q s).2 ∧ Declines P R E (done (H.serve q s).1) ∨
    Committed P E (done (H.serve q s).1 : Async H _)
  cases hr : (H.serve q s).1 with
  | ok a => exact .inr trivial
  | error e =>
    by_cases he : E e
    · exact .inl ⟨h s hs e hr he, trivial⟩
    · exact .inr he

/-- What comes after a change must not raise an exception in `E`. -/
theorem bind {p : Async H α} {g : α → Async H β} (hp : Declines P R E p)
    (hg : ∀ a, Committed P E (g a)) : Declines P R E (p >>= g) := by
  show Declines P R E (p.bind g)
  induction p with
  | done r =>
    cases r with
    | ok a => exact .of_committed (hg a)
    | error e => exact trivial
  | sync f k ih =>
    intro s hs
    exact (hp s hs).imp (fun h => ⟨h.1, ih s h.2⟩) fun h => h.bind hg
  | await q k ih =>
    intro s hs
    exact (hp s hs).imp (fun h => ⟨h.1, ih _ h.2⟩) fun h => h.bind hg

theorem mono {E' : H.Err → Prop} {p : Async H α} (h : Declines P R E p) (hE : ∀ e, E' e → E e) :
    Declines P R E' p := by
  induction p with
  | done r => exact trivial
  | sync f k ih => exact fun s hs => (h s hs).imp (fun h => ⟨h.1, ih s h.2⟩) (·.mono hE)
  | await q k ih => exact fun s hs => (h s hs).imp (fun h => ⟨h.1, ih _ h.2⟩) (·.mono hE)

theorem tryCatch {p : Async H α} {f : H.Err → H.Err} (hp : Declines P R (fun e => E (f e)) p) :
    Declines P R E (MonadExcept.tryCatch p fun e => MonadExcept.throw (f e)) := by
  show Declines P R E (p.tryCatch _)
  induction p with
  | done r => cases r <;> exact trivial
  | sync f k ih =>
    intro s hs
    exact (hp s hs).imp (fun h => ⟨h.1, ih s h.2⟩) Committed.tryCatch
  | await q k ih =>
    intro s hs
    exact (hp s hs).imp (fun h => ⟨h.1, ih _ h.2⟩) Committed.tryCatch

theorem settle [IsPreorder H.State R] {S : Spec H} {Q : Post H α} {l : Option (Event H)}
    {p : Async H α} {s : H.State} (h : Declines P R E p) (hf : Follows S Q l p s)
    (hseg : ∀ l s s', S.seg l s s' → P s → P s') (hs : P s) :
    R s (p.settle s).2 ∧ Declines P R E (p.settle s).1 ∨ Committed P E (p.settle s).1 := by
  induction p generalizing s with
  | done r => exact .inl ⟨refl_of R s, trivial⟩
  | sync f k ih =>
    have hs' : P (f s) := hseg _ _ _ hf.1 hs
    rcases h s hs with ⟨hR, hk⟩ | hk
    · exact (ih s hk hf.2 hs').imp (fun h => ⟨trans_of R hR h.1, h.2⟩) fun h => h
    · exact .inr (hk.settle hf.2 hseg hs')
  | await q k ih => exact .inl ⟨refl_of R s, h⟩

end Declines

/-! ## Harmless -/

namespace Harmless

theorem pure {a : α} : Harmless P R (pure a : Async H α) := trivial

theorem throw {e : H.Err} : Harmless P R (throw e : Async H α) := trivial

theorem lift {m : Sync H.State H.Err α} (h : ∀ s, P s → R s (m.exec s).2) :
    Harmless P R (Async.lift m : Async H α) := fun s hs => ⟨h s hs, trivial⟩

theorem call {q : H.Stmt} (h : ∀ s, P s → R s (H.serve q s).2) :
    Harmless P R (Async.call q : Async H _) := fun s hs => ⟨h s hs, trivial⟩

theorem bind {p : Async H α} {g : α → Async H β} (hp : Harmless P R p)
    (hg : ∀ a, Harmless P R (g a)) : Harmless P R (p >>= g) := by
  show Harmless P R (p.bind g)
  induction p with
  | done r =>
    cases r with
    | ok a => exact hg a
    | error e => exact trivial
  | sync f k ih => exact fun s hs => ⟨(hp s hs).1, ih s (hp s hs).2⟩
  | await q k ih => exact fun s hs => ⟨(hp s hs).1, ih _ (hp s hs).2⟩

/-- A call that begins by looking around can still be turned down. -/
theorem bind_declines {p : Async H α} {g : α → Async H β} (hp : Harmless P R p)
    (hg : ∀ a, Declines P R E (g a)) : Declines P R E (p >>= g) := by
  show Declines P R E (p.bind g)
  induction p with
  | done r =>
    cases r with
    | ok a => exact hg a
    | error e => exact trivial
  | sync f k ih => exact fun s hs => .inl ⟨(hp s hs).1, ih s (hp s hs).2⟩
  | await q k ih => exact fun s hs => .inl ⟨(hp s hs).1, ih _ (hp s hs).2⟩

theorem declines {p : Async H α} (h : Harmless P R p) : Declines P R E p := by
  induction p with
  | done r => exact trivial
  | sync f k ih => exact fun s hs => .inl ⟨(h s hs).1, ih s (h s hs).2⟩
  | await q k ih => exact fun s hs => .inl ⟨(h s hs).1, ih _ (h s hs).2⟩

theorem tryCatch {p : Async H α} {f : H.Err → H.Err} (hp : Harmless P R p) :
    Harmless P R (MonadExcept.tryCatch p fun e => MonadExcept.throw (f e)) := by
  show Harmless P R (p.tryCatch _)
  induction p with
  | done r => cases r <;> exact trivial
  | sync f k ih => exact fun s hs => ⟨(hp s hs).1, ih s (hp s hs).2⟩
  | await q k ih => exact fun s hs => ⟨(hp s hs).1, ih _ (hp s hs).2⟩

theorem settle [IsPreorder H.State R] {S : Spec H} {Q : Post H α} {l : Option (Event H)}
    {p : Async H α} {s : H.State} (h : Harmless P R p) (hf : Follows S Q l p s)
    (hseg : ∀ l s s', S.seg l s s' → P s → P s') (hs : P s) :
    R s (p.settle s).2 ∧ Harmless P R (p.settle s).1 := by
  induction p generalizing s with
  | done r => exact ⟨refl_of R s, trivial⟩
  | sync f k ih =>
    obtain ⟨hR, hk⟩ := h s hs
    obtain ⟨hR', hk'⟩ := ih s hk hf.2 (hseg _ _ _ hf.1 hs)
    exact ⟨trans_of R hR hR', hk'⟩
  | await q k ih => exact ⟨refl_of R s, h⟩

end Harmless

end Async

/-! ## Loops -/

namespace Loop

variable [DecidableEq ι] {P : H.State → Prop} {R : H.State → H.State → Prop} {E : H.Err → Prop}
  {S : ι → Spec H} {Q : ι → Post H α} {c : Loop H ι α} {i : ι}

open Async

/-- A step of a task: it had ended, a segment that follows its specification, or a statement. -/
theorem Conforms.task_cases (h : Conforms S Q c) (i : ι) :
    c.step i = c ∨
    (Follows (S i) (Q i) (c.tasks i).last (c.tasks i).prog c.store ∧
      (c.step i).store = ((c.tasks i).prog.settle c.store).2 ∧
      ((c.step i).tasks i).prog = ((c.tasks i).prog.settle c.store).1) ∨
    ∃ q k, (c.tasks i).prog = .await q k ∧ (c.step i).store = (H.serve q c.store).2 ∧
      ((c.step i).tasks i).prog = k (H.serve q c.store).1 := by
  rcases Loop.step_cases c i with hs | ⟨f, k, hp, hs⟩ | ⟨q, k, hp, hs⟩
  · exact .inl hs
  · have hi := h i (by simp [Task.Ended, hp])
    rw [hp] at hi ⊢
    exact .inr (.inl ⟨hi c.store (refl_of _ _), by simp [hs], by simp [hs]⟩)
  · exact .inr (.inr ⟨q, k, hp, by simp [hs], by simp [hs]⟩)

theorem Conforms.committed_step (h : Conforms S Q c)
    (hseg : ∀ i l s s', (S i).seg l s s' → P s → P s') (hs : P c.store)
    (hi : Committed P E (c.tasks i).prog) (j : ι) :
    Committed P E ((c.step j).tasks i).prog := by
  by_cases hij : i = j
  · subst hij
    rcases h.task_cases i with hstep | ⟨hf, -, hprog⟩ | ⟨q, k, hprog, -, hnext⟩
    · rwa [hstep]
    · rw [hprog]
      exact hi.settle hf (hseg i) hs
    · rw [hprog] at hi
      rw [hnext]
      exact hi c.store hs
  · rwa [step_tasks_ne c hij]

theorem Conforms.declines_step [IsPreorder H.State R] (h : Conforms S Q c)
    (hseg : ∀ i l s s', (S i).seg l s s' → P s → P s') (hs : P c.store)
    (hi : Declines P R E (c.tasks i).prog) :
    R c.store (c.step i).store ∧ Declines P R E ((c.step i).tasks i).prog ∨
      Committed P E ((c.step i).tasks i).prog := by
  rcases h.task_cases i with hstep | ⟨hf, hstore, hprog⟩ | ⟨q, k, hprog, hstore, hnext⟩
  · rw [hstep]
    exact .inl ⟨refl_of R _, hi⟩
  · rw [hstore, hprog]
    exact hi.settle hf (hseg i) hs
  · rw [hprog] at hi
    rw [hstore, hnext]
    exact hi c.store hs

/-- The steps of task `i` that have been taken changed nothing, or it has come too far to be turned
down. -/
theorem declined {I : Loop H ι α → Prop} (hstep : ∀ c j, I c → I (c.step j))
    (hI : ∀ c, I c → Conforms S Q c ∧ P c.store) [IsPreorder H.State R]
    (hseg : ∀ i l s s', (S i).seg l s s' → P s → P s') (hc : I c)
    (hi : Declines P R E (c.tasks i).prog) {sched : List ι} {e : H.Err}
    (hend : ((c.run sched).tasks i).Ended (.error e)) (he : E e) :
    Meets (fun c j => j = i → R c.store (c.step j).store) c sched := by
  have hcommitted {c : Loop H ι α} {sched : List ι} (hc : I c)
      (hi : Committed P E (c.tasks i).prog) : Committed P E ((c.run sched).tasks i).prog := by
    induction sched generalizing c with
    | nil => exact hi
    | cons j sched ih =>
      exact ih (hstep c j hc) ((hI c hc).1.committed_step hseg (hI c hc).2 hi j)
  induction sched generalizing c with
  | nil => trivial
  | cons j sched ih =>
    by_cases hij : j = i
    · subst hij
      rcases (hI c hc).1.declines_step hseg (hI c hc).2 hi with ⟨hR, hi'⟩ | hi'
      · exact ⟨fun _ => hR, ih (hstep c j hc) hi' hend⟩
      · have hlast : Committed P E (((c.step j).run sched).tasks j).prog :=
          hcommitted (hstep c j hc) hi'
        rw [show (((c.step j).run sched).tasks j).prog = _ from hend] at hlast
        exact absurd he hlast
    · refine ⟨fun h => absurd h hij, ih (hstep c j hc) ?_ hend⟩
      rwa [step_tasks_ne c (Ne.symm hij)]

/-- No step of a task that is harmless changes anything. -/
theorem harmless {I : Loop H ι α → Prop} (hstep : ∀ c j, I c → I (c.step j))
    (hI : ∀ c, I c → Conforms S Q c ∧ P c.store) [IsPreorder H.State R]
    (hseg : ∀ i l s s', (S i).seg l s s' → P s → P s') (hc : I c)
    (hi : Harmless P R (c.tasks i).prog) (sched : List ι) :
    Meets (fun c j => j = i → R c.store (c.step j).store) c sched := by
  induction sched generalizing c with
  | nil => trivial
  | cons j sched ih =>
    by_cases hij : j = i
    · subst hij
      have hnext : R c.store (c.step j).store ∧ Harmless P R ((c.step j).tasks j).prog := by
        rcases (hI c hc).1.task_cases j with hs | ⟨hf, hstore, hprog⟩ | ⟨q, k, hprog, hstore, hk⟩
        · rw [hs]
          exact ⟨refl_of R _, hi⟩
        · rw [hstore, hprog]
          exact hi.settle hf (hseg j) (hI c hc).2
        · rw [hprog] at hi
          rw [hstore, hk]
          exact hi c.store (hI c hc).2
      exact ⟨fun _ => hnext.1, ih (hstep c j hc) hnext.2⟩
    · refine ⟨fun h => absurd h hij, ih (hstep c j hc) ?_⟩
      rwa [step_tasks_ne c (Ne.symm hij)]

end Loop

end Coop
