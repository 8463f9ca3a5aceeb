import AgentWorx.Lib.EventLoop

/-!
# Rely and guarantee

A specification of a coroutine says what it may do (its guarantee) and what the others may do
between its steps (its rely). `Follows S Post l p s` is the judgement that the coroutine `p`, about
to run in state `s` with last statement `l`, keeps the specification `S` and ends in `Post`. What is
known across an await is what the rely keeps, together with the statement itself and its answer. A
statement has an assertion for the state it is issued in and another for the state it is served in:
what the coroutine has just checked holds in the first, and in the second only if the rely keeps it.

`Loop.Conforms` is the judgement of a whole loop: every task follows its own specification. A step
keeps it when the step is one that the other tasks rely on.
-/

namespace Coop

variable {H : Host} {ι α β : Type}

/-- What a coroutine may do and what it relies on. `issue l s q` and `stmt l s q`: with last
statement `l` it may issue `q`, or have it served, in state `s`. `seg l s s'`: with last statement
`l` its segments may lead from `s` to `s'`; they run one after another without a break, so this is a
preorder. -/
structure Spec (H : Host) where
  issue : Option (Event H) → H.State → H.Stmt → Prop
  stmt : Option (Event H) → H.State → H.Stmt → Prop
  seg : Option (Event H) → H.State → H.State → Prop
  rely : H.State → H.State → Prop
  seg_preorder : ∀ l, IsPreorder H.State (seg l)
  rely_preorder : IsPreorder H.State rely

instance (S : Spec H) (l : Option (Event H)) : IsPreorder H.State (S.seg l) := S.seg_preorder l

instance (S : Spec H) : IsPreorder H.State S.rely := S.rely_preorder

/-- The assertion at the end of a coroutine: its last statement, its outcome and the state. -/
abbrev Post (H : Host) (α : Type) := Option (Event H) → Except H.Err α → H.State → Prop

def Follows (S : Spec H) (P : Post H α) : Option (Event H) → Async H α → H.State → Prop
  | l, .done r, s => P l r s
  | l, .sync f k, s => S.seg l s (f s) ∧ Follows S P l (k s) (f s)
  | l, .await q k, s => S.issue l s q ∧ ∀ s1, S.rely s s1 → S.stmt l s1 q ∧
      ∀ s2, S.rely (H.serve q s1).2 s2 →
        Follows S P (some ⟨q, (H.serve q s1).1⟩) (k (H.serve q s1).1) s2

/-- The judgement for a coroutine that the others may keep waiting: what it has issued was allowed
when it was issued. -/
def Waits (S : Spec H) (P : Post H α) (l : Option (Event H)) : Async H α → H.State → Prop
  | .await q k, s => ∀ s1, S.rely s s1 → S.stmt l s1 q ∧
      ∀ s2, S.rely (H.serve q s1).2 s2 →
        Follows S P (some ⟨q, (H.serve q s1).1⟩) (k (H.serve q s1).1) s2
  | p, s => ∀ s', S.rely s s' → Follows S P l p s'

namespace Follows

variable {S : Spec H} {P : Post H α} {l : Option (Event H)} {s : H.State}

theorem pure {a : α} (h : P l (.ok a) s) : Follows S P l (pure a : Async H α) s := h

theorem throw {e : H.Err} (h : P l (.error e) s) : Follows S P l (throw e : Async H α) s := h

theorem lift {m : Sync H.State H.Err α} (h : S.seg l s (m.exec s).2)
    (hP : P l (m.exec s).1 (m.exec s).2) : Follows S P l (Async.lift m) s := ⟨h, hP⟩

theorem call {q : H.Stmt} {P : Post H (H.Resp q)} (hissue : S.issue l s q)
    (h : ∀ s1, S.rely s s1 → S.stmt l s1 q ∧ ∀ s2, S.rely (H.serve q s1).2 s2 →
      P (some ⟨q, (H.serve q s1).1⟩) (H.serve q s1).1 s2) : Follows S P l (Async.call q) s :=
  ⟨hissue, h⟩

theorem bind {p : Async H α} {g : α → Async H β} {M : Post H α} {P : Post H β}
    (hp : Follows S M l p s) (hok : ∀ l a s, M l (.ok a) s → Follows S P l (g a) s)
    (herr : ∀ l e s, M l (.error e) s → P l (.error e) s) : Follows S P l (p >>= g) s := by
  show Follows S P l (p.bind g) s
  induction p generalizing l s with
  | done r =>
    cases r with
    | ok a => exact hok _ _ _ hp
    | error e => exact herr _ _ _ hp
  | sync f k ih => exact ⟨hp.1, ih s hp.2⟩
  | await q k ih =>
    refine ⟨hp.1, fun s1 h1 => ?_⟩
    exact ⟨(hp.2 s1 h1).1, fun s2 h2 => ih _ ((hp.2 s1 h1).2 s2 h2)⟩

theorem tryCatch {p : Async H α} {g : H.Err → Async H α} {M : Post H α} (hp : Follows S M l p s)
    (hok : ∀ l a s, M l (.ok a) s → P l (.ok a) s)
    (herr : ∀ l e s, M l (.error e) s → Follows S P l (g e) s) :
    Follows S P l (tryCatch p g) s := by
  induction p generalizing l s with
  | done r =>
    cases r with
    | ok a => exact hok _ _ _ hp
    | error e => exact herr _ _ _ hp
  | sync f k ih => exact ⟨hp.1, ih s hp.2⟩
  | await q k ih =>
    refine ⟨hp.1, fun s1 h1 => ?_⟩
    exact ⟨(hp.2 s1 h1).1, fun s2 h2 => ih _ ((hp.2 s1 h1).2 s2 h2)⟩

/-- Running segments up to the next statement stays within the specification. -/
theorem settle {p : Async H α} (h : Follows S P l p s) :
    S.seg l s (p.settle s).2 ∧ Follows S P l (p.settle s).1 (p.settle s).2 := by
  induction p generalizing s with
  | done r => exact ⟨refl_of _ _, h⟩
  | sync f k ih =>
    obtain ⟨h1, h2⟩ := ih s h.2
    exact ⟨trans_of _ h.1 h1, h2⟩
  | await q k ih => exact ⟨refl_of _ _, h⟩

/-- A coroutine keeps a specification that allows more and relies on more. -/
theorem weaken {S' : Spec H} {P' : Post H α} {p : Async H α} (h : Follows S P l p s)
    (hissue : ∀ l s q, S.issue l s q → S'.issue l s q)
    (hstmt : ∀ l s q, S.stmt l s q → S'.stmt l s q)
    (hseg : ∀ l s s', S.seg l s s' → S'.seg l s s')
    (hrely : ∀ s s', S'.rely s s' → S.rely s s') (hP : ∀ l r s, P l r s → P' l r s) :
    Follows S' P' l p s := by
  induction p generalizing l s with
  | done r => exact hP _ _ _ h
  | sync f k ih => exact ⟨hseg _ _ _ h.1, ih s h.2⟩
  | await q k ih =>
    refine ⟨hissue _ _ _ h.1, fun s1 h1 => ?_⟩
    obtain ⟨hq, hrest⟩ := h.2 s1 (hrely _ _ h1)
    exact ⟨hstmt _ _ _ hq, fun s2 h2 => ih _ (hrest s2 (hrely _ _ h2))⟩

/-- A coroutine that runs alone ends in its postcondition. -/
theorem runAlone {p : Async H α} (h : Follows S P l p s) :
    ∃ l', P l' (p.runAlone s).1 (p.runAlone s).2 := by
  induction p generalizing l s with
  | done r => exact ⟨l, h⟩
  | sync f k ih => exact ih s h.2
  | await q k ih => exact ih _ ((h.2 s (refl_of _ _)).2 _ (refl_of _ _))

/-- What the segments and statements of the specification keep, a coroutine that runs alone
keeps. -/
theorem runAlone_keeps {I : H.State → Prop} {p : Async H α} (h : Follows S P l p s)
    (hseg : ∀ l s s', S.seg l s s' → I s → I s')
    (hstmt : ∀ l s q, S.stmt l s q → I s → I (H.serve q s).2) (hs : I s) :
    I (p.runAlone s).2 := by
  induction p generalizing l s with
  | done r => exact hs
  | sync f k ih => exact ih s h.2 (hseg _ _ _ h.1 hs)
  | await q k ih =>
    have hq := h.2 s (refl_of _ _)
    exact ih _ (hq.2 _ (refl_of _ _)) (hstmt _ _ _ hq.1 hs)

end Follows

theorem Waits.rely {S : Spec H} {P : Post H α} {l : Option (Event H)} {p : Async H α}
    {s s' : H.State} (h : Waits S P l p s) (hs : S.rely s s') : Waits S P l p s' := by
  cases p with
  | await q k => exact fun s1 h1 => h s1 (trans_of _ hs h1)
  | done r | sync f k => exact fun s1 h1 => h s1 (trans_of _ hs h1)

/-- A coroutine that follows the specification whatever the others do first may be kept waiting. -/
theorem Waits.of_follows {S : Spec H} {P : Post H α} {l : Option (Event H)} {p : Async H α}
    {s : H.State} (h : ∀ s', S.rely s s' → Follows S P l p s') : Waits S P l p s := by
  cases p with
  | await q k => exact (h s (refl_of _ _)).2
  | done r | sync f k => exact h

/-! ## Loops -/

/-- What is left of a task follows the specification, whatever the others do before it takes its
next step. Of a task that has ended nothing is asked. -/
def Task.Conforms (S : Spec H) (P : Post H α) (t : Task H α) (s : H.State) : Prop :=
  (∀ r, ¬ t.Ended r) → Waits S P t.last t.prog s

theorem Task.Conforms.rely {S : Spec H} {P : Post H α} {t : Task H α} {s s' : H.State}
    (h : t.Conforms S P s) (hs : S.rely s s') : t.Conforms S P s' :=
  fun ht => (h ht).rely hs

namespace Loop

variable {S : ι → Spec H} {P : ι → Post H α} {c : Loop H ι α} {i : ι}

def Conforms (S : ι → Spec H) (P : ι → Post H α) (c : Loop H ι α) : Prop :=
  ∀ i, (c.tasks i).Conforms (S i) (P i) c.store

theorem conforms_start {s : H.State} {progs : ι → Async H α}
    (h : ∀ i s', (S i).rely s s' → Follows (S i) (P i) none (progs i) s') :
    Conforms S P (start s progs) := fun i _ => .of_follows (h i)

variable [DecidableEq ι]

/-- What the specifications say about a step: it changes nothing, it is a segment, or it serves a
statement. -/
theorem Conforms.step_cases (h : Conforms S P c) (i : ι) :
    c.step i = c ∨
    ((∃ f k, (c.tasks i).prog = .sync f k) ∧
      (S i).seg (c.tasks i).last c.store (c.step i).store ∧ (c.step i).trace = c.trace ∧
      ((c.step i).tasks i).last = (c.tasks i).last) ∨
    (∃ q k, (c.tasks i).prog = .await q k ∧ (S i).stmt (c.tasks i).last c.store q ∧
      (c.step i).store = (H.serve q c.store).2 ∧
      (c.step i).trace = c.trace ++ [(i, ⟨q, (H.serve q c.store).1⟩)] ∧
      ((c.step i).tasks i).last = some ⟨q, (H.serve q c.store).1⟩) := by
  rcases Loop.step_cases c i with hs | ⟨f, k, hp, hs⟩ | ⟨q, k, hp, hs⟩
  · exact .inl hs
  · have hi := h i (by simp [Task.Ended, hp])
    rw [hp] at hi
    exact .inr (.inl ⟨⟨f, k, hp⟩, by simpa [hs] using (hi c.store (refl_of _ _)).settle.1⟩)
  · have hi := h i (by simp [Task.Ended, hp])
    rw [hp] at hi
    exact .inr (.inr ⟨q, k, hp, (hi c.store (refl_of _ _)).1, by simp [hs]⟩)

/-- What the specification of a task keeps, its step keeps. -/
theorem Conforms.step_keeps {I : H.State → Prop} (h : Conforms S P c)
    (hseg : ∀ l s s', (S i).seg l s s' → I s → I s')
    (hstmt : ∀ l s q, (S i).stmt l s q → I s → I (H.serve q s).2) (hI : I c.store) :
    I (c.step i).store := by
  rcases h.step_cases i with hs | ⟨-, hs, -⟩ | ⟨q, k, -, hq, hs, -⟩
  · rwa [hs]
  · exact hseg _ _ _ hs hI
  · rw [hs]
    exact hstmt _ _ q hq hI

/-- After its step a task that had not ended follows its specification from the new state. -/
theorem Conforms.follows (h : Conforms S P c) (hi : ∀ r, ¬ (c.tasks i).Ended r) :
    Follows (S i) (P i) ((c.step i).tasks i).last ((c.step i).tasks i).prog (c.step i).store := by
  have hf := h i hi
  cases hp : (c.tasks i).prog with
  | done r => exact absurd hp (hi r)
  | sync f k =>
    rw [hp] at hf
    simpa [Loop.step, hp] using (hf c.store (refl_of _ _)).settle.2
  | await q k =>
    rw [hp] at hf
    simpa [Loop.step, hp] using (hf c.store (refl_of _ _)).2 _ (refl_of _ _)

/-- A statement that a task awaits after its step was allowed to be issued now. -/
theorem Conforms.issued (h : Conforms S P c) {q : H.Stmt}
    (hq : ((c.step i).tasks i).awaited = some q) :
    (S i).issue ((c.step i).tasks i).last (c.step i).store q := by
  obtain ⟨k, hq⟩ := Task.awaited_eq_some.mp hq
  have hi : ∀ r, ¬ (c.tasks i).Ended r := by
    intro r hr
    rw [step_ended hr, show (c.tasks i).prog = _ from hr] at hq
    cases hq
  have hf := h.follows hi
  rw [hq] at hf
  exact hf.1

/-- A task that ends with this step satisfies its postcondition now. -/
theorem Conforms.ended (h : Conforms S P c) (hi : ∀ r, ¬ (c.tasks i).Ended r) {r : Except H.Err α}
    (hr : ((c.step i).tasks i).Ended r) : P i ((c.step i).tasks i).last r (c.step i).store := by
  have hf := h.follows hi
  rw [Task.Ended] at hr
  rwa [hr] at hf

/-- A step that the other tasks rely on keeps the judgement. -/
theorem Conforms.step (h : Conforms S P c)
    (hrely : ∀ j, j ≠ i → (S j).rely c.store (c.step i).store) : Conforms S P (c.step i) := by
  intro j
  by_cases hij : j = i
  · subst hij
    intro hj
    by_cases hc : ∃ r, (c.tasks j).Ended r
    · obtain ⟨r, hr⟩ := hc
      exact absurd (step_ended hr j ▸ hr) (hj r)
    · have hi : ∀ r, ¬ (c.tasks j).Ended r := not_exists.mp hc
      have hf := h.follows hi
      rcases Loop.step_cases c j with hs | ⟨f, k, hp, hs⟩ | ⟨q, k, hp, hs⟩
      · rw [hs]
        exact h j hi
      · -- a settled program has ended or awaits
        cases hq : ((c.step j).tasks j).prog with
        | done r => exact absurd hq (hj r)
        | await q k =>
          rw [hq] at hf
          exact hf.2
        | sync f' k' =>
          rw [hs] at hq
          simp [Async.settle_ne_sync] at hq
      · have hf := h j hi
        rw [hp] at hf
        refine .of_follows fun s' hs' => ?_
        have := (hf c.store (refl_of _ _)).2 s'
        rw [hs] at hs' ⊢
        simpa using this hs'
  · rw [step_tasks_ne c hij]
    exact (h j).rely (hrely j hij)

end Loop

end Coop
