import Mathlib.Order.Defs.Unbundled

/-!
# Synchronous calls over a shared state

A call that never gives up control is a function of the state it starts in: it changes the state
and then returns a value or raises. What it changed before it raised stays changed, so the monad is
`ExceptT` over `StateM` and not the other way round.

`Sync.Keeps R m` is the frame judgement of such calls: from every state, `m` ends in a state related
to it by `R`, however it ends. For a preorder `R` the judgement is closed under everything a call is
built from, so a frame condition of a long call is read off its statements.
-/

namespace Coop

/-- A call that runs to its end without giving up control. -/
abbrev Sync (σ ε α : Type) := ExceptT ε (StateM σ) α

namespace Sync

variable {σ ε α β γ : Type}

/-- The outcome of the call from state `s`, and the state it leaves. -/
def exec (m : Sync σ ε α) (s : σ) : Except ε α × σ := m s

@[simp] theorem exec_pure (a : α) (s : σ) : exec (pure a : Sync σ ε α) s = (.ok a, s) := rfl

@[simp] theorem exec_throw (e : ε) (s : σ) :
    exec (throw e : Sync σ ε α) s = (.error e, s) := rfl

theorem exec_bind (m : Sync σ ε α) (f : α → Sync σ ε β) (s : σ) :
    exec (m >>= f) s = match exec m s with
      | (.ok a, s') => exec (f a) s'
      | (.error e, s') => (.error e, s') := by
  show (match exec m s with
    | (r, s') => ExceptT.bindCont f r s') = _
  rcases exec m s with ⟨_ | _, _⟩ <;> rfl

theorem exec_bind_ok {m : Sync σ ε α} {f : α → Sync σ ε β} {s s' : σ} {a : α}
    (h : exec m s = (.ok a, s')) : exec (m >>= f) s = exec (f a) s' := by
  rw [exec_bind, h]

theorem exec_bind_error {m : Sync σ ε α} {f : α → Sync σ ε β} {s s' : σ} {e : ε}
    (h : exec m s = (.error e, s')) : exec (m >>= f) s = (.error e, s') := by
  rw [exec_bind, h]

/-- A sequence returns a value only if its first call does. -/
theorem exec_bind_returns {m : Sync σ ε α} {f : α → Sync σ ε β} {s : σ} {b : β}
    (h : (exec (m >>= f) s).1 = .ok b) :
    ∃ a s', exec m s = (.ok a, s') ∧ exec (m >>= f) s = exec (f a) s' := by
  rw [exec_bind] at h ⊢
  rcases hx : exec m s with ⟨_ | a, s'⟩ <;> rw [hx] at h
  · cases h
  · exact ⟨a, s', rfl, rfl⟩

theorem ok_of_isSome {x : Except ε α × σ} (h : x.1.toOption.isSome = true) :
    ∃ a, x = (.ok a, x.2) := by
  rcases x with ⟨e | a, s⟩
  · cases h
  · exact ⟨a, rfl⟩

theorem exec_of_isSome {m : Sync σ ε α} {s : σ} (h : (exec m s).1.toOption.isSome = true) :
    ∃ a, exec m s = (.ok a, (exec m s).2) := ok_of_isSome h

@[simp] theorem exec_pure_bind (a : α) (f : α → Sync σ ε β) (s : σ) :
    exec (pure a >>= f) s = exec (f a) s := rfl

@[simp] theorem exec_throw_bind (e : ε) (f : α → Sync σ ε β) (s : σ) :
    exec (throw e >>= f) s = (.error e, s) := rfl

theorem exec_map (f : α → β) (m : Sync σ ε α) (s : σ) :
    exec (f <$> m) s = ((exec m s).1.map f, (exec m s).2) := by
  show (match exec m s with
    | (r, s') => (match r with
      | .ok a => pure (.ok (f a))
      | .error e => pure (.error e) : StateM σ (Except ε β)) s') = _
  rcases exec m s with ⟨_ | _, _⟩ <;> rfl

theorem exec_tryCatch (m : Sync σ ε α) (h : ε → Sync σ ε α) (s : σ) :
    exec (tryCatch m h) s = match exec m s with
      | (.ok a, s') => (.ok a, s')
      | (.error e, s') => exec (h e) s' := by
  show (match exec m s with
    | (r, s') => (match r with
      | .ok a => pure (.ok a)
      | .error e => h e : StateM σ (Except ε α)) s') = _
  rcases exec m s with ⟨_ | _, _⟩ <;> rfl

@[simp] theorem exec_get (s : σ) : exec (get : Sync σ ε σ) s = (.ok s, s) := rfl

@[simp] theorem exec_get_bind (f : σ → Sync σ ε β) (s : σ) :
    exec (get >>= f) s = exec (f s) s := rfl

@[simp] theorem exec_set (s' s : σ) : exec (set s' : Sync σ ε PUnit) s = (.ok ⟨⟩, s') := rfl

@[simp] theorem exec_set_bind (s' : σ) (f : PUnit → Sync σ ε β) (s : σ) :
    exec (set s' >>= f) s = exec (f ⟨⟩) s' := rfl

@[simp] theorem exec_modify (g : σ → σ) (s : σ) :
    exec (modify g : Sync σ ε PUnit) s = (.ok ⟨⟩, g s) := rfl

@[simp] theorem exec_modify_bind (g : σ → σ) (f : PUnit → Sync σ ε β) (s : σ) :
    exec (modify g >>= f) s = exec (f ⟨⟩) (g s) := rfl

/-- A chain of fallible steps succeeds if each of them does. -/
theorem except_bind_eq_ok {x : Except ε α} {f : α → Except ε β} {b : β} :
    (x >>= f) = .ok b ↔ ∃ a, x = .ok a ∧ f a = .ok b := by
  cases x with
  | error e => simp [bind, Except.bind]
  | ok a => simp [bind, Except.bind]

theorem except_bind_eq_error {x : Except ε α} {f : α → Except ε β} {e : ε} :
    (x >>= f) = .error e ↔ x = .error e ∨ ∃ a, x = .ok a ∧ f a = .error e := by
  cases x with
  | error e => simp [bind, Except.bind]
  | ok a => simp [bind, Except.bind]

/-! ## Frame conditions -/

/-- The states related by `Same f` agree on what `f` reads. -/
def Same (f : σ → β) : σ → σ → Prop := fun s s' => f s' = f s

instance (f : σ → β) : IsPreorder σ (Same f) where
  refl _ := rfl
  trans _ _ _ h1 h2 := Eq.trans h2 h1

/-- The states related by `Preserves P` are those of a step that does not falsify `P`. -/
def Preserves (P : σ → Prop) : σ → σ → Prop := fun s s' => P s → P s'

instance (P : σ → Prop) : IsPreorder σ (Preserves P) where
  refl _ := id
  trans _ _ _ h1 h2 := h2 ∘ h1

/-- However `m` ends, the state it leaves is related by `R` to the one it started in. -/
def Keeps (R : σ → σ → Prop) (m : Sync σ ε α) : Prop := ∀ s, R s (exec m s).2

namespace Keeps

variable {R : σ → σ → Prop}

theorem map {m : Sync σ ε α} (hm : Keeps R m) (f : α → β) : Keeps R (f <$> m) := by
  intro s
  rw [exec_map]
  exact hm s

variable [IsPreorder σ R]

theorem pure (a : α) : Keeps R (pure a : Sync σ ε α) := fun s => refl_of R s

theorem throw (e : ε) : Keeps R (throw e : Sync σ ε α) := fun s => refl_of R s

theorem get : Keeps R (get : Sync σ ε σ) := fun s => refl_of R s

theorem bind {m : Sync σ ε α} {f : α → Sync σ ε β} (hm : Keeps R m)
    (hf : ∀ a, Keeps R (f a)) : Keeps R (m >>= f) := by
  intro s
  have h := hm s
  rw [exec_bind]
  rcases hx : exec m s with ⟨_ | a, s'⟩ <;> rw [hx] at h
  · exact h
  · exact trans_of R h (hf a s')

theorem tryCatch {m : Sync σ ε α} {h : ε → Sync σ ε α} (hm : Keeps R m)
    (hh : ∀ e, Keeps R (h e)) : Keeps R (tryCatch m h) := by
  intro s
  have hs := hm s
  rw [exec_tryCatch]
  rcases hx : exec m s with ⟨e | _, s'⟩ <;> rw [hx] at hs
  · exact trans_of R hs (hh e s')
  · exact hs

theorem forM {f : α → Sync σ ε PUnit} {xs : List α} (hf : ∀ a ∈ xs, Keeps R (f a)) :
    Keeps R (xs.forM f) := by
  induction xs with
  | nil => exact pure _
  | cons x xs ih =>
    exact bind (hf x List.mem_cons_self) fun _ => ih fun a h => hf a (List.mem_cons_of_mem x h)

theorem and {P P' : σ → Prop} {m : Sync σ ε α} (h : Keeps (Preserves P) m)
    (h' : Keeps (Preserves P') m) : Keeps (Preserves fun s => P s ∧ P' s) m :=
  fun s hs => ⟨h s hs.1, h' s hs.2⟩

end Keeps

/-! ## Returned values -/

/-- Every value that `m` returns satisfies `Q`. -/
def Yields (Q : α → Prop) (m : Sync σ ε α) : Prop := ∀ s a, (exec m s).1 = .ok a → Q a

namespace Yields

theorem pure {Q : α → Prop} {a : α} (h : Q a) : Yields Q (pure a : Sync σ ε α) := by
  intro s b hb
  cases hb
  exact h

theorem bind {P : α → Prop} {Q : β → Prop} {m : Sync σ ε α} {f : α → Sync σ ε β}
    (hm : Yields P m) (hf : ∀ a, P a → Yields Q (f a)) : Yields Q (m >>= f) := by
  intro s b hb
  rw [exec_bind] at hb
  rcases hx : exec m s with ⟨_ | a, s'⟩ <;> rw [hx] at hb
  · cases hb
  · exact hf a (hm s a (by rw [hx])) s' b hb

/-- The value of `m` does not matter. -/
theorem bind' {Q : β → Prop} {m : Sync σ ε α} {f : α → Sync σ ε β} (hf : ∀ a, Yields Q (f a)) :
    Yields Q (m >>= f) :=
  bind (P := fun _ => True) (fun _ _ _ => trivial) fun a _ => hf a

end Yields

/-! ## Triples -/

/-- From the state `s`, `m` returns a value and a state that satisfy `Q`, or raises with an error
and a state that satisfy `E`. -/
def Triple (m : Sync σ ε α) (s : σ) (Q : α → σ → Prop) (E : ε → σ → Prop) : Prop :=
  match exec m s with
  | (.ok a, s') => Q a s'
  | (.error e, s') => E e s'

namespace Triple

variable {Q : α → σ → Prop} {E : ε → σ → Prop} {s : σ}

theorem of_ok {m : Sync σ ε α} {a : α} {s' : σ} (h : Triple m s Q E)
    (hm : exec m s = (.ok a, s')) : Q a s' := by
  unfold Triple at h
  rwa [hm] at h

theorem of_error {m : Sync σ ε α} {e : ε} {s' : σ} (h : Triple m s Q E)
    (hm : exec m s = (.error e, s')) : E e s' := by
  unfold Triple at h
  rwa [hm] at h

theorem pure {a : α} (h : Q a s) : Triple (pure a : Sync σ ε α) s Q E := h

theorem throw {e : ε} (h : E e s) : Triple (throw e : Sync σ ε α) s Q E := h

theorem get {Q : σ → σ → Prop} (h : Q s s) : Triple (get : Sync σ ε σ) s Q E := h

theorem mono {Q' : α → σ → Prop} {E' : ε → σ → Prop} {m : Sync σ ε α} (h : Triple m s Q E)
    (hQ : ∀ a s, Q a s → Q' a s) (hE : ∀ e s, E e s → E' e s) : Triple m s Q' E' := by
  unfold Triple at h ⊢
  rcases hx : exec m s with ⟨e | a, s'⟩ <;> rw [hx] at h
  · exact hE e s' h
  · exact hQ a s' h

theorem bind {M : α → σ → Prop} {Q : β → σ → Prop} {m : Sync σ ε α} {f : α → Sync σ ε β}
    (hm : Triple m s M E) (hf : ∀ a s', M a s' → Triple (f a) s' Q E) :
    Triple (m >>= f) s Q E := by
  unfold Triple at hm ⊢
  rw [exec_bind]
  rcases hx : exec m s with ⟨e | a, s'⟩ <;> rw [hx] at hm
  · exact hm
  · exact hf a s' hm

theorem and {Q' : α → σ → Prop} {E' : ε → σ → Prop} {m : Sync σ ε α} (h : Triple m s Q E)
    (h' : Triple m s Q' E') :
    Triple m s (fun a s => Q a s ∧ Q' a s) fun e s => E e s ∧ E' e s := by
  unfold Triple at h h' ⊢
  rcases hx : exec m s with ⟨e | a, s'⟩ <;> rw [hx] at h h' <;> exact ⟨h, h'⟩

theorem tryCatch {M : ε → σ → Prop} {m : Sync σ ε α} {h : ε → Sync σ ε α}
    (hm : Triple m s Q M) (hh : ∀ e s', M e s' → Triple (h e) s' Q E) :
    Triple (tryCatch m h) s Q E := by
  unfold Triple at hm ⊢
  rw [exec_tryCatch]
  rcases hx : exec m s with ⟨e | a, s'⟩ <;> rw [hx] at hm
  · exact hh e s' hm
  · exact hm

/-- A call whose error is kept as a value. -/
theorem attempt {Q : Option ε → σ → Prop} {m : Sync σ ε PUnit}
    (hm : Triple m s (fun _ => Q none) fun e => Q (some e)) :
    Triple (MonadExcept.tryCatch (do m; return none) fun e => return some e) s Q E :=
  tryCatch (bind hm fun _ _ h => pure h) fun _ _ h => pure h

/-- A loop whose body keeps `I`. -/
theorem forM {I : σ → Prop} {f : α → Sync σ ε PUnit} {xs : List α}
    (hf : ∀ a ∈ xs, ∀ s, I s → Triple (f a) s (fun _ => I) E) (hs : I s) :
    Triple (xs.forM f) s (fun _ => I) E := by
  induction xs generalizing s with
  | nil => exact pure hs
  | cons x xs ih =>
    apply bind (hf x List.mem_cons_self s hs)
    intro _ s' hs'
    exact ih (fun a ha => hf a (List.mem_cons_of_mem x ha)) hs'

/-- A loop that raises has done what it does for a prefix of the list. -/
theorem forM_until {I : List α → σ → Prop} {f : α → Sync σ ε PUnit} {l : List α}
    (hf : ∀ (done : List α) (a : α) s, I done s →
      Triple (f a) s (fun _ => I (done ++ [a])) fun _ => I done) (hs : I [] s) :
    Triple (l.forM f) s (fun _ => I l) fun _ s' => ∃ done, done <+: l ∧ I done s' := by
  have hrest (done : List α) (s : σ) (hs : I done s) : Triple (l.forM f) s
      (fun _ => I (done ++ l)) fun _ s' => ∃ more, more <+: l ∧ I (done ++ more) s' := by
    induction l generalizing done s with
    | nil => exact pure (by simpa using hs)
    | cons x l ih =>
      apply bind ((hf done x s hs).mono (fun _ _ h => h) fun _ _ h =>
        ⟨[], List.nil_prefix, by simpa using h⟩)
      intro _ s' hs'
      apply (ih (done ++ [x]) s' hs').mono
      · intro _ s'' h
        simpa using h
      · rintro _ s'' ⟨more, hmore, h⟩
        exact ⟨x :: more, List.cons_prefix_cons.mpr ⟨rfl, hmore⟩, by simpa using h⟩
  simpa using hrest [] s hs

/-- A call that cannot raise returns. -/
theorem returns {m : Sync σ ε α} (h : Triple m s Q fun _ _ => False) :
    ∃ a s', exec m s = (.ok a, s') ∧ Q a s' := by
  unfold Triple at h
  rcases hx : exec m s with ⟨e | a, s'⟩ <;> rw [hx] at h
  · exact h.elim
  · exact ⟨a, s', rfl, h⟩

theorem ok {m : Sync σ ε α} (h : Triple m s Q E) {a : α} (ha : (exec m s).1 = .ok a) :
    Q a (exec m s).2 := by
  unfold Triple at h
  rcases hx : exec m s with ⟨e | b, s'⟩ <;> rw [hx] at h ha
  · cases ha
  · cases ha
    exact h

theorem error {m : Sync σ ε α} (h : Triple m s Q E) {e : ε} (he : (exec m s).1 = .error e) :
    E e (exec m s).2 := by
  unfold Triple at h
  rcases hx : exec m s with ⟨e' | a, s'⟩ <;> rw [hx] at h he
  · cases he
    exact h
  · cases he

/-- The strongest triple. -/
theorem self (m : Sync σ ε α) (s : σ) :
    Triple m s (fun a s' => exec m s = (.ok a, s')) fun e s' => exec m s = (.error e, s') := by
  unfold Triple
  rcases exec m s with ⟨e | a, s'⟩ <;> rfl

/-- A frame condition as a triple. -/
theorem of_keeps {R : σ → σ → Prop} {m : Sync σ ε α} (h : Keeps R m) (s : σ) :
    Triple m s (fun _ s' => R s s') fun _ s' => R s s' := by
  have hs := h s
  unfold Triple
  rcases hx : exec m s with ⟨e | a, s'⟩ <;> rw [hx] at hs <;> exact hs

/-- What holds however `m` ends. -/
theorem state {P : σ → Prop} {m : Sync σ ε α} (h : Triple m s Q E) (hQ : ∀ a s, Q a s → P s)
    (hE : ∀ e s, E e s → P s) : P (exec m s).2 := by
  unfold Triple at h
  rcases hx : exec m s with ⟨e | a, s'⟩ <;> rw [hx] at h
  · exact hE e s' h
  · exact hQ a s' h

end Triple

end Sync

end Coop
