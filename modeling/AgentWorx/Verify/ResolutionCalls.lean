import AgentWorx.Verify.Resolutions

/-!
# Which resolutions are accepted

`resolve_violation` checks the index only from above and then indexes a Python list, so an index
from the end is accepted as well. For all other requests it is validated before anything changes.
-/

namespace AgentWorx

open Coop Coop.Sync

variable {w w' : World} {sessionId resolution : String} {session : SimulationSession}
  {agents updatedAgents : List AgentContract} {violation : ContractViolation}
  {clarification : Option String} {violationIndex : Int} {index : Nat}

/-! ## Indices and resolutions -/

/-- The violations that `violation_index` counts. -/
def SimulationSession.lastViolations (session : SimulationSession) : List ContractViolation :=
  (session.turnHistory.getLast?.map (·.violations)).getD []

/-- The resolution is `mark_edge_case`, or `clarify_contract` with a text. -/
def Acceptable (resolution : String) (clarification : Option String) : Prop :=
  resolution = "mark_edge_case" ∨
    (resolution = "clarify_contract" ∧ ∃ text ∈ clarification, text ≠ "")

instance (resolution : String) (clarification : Option String) :
    Decidable (Acceptable resolution clarification) :=
  inferInstanceAs (Decidable (_ ∨ (_ ∧ ∃ text ∈ clarification, _)))

theorem applyResolution_isOk (violation : ContractViolation) (agents : List AgentContract) :
    (applyResolution violation resolution clarification agents).isOk ↔
      Acceptable resolution clarification := by
  unfold applyResolution Acceptable
  by_cases hmark : resolution = "mark_edge_case"
  · simp [hmark, Except.isOk, Except.toBool]
  · by_cases hclarify : resolution = "clarify_contract"
    · rw [if_neg hmark, if_neg (not_not.mpr hclarify)]
      split
      · simp [hmark, Except.isOk, Except.toBool]
      · simp [hmark, Except.isOk, Except.toBool]
      · rename_i text htext
        simpa [hclarify, Except.isOk, Except.toBool] using htext
    · rw [if_neg hmark, if_pos hclarify]
      simp [hmark, hclarify, Except.isOk, Except.toBool]

theorem pyIndex_isSome {length : Nat} {i : Int} :
    (∃ index, pyIndex length i = some index) ↔ -length ≤ i ∧ i < length := by
  unfold pyIndex
  split_ifs <;> simp <;> omega

theorem pyIndex_of_nonneg {length : Nat} {i : Int} (hi : 0 ≤ i)
    (h : pyIndex length i = some index) : index = i.toNat := by
  unfold pyIndex at h
  rw [if_pos hi] at h
  split_ifs at h
  exact (Option.some.inj h).symm

theorem pyIndex_lt_length {length : Nat} {i : Int} (h : pyIndex length i = some index) :
    index < length := by
  unfold pyIndex at h
  split_ifs at h <;> rw [Option.some.injEq] at h <;> omega

/-! ## One call -/

/-- A call is accepted just if the index names a violation of the last turn in the way of Python,
and the resolution is acceptable. -/
theorem resolveViolation_accepts (hs : w.sessions sessionId = some session)
    (ha : w.sessionAgents sessionId = some agents) :
    (∃ result, ((resolveViolation sessionId violationIndex resolution clarification).exec w).1 =
      .ok result) ↔
    (-session.lastViolations.length ≤ violationIndex ∧
      violationIndex < session.lastViolations.length) ∧ Acceptable resolution clarification := by
  constructor
  · rintro ⟨result, hok⟩
    rcases resolveViolation_cases sessionId violationIndex resolution clarification w with
      ⟨e, he⟩ | ⟨session', agents', lastTurn, index, violation, updatedAgents, coordEdgeWritten,
        hs', -, hlast, hindex, -, happly, -⟩
    · rw [he] at hok
      cases hok
    · rw [hs, Option.some.injEq] at hs'
      subst hs'
      have hviolations : session.lastViolations = lastTurn.violations := by
        simp [SimulationSession.lastViolations, hlast]
      rw [hviolations]
      refine ⟨pyIndex_isSome.mp ⟨index, hindex⟩, (applyResolution_isOk violation agents').mp ?_⟩
      rw [happly]
      rfl
  · rintro ⟨hrange, hacceptable⟩
    cases hlast : session.turnHistory.getLast? with
    | none =>
      simp only [SimulationSession.lastViolations, hlast, Option.map_none, Option.getD_none,
        List.length_nil] at hrange
      omega
    | some lastTurn =>
      have hviolations : session.lastViolations = lastTurn.violations := by
        simp [SimulationSession.lastViolations, hlast]
      rw [hviolations] at hrange
      obtain ⟨index, hindex⟩ := pyIndex_isSome.mpr hrange
      obtain ⟨violation, hviolation⟩ : ∃ violation, lastTurn.violations[index]? = some violation :=
        ⟨_, List.getElem?_eq_getElem (pyIndex_lt_length hindex)⟩
      have hok := (applyResolution_isOk violation agents).mpr hacceptable
      rw [resolveViolation_some hs ha hlast hindex hviolation]
      cases happly : applyResolution violation resolution clarification agents with
      | error e =>
        rw [happly] at hok
        cases hok
      | ok r => exact ⟨_, rfl⟩

/-- The only violation whose resolution changes is the one at the index in the last turn. -/
structure OnlyResolves (session session' : SimulationSession) (index : Nat)
    (resolution : Resolution) : Prop where
  earlier : session'.turnHistory.dropLast = session.turnHistory.dropLast
  last : session'.lastViolations =
    session.lastViolations.modify index fun v => { v with resolution }

theorem resolve_onlyResolves {lastTurn : SimulationTurnResult}
    (hlast : session.turnHistory.getLast? = some lastTurn) (index : Nat)
    (violation : ContractViolation) (resolution : String) (clarification : Option String)
    (coordEdgeWritten : Bool) :
    OnlyResolves session (session.resolve lastTurn index violation resolution clarification
      coordEdgeWritten) index (Resolution.ofText resolution) := by
  unfold SimulationSession.resolve
  split_ifs <;> exact ⟨by simp, by
    simp [SimulationSession.lastViolations, hlast, SimulationTurnResult.resolveAt]⟩

/-- A call that raises changes nothing. -/
theorem resolveViolation_refuses {e : Exn}
    (h : (resolveViolation sessionId violationIndex resolution clarification).exec w =
      (.error e, w')) : w' = w := by
  rcases resolveViolation_cases sessionId violationIndex resolution clarification w with
    ⟨e', he⟩ | ⟨_, _, _, _, _, _, _, -, -, -, -, -, -, hok⟩
  · rw [he] at h
    exact (Prod.mk.inj h).2.symm
  · rw [hok] at h
    cases h

/-- An accepted call resolves the violation that Python finds at the index, and no other. -/
theorem resolveViolation_resolves {result : ResolveResult}
    (hs : w.sessions sessionId = some session)
    (h : (resolveViolation sessionId violationIndex resolution clarification).exec w =
      (.ok result, w')) :
    ∃ index, pyIndex session.lastViolations.length violationIndex = some index ∧
      (∃ session' ∈ w'.sessions sessionId,
        OnlyResolves session session' index (Resolution.ofText resolution)) ∧
      ∀ id ≠ sessionId, w'.sessions id = w.sessions id := by
  rcases resolveViolation_cases sessionId violationIndex resolution clarification w with
    ⟨e', he⟩ | ⟨session', agents', lastTurn, index, violation, updatedAgents, coordEdgeWritten,
      hs', -, hlast, hindex, -, -, hok⟩
  · rw [he] at h
    cases h
  · rw [hs, Option.some.injEq] at hs'
    subst hs'
    rw [hok, Prod.mk.injEq] at h
    obtain ⟨-, rfl⟩ := h
    refine ⟨index, ?_, ⟨_, Function.update_self .., ?_⟩, fun id hid => ?_⟩
    · simpa [SimulationSession.lastViolations, hlast] using hindex
    · exact resolve_onlyResolves hlast index violation resolution clarification coordEdgeWritten
    · exact Function.update_of_ne hid ..

/-- What a call does, if it validates its request before it changes anything: it is accepted just
for an index in range and an acceptable resolution, an accepted call resolves this violation and no
other, and a call that raises changes nothing. -/
structure Validated (w : World) (sessionId : String) (session : SimulationSession)
    (violationIndex : Int) (resolution : String) (clarification : Option String) : Prop where
  accepts : (∃ result,
    ((resolveViolation sessionId violationIndex resolution clarification).exec w).1 = .ok result) ↔
      (0 ≤ violationIndex ∧ violationIndex < session.lastViolations.length) ∧
        Acceptable resolution clarification
  resolves : ∀ result w',
    (resolveViolation sessionId violationIndex resolution clarification).exec w = (.ok result, w') →
      (∃ session' ∈ w'.sessions sessionId,
        OnlyResolves session session' violationIndex.toNat (Resolution.ofText resolution)) ∧
      ∀ id ≠ sessionId, w'.sessions id = w.sessions id
  refuses : ∀ e w',
    (resolveViolation sessionId violationIndex resolution clarification).exec w = (.error e, w') →
      w' = w

variable {ι : Type} [DecidableEq ι]

/-- In every state that requests reach, a call of `resolve_violation` validates its request exactly
when the index does not count from the end, or is out of range there too, or the resolution is not
acceptable anyway. -/
theorem resolution_validated_iff (w : World) (hw : ∀ sessionId, w.sessions sessionId = none)
    (requests : ι → Request) (sched : List ι) (sessionId : String) (session : SimulationSession)
    (hs : ((serving w requests).run sched).store.sessions sessionId = some session)
    (violationIndex : Int) (resolution : String) (clarification : Option String) :
    Validated ((serving w requests).run sched).store sessionId session violationIndex resolution
        clarification ↔
      0 ≤ violationIndex ∨ violationIndex < -session.lastViolations.length ∨
        ¬ Acceptable resolution clarification := by
  obtain ⟨-, agents, ha⟩ := sessionsSound_run hw requests sched sessionId session hs
  set w0 := ((serving w requests).run sched).store
  have haccepts : (∃ result, ((resolveViolation sessionId violationIndex resolution
      clarification).exec w0).1 = .ok result) ↔ _ := resolveViolation_accepts hs ha
  constructor
  · intro h
    have hsame := haccepts.symm.trans h.accepts
    by_contra hno
    simp only [not_or, not_lt, not_not] at hno
    have hrange : violationIndex < session.lastViolations.length := by omega
    have := hsame.mp ⟨⟨hno.2.1, hrange⟩, hno.2.2⟩
    omega
  · intro hcond
    have hnonneg : (-session.lastViolations.length ≤ violationIndex ∧
        violationIndex < session.lastViolations.length) ∧ Acceptable resolution clarification →
          0 ≤ violationIndex := by
      rintro ⟨hrange, hacceptable⟩
      rcases hcond with hindex | hlow | hno
      · exact hindex
      · omega
      · exact absurd hacceptable hno
    refine ⟨haccepts.trans ?_, fun result w' hok => ?_, fun e w' => resolveViolation_refuses⟩
    · constructor
      · intro h
        exact ⟨⟨hnonneg h, h.1.2⟩, h.2⟩
      · rintro ⟨⟨hlow, hhigh⟩, hacceptable⟩
        exact ⟨⟨by omega, hhigh⟩, hacceptable⟩
    · have hindex := hnonneg (haccepts.mp ⟨result, congrArg Prod.fst hok⟩)
      obtain ⟨index, hpy, hresolves⟩ := resolveViolation_resolves hs hok
      rwa [pyIndex_of_nonneg hindex hpy] at hresolves

theorem resolution_validated_iff_clarified : ∃ session,
    ((serving (Sample.withTeam .approved) (clarifying (.close Sample.sessionId))).run
      [0, 0, 1]).store.sessions Sample.sessionId = some session ∧
    Validated ((serving (Sample.withTeam .approved) (clarifying (.close Sample.sessionId))).run
      [0, 0, 1]).store Sample.sessionId session 0 "clarify_contract" (some "int") :=
  ⟨_, rfl, (resolution_validated_iff (Sample.withTeam .approved) (fun _ => rfl)
    (clarifying (.close Sample.sessionId)) [0, 0, 1] Sample.sessionId _ rfl 0 "clarify_contract"
    (some "int")).mpr (.inl le_rfl)⟩

/-- The index `-1` is out of range, and resolves the last violation. -/
theorem resolution_not_validated :
    ¬ ∀ session violationIndex resolution clarification,
      ((serving (Sample.withTeam .approved) (clarifying (.close Sample.sessionId))).run
        [0, 0, 1]).store.sessions Sample.sessionId = some session →
      Validated ((serving (Sample.withTeam .approved) (clarifying (.close Sample.sessionId))).run
        [0, 0, 1]).store Sample.sessionId session violationIndex resolution clarification := by
  intro h
  have haccepts := (h _ (-1) "mark_edge_case" none rfl).accepts
  obtain ⟨result, hok⟩ := exec_of_isSome
    (m := resolveViolation Sample.sessionId (-1) "mark_edge_case" none)
    (s := ((serving (Sample.withTeam .approved) (clarifying (.close Sample.sessionId))).run
      [0, 0, 1]).store) (by decide +kernel)
  have hrange := haccepts.mp ⟨result, congrArg Prod.fst hok⟩
  omega

end AgentWorx
