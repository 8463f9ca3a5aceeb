import AgentWorx.Verify.Transcripts
import AgentWorx.Verify.Resolutions

/-!
# Marked observations

An observation is marked when a violation has been resolved by a clarification. The marking loop
tells the observations of a turn apart by the two agents only, which all of them name, and nothing
takes a mark back. `marks_match_iff` says when the marks are right nevertheless.
-/

namespace AgentWorx

open Coop Coop.Sync

/-! ## Marks -/

/-- Every violation of the turn has its observation, and this is marked just if the violation has
been clarified. -/
def SimulationSession.MarksTurn (session : SimulationSession) (turn : SimulationTurnResult) :
    Prop :=
  ∀ (i : Nat) violation, turn.violations[i]? = some violation →
    ∃ observation, (session.turnObservations turn)[i]? = some observation ∧
      (observation.coordEdgeWritten = true ↔ violation.resolution = .clarifyContract)

def SimulationSession.Marked (session : SimulationSession) : Prop :=
  ∀ turn ∈ session.turnHistory, session.MarksTurn turn

/-- The resolution leaves the marks wrong: a clarification marks the observations of all violations
of the turn, also of those that are not clarified, and `mark_edge_case` leaves the mark of a
clarified violation. -/
def Mismarks (lastTurn : SimulationTurnResult) (index : Nat) (violation : ContractViolation)
    (resolution : String) : Prop :=
  if Resolution.ofText resolution = .clarifyContract then
    ∃ other ∈ lastTurn.violations.eraseIdx index, other.resolution ≠ .clarifyContract
  else violation.resolution = .clarifyContract

instance (lastTurn : SimulationTurnResult) (index : Nat) (violation : ContractViolation)
    (resolution : String) : Decidable (Mismarks lastTurn index violation resolution) :=
  inferInstanceAs (Decidable (if Resolution.ofText resolution = .clarifyContract then
    ∃ other ∈ lastTurn.violations.eraseIdx index, other.resolution ≠ .clarifyContract
    else violation.resolution = .clarifyContract))

variable {session session' : SimulationSession} {turn lastTurn : SimulationTurnResult}
  {agents agents' updatedAgents : List AgentContract} {violation : ContractViolation}
  {resolution toAgent : String} {clarification : Option String} {coordEdgeWritten : Bool}
  {index : Nat}

/-! ## The marking loop -/

/-- The loop does not reach the observations of another turn. -/
theorem turnObservations_other
    (hobjects : session'.objects = markObservations violation lastTurn.observations session.objects)
    (hother : ∀ ref ∈ turn.observations, ref ∉ lastTurn.observations) :
    session'.turnObservations turn = session.turnObservations turn := by
  refine List.filterMap_congr fun ref href => ?_
  rw [hobjects, markObservations, List.getElem?_mapIdx]
  cases session.objects[ref]? with
  | none => rfl
  | some observation => simp [hother ref href]

/-- It marks all observations of its turn that name the two agents as those of a violation. -/
theorem turnObservations_same
    (hobjects : session'.objects = markObservations violation lastTurn.observations session.objects)
    (hconcerns : ∀ o ∈ session.turnObservations lastTurn, o.Concerns violation) :
    session'.turnObservations lastTurn =
      (session.turnObservations lastTurn).map fun o => { o with coordEdgeWritten := true } := by
  rw [SimulationSession.turnObservations, SimulationSession.turnObservations, List.map_filterMap]
  refine List.filterMap_congr fun ref href => ?_
  rw [hobjects, markObservations, List.getElem?_mapIdx]
  cases hfind : session.objects[ref]? with
  | none => rfl
  | some observation =>
    have hmem : observation ∈ session.turnObservations lastTurn :=
      List.mem_filterMap.mpr ⟨ref, href, hfind⟩
    simp [href, hconcerns observation hmem]

/-- All observations of a turn with violations are those that the loop looks for. -/
theorem SimulationSession.Records.concerns (h : session.Records turn toAgent)
    (hviolation : violation ∈ turn.violations) :
    ∀ o ∈ session.turnObservations turn, o.Concerns violation := by
  intro o ho
  obtain ⟨hroles, htype⟩ := h.mem ho
  obtain ⟨hfrom, hto⟩ := h.violations violation hviolation
  have hnil : turn.violations ≠ [] := List.ne_nil_of_mem hviolation
  exact ⟨htype.trans (if_neg hnil), by simp [hroles, hfrom], by simp [hroles, hto]⟩

/-- No observation belongs to two turns. -/
theorem SimulationSession.Transcribed.refs_disjoint (h : session.Transcribed)
    (hlast : session.turnHistory.getLast? = some lastTurn)
    (hturn : turn ∈ session.turnHistory.dropLast) :
    ∀ ref ∈ turn.observations, ref ∉ lastTurn.observations := by
  intro ref href hlastref
  have hnodup : (session.turnHistory.flatMap (·.observations)).Nodup :=
    h.refs ▸ List.nodup_range
  rw [← List.dropLast_append_getLast? lastTurn hlast, List.flatMap_append, List.nodup_append]
    at hnodup
  exact hnodup.2.2 ref (List.mem_flatMap.mpr ⟨turn, hturn, href⟩) ref (by simpa using hlastref) rfl

/-! ## Transitions of a session -/

theorem marked_new (id agentType : String) (compositionVersion : Int) (createdAt : Datetime) :
    (newSession id agentType compositionVersion createdAt).Marked := by
  intro turn hturn
  cases hturn

/-- The objects of a session count for the marks of a turn, and its violations. -/
theorem SimulationSession.MarksTurn.congr (h : session.MarksTurn turn)
    (hobservations : session'.turnObservations turn = session.turnObservations turn) :
    session'.MarksTurn turn := by
  intro i violation hviolation
  rw [hobservations]
  exact h i violation hviolation

/-- A new turn has no marks, and no clarified violations. -/
theorem SimulationSession.Marked.addTurn (h : session.Marked) (ht : session.Transcribed)
    (agents : List AgentContract) (turnInput : SimulationTurnInput) (toAgent : String)
    (messageFields : List String) :
    (session.addTurn (newTurn session agents turnInput toAgent messageFields).1
      (newTurn session agents turnInput toAgent messageFields).2).Marked := by
  intro turn hturn
  rcases List.mem_append.mp hturn with hold | hnew
  · refine (h turn hold).congr (List.filterMap_congr fun ref href => ?_)
    exact List.getElem?_append_left (ht.ref_lt hold href)
  · obtain rfl := List.mem_singleton.mp hnew
    intro i violation hviolation
    have hpending := validateMessage_pending (List.mem_of_getElem? hviolation)
    have hnil : (newTurn session agents turnInput toAgent messageFields).1.violations ≠ [] :=
      List.ne_nil_of_mem (List.mem_of_getElem? hviolation)
    have hobservations : (newTurn session agents turnInput toAgent messageFields).2 =
        (newTurn session agents turnInput toAgent messageFields).1.violations.map _ := if_neg hnil
    rw [turnObservations_new, hobservations]
    refine ⟨_, List.getElem?_map.trans (congrArg _ hviolation), ?_⟩
    simp [hpending]

theorem forall_mem_modify {α : Type} {xs : List α} {x : α} {i : Nat} {f : α → α} {p : α → Prop}
    (hx : xs[i]? = some x) :
    (∀ y ∈ xs.modify i f, p y) ↔ (∀ y ∈ xs.eraseIdx i, p y) ∧ p (f x) := by
  obtain ⟨hlt, rfl⟩ := List.getElem?_eq_some_iff.mp hx
  rw [List.modify_eq_take_cons_drop hlt, List.eraseIdx_eq_take_drop_succ, List.forall_mem_append,
    List.forall_mem_append, List.forall_mem_cons]
  tauto

/-- After a resolution the marks are right if those of the last turn are. -/
theorem SimulationSession.Marked.replaceLast (h : session.Marked)
    (hhistory : session'.turnHistory = session.turnHistory.dropLast ++ [turn])
    (hothers : ∀ t ∈ session.turnHistory.dropLast,
      session'.turnObservations t = session.turnObservations t) :
    session'.Marked ↔ session'.MarksTurn turn := by
  constructor
  · exact fun hmarked => hmarked turn (by simp [hhistory])
  · intro hturn t ht
    rw [hhistory, List.mem_append, List.mem_singleton] at ht
    rcases ht with hold | rfl
    · exact (h t (List.dropLast_subset _ hold)).congr (hothers t hold)
    · exact hturn

/-- Where all observations of a turn are marked, all violations have to be clarified. -/
theorem SimulationSession.marksTurn_of_marked
    (hmarked : ∀ o ∈ session.turnObservations turn, o.coordEdgeWritten = true)
    (hlength : turn.violations.length ≤ (session.turnObservations turn).length) :
    session.MarksTurn turn ↔ ∀ v ∈ turn.violations, v.resolution = .clarifyContract := by
  constructor
  · intro h v hv
    obtain ⟨i, hi⟩ := List.mem_iff_getElem?.mp hv
    obtain ⟨o, ho, hmark⟩ := h i v hi
    exact hmark.mp (hmarked o (List.mem_of_getElem? ho))
  · intro hall i v hi
    obtain ⟨hlt, -⟩ := List.getElem?_eq_some_iff.mp hi
    have ho := List.getElem?_eq_getElem (hlt.trans_le hlength)
    exact ⟨_, ho, iff_of_true (hmarked _ (List.mem_of_getElem? ho))
      (hall v (List.mem_of_getElem? hi))⟩

/-- A clarification leaves the marks right just if the other violations have been clarified. -/
theorem SimulationSession.Marked.clarify_iff (h : session.Marked) (ht : session.Transcribed)
    (hlast : session.turnHistory.getLast? = some lastTurn)
    (hviolation : lastTurn.violations[index]? = some violation)
    (hhistory : session'.turnHistory =
      session.turnHistory.dropLast ++ [lastTurn.resolveAt index .clarifyContract])
    (hobjects : session'.objects =
      markObservations violation lastTurn.observations session.objects) :
    session'.Marked ↔
      ∀ other ∈ lastTurn.violations.eraseIdx index, other.resolution = .clarifyContract := by
  obtain ⟨toAgent, hrecords⟩ := ht.records lastTurn (List.mem_of_getLast? hlast)
  have hsame := turnObservations_same hobjects
    (hrecords.concerns (List.mem_of_getElem? hviolation))
  change session'.turnObservations (lastTurn.resolveAt index .clarifyContract) = _ at hsame
  rw [h.replaceLast hhistory fun t htold => turnObservations_other hobjects
    (ht.refs_disjoint hlast htold), SimulationSession.marksTurn_of_marked]
  · exact (forall_mem_modify hviolation).trans (and_iff_left rfl)
  · intro o ho
    rw [hsame] at ho
    obtain ⟨old, -, rfl⟩ := List.mem_map.mp ho
    rfl
  · rw [hsame, List.length_map, hrecords.length]
    simp [SimulationTurnResult.resolveAt]

/-- Any other resolution leaves the marks right just if the violation has not been clarified. -/
theorem SimulationSession.Marked.edgeCase_iff (h : session.Marked)
    (hlast : session.turnHistory.getLast? = some lastTurn)
    (hviolation : lastTurn.violations[index]? = some violation) {resolution : Resolution}
    (hresolution : resolution ≠ .clarifyContract)
    (hhistory : session'.turnHistory =
      session.turnHistory.dropLast ++ [lastTurn.resolveAt index resolution])
    (hobjects : session'.objects = session.objects) :
    session'.Marked ↔ violation.resolution ≠ .clarifyContract := by
  have hsame (t : SimulationTurnResult) :
      session'.turnObservations t = session.turnObservations t := by
    rw [SimulationSession.turnObservations, hobjects]
    rfl
  have hmarks := h lastTurn (List.mem_of_getLast? hlast)
  obtain ⟨o, ho, hmark⟩ := hmarks index violation hviolation
  have hresolved (i : Nat) : (lastTurn.resolveAt index resolution).violations[i]? = if index = i
      then some { violation with resolution } else lastTurn.violations[i]? := by
    rw [SimulationTurnResult.resolveAt, List.getElem?_modify]
    split_ifs with hi
    · rw [← hi, hviolation]
      rfl
    · exact Option.map_id'
  rw [h.replaceLast hhistory fun t _ => hsame t]
  have hobservations : session'.turnObservations (lastTurn.resolveAt index resolution) =
      session.turnObservations lastTurn := hsame lastTurn
  constructor
  · intro hturn hclarified
    obtain ⟨o', ho', hmark'⟩ := hturn index _ ((hresolved index).trans (if_pos rfl))
    rw [hobservations, ho, Option.some.injEq] at ho'
    subst ho'
    exact hresolution (hmark'.mp (hmark.mpr hclarified))
  · intro hno i v hv
    rw [hobservations]
    rw [hresolved] at hv
    split_ifs at hv with hi
    · subst hi
      cases hv
      exact ⟨o, ho, iff_of_false (fun hm => hno (hmark.mp hm)) hresolution⟩
    · exact hmarks i v hv

/-- A resolution that is accepted keeps the marks right exactly when it does not leave them wrong.
-/
theorem SimulationSession.Marked.resolve_iff (h : session.Marked) (ht : session.Transcribed)
    (hlast : session.turnHistory.getLast? = some lastTurn)
    (hviolation : lastTurn.violations[index]? = some violation)
    (happly : applyResolution violation resolution clarification agents =
      .ok (updatedAgents, coordEdgeWritten)) :
    (session.resolve lastTurn index violation resolution clarification coordEdgeWritten).Marked ↔
      ¬ Mismarks lastTurn index violation resolution := by
  have hwritten := applyResolution_written happly
  unfold Mismarks
  cases coordEdgeWritten with
  | true =>
    have hclarify := hwritten.mp rfl
    rw [if_pos hclarify, h.clarify_iff ht hlast hviolation (by rw [← hclarify]; rfl) rfl]
    simp
  | false =>
    have hother : Resolution.ofText resolution ≠ .clarifyContract := by simp [← hwritten]
    rw [if_neg hother]
    exact h.edgeCase_iff hlast hviolation hother rfl rfl

/-- Turns and closing keep the marks right. -/
theorem SessionStep.marked {request : Request}
    (hstep : SessionStep request (session, agents) (session', agents'))
    (hrequest : ∀ sessionId violationIndex resolution clarification,
      request ≠ .resolve sessionId violationIndex resolution clarification)
    (h : session.Marked) (ht : session.Transcribed) : session'.Marked := by
  cases hstep with
  | turn => exact h.addTurn ht _ _ _ _
  | resolve => exact absurd rfl (hrequest _ _ _ _)
  | close => exact fun turn hturn => (h turn hturn).congr rfl

/-! ## Every reachable session -/

/-- An observation keeps its mark when its violation stays as it is. -/
def MarksKept (session session' : SimulationSession) : Prop :=
  ∀ (t : Nat) turn turn', session.turnHistory[t]? = some turn →
    session'.turnHistory[t]? = some turn' → ∀ (i : Nat) violation observation observation',
      turn.violations[i]? = some violation → turn'.violations[i]? = some violation →
      (session.turnObservations turn)[i]? = some observation →
      (session'.turnObservations turn')[i]? = some observation' →
      observation'.coordEdgeWritten = observation.coordEdgeWritten

theorem SimulationSession.Marked.kept (h : session.Marked) (h' : session'.Marked) :
    MarksKept session session' := by
  intro t turn turn' hturn hturn' i violation o o' hviolation hviolation' ho ho'
  obtain ⟨old, hold, hmark⟩ := h turn (List.mem_of_getElem? hturn) i violation hviolation
  obtain ⟨new, hnew, hmark'⟩ := h' turn' (List.mem_of_getElem? hturn') i violation hviolation'
  rw [ho, Option.some.injEq] at hold
  rw [ho', Option.some.injEq] at hnew
  rw [Bool.eq_iff_iff, hold, hnew, hmark, hmark']

variable {ι : Type} [DecidableEq ι] {w : World}

/-- The call of task `i` does not resolve a violation in a way that leaves the marks wrong. -/
def RespectsMarks (requests : ι → Request) (c : Loop host ι Response) (i : ι) : Prop :=
  (c.tasks i).inSegment → ¬ ResolvesWhere (fun _ => Mismarks) c.store (requests i)

instance (requests : ι → Request) (c : Loop host ι Response) (i : ι) :
    Decidable (RespectsMarks requests c i) :=
  inferInstanceAs (Decidable ((c.tasks i).inSegment →
    ¬ ResolvesWhere (fun _ => Mismarks) c.store (requests i)))

/-- Every step keeps the marks right exactly when it does not leave them wrong. -/
theorem Serves.marked_iff {requests : ι → Request} {c : Loop host ι Response}
    (hserves : Serves requests c) (honce : ResolvesAtOnce requests c)
    (h : EverySession (fun s => s.Transcribed ∧ s.Marked) c.store) (i : ι) :
    EverySession (fun s => s.Transcribed ∧ s.Marked) (c.step i).store ↔
      RespectsMarks requests c i := by
  refine hserves.everySession_iff honce h i
    (fun _ _ _ _ => ⟨transcribed_new _ _ _ _, marked_new _ _ _ _⟩)
    (fun _ _ _ _ _ hother hstep ⟨ht, hm⟩ => ⟨hstep.transcribed ht, hstep.marked hother hm ht⟩) ?_
  intro session agents lastTurn index violation resolution clarification updatedAgents
    coordEdgeWritten ⟨ht, hm⟩ hlast hviolation happly
  have htranscribed := ht.resolve hlast index violation resolution clarification coordEdgeWritten
  exact (and_iff_right htranscribed).trans (hm.resolve_iff ht hlast hviolation happly)

/-- In a process that has just started, in every state that the requests reach, in whatever order
they are made, each violation of a session has an observation that is marked just if the violation
has been clarified, and no step marks the observation of a violation that it does not resolve,
exactly when no clarification is accepted while another violation of the turn is not clarified, and
no clarified violation is marked as an edge case. -/
theorem marks_match_iff (w : World) (hw : ∀ sessionId, w.sessions sessionId = none)
    (requests : ι → Request) (sched : List ι) :
    ((∀ pre, pre <+: sched → ∀ sessionId session,
        ((serving w requests).run pre).store.sessions sessionId = some session → session.Marked) ∧
      ∀ pre i, pre ++ [i] <+: sched → ∀ sessionId session session',
        ((serving w requests).run pre).store.sessions sessionId = some session →
        ((serving w requests).run (pre ++ [i])).store.sessions sessionId = some session' →
          MarksKept session session') ↔
      Loop.Meets (RespectsMarks requests) (serving w requests) sched := by
  have hstart : EverySession (fun s => s.Transcribed ∧ s.Marked) w := by
    intro sessionId session hs
    rw [hw] at hs
    cases hs
  rw [← Loop.meets_iff_throughout
    (I := fun c => EverySession (fun s => s.Transcribed ∧ s.Marked) c.store)
    (J := fun c => Serves requests c ∧ ResolvesAtOnce requests c)
    (fun c i hc => ⟨hc.1.step i, hc.2.step i⟩)
    (fun c i hc hmarked => hc.1.marked_iff hc.2 hmarked i)
    ⟨serves_serving w requests, fun _ _ _ _ _ _ => .inl rfl⟩ hstart]
  constructor
  · intro h pre hpre sessionId session hs
    exact ⟨transcribed_run hw requests pre sessionId session hs, h.1 pre hpre sessionId session hs⟩
  · intro h
    refine ⟨fun pre hpre sessionId session hs => (h pre hpre sessionId session hs).2, ?_⟩
    intro pre i hpre sessionId session session' hs hs'
    have hbefore := h pre ((List.prefix_append pre [i]).trans hpre) sessionId session hs
    exact hbefore.2.kept (h (pre ++ [i]) hpre sessionId session' hs').2

/-- A message with these fields, which its receiver does not declare, and one clarification. -/
def clarifyFirst (fields : List String) : Fin 3 → Request
  | 0 => .createSession "shop"
  | 1 => .turn Sample.sessionId Sample.order "cook" fields
  | 2 => .resolve Sample.sessionId 0 "clarify_contract" (some "int")

theorem marks_match_iff_clarified : ∃ session,
    ((serving (Sample.withTeam .approved) (clarifyFirst ["table"])).run
      [0, 0, 1, 2]).store.sessions Sample.sessionId = some session ∧
    session.objects.map (·.coordEdgeWritten) = [true] ∧ session.Marked :=
  ⟨_, rfl, by decide +kernel, ((marks_match_iff (Sample.withTeam .approved) (fun _ => rfl)
    (clarifyFirst ["table"]) [0, 0, 1, 2]).mpr (by decide +kernel)).1 [0, 0, 1, 2]
    (List.prefix_refl _) Sample.sessionId _ rfl⟩

/-- The clarification of one violation marks the observation of the other. -/
theorem marks_pending :
    ¬ ∀ fields sched sessionId session,
      ((serving (Sample.withTeam .approved) (clarifyFirst fields)).run sched).store.sessions
        sessionId = some session → session.Marked := by
  intro h
  have hsession : (((serving (Sample.withTeam .approved) (clarifyFirst ["table", "guests"])).run
      [0, 0, 1, 2]).store.sessions Sample.sessionId).map (fun s => s.turnHistory.map fun t =>
        (t.violations.map (·.resolution), (s.turnObservations t).map (·.coordEdgeWritten))) =
      some [([.clarifyContract, .pending], [true, true])] := by
    decide +kernel
  obtain ⟨session, hs, hturns⟩ := Option.map_eq_some_iff.mp hsession
  obtain ⟨turn, hhistory, hturn⟩ := List.map_eq_singleton_iff.mp hturns
  obtain ⟨hviolations, hmarks⟩ := Prod.mk.inj hturn
  have hmarked := h ["table", "guests"] [0, 0, 1, 2] Sample.sessionId session hs turn
    (by simp [hhistory])
  obtain ⟨violation, hviolation, hpending⟩ : ∃ violation, turn.violations[1]? = some violation ∧
      violation.resolution = .pending := by
    rw [← Option.map_eq_some_iff, ← List.getElem?_map, hviolations]
    rfl
  obtain ⟨observation, hobservation, hmark⟩ := hmarked 1 violation hviolation
  have hset : observation.coordEdgeWritten = true := by
    have hsecond := congrArg (fun marks => marks[1]?) hmarks
    rw [List.getElem?_map, hobservation] at hsecond
    exact Option.some.inj hsecond
  rw [hmark, hpending] at hset
  cases hset

end AgentWorx
