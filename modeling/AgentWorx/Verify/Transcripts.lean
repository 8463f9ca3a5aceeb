import AgentWorx.Lib.Upsert
import AgentWorx.Verify.Session

/-!
# What a session records

A turn does not store its receiver: its observations and its violations do. In every reachable
session the observations of a turn are, but for their marks, those that `_observations_for_turn`
makes of its violations, so what closing counts over the observations can be counted over the turns.
-/

namespace AgentWorx

open Coop

/-! ## The observations of a turn -/

/-- The observation but for its mark. -/
def SimulationObservation.unmarked (observation : SimulationObservation) : SimulationObservation :=
  { observation with coordEdgeWritten := false }

theorem markObservations_unmarked (violation : ContractViolation) (refs : List ObservationRef)
    (objects : List SimulationObservation) :
    (markObservations violation refs objects).map (·.unmarked) = objects.map (·.unmarked) := by
  apply List.ext_getElem?
  intro i
  rw [List.getElem?_map, List.getElem?_map, markObservations, List.getElem?_mapIdx]
  cases objects[i]? with
  | none => rfl
  | some observation =>
    simp only [Option.map_some]
    split_ifs <;> rfl

theorem observationsForTurn_unmarked (fromAgent toAgent : String) (turnIndex : Nat)
    (violations : List ContractViolation) :
    (observationsForTurn fromAgent toAgent turnIndex violations).map (·.unmarked) =
      observationsForTurn fromAgent toAgent turnIndex violations := by
  unfold observationsForTurn
  split_ifs
  · rfl
  · rw [List.map_map]
    rfl

/-- The observations of a turn do not depend on how its violations are resolved. -/
theorem observationsForTurn_modify (fromAgent toAgent : String) (turnIndex : Nat)
    (violations : List ContractViolation) (index : Nat) (resolution : Resolution) :
    observationsForTurn fromAgent toAgent turnIndex
        (violations.modify index fun v => { v with resolution }) =
      observationsForTurn fromAgent toAgent turnIndex violations := by
  unfold observationsForTurn
  by_cases hnil : violations = []
  · simp [hnil]
  · have hnil' : violations.modify index (fun v => { v with resolution }) ≠ [] := by
      simpa [← List.length_eq_zero_iff] using hnil
    rw [if_neg hnil, if_neg hnil']
    apply List.ext_getElem?
    intro i
    rw [List.getElem?_map, List.getElem?_map, List.getElem?_modify]
    cases violations[i]? with
    | none => rfl
    | some violation =>
      simp only [Option.map_some]
      split_ifs <;> rfl

theorem length_observationsForTurn (fromAgent toAgent : String) (turnIndex : Nat)
    (violations : List ContractViolation) :
    (observationsForTurn fromAgent toAgent turnIndex violations).length =
      max 1 violations.length := by
  unfold observationsForTurn
  split_ifs with hnil
  · simp [hnil]
  · have hpos := List.length_pos_iff.mpr hnil
    rw [List.length_map]
    omega

theorem filterMap_getElem?_range' {α : Type} (xs ys : List α) :
    (List.range' xs.length ys.length).filterMap (fun i => (xs ++ ys)[i]?) = ys := by
  induction ys generalizing xs with
  | nil => rfl
  | cons y ys ih =>
    have hfirst : (xs ++ y :: ys)[xs.length]? = some y := by simp
    rw [List.length_cons, List.range'_succ, List.filterMap_cons_some hfirst]
    have hrest := ih (xs ++ [y])
    simp only [List.length_append, List.length_singleton, List.append_assoc,
      List.singleton_append] at hrest
    rw [hrest]

/-! ## The record of a session -/

/-- The turn is a message to `toAgent`: its violations and its observations say so. -/
structure SimulationSession.Records (session : SimulationSession) (turn : SimulationTurnResult)
    (toAgent : String) : Prop where
  violations : ∀ violation ∈ turn.violations,
    violation.fromAgent = turn.role ∧ violation.toAgent = toAgent
  observations : (session.turnObservations turn).map (·.unmarked) =
    observationsForTurn turn.role toAgent turn.turnIndex turn.violations

/-- Every turn has a receiver, and the turns share the observation objects out among them. -/
structure SimulationSession.Transcribed (session : SimulationSession) : Prop where
  records : ∀ turn ∈ session.turnHistory, ∃ toAgent, session.Records turn toAgent
  refs : session.turnHistory.flatMap (·.observations) = List.range session.objects.length

variable {session : SimulationSession} {turn : SimulationTurnResult} {toAgent : String}

theorem SimulationSession.turnObservations_unmarked (session : SimulationSession)
    (turn : SimulationTurnResult) : (session.turnObservations turn).map (·.unmarked) =
      turn.observations.filterMap fun ref => (session.objects.map (·.unmarked))[ref]? := by
  rw [turnObservations, List.map_filterMap]
  simp only [List.getElem?_map]

/-- Marks do not count for the record. -/
theorem SimulationSession.Records.congr {session' : SimulationSession}
    (h : session.Records turn toAgent)
    (hobjects : ∀ ref ∈ turn.observations, (session'.objects.map (·.unmarked))[ref]? =
      (session.objects.map (·.unmarked))[ref]?) : session'.Records turn toAgent where
  violations := h.violations
  observations := by
    rw [← h.observations, turnObservations_unmarked, turnObservations_unmarked]
    exact List.filterMap_congr hobjects

theorem SimulationSession.Records.resolveAt {session' : SimulationSession}
    (h : session.Records turn toAgent) (index : Nat) (resolution : Resolution)
    (hobjects : session'.objects.map (·.unmarked) = session.objects.map (·.unmarked)) :
    session'.Records (turn.resolveAt index resolution) toAgent where
  violations violation hviolation := by
    obtain ⟨i, hi⟩ := List.mem_iff_getElem?.mp hviolation
    simp only [SimulationTurnResult.resolveAt, List.getElem?_modify, Option.map_eq_map,
      Option.map_eq_some_iff] at hi
    obtain ⟨old, hold, rfl⟩ := hi
    have hagents := h.violations old (List.mem_of_getElem? hold)
    split_ifs <;> exact hagents
  observations := by
    rw [turnObservations_unmarked, hobjects]
    change _ = observationsForTurn turn.role toAgent turn.turnIndex
      (turn.violations.modify index _)
    rw [observationsForTurn_modify, ← h.observations, turnObservations_unmarked]
    rfl

/-- An object of a turn is there. -/
theorem SimulationSession.Transcribed.ref_lt (h : session.Transcribed)
    (hturn : turn ∈ session.turnHistory) {ref : ObservationRef} (href : ref ∈ turn.observations) :
    ref < session.objects.length := by
  rw [← List.mem_range, ← h.refs]
  exact List.mem_flatMap.mpr ⟨turn, hturn, href⟩

theorem transcribed_new (id agentType : String) (compositionVersion : Int) (createdAt : Datetime) :
    (newSession id agentType compositionVersion createdAt).Transcribed :=
  ⟨fun _ hturn => (by cases hturn), rfl⟩

/-- All violations of a message are between its two agents. -/
theorem validateMessage_agents {messageFields : List String} {fromAgent : String}
    {agents : List AgentContract} {violation : ContractViolation}
    (h : violation ∈ validateMessage messageFields fromAgent toAgent agents) :
    violation.fromAgent = fromAgent ∧ violation.toAgent = toAgent := by
  unfold validateMessage at h
  split at h
  · obtain ⟨field, -, rfl⟩ := List.mem_map.mp h
    exact ⟨rfl, rfl⟩
  · obtain ⟨field, -, hfield⟩ := List.mem_filterMap.mp h
    split_ifs at hfield <;> cases hfield <;> exact ⟨rfl, rfl⟩

theorem turnObservations_new (session : SimulationSession) (agents : List AgentContract)
    (turnInput : SimulationTurnInput) (toAgent : String) (messageFields : List String) :
    (session.addTurn (newTurn session agents turnInput toAgent messageFields).1
      (newTurn session agents turnInput toAgent messageFields).2).turnObservations
        (newTurn session agents turnInput toAgent messageFields).1 =
      (newTurn session agents turnInput toAgent messageFields).2 :=
  filterMap_getElem?_range' ..

/-- The new turn is a message to the agent that the call names. -/
theorem addTurn_records (session : SimulationSession) (agents : List AgentContract)
    (turnInput : SimulationTurnInput) (toAgent : String) (messageFields : List String) :
    (session.addTurn (newTurn session agents turnInput toAgent messageFields).1
      (newTurn session agents turnInput toAgent messageFields).2).Records
        (newTurn session agents turnInput toAgent messageFields).1 toAgent where
  violations _ hviolation := validateMessage_agents hviolation
  observations := by
    rw [turnObservations_new]
    exact observationsForTurn_unmarked ..

/-- The objects that a later turn adds are not those of an earlier one. -/
theorem SimulationSession.Transcribed.records_addTurn (h : session.Transcribed)
    (hturn : turn ∈ session.turnHistory) (hrecords : session.Records turn toAgent)
    (newTurn : SimulationTurnResult) (observations : List SimulationObservation) :
    (session.addTurn newTurn observations).Records turn toAgent := by
  refine hrecords.congr fun ref href => ?_
  have hlt := h.ref_lt hturn href
  simp only [SimulationSession.addTurn, List.map_append]
  rw [List.getElem?_append_left (by simpa using hlt)]

theorem SimulationSession.Transcribed.addTurn (h : session.Transcribed)
    (agents : List AgentContract) (turnInput : SimulationTurnInput) (toAgent : String)
    (messageFields : List String) :
    (session.addTurn (newTurn session agents turnInput toAgent messageFields).1
      (newTurn session agents turnInput toAgent messageFields).2).Transcribed := by
  refine ⟨fun turn hturn => ?_, ?_⟩
  · rcases List.mem_append.mp hturn with hold | hnew
    · obtain ⟨receiver, hrecords⟩ := h.records turn hold
      exact ⟨receiver, h.records_addTurn hold hrecords _ _⟩
    · rw [List.mem_singleton.mp hnew]
      exact ⟨toAgent, addTurn_records ..⟩
  · have hrefs : (session.addTurn (newTurn session agents turnInput toAgent messageFields).1
        (newTurn session agents turnInput toAgent messageFields).2).turnHistory.flatMap
          (·.observations) = List.range session.objects.length ++
        List.range' session.objects.length
          (newTurn session agents turnInput toAgent messageFields).2.length := by
      simp only [SimulationSession.addTurn, List.flatMap_append, h.refs]
      simp [newTurn]
    have happend := List.range'_append_1 (s := 0) (m := session.objects.length)
      (n := (newTurn session agents turnInput toAgent messageFields).2.length)
    rw [hrefs, SimulationSession.addTurn, List.length_append, List.range_eq_range',
      List.range_eq_range', ← happend, Nat.zero_add]

/-- A violation of the last turn has been resolved, and marks may have been set. -/
theorem SimulationSession.Transcribed.replaceLast (h : session.Transcribed)
    {lastTurn : SimulationTurnResult} (hlast : session.turnHistory.getLast? = some lastTurn)
    (index : Nat) (resolution : Resolution) {objects : List SimulationObservation}
    (writes : List CoordNamespaceWrite)
    (hobjects : objects.map (·.unmarked) = session.objects.map (·.unmarked)) :
    SimulationSession.Transcribed { session with
      turnHistory := session.turnHistory.dropLast ++ [lastTurn.resolveAt index resolution]
      coordNamespaceWrites := writes
      objects := objects } := by
  set init := session.turnHistory.dropLast with hinit
  have hhistory : session.turnHistory = init ++ [lastTurn] := by
    rw [hinit, List.dropLast_append_getLast? lastTurn hlast]
  have hlength : objects.length = session.objects.length := by
    simpa using congrArg List.length hobjects
  refine ⟨fun turn hturn => ?_, ?_⟩
  · rcases List.mem_append.mp hturn with hold | hnew
    · obtain ⟨receiver, hrecords⟩ := h.records turn (hhistory ▸ List.mem_append_left _ hold)
      exact ⟨receiver, hrecords.congr fun _ _ => by rw [hobjects]⟩
    · obtain rfl := List.mem_singleton.mp hnew
      obtain ⟨receiver, hrecords⟩ := h.records lastTurn (by simp [hhistory])
      exact ⟨receiver, hrecords.resolveAt index resolution hobjects⟩
  · have hrefs := h.refs
    rw [hhistory] at hrefs
    rw [hlength, ← hrefs]
    simp [SimulationTurnResult.resolveAt]

theorem SimulationSession.Transcribed.resolve (h : session.Transcribed)
    {lastTurn : SimulationTurnResult} (hlast : session.turnHistory.getLast? = some lastTurn)
    (index : Nat) (violation : ContractViolation) (resolution : String)
    (clarification : Option String) (coordEdgeWritten : Bool) :
    (session.resolve lastTurn index violation resolution clarification
      coordEdgeWritten).Transcribed := by
  unfold SimulationSession.resolve
  split_ifs
  · exact h.replaceLast hlast index _ _ (markObservations_unmarked ..)
  · exact h.replaceLast hlast index _ _ rfl

variable {request : Request} {session' : SimulationSession} {agents agents' : List AgentContract}

theorem SessionStep.transcribed (hstep : SessionStep request (session, agents) (session', agents'))
    (h : session.Transcribed) : session'.Transcribed := by
  cases hstep with
  | turn => exact h.addTurn _ _ _ _
  | resolve hlast => exact h.resolve hlast _ _ _ _ _
  | close =>
    refine ⟨fun turn hturn => ?_, h.refs⟩
    obtain ⟨receiver, hrecords⟩ := h.records turn hturn
    exact ⟨receiver, hrecords.congr fun _ _ => rfl⟩

/-- Every reachable session is transcribed. -/
theorem transcribed_run {ι : Type} [DecidableEq ι] {w : World}
    (hw : ∀ sessionId, w.sessions sessionId = none) (requests : ι → Request) (sched : List ι) :
    EverySession (·.Transcribed) ((serving w requests).run sched).store :=
  everySession_run transcribed_new (fun _ _ _ _ _ hstep => hstep.transcribed) hw requests sched

/-! ## Messages -/

/-- What a turn amounts to when the session is closed. -/
structure Message where
  pair : String × String
  violations : Nat
  deriving DecidableEq

/-- The receiver of a turn, as its first observation names it. -/
def SimulationSession.receiver (session : SimulationSession) (turn : SimulationTurnResult) :
    String :=
  ((session.turnObservations turn).head?.bind (·.rolesInvolved[1]?)).getD ""

def SimulationSession.message (session : SimulationSession) (turn : SimulationTurnResult) :
    Message :=
  ⟨(turn.role, session.receiver turn), turn.violations.length⟩

/-- The turns of a session, each with its sender, its receiver and how many fields violated the
contract. -/
def SimulationSession.messages (session : SimulationSession) : List Message :=
  session.turnHistory.map session.message

namespace SimulationSession.Records

/-- All observations of a turn name its two agents, and they are learned if nothing was violated. -/
theorem mem (h : session.Records turn toAgent) {observation : SimulationObservation}
    (hmem : observation ∈ session.turnObservations turn) :
    observation.rolesInvolved = [turn.role, toAgent] ∧
      observation.type = if turn.violations = [] then .learned else .violation := by
  have hunmarked : observation.unmarked ∈
      observationsForTurn turn.role toAgent turn.turnIndex turn.violations := by
    rw [← h.observations]
    exact List.mem_map_of_mem hmem
  change observation.unmarked.rolesInvolved = _ ∧ observation.unmarked.type = _
  unfold observationsForTurn at hunmarked
  split_ifs at hunmarked with hnil
  · rw [List.mem_singleton.mp hunmarked]
    exact ⟨rfl, (if_pos hnil).symm⟩
  · obtain ⟨violation, hviolation, hobservation⟩ := List.mem_map.mp hunmarked
    obtain ⟨hfrom, hto⟩ := h.violations violation hviolation
    rw [← hobservation]
    exact ⟨by rw [hfrom, hto], (if_neg hnil).symm⟩

theorem length (h : session.Records turn toAgent) :
    (session.turnObservations turn).length = max 1 turn.violations.length := by
  have hlength := congrArg List.length h.observations
  rwa [List.length_map, length_observationsForTurn] at hlength

theorem receiver (h : session.Records turn toAgent) : session.receiver turn = toAgent := by
  have hlength := h.length
  have hmem := @h.mem
  unfold SimulationSession.receiver
  cases hturn : session.turnObservations turn with
  | nil =>
    rw [hturn, List.length_nil] at hlength
    omega
  | cons observation rest =>
    obtain ⟨hroles, -⟩ := hmem (hturn ▸ List.mem_cons_self)
    simp [hroles]

end SimulationSession.Records

/-- The record of a turn says which message it was. -/
theorem SimulationSession.Records.message (h : session.Records turn toAgent) :
    session.message turn = ⟨(turn.role, toAgent), turn.violations.length⟩ := by
  rw [SimulationSession.message, h.receiver]

end AgentWorx
