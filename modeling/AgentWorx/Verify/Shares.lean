import AgentWorx.Verify.Handoffs
import AgentWorx.Verify.Resolutions
import AgentWorx.Verify.Transcripts

/-!
# Shares of clean turns

Closing counts observations where its rule speaks of turns: a turn counts as often as it has
violations. So the confidence of a handoff is the share of clean turns only while no turn between
the two roles has several violations, or as far as the difference is rounded away, and a pair
without clean turns is left with the confidence that an earlier session has given it.
-/

namespace AgentWorx

open Coop Coop.Sync

/-! ## Counting observations -/

/-- One more observation. -/
def PairStats.count (stats : PairStats) (isClean : Bool) : PairStats :=
  ⟨stats.clean + if isClean then 1 else 0, stats.total + 1⟩

/-- `pair_stats` has one entry for each pair, so counting is an upsert. -/
theorem countPair_eq_upsert {stats : List ((String × String) × PairStats)}
    (pair : String × String) (isClean : Bool) (h : (stats.map (·.1)).Nodup) :
    countPair pair isClean stats = Keyed.upsert (·.1) pair (pair, PairStats.count ⟨0, 0⟩ isClean)
      (fun entry => (entry.1, entry.2.count isClean)) stats := by
  induction stats with
  | nil => cases isClean <;> rfl
  | cons entry rest ih =>
    obtain ⟨names, counts⟩ := entry
    rw [List.map_cons, List.nodup_cons] at h
    unfold countPair
    by_cases hpair : names = pair
    · subst hpair
      have hrest : rest.map (fun entry : (String × String) × PairStats =>
          if entry.1 = names then (entry.1, entry.2.count isClean) else entry) = rest := by
        refine (List.map_congr_left fun entry hentry => if_neg ?_).trans (List.map_id rest)
        intro hname
        exact h.1 (List.mem_map.mpr ⟨entry, hentry, hname⟩)
      simpa [Keyed.upsert, PairStats.count] using hrest.symm
    · rw [if_neg hpair, ih h.2, Keyed.upsert, Keyed.upsert]
      simp only [List.any_cons, hpair, decide_false, Bool.false_or, List.map_cons, if_false,
        List.cons_append]
      split_ifs <;> rfl

theorem lookup_countPair {stats : List ((String × String) × PairStats)}
    (h : (stats.map (·.1)).Nodup) (pair : String × String) (isClean : Bool) :
    Keyed.lookup (·.1) pair (countPair pair isClean stats) =
      some (pair, ((Keyed.lookup (·.1) pair stats).elim ⟨0, 0⟩ (·.2)).count isClean) := by
  have hfound : Keyed.lookup (·.1) pair (Keyed.upsert (·.1) pair
      (pair, PairStats.count ⟨0, 0⟩ isClean) (fun entry => (entry.1, entry.2.count isClean))
      stats) = some _ := Keyed.lookup_upsert rfl fun _ hentry => hentry
  rw [countPair_eq_upsert pair isClean h, hfound]
  cases hlookup : Keyed.lookup (·.1) pair stats with
  | none => rfl
  | some entry =>
    obtain ⟨-, hpair⟩ := Keyed.mem_of_lookup hlookup
    simp [hpair]

theorem lookup_countPair_ne {stats : List ((String × String) × PairStats)}
    (h : (stats.map (·.1)).Nodup) {pair pair' : String × String} (hne : pair' ≠ pair)
    (isClean : Bool) : Keyed.lookup (·.1) pair' (countPair pair isClean stats) =
      Keyed.lookup (·.1) pair' stats := by
  rw [countPair_eq_upsert pair isClean h]
  exact Keyed.lookup_upsert_ne rfl (fun _ hentry => hentry) hne

theorem countPair_nodup {stats : List ((String × String) × PairStats)}
    (h : (stats.map (·.1)).Nodup) (pair : String × String) (isClean : Bool) :
    ((countPair pair isClean stats).map (·.1)).Nodup := by
  rw [countPair_eq_upsert pair isClean h]
  exact Keyed.nodup_upsert rfl (fun _ hentry => hentry) h

/-- The observations that name the pair, and how many of them were learned. -/
def tally (pair : String × String) (observations : List SimulationObservation) : PairStats where
  clean := observations.countP fun o => o.rolesInvolved = [pair.1, pair.2] ∧ o.type = .learned
  total := observations.countP fun o => o.rolesInvolved = [pair.1, pair.2]

theorem tally_append (pair : String × String) (before after : List SimulationObservation) :
    tally pair (before ++ after) = ⟨(tally pair before).clean + (tally pair after).clean,
      (tally pair before).total + (tally pair after).total⟩ := by
  simp [tally]

theorem tally_clean_le (pair : String × String) (observations : List SimulationObservation) :
    (tally pair observations).clean ≤ (tally pair observations).total :=
  List.countP_mono_left fun o _ ho => by simp_all

theorem pairStats_concat {observations : List SimulationObservation} {o : SimulationObservation}
    {fromRole toRole : String} (hroles : o.rolesInvolved = [fromRole, toRole]) :
    pairStats (observations ++ [o]) =
      countPair (fromRole, toRole) (o.type = .learned) (pairStats observations) := by
  rw [pairStats, List.foldl_append, List.foldl_cons, List.foldl_nil, hroles, ← pairStats]

/-- An observation that does not name two roles is skipped. -/
theorem pairStats_concat_other {observations : List SimulationObservation}
    {o : SimulationObservation}
    (hroles : ∀ fromRole toRole, o.rolesInvolved ≠ [fromRole, toRole]) :
    pairStats (observations ++ [o]) = pairStats observations := by
  rw [pairStats, List.foldl_append, List.foldl_cons, List.foldl_nil, ← pairStats]
  split
  · rename_i fromRole toRole hpair
    exact absurd hpair (hroles fromRole toRole)
  · rfl

/-- The loop of `_write_handoff_edges` keeps one entry for each pair that an observation names. -/
theorem pairStats_tally (observations : List SimulationObservation) :
    ((pairStats observations).map (·.1)).Nodup ∧
    ∀ pair, Keyed.lookup (·.1) pair (pairStats observations) =
      if (tally pair observations).total = 0 then none
      else some (pair, tally pair observations) := by
  induction observations using List.reverseRecOn with
  | nil => exact ⟨List.nodup_nil, fun pair => rfl⟩
  | append_singleton observations o ih =>
    obtain ⟨hnodup, hlookup⟩ := ih
    by_cases hroles : ∃ fromRole toRole, o.rolesInvolved = [fromRole, toRole]
    · obtain ⟨fromRole, toRole, hroles⟩ := hroles
      rw [pairStats_concat hroles]
      refine ⟨countPair_nodup hnodup _ _, fun pair => ?_⟩
      rw [tally_append]
      by_cases hpair : pair = (fromRole, toRole)
      · subst hpair
        have hone : tally (fromRole, toRole) [o] =
            PairStats.count ⟨0, 0⟩ (decide (o.type = .learned)) := by
          by_cases hlearned : o.type = .learned <;>
            simp [tally, hroles, PairStats.count, hlearned]
        rw [lookup_countPair hnodup, hlookup, hone]
        by_cases hzero : (tally (fromRole, toRole) observations).total = 0
        · have hle := tally_clean_le (fromRole, toRole) observations
          have hclean : (tally (fromRole, toRole) observations).clean = 0 := by omega
          simp [PairStats.count, hzero, hclean]
        · simp [PairStats.count, hzero]
      · have hone : tally pair [o] = ⟨0, 0⟩ := by
          have hother : [fromRole, toRole] ≠ [pair.1, pair.2] := by
            intro hsame
            simp only [List.cons.injEq, and_true] at hsame
            exact hpair (Prod.ext hsame.1.symm hsame.2.symm)
          simp [tally, hroles, hother]
        rw [lookup_countPair_ne hnodup hpair, hlookup, hone]
        rfl
    · simp only [not_exists] at hroles
      rw [pairStats_concat_other hroles]
      refine ⟨hnodup, fun pair => ?_⟩
      have hone : tally pair [o] = ⟨0, 0⟩ := by simp [tally, hroles]
      rw [hlookup, tally_append, hone]
      rfl

/-! ## Counting turns -/

namespace SimulationSession

/-- The messages of the session from one agent to another. -/
def between (session : SimulationSession) (pair : String × String) : List Message :=
  session.messages.filter (·.pair = pair)

def cleanTurns (session : SimulationSession) (pair : String × String) : Nat :=
  (session.between pair).countP (·.violations = 0)

/-- The violations after the first one of each turn. -/
def surplus (session : SimulationSession) (pair : String × String) : Nat :=
  ((session.between pair).map (·.violations - 1)).sum

/-- The share of clean turns as a double, where a turn counts once more for each violation after its
first. -/
def share (session : SimulationSession) (pair : String × String) : ℚ :=
  toDouble (session.cleanTurns pair / ((session.between pair).length + session.surplus pair))

end SimulationSession

variable {session : SimulationSession} {turn : SimulationTurnResult} {toAgent : String}

/-- The observations of a turn count for its pair only. -/
theorem SimulationSession.Records.tally (h : session.Records turn toAgent)
    (pair : String × String) : tally pair (session.turnObservations turn) =
      if (turn.role, toAgent) = pair then
        ⟨if turn.violations.length = 0 then 1 else 0, max 1 turn.violations.length⟩
      else ⟨0, 0⟩ := by
  have hroles : (turn.role, toAgent) = pair ↔ [turn.role, toAgent] = [pair.1, pair.2] := by
    simp [Prod.ext_iff]
  have hlength := h.length
  rw [AgentWorx.tally]
  by_cases hpair : (turn.role, toAgent) = pair
  · rw [if_pos hpair, PairStats.mk.injEq]
    rw [hroles] at hpair
    constructor
    · by_cases hnil : turn.violations = []
      · rw [List.countP_eq_length.mpr fun o ho => by simp [h.mem ho, hpair, hnil], hlength, hnil]
        rfl
      · rw [List.countP_eq_zero.mpr fun o ho => by simp [h.mem ho, hnil],
          if_neg (by simpa using hnil)]
    · rw [List.countP_eq_length.mpr fun o ho => by simp [h.mem ho, hpair], hlength]
  · rw [if_neg hpair, PairStats.mk.injEq]
    rw [hroles] at hpair
    constructor
    · exact List.countP_eq_zero.mpr fun o ho => by simp [h.mem ho, hpair]
    · exact List.countP_eq_zero.mpr fun o ho => by simp [h.mem ho, hpair]

/-- What is counted over observations, counted over turns. -/
theorem tally_turns {turns : List SimulationTurnResult}
    (h : ∀ turn ∈ turns, ∃ toAgent, session.Records turn toAgent) (pair : String × String) :
    tally pair (turns.flatMap session.turnObservations) =
      ⟨((turns.map session.message).filter (·.pair = pair)).countP (·.violations = 0),
        ((turns.map session.message).filter (·.pair = pair)).length +
        (((turns.map session.message).filter (·.pair = pair)).map (·.violations - 1)).sum⟩ := by
  induction turns with
  | nil => rfl
  | cons turn turns ih =>
    obtain ⟨⟨toAgent, hrecords⟩, hturns⟩ := List.forall_mem_cons.mp h
    rw [List.flatMap_cons, tally_append, ih hturns, hrecords.tally, List.map_cons,
      hrecords.message]
    by_cases hpair : (turn.role, toAgent) = pair
    · simp only [hpair, if_true, decide_true, List.filter_cons_of_pos, List.countP_cons,
        List.length_cons, List.map_cons, List.sum_cons, PairStats.mk.injEq]
      constructor
      · simp only [decide_eq_true_eq]
        exact Nat.add_comm _ _
      · omega
    · simp [hpair]

theorem SimulationSession.Transcribed.tally (h : session.Transcribed) (pair : String × String) :
    tally pair (session.turnHistory.flatMap session.turnObservations) =
      ⟨session.cleanTurns pair, (session.between pair).length + session.surplus pair⟩ :=
  tally_turns h.records pair

/-! ## What closing writes -/

theorem PairStats.confidence_pos {stats : PairStats} (h : stats.clean ≤ stats.total) :
    0 < stats.confidence ↔ 0 < stats.clean := by
  unfold confidence
  by_cases hclean : 0 < stats.clean
  · have htotal : 0 < stats.total := by omega
    rw [if_pos (by omega)]
    exact iff_of_true (toDouble_pos (by positivity)) hclean
  · have hzero : stats.clean = 0 := by omega
    split_ifs <;> simp [hzero, toDouble_zero]

variable {pair : String × String}

/-- Closing writes the share of a pair if the pair has a clean turn, and nothing otherwise. -/
theorem SimulationSession.Transcribed.lookup_pairConfidences (h : session.Transcribed)
    (pair : String × String) : Keyed.lookup (·.1) pair session.pairConfidences =
      if session.cleanTurns pair = 0 then none
      else some (pair, pyRound 3 (session.share pair)) := by
  obtain ⟨hnodup, hlookup⟩ := pairStats_tally (session.turnHistory.flatMap session.turnObservations)
  have hmap : Keyed.lookup (·.1) pair session.pairConfidences =
      (Keyed.lookup (·.1) pair session.handoffPairs).map fun entry =>
        (entry.1, pyRound 3 entry.2.confidence) := List.find?_map ..
  rw [hmap, handoffPairs, Keyed.lookup_filter _ hnodup, hlookup, h.tally]
  have hle := tally_clean_le pair (session.turnHistory.flatMap session.turnObservations)
  rw [h.tally] at hle
  have hpos := PairStats.confidence_pos hle
  dsimp only at hle hpos
  by_cases hclean : session.cleanTurns pair = 0
  · rw [if_pos hclean]
    split_ifs
    · rfl
    · rw [Option.filter_some, if_neg (by simpa [hclean] using hpos), Option.map_none]
  · have htotal : (session.between pair).length + session.surplus pair ≠ 0 := by omega
    rw [if_neg htotal, if_neg hclean, Option.filter_some,
      if_pos (decide_eq_true (hpos.mpr (Nat.pos_of_ne_zero hclean))), Option.map_some]
    have hshare : PairStats.confidence ⟨session.cleanTurns pair,
        (session.between pair).length + session.surplus pair⟩ = session.share pair := by
      rw [share, ← Nat.cast_add]
      exact if_pos htotal
    exact congrArg (fun q => some (pair, pyRound 3 q)) hshare

theorem handoffPairs_nodup (session : SimulationSession) :
    (session.handoffPairs.map (·.1)).Nodup :=
  (pairStats_tally _).1.sublist (List.filter_sublist.map _)

theorem pairConfidences_pairs (session : SimulationSession) :
    session.pairConfidences.map (·.1) = session.handoffPairs.map (·.1) := by
  rw [SimulationSession.pairConfidences, List.map_map]
  rfl

variable {agents contracts : List AgentContract} {handoffs : List Handoff}

/-- The confidence of a pair after closing: the share of its clean turns if it has any and there are
roles for its ends, or what it was before. -/
theorem SimulationSession.Transcribed.lookup_outcome (h : session.Transcribed)
    (agents contracts : List AgentContract) (handoffs : List Handoff) (pair : String × String) :
    (Keyed.lookup (·.pair) pair (session.outcome agents contracts handoffs).2).map (·.confidence) =
      if session.cleanTurns pair ≠ 0 ∧ connects (putContracts agents contracts) pair = true then
        some (pyRound 3 (session.share pair))
      else (Keyed.lookup (·.pair) pair handoffs).map (·.confidence) := by
  have hnodup := pairConfidences_pairs session ▸ handoffPairs_nodup session
  set filtered := session.pairConfidences.filter (connects (putContracts agents contracts) ·.1)
    with hfiltered
  have hlookup : Keyed.lookup (·.1) pair filtered = (Keyed.lookup (·.1) pair
      session.pairConfidences).filter (connects (putContracts agents contracts) ·.1) :=
    Keyed.lookup_filter _ hnodup
  have houtcome : Keyed.lookup (·.pair) pair (session.outcome agents contracts handoffs).2 = _ :=
    handoffs_overwrite.lookup_upserts_of_nodup (hnodup.sublist (List.filter_sublist.map _)) pair
  rw [houtcome, hlookup, h.lookup_pairConfidences]
  by_cases hclean : session.cleanTurns pair = 0
  · simp [hclean]
  · by_cases hconnects : connects (putContracts agents contracts) pair = true
    · rw [if_neg hclean, if_pos ⟨hclean, hconnects⟩, Option.filter_some, if_pos hconnects]
      cases Keyed.lookup (·.pair) pair handoffs <;> rfl
    · rw [if_neg hclean, if_neg fun h => hconnects h.2, Option.filter_some, if_neg hconnects]
      rfl

theorem handoffsSound_nil : HandoffsSound [] := ⟨List.nodup_nil, fun _ h => by cases h⟩

/-- There is at most one handoff for a pair. -/
theorem confidences_eq (h : (handoffs.map (·.pair)).Nodup) :
    (handoffs.filter (·.pair = pair)).map (·.confidence) =
      ((Keyed.lookup (·.pair) pair handoffs).map (·.confidence)).toList := by
  rw [Keyed.filter_key h]
  cases Keyed.lookup (·.pair) pair handoffs <;> rfl

theorem forall_confidence_iff (h : (handoffs.map (·.pair)).Nodup) {confidence : ℚ} :
    (∀ handoff ∈ handoffs, handoff.pair = pair → handoff.confidence = confidence) ↔
      ∀ c ∈ (Keyed.lookup (·.pair) pair handoffs).map (·.confidence), c = confidence := by
  constructor
  · intro hall c hc
    obtain ⟨handoff, hlookup, rfl⟩ := Option.map_eq_some_iff.mp hc
    obtain ⟨hmem, hpair⟩ := Keyed.mem_of_lookup hlookup
    exact hall handoff hmem hpair
  · intro hall handoff hmem hpair
    have hlookup := (Keyed.lookup_eq_some h).mpr ⟨hmem, hpair⟩
    exact hall _ (by rw [hlookup]; rfl)

/-- The pairs of the handoffs stay different. -/
theorem outcome_nodup (session : SimulationSession) (agents contracts : List AgentContract)
    (h : HandoffsSound handoffs) :
    ((session.outcome agents contracts handoffs).2.map (·.pair)).Nodup :=
  (h.put fun pair hpair =>
    pairConfidences_mem_unit session pair (List.mem_of_mem_filter hpair)).pairs

/-! ## Closing alone -/

variable {g : Graph} {w w' : World} {sessionId : String} {result : CloseResult}

theorem shows_of_empty (hroles : g.roles = []) (hedges : g.handsOffTo = []) : Shows g [] [] where
  unique := by constructor <;> simp [hroles]
  grounded h hh := by simp [hedges] at hh
  contracts_eq := by simp [Graph.contracts, hroles]
  handoffs_eq := by simp [Graph.handoffs_eq, hedges]

/-- A close that returns has left its outcome. -/
theorem closeSession_shows (hs : w.sessions sessionId = some session)
    (ha : w.sessionAgents sessionId = some agents)
    (hg : Shows (w.graphs session.agentTypeId) contracts handoffs)
    (h : (closeSession sessionId).runAlone w = (.ok result, w')) :
    Shows (w'.graphs session.agentTypeId) (session.outcome agents contracts handoffs).1
      (session.outcome agents contracts handoffs).2 := by
  obtain ⟨summary, w1, hflush, hgraphs, -⟩ := closeSession_returns h
  have hactive : session.status = .active := by
    rcases flushSession_cases sessionId w with ⟨e, he⟩ | ⟨session', agents', hs', -, hactive, -⟩
    · rw [he] at hflush
      cases hflush
    · rw [hs, Option.some.injEq] at hs'
      exact hs' ▸ hactive
  rw [hgraphs]
  exact (flushSession_shows hs ha hactive hg).of_ok hflush

/-- A turn counts as often as it has violations, so where no turn has several, closing counts turns.
-/
theorem SimulationSession.surplus_eq_zero
    (h : ∀ message ∈ session.between pair, message.violations ≤ 1) : session.surplus pair = 0 := by
  refine List.sum_eq_zero fun n hn => ?_
  obtain ⟨message, hmessage, rfl⟩ := List.mem_map.mp hn
  have := h message hmessage
  omega

variable {ι : Type} [DecidableEq ι]

/-- In every state that requests reach, a close that returns and has found a graph without roles and
handoffs gives a pair of agents with a clean turn the share of its clean turns exactly when none of
its turns has two violations, or the surplus of violations is too small to move the third decimal.
-/
theorem clean_share_iff (w : World) (hw : ∀ sessionId, w.sessions sessionId = none)
    (requests : ι → Request) (sched : List ι) (sessionId : String) (session : SimulationSession)
    (agents : List AgentContract)
    (hs : ((serving w requests).run sched).store.sessions sessionId = some session)
    (ha : ((serving w requests).run sched).store.sessionAgents sessionId = some agents)
    (hroles : (((serving w requests).run sched).store.graphs session.agentTypeId).roles = [])
    (hedges : (((serving w requests).run sched).store.graphs session.agentTypeId).handsOffTo = [])
    (result : CloseResult) (w' : World)
    (hclose : (closeSession sessionId).runAlone ((serving w requests).run sched).store =
      (.ok result, w'))
    (fromRole toRole : String) (hfrom : fromRole ∈ agents.map (·.agentName))
    (hto : toRole ∈ agents.map (·.agentName))
    (hclean : 1 ≤ session.cleanTurns (fromRole, toRole)) :
    ((w'.graphs session.agentTypeId).handoffs.filter (·.pair = (fromRole, toRole))).map
        (·.confidence) =
      [pyRound 3 (toDouble (session.cleanTurns (fromRole, toRole) /
        (session.between (fromRole, toRole)).length))] ↔
    (∀ message ∈ session.between (fromRole, toRole), message.violations ≤ 1) ∨
      pyRound 3 (toDouble (session.cleanTurns (fromRole, toRole) /
        ((session.between (fromRole, toRole)).length + session.surplus (fromRole, toRole)))) =
      pyRound 3 (toDouble (session.cleanTurns (fromRole, toRole) /
        (session.between (fromRole, toRole)).length)) := by
  have htranscribed : session.Transcribed := transcribed_run hw requests sched sessionId session hs
  have hempty : Shows (((serving w requests).run sched).store.graphs session.agentTypeId) [] [] :=
    shows_of_empty hroles hedges
  have hshows := closeSession_shows hs ha hempty hclose
  have hconnects : connects (putContracts agents []) (fromRole, toRole) = true := by
    have hnames {name : String} (hname : name ∈ agents.map (·.agentName)) :
        name ∈ (putContracts agents []).map (·.agentName) := by
      obtain ⟨agent, hagent, rfl⟩ := List.mem_map.mp hname
      exact contracts_overwrite.keys_upserts hagent
    rw [connects, decide_eq_true_eq]
    exact ⟨hnames hfrom, hnames hto⟩
  have hlookup := htranscribed.lookup_outcome agents [] [] (fromRole, toRole)
  rw [if_pos ⟨by omega, hconnects⟩] at hlookup
  rw [hshows.handoffs_eq, confidences_eq (outcome_nodup session agents [] handoffsSound_nil),
    hlookup, Option.toList_some, List.cons.injEq, and_iff_left rfl]
  constructor
  · exact .inr
  · rintro (hfew | hsame)
    · rw [SimulationSession.share, SimulationSession.surplus_eq_zero hfew, Nat.cast_zero, add_zero]
    · exact hsame

/-- A second agent, and a process in which both are the team. -/
def waiter : AgentContract := ⟨"waiter", ∅, ∅, []⟩

def staffed : World :=
  { lenient with pg := { lenient.pg with
      teamCompositions := [{ Sample.team .approved with agentList := [waiter, Sample.cook] }] } }

theorem staffed_coordinated (name : String) : (staffed.graphs name).Coordinated :=
  ⟨⟨List.nodup_nil, List.nodup_nil⟩, fun h hh => (by cases hh), List.nodup_nil,
    fun h hh => by cases hh⟩

/-- A clean message, and one that violates the contract of its receiver in these fields. -/
def service (fields : List String) : Fin 3 → Request
  | 0 => .createSession "shop"
  | 1 => .turn Sample.sessionId Sample.order "cook" []
  | 2 => .turn Sample.sessionId Sample.order "cook" fields

/-- What a close leaves after a clean message and one with these fields. -/
def served (fields : List String) : Except Exn CloseResult × World :=
  (closeSession Sample.sessionId).runAlone
    ((serving staffed (service fields)).run [0, 0, 1, 2]).store

theorem served_agents : ∃ agents,
    ((serving staffed (service ["table"])).run [0, 0, 1, 2]).store.sessionAgents
      Sample.sessionId = some agents ∧ agents.map (·.agentName) = ["waiter", "cook"] :=
  Option.map_eq_some_iff.mp (by decide +kernel)

theorem served_returns : ∃ result, served ["table"] = (.ok result, (served ["table"]).2) :=
  ok_of_isSome (by decide +kernel)

theorem clean_share_iff_served :
    (((served ["table"]).2.graphs "shop").handoffs.filter (·.pair = ("waiter", "cook"))).map
      (·.confidence) = [1 / 2] := by
  have hsession : (((serving staffed (service ["table"])).run [0, 0, 1, 2]).store.sessions
      Sample.sessionId).map (fun s => (s.agentTypeId, s.between ("waiter", "cook"))) =
        some ("shop", [⟨("waiter", "cook"), 0⟩, ⟨("waiter", "cook"), 1⟩]) := by
    decide +kernel
  obtain ⟨session, hs, hfields⟩ := Option.map_eq_some_iff.mp hsession
  obtain ⟨htype, hbetween⟩ := Prod.mk.inj hfields
  obtain ⟨agents, ha, hnames⟩ := served_agents
  obtain ⟨result, hclose⟩ := served_returns
  have hshare := (clean_share_iff staffed (fun _ => rfl) (service ["table"]) [0, 0, 1, 2]
    Sample.sessionId session agents hs ha rfl rfl result _ hclose "waiter" "cook"
    (by simp [hnames]) (by simp [hnames])
    (by rw [SimulationSession.cleanTurns, hbetween]; decide)).mpr
      (.inl (by rw [hbetween]; decide))
  rw [htype, SimulationSession.cleanTurns, hbetween] at hshare
  exact hshare.trans (by decide +kernel)

/-- Two violations in one message count as two turns. -/
theorem clean_share_surplus :
    ¬ ∀ fields session result w',
      ((serving staffed (service fields)).run [0, 0, 1, 2]).store.sessions Sample.sessionId =
        some session →
      (closeSession Sample.sessionId).runAlone
        ((serving staffed (service fields)).run [0, 0, 1, 2]).store = (.ok result, w') →
      ((w'.graphs "shop").handoffs.filter (·.pair = ("waiter", "cook"))).map (·.confidence) =
        [pyRound 3 (toDouble (session.cleanTurns ("waiter", "cook") /
          (session.between ("waiter", "cook")).length))] := by
  intro h
  have hsession : (((serving staffed (service ["table", "guests"])).run
      [0, 0, 1, 2]).store.sessions Sample.sessionId).map (·.between ("waiter", "cook")) =
        some [⟨("waiter", "cook"), 0⟩, ⟨("waiter", "cook"), 2⟩] := by
    decide +kernel
  obtain ⟨session, hs, hbetween⟩ := Option.map_eq_some_iff.mp hsession
  obtain ⟨result, hclose⟩ := ok_of_isSome (x := served ["table", "guests"]) (by decide +kernel)
  have hshare := h ["table", "guests"] session result _ hs hclose
  rw [SimulationSession.cleanTurns, hbetween] at hshare
  exact absurd hshare (by decide +kernel)

/-- In every state that requests reach, a close that returns leaves the handoff of a pair with the
share that its turns in this session have exactly when one of them was clean, or no handoff of the
pair had a confidence to lose. -/
theorem latest_share_iff (w : World) (hw : ∀ sessionId, w.sessions sessionId = none)
    (hgraphs : ∀ name, (w.graphs name).Coordinated) (requests : ι → Request) (sched : List ι)
    (sessionId : String) (session : SimulationSession) (agents : List AgentContract)
    (hs : ((serving w requests).run sched).store.sessions sessionId = some session)
    (ha : ((serving w requests).run sched).store.sessionAgents sessionId = some agents)
    (result : CloseResult) (w' : World)
    (hclose : (closeSession sessionId).runAlone ((serving w requests).run sched).store =
      (.ok result, w'))
    (fromRole toRole : String) :
    (∀ handoff ∈ (w'.graphs session.agentTypeId).handoffs, handoff.pair = (fromRole, toRole) →
      handoff.confidence = pyRound 3 (session.share (fromRole, toRole))) ↔
    0 < session.cleanTurns (fromRole, toRole) ∨
      ∀ handoff ∈ (((serving w requests).run sched).store.graphs session.agentTypeId).handoffs,
        handoff.pair = (fromRole, toRole) → handoff.confidence = 0 := by
  have htranscribed : session.Transcribed := transcribed_run hw requests sched sessionId session hs
  have hgraph := everyGraph_run (handle_keepsGraphs ofEdges_coordinated flushSession_coordinated)
    hgraphs requests sched session.agentTypeId
  obtain ⟨hunique, hgrounded, hsound⟩ := Graph.coordinated_iff.mp hgraph
  set g := ((serving w requests).run sched).store.graphs session.agentTypeId
  have hshows := closeSession_shows hs ha ⟨hunique, hgrounded, rfl, rfl⟩ hclose
  have hnodup := outcome_nodup session agents g.contracts hsound
  have hlookup := htranscribed.lookup_outcome agents g.contracts g.handoffs (fromRole, toRole)
  by_cases hclean : session.cleanTurns (fromRole, toRole) = 0
  · -- the handoff is as it was
    have hzero : pyRound 3 (session.share (fromRole, toRole)) = 0 := by
      rw [SimulationSession.share, hclean, Nat.cast_zero, zero_div, toDouble_zero, pyRound_zero]
    rw [if_neg fun h => h.1 hclean] at hlookup
    rw [hshows.handoffs_eq, forall_confidence_iff hnodup, hlookup, hzero,
      ← forall_confidence_iff hsound.pairs, hclean]
    simp
  · refine iff_of_true (fun handoff hmem hpair => ?_) (.inl (Nat.pos_of_ne_zero hclean))
    have hconnects := Graph.connects_of_mem hmem
    rw [hshows.contracts_eq, hpair] at hconnects
    rw [if_pos ⟨hclean, hconnects⟩] at hlookup
    rw [hshows.handoffs_eq] at hmem
    exact (forall_confidence_iff hnodup).mpr (by rw [hlookup]; simp) handoff hmem hpair

/-- Two sessions: a clean message in the first, and one with these fields in the second. -/
def shifts (fields : List String) : Fin 5 → Request
  | 0 => .createSession "shop"
  | 1 => .createSession "shop"
  | 2 => .turn Sample.sessionId Sample.order "cook" []
  | 3 => .close Sample.sessionId
  | 4 => .turn secondSessionId Sample.order "cook" fields

/-- The process before the second session is closed. -/
def shifted (fields : List String) : World :=
  ((serving staffed (shifts fields)).run [0, 0, 1, 1, 2, 3, 3, 4]).store

theorem latest_share_iff_shifted : ∃ handoff ∈
    (((closeSession secondSessionId).runAlone (shifted [])).2.graphs "shop").handoffs,
      handoff.pair = ("waiter", "cook") ∧ handoff.confidence = 1 := by
  have hsession : ((shifted []).sessions secondSessionId).map
      (fun s => (s.agentTypeId, s.between ("waiter", "cook"))) =
        some ("shop", [⟨("waiter", "cook"), 0⟩]) := by
    decide +kernel
  obtain ⟨session, hs, hfields⟩ := Option.map_eq_some_iff.mp hsession
  obtain ⟨htype, hbetween⟩ := Prod.mk.inj hfields
  obtain ⟨agents, ha⟩ : ∃ agents, (shifted []).sessionAgents secondSessionId = some agents :=
    Option.isSome_iff_exists.mp (by decide +kernel)
  obtain ⟨result, hclose⟩ := ok_of_isSome
    (x := (closeSession secondSessionId).runAlone (shifted [])) (by decide +kernel)
  have hshare := (latest_share_iff staffed (fun _ => rfl) staffed_coordinated (shifts [])
    [0, 0, 1, 1, 2, 3, 3, 4] secondSessionId session agents hs ha result _ hclose "waiter"
    "cook").mpr (.inl (by rw [SimulationSession.cleanTurns, hbetween]; decide))
  rw [htype] at hshare
  have hpairs : ((((closeSession secondSessionId).runAlone (shifted [])).2.graphs
      "shop").handoffs.map (·.pair)) = [("waiter", "cook")] := by
    decide +kernel
  obtain ⟨handoff, hmem, hpair⟩ := List.mem_map.mp (hpairs ▸ List.mem_singleton_self _)
  refine ⟨handoff, hmem, hpair, ?_⟩
  rw [hshare handoff hmem hpair, SimulationSession.share, SimulationSession.cleanTurns,
    SimulationSession.surplus, hbetween]
  decide +kernel

/-- In the second session every turn violates a contract, and the handoff is still certain. -/
theorem latest_share_kept :
    ¬ ∀ fields session result w', (shifted fields).sessions secondSessionId = some session →
      session.between ("waiter", "cook") ≠ [] →
      (closeSession secondSessionId).runAlone (shifted fields) = (.ok result, w') →
      ∀ handoff ∈ (w'.graphs "shop").handoffs, handoff.pair = ("waiter", "cook") →
        handoff.confidence = pyRound 3 (session.share ("waiter", "cook")) := by
  intro h
  have hsession : ((shifted ["table"]).sessions secondSessionId).map
      (·.between ("waiter", "cook")) = some [⟨("waiter", "cook"), 1⟩] := by
    decide +kernel
  obtain ⟨session, hs, hbetween⟩ := Option.map_eq_some_iff.mp hsession
  obtain ⟨result, hclose⟩ := ok_of_isSome
    (x := (closeSession secondSessionId).runAlone (shifted ["table"])) (by decide +kernel)
  have hshare := h ["table"] session result _ hs (by rw [hbetween]; simp) hclose
  rw [SimulationSession.share, SimulationSession.cleanTurns, SimulationSession.surplus,
    hbetween] at hshare
  exact absurd hshare (by decide +kernel)

end AgentWorx
