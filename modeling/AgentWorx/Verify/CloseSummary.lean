import AgentWorx.Verify.Shares

/-!
# The count of written edges

`_upsert_handoff_edge` creates an edge between the roles that have the two names. Where one of the
names has no role it creates none, and closing counts the pair all the same. The graph need not be
coordinated here: only the primary key of its roles is used.
-/

namespace AgentWorx

open Coop Coop.Sync

variable {g g' : Graph} {w w' : World} {agentType : String} {agents : List AgentContract}
  {pair : String × String}

/-! ## The pairs of a graph -/

namespace Graph

/-- The names that a handoff connects. -/
def pairs (g : Graph) : List (String × String) := g.handoffs.map (·.pair)

/-- A role has the name. -/
def HasRole (g : Graph) (name : String) : Prop := name ∈ g.roles.map (·.name)

instance (g : Graph) (name : String) : Decidable (g.HasRole name) :=
  inferInstanceAs (Decidable (_ ∈ _))

theorem mem_pairs : pair ∈ g.pairs ↔ ∃ h ∈ g.handsOffTo,
    (g.role? h.source).map (·.name) = some pair.1 ∧
      (g.role? h.target).map (·.name) = some pair.2 := by
  rw [pairs, handoffs_eq, List.map_filterMap, List.mem_filterMap]
  refine exists_congr fun h => and_congr_right fun _ => ?_
  cases (g.role? h.source).map (·.name) <;> cases (g.role? h.target).map (·.name) <;>
    simp [Prod.ext_iff]

/-- The ends of a handoff are roles. -/
theorem hasRole_of_mem_pairs (h : pair ∈ g.pairs) : g.HasRole pair.1 ∧ g.HasRole pair.2 := by
  obtain ⟨handoff, hhandoff, rfl⟩ := List.mem_map.mp h
  have hconnects := connects_of_mem hhandoff
  rw [connects, decide_eq_true_eq, names_contracts] at hconnects
  exact hconnects

end Graph

/-! ## Writing an edge -/

variable {fromRole toRole : String} {confidence : ℚ} {u : Unit}

/-- The pairs stay when the confidence of one is set. -/
theorem setHandoff_pairs (h : (setHandoff fromRole toRole confidence).eval g = .ok (u, g')) :
    g'.roles = g.roles ∧ ∀ pair, pair ∈ g'.pairs ↔ pair ∈ g.pairs := by
  simp only [setHandoff, Cypher.update, Except.ok.injEq, Prod.mk.injEq, true_and] at h
  have hroles : g'.roles = g.roles := by rw [← h]
  refine ⟨hroles, fun pair => ?_⟩
  rw [Graph.mem_pairs, Graph.mem_pairs, Graph.role?_congr hroles, ← h]
  simp only [List.mem_map, exists_exists_and_eq_and]
  refine exists_congr fun edge => and_congr_right fun _ => ?_
  split_ifs <;> rfl

/-- An edge is created if both names have roles. -/
theorem createHandoff_pairs (hids : (g.roles.map (·.id)).Nodup)
    (h : (createHandoff fromRole toRole confidence).eval g = .ok (u, g')) :
    g'.roles = g.roles ∧ ∀ pair, pair ∈ g'.pairs ↔ pair ∈ g.pairs ∨
      (pair = (fromRole, toRole) ∧ g.HasRole fromRole ∧ g.HasRole toRole) := by
  simp only [createHandoff, Cypher.update, Except.ok.injEq, Prod.mk.injEq, true_and] at h
  have hroles : g'.roles = g.roles := by rw [← h]
  have hfind {role : AgentRole} (hrole : role ∈ g.roles) : g.role? role.id = some role :=
    (Keyed.lookup_eq_some hids).mpr ⟨hrole, rfl⟩
  refine ⟨hroles, fun pair => ?_⟩
  rw [Graph.mem_pairs, Graph.mem_pairs, Graph.role?_congr hroles, ← h]
  simp only [List.mem_append, List.mem_flatMap, List.mem_map, List.mem_filter, decide_eq_true_eq]
  constructor
  · rintro ⟨edge, hold | ⟨a, ⟨ha, hfrom⟩, b, ⟨hb, hto⟩, rfl⟩, hsource, htarget⟩
    · exact .inl ⟨edge, hold, hsource, htarget⟩
    · rw [hfind ha, Option.map_some, Option.some.injEq] at hsource
      rw [hfind hb, Option.map_some, Option.some.injEq] at htarget
      refine .inr ⟨Prod.ext ?_ ?_, ?_, ?_⟩
      · exact hsource.symm.trans hfrom
      · exact htarget.symm.trans hto
      · exact hfrom ▸ List.mem_map_of_mem ha
      · exact hto ▸ List.mem_map_of_mem hb
  · rintro (⟨edge, hold, hends⟩ | ⟨rfl, hfrom, hto⟩)
    · exact ⟨edge, .inl hold, hends⟩
    · obtain ⟨a, ha, hfrom⟩ := List.mem_map.mp hfrom
      obtain ⟨b, hb, hto⟩ := List.mem_map.mp hto
      refine ⟨_, .inr ⟨a, ⟨ha, hfrom⟩, b, ⟨hb, hto⟩, rfl⟩, ?_, ?_⟩
      · rw [hfind ha, Option.map_some, hfrom]
      · rw [hfind hb, Option.map_some, hto]

/-- What the edges of a graph connect before and after some pairs have been written. -/
structure WritesPairs (written : List (String × String)) (g g' : Graph) : Prop where
  roles : g'.roles = g.roles
  pairs : ∀ pair, pair ∈ g'.pairs ↔ pair ∈ g.pairs ∨
    (pair ∈ written ∧ g.HasRole pair.1 ∧ g.HasRole pair.2)

theorem WritesPairs.refl (g : Graph) : WritesPairs [] g g := ⟨rfl, fun pair => by simp⟩

theorem WritesPairs.append {written more : List (String × String)} {g1 g2 : Graph}
    (h : WritesPairs written g g1) (h1 : WritesPairs more g1 g2) :
    WritesPairs (written ++ more) g g2 := by
  refine ⟨h1.roles.trans h.roles, fun pair => ?_⟩
  have hnames (name : String) : g1.HasRole name ↔ g.HasRole name := by
    rw [Graph.HasRole, h.roles, ← Graph.HasRole]
  rw [h1.pairs, h.pairs, hnames, hnames, List.mem_append]
  tauto

theorem upsertHandoffEdge_writes (hids : ((w.graphs agentType).roles.map (·.id)).Nodup)
    (fromRole toRole : String) (confidence : ℚ) :
    Triple (upsertHandoffEdge agentType fromRole toRole confidence) w
      (fun _ w' => WritesPairs [(fromRole, toRole)] (w.graphs agentType) (w'.graphs agentType))
      fun _ w' => w'.graphs agentType = w.graphs agentType := by
  unfold upsertHandoffEdge
  apply Triple.bind (query_triple (I := (· = w.graphs agentType)) rfl)
  rintro rows w1 ⟨hquery, hw1⟩
  have hhead : rows.head? = none ↔
      (fromRole, toRole) ∉ (w.graphs agentType).handoffs.map (·.pair) := by
    rw [hquery]
    exact (w.graphs agentType).matchHandoff_head fromRole toRole
  rw [← hw1] at hids hhead ⊢
  cases hrows : rows.head? with
  | some confidence' =>
    have hfound : (fromRole, toRole) ∈ (w1.graphs agentType).pairs := by
      by_contra hno
      rw [hhead.mpr hno] at hrows
      cases hrows
    refine execute_triple (I := (· = w1.graphs agentType)) rfl fun _ g h => ?_
    obtain ⟨hroles, hpairs⟩ := setHandoff_pairs h
    refine ⟨hroles, fun pair => ?_⟩
    rw [hpairs, List.mem_singleton]
    refine ⟨.inl, ?_⟩
    rintro (hold | ⟨rfl, -⟩)
    · exact hold
    · exact hfound
  | none =>
    refine execute_triple (I := (· = w1.graphs agentType)) rfl fun _ g h => ?_
    obtain ⟨hroles, hpairs⟩ := createHandoff_pairs hids h
    refine ⟨hroles, fun pair => ?_⟩
    rw [hpairs, List.mem_singleton]
    refine or_congr_right (and_congr_right ?_)
    rintro rfl
    rfl

/-- Closing writes the pairs with a positive share. -/
theorem writeHandoffEdges_writes (hids : ((w.graphs agentType).roles.map (·.id)).Nodup)
    (session : SimulationSession) :
    Triple (writeHandoffEdges agentType session) w
      (fun _ w' => WritesPairs (session.handoffPairs.map (·.1)) (w.graphs agentType)
        (w'.graphs agentType))
      fun _ _ => True := by
  refine .bind (Triple.mono (.forM_until (I := fun done (w' : World) =>
    WritesPairs (done.map (·.1)) (w.graphs agentType) (w'.graphs agentType))
    (fun done entry w1 hw1 => ?_) (.refl _)) (fun _ _ h => h) fun _ _ _ => trivial)
      fun _ w1 hw1 => .pure hw1
  obtain ⟨⟨fromRole, toRole⟩, stats⟩ := entry
  have hids1 : ((w1.graphs agentType).roles.map (·.id)).Nodup := by rwa [hw1.roles]
  apply (upsertHandoffEdge_writes hids1 fromRole toRole (pyRound 3 stats.confidence)).mono
  · intro _ w2 hw2
    rw [List.map_append]
    exact hw1.append hw2
  · intro e w2 hw2
    rwa [hw2]

/-! ## Writing the roles -/

/-- The contracts give roles to their agents. -/
theorem upsertAgentRoles_names (hids : ((w.graphs agentType).roles.map (·.id)).Nodup)
    (agents : List AgentContract) :
    Triple (agents.forM (upsertAgentRole agentType)) w
      (fun _ w' => ((w'.graphs agentType).roles.map (·.id)).Nodup ∧
        ∀ name, (w'.graphs agentType).HasRole name ↔
          (w.graphs agentType).HasRole name ∨ name ∈ agents.map (·.agentName))
      fun _ _ => True := by
  refine Triple.mono (.forM_until (I := fun done (w' : World) =>
    ((w'.graphs agentType).roles.map (·.id)).Nodup ∧ ∀ name, (w'.graphs agentType).HasRole name ↔
      (w.graphs agentType).HasRole name ∨ name ∈ done.map (·.agentName))
    (fun done agent w1 hw1 => ?_) ⟨hids, by simp⟩) (fun _ _ h => h) fun _ _ _ => trivial
  obtain ⟨hids1, hnames1⟩ := hw1
  apply (upsertAgentRole_triple agentType agent w1).mono
  · rintro _ w2 ⟨-, w3, hupsert⟩
    refine ⟨hupsert.ids hids1, fun name => ?_⟩
    rw [Graph.HasRole, hupsert.mem_names, ← Graph.HasRole, hnames1, List.map_append,
      List.mem_append, List.map_singleton, List.mem_singleton, or_assoc]
  · intro e w2 hw2
    rw [hw2]
    exact ⟨hids1, hnames1⟩

/-! ## Role ids -/

variable {request : Request} {l : Option (Event host)}

/-- The ids of the roles stay a primary key. -/
theorem Effect.roleIds (he : Effect request l w w')
    (h : ((w.graphs agentType).roles.map (·.id)).Nodup) :
    ((w'.graphs agentType).roles.map (·.id)).Nodup := by
  rcases he.roles_cases agentType with hroles | ⟨_, _, _, _, -, -, -, -, -, -, hupsert⟩
  · rwa [hroles]
  · exact hupsert.ids h

variable {ι : Type} [DecidableEq ι]

theorem roleIds_run (hids : ((w.graphs agentType).roles.map (·.id)).Nodup)
    (requests : ι → Request) (sched : List ι) :
    ((((serving w requests).run sched).store.graphs agentType).roles.map (·.id)).Nodup :=
  (serves_serving w requests).invariant
    (I := fun w => ((w.graphs agentType).roles.map (·.id)).Nodup)
    (fun _ _ _ _ he => he.roleIds) (fun _ _ q w _ h => by simpa using h) hids sched

/-! ## What closing counts -/

/-- The pairs that have had a turn without violations. -/
def SimulationSession.cleanPairs (session : SimulationSession) : Finset (String × String) :=
  ((session.messages.filter (·.violations = 0)).map (·.pair)).toFinset

variable {session : SimulationSession}

theorem SimulationSession.mem_cleanPairs :
    pair ∈ session.cleanPairs ↔ session.cleanTurns pair ≠ 0 := by
  rw [cleanPairs, List.mem_toFinset, cleanTurns, ← Nat.pos_iff_ne_zero, List.countP_pos_iff]
  simp only [between, List.mem_map, List.mem_filter, decide_eq_true_eq]
  exact exists_congr fun message => by tauto

/-- Closing writes the clean pairs. -/
theorem SimulationSession.Transcribed.mem_handoffPairs (h : session.Transcribed) :
    pair ∈ session.handoffPairs.map (·.1) ↔ pair ∈ session.cleanPairs := by
  rw [mem_cleanPairs, ← pairConfidences_pairs]
  constructor
  · intro hmem hclean
    obtain ⟨entry, hentry, hpair⟩ := List.mem_map.mp hmem
    have hlookup := h.lookup_pairConfidences pair
    rw [if_pos hclean] at hlookup
    exact Keyed.lookup_eq_none.mp hlookup entry hentry hpair
  · intro hclean
    have hlookup := h.lookup_pairConfidences pair
    rw [if_neg hclean] at hlookup
    exact List.mem_map.mpr ⟨_, Keyed.mem_of_lookup hlookup⟩

/-- Closing counts the clean pairs. -/
theorem SimulationSession.Transcribed.length_handoffPairs (h : session.Transcribed) :
    session.handoffPairs.length = session.cleanPairs.card := by
  rw [← List.length_map (·.1), ← List.toFinset_card_of_nodup (handoffPairs_nodup session)]
  congr 1
  ext pair
  rw [List.mem_toFinset, h.mem_handoffPairs]

variable {sessionId : String} {result : CloseResult}

/-- A close that returns leaves roles for its agents, and the clean pairs whose names both have
roles. -/
theorem closeSession_writes (hs : w.sessions sessionId = some session)
    (ha : w.sessionAgents sessionId = some agents)
    (hids : ((w.graphs session.agentTypeId).roles.map (·.id)).Nodup)
    (hclose : (closeSession sessionId).runAlone w = (.ok result, w')) :
    ∃ g, (∀ name, g.HasRole name ↔ (w.graphs session.agentTypeId).HasRole name ∨
        name ∈ agents.map (·.agentName)) ∧
      WritesPairs (session.handoffPairs.map (·.1)) g (w'.graphs session.agentTypeId) := by
  obtain ⟨summary, w1, hflush, hgraphs, -⟩ := closeSession_returns hclose
  rw [hgraphs]
  rcases flushSession_cases sessionId w with ⟨e, he⟩ | ⟨session', agents', hs', ha', -, hcases⟩
  · rw [he] at hflush
    cases hflush
  · rw [hs, Option.some.injEq] at hs'
    rw [ha, Option.some.injEq] at ha'
    subst hs' ha'
    rcases hcases with ⟨e, w2, -, he⟩ | ⟨w2, w3, edges, closedAt, hroles, hedges, he⟩ <;>
      rw [he] at hflush <;> cases hflush
    obtain ⟨hids2, hnames⟩ := (upsertAgentRoles_names hids agents).of_ok hroles
    have hwrites := (writeHandoffEdges_writes hids2 session).of_ok hedges
    exact ⟨_, hnames, by simpa using hwrites⟩

/-- In every state that requests reach, the summary of a close that returns counts, besides the
logged changes of contracts, the clean pairs that have a handoff after it, and they all have one,
exactly when for each of them both names are those of roles or of agents of the session. -/
theorem close_counts_iff (w : World) (hw : ∀ sessionId, w.sessions sessionId = none)
    (hids : ∀ name, ((w.graphs name).roles.map (·.id)).Nodup) (requests : ι → Request)
    (sched : List ι) (sessionId : String) (session : SimulationSession)
    (agents : List AgentContract)
    (hs : ((serving w requests).run sched).store.sessions sessionId = some session)
    (ha : ((serving w requests).run sched).store.sessionAgents sessionId = some agents)
    (result : CloseResult) (w' : World)
    (hclose : (closeSession sessionId).runAlone ((serving w requests).run sched).store =
      (.ok result, w')) :
    (result.coordEdgesWritten = session.coordNamespaceWrites.length +
        (session.cleanPairs.filter (· ∈ (w'.graphs session.agentTypeId).pairs)).card ∧
      ∀ pair ∈ session.cleanPairs, pair ∈ (w'.graphs session.agentTypeId).pairs) ↔
    ∀ pair ∈ session.cleanPairs, ∀ name ∈ [pair.1, pair.2],
      (((serving w requests).run sched).store.graphs session.agentTypeId).HasRole name ∨
        name ∈ agents.map (·.agentName) := by
  have htranscribed : session.Transcribed := transcribed_run hw requests sched sessionId session hs
  have hids' := roleIds_run (hids session.agentTypeId) requests sched
  obtain ⟨g, hnames, hwrites⟩ := closeSession_writes hs ha hids' hclose
  have hpairs (pair : String × String) (hclean : pair ∈ session.cleanPairs) :
      pair ∈ (w'.graphs session.agentTypeId).pairs ↔ ∀ name ∈ [pair.1, pair.2],
        (((serving w requests).run sched).store.graphs session.agentTypeId).HasRole name ∨
          name ∈ agents.map (·.agentName) := by
    rw [hwrites.pairs, htranscribed.mem_handoffPairs, List.forall_mem_cons,
      List.forall_mem_singleton, ← hnames, ← hnames]
    refine ⟨?_, fun hboth => .inr ⟨hclean, hboth⟩⟩
    rintro (hold | ⟨-, hboth⟩)
    · exact Graph.hasRole_of_mem_pairs hold
    · exact hboth
  constructor
  · rintro ⟨-, hall⟩ pair hclean
    exact (hpairs pair hclean).mp (hall pair hclean)
  · intro hnamed
    have hall : ∀ pair ∈ session.cleanPairs, pair ∈ (w'.graphs session.agentTypeId).pairs :=
      fun pair hclean => (hpairs pair hclean).mpr (hnamed pair hclean)
    refine ⟨?_, hall⟩
    rw [Finset.filter_true_of_mem hall, closeSession_reports hs hclose, coordEdgesWritten,
      htranscribed.length_handoffPairs]

/-- Both agents of the clean message are in the team. -/
theorem close_counts_iff_served : ∃ result w', served ["table"] = (.ok result, w') ∧
    result.coordEdgesWritten = 1 ∧ ("waiter", "cook") ∈ (w'.graphs "shop").pairs := by
  have hsession : (((serving staffed (service ["table"])).run [0, 0, 1, 2]).store.sessions
      Sample.sessionId).map
        (fun s => (s.agentTypeId, s.coordNamespaceWrites.length, s.cleanPairs)) =
        some ("shop", 0, {("waiter", "cook")}) := by
    decide +kernel
  obtain ⟨session, hs, hfields⟩ := Option.map_eq_some_iff.mp hsession
  obtain ⟨htype, hfields⟩ := Prod.mk.inj hfields
  obtain ⟨hwrites, hclean⟩ := Prod.mk.inj hfields
  obtain ⟨agents, ha, hnames⟩ := served_agents
  obtain ⟨result, hclose⟩ := served_returns
  obtain ⟨hcount, hall⟩ := (close_counts_iff staffed (fun _ => rfl) (fun _ => List.nodup_nil)
    (service ["table"]) [0, 0, 1, 2] Sample.sessionId session agents hs ha result _ hclose).mpr
      (by simp [hclean, hnames])
  rw [hclean] at hcount hall
  rw [htype] at hcount hall
  have hmem := hall ("waiter", "cook") (Finset.mem_singleton_self _)
  refine ⟨result, _, hclose, ?_, hmem⟩
  rw [hcount, hwrites, Finset.filter_singleton, if_pos hmem]
  rfl

/-- The sender of the only message is not in the team: an edge is counted and none is created. -/
theorem close_counts_missing :
    ¬ ∀ session result w',
      ((serving lenient (service [])).run [0, 0, 1]).store.sessions Sample.sessionId =
        some session →
      (closeSession Sample.sessionId).runAlone
        ((serving lenient (service [])).run [0, 0, 1]).store = (.ok result, w') →
      result.coordEdgesWritten = session.coordNamespaceWrites.length +
        (session.cleanPairs.filter (· ∈ (w'.graphs "shop").pairs)).card ∧
      ∀ pair ∈ session.cleanPairs, pair ∈ (w'.graphs "shop").pairs := by
  intro h
  have hsession : (((serving lenient (service [])).run [0, 0, 1]).store.sessions
      Sample.sessionId).map (·.cleanPairs) = some {("waiter", "cook")} := by
    decide +kernel
  obtain ⟨session, hs, hclean⟩ := Option.map_eq_some_iff.mp hsession
  obtain ⟨result, hclose⟩ := ok_of_isSome (x := (closeSession Sample.sessionId).runAlone
    ((serving lenient (service [])).run [0, 0, 1]).store) (by decide +kernel)
  have hmem := (h session result _ hs hclose).2 ("waiter", "cook") (by rw [hclean]; simp)
  exact absurd hmem (by decide +kernel)

end AgentWorx
