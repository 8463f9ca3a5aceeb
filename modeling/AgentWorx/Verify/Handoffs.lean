import AgentWorx.Verify.Retry

/-!
# The coordination graph

Roles are found by their names and handoffs by the names of their ends. A graph in which names and
ids are not shared stays one when sessions are closed, also when a close raises on its way, and the
confidence of a handoff is the share of its clean observations.
-/

namespace AgentWorx

open Coop Coop.Sync

variable {w w' : World} {g g' : Graph} {session : SimulationSession} {agents : List AgentContract}
  {handoffs : List Handoff}

/-! ## Shares of clean observations -/

/-- Not more observations are clean than there are. -/
def PairStats.Sound (stats : PairStats) : Prop := stats.clean ≤ stats.total

theorem countPair_sound {stats : List ((String × String) × PairStats)} (pair : String × String)
    (isClean : Bool) (h : ∀ entry ∈ stats, entry.2.Sound) :
    ∀ entry ∈ countPair pair isClean stats, entry.2.Sound := by
  induction stats with
  | nil =>
    intro entry hentry
    rw [List.mem_singleton.mp hentry]
    cases isClean <;> simp [PairStats.Sound]
  | cons first rest ih =>
    obtain ⟨hfirst, hrest⟩ := List.forall_mem_cons.mp h
    obtain ⟨names, clean, total⟩ := first
    unfold countPair
    by_cases hpair : names = pair
    · rw [if_pos hpair]
      refine List.forall_mem_cons.mpr ⟨?_, hrest⟩
      have hle : clean ≤ total := hfirst
      cases isClean <;> simp only [PairStats.Sound] <;> simp <;> omega
    · rw [if_neg hpair]
      exact List.forall_mem_cons.mpr ⟨hfirst, ih hrest⟩

theorem pairStats_sound (observations : List SimulationObservation) :
    ∀ entry ∈ pairStats observations, entry.2.Sound := by
  refine List.foldlRecOn
    (motive := fun stats => ∀ entry : (String × String) × PairStats, entry ∈ stats → entry.2.Sound)
    observations _ (by simp) fun stats hstats observation _ => ?_
  split
  · exact countPair_sound _ _ hstats
  · exact hstats

theorem PairStats.Sound.confidence {stats : PairStats} (h : stats.Sound) :
    0 ≤ stats.confidence ∧ stats.confidence ≤ 1 := by
  unfold PairStats.confidence
  split_ifs with htotal
  · have hpos : (0 : ℚ) < stats.total := by positivity
    have hle : (stats.clean : ℚ) ≤ stats.total := by exact_mod_cast h
    exact toDouble_mem_unit ⟨by positivity, (div_le_one hpos).mpr hle⟩
  · exact ⟨le_rfl, zero_le_one⟩

/-- The confidences that closing writes. -/
theorem pairConfidences_mem_unit (session : SimulationSession) :
    ∀ pair ∈ session.pairConfidences, 0 ≤ pair.2 ∧ pair.2 ≤ 1 := by
  intro pair hpair
  obtain ⟨⟨names, stats⟩, hstats, rfl⟩ := List.mem_map.mp hpair
  have hsound := pairStats_sound _ _ (List.mem_of_mem_filter hstats)
  exact pyRound_mem_unit 3 hsound.confidence

/-! ## Handoffs -/

/-- One handoff for each pair of names, with a confidence between zero and one. -/
structure HandoffsSound (handoffs : List Handoff) : Prop where
  pairs : (handoffs.map (·.pair)).Nodup
  confidence : ∀ handoff ∈ handoffs, 0 ≤ handoff.confidence ∧ handoff.confidence ≤ 1

theorem HandoffsSound.put (h : HandoffsSound handoffs) {pairs : List ((String × String) × ℚ)}
    (hpairs : ∀ pair ∈ pairs, 0 ≤ pair.2 ∧ pair.2 ≤ 1) :
    HandoffsSound (putHandoffs pairs handoffs) := by
  induction pairs generalizing handoffs with
  | nil => exact h
  | cons pair pairs ih =>
    obtain ⟨hpair, hrest⟩ := List.forall_mem_cons.mp hpairs
    refine ih ⟨?_, fun handoff hhandoff => ?_⟩ hrest
    · exact Keyed.nodup_upsert (handoffs_overwrite.key_new pair)
        (handoffs_overwrite.key_update pair) h.pairs
    · rcases Keyed.mem_upsert hhandoff with ⟨hold, -⟩ | rfl | ⟨old, hold, -, rfl⟩
      · exact h.confidence handoff hold
      · exact hpair
      · exact hpair

/-! ## The graph -/

/-- Roles have names and ids of their own, an edge connects two of them and is the only one to do
so, and its confidence is between zero and one. -/
structure Graph.Coordinated (g : Graph) : Prop where
  roles : g.RolesUnique
  grounded : g.Grounded
  edges : (g.handsOffTo.map fun h => (h.source, h.target)).Nodup
  confidence : ∀ h ∈ g.handsOffTo, 0 ≤ h.confidence ∧ h.confidence ≤ 1

namespace Graph

/-- The name of the role with the id. -/
def roleName (g : Graph) (id : String) : String := ((g.role? id).map (·.name)).getD ""

/-- No edge is lost when the ids of its ends are replaced by names. -/
theorem handoffs_eq_map (hg : g.Grounded) : g.handoffs = g.handsOffTo.map fun h =>
    ⟨(g.roleName h.source, g.roleName h.target), h.condition, h.validates, h.confidence⟩ := by
  rw [handoffs_eq, ← List.filterMap_eq_map]
  refine List.filterMap_congr fun h hh => ?_
  obtain ⟨hsource, htarget⟩ := hg h hh
  obtain ⟨a, ha⟩ := role?_isSome hsource
  obtain ⟨b, hb⟩ := role?_isSome htarget
  simp [roleName, ha, hb]

theorem roleName_injOn (hg : g.RolesUnique) {id id' : String} (h : id ∈ g.roles.map (·.id))
    (h' : id' ∈ g.roles.map (·.id)) (hname : g.roleName id = g.roleName id') : id = id' := by
  obtain ⟨role, hrole, rfl⟩ := List.mem_map.mp h
  obtain ⟨role', hrole', rfl⟩ := List.mem_map.mp h'
  simp only [roleName, role?_of_mem hg hrole, role?_of_mem hg hrole', Option.map_some,
    Option.getD_some] at hname
  rw [List.inj_on_of_nodup_map hg.names hrole hrole' hname]

/-- Edges are told apart by the ids of their ends just as by the names. -/
theorem coordinated_iff : g.Coordinated ↔
    g.RolesUnique ∧ g.Grounded ∧ HandoffsSound g.handoffs := by
  have hpairs (hg : g.Grounded) : g.handoffs.map (·.pair) =
      (g.handsOffTo.map fun h => (h.source, h.target)).map fun ids =>
        (g.roleName ids.1, g.roleName ids.2) := by
    rw [handoffs_eq_map hg, List.map_map, List.map_map]
    rfl
  constructor
  · rintro ⟨hroles, hgrounded, hedges, hconfidence⟩
    refine ⟨hroles, hgrounded, ?_, ?_⟩
    · rw [hpairs hgrounded]
      refine hedges.map_on fun ids hids ids' hids' hsame => ?_
      obtain ⟨h, hh, rfl⟩ := List.mem_map.mp hids
      obtain ⟨h', hh', rfl⟩ := List.mem_map.mp hids'
      obtain ⟨hsource, htarget⟩ := Prod.mk.inj hsame
      exact Prod.ext (roleName_injOn hroles (hgrounded h hh).1 (hgrounded h' hh').1 hsource)
        (roleName_injOn hroles (hgrounded h hh).2 (hgrounded h' hh').2 htarget)
    · rw [handoffs_eq_map hgrounded]
      exact List.forall_mem_map.mpr hconfidence
  · rintro ⟨hroles, hgrounded, hsound, hconfidence⟩
    refine ⟨hroles, hgrounded, ?_, ?_⟩
    · rw [hpairs hgrounded] at hsound
      exact hsound.of_map
    · rw [handoffs_eq_map hgrounded] at hconfidence
      exact List.forall_mem_map.mp hconfidence

end Graph

theorem ofEdges_coordinated : OfEdges Graph.Coordinated := by
  rintro g g' hroles hedges ⟨⟨hids, hnames⟩, hgrounded, hpairs, hconfidence⟩
  refine ⟨⟨?_, ?_⟩, ?_, ?_, ?_⟩
  · rwa [hroles]
  · rwa [hroles]
  · rwa [Graph.Grounded, hedges, hroles]
  · rwa [hedges]
  · rwa [hedges]

/-- Closing keeps the graphs coordinated, also when it raises. -/
theorem flushSession_coordinated (sessionId : String) :
    Keeps (Preserves (EveryGraph Graph.Coordinated)) (flushSession sessionId) := by
  intro w hw
  rcases flushSession_cases sessionId w with ⟨e, he⟩ | ⟨session, agents, hs, ha, hactive, -⟩
  · rw [he]
    exact hw
  · obtain ⟨hunique, hgrounded, hsound⟩ := Graph.coordinated_iff.mp (hw session.agentTypeId)
    have hput {pairs : List ((String × String) × ℚ)} (hpairs : pairs ⊆ session.pairConfidences) :=
      hsound.put fun pair hpair => pairConfidences_mem_unit session pair (hpairs hpair)
    have hshows := flushSession_shows hs ha hactive ⟨hunique, hgrounded, rfl, rfl⟩
    have hflush := flushSession_flush hs ha hactive
    refine (hshows.and hflush).state (P := EveryGraph Graph.Coordinated) ?_ ?_
    · rintro _ w' ⟨hg, w2, closedAt, hflush, -, rfl⟩ name
      by_cases hname : name = session.agentTypeId
      · subst hname
        refine Graph.coordinated_iff.mpr ⟨hg.unique, hg.grounded, ?_⟩
        rw [hg.handoffs_eq]
        exact hput (List.filter_subset_self _)
      · rw [World.setSession_graphs, World.bump_graphs, hflush.others hname]
        exact hw name
    · rintro e w' ⟨⟨_, _, hg, ⟨pairs, hpairs, rfl⟩, -⟩, hflush⟩ name
      by_cases hname : name = session.agentTypeId
      · subst hname
        refine Graph.coordinated_iff.mpr ⟨hg.unique, hg.grounded, ?_⟩
        rw [hg.handoffs_eq]
        exact hput hpairs
      · rw [hflush.others hname]
        exact hw name

/-! ## Roles stay -/

/-- Every role is still there under its id, and has its name. -/
def RolesStay (w w' : World) : Prop :=
  ∀ name, ∀ role ∈ (w.graphs name).roles, ∃ role' ∈ (w'.graphs name).roles,
    role'.id = role.id ∧ role'.name = role.name

instance : IsPreorder World RolesStay where
  refl _ _ role hrole := ⟨role, hrole, rfl, rfl⟩
  trans _ _ _ h1 h2 name role hrole := by
    obtain ⟨role1, hrole1, hid1, hname1⟩ := h1 name role hrole
    obtain ⟨role2, hrole2, hid2, hname2⟩ := h2 name role1 hrole1
    exact ⟨role2, hrole2, hid2.trans hid1, hname2.trans hname1⟩

theorem RolesStay.of_same (h : ∀ name, (w'.graphs name).roles = (w.graphs name).roles) :
    RolesStay w w' := by
  intro name role hrole
  rw [h]
  exact ⟨role, hrole, rfl, rfl⟩

theorem UpsertsRole.rolesStay {agent : AgentContract} (h : UpsertsRole w agent g g')
    {role : AgentRole} (hrole : role ∈ g.roles) :
    ∃ role' ∈ g'.roles, role'.id = role.id ∧ role'.name = role.name := by
  cases h with
  | @update updated =>
    refine ⟨_, List.mem_map_of_mem hrole, ?_⟩
    split_ifs <;> exact ⟨rfl, rfl⟩
  | create => exact ⟨role, List.mem_append_left _ hrole, rfl, rfl⟩

theorem FlushStep.rolesStay {agentType : String} (h : FlushStep agentType agents w w') :
    RolesStay w w' := by
  intro name role hrole
  by_cases hname : name = agentType
  · subst hname
    cases h with
    | tick => exact ⟨role, hrole, rfl, rfl⟩
    | role _ hupsert => simpa using hupsert.rolesStay hrole
    | handoffs => exact ⟨role, by simpa using hrole, rfl, rfl⟩
  · cases h with
    | tick => exact ⟨role, hrole, rfl, rfl⟩
    | role => exact ⟨role, by simpa [hname] using hrole, rfl, rfl⟩
    | handoffs => exact ⟨role, by simpa [hname] using hrole, rfl, rfl⟩

variable {request : Request} {l : Option (Event host)}

theorem Effect.rolesStay (he : Effect request l w w') : RolesStay w w' := by
  cases he with
  | tick | score | reset | graduate | start | session => exact .of_same fun _ => rfl
  | @knowledge learned g _ hlearns =>
    refine .of_same fun name => ?_
    by_cases hname : name = learned
    · subst hname
      simpa using hlearns.roles
    · simp [hname]
  | @schema payload =>
    have hschema := initializeSchema_provisions payload.name w
    obtain ⟨tables, -, hg⟩ := hschema.graph
    refine .of_same fun name => ?_
    by_cases hname : name = payload.name
    · rw [hname, hg]
    · rw [hschema.others name hname]
  | flush _ _ _ _ hstep => exact hstep.rolesStay

variable {ι : Type} [DecidableEq ι] {requests : ι → Request} {c : Loop host ι Response}

theorem Serves.rolesStay (h : Serves requests c) (i : ι) : RolesStay c.store (c.step i).store := by
  rcases h.step_cases i with hstep | ⟨-, hseg, -⟩ | ⟨q, k, -, -, hstore, -⟩
  · rw [hstep]
    exact refl_of _ _
  · exact Segment.keeps (fun _ _ he => he.rolesStay) hseg
  · rw [hstore]
    exact .of_same fun name => by rw [World.serve_graphs]

theorem Serves.run_rolesStay (h : Serves requests c) (sched : List ι) :
    RolesStay c.store (c.run sched).store := by
  induction sched generalizing c with
  | nil => exact refl_of _ _
  | cons i sched ih => exact trans_of _ (h.rolesStay i) (ih (h.step i))

/-- In every state that requests reach, also after closes that have raised, no two roles have one
name, no two edges connect the same roles in the same direction, and the confidences are shares;
and every role that is there stays, with its id. -/
theorem coordination_sound (w : World) (hw : ∀ name, (w.graphs name).Coordinated)
    (requests : ι → Request) (pre post : List ι) (name : String) :
    (((serving w requests).run pre).store.graphs name).Coordinated ∧
    ∀ role ∈ (((serving w requests).run pre).store.graphs name).roles,
      ∃ role' ∈ (((serving w requests).run (pre ++ post)).store.graphs name).roles,
        role'.id = role.id ∧ role'.name = role.name := by
  constructor
  · exact everyGraph_run (handle_keepsGraphs ofEdges_coordinated flushSession_coordinated) hw
      requests pre name
  · rw [Loop.run_append]
    exact ((serves_serving w requests).run pre).run_rolesStay post name

/-- Two sessions are closed over an engine that lets the second close update the role. -/
theorem coordination_sound_twice : ∃ role ∈ (((serving lenient simulations).run
    ([0, 0, 1, 1, 4, 4] ++ [7, 7])).store.graphs "shop").roles, role.name = "cook" := by
  have hstart (name : String) : (lenient.graphs name).Coordinated :=
    ⟨⟨List.nodup_nil, List.nodup_nil⟩, fun h hh => (by cases hh), List.nodup_nil,
      fun h hh => by cases hh⟩
  have hnames : (((serving lenient simulations).run [0, 0, 1, 1, 4, 4]).store.graphs
      "shop").roles.map (·.name) = ["cook"] := by
    decide +kernel
  obtain ⟨role, hrole, hname⟩ := List.mem_map.mp (hnames ▸ List.mem_singleton_self "cook")
  obtain ⟨-, hstay⟩ :=
    coordination_sound lenient hstart simulations [0, 0, 1, 1, 4, 4] [7, 7] "shop"
  obtain ⟨role', hrole', -, hname'⟩ := hstay role hrole
  exact ⟨role', hrole', hname'.trans hname⟩

end AgentWorx
