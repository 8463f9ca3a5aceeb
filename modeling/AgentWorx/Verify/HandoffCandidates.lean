import AgentWorx.Lib.Passes
import AgentWorx.Verify.Clusters
import AgentWorx.Verify.Sample

/-!
# Handoff candidates

`_find_cross_cluster_edges` does not look at relations. That it reports no ordinary one follows from
the clustering: connected nodes are in one large component, or both in the union of the small ones.
-/

namespace AgentWorx

open Coop Coop.Sync UnionFind

variable {ids : List String} {root : Parent} {edges : List (String × String × String)}
  {groups : List (String × List String)}

/-! ## The edges between task concepts -/

/-- The edges between task concepts, with their ends. -/
def Graph.taskRows (g : Graph) : List (Concept × RelatesTo × Concept) :=
  g.relatesToRows.filter fun row => row.1.nspace = "task" ∧ row.2.2.nspace = "task"

/-- The ids and labels of the task concepts. -/
def Graph.taskNodes (g : Graph) : List (String × String) :=
  (g.concepts.filter (·.nspace = "task")).map fun c => (c.id, c.label)

/-- The edges between task concepts, by the ids of their ends. -/
def Graph.taskEdges (g : Graph) : List (String × String × String) :=
  g.taskRows.map fun row => (row.1.id, row.2.2.id, row.2.1.relation)

/-- Some cluster has both nodes. -/
def Together (clusters : List Cluster) (u v : String) : Prop :=
  ∃ c ∈ clusters, u ∈ c.nodeIds ∧ v ∈ c.nodeIds

instance (clusters : List Cluster) (u v : String) : Decidable (Together clusters u v) :=
  inferInstanceAs (Decidable (∃ c ∈ clusters, _))

/-- The candidate names the ends of the edge, their clusters and the relation. -/
structure Describes (clusters : List Cluster) (row : Concept × RelatesTo × Concept)
    (edge : CrossEdge) : Prop where
  sourceLabel : edge.sourceLabel = row.1.label
  targetLabel : edge.targetLabel = row.2.2.label
  relation : edge.relation = row.2.1.relation
  sourceCluster : ∃ c ∈ clusters, c.id = edge.sourceCluster ∧ row.1.id ∈ c.nodeIds
  targetCluster : ∃ c ∈ clusters, c.id = edge.targetCluster ∧ row.2.2.id ∈ c.nodeIds

/-! ## Nodes and their clusters -/

namespace Clustering

variable {nodes : List (String × String)} {clusters : List Cluster}

theorem exists_cluster (h : Clustering nodes edges clusters) {v : String}
    (hv : v ∈ nodes.map (·.1)) : ∃ c ∈ clusters, v ∈ c.nodeIds :=
  List.mem_flatMap.mp (h.partition.mem_iff.mpr hv)

/-- Nodes that are connected are in one cluster: in the same large component, or in two components
of the same size. -/
theorem together (h : Clustering nodes edges clusters) {u v : String}
    (hu : u ∈ nodes.map (·.1)) (hv : v ∈ nodes.map (·.1))
    (huv : Connected (nodes.map (·.1)) edges u v) : Together clusters u v := by
  obtain ⟨c, hc, huc⟩ := h.exists_cluster hu
  refine ⟨c, hc, huc, ?_⟩
  by_cases hid : c.id = "general"
  · have hsame : component (nodes.map (·.1)) edges v = component (nodes.map (·.1)) edges u := by
      ext x
      exact and_congr_right fun _ => ⟨huv.trans _ _ _, (huv.symm _ _).trans _ _ _⟩
    rw [h.general c hc hid, hsame]
    exact ⟨hv, ((h.general c hc hid u).mp huc).2⟩
  · obtain ⟨-, r, -, hmem⟩ := h.large c hc hid
    rw [hmem]
    exact ⟨hv, ((hmem u).mp huc).2.trans _ _ _ huv⟩

/-- A node is in one cluster. -/
theorem cluster_unique (h : Clustering nodes edges clusters) (hids : (nodes.map (·.1)).Nodup)
    {c c' : Cluster} (hc : c ∈ clusters) (hc' : c' ∈ clusters) {v : String}
    (hv : v ∈ c.nodeIds) (hv' : v ∈ c'.nodeIds) : c = c' := by
  have hsymm : Std.Symm (Function.onFun List.Disjoint Cluster.nodeIds) := ⟨fun _ _ hd => hd.symm⟩
  have hdisjoint := (List.nodup_flatMap.mp (h.partition.nodup_iff.mpr hids)).2
  by_contra hne
  exact hdisjoint.forall hc hc' hne hv hv'

/-- `node_to_cluster` holds the cluster of each node. -/
theorem nodeToCluster_eq (h : Clustering nodes edges clusters) (hids : (nodes.map (·.1)).Nodup)
    {c : Cluster} (hc : c ∈ clusters) {v : String} (hv : v ∈ c.nodeIds) :
    nodeToCluster clusters v = some c.id := by
  rw [nodeToCluster]
  cases hfind : clusters.reverse.find? (v ∈ ·.nodeIds) with
  | none =>
    have hno := List.find?_eq_none.mp hfind c (List.mem_reverse.mpr hc)
    exact absurd hv (by simpa using hno)
  | some c' =>
    have hc' := List.mem_reverse.mp (List.mem_of_find?_eq_some hfind)
    have hv' : v ∈ c'.nodeIds := by simpa using List.find?_some hfind
    rw [h.cluster_unique hids hc hc' hv hv']
    rfl

end Clustering

/-- Clusters are told apart by their ids. -/
theorem GroupsComponents.id_injective {nodes : List (String × String)}
    (h : GroupsComponents (nodes.map (·.1)) edges root groups)
    (hgeneral : "general" ∉ nodes.map (·.1)) {c c' : Cluster}
    (hc : c ∈ clustersOfGroups nodes groups) (hc' : c' ∈ clustersOfGroups nodes groups)
    (hid : c.id = c'.id) : c = c' := by
  obtain ⟨group, hgroup, -, rfl⟩ | ⟨-, rfl⟩ := mem_clustersOfGroups.mp hc <;>
    obtain ⟨group', hgroup', -, rfl⟩ | ⟨-, rfl⟩ := mem_clustersOfGroups.mp hc'
  · rw [List.inj_on_of_nodup_map h.grouped.keys hgroup hgroup' hid]
  · exact absurd hid (h.key_ne_general hgeneral hgroup)
  · exact absurd hid.symm (h.key_ne_general hgeneral hgroup')
  · rfl

/-- The id of a cluster is that of a node, or `general`. -/
theorem GroupsComponents.id_cases {nodes : List (String × String)}
    (h : GroupsComponents (nodes.map (·.1)) edges root groups) {c : Cluster}
    (hc : c ∈ clustersOfGroups nodes groups) : c.id ∈ nodes.map (·.1) ∨ c.id = "general" := by
  obtain ⟨group, hgroup, -, rfl⟩ | ⟨-, rfl⟩ := mem_clustersOfGroups.mp hc
  · obtain ⟨u, hu⟩ := List.exists_mem_of_ne_nil _ (h.grouped.nonempty group hgroup)
    obtain ⟨hmem, hroot⟩ := (h.grouped.mem_iff hgroup).mp hu
    left
    rw [show (largeCluster nodes group).id = group.1 from rfl, ← hroot]
    exact h.root_mem u hmem
  · exact .inr rfl

/-! ## The calls -/

/-- What `_find_cross_cluster_edges` makes of a row. -/
def crossEdge (clusters : List Cluster) (row : Concept × RelatesTo × Concept) : Option CrossEdge :=
  match nodeToCluster clusters row.1.id, nodeToCluster clusters row.2.2.id with
  | some sourceCluster, some targetCluster =>
    if sourceCluster ≠ "" ∧ targetCluster ≠ "" ∧ sourceCluster ≠ targetCluster then
      some ⟨row.1.label, sourceCluster, row.2.2.label, targetCluster, row.2.1.relation⟩
    else none
  | _, _ => none

theorem findCrossClusterEdges_ready {agentType : String} {w : World}
    (hready : GraphReady w agentType) (clusters : List Cluster) :
    (findCrossClusterEdges agentType clusters).exec w =
      (.ok ((w.graphs agentType).taskRows.filterMap (crossEdge clusters)), w.bump) := by
  have hrows : (execute agentType (.query [] [.concept, .relatesTo] Graph.taskRows) []).exec w =
      (.ok (w.graphs agentType).taskRows, w.bump) := query_ready hready (by simp)
  exact exec_bind_ok hrows

/-- On a graph that is ready the clusters are those of its task concepts. -/
theorem findClusters_ready {agentType : String} {w : World} (hready : GraphReady w agentType) :
    ∃ root groups w1, GroupsComponents ((w.graphs agentType).taskNodes.map (·.1))
        (w.graphs agentType).taskEdges root groups ∧
      (findClusters agentType).exec w =
        (.ok (clustersOfGroups (w.graphs agentType).taskNodes groups), w1) ∧
      GraphReady w1 agentType ∧ w1.graphs agentType = w.graphs agentType := by
  obtain ⟨root, groups, h, hclusters⟩ :=
    clusterNodes_groups (w.graphs agentType).taskNodes (w.graphs agentType).taskEdges
  have hnodes : (loadTaskNodes agentType).exec w = (.ok (w.graphs agentType).taskNodes, w.bump) :=
    query_ready hready (by simp)
  have hedges : (loadTaskEdges agentType).exec w.bump =
      (.ok (w.graphs agentType).taskEdges, w.bump.bump) := query_ready hready.bump (by simp)
  refine ⟨root, groups, _, h, findClusters_exec h hclusters hnodes hedges, ?_, ?_⟩
  · split_ifs
    · exact hready.bump
    · exact hready.bump.bump
  · split_ifs <;> rfl

/-! ## Both on one graph -/

/-- The ends of an edge between task concepts. -/
theorem Graph.taskRows_ends {g : Graph} {row : Concept × RelatesTo × Concept}
    (h : row ∈ g.taskRows) :
    (row.1 ∈ g.concepts ∧ row.1.nspace = "task") ∧ row.2.2 ∈ g.concepts ∧
      row.2.2.nspace = "task" := by
  simp only [taskRows, List.mem_filter, decide_eq_true_eq] at h
  obtain ⟨hrow, hsource, htarget⟩ := h
  obtain ⟨-, ha, hb⟩ := mem_relatesToRows.mp hrow
  exact ⟨⟨List.mem_of_find?_eq_some ha, hsource⟩, List.mem_of_find?_eq_some hb, htarget⟩

theorem Graph.mem_taskNodes {g : Graph} {c : Concept} (hc : c ∈ g.concepts)
    (htask : c.nspace = "task") : c.id ∈ g.taskNodes.map (·.1) := by
  refine List.mem_map.mpr ⟨(c.id, c.label), List.mem_map.mpr ⟨c, ?_, rfl⟩, rfl⟩
  simpa using ⟨hc, htask⟩

theorem Graph.taskNodes_nodup {g : Graph} (h : (g.concepts.map (·.id)).Nodup) :
    (g.taskNodes.map (·.1)).Nodup := by
  rw [taskNodes, List.map_map]
  exact h.sublist (List.filter_sublist.map _)

/-- The ids of the concepts are distinct, none is empty, and none is the name of the general
cluster. -/
structure Graph.Named (g : Graph) : Prop where
  nodup : (g.concepts.map (·.id)).Nodup
  nonempty : ∀ c ∈ g.concepts, c.id ≠ ""
  notGeneral : ∀ c ∈ g.concepts, c.id ≠ "general"

theorem Graph.Named.mem_ids {g : Graph} {id : String} (h : id ∈ g.taskNodes.map (·.1)) :
    ∃ c ∈ g.concepts, c.id = id := by
  obtain ⟨node, hnode, rfl⟩ := List.mem_map.mp h
  obtain ⟨c, hc, rfl⟩ := List.mem_map.mp hnode
  exact ⟨c, (List.mem_filter.mp hc).1, rfl⟩

theorem Graph.Named.not_general {g : Graph} (hg : g.Named) :
    "general" ∉ g.taskNodes.map (·.1) := by
  intro hmem
  obtain ⟨c, hc, hid⟩ := Graph.Named.mem_ids hmem
  exact hg.notGeneral c hc hid

theorem Graph.Named.clustering {g : Graph} (hg : g.Named)
    (h : GroupsComponents (g.taskNodes.map (·.1)) g.taskEdges root groups) :
    Clustering g.taskNodes g.taskEdges (clustersOfGroups g.taskNodes groups) :=
  h.clustering (Graph.taskNodes_nodup hg.nodup) hg.not_general

/-- An edge whose ends are in different clusters is not an ordinary one. -/
theorem Clustering.cross_relation {g : Graph} {clusters : List Cluster}
    (h : Clustering g.taskNodes g.taskEdges clusters) {row : Concept × RelatesTo × Concept}
    (hrow : row ∈ g.taskRows) (happart : ¬ Together clusters row.1.id row.2.2.id) :
    isCrossClusterRelation row.2.1.relation := by
  obtain ⟨⟨ha, htaska⟩, hb, htaskb⟩ := Graph.taskRows_ends hrow
  have hsource := Graph.mem_taskNodes ha htaska
  have htarget := Graph.mem_taskNodes hb htaskb
  by_contra hordinary
  have hlinked : Linked (g.taskNodes.map (·.1)) g.taskEdges row.1.id row.2.2.id :=
    ⟨hsource, htarget, row.2.1.relation, List.mem_map.mpr ⟨row, hrow, rfl⟩, hordinary⟩
  exact happart (h.together hsource htarget (.rel _ _ hlinked))

/-- On the clusters of the same graph, a row becomes a candidate exactly if its ends are in
different clusters. -/
theorem GroupsComponents.crossEdge {g : Graph} (hg : g.Named)
    (h : GroupsComponents (g.taskNodes.map (·.1)) g.taskEdges root groups)
    {row : Concept × RelatesTo × Concept} (hrow : row ∈ g.taskRows) :
    (Together (clustersOfGroups g.taskNodes groups) row.1.id row.2.2.id →
      AgentWorx.crossEdge (clustersOfGroups g.taskNodes groups) row = none) ∧
    (¬ Together (clustersOfGroups g.taskNodes groups) row.1.id row.2.2.id →
      ∃ edge, AgentWorx.crossEdge (clustersOfGroups g.taskNodes groups) row = some edge ∧
        Describes (clustersOfGroups g.taskNodes groups) row edge) := by
  have hids := Graph.taskNodes_nodup hg.nodup
  have hclustering := hg.clustering h
  have hnonempty {c : Cluster} (hc : c ∈ clustersOfGroups g.taskNodes groups) : c.id ≠ "" := by
    rcases h.id_cases hc with hmem | hid
    · obtain ⟨concept, hconcept, hid⟩ := Graph.Named.mem_ids hmem
      rw [← hid]
      exact hg.nonempty concept hconcept
    · rw [hid]
      decide
  obtain ⟨⟨ha, htaska⟩, hb, htaskb⟩ := Graph.taskRows_ends hrow
  obtain ⟨c, hc, hac⟩ := hclustering.exists_cluster (Graph.mem_taskNodes ha htaska)
  obtain ⟨c', hc', hbc'⟩ := hclustering.exists_cluster (Graph.mem_taskNodes hb htaskb)
  simp only [AgentWorx.crossEdge, hclustering.nodeToCluster_eq hids hc hac,
    hclustering.nodeToCluster_eq hids hc' hbc']
  constructor
  · rintro ⟨c'', hc'', hac'', hbc''⟩
    have hsame : c.id = c'.id := by
      rw [hclustering.cluster_unique hids hc hc'' hac hac'',
        hclustering.cluster_unique hids hc' hc'' hbc' hbc'']
    rw [if_neg fun hne => hne.2.2 hsame]
  · intro happart
    have hne : c.id ≠ c'.id := by
      intro hid
      obtain rfl := h.id_injective hg.not_general hc hc' hid
      exact happart ⟨c, hc, hac, hbc'⟩
    rw [if_pos ⟨hnonempty hc, hnonempty hc', hne⟩]
    exact ⟨_, rfl, rfl, rfl, rfl, ⟨c, hc, rfl, hac⟩, c', hc', rfl, hbc'⟩

/-- On every graph, the handoff candidates of its clusters are the edges between task concepts in
different clusters, in the order of the query, and an ordinary relation is never among them. -/
theorem handoff_candidates (agentType : String) (w : World) (hready : GraphReady w agentType)
    (hg : (w.graphs agentType).Named) :
    ∃ clusters edges w1 w2, (findClusters agentType).exec w = (.ok clusters, w1) ∧
      (findCrossClusterEdges agentType clusters).exec w1 = (.ok edges, w2) ∧
      List.Forall₂ (Describes clusters) ((w.graphs agentType).taskRows.filter fun row =>
        ¬ Together clusters row.1.id row.2.2.id) edges ∧
      ∀ edge ∈ edges, isCrossClusterRelation edge.relation := by
  obtain ⟨root, groups, w1, h, hclusters, hready1, hgraph⟩ := findClusters_ready hready
  have hedges := findCrossClusterEdges_ready hready1
    (clustersOfGroups (w.graphs agentType).taskNodes groups)
  rw [hgraph] at hedges
  have hforall : List.Forall₂ (Describes (clustersOfGroups (w.graphs agentType).taskNodes groups))
      ((w.graphs agentType).taskRows.filter fun row =>
        ¬ Together (clustersOfGroups (w.graphs agentType).taskNodes groups) row.1.id row.2.2.id)
      ((w.graphs agentType).taskRows.filterMap
        (crossEdge (clustersOfGroups (w.graphs agentType).taskNodes groups))) :=
    Passes.forall₂_filterMap
      (fun row hrow hno => (h.crossEdge hg hrow).1 (not_not.mp hno))
      (fun row hrow => (h.crossEdge hg hrow).2)
  refine ⟨_, _, w1, _, hclusters, hedges, hforall, fun edge hedge => ?_⟩
  obtain ⟨row, hrow, hdescribes⟩ := Passes.exists_of_forall₂ hforall hedge
  simp only [List.mem_filter, decide_eq_true_eq] at hrow
  rw [hdescribes.relation]
  exact (hg.clustering h).cross_relation hrow.1 hrow.2

/-- A process whose graph is the workflow. -/
def workflow : World :=
  { World.initial Sample.env with
    graphs := fun _ =>
      { tables := [.concept, .constraint, .relatesTo, .hasConstraint, .agentRole, .handsOffTo,
          .hasRole]
        concepts := workflowNodes.map fun node => ⟨node.1, node.2, "task", 1, ⟨0, some 0⟩⟩
        relatesTo := workflowEdges.map fun edge => ⟨edge.1, edge.2.1, edge.2.2, 1, 1⟩
        roles := []
        handsOffTo := [] } }

theorem handoff_candidates_workflow :
    ∃ clusters edges w1 w2, (findClusters "shop").exec workflow = (.ok clusters, w1) ∧
      (findCrossClusterEdges "shop" clusters).exec w1 = (.ok edges, w2) ∧
      List.Forall₂ (Describes clusters) ((workflow.graphs "shop").taskRows.filter fun row =>
        ¬ Together clusters row.1.id row.2.2.id) edges ∧
      ∀ edge ∈ edges, isCrossClusterRelation edge.relation :=
  handoff_candidates "shop" workflow ⟨by decide, fun t => by cases t <;> decide, fun _ => rfl⟩
    ⟨by decide, by decide, by decide⟩

end AgentWorx
