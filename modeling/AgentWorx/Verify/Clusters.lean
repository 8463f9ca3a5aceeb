import AgentWorx.Apprentice.ProposalEngine
import AgentWorx.Lib.UnionFind
import AgentWorx.Verify.Statements
import Mathlib.Data.Set.Card

/-!
# Clusters are connected components

The parent map of `_find_clusters` stays a forest whose roots represent the ordinary edges joined so
far, so every `find` loop ends within as many rounds as there are nodes. The groups are then the
connected components, and the clusters are the large ones and the union of the others.
-/

namespace AgentWorx

open Coop Coop.Sync UnionFind

/-! ## The union-find -/

variable {ids : List String} {parent root : Parent} {depth : String → Nat} {fuel : Nat}

/-- A `find` loop with more rounds left than there are shallower nodes ends at the root. -/
theorem findRoot_spec (h : Forest ids parent root depth) {x : String} (hx : x ∈ ids)
    (hfuel : shallower ids depth x < fuel) :
    ∃ parent', findRoot fuel parent x = some (root x, parent') ∧
      Forest ids parent' root depth := by
  induction fuel generalizing parent x with
  | zero => omega
  | succ fuel ih =>
    rw [findRoot]
    by_cases hroot : parent x = x
    · rw [if_pos hroot, h.root_eq x hroot]
      exact ⟨parent, rfl, h⟩
    · rw [if_neg hroot]
      dsimp only
      rw [Function.update_self]
      have hlt := h.shallower_lt hx hroot
      obtain ⟨parent', hfind, hforest⟩ :=
        ih (h.halve x) (h.parent_mem _ (h.parent_mem x hx)) (by omega)
      rw [h.root_parent, h.root_parent] at hfind
      exact ⟨parent', hfind, hforest⟩

theorem unionNodes_spec (h : Forest ids parent root depth) {u v : String} (hu : u ∈ ids)
    (hv : v ∈ ids) (hfuel : ids.length < fuel) :
    ∃ parent' depth', unionNodes fuel parent u v = some parent' ∧
      Forest ids parent' (fun x => if root x = root v then root u else root x) depth' := by
  have hrounds (x : String) : shallower ids depth x < fuel :=
    Nat.lt_of_le_of_lt shallower_le_length hfuel
  obtain ⟨parent1, hfindu, h1⟩ := findRoot_spec h hu (hrounds u)
  obtain ⟨parent2, hfindv, h2⟩ := findRoot_spec h1 hv (hrounds v)
  have hunion : unionNodes fuel parent u v = some (if root u ≠ root v then
      Function.update parent2 (root v) (root u) else parent2) := by
    simp only [unionNodes, hfindu, hfindv, Option.bind_eq_bind, Option.bind_some]
    rfl
  rw [hunion]
  by_cases hne : root u = root v
  · have hsame : (fun x => if root x = root v then root u else root x) = root := by
      funext x
      split_ifs with hx
      · rw [hne, hx]
      · rfl
    rw [if_neg (not_not.mpr hne), hsame]
    exact ⟨parent2, depth, rfl, h2⟩
  · rw [if_pos hne]
    exact ⟨_, _, rfl, h2.attach (h2.parent_root u) (h2.parent_root v) hne (h2.root_mem hu)⟩

/-! ## The edges -/

/-- An ordinary edge runs from the one node to the other. -/
def Linked (ids : List String) (edges : List (String × String × String)) (u v : String) : Prop :=
  u ∈ ids ∧ v ∈ ids ∧ ∃ relation, (u, v, relation) ∈ edges ∧ ¬ isCrossClusterRelation relation

/-- Ordinary edges, in either direction, lead from the one node to the other. -/
def Connected (ids : List String) (edges : List (String × String × String)) :
    String → String → Prop :=
  Relation.EqvGen (Linked ids edges)

theorem linked_cons {edge : String × String × String} {edges : List (String × String × String)}
    {u v : String} : Linked ids (edge :: edges) u v ↔
      (u = edge.1 ∧ v = edge.2.1 ∧ u ∈ ids ∧ v ∈ ids ∧ ¬ isCrossClusterRelation edge.2.2) ∨
      Linked ids edges u v := by
  obtain ⟨source, target, relation⟩ := edge
  simp only [Linked, List.mem_cons, Prod.mk.injEq]
  constructor
  · rintro ⟨hu, hv, r, ⟨rfl, rfl, rfl⟩ | hmem, hr⟩
    · exact .inl ⟨rfl, rfl, hu, hv, hr⟩
    · exact .inr ⟨hu, hv, r, hmem, hr⟩
  · rintro (⟨rfl, rfl, hu, hv, hr⟩ | ⟨hu, hv, r, hmem, hr⟩)
    · exact ⟨hu, hv, relation, .inl ⟨rfl, rfl, rfl⟩, hr⟩
    · exact ⟨hu, hv, r, .inr hmem, hr⟩

/-- After the edge loop the roots represent the edges as well as what they have represented before.
-/
theorem unionEdges_spec {E : String → String → Prop} (edges : List (String × String × String))
    (h : Forest ids parent root depth) (hroot : Represents root E) (hfuel : ids.length < fuel) :
    ∃ parent' root' depth', unionEdges fuel ids edges parent = some parent' ∧
      Forest ids parent' root' depth' ∧
      Represents root' fun u v => E u v ∨ Linked ids edges u v := by
  induction edges generalizing parent root depth E with
  | nil =>
    refine ⟨parent, root, depth, rfl, h, hroot.congr fun u v => ?_⟩
    simp [Linked]
  | cons edge edges ih =>
    obtain ⟨source, target, relation⟩ := edge
    rw [unionEdges]
    split_ifs with hcross hends
    · obtain ⟨parent', root', depth', hunion, h', hroot'⟩ := ih h hroot
      refine ⟨parent', root', depth', hunion, h', hroot'.congr fun u v => ?_⟩
      rw [linked_cons]
      simp [hcross]
    · obtain ⟨parent1, depth1, hnodes, h1⟩ := unionNodes_spec h hends.1 hends.2 hfuel
      obtain ⟨parent', root', depth', hunion, h', hroot'⟩ := ih h1 (hroot.join source target)
      rw [hnodes]
      refine ⟨parent', root', depth', hunion, h', hroot'.congr fun u v => ?_⟩
      rw [linked_cons, or_assoc]
      refine or_congr_right (or_congr_left ⟨?_, fun hlink => ⟨hlink.1, hlink.2.1⟩⟩)
      rintro ⟨rfl, rfl⟩
      exact ⟨rfl, rfl, hends.1, hends.2, hcross⟩
    · obtain ⟨parent', root', depth', hunion, h', hroot'⟩ := ih h hroot
      refine ⟨parent', root', depth', hunion, h', hroot'.congr fun u v => ?_⟩
      rw [linked_cons]
      refine or_congr_right (Iff.symm (or_iff_right ?_))
      rintro ⟨rfl, rfl, hu, hv, -⟩
      exact hends ⟨hu, hv⟩

/-! ## The groups -/

/-- Every node is in the group of its root, once. -/
structure Grouped (root : Parent) (members : List String) (groups : List (String × List String)) :
    Prop where
  keys : (groups.map (·.1)).Nodup
  perm : (groups.flatMap (·.2)).Perm members
  nonempty : ∀ group ∈ groups, group.2 ≠ []
  root_eq : ∀ group ∈ groups, ∀ x ∈ group.2, root x = group.1

theorem addToGroup_keys (r x : String) (groups : List (String × List String)) :
    (addToGroup r x groups).map (·.1) =
      if r ∈ groups.map (·.1) then groups.map (·.1) else groups.map (·.1) ++ [r] := by
  induction groups with
  | nil => simp [addToGroup]
  | cons group groups ih =>
    obtain ⟨key, members⟩ := group
    rw [addToGroup]
    by_cases hkey : key = r
    · simp [hkey]
    · rw [if_neg hkey, List.map_cons, ih]
      simp only [List.map_cons, List.mem_cons, Ne.symm hkey, false_or]
      split_ifs <;> rfl

theorem addToGroup_perm (r x : String) (groups : List (String × List String)) :
    ((addToGroup r x groups).flatMap (·.2)).Perm (groups.flatMap (·.2) ++ [x]) := by
  induction groups with
  | nil => exact .refl _
  | cons group groups ih =>
    obtain ⟨key, members⟩ := group
    rw [addToGroup]
    split_ifs
    · simp only [List.flatMap_cons, List.append_assoc]
      exact List.perm_append_comm.append_left members
    · simp only [List.flatMap_cons, List.append_assoc]
      exact ih.append_left members

theorem mem_addToGroup {r x : String} {group : String × List String}
    {groups : List (String × List String)} (h : group ∈ addToGroup r x groups) :
    group ∈ groups ∨ group.1 = r ∧
      (group.2 = [x] ∨ ∃ members, (r, members) ∈ groups ∧ group.2 = members ++ [x]) := by
  induction groups with
  | nil =>
    obtain rfl := List.mem_singleton.mp h
    exact .inr ⟨rfl, .inl rfl⟩
  | cons head groups ih =>
    obtain ⟨key, members⟩ := head
    rw [addToGroup] at h
    split_ifs at h with hkey
    · subst hkey
      rcases List.mem_cons.mp h with rfl | h
      · exact .inr ⟨rfl, .inr ⟨members, by simp, rfl⟩⟩
      · exact .inl (List.mem_cons_of_mem _ h)
    · rcases List.mem_cons.mp h with rfl | h
      · exact .inl (by simp)
      · rcases ih h with h | ⟨hr, h | ⟨members', hmem, h⟩⟩
        · exact .inl (List.mem_cons_of_mem _ h)
        · exact .inr ⟨hr, .inl h⟩
        · exact .inr ⟨hr, .inr ⟨members', List.mem_cons_of_mem _ hmem, h⟩⟩

theorem Grouped.add {done : List String} {groups : List (String × List String)}
    (h : Grouped root done groups) (x : String) :
    Grouped root (done ++ [x]) (addToGroup (root x) x groups) where
  keys := by
    rw [addToGroup_keys]
    split_ifs with hmem
    · exact h.keys
    · exact h.keys.append (List.nodup_singleton _) (by simpa using hmem)
  perm := (addToGroup_perm _ _ _).trans (h.perm.append_right [x])
  nonempty group hgroup := by
    rcases mem_addToGroup hgroup with hold | ⟨-, hnew | ⟨members, -, hnew⟩⟩
    · exact h.nonempty group hold
    · simp [hnew]
    · simp [hnew]
  root_eq group hgroup y hy := by
    rcases mem_addToGroup hgroup with hold | ⟨hkey, hnew | ⟨members, hold, hnew⟩⟩
    · exact h.root_eq group hold y hy
    · rw [hnew, List.mem_singleton] at hy
      rw [hy, hkey]
    · rw [hnew, List.mem_append, List.mem_singleton] at hy
      rw [hkey]
      rcases hy with hy | rfl
      · exact h.root_eq _ hold y hy
      · rfl

theorem groupByRoot_spec {done todo : List String} {groups : List (String × List String)}
    (h : Forest ids parent root depth) (hgroups : Grouped root done groups)
    (htodo : ∀ x ∈ todo, x ∈ ids) (hfuel : ids.length < fuel) :
    ∃ groups', groupByRoot fuel todo parent groups = some groups' ∧
      Grouped root (done ++ todo) groups' := by
  induction todo generalizing parent done groups with
  | nil => exact ⟨groups, rfl, by rwa [List.append_nil]⟩
  | cons x todo ih =>
    obtain ⟨parent', hfind, h'⟩ := findRoot_spec h (htodo x (by simp))
      (Nat.lt_of_le_of_lt shallower_le_length hfuel)
    obtain ⟨groups', hgroup, hgrouped⟩ :=
      ih h' (hgroups.add x) fun y hy => htodo y (List.mem_cons_of_mem _ hy)
    rw [groupByRoot, hfind]
    exact ⟨groups', hgroup, by rwa [List.append_assoc] at hgrouped⟩

/-- The group of a root holds the nodes with this root. -/
theorem Grouped.mem_iff {members : List String} {groups : List (String × List String)}
    (h : Grouped root members groups) {group : String × List String} (hgroup : group ∈ groups)
    {x : String} : x ∈ group.2 ↔ x ∈ members ∧ root x = group.1 := by
  constructor
  · intro hx
    exact ⟨h.perm.mem_iff.mp (List.mem_flatMap.mpr ⟨group, hgroup, hx⟩),
      h.root_eq group hgroup x hx⟩
  · rintro ⟨hx, hkey⟩
    obtain ⟨group', hgroup', hx'⟩ := List.mem_flatMap.mp (h.perm.mem_iff.mpr hx)
    have hkeys : group'.1 = group.1 := (h.root_eq group' hgroup' x hx').symm.trans hkey
    rwa [← List.inj_on_of_nodup_map h.keys hgroup' hgroup hkeys]

/-! ## The clusters -/

/-- The nodes that are connected to the node. -/
def component (ids : List String) (edges : List (String × String × String)) (u : String) :
    Set String :=
  {v | v ∈ ids ∧ Connected ids edges u v}

/-- The clusters partition the nodes: those other than `general` are the components of at least
eight nodes, and `general` is the union of the smaller ones. -/
structure Clustering (nodes : List (String × String)) (edges : List (String × String × String))
    (clusters : List Cluster) : Prop where
  partition : (clusters.flatMap (·.nodeIds)).Perm (nodes.map (·.1))
  large : ∀ c ∈ clusters, c.id ≠ "general" → 8 ≤ c.nodeIds.length ∧
    ∃ u ∈ nodes.map (·.1), ∀ v, v ∈ c.nodeIds ↔ v ∈ component (nodes.map (·.1)) edges u
  general : ∀ c ∈ clusters, c.id = "general" → ∀ v, v ∈ c.nodeIds ↔
    v ∈ nodes.map (·.1) ∧ (component (nodes.map (·.1)) edges v).ncard < 8
  general_iff : (∃ c ∈ clusters, c.id = "general") ↔
    ∃ v ∈ nodes.map (·.1), (component (nodes.map (·.1)) edges v).ncard < 8
  labels : ∀ c ∈ clusters, List.Forall₂ (fun id label => (id, label) ∈ nodes) c.nodeIds c.labels

/-- The roots of the groups represent the connections between the nodes. -/
structure GroupsComponents (ids : List String) (edges : List (String × String × String))
    (root : Parent) (groups : List (String × List String)) : Prop where
  grouped : Grouped root ids groups
  represents : Represents root (Linked ids edges)
  root_mem : ∀ x ∈ ids, root x ∈ ids

variable {edges : List (String × String × String)} {groups : List (String × List String)}

/-- The loops of `_find_clusters` end. -/
theorem clusterNodes_groups (nodes : List (String × String))
    (edges : List (String × String × String)) :
    ∃ root groups, GroupsComponents (nodes.map (·.1)) edges root groups ∧
      clusterNodes nodes edges = some (clustersOfGroups nodes groups) := by
  obtain ⟨parent, root, depth, hunion, hforest, hroot⟩ :=
    unionEdges_spec edges (.discrete (nodes.map (·.1))) represents_discrete
      (Nat.lt_succ_self (nodes.map (·.1)).length)
  have hnone : Grouped root [] [] := ⟨List.nodup_nil, .refl _, nofun, nofun⟩
  obtain ⟨groups, hgroup, hgrouped⟩ := groupByRoot_spec hforest hnone (fun _ hx => hx)
      (Nat.lt_succ_self (nodes.map (·.1)).length)
  refine ⟨root, groups, ⟨hgrouped, hroot.congr fun u v => or_iff_right id,
    fun x => hforest.root_mem⟩, ?_⟩
  simp only [clusterNodes, hunion, hgroup, Option.bind_eq_bind, Option.bind_some]
  rfl

namespace GroupsComponents

/-- The group of a node is its component. -/
theorem mem_iff (h : GroupsComponents ids edges root groups) {group : String × List String}
    (hgroup : group ∈ groups) {u v : String} (hu : u ∈ group.2) :
    v ∈ group.2 ↔ v ∈ component ids edges u := by
  rw [h.grouped.mem_iff hgroup, ← h.grouped.root_eq group hgroup u hu]
  exact and_congr_right fun _ => eq_comm.trans (h.represents u v)

theorem nodup (h : GroupsComponents ids edges root groups) (hids : ids.Nodup)
    {group : String × List String} (hgroup : group ∈ groups) : group.2.Nodup :=
  (List.nodup_flatMap.mp (h.grouped.perm.nodup_iff.mpr hids)).1 group hgroup

theorem ncard_component (h : GroupsComponents ids edges root groups) (hids : ids.Nodup)
    {group : String × List String} (hgroup : group ∈ groups) {u : String} (hu : u ∈ group.2) :
    (component ids edges u).ncard = group.2.length := by
  have hset : component ids edges u = (group.2.toFinset : Set String) := by
    ext v
    rw [← h.mem_iff hgroup hu, List.coe_toFinset, Set.mem_ofPred_eq]
  rw [hset, Set.ncard_coe_finset, List.toFinset_card_of_nodup (h.nodup hids hgroup)]

end GroupsComponents

/-- The members of the small groups. -/
def generalIds (groups : List (String × List String)) : List String :=
  (groups.filter fun group => group.2.length < minClusterSize).flatMap (·.2)

theorem mem_generalIds {v : String} : v ∈ generalIds groups ↔
    ∃ group ∈ groups, group.2.length < minClusterSize ∧ v ∈ group.2 := by
  simp [generalIds, and_assoc]

/-- The cluster of a large group. -/
def largeCluster (nodes : List (String × String)) (group : String × List String) : Cluster :=
  ⟨group.1, group.2, group.2.map (labelOf nodes)⟩

/-- The cluster of the small groups, if there are any. -/
def generalClusters (nodes : List (String × String)) (groups : List (String × List String)) :
    List Cluster :=
  if (generalIds groups).isEmpty then []
  else [⟨"general", generalIds groups, (generalIds groups).map (labelOf nodes)⟩]

theorem clustersOfGroups_eq (nodes : List (String × String))
    (groups : List (String × List String)) :
    clustersOfGroups nodes groups =
      (groups.filter fun group => minClusterSize ≤ group.2.length).map (largeCluster nodes) ++
        generalClusters nodes groups := rfl

theorem mem_generalClusters {nodes : List (String × String)} {c : Cluster} :
    c ∈ generalClusters nodes groups ↔ generalIds groups ≠ [] ∧
      c = ⟨"general", generalIds groups, (generalIds groups).map (labelOf nodes)⟩ := by
  rw [generalClusters]
  split_ifs with hempty
  · simp [List.isEmpty_iff.mp hempty]
  · simp [mt List.isEmpty_iff.mpr hempty]

theorem mem_clustersOfGroups {nodes : List (String × String)} {c : Cluster} :
    c ∈ clustersOfGroups nodes groups ↔
      (∃ group ∈ groups, minClusterSize ≤ group.2.length ∧ c = largeCluster nodes group) ∨
      (generalIds groups ≠ [] ∧
        c = ⟨"general", generalIds groups, (generalIds groups).map (labelOf nodes)⟩) := by
  rw [clustersOfGroups_eq, List.mem_append, mem_generalClusters]
  refine or_congr_left ?_
  simp only [List.mem_map, List.mem_filter, decide_eq_true_eq, and_assoc, eq_comm (a := c)]

theorem clustersOfGroups_perm (nodes : List (String × String))
    (groups : List (String × List String)) :
    ((clustersOfGroups nodes groups).flatMap (·.nodeIds)).Perm (groups.flatMap (·.2)) := by
  have hgeneral : (generalClusters nodes groups).flatMap (·.nodeIds) = generalIds groups := by
    rw [generalClusters]
    split_ifs with hempty
    · rw [List.isEmpty_iff.mp hempty]
      rfl
    · simp
  have hsmall : (fun group : String × List String => decide (group.2.length < minClusterSize)) =
      fun group => !decide (minClusterSize ≤ group.2.length) := by
    funext group
    rw [← decide_not]
    exact decide_eq_decide.mpr not_le.symm
  rw [clustersOfGroups_eq, List.flatMap_append, hgeneral, generalIds, hsmall, List.flatMap_map]
  change List.Perm ((groups.filter _).flatMap (·.2) ++ _) _
  rw [← List.flatMap_append]
  exact (List.filter_append_perm _ groups).flatMap_right _

theorem labelOf_mem {nodes : List (String × String)} {id : String} (h : id ∈ nodes.map (·.1)) :
    (id, labelOf nodes id) ∈ nodes := by
  obtain ⟨node, hnode, rfl⟩ := List.mem_map.mp h
  rw [labelOf]
  cases hfind : nodes.find? (·.1 = node.1) with
  | none =>
    have hno := List.find?_eq_none.mp hfind node hnode
    simp at hno
  | some found =>
    have hid : found.1 = node.1 := by simpa using List.find?_some hfind
    rw [← hid]
    exact List.mem_of_find?_eq_some hfind

theorem labels_of_map {nodes : List (String × String)} {members : List String}
    (h : ∀ id ∈ members, id ∈ nodes.map (·.1)) :
    List.Forall₂ (fun id label => (id, label) ∈ nodes) members (members.map (labelOf nodes)) := by
  rw [List.forall₂_map_right_iff, List.forall₂_same]
  exact fun id hid => labelOf_mem (h id hid)

namespace GroupsComponents

variable {nodes : List (String × String)}

/-- A node is in the union of the small groups exactly if its component is small. -/
theorem mem_generalIds (h : GroupsComponents ids edges root groups) (hids : ids.Nodup)
    {v : String} :
    v ∈ generalIds groups ↔ v ∈ ids ∧ (component ids edges v).ncard < minClusterSize := by
  rw [AgentWorx.mem_generalIds]
  constructor
  · rintro ⟨group, hgroup, hsize, hv⟩
    rw [h.ncard_component hids hgroup hv]
    exact ⟨((h.grouped.mem_iff hgroup).mp hv).1, hsize⟩
  · rintro ⟨hv, hsize⟩
    obtain ⟨group, hgroup, hvgroup⟩ :=
      List.mem_flatMap.mp (h.grouped.perm.mem_iff.mpr hv)
    rw [h.ncard_component hids hgroup hvgroup] at hsize
    exact ⟨group, hgroup, hsize, hvgroup⟩

/-- No group has the name of the general cluster. -/
theorem key_ne_general (h : GroupsComponents ids edges root groups) (hgeneral : "general" ∉ ids)
    {group : String × List String} (hgroup : group ∈ groups) : group.1 ≠ "general" := by
  obtain ⟨u, hu⟩ := List.exists_mem_of_ne_nil _ (h.grouped.nonempty group hgroup)
  obtain ⟨hmem, hroot⟩ := (h.grouped.mem_iff hgroup).mp hu
  rintro hkey
  rw [← hkey, ← hroot] at hgeneral
  exact hgeneral (h.root_mem u hmem)

theorem clustering (h : GroupsComponents (nodes.map (·.1)) edges root groups)
    (hids : (nodes.map (·.1)).Nodup) (hgeneral : "general" ∉ nodes.map (·.1)) :
    Clustering nodes edges (clustersOfGroups nodes groups) where
  partition := (clustersOfGroups_perm nodes groups).trans h.grouped.perm
  large c hc hid := by
    obtain ⟨group, hgroup, hsize, rfl⟩ | ⟨-, rfl⟩ := mem_clustersOfGroups.mp hc
    · obtain ⟨u, hu⟩ := List.exists_mem_of_ne_nil _ (h.grouped.nonempty group hgroup)
      exact ⟨hsize, u, ((h.grouped.mem_iff hgroup).mp hu).1, fun v => h.mem_iff hgroup hu⟩
    · exact absurd rfl hid
  general c hc hid v := by
    obtain ⟨group, hgroup, -, rfl⟩ | ⟨-, rfl⟩ := mem_clustersOfGroups.mp hc
    · exact absurd hid (h.key_ne_general hgeneral hgroup)
    · exact h.mem_generalIds hids
  general_iff := by
    constructor
    · rintro ⟨c, hc, hid⟩
      obtain ⟨group, hgroup, -, rfl⟩ | ⟨hne, -⟩ := mem_clustersOfGroups.mp hc
      · exact absurd hid (h.key_ne_general hgeneral hgroup)
      · obtain ⟨v, hv⟩ := List.exists_mem_of_ne_nil _ hne
        exact ⟨v, (h.mem_generalIds hids).mp hv⟩
    · rintro ⟨v, hv⟩
      exact ⟨_, mem_clustersOfGroups.mpr
        (.inr ⟨List.ne_nil_of_mem ((h.mem_generalIds hids).mpr hv), rfl⟩), rfl⟩
  labels c hc := by
    obtain ⟨group, hgroup, -, rfl⟩ | ⟨-, rfl⟩ := mem_clustersOfGroups.mp hc
    · exact labels_of_map fun id hid => ((h.grouped.mem_iff hgroup).mp hid).1
    · exact labels_of_map fun id hid => ((h.mem_generalIds hids).mp hid).1

end GroupsComponents

/-- With nothing to cluster there are no groups. -/
theorem GroupsComponents.groups_eq_nil (h : GroupsComponents [] edges root groups) :
    groups = [] := by
  refine List.eq_nil_iff_forall_not_mem.mpr fun group hgroup => ?_
  obtain ⟨u, hu⟩ := List.exists_mem_of_ne_nil _ (h.grouped.nonempty group hgroup)
  cases ((h.grouped.mem_iff hgroup).mp hu).1

theorem findClusters_exec {agentType : String} {w w1 w2 : World} {nodes : List (String × String)}
    (h : GroupsComponents (nodes.map (·.1)) edges root groups)
    (hclusters : clusterNodes nodes edges = some (clustersOfGroups nodes groups))
    (hnodes : (loadTaskNodes agentType).exec w = (.ok nodes, w1))
    (hedges : (loadTaskEdges agentType).exec w1 = (.ok edges, w2)) :
    (findClusters agentType).exec w =
      (.ok (clustersOfGroups nodes groups), if nodes.isEmpty then w1 else w2) := by
  rw [findClusters, exec_bind_ok hnodes]
  split_ifs with hempty
  · obtain rfl := List.isEmpty_iff.mp hempty
    rw [h.groups_eq_nil]
    rfl
  · rw [exec_bind_ok hedges, hclusters]
    rfl

/-- For every set of nodes and every list of edges the clustering ends, and its clusters are the
large components and the union of the small ones. -/
theorem clusters_are_components (nodes : List (String × String))
    (edges : List (String × String × String)) (hids : (nodes.map (·.1)).Nodup)
    (hgeneral : "general" ∉ nodes.map (·.1)) :
    ∃ clusters, clusterNodes nodes edges = some clusters ∧ Clustering nodes edges clusters ∧
      ∀ agentType w w1 w2, (loadTaskNodes agentType).exec w = (.ok nodes, w1) →
        (loadTaskEdges agentType).exec w1 = (.ok edges, w2) →
        ((findClusters agentType).exec w).1 = .ok clusters := by
  obtain ⟨root, groups, h, hclusters⟩ := clusterNodes_groups nodes edges
  refine ⟨_, hclusters, h.clustering hids hgeneral, fun agentType w w1 w2 hnodes hedges => ?_⟩
  rw [findClusters_exec h hclusters hnodes hedges]

/-- Eight steps of a workflow and a remark. -/
def workflowNodes : List (String × String) :=
  [("a", "order"), ("b", "check"), ("c", "cook"), ("d", "taste"), ("e", "plate"), ("f", "serve"),
    ("g", "bill"), ("h", "clear"), ("i", "tip")]

/-- The steps in a circle; the last is triggered from outside and triggers the remark. -/
def workflowEdges : List (String × String × String) :=
  [("a", "b", "precedes"), ("b", "c", "precedes"), ("d", "c", "follows"), ("d", "e", "precedes"),
    ("f", "g", "precedes"), ("e", "f", "precedes"), ("h", "g", "follows"), ("h", "a", "precedes"),
    ("h", "h", "repeats"), ("z", "h", "Triggers"), ("h", "i", "Triggers")]

theorem clusters_are_components_workflow :
    ∃ clusters, clusterNodes workflowNodes workflowEdges = some clusters ∧
      Clustering workflowNodes workflowEdges clusters := by
  obtain ⟨clusters, hclusters, hclustering, -⟩ :=
    clusters_are_components workflowNodes workflowEdges (by decide) (by decide)
  exact ⟨clusters, hclusters, hclustering⟩

example : (clusterNodes workflowNodes workflowEdges).map (·.map (·.nodeIds)) =
    some [["a", "b", "c", "d", "e", "f", "g", "h"], ["i"]] := by
  decide +kernel

end AgentWorx
