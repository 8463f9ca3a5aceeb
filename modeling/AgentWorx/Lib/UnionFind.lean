import Mathlib.Data.List.Basic
import Mathlib.Logic.Function.Basic
import Mathlib.Logic.Relation

/-!
# Forests of parent pointers

A union-find structure is a map that sends every node to its parent, and a root to itself. What it
is about are the roots: `Forest nodes parent root depth` says that `root` is where the parents of
each node lead, and that a parent which is not the node itself is less deep. Pointing a node at its
grandparent keeps the roots and the depths; attaching a root to another moves one tree. The classes
of nodes with the same root are then the classes of the equivalence that the joins so far generate.
-/

namespace UnionFind

variable {α : Type}

structure Forest (nodes : List α) (parent root : α → α) (depth : α → Nat) : Prop where
  parent_mem : ∀ x ∈ nodes, parent x ∈ nodes
  root_parent : ∀ x, root (parent x) = root x
  parent_root : ∀ x, parent (root x) = root x
  root_eq : ∀ x, parent x = x → root x = x
  depth_lt : ∀ x, parent x ≠ x → depth (parent x) < depth x

/-- No node has been joined to another. -/
theorem Forest.discrete (nodes : List α) : Forest nodes id id fun _ => 0 where
  parent_mem _ hx := hx
  root_parent _ := rfl
  parent_root _ := rfl
  root_eq _ _ := rfl
  depth_lt _ hx := absurd rfl hx

variable {nodes : List α} {parent root : α → α} {depth : α → Nat} {x l r : α}

namespace Forest

theorem root_mem (h : Forest nodes parent root depth) (hx : x ∈ nodes) : root x ∈ nodes := by
  induction hd : depth x using Nat.strongRecOn generalizing x with
  | _ d ih =>
    by_cases hroot : parent x = x
    · rw [h.root_eq x hroot]
      exact hx
    · rw [← h.root_parent x]
      exact ih _ (hd ▸ h.depth_lt x hroot) (h.parent_mem x hx) rfl

/-- Two steps up are no cycle. -/
theorem grandparent_depth_lt (h : Forest nodes parent root depth) (hx : parent x ≠ x) :
    depth (parent (parent x)) < depth x := by
  have hparent := h.depth_lt x hx
  by_cases hroot : parent (parent x) = parent x
  · rwa [hroot]
  · exact Nat.lt_trans (h.depth_lt _ hroot) hparent

variable [DecidableEq α]

/-- Path halving: a node is pointed at its grandparent. -/
theorem halve (h : Forest nodes parent root depth) (x : α) :
    Forest nodes (Function.update parent x (parent (parent x))) root depth where
  parent_mem y hy := by
    by_cases hyx : y = x
    · subst hyx
      rw [Function.update_self]
      exact h.parent_mem _ (h.parent_mem y hy)
    · rw [Function.update_of_ne hyx]
      exact h.parent_mem y hy
  root_parent y := by
    by_cases hyx : y = x
    · subst hyx
      rw [Function.update_self, h.root_parent, h.root_parent]
    · rw [Function.update_of_ne hyx, h.root_parent]
  parent_root y := by
    by_cases hyx : root y = x
    · rw [hyx, Function.update_self, ← hyx, h.parent_root, h.parent_root]
    · rw [Function.update_of_ne hyx, h.parent_root]
  root_eq y hy := by
    by_cases hyx : y = x
    · subst hyx
      rw [Function.update_self] at hy
      by_contra hroot
      have hlt := h.grandparent_depth_lt fun hfixed => hroot (h.root_eq y hfixed)
      rw [hy] at hlt
      exact Nat.lt_irrefl _ hlt
    · rw [Function.update_of_ne hyx] at hy
      exact h.root_eq y hy
  depth_lt y hy := by
    by_cases hyx : y = x
    · subst hyx
      rw [Function.update_self] at hy ⊢
      apply h.grandparent_depth_lt
      intro hfixed
      rw [hfixed] at hy
      exact hy hfixed
    · rw [Function.update_of_ne hyx] at hy ⊢
      exact h.depth_lt y hy

/-- The root `r` is attached to the root `l`: its tree moves below that of `l`. -/
theorem attach (h : Forest nodes parent root depth) (hl : parent l = l) (hr : parent r = r)
    (hne : l ≠ r) (hmem : l ∈ nodes) :
    Forest nodes (Function.update parent r l) (fun x => if root x = r then l else root x)
      fun x => if root x = r then depth x + depth l + 1 else depth x := by
  have hrootl : root l = l := h.root_eq l hl
  have hrootr : root r = r := h.root_eq r hr
  refine ⟨fun x hx => ?_, fun x => ?_, fun x => ?_, fun x hx => ?_, fun x hx => ?_⟩
  · by_cases hxr : x = r
    · rwa [hxr, Function.update_self]
    · rw [Function.update_of_ne hxr]
      exact h.parent_mem x hx
  · by_cases hxr : x = r
    · subst hxr
      simp only [Function.update_self, hrootl, hrootr, if_neg hne, if_true]
    · simp only [Function.update_of_ne hxr, h.root_parent]
  · split_ifs with hx
    · rw [Function.update_of_ne hne, hl]
    · rw [Function.update_of_ne hx, h.parent_root]
  · by_cases hxr : x = r
    · rw [hxr, Function.update_self] at hx
      exact absurd hx hne
    · rw [Function.update_of_ne hxr] at hx
      have hroot := h.root_eq x hx
      rw [if_neg (by rwa [hroot]), hroot]
  · by_cases hxr : x = r
    · subst hxr
      simp only [Function.update_self, hrootl, hrootr, if_neg hne, if_true]
      omega
    · rw [Function.update_of_ne hxr] at hx ⊢
      have hlt := h.depth_lt x hx
      simp only [h.root_parent]
      split_ifs <;> omega

end Forest

/-! ## How long a walk to the root is -/

/-- How many nodes are less deep. -/
def shallower (nodes : List α) (depth : α → Nat) (x : α) : Nat :=
  nodes.countP (depth · < depth x)

theorem shallower_le_length : shallower nodes depth x ≤ nodes.length := List.countP_le_length

/-- A walk that goes on to the grandparent passes a node it does not come back to. -/
theorem Forest.shallower_lt (h : Forest nodes parent root depth) (hx : x ∈ nodes)
    (hroot : parent x ≠ x) :
    shallower nodes depth (parent (parent x)) < shallower nodes depth x := by
  have hlt := h.grandparent_depth_lt hroot
  have hmem := h.parent_mem _ (h.parent_mem x hx)
  unfold shallower
  obtain ⟨before, after, rfl⟩ := List.append_of_mem hmem
  have hle (zs : List α) : zs.countP (depth · < depth (parent (parent x))) ≤
      zs.countP (depth · < depth x) :=
    List.countP_mono_left fun z _ hz => by
      simp only [decide_eq_true_eq] at hz ⊢
      exact Nat.lt_trans hz hlt
  have hbefore := hle before
  have hafter := hle after
  rw [List.countP_append, List.countP_append, List.countP_cons_of_neg (by simp),
    List.countP_cons_of_pos (by simpa using hlt)]
  omega

/-! ## Classes -/

/-- Nodes have the same root exactly if the relation connects them. -/
def Represents (root : α → α) (E : α → α → Prop) : Prop :=
  ∀ x y, root x = root y ↔ Relation.EqvGen E x y

variable {E E' : α → α → Prop}

theorem Represents.congr (h : Represents root E) (hE : ∀ x y, E x y ↔ E' x y) :
    Represents root E' := by
  have : E = E' := funext fun x => funext fun y => propext (hE x y)
  rwa [← this]

theorem represents_discrete : Represents (id : α → α) fun _ _ => False := by
  intro x y
  constructor
  · rintro rfl
    exact .refl x
  · intro h
    induction h with
    | rel _ _ h => exact h.elim
    | refl => rfl
    | symm _ _ _ ih => exact ih.symm
    | trans _ _ _ _ _ ih1 ih2 => exact ih1.trans ih2

/-- After the trees of `u` and `v` have been joined, the roots represent the relation with one more
pair. -/
theorem Represents.join [DecidableEq α] (h : Represents root E) (u v : α) :
    Represents (fun x => if root x = root v then root u else root x)
      fun a b => E a b ∨ (a = u ∧ b = v) := by
  have hold {a b : α} (hab : root a = root b) :
      Relation.EqvGen (fun a b => E a b ∨ (a = u ∧ b = v)) a b :=
    ((h a b).mp hab).mono fun _ _ => Or.inl
  have hnew : Relation.EqvGen (fun a b => E a b ∨ (a = u ∧ b = v)) u v := .rel u v (.inr ⟨rfl, rfl⟩)
  intro x y
  dsimp only
  constructor
  · intro hxy
    split_ifs at hxy with hx hy hy
    · exact hold (hx.trans hy.symm)
    · exact ((hold hx).trans _ _ _ (hnew.symm _ _)).trans _ _ _ (hold hxy)
    · exact ((hold hxy).trans _ _ _ hnew).trans _ _ _ (hold hy.symm)
    · exact hold hxy
  · intro hxy
    induction hxy with
    | rel a b hab =>
      rcases hab with hab | ⟨rfl, rfl⟩
      · rw [(h a b).mpr (.rel a b hab)]
      · rw [if_pos rfl]
        split_ifs <;> rfl
    | refl => rfl
    | symm _ _ _ ih => exact ih.symm
    | trans _ _ _ _ _ ih1 ih2 => exact ih1.trans ih2

end UnionFind
