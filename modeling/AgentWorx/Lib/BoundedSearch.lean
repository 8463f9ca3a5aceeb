import Mathlib.Data.List.Nodup
import Mathlib.Data.Set.Card

/-!
# Breadth-first search with a depth bound

A queue of nodes with depths, and the nodes that have been taken from it with the depth of the first
time. What makes the bound exact is the order of the queue: a node is first taken at the length of a
shortest walk to it.
-/

namespace BoundedSearch

variable {α : Type}

/-- There is a walk of that many steps from the start. -/
inductive Walk (r : α → α → Prop) (start : α) : Nat → α → Prop
  | nil : Walk r start 0 start
  | snoc {n : Nat} {b c : α} : Walk r start n b → r b c → Walk r start (n + 1) c

/-- A walk that is not empty and not longer than the bound leads to the node. -/
def Within (r : α → α → Prop) (start : α) (bound : Nat) (b : α) : Prop :=
  ∃ n, 1 ≤ n ∧ n ≤ bound ∧ Walk r start n b

/-- The node has been taken, or is going to be, at this depth or a smaller one. -/
def Found (done queue : List (α × Nat)) (depth : Nat) (c : α) : Prop :=
  ∃ j ≤ depth, (c, j) ∈ done ∨ (c, j) ∈ queue

/-- The state of a search: the queue is sorted by depths that differ by one at most, and come after
those of the nodes that have been taken; all nodes have been reached by walks of their depths, and
what follows a node that has been taken is found one step deeper. -/
structure Searching (r : α → α → Prop) (start : α) (bound : Nat) (done queue : List (α × Nat)) :
    Prop where
  nodup : (done.map (·.1)).Nodup
  taken : ∀ x ∈ done, 1 ≤ x.2 ∧ x.2 ≤ bound ∧ Walk r start x.2 x.1
  queued : ∀ x ∈ queue, 1 ≤ x.2 ∧ Walk r start x.2 x.1
  sorted : queue.Pairwise fun x y => x.2 ≤ y.2 ∧ y.2 ≤ x.2 + 1
  order : ∀ x ∈ done, ∀ y ∈ queue, x.2 ≤ y.2
  next : ∀ x ∈ (start, 0) :: done, x.2 + 1 ≤ bound →
    ∀ c, r x.1 c → Found done queue (x.2 + 1) c

namespace Searching

variable {r : α → α → Prop} {a : α} {bound depth : Nat} {c : α} {cs : List α}
  {done queue : List (α × Nat)}

theorem start (hcs : ∀ c, c ∈ cs ↔ r a c) :
    Searching r a bound [] (cs.map fun c => (c, 1)) where
  nodup := List.nodup_nil
  taken := by simp
  queued := by
    intro x hx
    obtain ⟨c, hc, rfl⟩ := List.mem_map.mp hx
    exact ⟨le_rfl, .snoc .nil ((hcs c).mp hc)⟩
  sorted := List.pairwise_map.mpr (List.pairwise_of_forall fun _ _ => ⟨le_rfl, by omega⟩)
  order := by simp
  next := by
    intro x hx _ c hc
    cases List.mem_singleton.mp hx
    exact ⟨1, le_rfl, .inr (List.mem_map_of_mem ((hcs c).mpr hc))⟩

/-- An entry is dropped if its node has been taken before or it is too deep. -/
theorem skip (h : Searching r a bound done ((c, depth) :: queue))
    (hskip : c ∈ done.map (·.1) ∨ bound < depth) : Searching r a bound done queue where
  nodup := h.nodup
  taken := h.taken
  queued x hx := h.queued x (List.mem_cons_of_mem _ hx)
  sorted := h.sorted.of_cons
  order x hx y hy := h.order x hx y (List.mem_cons_of_mem _ hy)
  next x hx hdeep b hb := by
    obtain ⟨j, hj, hdone | hqueue⟩ := h.next x hx hdeep b hb
    · exact ⟨j, hj, .inl hdone⟩
    rcases List.mem_cons.mp hqueue with heq | hqueue
    · cases heq
      rcases hskip with htaken | htoo
      · -- it was taken at a smaller depth
        obtain ⟨⟨c, k⟩, hmem, rfl⟩ := List.mem_map.mp htaken
        exact ⟨k, (h.order _ hmem _ List.mem_cons_self).trans hj, .inl hmem⟩
      · omega
    · exact ⟨j, hj, .inr hqueue⟩

/-- Taking a node adds what follows it, one step deeper, to the end of the queue, unless it is as
deep as the search goes. -/
theorem take (h : Searching r a bound done ((c, depth) :: queue))
    (hnew : c ∉ done.map (·.1)) (hdepth : depth ≤ bound) {added : List (α × Nat)}
    (hadded : ∀ y ∈ added, y.2 = depth + 1 ∧ r c y.1)
    (hnext : depth < bound → ∀ b, r c b → (b, depth + 1) ∈ added) :
    Searching r a bound ((c, depth) :: done) (queue ++ added) := by
  obtain ⟨hpos, hwalk⟩ := h.queued (c, depth) List.mem_cons_self
  obtain ⟨hhead, hsorted⟩ := List.pairwise_cons.mp h.sorted
  have hfound {k : Nat} {b : α} (hb : Found done ((c, depth) :: queue) k b) :
      Found ((c, depth) :: done) (queue ++ added) k b := by
    obtain ⟨j, hj, hdone | hqueue⟩ := hb
    · exact ⟨j, hj, .inl (List.mem_cons_of_mem _ hdone)⟩
    rcases List.mem_cons.mp hqueue with heq | hqueue
    · exact ⟨j, hj, .inl (heq ▸ List.mem_cons_self)⟩
    · exact ⟨j, hj, .inr (List.mem_append_left _ hqueue)⟩
  refine ⟨List.nodup_cons.mpr ⟨hnew, h.nodup⟩, ?_, ?_, ?_, ?_, ?_⟩
  · intro x hx
    rcases List.mem_cons.mp hx with rfl | hx
    · exact ⟨hpos, hdepth, hwalk⟩
    · exact h.taken x hx
  · intro x hx
    rcases List.mem_append.mp hx with hx | hx
    · exact h.queued x (List.mem_cons_of_mem _ hx)
    · obtain ⟨hx2, hx1⟩ := hadded x hx
      exact ⟨by omega, hx2 ▸ .snoc hwalk hx1⟩
  · refine List.pairwise_append.mpr ⟨hsorted, ?_, fun x hx y hy => ?_⟩
    · refine List.pairwise_of_forall_mem_list fun x hx y hy => ?_
      have := (hadded x hx).1
      have := (hadded y hy).1
      omega
    · have := hhead x hx
      have := (hadded y hy).1
      dsimp only at *
      omega
  · intro x hx y hy
    have hdeep : depth ≤ y.2 := by
      rcases List.mem_append.mp hy with hy | hy
      · exact (hhead y hy).1
      · exact (hadded y hy).1 ▸ Nat.le_succ depth
    rcases List.mem_cons.mp hx with rfl | hx
    · exact hdeep
    · exact (h.order x hx _ List.mem_cons_self).trans hdeep
  · intro x hx hdeep b hb
    by_cases hself : x = (c, depth)
    · subst hself
      exact ⟨depth + 1, le_rfl, .inr (List.mem_append_right _ (hnext hdeep b hb))⟩
    · refine hfound (h.next x ?_ hdeep b hb)
      simp only [List.mem_cons] at hx ⊢
      tauto

/-- When the queue is empty, what has been taken is what is within the bound. -/
theorem mem_iff (h : Searching r a bound done []) (b : α) :
    b ∈ done.map (·.1) ↔ Within r a bound b := by
  constructor
  · intro hb
    obtain ⟨x, hx, rfl⟩ := List.mem_map.mp hb
    exact ⟨x.2, h.taken x hx⟩
  · rintro ⟨n, hn, hbound, hwalk⟩
    -- a walk of `n` steps ends where the search arrived after `n` steps or before
    have hsource : ∀ {n : Nat} {b : α}, Walk r a n b → n ≤ bound →
        ∃ j ≤ n, (b, j) ∈ (a, 0) :: done ∧ (1 ≤ n → (b, j) ∈ done) := by
      intro n b hwalk hbound
      induction hwalk with
      | nil => exact ⟨0, le_rfl, List.mem_cons_self, by omega⟩
      | @snoc n b c _ hbc ih =>
        obtain ⟨j, hj, hmem, -⟩ := ih (by omega)
        obtain ⟨k, hk, hdone | hqueue⟩ := h.next _ hmem (by dsimp only; omega) c hbc
        · dsimp only at hk
          exact ⟨k, by omega, List.mem_cons_of_mem _ hdone, fun _ => hdone⟩
        · cases hqueue
    obtain ⟨j, -, -, hdone⟩ := hsource hwalk hbound
    exact List.mem_map.mpr ⟨(b, j), hdone hn, rfl⟩

/-- The number of nodes that have been taken is that of the nodes within the bound. -/
theorem encard_within (h : Searching r a bound done []) :
    Set.encard {b | Within r a bound b} = done.length := by
  classical
  have hset : {b | Within r a bound b} = ((done.map (·.1)).toFinset : Set α) := by
    ext b
    simp only [Set.mem_ofPred_eq, List.coe_toFinset, h.mem_iff]
  rw [hset, Set.encard_coe_eq_coe_finsetCard, List.toFinset_card_of_nodup h.nodup, List.length_map]

end Searching

end BoundedSearch
