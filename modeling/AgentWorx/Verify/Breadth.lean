import AgentWorx.Apprentice.GapDetector
import AgentWorx.Lib.BoundedSearch

/-!
# Breadth

The search of the gap detector takes each concept at the length of a shortest walk to it: breadth
counts the concepts at the end of a walk that is not longer than the bound.
-/

namespace AgentWorx

open BoundedSearch

variable {edges : List EdgeRecord} {maxDepth : Nat} {conceptId : String} {seen : List String}
  {queue done : List (String × Nat)}

/-- An edge leads from the one concept to the other. -/
def Links (edges : List EdgeRecord) (a b : String) : Prop :=
  ∃ e ∈ edges, e.sourceId = a ∧ e.targetId = b

instance (edges : List EdgeRecord) (a b : String) : Decidable (Links edges a b) :=
  inferInstanceAs (Decidable (∃ e ∈ edges, _ ∧ _))

theorem mem_outgoingTargets {a b : String} :
    b ∈ (outgoingEdges edges a).map (·.targetId) ↔ Links edges a b := by
  simp [outgoingEdges, Links, and_assoc]

/-- The loop goes on with the search until the queue is empty. -/
theorem countDependentLoop_searching (hseen : done.map (·.1) = seen)
    (h : Searching (Links edges) conceptId maxDepth done queue) :
    ∃ done', done'.map (·.1) = countDependentLoop edges maxDepth seen queue ∧
      Searching (Links edges) conceptId maxDepth done' [] := by
  fun_induction countDependentLoop edges maxDepth seen queue generalizing done with
  | case1 seen => exact ⟨done, hseen, h⟩
  | case2 seen currentId depth queue hskip ih => exact ih hseen (h.skip (hseen ▸ hskip))
  | case3 seen currentId queue hskip ih =>
    obtain ⟨hnew, hdepth⟩ := not_or.mp hskip
    have htake : Searching (Links edges) conceptId maxDepth ((currentId, maxDepth) :: done)
        (queue ++ []) :=
      h.take (hseen ▸ hnew) (not_lt.mp hdepth) (by simp) fun hlt => absurd hlt (lt_irrefl _)
    rw [List.append_nil] at htake
    exact ih (by simp [hseen]) htake
  | case4 seen currentId depth queue hskip hbound ih =>
    obtain ⟨hnew, hdepth⟩ := not_or.mp hskip
    refine ih (by simp [hseen]) (h.take (hseen ▸ hnew) (not_lt.mp hdepth) ?_ fun _ b hb => ?_)
    · intro y hy
      obtain ⟨e, he, rfl⟩ := List.mem_map.mp hy
      exact ⟨rfl, mem_outgoingTargets.mp (List.mem_map_of_mem he)⟩
    · obtain ⟨e, he, rfl⟩ := List.mem_map.mp (mem_outgoingTargets.mpr hb)
      exact List.mem_map.mpr ⟨e, he, rfl⟩

/-- Breadth is the number of the concepts to which a walk along one to `maxDepth` edges leads. -/
theorem countDependentConcepts_encard (conceptId : String) (edges : List EdgeRecord)
    (maxDepth : Nat) :
    (countDependentConcepts conceptId edges maxDepth : ℕ∞) =
      Set.encard {b | Within (Links edges) conceptId maxDepth b} := by
  have hstart : Searching (Links edges) conceptId maxDepth []
      ((outgoingEdges edges conceptId).map fun e => (e.targetId, 1)) := by
    have h : Searching (Links edges) conceptId maxDepth []
        (((outgoingEdges edges conceptId).map (·.targetId)).map fun c => (c, 1)) :=
      .start fun _ => mem_outgoingTargets
    rwa [List.map_map] at h
  obtain ⟨done, hdone, hsearch⟩ := countDependentLoop_searching rfl hstart
  have hlength := congrArg List.length hdone
  rw [List.length_map] at hlength
  rw [hsearch.encard_within, hlength]
  rfl

end AgentWorx
