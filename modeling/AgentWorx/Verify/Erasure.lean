import AgentWorx.Verify.Refusals
import AgentWorx.Verify.View

/-!
# Requests that might not have been made

A request that is turned down leaves everything as it is, and so does one that only reads
(`refused_changes_nothing`). So the others cannot tell that it was made: there is a run without it
in which they do what they did.
-/

namespace AgentWorx

open Coop

variable {ι : Type} [DecidableEq ι] {requests : ι → Request} {c : Loop host ι Response}
  {lost : ι → Prop} {sched : List ι}

/-- Nothing but time has passed. -/
theorem Idle.wait {w w' : World} (h : Idle w w') (hp : Persists w w') :
    w' = w.wait (w'.tick - w.tick) := by
  rw [World.wait, Nat.add_sub_of_le hp.tick]
  exact h

/-- Steps that change nothing look like the passing of time. -/
theorem Serves.erased (h : Serves requests c)
    (hidle : c.Meets (fun c i => lost i → Idle c.store (c.step i).store) sched) :
    c.Meets (Loop.Shadowed id (¬ lost ·) (fun _ _ => True) (fun _ _ => True) World.wait) sched := by
  induction sched generalizing c with
  | nil => trivial
  | cons i sched ih =>
    obtain ⟨hi, hidle⟩ := hidle
    refine ⟨⟨fun _ => ⟨trivial, fun _ _ => trivial⟩, fun hlost => ?_⟩, ih (h.step i) hidle⟩
    exact ⟨_, (hi (not_not.mp hlost)).wait (h.persists i)⟩

/-- Whatever requests are made, in whatever interleaving and with whatever failures: those that are
turned down and those that only read might as well not have been made. There is a run in which they
take no step, the others take the same steps and get the same answers, and what is stored in the end
is the same; only time has to pass in it. -/
theorem refused_never_made {w : World} (hw : w.env.Foreign) (requests : ι → Request)
    (lost : ι → Prop) [DecidablePred lost] (sched : List ι)
    (hlost : ∀ i, lost i → (requests i).Reads ∨ ∃ statusCode detail, statusCode < 500 ∧
      (((serving w requests).run sched).tasks i).Ended (.error (.http statusCode detail))) :
    ∃ acts : List (ι ⊕ Nat), acts.filterMap Sum.getLeft? = sched.filter (¬ lost ·) ∧
      ((serving w requests).runActs World.wait acts).store =
        ((serving w requests).run sched).store ∧
      ∀ i, ¬ lost i → ((serving w requests).runActs World.wait acts).tasks i =
        ((serving w requests).run sched).tasks i := by
  have hidle : (serving w requests).Meets
      (fun c i => lost i → Idle c.store (c.step i).store) sched :=
    Loop.meets_of_each fun i hi => refused_changes_nothing hw requests i sched (hlost i hi)
  have hshadow : Loop.Shadow id (¬ lost ·) (serving w requests) (serving w requests) :=
    ⟨rfl, fun _ _ => rfl⟩
  obtain ⟨acts, horder, hstore, htasks⟩ := Loop.shadow_run hshadow (fun i _ => .self _)
    ((serves_serving w requests).erased hidle)
  exact ⟨acts, horder, hstore, htasks⟩

/-- The expert who is told that the proposal has been approved might not have asked. -/
theorem refused_never_made_second :
    ∃ acts : List (Bool ⊕ Nat), acts.filterMap Sum.getLeft? = List.replicate 7 false ∧
      ((serving (Sample.withTeam .proposed) Sample.twoExperts).runActs World.wait acts).store =
        ((serving (Sample.withTeam .proposed) Sample.twoExperts).run Sample.secondLate).store ∧
      ∀ i, ¬ i = true →
        ((serving (Sample.withTeam .proposed) Sample.twoExperts).runActs World.wait acts).tasks i =
          ((serving (Sample.withTeam .proposed) Sample.twoExperts).run Sample.secondLate).tasks i :=
  refused_never_made Sample.foreign Sample.twoExperts (· = true) Sample.secondLate
    (by
      rintro i rfl
      exact .inr ⟨409, _, by decide, rfl⟩)

end AgentWorx
