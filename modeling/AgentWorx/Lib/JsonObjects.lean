import AgentWorx.Lib.Json
import Mathlib.Data.List.Perm.Basic

/-!
# Objects without an order

Members of an object are looked up by key. Stores such as JSONB keep an object as a set of members
and give them back in an order of their own: `Value.Same` relates two values that differ in nothing
else, and looking up a key does not tell them apart.
-/

namespace Json

variable {ι φ : Type}

/-- `members.get(key)` -/
def member (members : List (List Nat × Value ι φ)) (key : List Nat) : Option (Value ι φ) :=
  (members.find? (·.1 = key)).map (·.2)

mutual

/-- The value again, up to the order of the members of its objects. -/
def Value.Same : Value ι φ → Value ι φ → Prop
  | .array items, w => ∃ items', w = .array items' ∧ SameItems items items'
  | .object members, w =>
    ∃ moved members', w = .object members' ∧ SameMembers members moved ∧ moved.Perm members'
  | v, w => w = v

def SameItems : List (Value ι φ) → List (Value ι φ) → Prop
  | [], ws => ws = []
  | v :: vs, ws => ∃ w rest, ws = w :: rest ∧ v.Same w ∧ SameItems vs rest

def SameMembers : List (List Nat × Value ι φ) → List (List Nat × Value ι φ) → Prop
  | [], ws => ws = []
  | (key, v) :: vs, ws => ∃ w rest, ws = (key, w) :: rest ∧ v.Same w ∧ SameMembers vs rest

end

mutual

theorem Value.Same.refl : ∀ v : Value ι φ, v.Same v
  | .null | .bool _ | .int _ | .float _ | .constant _ | .string _ => rfl
  | .array items => ⟨items, rfl, SameItems.refl items⟩
  | .object members => ⟨members, members, rfl, SameMembers.refl members, .refl members⟩

theorem SameItems.refl : ∀ vs : List (Value ι φ), SameItems vs vs
  | [] => rfl
  | v :: vs => ⟨v, vs, rfl, .refl v, SameItems.refl vs⟩

theorem SameMembers.refl : ∀ vs : List (List Nat × Value ι φ), SameMembers vs vs
  | [] => rfl
  | (_, v) :: vs => ⟨v, vs, rfl, .refl v, SameMembers.refl vs⟩

end

variable {key : List Nat} {v w : Value ι φ} {vs ws : List (List Nat × Value ι φ)}

theorem SameMembers.keys (h : SameMembers vs ws) : ws.map Prod.fst = vs.map Prod.fst := by
  induction vs generalizing ws with
  | nil => rw [show ws = [] from h]
  | cons m vs ih =>
    obtain ⟨w, rest, rfl, -, h⟩ := h
    simp [ih h]

theorem SameMembers.member (h : SameMembers vs ws) :
    Option.Rel Value.Same (member vs key) (member ws key) := by
  induction vs generalizing ws with
  | nil =>
    rw [show ws = [] from h]
    exact .none
  | cons m vs ih =>
    obtain ⟨w, rest, rfl, hw, h⟩ := h
    by_cases hkey : m.1 = key
    · simp only [Json.member, List.find?_cons, hkey, decide_true, Option.map_some]
      exact .some hw
    · simpa only [Json.member, List.find?_cons, hkey, decide_false] using ih h

theorem member_eq_some (hkeys : (vs.map Prod.fst).Nodup) :
    member vs key = some v ↔ (key, v) ∈ vs := by
  constructor
  · intro h
    obtain ⟨m, hm, rfl⟩ := Option.map_eq_some_iff.mp h
    have hkey : m.1 = key := by simpa using List.find?_some hm
    subst hkey
    exact List.mem_of_find?_eq_some hm
  · intro h
    induction vs with
    | nil => cases h
    | cons m vs ih =>
      rw [List.map_cons, List.nodup_cons] at hkeys
      rcases List.mem_cons.mp h with rfl | h
      · simp [member]
      · have hne : m.1 ≠ key := by
          rintro rfl
          exact hkeys.1 (List.mem_map.mpr ⟨_, h, rfl⟩)
        simpa [member, hne] using ih hkeys.2 h

/-- Looking up a key does not depend on the order. -/
theorem member_perm (h : vs.Perm ws) (hkeys : (vs.map Prod.fst).Nodup) :
    member vs key = member ws key := by
  ext v
  rw [member_eq_some hkeys, member_eq_some ((h.map _).nodup_iff.mp hkeys)]
  exact h.mem_iff

theorem Value.Same.member {members members' : List (List Nat × Value ι φ)}
    (h : (Value.object members).Same (.object members')) (hkeys : (members.map Prod.fst).Nodup) :
    Option.Rel Value.Same (Json.member members key) (Json.member members' key) := by
  obtain ⟨moved, _, hw, hsame, hperm⟩ := h
  cases hw
  rw [← member_perm hperm (hsame.keys ▸ hkeys)]
  exact hsame.member

end Json
