import Mathlib.Data.List.TakeWhile
import Mathlib.Data.String.Basic

/-!
# Redis keys

The key builders of `core/redis_keys.py`. In the requests agent type names are arbitrary texts and
may hold colons; what follows the last colon of an agent key is the name of its field, so agent keys
of different names or different fields are different.
-/

namespace AgentWorx

/-- The fields of an agent type that are kept in Redis. -/
inductive AgentField where
  | phase | learningRate | readinessScore | proposalReady | certReady
  deriving DecidableEq, Repr

namespace AgentField

def text : AgentField → String
  | .phase => "phase"
  | .learningRate => "learning_rate"
  | .readinessScore => "readiness_score"
  | .proposalReady => "proposal_ready"
  | .certReady => "cert_ready"

theorem text_injective : Function.Injective text := by
  intro f g h
  cases f <;> cases g <;> first | rfl | exact absurd h (by decide)

theorem colon_notMem_text (f : AgentField) : ':' ∉ f.text.toList := by
  cases f <;> decide

end AgentField

def agentKey (agentType : String) (field : AgentField) : String :=
  s!"agent:{agentType}:{field.text}"

abbrev agentPhaseKey (agentType : String) : String := agentKey agentType .phase

abbrev agentLearningRateKey (agentType : String) : String := agentKey agentType .learningRate

abbrev agentReadinessScoreKey (agentType : String) : String := agentKey agentType .readinessScore

abbrev agentProposalReadyKey (agentType : String) : String := agentKey agentType .proposalReady

abbrev agentCertReadyKey (agentType : String) : String := agentKey agentType .certReady

def circuitStateKey (agentType : String) : String := s!"circuit:{agentType}:state"

def circuitStatsKey (agentType : String) : String := s!"circuit:{agentType}:stats"

def workflowContextStreamKey (workflowId : String) : String :=
  s!"stream:workflow:{workflowId}:context"

def graphCacheKey (agentType role : String) : String := s!"graph:{agentType}:{role}"

def certifiedKbCacheKey (agentType queryHash : String) : String :=
  s!"certified_kb:{agentType}:{queryHash}"

theorem agentKey_toList (agentType : String) (field : AgentField) :
    (agentKey agentType field).toList =
      "agent:".toList ++ agentType.toList ++ ':' :: field.text.toList := by
  simp [agentKey, toString, String.toList_append]

/-- Two lists with the separator `c` are equal only if what follows the last `c` is equal. -/
theorem append_cons_inj_right {α : Type} {c : α} {xs ys us vs : List α} (hx : c ∉ us)
    (hy : c ∉ vs) (h : xs ++ c :: us = ys ++ c :: vs) : xs = ys ∧ us = vs := by
  have h' := congrArg List.reverse h
  simp only [List.reverse_append, List.reverse_cons, List.append_assoc, List.singleton_append]
    at h'
  classical
  have hu : ∀ a ∈ us.reverse, (fun a => decide (a ≠ c)) a = true := by
    intro a ha
    simpa using fun h : a = c => hx (h ▸ List.mem_reverse.mp ha)
  have hv : ∀ a ∈ vs.reverse, (fun a => decide (a ≠ c)) a = true := by
    intro a ha
    simpa using fun h : a = c => hy (h ▸ List.mem_reverse.mp ha)
  have hsuffix : us = vs := by
    have := congrArg (List.takeWhile fun a => decide (a ≠ c)) h'
    rw [List.takeWhile_append_of_pos hu, List.takeWhile_append_of_pos hv] at this
    simpa using this
  subst hsuffix
  exact ⟨List.append_cancel_right h, rfl⟩

@[simp] theorem agentKey_inj {a b : String} {f g : AgentField} :
    agentKey a f = agentKey b g ↔ a = b ∧ f = g := by
  constructor
  · intro h
    have h' := congrArg String.toList h
    rw [agentKey_toList, agentKey_toList] at h'
    obtain ⟨hname, hfield⟩ :=
      append_cons_inj_right f.colon_notMem_text g.colon_notMem_text h'
    exact ⟨String.toList_inj.mp (List.append_cancel_left hname),
      AgentField.text_injective (String.toList_inj.mp hfield)⟩
  · rintro ⟨rfl, rfl⟩
    rfl

end AgentWorx
