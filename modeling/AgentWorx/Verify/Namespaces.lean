import AgentWorx.Infra.RedisClient

/-!
# The stores of agent types

Every key is three words with a colon after the first and the second, and only the third may hold
one: the names that the graph store accepts have none. So a key says which builder made it and from
what. An accepted name is one ordinary segment of a path, too.
-/

namespace AgentWorx

/-! ## Accepted names -/

variable {a b : String}

theorem validateAgentType_ok : validateAgentType a = .ok () ↔ matchesAgentTypePattern a = true := by
  rw [validateAgentType]
  split_ifs with h <;> simp [h]

/-- What the pattern allows in a name. -/
def isNameChar (c : Char) : Bool := isAlnum c || c = '_' || c = '-'

theorem accepted_chars (h : matchesAgentTypePattern a = true) :
    a.toList ≠ [] ∧ ∀ c ∈ a.toList, isNameChar c = true := by
  unfold matchesAgentTypePattern at h
  cases hchars : a.toList with
  | nil =>
    rw [hchars] at h
    cases h
  | cons c cs =>
    rw [hchars] at h
    simp only [Bool.and_eq_true, List.all_eq_true] at h
    obtain ⟨⟨hc, hcs⟩, -⟩ := h
    refine ⟨List.cons_ne_nil _ _, fun d hd => ?_⟩
    rcases List.mem_cons.mp hd with rfl | hd
    · simp [isNameChar, hc]
    · exact hcs d hd

theorem notMem_of_accepted (h : matchesAgentTypePattern a = true) {c : Char}
    (hc : isNameChar c = false) : c ∉ a.toList := by
  intro hmem
  rw [(accepted_chars h).2 c hmem] at hc
  cases hc

/-! ## Keys -/

/-- A call of one of the key builders. -/
inductive KeyCall where
  | agentField (agentType : String) (field : AgentField)
  | agentState (agentType : String)
  | readiness (agentType : String)
  | contextStream (agentType : String)
  | circuitState (agentType : String)
  | circuitStats (agentType : String)
  | workflowContextStream (workflowId : String)
  | graphCache (agentType role : String)
  | certifiedKbCache (agentType queryHash : String)
  deriving DecidableEq

namespace KeyCall

/-- The key that the builder returns. -/
def key : KeyCall → String
  | agentField agentType field => agentKey agentType field
  | agentState agentType => agentStateKey agentType
  | readiness agentType => readinessKey agentType
  | contextStream agentType => contextStreamKey agentType
  | circuitState agentType => circuitStateKey agentType
  | circuitStats agentType => circuitStatsKey agentType
  | workflowContextStream workflowId => workflowContextStreamKey workflowId
  | graphCache agentType role => graphCacheKey agentType role
  | certifiedKbCache agentType queryHash => certifiedKbCacheKey agentType queryHash

/-- The agent type of the call, if it has one, has a name that the graph store accepts. -/
def Accepted : KeyCall → Prop
  | agentField agentType _ | agentState agentType | readiness agentType | contextStream agentType
  | circuitState agentType | circuitStats agentType | graphCache agentType _
  | certifiedKbCache agentType _ => validateAgentType agentType = .ok ()
  | workflowContextStream _ => True

/-- The three words of the key. -/
def words : KeyCall → String × String × String
  | agentField agentType field => ("agent", agentType, field.text)
  | agentState agentType => ("agent", agentType, "state")
  | readiness agentType => ("agent", agentType, "readiness")
  | contextStream agentType => ("agent", agentType, "context")
  | circuitState agentType => ("circuit", agentType, "state")
  | circuitStats agentType => ("circuit", agentType, "stats")
  | workflowContextStream workflowId => ("stream", "workflow", workflowId ++ ":context")
  | graphCache agentType role => ("graph", agentType, role)
  | certifiedKbCache agentType queryHash => ("certified_kb", agentType, queryHash)

theorem key_toList (call : KeyCall) : call.key.toList =
    call.words.1.toList ++ ':' :: (call.words.2.1.toList ++ ':' :: call.words.2.2.toList) := by
  cases call <;> dsimp only [key, words]
  case agentField => simp [agentKey_toList]
  -- the texts are unfolded by `delta`, as their equations are slow to generate
  all_goals
    first
      | delta agentStateKey
      | delta readinessKey
      | delta contextStreamKey
      | delta circuitStateKey
      | delta circuitStatsKey
      | delta workflowContextStreamKey
      | delta graphCacheKey
      | delta certifiedKbCacheKey
    simp [toString]

/-- The words before the colons have none. -/
theorem colon_notMem {call : KeyCall} (h : call.Accepted) :
    ':' ∉ call.words.1.toList ∧ ':' ∉ call.words.2.1.toList := by
  cases call with
  | workflowContextStream => exact ⟨by simp [words], by simp [words]⟩
  | _ => exact ⟨by simp [words], notMem_of_accepted (validateAgentType_ok.mp h) (by decide)⟩

/-- The first word and, for some, the third tell the builders apart. -/
theorem words_injective : Function.Injective words := by
  intro call call' h
  have hfield (field : AgentField) : field.text ≠ "state" ∧ field.text ≠ "readiness" ∧
      field.text ≠ "context" := by
    cases field <;> decide
  obtain ⟨hfirst, hrest⟩ := Prod.mk.inj h
  obtain ⟨hsecond, hthird⟩ := Prod.mk.inj hrest
  cases call <;> cases call' <;> first
    | exact absurd hfirst (by decide)
    | exact absurd hthird (by decide)
    | simp_all [words, AgentField.text_injective.eq_iff, eq_comm]

end KeyCall

/-- Two lists with the separator `c` are equal only if what precedes the first `c` is equal. -/
theorem append_cons_inj_left {α : Type} {c : α} {xs ys us vs : List α} (hx : c ∉ xs)
    (hy : c ∉ ys) (h : xs ++ c :: us = ys ++ c :: vs) : xs = ys ∧ us = vs := by
  have hreverse : us.reverse ++ c :: xs.reverse = vs.reverse ++ c :: ys.reverse := by
    simpa using congrArg List.reverse h
  obtain ⟨hrest, hfirst⟩ := append_cons_inj_right (by simpa using hx) (by simpa using hy) hreverse
  exact ⟨List.reverse_injective hfirst, List.reverse_injective hrest⟩

/-- The key of an accepted call tells which call it is. -/
theorem KeyCall.key_inj {call call' : KeyCall} (h : call.Accepted) (h' : call'.Accepted)
    (hkey : call.key = call'.key) : call = call' := by
  have htext := congrArg String.toList hkey
  rw [key_toList, key_toList] at htext
  obtain ⟨hfirst, hrest⟩ := append_cons_inj_left (colon_notMem h).1 (colon_notMem h').1 htext
  obtain ⟨hsecond, hthird⟩ := append_cons_inj_left (colon_notMem h).2 (colon_notMem h').2 hrest
  refine words_injective (Prod.ext (String.toList_inj.mp hfirst) (Prod.ext ?_ ?_))
  · exact String.toList_inj.mp hsecond
  · exact String.toList_inj.mp hthird

/-! ## Paths -/

/-- A component of a path that names an entry of the directory before it. -/
structure OrdinarySegment (name : String) : Prop where
  ne_empty : name ≠ ""
  ne_dot : name ≠ "."
  ne_dotdot : name ≠ ".."
  slash : '/' ∉ name.toList

theorem ordinarySegment_of_accepted (h : matchesAgentTypePattern a = true) : OrdinarySegment a := by
  have hdot : '.' ∉ a.toList := notMem_of_accepted h (by decide)
  refine ⟨?_, ?_, ?_, notMem_of_accepted h (by decide)⟩
  · rintro rfl
    exact (accepted_chars h).1 rfl
  · rintro rfl
    exact hdot (by decide)
  · rintro rfl
    exact hdot (by decide)

/-- An ordinary segment goes one step down. -/
theorem OrdinarySegment.joinpath (h : OrdinarySegment a) (path : PosixPath) :
    path.joinpath a = { path with parts := path.parts ++ [a] } := by
  have hroot : PosixPath.rootOf a = "" := by
    unfold PosixPath.rootOf
    cases hchars : a.toList with
    | nil => rfl
    | cons c cs =>
      have hc : c ≠ '/' := by
        rintro rfl
        exact h.slash (hchars ▸ List.mem_cons_self)
      split <;> simp_all
  have hparts : PosixPath.partsOf a = [a] := by
    rw [PosixPath.partsOf, List.splitOn_eq_singleton h.slash]
    simp [h.ne_empty, h.ne_dot]
  rw [PosixPath.joinpath, if_pos hroot, hparts]

theorem getDbPath_eq (graphsDir : PosixPath) (h : matchesAgentTypePattern a = true) :
    getDbPath graphsDir a =
      .ok { graphsDir with parts := graphsDir.parts ++ [a, "domain.kuzu"] } := by
  have hfile : OrdinarySegment "domain.kuzu" := ⟨by decide, by decide, by decide, by decide⟩
  rw [getDbPath, validateAgentType_ok.mpr h, (ordinarySegment_of_accepted h).joinpath,
    hfile.joinpath, List.append_assoc]
  rfl

/-- The stores of different agent types are apart: equal keys come from the same call of the same
builder, and an accepted name has a directory of its own, directly in that of the graphs. -/
theorem stores_apart :
    (∀ call call' : KeyCall, call.Accepted → call'.Accepted → call.key = call'.key →
      call = call') ∧
    ∀ (graphsDir : PosixPath) (a b : String), validateAgentType a = .ok () →
      validateAgentType b = .ok () →
      OrdinarySegment a ∧
      getDbPath graphsDir a =
        .ok { graphsDir with parts := graphsDir.parts ++ [a, "domain.kuzu"] } ∧
      (getDbPath graphsDir a = getDbPath graphsDir b → a = b) := by
  refine ⟨fun _ _ => KeyCall.key_inj, fun graphsDir a b ha hb => ?_⟩
  rw [validateAgentType_ok] at ha hb
  refine ⟨ordinarySegment_of_accepted ha, getDbPath_eq graphsDir ha, fun h => ?_⟩
  rw [getDbPath_eq graphsDir ha, getDbPath_eq graphsDir hb] at h
  simpa using h

end AgentWorx
