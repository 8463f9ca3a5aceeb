import AgentWorx.Apprentice.Columns
import AgentWorx.Lib.Passes
import Mathlib.Data.List.Perm.Basic

/-!
# Compositions come back from their columns

The JSON that a version is stored as decodes to the version again, whatever order the column gives
the members of an object in. What JSONB may do to a text is `Value.Same`; what that does to a
contract is `AgentContract.Same`: its dicts are the same up to the order of their entries.
-/

namespace AgentWorx

open Json (Value)

variable {ι φ : Type} {numbers : Json.Numbers ι φ} {model : String}

/-! ## Texts -/

theorem charOfCode_toNat (c : Char) : charOfCode c.toNat = some c := by
  have hvalid : c.toNat.isValidChar := c.valid
  rw [charOfCode, if_pos hvalid, Char.ofNat_toNat]

theorem mapM_map_some {α β : Type} {f : β → Option α} {g : α → β} (h : ∀ x, f (g x) = some x)
    (xs : List α) : (xs.map g).mapM f = some xs := by
  induction xs with
  | nil => rfl
  | cons x xs ih => simp [List.mapM_cons, h, ih]

@[simp] theorem ofCodes_codes (s : String) : ofCodes (codes s) = some s := by
  rw [ofCodes, codes, mapM_map_some charOfCode_toNat]
  simp

theorem codes_injective : Function.Injective codes := by
  intro s t h
  have : ofCodes (codes s) = ofCodes (codes t) := congrArg ofCodes h
  simpa using this

/-- A Lean text has no halves of surrogate pairs. -/
theorem isText_codes (s : String) : Json.IsText (codes s) := by
  have hvalid : ∀ n ∈ codes s, n.isValidChar := by
    intro n hn
    obtain ⟨c, -, rfl⟩ := List.mem_map.mp hn
    exact c.valid
  refine ⟨fun n hn => ?_, ?_⟩
  · rcases hvalid n hn with h | h <;> omega
  · refine List.Pairwise.isChain (List.pairwise_of_forall_mem_list fun m hm n hn => ?_)
    rintro ⟨hhigh, -⟩
    have := hvalid m hm
    simp only [Json.isHigh, Nat.isValidChar] at hhigh this
    omega

@[simp] theorem asText_jsonText (s : String) :
    asText model (jsonText s : Value ι φ) = .ok s := by
  simp [asText, jsonText]

/-! ## The same up to order -/

/-- A dict with the same entries; Python compares dicts so. -/
def Dict.Same (d d' : Dict) : Prop := d.entries.Perm d'.entries

structure AgentContract.Same (agent agent' : AgentContract) : Prop where
  agentName : agent'.agentName = agent.agentName
  inputSchema : Dict.Same agent.inputSchema agent'.inputSchema
  outputSchema : Dict.Same agent.outputSchema agent'.outputSchema
  prohibitedFields : agent'.prohibitedFields = agent.prohibitedFields

structure ProposalArtifact.Same (artifact artifact' : ProposalArtifact) : Prop where
  id : artifact'.id = artifact.id
  agentTypeId : artifact'.agentTypeId = artifact.agentTypeId
  version : artifact'.version = artifact.version
  topology : artifact'.topology = artifact.topology
  agents : List.Forall₂ AgentContract.Same artifact.agents artifact'.agents
  contracts : artifact'.contracts = artifact.contracts
  rationalePerAgent : Dict.Same artifact.rationalePerAgent artifact'.rationalePerAgent
  rationalePerContract : Dict.Same artifact.rationalePerContract artifact'.rationalePerContract
  status : artifact'.status = artifact.status
  createdAt : artifact'.createdAt = artifact.createdAt
  expertSignature : artifact'.expertSignature = artifact.expertSignature
  signedAt : artifact'.signedAt = artifact.signedAt

/-- Dicts with the same entries answer every lookup alike. -/
theorem Dict.Same.lookup {d d' : Dict} (h : Dict.Same d d') (key : String) :
    d'.lookup key = d.lookup key := (AList.perm_lookup h).symm

/-! ## Decoding -/

section

variable {v w : Value ι φ} {s : String} {texts : List String} {d : Dict}

theorem asText_same (h : (jsonText s).Same w) : asText model w = .ok s := by
  rw [show w = jsonText s from h, asText_jsonText]

theorem sameItems_jsonText {ws : List (Value ι φ)} (h : Json.SameItems (texts.map jsonText) ws) :
    ws = texts.map jsonText := by
  induction texts generalizing ws with
  | nil => exact h
  | cons s texts ih =>
    obtain ⟨w, rest, rfl, hw, hrest⟩ := h
    rw [ih hrest, show w = jsonText s from hw]
    rfl

theorem mapM_map_ok {α β : Type} {f : β → Except Exn α} {g : α → β} (h : ∀ x, f (g x) = .ok x)
    (xs : List α) : (xs.map g).mapM f = .ok xs := by
  induction xs with
  | nil => rfl
  | cons x xs ih =>
    rw [List.map_cons, List.mapM_cons, h, ih]
    rfl

theorem asTexts_same (h : (jsonTexts texts).Same w) : asTexts model w = .ok texts := by
  obtain ⟨items', rfl, hitems⟩ := h
  rw [sameItems_jsonText hitems, asTexts]
  exact mapM_map_ok asText_jsonText texts

/-- The member of an entry. -/
def entryMember (entry : Sigma fun _ : String => String) : List Nat × Value ι φ :=
  (codes entry.1, jsonText entry.2)

theorem sameMembers_entries {entries : List (Sigma fun _ : String => String)}
    {ws : List (List Nat × Value ι φ)} (h : Json.SameMembers (entries.map entryMember) ws) :
    ws = entries.map entryMember := by
  induction entries generalizing ws with
  | nil => exact h
  | cons entry entries ih =>
    obtain ⟨w, rest, rfl, hw, hrest⟩ := h
    rw [ih hrest, show w = jsonText entry.2 from hw]
    rfl

theorem dedupKeys_of_nodupKeys {entries : List (Sigma fun _ : String => String)}
    (h : entries.NodupKeys) : List.dedupKeys entries = entries := by
  induction entries with
  | nil => rfl
  | cons entry entries ih =>
    rw [List.nodupKeys_cons] at h
    rw [List.dedupKeys_cons, ih h.2, List.kinsert, List.kerase_of_notMem_keys h.1]

theorem exists_of_perm_map {α β : Type} {f : α → β} {ys : List β} {xs : List α}
    (h : ys.Perm (xs.map f)) : ∃ xs' : List α, ys = xs'.map f ∧ xs'.Perm xs := by
  have hcomp : Relation.Comp (fun ys xs => ys = List.map f xs) List.Perm ys xs := by
    rw [List.eq_map_comp_perm]
    exact h
  exact hcomp

/-- A dict comes back with its entries in some order. -/
theorem asDict_same (h : (jsonDict d).Same w) :
    ∃ d', asDict model w = .ok d' ∧ Dict.Same d d' := by
  obtain ⟨moved, members', rfl, hmoved, hperm⟩ := h
  obtain rfl := sameMembers_entries hmoved
  obtain ⟨entries', rfl, hentries⟩ := exists_of_perm_map hperm.symm
  refine ⟨entries'.toAList, ?_, ?_⟩
  · rw [asDict, mapM_map_ok]
    · rfl
    · intro entry
      have hkey : asText (ι := ι) (φ := φ) model (.string (codes entry.1)) = .ok entry.1 :=
        asText_jsonText entry.1
      simp only [entryMember, hkey, asText_jsonText]
      rfl
  · have hnodup : entries'.NodupKeys := (List.perm_nodupKeys hentries).mpr d.nodupKeys
    rw [Dict.Same, AList.entries_toAList, dedupKeys_of_nodupKeys hnodup]
    exact hentries.symm

/-! ## Contracts -/

/-- A field that is there comes back, whatever the order of the members. -/
theorem required_same {α : Type} {members members' : List (List Nat × Value ι φ)} {key : String}
    {decode : String → Value ι φ → Except Exn α} {P : α → Prop}
    (h : (Value.object members).Same (.object members')) (hkeys : (members.map Prod.fst).Nodup)
    (hv : Json.member members (codes key) = some v)
    (hdecode : ∀ w, v.Same w → ∃ a, decode model w = .ok a ∧ P a) :
    ∃ a, required model members' key decode = .ok a ∧ P a := by
  have hmember : Option.Rel Value.Same (Json.member members (codes key))
      (Json.member members' (codes key)) := h.member hkeys
  rw [hv] at hmember
  unfold required
  generalize Json.member members' (codes key) = found at hmember ⊢
  cases hmember with
  | some hw => exact hdecode _ hw

theorem required_text {members members' : List (List Nat × Value ι φ)} {key : String}
    (h : (Value.object members).Same (.object members')) (hkeys : (members.map Prod.fst).Nodup)
    (hv : Json.member members (codes key) = some (jsonText s)) :
    required model members' key asText = .ok s := by
  have hread : ∃ a, required model members' key asText = .ok a ∧ a = s :=
    required_same h hkeys hv fun w hw => ⟨s, asText_same hw, rfl⟩
  obtain ⟨a, ha, rfl⟩ := hread
  exact ha

theorem required_texts {members members' : List (List Nat × Value ι φ)} {key : String}
    (h : (Value.object members).Same (.object members')) (hkeys : (members.map Prod.fst).Nodup)
    (hv : Json.member members (codes key) = some (jsonTexts texts)) :
    required model members' key asTexts = .ok texts := by
  have hread : ∃ a, required model members' key asTexts = .ok a ∧ a = texts :=
    required_same h hkeys hv fun w hw => ⟨texts, asTexts_same hw, rfl⟩
  obtain ⟨a, ha, rfl⟩ := hread
  exact ha

theorem required_dict {members members' : List (List Nat × Value ι φ)} {key : String}
    (h : (Value.object members).Same (.object members')) (hkeys : (members.map Prod.fst).Nodup)
    (hv : Json.member members (codes key) = some (jsonDict d)) :
    ∃ d', required model members' key asDict = .ok d' ∧ Dict.Same d d' :=
  required_same h hkeys hv fun _ => asDict_same

theorem optional_eq_required {α : Type} {members : List (List Nat × Value ι φ)} {key : String}
    {decode : String → Value ι φ → Except Exn α} {a b : α}
    (h : required model members key decode = .ok a) :
    optional model members key decode b = .ok a := by
  unfold required at h
  unfold optional
  split at h
  · exact h
  · cases h

/-- A contract comes back from its JSON. -/
theorem AgentContract.modelValidate_same {agent : AgentContract}
    (h : (agent.modelDump : Value ι φ).Same w) :
    ∃ agent', AgentContract.modelValidate w = .ok agent' ∧ agent.Same agent' := by
  obtain ⟨moved, members', rfl, hmoved, hperm⟩ := h
  have hsame : (agent.modelDump : Value ι φ).Same (.object members') :=
    ⟨moved, members', rfl, hmoved, hperm⟩
  have hkeys : [codes "agent_name", codes "input_schema", codes "output_schema",
      codes "prohibited_fields"].Nodup := by decide
  have hname : required "AgentContract" members' "agent_name" asText = .ok agent.agentName :=
    required_text hsame hkeys rfl
  obtain ⟨inputSchema, hinput, hinputSame⟩ : ∃ d, required "AgentContract" members'
      "input_schema" asDict = .ok d ∧ Dict.Same agent.inputSchema d :=
    required_dict hsame hkeys rfl
  obtain ⟨outputSchema, houtput, houtputSame⟩ : ∃ d, required "AgentContract" members'
      "output_schema" asDict = .ok d ∧ Dict.Same agent.outputSchema d :=
    required_dict hsame hkeys rfl
  have hprohibited : optional "AgentContract" members' "prohibited_fields" asTexts [] =
      .ok agent.prohibitedFields := optional_eq_required (required_texts hsame hkeys rfl)
  refine ⟨⟨agent.agentName, inputSchema, outputSchema, agent.prohibitedFields⟩, ?_,
    rfl, hinputSame, houtputSame, rfl⟩
  simp only [AgentContract.modelValidate, hname, hinput, houtput, hprohibited]
  rfl

theorem HandoffContract.modelValidate_same {contract : HandoffContract}
    (h : (contract.modelDump : Value ι φ).Same w) :
    HandoffContract.modelValidate w = .ok contract := by
  obtain ⟨moved, members', rfl, hmoved, hperm⟩ := h
  have hsame : (contract.modelDump : Value ι φ).Same (.object members') :=
    ⟨moved, members', rfl, hmoved, hperm⟩
  have hkeys : [codes "from_agent", codes "to_agent", codes "condition", codes "validates",
      codes "rationale"].Nodup := by decide
  have hfrom : required "HandoffContract" members' "from_agent" asText = .ok contract.fromAgent :=
    required_text hsame hkeys rfl
  have hto : required "HandoffContract" members' "to_agent" asText = .ok contract.toAgent :=
    required_text hsame hkeys rfl
  have hcondition : required "HandoffContract" members' "condition" asText =
      .ok contract.condition := required_text hsame hkeys rfl
  have hvalidates : required "HandoffContract" members' "validates" asTexts =
      .ok contract.validates := required_texts hsame hkeys rfl
  have hrationale : required "HandoffContract" members' "rationale" asText =
      .ok contract.rationale := required_text hsame hkeys rfl
  simp only [HandoffContract.modelValidate, hfrom, hto, hcondition, hvalidates, hrationale]
  rfl

/-- The items of a list come back one by one. -/
theorem mapM_same {α β : Type} {encode : α → Value ι φ} {decode : Value ι φ → Except Exn β}
    {R : α → β → Prop} {xs : List α} {ws : List (Value ι φ)}
    (h : Json.SameItems (xs.map encode) ws)
    (hdecode : ∀ x ∈ xs, ∀ w, (encode x).Same w → ∃ y, decode w = .ok y ∧ R x y) :
    ∃ ys, ws.mapM decode = .ok ys ∧ List.Forall₂ R xs ys := by
  induction xs generalizing ws with
  | nil =>
    rw [show ws = [] from h]
    exact ⟨[], rfl, .nil⟩
  | cons x xs ih =>
    obtain ⟨w, rest, rfl, hw, hrest⟩ := h
    obtain ⟨y, hy, hR⟩ := hdecode x List.mem_cons_self w hw
    obtain ⟨ys, hys, hforall⟩ := ih hrest fun x hx => hdecode x (List.mem_cons_of_mem _ hx)
    refine ⟨y :: ys, ?_, .cons hR hforall⟩
    rw [List.mapM_cons, hy, hys]
    rfl

/-- Items that come back unchanged. -/
theorem mapM_same_eq {α β : Type} {encode : α → Value ι φ} {decode : Value ι φ → Except Exn β}
    {f : α → β} {xs : List α} {ws : List (Value ι φ)} (h : Json.SameItems (xs.map encode) ws)
    (hdecode : ∀ x ∈ xs, ∀ w, (encode x).Same w → decode w = .ok (f x)) :
    ws.mapM decode = .ok (xs.map f) := by
  obtain ⟨ys, hys, hforall⟩ := mapM_same (R := fun x y => y = f x) h
    fun x hx w hw => ⟨f x, hdecode x hx w hw, rfl⟩
  have hmap : ys.map id = xs.map f :=
    Passes.map_eq_of_forall₂ hforall fun _ _ h => h
  rw [hys, ← hmap, List.map_id]

theorem agents_of_same {agents : List AgentContract} (h : (agentsDump agents).Same v) :
    ∃ items agents', elements v = .ok items ∧ items.mapM AgentContract.modelValidate = .ok agents' ∧
      List.Forall₂ AgentContract.Same agents agents' := by
  obtain ⟨items, rfl, hitems⟩ := h
  obtain ⟨agents', hagents, hforall⟩ :=
    mapM_same hitems fun _ _ _ hw => AgentContract.modelValidate_same hw
  exact ⟨items, agents', rfl, hagents, hforall⟩

theorem contracts_of_same {contracts : List HandoffContract}
    (h : (contractsDump contracts).Same v) :
    ∃ items, elements v = .ok items ∧ items.mapM HandoffContract.modelValidate = .ok contracts := by
  obtain ⟨items, rfl, hitems⟩ := h
  refine ⟨items, rfl, ?_⟩
  rw [mapM_same_eq hitems fun contract _ _ hw => HandoffContract.modelValidate_same hw]
  exact congrArg Except.ok (List.map_id' contracts)

end

/-! ## Rows -/

/-- The columns hold the row: the JSON in them is what was written, up to the order of members. -/
structure CompositionColumns.Holds (numbers : Json.Numbers ι φ) (columns : CompositionColumns)
    (row : CompositionRow) : Prop where
  id : columns.id = row.id
  agentType : columns.agentType = row.agentType
  version : columns.version = row.version
  topology : columns.topology = row.topology.value
  agentList : ∃ v, loadsText numbers columns.agentList = .ok v ∧ (agentsDump row.agentList).Same v
  contracts : ∃ v, loadsText numbers columns.contracts = .ok v ∧
    (contractsDump row.contracts).Same v
  rationale : Option.Rel (fun rationale text => ∃ v, loadsText numbers text = .ok v ∧
    (Rationale.dump rationale).Same v) row.rationale columns.rationale
  expertSignature : columns.expertSignature = row.expertSignature
  signedAt : columns.signedAt = row.signedAt
  status : columns.status = row.status.value
  createdAt : columns.createdAt = row.createdAt

theorem TopologyType.ofValue_value (topology : TopologyType) :
    TopologyType.ofValue topology.value = some topology := by
  cases topology <;> rfl

theorem CompositionStatus.ofValue_value (status : CompositionStatus) :
    CompositionStatus.ofValue status.value = some status := by
  cases status <;> rfl

section

variable {columns : CompositionColumns} {row : CompositionRow}

theorem loadsText_ne_empty {text : String} {v : Value ι φ} (h : loadsText numbers text = .ok v) :
    text ≠ "" := by
  rintro rfl
  cases h

theorem loadRationale_some {text : String} {members : List (List Nat × Value ι φ)}
    (h : loadsText numbers text = .ok (.object members)) :
    loadRationale numbers (some text) = .ok members := by
  have hne := loadsText_ne_empty h
  unfold loadRationale
  split
  · simp_all
  · simp_all
  · rename_i htext
    cases htext
    rw [h]
    rfl

theorem optional_dict {members members' : List (List Nat × Value ι φ)} {key : String}
    {stored : Option Dict} (h : (Value.object members).Same (.object members'))
    (hkeys : (members.map Prod.fst).Nodup)
    (hv : Json.member members (codes key) = stored.map jsonDict) :
    ∃ d, optional model members' key asDict ∅ = .ok d ∧ Dict.Same (stored.getD ∅) d := by
  have hmember : Option.Rel Value.Same (Json.member members (codes key))
      (Json.member members' (codes key)) := h.member hkeys
  rw [hv] at hmember
  unfold optional
  generalize Json.member members' (codes key) = found at hmember ⊢
  cases stored with
  | none =>
    cases hmember
    exact ⟨∅, rfl, .refl _⟩
  | some d =>
    cases hmember with
    | some hw => exact asDict_same hw

/-- Each of the three keys is there or not. -/
theorem Rationale.nodup_keys (rationale : Rationale) :
    ((rationale.members : List (List Nat × Value ι φ)).map Prod.fst).Nodup := by
  obtain ⟨perAgent, perContract, reason⟩ := rationale
  cases perAgent <;> cases perContract <;> cases reason <;>
    simp only [members, Option.toList_none, Option.toList_some, List.map_nil, List.map_cons,
      List.nil_append, List.append_nil, List.cons_append] <;> decide

theorem Rationale.member_perAgent (rationale : Rationale) :
    Json.member rationale.members (codes "rationale_per_agent") =
      rationale.rationalePerAgent.map (jsonDict (ι := ι) (φ := φ)) := by
  obtain ⟨perAgent, perContract, reason⟩ := rationale
  cases perAgent <;> cases perContract <;> cases reason <;> rfl

theorem Rationale.member_perContract (rationale : Rationale) :
    Json.member rationale.members (codes "rationale_per_contract") =
      rationale.rationalePerContract.map (jsonDict (ι := ι) (φ := φ)) := by
  obtain ⟨perAgent, perContract, reason⟩ := rationale
  cases perAgent <;> cases perContract <;> cases reason <;> rfl

/-- The two maps of the column `rationale`, an absent one being empty. -/
theorem CompositionColumns.Holds.rationale_read (h : columns.Holds numbers row) :
    ∃ members perAgent perContract, loadRationale numbers columns.rationale = .ok members ∧
      optional "ProposalArtifact" members "rationale_per_agent" asDict ∅ = .ok perAgent ∧
      optional "ProposalArtifact" members "rationale_per_contract" asDict ∅ = .ok perContract ∧
      Dict.Same ((row.rationale.bind (·.rationalePerAgent)).getD ∅) perAgent ∧
      Dict.Same ((row.rationale.bind (·.rationalePerContract)).getD ∅) perContract := by
  have hrationale := h.rationale
  generalize row.rationale = rationale at hrationale ⊢
  generalize columns.rationale = text at hrationale ⊢
  cases hrationale with
  | none => exact ⟨[], ∅, ∅, rfl, rfl, rfl, .refl _, .refl _⟩
  | @some rationale text hload =>
    obtain ⟨v, hload, hv⟩ := hload
    obtain ⟨moved, members, rfl, hmoved, hperm⟩ := hv
    have hsame : (Rationale.dump rationale).Same (.object members) :=
      ⟨moved, members, rfl, hmoved, hperm⟩
    obtain ⟨perAgent, hperAgent, hagent⟩ : ∃ d, optional "ProposalArtifact" members
        "rationale_per_agent" asDict ∅ = .ok d ∧ Dict.Same (rationale.rationalePerAgent.getD ∅) d :=
      optional_dict hsame rationale.nodup_keys rationale.member_perAgent
    obtain ⟨perContract, hperContract, hcontract⟩ : ∃ d, optional "ProposalArtifact" members
        "rationale_per_contract" asDict ∅ = .ok d ∧
          Dict.Same (rationale.rationalePerContract.getD ∅) d :=
      optional_dict hsame rationale.nodup_keys rationale.member_perContract
    exact ⟨members, perAgent, perContract, loadRationale_some hload, hperAgent, hperContract,
      hagent, hcontract⟩

/-- Columns that hold a row decode to the artifact of the row. -/
theorem CompositionColumns.Holds.read (h : columns.Holds numbers row) :
    ∃ artifact, columnsToArtifact numbers columns = .ok artifact ∧
      (rowToArtifact row).Same artifact := by
  obtain ⟨members, perAgent, perContract, hrationale, hperAgent, hperContract, hagent, hcontract⟩ :=
    h.rationale_read
  obtain ⟨agentsValue, hagentsLoad, hagentsSame⟩ := h.agentList
  obtain ⟨agentItems, agents, hagentItems, hagents, hagentsForall⟩ := agents_of_same hagentsSame
  obtain ⟨contractsValue, hcontractsLoad, hcontractsSame⟩ := h.contracts
  obtain ⟨contractItems, hcontractItems, hcontracts⟩ := contracts_of_same hcontractsSame
  refine ⟨{ rowToArtifact row with
    agents := agents, rationalePerAgent := perAgent, rationalePerContract := perContract }, ?_,
    rfl, rfl, rfl, rfl, hagentsForall, rfl, hagent, hcontract, rfl, rfl, rfl, rfl⟩
  simp only [columnsToArtifact, hrationale, h.topology, TopologyType.ofValue_value, hagentsLoad,
    bind, Except.bind, hagentItems, hagents, hcontractsLoad, hcontractItems, hcontracts, h.status,
    CompositionStatus.ofValue_value, hperAgent, hperContract, h.id, h.agentType, h.version,
    h.createdAt, h.expertSignature, h.signedAt]
  rfl

end

/-! ## What is written -/

theorem proper_jsonTexts (texts : List String) : (jsonTexts texts : Value ι φ).Proper := by
  show Value.ProperItems (texts.map jsonText)
  induction texts with
  | nil => trivial
  | cons s texts ih => exact ⟨isText_codes s, ih⟩

theorem proper_jsonDict (d : Dict) : (jsonDict d : Value ι φ).Proper := by
  refine ⟨?_, ?_⟩
  · have hkeys : (d.entries.map Sigma.fst).Nodup := d.nodupKeys
    simpa [List.map_map, Function.comp_def] using hkeys.map codes_injective
  · generalize d.entries = entries
    induction entries with
    | nil => trivial
    | cons entry entries ih => exact ⟨isText_codes _, isText_codes _, ih⟩

theorem proper_agentDump (agent : AgentContract) : (agent.modelDump : Value ι φ).Proper := by
  have hkeys : [codes "agent_name", codes "input_schema", codes "output_schema",
      codes "prohibited_fields"].Nodup := by decide
  exact ⟨hkeys, isText_codes _, isText_codes _, isText_codes _, proper_jsonDict _, isText_codes _,
    proper_jsonDict _, isText_codes _, proper_jsonTexts _, trivial⟩

theorem proper_contractDump (contract : HandoffContract) :
    (contract.modelDump : Value ι φ).Proper := by
  have hkeys : [codes "from_agent", codes "to_agent", codes "condition", codes "validates",
      codes "rationale"].Nodup := by decide
  exact ⟨hkeys, isText_codes _, isText_codes _, isText_codes _, isText_codes _, isText_codes _,
    isText_codes _, isText_codes _, proper_jsonTexts _, isText_codes _, isText_codes _, trivial⟩

theorem proper_array {α : Type} {f : α → Value ι φ} (h : ∀ x, (f x).Proper) (xs : List α) :
    (Value.array (xs.map f)).Proper := by
  show Value.ProperItems (xs.map f)
  induction xs with
  | nil => trivial
  | cons x xs ih => exact ⟨h x, ih⟩

theorem proper_rationaleDump (rationale : Rationale) :
    (rationale.dump : Value ι φ).Proper := by
  refine ⟨rationale.nodup_keys, ?_⟩
  obtain ⟨perAgent, perContract, reason⟩ := rationale
  cases perAgent <;> cases perContract <;> cases reason <;>
    simp [Rationale.members, Value.ProperMembers, isText_codes, proper_jsonDict, jsonText,
      Value.Proper]

variable (r : Json.Rendering numbers)

theorem loadsText_dumpsText {v : Value ι φ} (h : v.Proper) :
    loadsText numbers (dumpsText r v) = .ok v := by
  rw [loadsText, dumpsText, String.toList_ofList, Json.loads_dumps r h]

/-- The columns that are written hold the row. -/
theorem CompositionRow.columns_holds (row : CompositionRow) :
    (row.columns r).Holds numbers row where
  id := rfl
  agentType := rfl
  version := rfl
  topology := rfl
  agentList := ⟨_, loadsText_dumpsText r (proper_array proper_agentDump _), .refl _⟩
  contracts := ⟨_, loadsText_dumpsText r (proper_array proper_contractDump _), .refl _⟩
  rationale := by
    show Option.Rel _ row.rationale (row.rationale.map _)
    cases row.rationale with
    | none => exact .none
    | some rationale =>
      exact .some ⟨_, loadsText_dumpsText r (proper_rationaleDump rationale), .refl _⟩
  expertSignature := rfl
  signedAt := rfl
  status := rfl
  createdAt := rfl

/-- The JSON columns of every version hold it, and whatever holds it, in any order of members, is
decoded to its artifact. -/
theorem composition_columns_round_trip (row : CompositionRow) :
    (row.columns r).Holds numbers row ∧
      ∀ columns : CompositionColumns, columns.Holds numbers row →
        ∃ artifact, columnsToArtifact numbers columns = .ok artifact ∧
          (rowToArtifact row).Same artifact :=
  ⟨row.columns_holds r, fun _ h => h.read⟩

end AgentWorx
