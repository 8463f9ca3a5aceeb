import AgentWorx.Apprentice.Replies
import AgentWorx.Verify.Columns
import AgentWorx.Verify.FencedJson
import AgentWorx.Verify.Sample

/-!
# Replies mean what they say

A reply in the format that its prompt asks for is read as exactly the entities, relations,
contracts and rationales that it states, whatever the spacing, the escapes and the order of the
members are, bare or in a fence.
-/

namespace AgentWorx

open Json (Value)
open Coop Coop.Sync

variable {ι φ : Type} {numbers : Json.Numbers ι φ} {c : Conversions ι φ}

/-! ## Presentations -/

/-- The text is JSON for the value. -/
def Presents (numbers : Json.Numbers ι φ) (text : String) (v : Value ι φ) : Prop :=
  ∃ w, Json.loads numbers text.toList = some w ∧ v.Same w

/-- The reply is the text, bare or as a fenced block whose tag is one line; a fenced text has no
line boundaries in its strings. -/
def Delivers (reply text : String) : Prop :=
  Text.strip text = text ∧ (reply = text ∨
    ∃ tag : String, (∀ c ∈ tag.toList, ¬ Text.isLineBreak c) ∧
      ¬ text.toList.any Json.isSeparator ∧ reply = fenced tag text)

theorem Presents.read {text reply : String} {v : Value ι φ} (h : Presents numbers text v)
    (hreply : Delivers reply text) :
    ∃ w, loadsText numbers (stripJsonFence reply) = .ok w ∧ v.Same w := by
  obtain ⟨w, hload, hw⟩ := h
  have hsome : (Json.loads numbers text.toList).isSome := by simp [hload]
  have hread : Json.loads numbers (stripJsonFence reply).toList = some w := by
    obtain ⟨hstrip, rfl | ⟨tag, htag, hseparators, rfl⟩⟩ := hreply
    · rw [stripJsonFence_bare hsome hstrip, hload]
    · rw [(loads_fenced_iff hsome hstrip htag).mpr hseparators, hload]
  exact ⟨w, by rw [loadsText, hread], hw⟩

/-! ## Numbers -/

/-- The JSON number stands for `q`. -/
inductive Conversions.Denotes (c : Conversions ι φ) : Value ι φ → ℚ → Prop
  | int (i : ι) : Denotes c (.int i) (c.ofInt i)
  | float {x : φ} {q : ℚ} (h : c.ofFloat x = some q) : Denotes c (.float x) q

section

variable {v w : Value ι φ} {q : ℚ} {members members' : List (List Nat × Value ι φ)} {key : String}

theorem Conversions.Denotes.same (h : c.Denotes v q) (hw : v.Same w) : w = v := by
  cases h <;> exact hw

theorem Conversions.Denotes.toFloat (h : c.Denotes v q) : c.toFloat v = .ok q := by
  cases h with
  | int => rfl
  | float h => simp [Conversions.toFloat, h]

theorem check_val (model : String) (p : Proportion) : Proportion.check model p.val = .ok p := by
  rw [Proportion.check, dif_pos p.property]
  rfl

theorem Conversions.Denotes.asProportion {p : Proportion} (h : c.Denotes v p.val) (model : String) :
    c.asProportion model v = .ok p := by
  generalize hq : p.val = q at h
  cases h with
  | int i => rw [Conversions.asProportion, ← hq, check_val]
  | float h => simp only [Conversions.asProportion, h, ← hq, check_val]

theorem required_proportion {model : String} {p : Proportion}
    (h : (Value.object members).Same (.object members')) (hkeys : (members.map Prod.fst).Nodup)
    (hv : Json.member members (codes key) = some v) (hp : c.Denotes v p.val) :
    required model members' key c.asProportion = .ok p := by
  have hread : ∃ a, required model members' key c.asProportion = .ok a ∧ a = p :=
    required_same h hkeys hv fun w hw => ⟨p, by rw [hp.same hw, hp.asProportion], rfl⟩
  obtain ⟨a, ha, rfl⟩ := hread
  exact ha

theorem item_same (h : (Value.object members).Same (.object members'))
    (hkeys : (members.map Prod.fst).Nodup) (hv : Json.member members (codes key) = some v) :
    ∃ w, item key (.object members') = .ok w ∧ itemOrEmpty key (.object members') = .ok w ∧
      v.Same w := by
  have hmember : Option.Rel Value.Same (Json.member members (codes key))
      (Json.member members' (codes key)) := h.member hkeys
  rw [hv] at hmember
  simp only [item, itemOrEmpty]
  generalize Json.member members' (codes key) = found at hmember ⊢
  cases hmember with
  | some hw => exact ⟨_, rfl, rfl, hw⟩

/-! ## Extractions -/

theorem entity_same {entity : ExtractedEntity} (hv : c.Denotes v entity.confidence.val)
    (h : (entityJson entity.label entity.entityType v).Same w) :
    ExtractedEntity.modelValidate c w = .ok entity := by
  obtain ⟨moved, members', rfl, hmoved, hperm⟩ := h
  have hsame : (entityJson entity.label entity.entityType v).Same (.object members') :=
    ⟨moved, members', rfl, hmoved, hperm⟩
  have hkeys : [codes "label", codes "entity_type", codes "confidence"].Nodup := by decide
  have hlabel : required "ExtractedEntity" members' "label" asText = .ok entity.label :=
    required_text hsame hkeys rfl
  have htype : required "ExtractedEntity" members' "entity_type" asText = .ok entity.entityType :=
    required_text hsame hkeys rfl
  have hconfidence : required "ExtractedEntity" members' "confidence" c.asProportion =
      .ok entity.confidence := required_proportion hsame hkeys rfl hv
  simp only [ExtractedEntity.modelValidate, hlabel, htype, hconfidence]
  rfl

theorem relation_same {relation : ExtractedRelation} (hv : c.Denotes v relation.confidence.val)
    (h : (relationJson relation.source relation.target relation.relationType v).Same w) :
    ExtractedRelation.modelValidate c w = .ok relation := by
  obtain ⟨moved, members', rfl, hmoved, hperm⟩ := h
  have hsame : (relationJson relation.source relation.target relation.relationType v).Same
      (.object members') := ⟨moved, members', rfl, hmoved, hperm⟩
  have hkeys : [codes "source", codes "target", codes "relation_type",
      codes "confidence"].Nodup := by
    decide
  have hsource : required "ExtractedRelation" members' "source" asText = .ok relation.source :=
    required_text hsame hkeys rfl
  have htarget : required "ExtractedRelation" members' "target" asText = .ok relation.target :=
    required_text hsame hkeys rfl
  have htype : required "ExtractedRelation" members' "relation_type" asText =
      .ok relation.relationType := required_text hsame hkeys rfl
  have hconfidence : required "ExtractedRelation" members' "confidence" c.asProportion =
      .ok relation.confidence := required_proportion hsame hkeys rfl hv
  simp only [ExtractedRelation.modelValidate, hsource, htarget, htype, hconfidence]
  rfl

end

/-- What the reply states: entities and relations, each with the number that its confidence is
written as. -/
structure Statement (c : Conversions ι φ) where
  entities : List (ExtractedEntity × Value ι φ)
  relations : List (ExtractedRelation × Value ι φ)
  overallConfidence : ℚ × Value ι φ
  isAmbiguous : Bool
  entities_denote : ∀ e ∈ entities, c.Denotes e.2 e.1.confidence.val
  relations_denote : ∀ r ∈ relations, c.Denotes r.2 r.1.confidence.val
  overall_denotes : c.Denotes overallConfidence.2 overallConfidence.1

namespace Statement

/-- In the format of `EXTRACTION_PROMPT`. -/
def json (s : Statement c) : Value ι φ :=
  extractionJson (s.entities.map fun e => entityJson e.1.label e.1.entityType e.2)
    (s.relations.map fun r => relationJson r.1.source r.1.target r.1.relationType r.2)
    s.overallConfidence.2 s.isAmbiguous

def extraction (s : Statement c) : Extraction where
  overallConfidence := .ok s.overallConfidence.1
  isAmbiguous := .ok s.isAmbiguous
  entities := .ok (s.entities.map Prod.fst)
  relations := .ok (s.relations.map Prod.fst)

theorem decode_same (s : Statement c) {w : Value ι φ} (h : s.json.Same w) :
    decodeExtraction c w = s.extraction := by
  obtain ⟨moved, members', rfl, hmoved, hperm⟩ := h
  have hsame : s.json.Same (.object members') := ⟨moved, members', rfl, hmoved, hperm⟩
  have hkeys : [codes "entities", codes "relations", codes "overall_confidence",
      codes "is_ambiguous"].Nodup := by decide
  obtain ⟨entities, -, hentities, entityItems, rfl, hentityItems⟩ : ∃ w,
      item "entities" (.object members') = .ok w ∧
        itemOrEmpty "entities" (.object members') = .ok w ∧ _ := item_same hsame hkeys rfl
  obtain ⟨relations, -, hrelations, relationItems, rfl, hrelationItems⟩ : ∃ w,
      item "relations" (.object members') = .ok w ∧
        itemOrEmpty "relations" (.object members') = .ok w ∧ _ := item_same hsame hkeys rfl
  obtain ⟨confidence, hconfidence, -, hconfidenceSame⟩ : ∃ w,
      item "overall_confidence" (.object members') = .ok w ∧
        itemOrEmpty "overall_confidence" (.object members') = .ok w ∧ _ :=
    item_same hsame hkeys rfl
  obtain ⟨ambiguous, hambiguous, -, rfl⟩ : ∃ w,
      item "is_ambiguous" (.object members') = .ok w ∧
        itemOrEmpty "is_ambiguous" (.object members') = .ok w ∧ _ := item_same hsame hkeys rfl
  obtain rfl := s.overall_denotes.same hconfidenceSame
  have hreadEntities : entityItems.mapM (ExtractedEntity.modelValidate c) =
      .ok (s.entities.map Prod.fst) :=
    mapM_same_eq hentityItems fun e he w hw => entity_same (s.entities_denote e he) hw
  have hreadRelations : relationItems.mapM (ExtractedRelation.modelValidate c) =
      .ok (s.relations.map Prod.fst) :=
    mapM_same_eq hrelationItems fun r hr w hw => relation_same (s.relations_denote r hr) hw
  simp only [decodeExtraction, extraction, hentities, hrelations, hconfidence, hambiguous,
    Extraction.mk.injEq]
  exact ⟨s.overall_denotes.toFloat, rfl, hreadEntities, hreadRelations⟩

end Statement

theorem loadExtraction_of_presents {s : Statement c} {text reply : String}
    (htext : Presents numbers text s.json) (hreply : Delivers reply text) :
    loadExtraction c numbers (stripJsonFence reply) = .ok s.extraction := by
  obtain ⟨w, hload, hw⟩ := htext.read hreply
  rw [loadExtraction, hload, ← s.decode_same hw]
  rfl

/-- A reply that states an extraction is extracted as what it states. -/
theorem extract_states {s : Statement c} {w : World} {payload : AnswerProcessorInput}
    {text reply : String} (hload : w.env.loadExtraction = loadExtraction c numbers)
    (hreply : w.env.reply w.tick (.extraction payload) = .ok reply)
    (htext : Presents numbers text s.json) (hdelivers : Delivers reply text) :
    (extract payload).exec w = (.ok s.extraction, w.bump) := by
  have hmessage : (messagesCreate (.extraction payload)).exec w = (.ok reply, w.bump) := by
    show (w.env.reply w.tick (.extraction payload), w.bump) = _
    rw [hreply]
  rw [extract, exec_bind_ok hmessage, exec_get_bind]
  show (w.env.loadExtraction (stripJsonFence reply), w.bump) = _
  rw [hload, loadExtraction_of_presents htext hdelivers]

/-- The value of a decimal fraction. -/
def decimalValue (raw : List Char) : ℚ :=
  let digits := raw.filter Json.isDigit
  let fraction := (raw.dropWhile (· ≠ '.')).tail
  (digits.foldl (fun n c => 10 * n + (c.toNat - 48)) 0 : Nat) / (10 ^ fraction.length : Nat)

namespace Sample

/-- Literals are kept as they are; texts are not converted. -/
def conversions : Conversions (List Char) (List Char) :=
  ⟨decimalValue, fun raw => some (decimalValue raw), fun _ => none, fun _ => none⟩

def ninety : Proportion := ⟨9 / 10, by norm_num⟩

theorem denotes_ninety : conversions.Denotes (.float "0.9".toList) (9 / 10) := by
  refine .float ?_
  have hdigits : ("0.9".toList.filter Json.isDigit) = ['0', '9'] := by decide
  have hfraction : ("0.9".toList.dropWhile (· ≠ '.')).tail = ['9'] := by decide
  have hzero : '0'.toNat - 48 = 0 := rfl
  have hnine : '9'.toNat - 48 = 9 := rfl
  simp only [conversions, decimalValue, hdigits, hfraction, List.foldl, hzero, hnine]
  norm_num

/-- One entity, no relations. -/
def statement : Statement conversions where
  entities := [(⟨"order", "task", ninety⟩, .float "0.9".toList)]
  relations := []
  overallConfidence := (9 / 10, .float "0.9".toList)
  isAmbiguous := false
  entities_denote e he := by
    rw [List.mem_singleton.mp he]
    exact denotes_ninety
  relations_denote e he := by cases he
  overall_denotes := denotes_ninety

/-- The statement with its members the other way round, on several lines. -/
def statementText : String :=
  "\x7b\n\"is_ambiguous\": false,\n\"overall_confidence\": 0.9,\n\"relations\": [],\n" ++
    "\"entities\": [\x7b\"confidence\":0.9, \"entity_type\": \"task\", " ++
    "\"label\": \"\\u006frder\"\x7d]\n\x7d"

set_option maxRecDepth 10000 in
theorem presents_statementText : Presents rawNumbers statementText statement.json := by
  let entity : List (List Nat × Value (List Char) (List Char)) :=
    [(codes "label", jsonText "order"), (codes "entity_type", jsonText "task"),
      (codes "confidence", .float "0.9".toList)]
  let members : List (List Nat × Value (List Char) (List Char)) :=
    [(codes "entities", .array [.object entity.reverse]), (codes "relations", .array []),
      (codes "overall_confidence", .float "0.9".toList), (codes "is_ambiguous", .bool false)]
  have hentity : (Value.object entity).Same (.object entity.reverse) :=
    ⟨entity, entity.reverse, rfl, .refl _, (List.reverse_perm _).symm⟩
  refine ⟨.object members.reverse, rfl, members, members.reverse, rfl, ?_,
    (List.reverse_perm _).symm⟩
  exact ⟨_, _, rfl, ⟨[.object entity.reverse], rfl, ⟨_, _, rfl, hentity, rfl⟩⟩, .refl _⟩

set_option maxRecDepth 10000 in
theorem delivers_fence : Delivers (fenced "json" statementText) statementText :=
  ⟨by decide, .inr ⟨"json", by simp [Text.isLineBreak], by decide, rfl⟩⟩

/-- A process in which every prompt is answered with the statement in a fence. -/
def replying : World :=
  World.initial { env with
    reply := fun _ _ => .ok (fenced "json" statementText)
    loadExtraction := loadExtraction conversions rawNumbers }

end Sample

theorem extract_states_of_fence :
    (extract ⟨"shop", "what is ordered?", "an order",
      ⟨"", "order", .orphan, Sample.certain, 0, 0, .task, le_rfl⟩⟩).exec Sample.replying =
      (.ok Sample.statement.extraction, Sample.replying.bump) :=
  @extract_states _ _ rawNumbers _ _ _ _ _ _ rfl rfl Sample.presents_statementText
    Sample.delivers_fence

/-! ## Proposals -/

/-- The parts of a reply, all of which can be read. -/
structure ProposalReply.States (parsed : ProposalReply) (topology : TopologyType)
    (agents : List AgentContract) (contracts : List HandoffContract)
    (rationalePerAgent rationalePerContract : Dict) : Prop where
  topology : parsed.topology = .ok topology
  agents : ∃ agents', parsed.agents = .ok agents' ∧ List.Forall₂ AgentContract.Same agents agents'
  contracts : parsed.contracts = .ok contracts
  rationalePerAgent : ∃ d, parsed.rationalePerAgent = .ok d ∧ Dict.Same rationalePerAgent d
  rationalePerContract : ∃ d, parsed.rationalePerContract = .ok d ∧ Dict.Same rationalePerContract d

section

variable {topology : TopologyType} {agents : List AgentContract} {contracts : List HandoffContract}
  {rationalePerAgent rationalePerContract : Dict}

theorem asTopology_value (topology : TopologyType) :
    asTopology (jsonText topology.value : Value ι φ) = .ok topology := by
  simp [asTopology, jsonText, TopologyType.ofValue_value]

theorem decodeProposal_same {w : Value ι φ}
    (h : (proposalJson topology agents contracts rationalePerAgent rationalePerContract).Same w) :
    (decodeProposal w).States topology agents contracts rationalePerAgent rationalePerContract := by
  obtain ⟨moved, members', rfl, hmoved, hperm⟩ := h
  have hsame : (proposalJson topology agents contracts rationalePerAgent
      rationalePerContract).Same (.object members') := ⟨moved, members', rfl, hmoved, hperm⟩
  have hkeys : [codes "topology", codes "agents", codes "contracts", codes "rationale_per_agent",
      codes "rationale_per_contract"].Nodup := by decide
  obtain ⟨_, htopology, -, rfl⟩ : ∃ w, item "topology" (.object members') = .ok w ∧
      itemOrEmpty "topology" (.object members') = .ok w ∧ _ := item_same hsame hkeys rfl
  obtain ⟨agentsValue, -, hagents, hagentsSame⟩ : ∃ w, item "agents" (.object members') = .ok w ∧
      itemOrEmpty "agents" (.object members') = .ok w ∧ _ := item_same hsame hkeys rfl
  obtain ⟨contractsValue, -, hcontracts, hcontractsSame⟩ : ∃ w,
      item "contracts" (.object members') = .ok w ∧
        itemOrEmpty "contracts" (.object members') = .ok w ∧ _ := item_same hsame hkeys rfl
  obtain ⟨perAgent, hperAgent, -, hperAgentSame⟩ : ∃ w,
      item "rationale_per_agent" (.object members') = .ok w ∧
        itemOrEmpty "rationale_per_agent" (.object members') = .ok w ∧ _ :=
    item_same hsame hkeys rfl
  obtain ⟨perContract, hperContract, -, hperContractSame⟩ : ∃ w,
      item "rationale_per_contract" (.object members') = .ok w ∧
        itemOrEmpty "rationale_per_contract" (.object members') = .ok w ∧ _ :=
    item_same hsame hkeys rfl
  obtain ⟨agentItems, agents', hagentItems, hreadAgents, hforall⟩ := agents_of_same hagentsSame
  obtain ⟨contractItems, hcontractItems, hreadContracts⟩ := contracts_of_same hcontractsSame
  obtain ⟨d1, hd1, hsame1⟩ : ∃ d, asDict "ProposalArtifact" perAgent = .ok d ∧ _ :=
    asDict_same hperAgentSame
  obtain ⟨d2, hd2, hsame2⟩ : ∃ d, asDict "ProposalArtifact" perContract = .ok d ∧ _ :=
    asDict_same hperContractSame
  refine ⟨?_, ⟨agents', ?_, hforall⟩, ?_, ⟨d1, ?_, hsame1⟩, ⟨d2, ?_, hsame2⟩⟩
  · simp only [decodeProposal, htopology]
    exact @asTopology_value ι φ topology
  · simp only [decodeProposal, hagents, bind, Except.bind, hagentItems, hreadAgents]
  · simp only [decodeProposal, hcontracts, bind, Except.bind, hcontractItems, hreadContracts]
  · simp only [decodeProposal, hperAgent, bind, Except.bind, hd1]
  · simp only [decodeProposal, hperContract, bind, Except.bind, hd2]

/-- A reply that states a team is read as that team. -/
theorem loadProposal_states {text reply : String}
    (htext : Presents numbers text
      (proposalJson topology agents contracts rationalePerAgent rationalePerContract))
    (hreply : Delivers reply text) :
    ∃ parsed, loadProposal numbers (stripJsonFence reply) = .ok parsed ∧
      parsed.States topology agents contracts rationalePerAgent rationalePerContract := by
  obtain ⟨w, hload, hw⟩ := htext.read hreply
  refine ⟨decodeProposal w, ?_, decodeProposal_same hw⟩
  rw [loadProposal, hload]
  rfl

/-- What `_validate_rationale_coverage` asks of a team. -/
def Covers (agents : List AgentContract) (contracts : List HandoffContract)
    (rationalePerAgent rationalePerContract : Dict) : Prop :=
  (∀ agent ∈ agents, agent.agentName ∈ rationalePerAgent) ∧
    ∀ c ∈ contracts, s!"{c.fromAgent}->{c.toAgent}" ∈ rationalePerContract

theorem Dict.Same.mem_iff {d d' : Dict} (h : Dict.Same d d') (key : String) :
    key ∈ d' ↔ key ∈ d := by
  rw [← AList.lookup_isSome, h.lookup, AList.lookup_isSome]

theorem names_of_same {agents' : List AgentContract}
    (h : List.Forall₂ AgentContract.Same agents agents') :
    agents'.map (·.agentName) = agents.map (·.agentName) := by
  induction h with
  | nil => rfl
  | cons hab _ ih => rw [List.map_cons, List.map_cons, hab.agentName, ih]

/-- The check passes a team that is covered and raises a `ValueError` about every other. -/
theorem validateRationaleCoverage_cases (artifact : ProposalArtifact) :
    (¬ Covers artifact.agents artifact.contracts artifact.rationalePerAgent
        artifact.rationalePerContract ∧
      ∃ message, validateRationaleCoverage artifact = .error (.valueError message)) ∨
    (Covers artifact.agents artifact.contracts artifact.rationalePerAgent
        artifact.rationalePerContract ∧ validateRationaleCoverage artifact = .ok ()) := by
  simp only [validateRationaleCoverage]
  split_ifs with h
  · refine .inl ⟨fun hcovers => ?_, _, rfl⟩
    rcases h with h | h
    · exact h (by simpa using hcovers.1)
    · exact h (by simpa using hcovers.2)
  · refine .inr ⟨?_, rfl⟩
    simpa [Covers] using h

theorem covers_same {agents' : List AgentContract} {d1 d2 : Dict}
    (hagents : List.Forall₂ AgentContract.Same agents agents')
    (h1 : Dict.Same rationalePerAgent d1) (h2 : Dict.Same rationalePerContract d2) :
    Covers agents' contracts d1 d2 ↔
      Covers agents contracts rationalePerAgent rationalePerContract := by
  have hnames : (∀ agent ∈ agents', agent.agentName ∈ d1) ↔
      ∀ agent ∈ agents, agent.agentName ∈ rationalePerAgent := by
    have hall : ∀ {xs : List AgentContract} {d : Dict}, (∀ agent ∈ xs, agent.agentName ∈ d) ↔
        ∀ name ∈ xs.map (·.agentName), name ∈ d := by simp
    rw [hall, names_of_same hagents, hall]
    exact forall₂_congr fun name _ => h1.mem_iff name
  rw [Covers, Covers, hnames]
  exact and_congr_right fun _ => forall₂_congr fun c _ => h2.mem_iff _

/-- The parts of an artifact that a reply states. -/
structure ProposalArtifact.States (artifact : ProposalArtifact) (topology : TopologyType)
    (agents : List AgentContract) (contracts : List HandoffContract)
    (rationalePerAgent rationalePerContract : Dict) : Prop where
  topology : artifact.topology = topology
  agents : List.Forall₂ AgentContract.Same agents artifact.agents
  contracts : artifact.contracts = contracts
  rationalePerAgent : Dict.Same rationalePerAgent artifact.rationalePerAgent
  rationalePerContract : Dict.Same rationalePerContract artifact.rationalePerContract

/-- A draft is the team that the reply states, and there is one just when its rationales cover the
team. -/
theorem draftProposal_states {agentType agentGoal taskBoundary text reply : String}
    {declaredTopology : TopologyType} {workflowParticipants : List String}
    {rejectionContext : Option String} {w w1 w2 : World} {clusters : List Cluster}
    {edges : List CrossEdge}
    (hclusters : (findClusters agentType).exec w = (.ok clusters, w1))
    (hedges : (findCrossClusterEdges agentType clusters).exec w1 = (.ok edges, w2))
    (hload : w2.env.loadProposal = loadProposal numbers)
    (hreply : w2.env.reply w2.tick (.proposal agentGoal taskBoundary declaredTopology
      workflowParticipants (clusters.map fun c => (c.id, c.labels))
      (edges.map fun e => (e.sourceLabel, e.relation, e.targetLabel)) rejectionContext) =
        .ok reply)
    (htext : Presents numbers text
      (proposalJson topology agents contracts rationalePerAgent rationalePerContract))
    (hdelivers : Delivers reply text) :
    ∃ w', (¬ Covers agents contracts rationalePerAgent rationalePerContract ∧
        ∃ message, (draftProposal agentType agentGoal taskBoundary declaredTopology
          workflowParticipants rejectionContext).exec w = (.error (.valueError message), w')) ∨
      (Covers agents contracts rationalePerAgent rationalePerContract ∧
        ∃ artifact : ProposalArtifact, artifact.States topology agents contracts rationalePerAgent
          rationalePerContract ∧ artifact.agentTypeId = agentType ∧ artifact.status = .proposed ∧
          (draftProposal agentType agentGoal taskBoundary declaredTopology workflowParticipants
            rejectionContext).exec w = (.ok artifact, w')) := by
  obtain ⟨parsed, hparsed, htopology, ⟨agents', hagents, hforall⟩, hcontracts,
    ⟨d1, hd1, hsame1⟩, d2, hd2, hsame2⟩ := loadProposal_states htext hdelivers
  have hcovers : Covers agents' contracts d1 d2 ↔
      Covers agents contracts rationalePerAgent rationalePerContract :=
    covers_same hforall hsame1 hsame2
  let artifact : ProposalArtifact := {
    id := (w2.env.uuid w2.bump.tick).toText, agentTypeId := agentType, version := 1,
    topology := topology, agents := agents', contracts := contracts, rationalePerAgent := d1,
    rationalePerContract := d2, status := .proposed,
    createdAt := ⟨w2.env.clock w2.bump.bump.tick, some 0⟩, expertSignature := none,
    signedAt := none }
  have hmessage : (messagesCreate (.proposal agentGoal taskBoundary declaredTopology
      workflowParticipants (clusters.map fun c => (c.id, c.labels))
      (edges.map fun e => (e.sourceLabel, e.relation, e.targetLabel)) rejectionContext)).exec w2 =
        (.ok reply, w2.bump) := by
    show (w2.env.reply w2.tick _, w2.bump) = _
    rw [hreply]
  have hdecoded : (liftExcept (w2.bump.env.loadProposal (stripJsonFence reply))).exec w2.bump =
      (.ok parsed, w2.bump) := by
    show (w2.env.loadProposal (stripJsonFence reply), w2.bump) = _
    rw [hload, hparsed]
  have hdraft : (draftProposal agentType agentGoal taskBoundary declaredTopology
      workflowParticipants rejectionContext).exec w =
        (do liftExcept (validateRationaleCoverage artifact); return artifact : Py
          ProposalArtifact).exec w2.bump.bump.bump := by
    rw [draftProposal, exec_bind_ok hclusters, exec_bind_ok hedges, exec_bind_ok hmessage,
      exec_get_bind, exec_bind_ok hdecoded, htopology, hagents, hcontracts, hd1, hd2]
    rfl
  refine ⟨w2.bump.bump.bump, ?_⟩
  rw [hdraft, ← hcovers]
  refine (validateRationaleCoverage_cases artifact).imp ?_ ?_
  · rintro ⟨hcovered, message, hchecked⟩
    refine ⟨hcovered, message, exec_bind_error ?_⟩
    show (validateRationaleCoverage artifact, w2.bump.bump.bump) = _
    rw [hchecked]
  · rintro ⟨hcovered, hchecked⟩
    refine ⟨hcovered, artifact, ⟨rfl, hforall, rfl, hsame1, hsame2⟩, rfl, rfl, ?_⟩
    have hcheck : (liftExcept (validateRationaleCoverage artifact)).exec w2.bump.bump.bump =
        (.ok (), w2.bump.bump.bump) := by
      show (validateRationaleCoverage artifact, w2.bump.bump.bump) = _
      rw [hchecked]
    exact exec_bind_ok hcheck

end

namespace Sample

def cookRationale : Dict := AList.insert "cook" "one is enough" ∅

/-- A team of one, with the topology named last. -/
def proposalText : String :=
  "\x7b\n\"rationale_per_contract\": \x7b\x7d,\n" ++
    "\"rationale_per_agent\": \x7b\"cook\": \"one is enough\"\x7d,\n\"contracts\": [],\n" ++
    "\"agents\": [\x7b\"prohibited_fields\": [], \"output_schema\": \x7b\x7d, " ++
    "\"input_schema\": \x7b\x7d, \"agent_name\": \"cook\"\x7d],\n\"topology\": \"pipeline\"\n\x7d"

set_option maxRecDepth 10000 in
theorem presents_proposalText :
    Presents rawNumbers proposalText (proposalJson .pipeline [cook] [] cookRationale ∅) := by
  let agent : List (List Nat × Value (List Char) (List Char)) :=
    [(codes "agent_name", jsonText "cook"), (codes "input_schema", .object []),
      (codes "output_schema", .object []), (codes "prohibited_fields", .array [])]
  let members (agent : List (List Nat × Value (List Char) (List Char))) :
      List (List Nat × Value (List Char) (List Char)) :=
    [(codes "topology", jsonText "pipeline"), (codes "agents", .array [.object agent]),
      (codes "contracts", .array []), (codes "rationale_per_agent", jsonDict cookRationale),
      (codes "rationale_per_contract", .object [])]
  have hagent : (Value.object agent).Same (.object agent.reverse) :=
    ⟨agent, agent.reverse, rfl, .refl _, (List.reverse_perm _).symm⟩
  refine ⟨.object (members agent.reverse).reverse, rfl, members agent.reverse,
    (members agent.reverse).reverse, rfl, ?_, (List.reverse_perm _).symm⟩
  exact ⟨_, _, rfl, .refl _, ⟨_, _, rfl, ⟨[.object agent.reverse], rfl, ⟨_, _, rfl, hagent, rfl⟩⟩,
    .refl _⟩⟩

set_option maxRecDepth 10000 in
theorem delivers_proposalText : Delivers proposalText proposalText :=
  ⟨by decide, .inl rfl⟩

/-- The process with a team, in which every prompt is answered with the proposal. -/
def proposing : World :=
  { withTeam .proposed with
    env := { env with
      reply := fun _ _ => .ok proposalText
      loadProposal := loadProposal rawNumbers } }

theorem covers_cook : Covers [cook] [] cookRationale ∅ := by
  refine ⟨fun agent hagent => ?_, by simp⟩
  rw [List.mem_singleton.mp hagent]
  exact AList.mem_insert _ |>.mpr (.inl rfl)

end Sample

theorem draftProposal_states_of_text :
    ∃ artifact w', artifact.States .pipeline [Sample.cook] [] Sample.cookRationale ∅ ∧
      (draftProposal "shop" "take orders" "orders only" .pipeline [] none).exec
        Sample.proposing = (.ok artifact, w') := by
  obtain ⟨w', ⟨hcovers, -⟩ | ⟨-, artifact, hstates, -, -, hdraft⟩⟩ :=
    @draftProposal_states _ _ rawNumbers _ _ _ _ _ "shop" "take orders" "orders only" _ _
      .pipeline [] none Sample.proposing _ _ [] [] rfl rfl rfl rfl Sample.presents_proposalText
      Sample.delivers_proposalText
  · exact absurd Sample.covers_cook hcovers
  · exact ⟨artifact, w', hstates, hdraft⟩

end AgentWorx
