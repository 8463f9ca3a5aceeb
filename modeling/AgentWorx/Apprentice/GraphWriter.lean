import AgentWorx.Core.AgentTypeService

/-!
# The graph writer

`apprentice/graph_writer.py`: find-or-create for the concepts of an answer, and an upsert for its
relations that keeps the higher confidence and counts the version up.
-/

namespace AgentWorx

open Coop

def directHighConfidence : ℚ := 9 / 10
def directModerateConfidence : ℚ := 8 / 10
def followupConfidence : ℚ := 8 / 10
def inferredConfidence : ℚ := 6 / 10

/-- The dict `write_to_graph` returns. -/
structure WriteSummary where
  nodesCreated : Nat
  nodesMatched : Nat
  edgesCreated : Nat
  edgesUpdated : Nat
  deriving DecidableEq

/-! ## Statements -/

/-- `MATCH (c:Concept) WHERE c.label = $label RETURN c.id, c.confidence` -/
def matchConceptByLabel (label : String) : Cypher (List (String × ℚ)) :=
  .query ["label"] [.concept] fun g =>
    (g.concepts.filter (·.label = label)).map fun c => (c.id, c.confidence)

/-- `MATCH (c:Concept) WHERE c.id = $id SET c.confidence = $confidence` -/
def setConceptConfidence (id : String) (confidence : ℚ) : Cypher Unit :=
  .update ["id", "confidence"] [.concept] fun g =>
    { g with concepts := g.concepts.map fun c => if c.id = id then { c with confidence } else c }

/-- `CREATE (:Concept {…, confidence: $confidence, …})` -/
def createConceptWithConfidence (concept : Concept) : Cypher Unit :=
  { createConcept concept with mentions := ["id", "label", "confidence", "created_at"] }

/-- `MATCH … WHERE a.id = $source_id AND b.id = $target_id AND r.relation = $relation_type
RETURN r.confidence, r.version` -/
def matchRelation (sourceId targetId relationType : String) : Cypher (List (ℚ × Int)) :=
  .query ["source_id", "target_id", "relation_type"] [.concept, .relatesTo] fun g =>
    (g.relatesToRows.filter fun (a, r, b) =>
      a.id = sourceId ∧ b.id = targetId ∧ r.relation = relationType).map fun (_, r, _) =>
        (r.confidence, r.version)

/-- The same match with `SET r.confidence = $confidence, r.version = $version` -/
def setRelation (sourceId targetId relationType : String) (confidence : ℚ) (version : Int) :
    Cypher Unit :=
  .update ["source_id", "target_id", "relation_type", "confidence", "version"]
    [.concept, .relatesTo] fun g =>
      { g with relatesTo := g.relatesTo.map fun r =>
          if r.source = sourceId ∧ r.target = targetId ∧ r.relation = relationType then
            { r with confidence, version }
          else r }

/-- `MATCH (a:Concept), (b:Concept) WHERE a.id = $source_id AND b.id = $target_id
CREATE (a)-[:RELATES_TO {…, version: 1}]->(b)` -/
def createRelation (sourceId targetId relationType : String) (confidence : ℚ) : Cypher Unit :=
  .update ["source_id", "target_id", "relation_type", "confidence"] [.concept, .relatesTo] fun g =>
    { g with relatesTo := g.relatesTo ++
        ((g.concepts.filter (·.id = sourceId)).flatMap fun a =>
          (g.concepts.filter (·.id = targetId)).map fun b =>
            ⟨a.id, b.id, relationType, confidence, 1⟩) }

/-! ## The writer -/

def findOrCreateConcept (agentType : String) (entity : ExtractedEntity) (now : Datetime)
    (summary : WriteSummary) : Py (String × WriteSummary) := do
  let rows ← execute agentType (matchConceptByLabel entity.label) ["label"]
  match rows.head? with
  | some (conceptId, currentConfidence) =>
    if currentConfidence < entity.confidence.val then
      execute agentType (setConceptConfidence conceptId entity.confidence.val)
        ["id", "confidence"]
    return (conceptId, { summary with nodesMatched := summary.nodesMatched + 1 })
  | none =>
    let u ← uuid4
    let conceptId := s!"concept-{u.hexPrefix 12}"
    execute agentType
      (createConceptWithConfidence ⟨conceptId, entity.label, "task", entity.confidence.val, now⟩)
      ["id", "label", "confidence", "created_at"]
    return (conceptId, { summary with nodesCreated := summary.nodesCreated + 1 })

/-- `_assign_confidence` -/
def assignConfidence (relation : ExtractedRelation) (isFollowup : Bool) : ℚ :=
  if isFollowup then followupConfidence
  else if 85 / 100 ≤ relation.confidence.val then directHighConfidence
  else if 1 / 2 ≤ relation.confidence.val then directModerateConfidence
  else inferredConfidence

/-- `_resolve_concept_id` -/
def resolveConceptId (agentType label : String) : Py (Option String) := do
  let rows ← execute agentType (matchConceptByLabel label) ["label"]
  return rows.head?.map (·.1)

/-- `label_to_id.get(label) or _resolve_concept_id(agent_type, label)`: an empty id counts as
absent. -/
def lookupConceptId (agentType : String) (labelToId : Dict) (label : String) :
    Py (Option String) :=
  match labelToId.lookup label with
  | some id => if id = "" then resolveConceptId agentType label else return some id
  | none => resolveConceptId agentType label

def upsertRelation (agentType : String) (relation : ExtractedRelation) (confidence : ℚ)
    (labelToId : Dict) (summary : WriteSummary) : Py WriteSummary := do
  let sourceId ← lookupConceptId agentType labelToId relation.source
  let targetId ← lookupConceptId agentType labelToId relation.target
  match sourceId, targetId with
  | some sourceId, some targetId =>
    let rows ← execute agentType (matchRelation sourceId targetId relation.relationType)
      ["source_id", "target_id", "relation_type"]
    match rows.head? with
    | some (oldConfidence, oldVersion) =>
      execute agentType
        (setRelation sourceId targetId relation.relationType (max oldConfidence confidence)
          (oldVersion + 1))
        ["source_id", "target_id", "relation_type", "confidence", "version"]
      return { summary with edgesUpdated := summary.edgesUpdated + 1 }
    | none =>
      execute agentType (createRelation sourceId targetId relation.relationType confidence)
        ["source_id", "target_id", "relation_type", "confidence"]
      return { summary with edgesCreated := summary.edgesCreated + 1 }
  | _, _ => return summary

/-- The entity loop, with the label-to-id cache it fills. -/
def writeEntities (agentType : String) (now : Datetime) :
    List ExtractedEntity → Dict × WriteSummary → Py (Dict × WriteSummary)
  | [], acc => return acc
  | entity :: entities, (labelToId, summary) => do
    let (conceptId, summary) ← findOrCreateConcept agentType entity now summary
    writeEntities agentType now entities (labelToId.insert entity.label conceptId, summary)

/-- The relation loop. -/
def writeRelations (agentType : String) (isFollowup : Bool) (labelToId : Dict) :
    List ExtractedRelation → WriteSummary → Py WriteSummary
  | [], summary => return summary
  | relation :: relations, summary => do
    let summary ← upsertRelation agentType relation (assignConfidence relation isFollowup)
      labelToId summary
    writeRelations agentType isFollowup labelToId relations summary

def AnswerStatus.value : AnswerStatus → String
  | .write => "write"
  | .conflict => "conflict"
  | .followUp => "follow_up"

def writeToGraph (agentType : String) (result : AnswerProcessorResult) (isFollowup : Bool) :
    Py WriteSummary :=
  if result.status ≠ .write then
    throw (.valueError
      s!"write_to_graph called with status='{result.status.value}', expected 'write'")
  else do
    let now ← datetimeNow
    let (labelToId, summary) ← writeEntities agentType now result.entities (∅, ⟨0, 0, 0, 0⟩)
    writeRelations agentType isFollowup labelToId result.relations summary

end AgentWorx
