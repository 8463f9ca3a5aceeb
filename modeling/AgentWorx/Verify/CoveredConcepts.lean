import AgentWorx.Lib.Replacing
import AgentWorx.Lib.Trimming
import AgentWorx.Verify.KnownConcepts

/-!
# Known concepts in a question

Known labels are replaced by a phrase one after another, each in the text that the ones before have
left. A label is in the question that comes out just if the phrase brings it about, at its own turn
or later, and no replacement after that takes a character of it; any other text may also have been
in the reply, where no replacement has taken a character of it.
-/

namespace AgentWorx

open Coop Coop.Sync Text

variable {fold : Char → Char} {question : String} {labels : List String} {label : String}

/-! ## Removed labels -/

/-- `the already covered concept` -/
def coveredPhrase : List Char := "the already covered concept".toList

theorem coveredPhrase_solid : Solid coveredPhrase := ⟨by decide, by decide, by decide⟩

/-- No label occurs in the text, whatever its case. -/
def FreeOf (fold : Char → Char) (labels : List String) (text : String) : Prop :=
  ∀ label ∈ labels, ¬ Occurs fold label.toList text.toList

instance (fold : Char → Char) (labels : List String) (text : String) :
    Decidable (FreeOf fold labels text) :=
  inferInstanceAs (Decidable (∀ label ∈ labels, _))

/-- From its own turn on, no label is brought about for good by a phrase that is put in: a match
taken for a label that comes later has a character of it, or it is trimmed. -/
def LabelsKeptOut (fold : Char → Char) (question : String) (labels : List String) : Prop :=
  KeptOut fold coveredPhrase (labels.map String.toList) question.toList

instance (fold : Char → Char) (question : String) (labels : List String) :
    Decidable (LabelsKeptOut fold question labels) :=
  inferInstanceAs (Decidable (KeptOut _ _ _ _))

theorem forall_toList_ne_nil (hlabels : ∀ label ∈ labels, label ≠ "") :
    ∀ pattern ∈ labels.map String.toList, pattern ≠ [] := by
  intro pattern hpattern
  obtain ⟨label, hlabel, rfl⟩ := List.mem_map.mp hpattern
  exact fun hnil => hlabels label hlabel (String.toList_eq_nil_iff.mp hnil)

/-- The question on characters. -/
theorem toList_removeKnownConceptMentions (hlabels : ∀ label ∈ labels, label ≠ "") :
    (removeKnownConceptMentions fold question labels).toList =
      trim (replaceAll fold coveredPhrase (labels.map String.toList) question.toList) := by
  have hfold : (labels.foldl (fun cleaned concept =>
        subIgnoreCase fold concept "the already covered concept" cleaned) question).toList =
      replaceAll fold coveredPhrase (labels.map String.toList) question.toList := by
    induction labels generalizing question with
    | nil => rfl
    | cons label labels ih =>
      have hlabel : label.toList ≠ [] := forall_toList_ne_nil hlabels _ (by simp)
      rw [List.foldl_cons, ih fun l hl => hlabels l (List.mem_cons_of_mem _ hl), subIgnoreCase,
        if_neg hlabel, String.toList_ofList]
      rfl
  rw [removeKnownConceptMentions, strip, String.toList_ofList, ← hfold]
  rfl

theorem freeOf_iff_keptOut (hlabels : ∀ label ∈ labels, label ≠ "") :
    FreeOf fold labels (removeKnownConceptMentions fold question labels) ↔
      LabelsKeptOut fold question labels := by
  rw [LabelsKeptOut, ← not_occurs_replaceAll_iff (forall_toList_ne_nil hlabels)
    coveredPhrase_solid.ne_nil, FreeOf, toList_removeKnownConceptMentions hlabels,
    List.forall_mem_map]

/-- A question without known labels is only trimmed. -/
theorem FreeOf.removed (hlabels : ∀ label ∈ labels, label ≠ "") (h : FreeOf fold labels question) :
    FreeOf fold labels (removeKnownConceptMentions fold question labels) := by
  have hno : ∀ pattern ∈ labels.map String.toList, ¬ Occurs fold pattern question.toList :=
    List.forall_mem_map.mpr h
  intro label hlabel hoccurs
  rw [toList_removeKnownConceptMentions hlabels,
    replaceAll_of_not_occurs (forall_toList_ne_nil hlabels) hno] at hoccurs
  exact h label hlabel (hoccurs.mono ⟨_, _, (trim_split question.toList).symm⟩)

/-- Where a label lies in the phrase itself, a question in which any label occurs keeps that label.
-/
theorem freeOf_of_label_in_phrase (hlabels : ∀ label ∈ labels, label ≠ "") (hlabel : label ∈ labels)
    (hphrase : Occurs fold label.toList coveredPhrase)
    (h : FreeOf fold labels (removeKnownConceptMentions fold question labels)) :
    FreeOf fold labels question := by
  rcases replaceAll_cases fold coveredPhrase question.toList (forall_toList_ne_nil hlabels) with
    ⟨-, hnone⟩ | hput
  · exact fun label hlabel => hnone _ (List.mem_map_of_mem hlabel)
  · refine absurd (hphrase.mono ?_) (h label hlabel)
    rw [toList_removeKnownConceptMentions hlabels]
    exact coveredPhrase_solid.infix_trim hput

/-- The target's label occurs in the question where no replacement takes a character of it, or a
phrase put in brings it about and no replacement after that takes a character of it; nor is it
trimmed. -/
def KeepsTarget (fold : Char → Char) (target question : String) (labels : List String) : Prop :=
  OccursWhere id target.toList question.toList
      (Lasts fold coveredPhrase (labels.map String.toList)) ∨
    Arises fold id coveredPhrase target.toList (labels.map String.toList) question.toList

instance (fold : Char → Char) (target question : String) (labels : List String) :
    Decidable (KeepsTarget fold target question labels) :=
  inferInstanceAs (Decidable (_ ∨ _))

theorem infix_removeKnownConceptMentions (target : String)
    (hlabels : ∀ label ∈ labels, label ≠ "") :
    target.toList <:+: (removeKnownConceptMentions fold question labels).toList ↔
      KeepsTarget fold target question labels := by
  have hid (text : List Char) : target.toList <:+: text ↔ Occurs id target.toList text := by
    rw [Occurs, List.map_id, List.map_id]
  rw [hid, toList_removeKnownConceptMentions hlabels]
  exact occurs_replaceAll_iff (forall_toList_ne_nil hlabels) coveredPhrase_solid.ne_nil _ _ _

/-- The known concepts of a graph, apart from the one excluded. -/
def Graph.knownConcepts (g : Graph) (excludeId : String) : List String :=
  collectKnownConcepts excludeId knownConceptLimit (g.strongRows highConfidenceThreshold) []

theorem Graph.knownConcepts_ne_empty (g : Graph) (excludeId : String) :
    ∀ label ∈ g.knownConcepts excludeId, label ≠ "" := by
  obtain ⟨n, hcollected, -, -⟩ := collectKnownConcepts_nil_collects excludeId knownConceptLimit
    (g.strongRows highConfidenceThreshold)
  intro label hlabel
  have hmem : label ∈ distinctLabels excludeId (g.strongRows highConfidenceThreshold) := by
    rw [← List.take_append_drop n (g.strongRows _), distinctLabels_append, ← hcollected.labels,
      Finset.mem_union, List.mem_toFinset]
    exact .inl hlabel
  exact (Graph.mem_distinctLabels.mp hmem).1

/-- How a question comes about: the first gap is its target, and it is the reply to the prompt about
the target and the known concepts, without mentions of these. -/
structure Asked (w : World) (agentType agentGoal taskBoundary : String) (reply : String)
    (result : QuestionGeneratorResult) : Prop where
  target : ∃ gaps w1, (detectGaps agentType).exec w = (.ok gaps, w1) ∧
    gaps.gaps.head? = some result.targetingGap
  replied : ∃ n, w.env.reply n (.question agentGoal taskBoundary result.targetingGap
    ((w.graphs agentType).knownConcepts result.targetingGap.conceptId)) = .ok reply
  question : result.question = removeKnownConceptMentions w.env.foldCase (strip reply)
    ((w.graphs agentType).knownConcepts result.targetingGap.conceptId)

theorem getHighConfidenceConcepts_knows {w w1 : World} (hw1 : Idle w w1) (agentType : String)
    (excludeId : String) :
    Triple (getHighConfidenceConcepts agentType excludeId highConfidenceThreshold
        knownConceptLimit) w1
      (fun known w' => known = (w.graphs agentType).knownConcepts excludeId ∧ Idle w w')
      fun _ _ => True := by
  refine .bind ((read_ends hw1 (by simp)).mono (fun _ _ h => h) fun _ _ _ => trivial)
    fun rows w' ⟨hrows, hw'⟩ => .pure ⟨?_, hw'⟩
  rw [hrows]
  rfl

theorem extractText_replies {w w1 : World} (hw1 : Idle w w1) (prompt : Prompt) :
    Triple (extractText prompt) w1
      (fun text w' => ∃ n reply, w.env.reply n prompt = .ok reply ∧ text = strip reply ∧ Idle w w')
      fun _ _ => True := by
  have hreply : Triple (messagesCreate prompt) w1
      (fun reply w' => w1.env.reply w1.tick prompt = .ok reply ∧ Idle w w') fun _ _ => True := by
    refine (Triple.self (messagesCreate prompt) w1).mono ?_ fun _ _ _ => trivial
    intro reply w' hx
    have hstate : w1.bump = w' := congrArg Prod.snd hx
    exact ⟨congrArg Prod.fst hx, hstate ▸ hw1.trans (Ticks.tick w1)⟩
  refine .bind hreply fun reply w' ⟨hreply, hw'⟩ => .pure ⟨w1.tick, reply, ?_, rfl, hw'⟩
  rwa [← hw1.env]

theorem generateQuestion_asks (w : World) (agentType agentGoal taskBoundary : String) :
    Triple (generateQuestion agentType agentGoal taskBoundary) w
      (fun result _ => ∃ reply, Asked w agentType agentGoal taskBoundary reply result)
      fun _ _ => True := by
  have hdetect := (Triple.self (detectGaps agentType) w).and
    (Triple.of_keeps (R := Idle) (keeps_detectGaps agentType) w)
  refine .bind (hdetect.mono (fun _ _ h => h) fun _ _ _ => trivial) fun gaps w1 ⟨hgaps, hw1⟩ => ?_
  cases hhead : gaps.gaps with
  | nil => exact .throw trivial
  | cons topGap rest =>
    refine .bind (getHighConfidenceConcepts_knows hw1 agentType topGap.conceptId)
      fun known w2 ⟨hknown, hw2⟩ => .bind (extractText_replies hw2 _) ?_
    rintro _ w3 ⟨n, reply, hreply, rfl, hw3⟩
    subst hknown
    refine .bind (.get (Q := fun w' _ => Idle w w') hw3) fun w4 _ hw4 => .pure ⟨reply, ?_⟩
    exact ⟨⟨gaps, w1, hgaps, by rw [hhead]; rfl⟩, ⟨n, hreply⟩,
      hw4.env ▸ rfl⟩

/-- Three concepts that lead to each other, and one apart from them. -/
def orderConcepts (apart : String) : Graph where
  tables := [.concept, .constraint, .relatesTo, .hasConstraint, .agentRole, .handsOffTo, .hasRole]
  concepts := [⟨"c1", "order", "task", 1, ⟨0, none⟩⟩, ⟨"c2", "kitchen", "task", 1, ⟨0, none⟩⟩,
    ⟨"c3", "table", "task", 1, ⟨0, none⟩⟩, ⟨"c4", apart, "task", 1, ⟨0, none⟩⟩]
  relatesTo := [⟨"c1", "c2", "goes_to", 9 / 10, 1⟩, ⟨"c1", "c3", "comes_from", 9 / 10, 1⟩,
    ⟨"c2", "c1", "makes", 9 / 10, 1⟩, ⟨"c2", "c3", "serves", 9 / 10, 1⟩,
    ⟨"c3", "c1", "places", 9 / 10, 1⟩, ⟨"c3", "c2", "waits_for", 9 / 10, 1⟩]
  roles := []
  handsOffTo := []

/-- The process with that graph, and a model that always replies the same. -/
def withOrderConcepts (apart reply : String) : World :=
  { World.initial { Sample.env with reply := fun _ _ => .ok reply } with
    graphs := fun _ => orderConcepts apart }

end AgentWorx
