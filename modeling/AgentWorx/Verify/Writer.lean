import AgentWorx.Lib.Upsert
import AgentWorx.Verify.Statements

/-!
# The two upserts of the writer

What `findOrCreateConcept` and `upsertRelation` can do to a graph, whatever the graph looks like:
one case for each way of ending. What the writer keeps is then a case analysis over these.
-/

namespace AgentWorx

open Coop Coop.Sync

variable {w : World} {name : String} {g : Graph}

/-! ## Statements that end -/

theorem Idle.graphs {w w' : World} (h : Idle w w') : w'.graphs = w.graphs := by
  rw [h]

theorem Idle.env {w w' : World} (h : Idle w w') : w'.env = w.env := by
  rw [h]

theorem Idle.trans {w w' w'' : World} (h : Idle w w') (h' : Idle w' w'') : Idle w w'' :=
  trans_of Idle h h'

/-- A statement raises and leaves the graph, or has the effect of its `eval`. On a ready graph it is
`eval` that raises. -/
theorem execute_ends {α : Type} {stmt : Cypher α} {params : List String}
    (hparams : ∀ p ∈ params, p ∈ stmt.mentions) :
    Triple (execute name stmt params) w
      (fun a w' => ∃ g w1, Idle w w1 ∧ stmt.eval (w.graphs name) = .ok (a, g) ∧
        w' = w1.setGraph name g)
      fun e w' => Idle w w' ∧
        (GraphReady w name → stmt.eval (w.graphs name) = .error e ∧ w' = w.bump) := by
  by_cases hready : GraphReady w name
  · rw [Triple, execute_ready stmt params hready hparams]
    cases heval : stmt.eval (w.graphs name) with
    | error e => exact ⟨Ticks.tick w, fun _ => ⟨rfl, rfl⟩⟩
    | ok r => exact ⟨r.2, w.bump, Ticks.tick w, rfl, rfl⟩
  · exact execute_rule (fun _ => ⟨refl_of Idle w, fun h => absurd h hready⟩)
      (fun _ => ⟨Ticks.tick w, fun h => absurd h hready⟩)
      fun a g hg => ⟨g, w.bump, Ticks.tick w, hg, rfl⟩

/-- A read from a world that has only aged raises only if the graph was not ready. -/
theorem read_ends {α : Type} {mentions : List String} {tables : List GraphTable} {f : Graph → α}
    {params : List String} {w1 : World} (hw1 : Idle w w1) (hparams : ∀ p ∈ params, p ∈ mentions) :
    Triple (execute name (.query mentions tables f) params) w1
      (fun a w' => a = f (w.graphs name) ∧ Idle w w')
      fun _ w' => Idle w w' ∧ ¬ GraphReady w name := by
  refine (execute_ends hparams).mono ?_ ?_
  · rintro a w' ⟨g, w2, hw2, hg, rfl⟩
    cases hg
    rw [← hw2.graphs, World.setGraph_self, hw2.graphs, hw1.graphs]
    exact ⟨rfl, hw1.trans hw2⟩
  · rintro e w' ⟨hidle, h⟩
    exact ⟨hw1.trans hidle, fun hready => by cases (h (hw1.graphReady hready)).1⟩

/-! ## Concepts -/

/-- The first concept with the label: the writer takes its id for the label. -/
def Graph.labelled? (g : Graph) (label : String) : Option Concept :=
  Keyed.lookup (·.label) label g.concepts

def Graph.idOf (g : Graph) (label : String) : Option String := (g.labelled? label).map (·.id)

/-- The first row of the match on a label is that of its concept. -/
theorem head_matchConceptByLabel (g : Graph) (label : String) :
    ((g.concepts.filter (·.label = label)).map fun c => (c.id, c.confidence)).head? =
      (g.labelled? label).map fun c => (c.id, c.confidence) := by
  rw [List.head?_map, List.head?_filter]
  rfl

/-- A concept of the graph has the id that has just been drawn for the statement that has failed. -/
def IdTaken (name : String) (w : World) : Prop :=
  ∃ n, w.tick = n + 2 ∧
    s!"concept-{(w.env.uuid n).hexPrefix 12}" ∈ (w.graphs name).concepts.map (·.id)

/-- `find_or_create_concept` raises and leaves the graph, finds a concept and raises its confidence
if it is lower, or makes one with a new id. -/
theorem findOrCreateConcept_rule {entity : ExtractedEntity} {now : Datetime}
    {summary : WriteSummary} {Q : String × WriteSummary → World → Prop} {E : Exn → World → Prop}
    (hg : w.graphs name = g)
    (hraise : ∀ e w1, Idle w w1 →
      (GraphReady w name →
        e = .kuzuError "Found duplicated primary key value." ∧ IdTaken name w1) → E e w1)
    (hkeep : ∀ c w1, Idle w w1 → g.labelled? entity.label = some c →
      entity.confidence.val ≤ c.confidence →
      Q (c.id, { summary with nodesMatched := summary.nodesMatched + 1 }) w1)
    (hset : ∀ c w1, Idle w w1 → g.labelled? entity.label = some c →
      c.confidence < entity.confidence.val →
      Q (c.id, { summary with nodesMatched := summary.nodesMatched + 1 })
        (w1.setGraph name { g with
          concepts := g.concepts.map fun c' =>
            if c'.id = c.id then { c' with confidence := entity.confidence.val } else c' }))
    (hcreate : ∀ (u : UUID) w1, Idle w w1 → g.labelled? entity.label = none →
      s!"concept-{u.hexPrefix 12}" ∉ g.concepts.map (·.id) →
      Q (s!"concept-{u.hexPrefix 12}", { summary with nodesCreated := summary.nodesCreated + 1 })
        (w1.setGraph name { g with
          concepts := g.concepts ++
            [⟨s!"concept-{u.hexPrefix 12}", entity.label, "task", entity.confidence.val, now⟩] })) :
    Triple (findOrCreateConcept name entity now summary) w Q E := by
  subst hg
  refine .bind ((read_ends (refl_of Idle w) (by simp)).mono (fun _ _ h => h) fun e w1 h =>
    hraise e w1 h.1 fun hready => absurd hready h.2) fun rows w1 ⟨hrows, hw1⟩ => ?_
  have hhead := head_matchConceptByLabel (w.graphs name) entity.label
  rw [← hrows] at hhead
  rw [hhead]
  cases hfound : (w.graphs name).labelled? entity.label with
  | some c =>
    dsimp only [Option.map_some]
    split_ifs with hlow
    · refine .bind ((execute_ends (by simp [setConceptConfidence, Cypher.update])).mono
        (fun _ _ h => h) fun e w2 h => ?_) ?_
      · exact hraise e w2 (hw1.trans h.1) fun hready => by cases (h.2 (hw1.graphReady hready)).1
      · rintro _ _ ⟨g, w2, hw2, hg, rfl⟩
        cases hg
        rw [hw1.graphs]
        exact .pure (hset c w2 (hw1.trans hw2) hfound hlow)
    · exact .pure (hkeep c w1 hw1 hfound (not_lt.mp hlow))
  | none =>
    refine .bind (uuid4_triple (Q := fun u w2 => Idle w w2 ∧
      ∃ n, w2.tick = n + 1 ∧ u = w2.env.uuid n) ⟨hw1.trans (Ticks.tick w1), w1.tick, rfl, rfl⟩) ?_
    rintro u w2 ⟨hw2, n, htick, hu⟩
    refine .bind ((execute_ends (by simp [createConceptWithConfidence])).mono (fun _ _ h => h)
      fun e w3 h => ?_) ?_
    · refine hraise e w3 (hw2.trans h.1) fun hready => ?_
      obtain ⟨heval, rfl⟩ := h.2 (hw2.graphReady hready)
      simp only [createConceptWithConfidence, createConcept] at heval
      split_ifs at heval with htaken
      subst hu
      exact ⟨(Except.error.inj heval).symm, n, congrArg (· + 1) htick, Keyed.any_iff.mp htaken⟩
    · rintro _ _ ⟨g, w3, hw3, hg, rfl⟩
      simp only [createConceptWithConfidence, createConcept] at hg
      split_ifs at hg with htaken
      cases hg
      rw [hw2.graphs] at htaken ⊢
      exact .pure (hcreate u w3 (hw2.trans hw3) hfound (Keyed.any_iff.not.mp htaken))

/-! ## Relations -/

/-- What `label_to_id.get(label) or _resolve_concept_id(agent_type, label)` finds. -/
def Graph.lookupId (g : Graph) (labelToId : Dict) (label : String) : Option String :=
  match labelToId.lookup label with
  | some id => if id = "" then g.idOf label else some id
  | none => g.idOf label

/-- An id is in the cache, or it is that of the concept with the label. -/
theorem Graph.lookupId_eq_some {labelToId : Dict} {label id : String}
    (h : g.lookupId labelToId label = some id) :
    labelToId.lookup label = some id ∨ ∃ c, g.labelled? label = some c ∧ c.id = id := by
  rw [lookupId] at h
  cases hcached : labelToId.lookup label with
  | none =>
    rw [hcached] at h
    exact .inr (Option.map_eq_some_iff.mp h)
  | some id' =>
    rw [hcached] at h
    dsimp only at h
    split_ifs at h
    · exact .inr (Option.map_eq_some_iff.mp h)
    · exact .inl h

theorem lookupConceptId_ends {labelToId : Dict} {label : String} {w1 : World} (hw1 : Idle w w1) :
    Triple (lookupConceptId name labelToId label) w1
      (fun r w' => r = (w.graphs name).lookupId labelToId label ∧ Idle w w')
      fun _ w' => Idle w w' ∧ ¬ GraphReady w name := by
  have hresolve : Triple (resolveConceptId name label) w1
      (fun r w' => r = (w.graphs name).idOf label ∧ Idle w w')
      fun _ w' => Idle w w' ∧ ¬ GraphReady w name := by
    refine .bind (read_ends hw1 (by simp)) fun rows w2 ⟨hrows, hw2⟩ => .pure ⟨?_, hw2⟩
    rw [hrows, head_matchConceptByLabel, Option.map_map]
    rfl
  unfold lookupConceptId Graph.lookupId
  cases labelToId.lookup label with
  | none => exact hresolve
  | some id =>
    dsimp only
    split_ifs
    · exact hresolve
    · exact .pure ⟨rfl, hw1⟩

/-- The confidences and versions of the edges that the match on a relation returns. -/
def Graph.relations (g : Graph) (sourceId targetId relationType : String) : List (ℚ × Int) :=
  (g.relatesToRows.filter fun (a, r, b) =>
    a.id = sourceId ∧ b.id = targetId ∧ r.relation = relationType).map fun (_, r, _) =>
      (r.confidence, r.version)

/-- `upsert_relation` raises and leaves the graph, does nothing because an end is not found, sets
the edges of the relation from the first of them, or makes edges. -/
theorem upsertRelation_rule {relation : ExtractedRelation} {confidence : ℚ} {labelToId : Dict}
    {summary : WriteSummary} {Q : WriteSummary → World → Prop} {E : Exn → World → Prop}
    (hg : w.graphs name = g)
    (hraise : ∀ e w1, Idle w w1 → ¬ GraphReady w name → E e w1)
    (hskip : ∀ w1, Idle w w1 → g.lookupId labelToId relation.source = none ∨
      g.lookupId labelToId relation.target = none → Q summary w1)
    (hupdate : ∀ sourceId targetId old w1, Idle w w1 →
      g.lookupId labelToId relation.source = some sourceId →
      g.lookupId labelToId relation.target = some targetId →
      (g.relations sourceId targetId relation.relationType).head? = some old →
      Q { summary with edgesUpdated := summary.edgesUpdated + 1 }
        (w1.setGraph name { g with
          relatesTo := g.relatesTo.map fun r =>
            if r.source = sourceId ∧ r.target = targetId ∧ r.relation = relation.relationType then
              { r with confidence := max old.1 confidence, version := old.2 + 1 }
            else r }))
    (hcreate : ∀ sourceId targetId w1, Idle w w1 →
      g.lookupId labelToId relation.source = some sourceId →
      g.lookupId labelToId relation.target = some targetId →
      (g.relations sourceId targetId relation.relationType).head? = none →
      Q { summary with edgesCreated := summary.edgesCreated + 1 }
        (w1.setGraph name { g with
          relatesTo := g.relatesTo ++
            ((g.concepts.filter (·.id = sourceId)).flatMap fun a =>
              (g.concepts.filter (·.id = targetId)).map fun b =>
                ⟨a.id, b.id, relation.relationType, confidence, 1⟩) })) :
    Triple (upsertRelation name relation confidence labelToId summary) w Q E := by
  subst hg
  have hread {e : Exn} {w1 : World} (h : Idle w w1 ∧ ¬ GraphReady w name) : E e w1 :=
    hraise e w1 h.1 h.2
  have hwrite {mentions : List String} {tables : List GraphTable} {f : Graph → Graph}
      {params : List String} {w1 : World} (hw1 : Idle w w1) (hparams : ∀ p ∈ params, p ∈ mentions) :
      Triple (execute name (.update mentions tables f) params) w1
        (fun _ w' => ∃ w2, Idle w w2 ∧ w' = w2.setGraph name (f (w.graphs name))) E := by
    refine (execute_ends hparams).mono ?_ fun e w2 h => ?_
    · rintro _ _ ⟨g, w2, hw2, hg, rfl⟩
      cases hg
      rw [hw1.graphs]
      exact ⟨w2, hw1.trans hw2, rfl⟩
    · exact hraise e w2 (hw1.trans h.1) fun hready => by cases (h.2 (hw1.graphReady hready)).1
  refine .bind ((lookupConceptId_ends (refl_of Idle w)).mono (fun _ _ h => h) fun _ _ => hread)
    fun source w1 ⟨hsource, hw1⟩ => .bind ((lookupConceptId_ends hw1).mono (fun _ _ h => h)
      fun _ _ => hread) fun target w2 ⟨htarget, hw2⟩ => ?_
  cases source with
  | none => exact .pure (hskip w2 hw2 (.inl hsource.symm))
  | some sourceId =>
    cases target with
    | none => exact .pure (hskip w2 hw2 (.inr htarget.symm))
    | some targetId =>
      refine .bind ((read_ends hw2 (by simp)).mono (fun _ _ h => h) fun _ _ => hread)
        fun rows w3 ⟨hrows, hw3⟩ => ?_
      change rows = (w.graphs name).relations sourceId targetId relation.relationType at hrows
      cases hhead : rows.head? with
      | some old =>
        refine .bind (hwrite hw3 (by simp)) ?_
        rintro _ _ ⟨w4, hw4, rfl⟩
        exact .pure (hupdate sourceId targetId old w4 hw4 hsource.symm htarget.symm (hrows ▸ hhead))
      | none =>
        refine .bind (hwrite hw3 (by simp)) ?_
        rintro _ _ ⟨w4, hw4, rfl⟩
        exact .pure (hcreate sourceId targetId w4 hw4 hsource.symm htarget.symm (hrows ▸ hhead))

end AgentWorx
