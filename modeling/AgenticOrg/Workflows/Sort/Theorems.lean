import AgenticOrg.Workflows.Parser.Theorems
import AgenticOrg.Workflows.Sort

namespace AgenticOrg.Workflows

open Precedence

theorem named_iff (steps : List Step) (id : Scalar) :
    named steps id = true ↔ id.canon ∈ canonIds steps := by
  simp only [named, List.any_eq_true, Scalar.beq_iff, mem_canonIds]

theorem named_of_mem (steps : List Step) (step : Step) (hs : step ∈ steps) :
    named steps step.id = true :=
  (named_iff steps step.id).mpr ((mem_canonIds steps _).mpr ⟨step, hs, rfl⟩)

section Edges

-- The two reasons to come before a step: it depends on you, or it is your fallback.
def Requires (steps : List Step) (before after : Canon) : Prop :=
  ∃ step ∈ steps, ∃ dep ∈ step.deps, named steps dep = true ∧ before = dep.canon ∧
    after = step.id.canon

def FallsBack (steps : List Step) (before after : Canon) : Prop :=
  ∃ step ∈ steps, ∃ target, fallbackTarget step = some target ∧ named steps (.str target) = true ∧
    before = step.id.canon ∧ after = (Scalar.str target).canon

theorem mem_precedenceEdges (steps : List Step) (before after : Canon) :
    Edge (precedenceEdges steps) before after ↔
      Requires steps before after ∨ FallsBack steps before after := by
  simp only [Edge, precedenceEdges, List.mem_flatMap, List.mem_append, List.mem_map,
    List.mem_filter, Option.mem_toList, Prod.mk.injEq, Requires, FallsBack]
  constructor
  · rintro ⟨step, hs, ⟨dep, ⟨hd, hn⟩, rfl, rfl⟩ | ⟨target, ⟨ht, hn⟩, rfl, rfl⟩⟩
    · exact .inl ⟨step, hs, dep, hd, hn, rfl, rfl⟩
    · exact .inr ⟨step, hs, target, ht, hn, rfl, rfl⟩
  · rintro (⟨step, hs, dep, hd, hn, rfl, rfl⟩ | ⟨step, hs, target, ht, hn, rfl, rfl⟩)
    · exact ⟨step, hs, .inl ⟨dep, ⟨hd, hn⟩, rfl, rfl⟩⟩
    · exact ⟨step, hs, .inr ⟨target, ⟨ht, hn⟩, rfl, rfl⟩⟩

-- The sort leaves out the edge of a step that names itself as its fallback.
theorem mem_sortEdges (steps : List Step) (before after : Canon) :
    Edge (sortEdges steps) before after ↔
      Requires steps before after ∨ FallsBack steps before after ∧ after ≠ before := by
  simp only [Edge, sortEdges, stepEdges, List.mem_flatMap, List.mem_append, List.mem_map,
    List.mem_filter, Prod.mk.injEq, Requires, FallsBack]
  constructor
  · rintro ⟨step, hs, ⟨dep, ⟨hd, hn⟩, rfl, rfl⟩ | hf⟩
    · exact .inl ⟨step, hs, dep, hd, hn, rfl, rfl⟩
    · cases ht : fallbackTarget step with
      | none => simp [ht] at hf
      | some target =>
          simp only [ht, Bool.and_eq_true, Bool.not_eq_true', Scalar.beq_eq_false_iff] at hf
          split at hf
          · rename_i hcond
            rw [List.mem_singleton, Prod.mk.injEq] at hf
            obtain ⟨rfl, rfl⟩ := hf
            exact .inr ⟨⟨step, hs, target, ht, hcond.1, rfl, rfl⟩, hcond.2⟩
          · simp at hf
  · rintro (⟨step, hs, dep, hd, hn, rfl, rfl⟩ | ⟨⟨step, hs, target, ht, hn, rfl, rfl⟩, hne⟩)
    · exact ⟨step, hs, .inl ⟨dep, ⟨hd, hn⟩, rfl, rfl⟩⟩
    · refine ⟨step, hs, .inr ?_⟩
      have hb : (Scalar.str target == step.id) = false := (Scalar.beq_eq_false_iff _ _).mpr hne
      simp [ht, hn, hb]

theorem requires_nodes (steps : List Step) (before after : Canon) (h : Requires steps before after) :
    before ∈ canonIds steps ∧ after ∈ canonIds steps := by
  obtain ⟨step, hs, dep, -, hn, rfl, rfl⟩ := h
  exact ⟨(named_iff steps dep).mp hn, (mem_canonIds steps _).mpr ⟨step, hs, rfl⟩⟩

theorem fallsBack_nodes (steps : List Step) (before after : Canon) (h : FallsBack steps before after) :
    before ∈ canonIds steps ∧ after ∈ canonIds steps := by
  obtain ⟨step, hs, target, -, hn, rfl, rfl⟩ := h
  exact ⟨(mem_canonIds steps _).mpr ⟨step, hs, rfl⟩, (named_iff steps _).mp hn⟩

theorem sortEdges_nodes (steps : List Step) (before after : Canon)
    (he : Edge (sortEdges steps) before after) :
    before ∈ canonIds steps ∧ after ∈ canonIds steps := by
  rcases (mem_sortEdges steps before after).mp he with h | ⟨h, -⟩
  · exact requires_nodes steps before after h
  · exact fallsBack_nodes steps before after h

theorem precedenceEdges_nodes (steps : List Step) (before after : Canon)
    (he : Edge (precedenceEdges steps) before after) :
    before ∈ canonIds steps ∧ after ∈ canonIds steps := by
  rcases (mem_precedenceEdges steps before after).mp he with h | h
  · exact requires_nodes steps before after h
  · exact fallsBack_nodes steps before after h

theorem sortEdges_subset (steps : List Step) : ∀ e ∈ sortEdges steps, e ∈ precedenceEdges steps := by
  rintro ⟨before, after⟩ he
  apply (mem_precedenceEdges steps before after).mpr
  rcases (mem_sortEdges steps before after).mp he with h | ⟨h, -⟩
  · exact .inl h
  · exact .inr h

-- Without cycles nobody is its own fallback, and the sort sees every edge.
theorem edge_sortEdges_of_acyclic (steps : List Step) (ha : Acyclic (precedenceEdges steps))
    (before after : Canon) (he : Edge (precedenceEdges steps) before after) :
    Edge (sortEdges steps) before after := by
  apply (mem_sortEdges steps before after).mpr
  rcases (mem_precedenceEdges steps before after).mp he with h | h
  · exact .inl h
  · refine .inr ⟨h, ?_⟩
    rintro rfl
    exact ha after (.single he)

-- Where the sort finds no cycle, the parser finds none either.
theorem dependencyGraph_acyclic (steps : List Step) (ha : Acyclic (sortEdges steps)) (node : Canon) :
    ¬ Relation.TransGen (DependsOn (dependencyGraph steps)) node node := by
  have hnode : ∀ u v, DependsOn (dependencyGraph steps) u v → u ∈ canonIds steps := by
    intro u v h
    by_contra hu
    rw [Precedence.DependsOn, dependencyGraph_eq_nil steps u hu] at h
    simp at h
  have hedge : ∀ u v, DependsOn (dependencyGraph steps) u v → v ∈ canonIds steps →
      Edge (sortEdges steps) v u := by
    intro u v h hv
    rw [Precedence.DependsOn, dependencyGraph] at h
    cases hf : steps.find? (·.id.canon = u) with
    | none =>
        rw [hf] at h
        simp at h
    | some step =>
        rw [hf] at h
        obtain ⟨dep, hd, rfl⟩ := List.mem_map.mp h
        refine (mem_sortEdges steps _ _).mpr (.inl ⟨step, List.mem_of_find?_eq_some hf, dep, hd,
          (named_iff steps dep).mpr hv, rfl, ?_⟩)
        simpa [eq_comm] using List.find?_some hf
  have hpath : ∀ u v, Relation.TransGen (DependsOn (dependencyGraph steps)) u v →
      v ∈ canonIds steps → Relation.TransGen (Edge (sortEdges steps)) v u := by
    intro u v h hv
    induction h with
    | single h => exact .single (hedge _ _ h hv)
    | tail _ h ih => exact .head (hedge _ _ h hv) (ih (hnode _ _ h))
  intro hcycle
  obtain ⟨next, hfirst, -⟩ := Relation.TransGen.head'_iff.mp hcycle
  exact ha node (hpath node node hcycle (hnode node next hfirst))

end Edges

section Order

theorem idOf_of_mem (steps : List Step) (hn : (canonIds steps).Nodup) (step : Step)
    (hs : step ∈ steps) : idOf steps step.id.canon = some step.id := by
  rw [idOf, find?_of_mem steps hn step hs]
  rfl

theorem exists_of_idOf (steps : List Step) (node : Canon) (id : Scalar)
    (h : idOf steps node = some id) : ∃ step ∈ steps, step.id = id ∧ id.canon = node := by
  obtain ⟨step, hf, rfl⟩ := Option.map_eq_some_iff.mp h
  exact ⟨step, List.mem_of_find?_eq_some hf, rfl, by simpa using List.find?_some hf⟩

theorem map_canon_filterMap_idOf (steps : List Step) (nodes : List Canon)
    (hn : ∀ node ∈ nodes, node ∈ canonIds steps) :
    (nodes.filterMap (idOf steps)).map Scalar.canon = nodes := by
  induction nodes with
  | nil => rfl
  | cons node rest ih =>
      obtain ⟨step, hs, rfl⟩ := (mem_canonIds steps node).mp (hn node (by simp))
      have hsome : (idOf steps step.id.canon).isSome = true := by
        rw [idOf, Option.isSome_map, List.find?_isSome]
        exact ⟨step, hs, by simp⟩
      obtain ⟨id, hid⟩ := Option.isSome_iff_exists.mp hsome
      obtain ⟨other, -, -, hc⟩ := exists_of_idOf steps _ id hid
      rw [List.filterMap_cons, hid]
      simp only [List.map_cons, hc]
      rw [ih fun other ho => hn other (by simp [ho])]

theorem filterMap_idOf_canonIds (steps : List Step) (hn : (canonIds steps).Nodup) :
    (canonIds steps).filterMap (idOf steps) = stepIds steps := by
  rw [canonIds, List.filterMap_map, stepIds, ← List.filterMap_eq_map]
  apply List.filterMap_congr
  intro step hs
  exact idOf_of_mem steps hn step hs

theorem topologicalSort_ok (steps : List Step) (order : List Scalar)
    (h : topologicalSort steps = .ok order) :
    (∀ step ∈ steps, step.dependsOn.isSome = true) ∧
      (kahn (canonIds steps) (sortEdges steps)).length = steps.length ∧
      order = (kahn (canonIds steps) (sortEdges steps)).filterMap (idOf steps) := by
  unfold topologicalSort at h
  split at h
  · cases h
  · rename_i hany
    rw [Bool.not_eq_true] at hany
    simp only at h
    split at h
    · cases h
    · rename_i hl
      refine ⟨?_, by simpa using hl, (Except.ok.inj h).symm⟩
      intro step hs
      have hnone := List.any_eq_false.mp hany step hs
      rwa [Bool.not_eq_true, Option.isNone_eq_false_iff] at hnone

theorem mem_order (steps : List Step) (order : List Scalar) (h : topologicalSort steps = .ok order)
    (id : Scalar) (hid : id ∈ order) : ∃ step ∈ steps, step.id = id := by
  obtain ⟨-, -, rfl⟩ := topologicalSort_ok steps order h
  obtain ⟨node, -, hnode⟩ := List.mem_filterMap.mp hid
  obtain ⟨step, hs, he, -⟩ := exists_of_idOf steps node id hnode
  exact ⟨step, hs, he⟩

theorem topologicalSort_ok_iff (steps : List Step) (hn : (canonIds steps).Nodup)
    (hi : ∀ step ∈ steps, step.dependsOn.isSome = true) :
    (∃ order, topologicalSort steps = .ok order) ↔ Acyclic (sortEdges steps) := by
  have hany : steps.any (·.dependsOn.isNone) = false := by
    rw [List.any_eq_false]
    intro step hs
    rw [Bool.not_eq_true, Option.isNone_eq_false_iff]
    exact hi step hs
  have hlen : steps.length = (canonIds steps).length := by simp [canonIds]
  rw [← kahn_length_iff (canonIds steps) (sortEdges steps) hn (sortEdges_nodes steps), ← hlen]
  constructor
  · rintro ⟨order, h⟩
    exact (topologicalSort_ok steps order h).2.1
  · intro hl
    simp [topologicalSort, hany, hl]

section Accepted

variable (steps : List Step) (hn : (canonIds steps).Nodup) (order : List Scalar)
  (h : topologicalSort steps = .ok order)

include hn h

theorem order_perm : order.Perm (stepIds steps) := by
  obtain ⟨-, hl, rfl⟩ := topologicalSort_ok steps order h
  have hp := kahn_perm (canonIds steps) (sortEdges steps) hn
    (fun u v he => (sortEdges_nodes steps u v he).2) (by simpa [canonIds] using hl)
  rw [← filterMap_idOf_canonIds steps hn]
  exact hp.filterMap _

theorem order_canon : order.map Scalar.canon = kahn (canonIds steps) (sortEdges steps) := by
  obtain ⟨-, hl, rfl⟩ := topologicalSort_ok steps order h
  have hp := kahn_perm (canonIds steps) (sortEdges steps) hn
    (fun u v he => (sortEdges_nodes steps u v he).2) (by simpa [canonIds] using hl)
  exact map_canon_filterMap_idOf steps _ fun node hm => hp.mem_iff.mp hm

theorem order_sorted : Sorted (sortEdges steps) (order.map Scalar.canon) := by
  rw [order_canon steps hn order h]
  exact kahn_sorted (canonIds steps) (sortEdges steps) hn
    fun u v he => (sortEdges_nodes steps u v he).2

theorem behind_of_edge (id earlier : Scalar)
    (he : Edge (sortEdges steps) earlier.canon id.canon) : Behind order id earlier := by
  intro front back hsplit
  have hm := order_sorted steps hn order h (front.map Scalar.canon) id.canon (back.map Scalar.canon)
    (by rw [hsplit, List.map_append, List.map_cons]) earlier.canon he
  obtain ⟨found, hf, hc⟩ := List.mem_map.mp hm
  exact ⟨found, hf, (Scalar.beq_iff _ _).mpr hc⟩

end Accepted

end Order

section Accepted

-- The order a run needs of the sort: all step ids, each behind the ids it
-- depends on and behind the steps it is the fallback of.
def SortsProperly (steps : List Step) : Prop :=
  ∃ order, topologicalSort steps = .ok order ∧ order.Perm (stepIds steps) ∧
    ∀ step ∈ steps,
      (∀ dep ∈ step.deps, named steps dep = true → Behind order step.id dep) ∧
      ∀ source ∈ steps, ∀ target, fallbackTarget source = some target →
        (Scalar.str target == step.id) = true → Behind order step.id source.id

theorem behind_of_precedence (steps : List Step) (order : List Scalar)
    (hdeps : ∀ step ∈ steps,
      (∀ dep ∈ step.deps, named steps dep = true → Behind order step.id dep) ∧
      ∀ source ∈ steps, ∀ target, fallbackTarget source = some target →
        (Scalar.str target == step.id) = true → Behind order step.id source.id)
    (hn : (canonIds steps).Nodup) (step : Step) (hs : step ∈ steps) (before : Canon)
    (he : Edge (precedenceEdges steps) before step.id.canon) (front back : List Scalar)
    (hsplit : order = front ++ step.id :: back) : before ∈ front.map Scalar.canon := by
  rcases (mem_precedenceEdges steps before step.id.canon).mp he with
    ⟨other, ho, dep, hd, hnamed, rfl, hc⟩ | ⟨source, hsource, target, ht, -, rfl, hc⟩
  · have hsame : other = step := List.inj_on_of_nodup_map hn ho hs hc.symm
    subst hsame
    obtain ⟨found, hf, hb⟩ := (hdeps other ho).1 dep hd hnamed front back hsplit
    exact List.mem_map.mpr ⟨found, hf, (Scalar.beq_iff _ _).mp hb⟩
  · obtain ⟨found, hf, hb⟩ := (hdeps step hs).2 source hsource target ht
      ((Scalar.beq_iff _ _).mpr hc.symm) front back hsplit
    exact List.mem_map.mpr ⟨found, hf, (Scalar.beq_iff _ _).mp hb⟩

theorem sortsProperly_iff (steps : List Step) (hn : (canonIds steps).Nodup)
    (hi : ∀ step ∈ steps, step.dependsOn.isSome = true) :
    SortsProperly steps ↔ Acyclic (precedenceEdges steps) := by
  constructor
  · rintro ⟨order, h, hp, hdeps⟩
    have hmem : ∀ v, v ∈ canonIds steps → v ∈ order.map Scalar.canon := by
      intro v hv
      have hperm := hp.map Scalar.canon
      rw [stepIds, List.map_map] at hperm
      exact hperm.mem_iff.mpr hv
    refine Sorted.acyclic _ (order.map Scalar.canon) ?_
      fun u v he => hmem v (precedenceEdges_nodes steps u v he).2
    intro front v back hsplit u he
    obtain ⟨left, rest, horder, rfl, hrest⟩ := List.map_eq_append_iff.mp hsplit
    obtain ⟨id, right, rfl, rfl, rfl⟩ := List.map_eq_cons_iff.mp hrest
    obtain ⟨step, hs, rfl⟩ := mem_order steps order h id (by simp [horder])
    exact behind_of_precedence steps order hdeps hn step hs u he left right horder
  · intro ha
    have hsort := (topologicalSort_ok_iff steps hn hi).mpr
      (Acyclic.mono _ _ (sortEdges_subset steps) ha)
    obtain ⟨order, h⟩ := hsort
    have hedge := edge_sortEdges_of_acyclic steps ha
    refine ⟨order, h, order_perm steps hn order h, fun step hs => ⟨?_, ?_⟩⟩
    · intro dep hd hnamed
      apply behind_of_edge steps hn order h
      exact (mem_sortEdges steps _ _).mpr (.inl ⟨step, hs, dep, hd, hnamed, rfl, rfl⟩)
    · intro source hsource target ht hb
      have hc := (Scalar.beq_iff _ _).mp hb
      have hnamed : named steps (.str target) = true := by
        rw [named_iff, hc]
        exact (named_iff steps step.id).mp (named_of_mem steps step hs)
      apply behind_of_edge steps hn order h
      apply hedge
      exact (mem_precedenceEdges steps _ _).mpr
        (.inr ⟨source, hsource, target, ht, hnamed, rfl, hc.symm⟩)

-- The parser looks for cycles of dependencies alone, while the sort adds an edge
-- from a step to its fallback.
theorem parse_sortsProperly_iff (raw : RawDefinition) (definition : Definition)
    (h : parse raw = .ok definition) :
    SortsProperly definition.steps ↔ Acyclic (precedenceEdges definition.steps) := by
  obtain ⟨-, hacc⟩ := (parse_ok_iff raw definition).mp h
  exact sortsProperly_iff definition.steps hacc.nodup hacc.iterable

-- A step with a fallback behind it, and the step that takes over.
def guarded : Definition :=
  { steps := [{ id := .str "charge", onFailure := "retry(2), fallback(refund)" },
      { id := .str "refund", dependsOn := some [.str "charge"] }] }

theorem guarded_sortsProperly :
    parse guarded.raw = .ok guarded ∧
      (SortsProperly guarded.steps ↔ Acyclic (precedenceEdges guarded.steps)) :=
  ⟨rfl, parse_sortsProperly_iff guarded.raw guarded rfl⟩

-- A step that depends on its own fallback is accepted and cannot be sorted.
def crossed : Definition :=
  { steps := [{ id := .str "charge", dependsOn := some [.str "refund"], onFailure := "fallback(refund)" },
      { id := .str "refund" }] }

theorem crossed_not_sortsProperly : parse crossed.raw = .ok crossed ∧ ¬ SortsProperly crossed.steps := by
  refine ⟨rfl, ?_⟩
  rintro ⟨order, h, -⟩
  have herror : topologicalSort crossed.steps = .error "Circular dependency detected in workflow steps" := rfl
  rw [herror] at h
  cases h

end Accepted

end AgenticOrg.Workflows
