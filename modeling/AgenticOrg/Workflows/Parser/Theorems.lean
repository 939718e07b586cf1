import AgenticOrg.Workflows.Parser

namespace AgenticOrg.Workflows

open Precedence

-- What the parser has checked of the steps it lets through.
structure Accepted (steps : List Step) : Prop where
  nodup : (canonIds steps).Nodup
  types : ∀ step ∈ steps, step.stepType.valid = true
  iterable : ∀ step ∈ steps, step.dependsOn.isSome = true
  acyclic : ∀ node, ¬ Relation.TransGen (DependsOn (dependencyGraph steps)) node node

def Definition.raw (definition : Definition) : RawDefinition :=
  ⟨some (definition.steps.map Entry.step), definition.timeoutHours, definition.replanOnFailure⟩

theorem canonIds_cons (step : Step) (steps : List Step) :
    canonIds (step :: steps) = step.id.canon :: canonIds steps := rfl

theorem mem_canonIds (steps : List Step) (node : Canon) :
    node ∈ canonIds steps ↔ ∃ step ∈ steps, step.id.canon = node := List.mem_map

theorem any_beq_eq_false (ids : List Scalar) (id : Scalar) :
    ids.any (· == id) = false ↔ ∀ other ∈ ids, other.canon ≠ id.canon := by
  simp only [List.any_eq_false, Bool.not_eq_true, Scalar.beq_eq_false_iff]

theorem validateSteps_step_ok_iff (seen : List Scalar) (step : Step) (rest : List Entry)
    (steps : List Step) :
    validateSteps seen (.step step :: rest) = .ok steps ↔
      (∀ id ∈ seen, id.canon ≠ step.id.canon) ∧ step.stepType.valid = true ∧
        ∃ tail, steps = step :: tail ∧ validateSteps (step.id :: seen) rest = .ok tail := by
  rw [validateSteps, ← any_beq_eq_false]
  cases seen.any (· == step.id) with
  | true => simp
  | false =>
      cases step.stepType.valid with
      | false => simp
      | true =>
          cases validateSteps (step.id :: seen) rest with
          | error message => simp
          | ok found => simp [eq_comm]

theorem validateSteps_ok_iff (seen : List Scalar) (entries : List Entry) (steps : List Step) :
    validateSteps seen entries = .ok steps ↔
      entries = steps.map Entry.step ∧ (canonIds steps).Nodup ∧
        (∀ step ∈ steps, step.stepType.valid = true) ∧
        ∀ step ∈ steps, ∀ id ∈ seen, id.canon ≠ step.id.canon := by
  induction entries generalizing seen steps with
  | nil =>
      cases steps with
      | nil => simp [validateSteps, canonIds]
      | cons step rest => simp [validateSteps]
  | cons entry rest ih =>
      cases entry with
      | notDict typeName => cases steps <;> simp [validateSteps]
      | noId => cases steps <;> simp [validateSteps]
      | step step =>
          rw [validateSteps_step_ok_iff]
          constructor
          · rintro ⟨hfresh, hvalid, tail, rfl, hr⟩
            obtain ⟨he, hn, ht, hf⟩ := (ih _ _).mp hr
            refine ⟨by rw [he]; rfl, ?_, by simpa [hvalid] using ht, ?_⟩
            · rw [canonIds_cons, List.nodup_cons, mem_canonIds]
              refine ⟨?_, hn⟩
              rintro ⟨other, ho, hc⟩
              exact hf other ho step.id (by simp) hc.symm
            · intro other ho id hid
              rcases List.mem_cons.mp ho with rfl | ho
              · exact hfresh id hid
              · exact hf other ho id (by simp [hid])
          · rintro ⟨he, hn, ht, hf⟩
            cases steps with
            | nil => cases he
            | cons other tail =>
                cases he
                rw [canonIds_cons, List.nodup_cons, mem_canonIds] at hn
                refine ⟨hf step (by simp), ht step (by simp), tail, rfl, ?_⟩
                rw [ih]
                refine ⟨rfl, hn.2, fun s hs => ht s (by simp [hs]), ?_⟩
                intro s hs id hid
                rcases List.mem_cons.mp hid with rfl | hid
                · exact fun hc => hn.1 ⟨s, hs, hc.symm⟩
                · exact hf s (by simp [hs]) id hid

theorem cycleNode_eq_none (visit : Canon → Marks Canon → Bool × Marks Canon) (nodes : List Scalar)
    (marks : Marks Canon) :
    cycleNode visit nodes marks = none ↔
      (visitAll visit (nodes.map Scalar.canon) marks).1 = false := by
  induction nodes generalizing marks with
  | nil => simp [cycleNode, visitAll]
  | cons node rest ih =>
      rw [cycleNode, List.map_cons, visitAll]
      cases hv : visit node.canon marks with
      | mk found marks' =>
          cases found with
          | true => simp
          | false => simpa using ih marks'

theorem dependencyGraph_eq_nil (steps : List Step) (node : Canon) (hn : node ∉ canonIds steps) :
    dependencyGraph steps node = [] := by
  have hfind : steps.find? (·.id.canon = node) = none := by
    rw [List.find?_eq_none]
    intro step hs hc
    exact hn ((mem_canonIds steps node).mpr ⟨step, hs, by simpa using hc⟩)
  rw [dependencyGraph, hfind]

theorem find?_of_mem (steps : List Step) (hn : (canonIds steps).Nodup) (step : Step)
    (hs : step ∈ steps) : steps.find? (·.id.canon = step.id.canon) = some step := by
  induction steps with
  | nil => simp at hs
  | cons first rest ih =>
      rw [canonIds_cons, List.nodup_cons, mem_canonIds] at hn
      rw [List.find?_cons]
      rcases List.mem_cons.mp hs with rfl | hs
      · simp
      · have hne : first.id.canon ≠ step.id.canon := fun hc => hn.1 ⟨step, hs, hc.symm⟩
        simpa [hne] using ih hn.2 hs

theorem checkCircular_ok_iff (steps : List Step) :
    checkCircular steps = .ok () ↔
      (∀ step ∈ steps, step.dependsOn.isSome = true) ∧
        ∀ node, ¬ Relation.TransGen (DependsOn (dependencyGraph steps)) node node := by
  rw [← findCycle_eq_false_iff (dependencyGraph steps) (canonIds steps)
    (dependencyGraph_eq_nil steps)]
  have hcycle : cycleNode (hasCycle (dependencyGraph steps) (dfsFuel steps)) (stepIds steps) ⟨[], []⟩ = none ↔
      findCycle (dependencyGraph steps) (canonIds steps) = false := by
    rw [cycleNode_eq_none, stepIds, List.map_map]
    rfl
  rw [← hcycle, checkCircular]
  cases hany : steps.any (·.dependsOn.isNone) with
  | true =>
      obtain ⟨step, hs, hnone⟩ := List.any_eq_true.mp hany
      refine ⟨fun h => by simp at h, fun h => ?_⟩
      have hsome := h.1 step hs
      rw [Option.isNone_iff_eq_none] at hnone
      rw [hnone] at hsome
      cases hsome
  | false =>
      have hall : ∀ step ∈ steps, step.dependsOn.isSome = true := by
        intro step hs
        have hnone := List.any_eq_false.mp hany step hs
        rwa [Bool.not_eq_true, Option.isNone_eq_false_iff] at hnone
      cases hfound : cycleNode (hasCycle (dependencyGraph steps) (dfsFuel steps)) (stepIds steps) ⟨[], []⟩ with
      | some node => simp
      | none => simpa using hall

theorem parse_ok_iff (raw : RawDefinition) (definition : Definition) :
    parse raw = .ok definition ↔ raw = definition.raw ∧ Accepted definition.steps := by
  obtain ⟨entries?, timeoutHours, replanOnFailure⟩ := raw
  obtain ⟨steps, hours, replan⟩ := definition
  constructor
  · intro h
    cases entries? with
    | none => cases h
    | some entries =>
        cases hv : validateSteps [] entries with
        | error message => simp [parse, hv] at h
        | ok found =>
            cases hc : checkCircular found with
            | error message => simp [parse, hv, hc] at h
            | ok done =>
                simp only [parse, hv, hc, Except.ok.injEq, Definition.mk.injEq] at h
                obtain ⟨rfl, rfl, rfl⟩ := h
                obtain ⟨he, hn, ht, -⟩ := (validateSteps_ok_iff [] entries found).mp hv
                obtain ⟨hi, ha⟩ := (checkCircular_ok_iff found).mp hc
                exact ⟨by rw [he]; rfl, hn, ht, hi, ha⟩
  · rintro ⟨hraw, hn, ht, hi, ha⟩
    cases hraw
    have hv : validateSteps [] (steps.map Entry.step) = .ok steps :=
      (validateSteps_ok_iff [] _ steps).mpr ⟨rfl, hn, ht, by simp⟩
    have hc : checkCircular steps = .ok () := (checkCircular_ok_iff steps).mpr ⟨hi, ha⟩
    simp only [parse, hv, hc]

end AgenticOrg.Workflows
