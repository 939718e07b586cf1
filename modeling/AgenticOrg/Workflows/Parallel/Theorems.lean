import AgenticOrg.Workflows.Parallel

namespace AgenticOrg.Workflows

section Collecting

-- Collecting a quorum gives successes only when nothing else comes before it.
theorem collectCount_completed (count successes : ℕ) (results : List (Option Json)) (h : successes < count) :
    (∃ collected, collectCount count successes results = some collected ∧
        ∀ result ∈ collected, isCompleted result = true) ↔
      ∀ result ∈ results.take (count - successes), endsCompleted result = true := by
  induction results generalizing successes with
  | nil => simp [collectCount]
  | cons first rest ih =>
      have htake : (first :: rest).take (count - successes) = first :: rest.take (count - (successes + 1)) := by
        rw [show count - successes = (count - (successes + 1)) + 1 by omega, List.take_succ_cons]
      rw [htake, List.forall_mem_cons]
      cases first with
      | none => simp [collectCount, endsCompleted]
      | some result =>
          have hends : endsCompleted (some result) = isCompleted result := rfl
          rw [hends]
          cases hc : isCompleted result with
          | false =>
              have hlt : ¬count ≤ successes := by omega
              simp [collectCount, hc, hlt]
          | true =>
              by_cases hlast : count ≤ successes + 1
              · have hzero : count - (successes + 1) = 0 := by omega
                simp [collectCount, hc, hlast, hzero]
              · have hrest := ih (successes + 1) (by omega)
                simp only [collectCount, hc, if_true, if_neg hlast, true_and, ← hrest]
                constructor
                · rintro ⟨collected, he, hall⟩
                  obtain ⟨tail, ht, rfl⟩ := Option.map_eq_some_iff.mp he
                  exact ⟨tail, ht, fun r hr => hall r (List.mem_cons_of_mem _ hr)⟩
                · rintro ⟨tail, ht, hall⟩
                  refine ⟨result :: tail, by rw [ht]; rfl, ?_⟩
                  intro r hr
                  obtain rfl | hm := List.mem_cons.mp hr
                  · exact hc
                  · exact hall r hm

-- Short of the quorum, everything is collected.
theorem collectCount_short (count successes : ℕ) (results : List (Option Json))
    (h : successes + results.countP endsCompleted < count) :
    collectCount count successes results = results.mapM id := by
  induction results generalizing successes with
  | nil => rfl
  | cons first rest ih =>
      rw [List.countP_cons] at h
      cases first with
      | none => rfl
      | some result =>
          have hends : endsCompleted (some result) = isCompleted result := rfl
          rw [hends] at h
          have hstep (seen : ℕ) (hseen : seen + rest.countP endsCompleted < count) :
              (if count ≤ seen then some [result] else (collectCount count seen rest).map (result :: ·)) =
                (some result :: rest).mapM id := by
            rw [if_neg (by omega), ih seen hseen, List.mapM_cons]
            cases rest.mapM id with
            | none => rfl
            | some collected => rfl
          cases hc : isCompleted result with
          | true =>
              rw [hc, if_pos rfl] at h
              simp only [collectCount, hc, if_true]
              exact hstep (successes + 1) (by omega)
          | false =>
              rw [hc, if_neg (by simp)] at h
              simp only [collectCount, hc]
              exact hstep successes (by omega)

theorem mapM_id_eq_some (results : List (Option Json)) (h : ∀ result ∈ results, result.isSome = true) :
    ∃ collected, results.mapM id = some collected ∧ results = collected.map some := by
  induction results with
  | nil => exact ⟨[], rfl, rfl⟩
  | cons first rest ih =>
      obtain ⟨hfirst, hrest⟩ := List.forall_mem_cons.mp h
      obtain ⟨result, rfl⟩ := Option.isSome_iff_exists.mp hfirst
      obtain ⟨collected, he, hr⟩ := ih hrest
      refine ⟨result :: collected, ?_, by rw [hr]; rfl⟩
      rw [List.mapM_cons, he]
      rfl

theorem isSome_of_mapM_id (results : List (Option Json)) (collected : List Json)
    (h : results.mapM id = some collected) : ∀ result ∈ results, result.isSome = true := by
  induction results generalizing collected with
  | nil => simp
  | cons first rest ih =>
      rw [List.mapM_cons] at h
      obtain ⟨result, hf, h⟩ := Option.bind_eq_some_iff.mp h
      obtain ⟨tail, ht, -⟩ := Option.bind_eq_some_iff.mp h
      intro r hr
      obtain rfl | hm := List.mem_cons.mp hr
      · exact Option.isSome_of_eq_some hf
      · exact ih tail ht r hm

theorem seen_perm (results : List (Option Json)) (order : List ℕ)
    (h : order.Perm (List.range results.length)) : (order.map (resultAt results)).Perm results := by
  have hall : (List.range results.length).map (resultAt results) = results := by
    apply List.ext_getElem
    · simp
    · intro index hl hr
      simp [resultAt, List.getElem?_eq_getElem hr]
  exact (h.map _).trans (List.Perm.of_eq hall)

end Collecting

section Verdicts

variable (repr : Json → String) (digits : Digits) (handler : Json → ChildOutcome) (step : ParallelStep)

theorem isNumeric_ne (text : List Char) (c : Char) (h : digits.isNumeric text = true) (hc : c.toNat < 128)
    (hd : c.isDigit = false) : c ∉ text := by
  intro hm
  rw [Digits.isNumeric, Bool.and_eq_true, List.all_eq_true] at h
  have hdigit := h.2 c hm
  rw [(digits.ascii c hc).1, hd] at hdigit
  cases hdigit

theorem numeric_words (text : String) (h : digits.isNumeric text.toList = true) : text ≠ "all" ∧ text ≠ "any" := by
  have ha := isNumeric_ne digits text.toList 'a' h (by decide) (by decide)
  constructor
  · rintro rfl
    exact ha (by decide)
  · rintro rfl
    exact ha (by decide)

theorem parallelStep_numeric (order : List ℕ) (k : ℕ) (hn : digits.isNumeric step.waitFor.display.toList = true)
    (hk : digits.int step.waitFor.display.toList = some (k : ℤ)) :
    parallelStep repr digits handler step order =
      (collectCount k 0 (order.map (resultAt (childResults repr handler step)))).map (parallelResult step) := by
  obtain ⟨hall, hany⟩ := numeric_words digits _ hn
  rw [parallelStep, executeParallel, if_neg hall, if_neg hany, countOf, if_pos hn, hk]
  rfl

theorem status_parallelResult (results : List Json) (h : step.waitFor.display ≠ "any") :
    ((parallelResult step results).get "status").text =
      if results.all isCompleted then "completed" else "failed" := by
  have hfail : (!(parallelFailures results).isEmpty) = !results.all isCompleted := by
    rw [Bool.not_inj_iff, Bool.eq_iff_iff]
    simp [parallelFailures, List.isEmpty_iff]
  rw [parallelResult]
  simp only [if_pos h, hfail]
  cases hc : results.all isCompleted <;> rfl

theorem reported_completed (order : List ℕ) (k : ℕ) (hn : digits.isNumeric step.waitFor.display.toList = true)
    (hk : digits.int step.waitFor.display.toList = some (k : ℤ)) (hpos : 1 ≤ k) :
    reported repr digits handler step order = some "completed" ↔
      ∀ index ∈ order.take k, endsCompleted (resultAt (childResults repr handler step) index) = true := by
  have hany := (numeric_words digits _ hn).2
  have hquorum := collectCount_completed k 0 (order.map (resultAt (childResults repr handler step))) hpos
  rw [Nat.sub_zero, ← List.map_take, List.forall_mem_map] at hquorum
  rw [← hquorum, reported, parallelStep_numeric repr digits handler step order k hn hk]
  constructor
  · intro h
    obtain ⟨result, hr, hs⟩ := Option.map_eq_some_iff.mp h
    obtain ⟨collected, hc, rfl⟩ := Option.map_eq_some_iff.mp hr
    refine ⟨collected, hc, ?_⟩
    rw [status_parallelResult step collected hany] at hs
    cases ha : collected.all isCompleted with
    | true => exact List.all_eq_true.mp ha
    | false =>
        rw [ha] at hs
        exact absurd hs (by decide)
  · rintro ⟨collected, hc, hall⟩
    rw [hc, Option.map_some, Option.map_some, status_parallelResult step collected hany,
      List.all_eq_true.mpr hall]
    rfl

-- Without enough successes every child is collected, and the step fails.
theorem reported_short (order : List ℕ) (k : ℕ) (hn : digits.isNumeric step.waitFor.display.toList = true)
    (hk : digits.int step.waitFor.display.toList = some (k : ℤ)) (hle : k ≤ step.steps.length)
    (ho : order.Perm (List.range step.steps.length)) (hfew : completedChildren repr handler step < k) :
    reported repr digits handler step order =
      if (childResults repr handler step).all Option.isSome then some "failed" else none := by
  have hany := (numeric_words digits _ hn).2
  have hlength : (childResults repr handler step).length = step.steps.length := by simp [childResults]
  have hperm := seen_perm (childResults repr handler step) order (by rw [hlength]; exact ho)
  have hcount := hperm.countP_eq endsCompleted
  have hshort := collectCount_short k 0 (order.map (resultAt (childResults repr handler step)))
    (by rw [hcount, Nat.zero_add]; exact hfew)
  rw [reported, parallelStep_numeric repr digits handler step order k hn hk, hshort]
  cases hall : (childResults repr handler step).all Option.isSome with
  | false =>
      cases hm : (order.map (resultAt (childResults repr handler step))).mapM id with
      | none => rfl
      | some collected =>
          have hsome := isSome_of_mapM_id _ collected hm
          have : (childResults repr handler step).all Option.isSome = true :=
            List.all_eq_true.mpr fun result hr => hsome result (hperm.mem_iff.mpr hr)
          rw [hall] at this
          cases this
  | true =>
      obtain ⟨collected, hm, heq⟩ := mapM_id_eq_some (order.map (resultAt (childResults repr handler step)))
        fun result hr => List.all_eq_true.mp hall result (hperm.mem_iff.mp hr)
      rw [hm, Option.map_some, Option.map_some, status_parallelResult step collected hany]
      have hnot : collected.all isCompleted = false := by
        rw [← Bool.not_eq_true]
        intro hcompleted
        have hfull : (order.map (resultAt (childResults repr handler step))).countP endsCompleted =
            (order.map (resultAt (childResults repr handler step))).length := by
          rw [List.countP_eq_length, heq, List.forall_mem_map]
          exact List.all_eq_true.mp hcompleted
        have hsize := hperm.length_eq
        rw [completedChildren] at hfew
        omega
      rw [hnot]
      rfl

end Verdicts

section Quorum

variable (repr : Json → String) (digits : Digits) (handler : Json → ChildOutcome) (step : ParallelStep)

-- Two runs of a step that waits for `k` children agree on the quorum exactly when
-- no child that ends otherwise comes before the `k`-th success.
theorem quorum_exact (first second : List ℕ) (k : ℕ) (hn : digits.isNumeric step.waitFor.display.toList = true)
    (hk : digits.int step.waitFor.display.toList = some (k : ℤ)) (hpos : 1 ≤ k) (hle : k ≤ step.steps.length)
    (hfirst : first.Perm (List.range step.steps.length))
    (hsecond : second.Perm (List.range step.steps.length)) :
    (∃ status, reported repr digits handler step first = some status ∧
        reported repr digits handler step second = some status ∧
        (status = "completed" ↔ k ≤ completedChildren repr handler step)) ↔
      (k ≤ completedChildren repr handler step →
          ∀ index, index ∈ first.take k ∨ index ∈ second.take k →
            endsCompleted (resultAt (childResults repr handler step) index) = true) ∧
        (completedChildren repr handler step < k →
          ∀ result ∈ childResults repr handler step, result.isSome = true) := by
  have hcompleted (order : List ℕ) := reported_completed repr digits handler step order k hn hk hpos
  by_cases hmany : k ≤ completedChildren repr handler step
  · have hnot : ¬completedChildren repr handler step < k := by omega
    simp only [hmany, hnot, iff_true, true_implies, false_implies, and_true, or_imp, forall_and]
    constructor
    · rintro ⟨status, h1, h2, rfl⟩
      exact ⟨(hcompleted first).mp h1, (hcompleted second).mp h2⟩
    · rintro ⟨h1, h2⟩
      exact ⟨"completed", (hcompleted first).mpr h1, (hcompleted second).mpr h2, rfl⟩
  · have hfew : completedChildren repr handler step < k := by omega
    have hshort (order : List ℕ) := reported_short repr digits handler step order k hn hk hle
    simp only [hmany, hfew, iff_false, true_implies, false_implies, true_and]
    rw [hshort first hfirst hfew, hshort second hsecond hfew, ← List.all_eq_true]
    cases hall : (childResults repr handler step).all Option.isSome with
    | true => exact ⟨fun _ => rfl, fun _ => ⟨"failed", rfl, rfl, by decide⟩⟩
    | false => simp

end Quorum

section Cases

-- A child that fails, one that succeeds, and a quorum of one.
def oneOfTwo : ParallelStep where
  id := .str "s1"
  steps := [.str "a", .str "b"]
  waitFor := .int 1

def aFails : Json → ChildOutcome
  | .obj fields =>
      if ((Json.obj fields).get "id").text == "a" then .raised "ValueError" "boom"
      else .returned (.obj [("status", .str "completed")])
  | _ => .raised "TypeError" ""

def noRepr : Json → String := fun _ => ""

-- Two children of three are enough, in both orders before the one that fails.
def twoOfThree : ParallelStep where
  id := .str "s1"
  steps := [.str "a", .str "b", .str "c"]
  waitFor := .int 2

theorem quorum_exact_two :
    (∃ status, reported noRepr Digits.asciiDigits aFails twoOfThree [1, 2, 0] = some status ∧
      reported noRepr Digits.asciiDigits aFails twoOfThree [2, 1, 0] = some status ∧
      (status = "completed" ↔ 2 ≤ completedChildren noRepr aFails twoOfThree)) :=
  (quorum_exact noRepr Digits.asciiDigits aFails twoOfThree [1, 2, 0] [2, 1, 0] 2 (by decide) (by decide)
    (by decide) (by decide) (by decide) (by decide)).mpr (by
      refine ⟨fun _ index h => ?_, fun h => absurd h (by decide)⟩
      have hindex : index = 1 ∨ index = 2 := by
        simp only [List.take_succ_cons, List.take_zero, List.mem_cons, List.not_mem_nil, or_false] at h
        omega
      rcases hindex with rfl | rfl
      · decide
      · decide)

-- The order in which the same two children end decides the status.
theorem quorum_order :
    ¬∃ status, reported noRepr Digits.asciiDigits aFails oneOfTwo [0, 1] = some status ∧
      reported noRepr Digits.asciiDigits aFails oneOfTwo [1, 0] = some status ∧
      (status = "completed" ↔ 1 ≤ completedChildren noRepr aFails oneOfTwo) := by
  have hfirst : reported noRepr Digits.asciiDigits aFails oneOfTwo [0, 1] = some "failed" := by decide
  have hsecond : reported noRepr Digits.asciiDigits aFails oneOfTwo [1, 0] = some "completed" := by decide
  rintro ⟨status, h1, h2, -⟩
  rw [hfirst] at h1
  rw [hsecond, ← h1] at h2
  exact absurd h2 (by decide)

end Cases

end AgenticOrg.Workflows
