import AgenticOrg.Policy.Engine
import AgenticOrg.Policy.Loader.Theorems

namespace AgenticOrg.Policies

open OrderedDict Kleene Fallible

section Leaves

theorem mem_leavesOf (leaf : Compare) (items : List Condition) :
    leaf ∈ leavesOf items ↔ ∃ item ∈ items, leaf ∈ item.leaves := by
  induction items with
  | nil => simp [leavesOf]
  | cons item rest ih =>
      rw [leavesOf, List.mem_append, ih, List.exists_mem_cons_iff]

theorem Condition.Compiled.leaves (condition : Condition) (h : condition.Compiled) :
    ∀ leaf ∈ condition.leaves, leaf.Compiled := by
  induction h with
  | compare leaf h =>
      intro found hf
      rw [List.mem_singleton.mp hf]
      exact h
  | allOf items _ ih =>
      intro leaf hl
      obtain ⟨item, hi, hl⟩ := (mem_leavesOf leaf items).mp hl
      exact ih item hi leaf hl
  | anyOf items _ ih =>
      intro leaf hl
      obtain ⟨item, hi, hl⟩ := (mem_leavesOf leaf items).mp hl
      exact ih item hi leaf hl
  | not item _ ih => exact ih

theorem Policy.Compiled.leaves (policy : Policy) (h : policy.Compiled) :
    ∀ leaf ∈ policy.leaves, leaf.Compiled := by
  intro leaf hl
  obtain ⟨rule, hr, hl⟩ := List.mem_flatMap.mp hl
  exact (h.conditions rule hr).leaves _ leaf hl

end Leaves

section Index

variable (evidence : Evidence)

-- Every path of the index has the value its own segments lead to.
def Indexed (values : Values) : Prop :=
  ∀ path reading, values.get? path = some reading → reading = read evidence (segmentsOf path)

theorem Indexed.insert (values : Values) (h : Indexed evidence values) (path : String) :
    Indexed evidence (values.insert path (read evidence (segmentsOf path))) := by
  intro other reading hg
  by_cases he : path = other
  · rw [← he, Dict.get?_insert_self] at hg
    rw [← he]
    exact (Option.some.inj hg).symm
  · rw [Dict.get?_insert, if_neg (by simpa using he)] at hg
    exact h other reading hg

mutual

theorem indexPaths_indexed : ∀ (condition : Condition) (into : Values),
    (∀ leaf ∈ condition.leaves, leaf.segments = segmentsOf leaf.path) →
    Indexed evidence into → Indexed evidence (indexPaths evidence condition into)
  | .compare leaf, into, hs, h => by
      rw [indexPaths]
      split
      · exact h
      · rw [hs leaf (List.mem_singleton_self leaf)]
        exact h.insert evidence into leaf.path
  | .not item, into, hs, h => indexPaths_indexed item into hs h
  | .allOf items, into, hs, h => indexAll_indexed items into hs h
  | .anyOf items, into, hs, h => indexAll_indexed items into hs h
  | .foreign items, into, hs, h => indexAll_indexed items into hs h

theorem indexAll_indexed : ∀ (items : List Condition) (into : Values),
    (∀ leaf ∈ leavesOf items, leaf.segments = segmentsOf leaf.path) →
    Indexed evidence into → Indexed evidence (indexAll evidence items into)
  | [], _, _, h => h
  | item :: rest, into, hs, h =>
      indexAll_indexed rest _ (fun leaf hl => hs leaf (List.mem_append_right _ hl))
        (indexPaths_indexed item into (fun leaf hl => hs leaf (List.mem_append_left _ hl)) h)

end

mutual

theorem contains_indexPaths (path : String) : ∀ (condition : Condition) (into : Values),
    (indexPaths evidence condition into).contains path = true ↔
      into.contains path = true ∨ ∃ leaf ∈ condition.leaves, leaf.path = path
  | .compare leaf, into => by
      have hleaf : (∃ found ∈ (Condition.compare leaf).leaves, found.path = path) ↔ leaf.path = path := by
        simp [Condition.leaves]
      rw [indexPaths, hleaf]
      split
      · rename_i hc
        constructor
        · exact .inl
        · rintro (h | rfl)
          · exact h
          · exact hc
      · rw [Dict.contains_insert, Bool.or_eq_true, beq_iff_eq, or_comm]
  | .not item, into => contains_indexPaths path item into
  | .allOf items, into => contains_indexAll path items into
  | .anyOf items, into => contains_indexAll path items into
  | .foreign items, into => contains_indexAll path items into

theorem contains_indexAll (path : String) : ∀ (items : List Condition) (into : Values),
    (indexAll evidence items into).contains path = true ↔
      into.contains path = true ∨ ∃ leaf ∈ leavesOf items, leaf.path = path
  | [], into => by simp [indexAll, leavesOf]
  | item :: rest, into => by
      rw [indexAll, contains_indexAll path rest, contains_indexPaths path item, leavesOf]
      simp only [List.mem_append, or_and_right, exists_or, or_assoc]

end

theorem foldl_indexPaths_indexed (rules : List Rule) (into : Values)
    (hs : ∀ rule ∈ rules, ∀ leaf ∈ rule.when.leaves, leaf.segments = segmentsOf leaf.path)
    (h : Indexed evidence into) :
    Indexed evidence (rules.foldl (fun into rule => indexPaths evidence rule.when into) into) := by
  induction rules generalizing into with
  | nil => exact h
  | cons rule rest ih =>
      rw [List.foldl_cons]
      exact ih _ (fun other ho => hs other (List.mem_cons_of_mem _ ho))
        (indexPaths_indexed evidence rule.when into (hs rule List.mem_cons_self) h)

theorem contains_foldl_indexPaths (rules : List Rule) (into : Values) (path : String) :
    (rules.foldl (fun into rule => indexPaths evidence rule.when into) into).contains path = true ↔
      into.contains path = true ∨
        ∃ leaf ∈ rules.flatMap (fun rule => rule.when.leaves), leaf.path = path := by
  induction rules generalizing into with
  | nil => simp
  | cons rule rest ih =>
      rw [List.foldl_cons, ih, contains_indexPaths, List.flatMap_cons]
      simp only [List.mem_append, or_and_right, exists_or, or_assoc]

-- Whatever a condition reads is in the index.
theorem contains_indexRules (policy : Policy) (leaf : Compare) (hl : leaf ∈ policy.leaves) :
    (indexRules policy evidence).contains leaf.path = true :=
  (contains_foldl_indexPaths evidence policy.rules .empty leaf.path).mpr (.inr ⟨leaf, hl, rfl⟩)

theorem valueAt_indexRules (policy : Policy) (hc : policy.Compiled) (leaf : Compare)
    (hl : leaf ∈ policy.leaves) :
    valueAt (indexRules policy evidence) leaf.path = .ok (read evidence leaf.segments) := by
  have hin := contains_indexRules evidence policy leaf hl
  rw [← Dict.isSome_get?] at hin
  obtain ⟨reading, hg⟩ := Option.isSome_iff_exists.mp hin
  have hix : Indexed evidence (indexRules policy evidence) := by
    refine foldl_indexPaths_indexed evidence policy.rules .empty ?_ ?_
    · intro rule hr found hf
      exact ((hc.conditions rule hr).leaves _ found hf).segments
    · intro path reading hg
      cases hg
  rw [valueAt, hg, (hc.leaves _ leaf hl).segments]
  exact congrArg Except.ok (hix leaf.path reading hg)

end Index

section Meaning

mutual

-- What a condition comes to, given what its comparisons come to.
def Condition.meaning (verdict : Compare → Truth) : Condition → Truth
  | .compare leaf => verdict leaf
  | .not item => negate (item.meaning verdict)
  | .allOf items => all (meanings verdict items)
  | .anyOf items => any (meanings verdict items)
  | .foreign _ => none

def meanings (verdict : Compare → Truth) : List Condition → List Truth
  | [] => []
  | item :: rest => item.meaning verdict :: meanings verdict rest

end

mutual

-- Blurring some comparisons blurs the condition at most.
theorem blurs_meaning (verdict blurred : Compare → Truth) : ∀ (condition : Condition),
    (∀ leaf ∈ condition.leaves, Blurs (verdict leaf) (blurred leaf)) →
    Blurs (condition.meaning verdict) (condition.meaning blurred)
  | .compare leaf, h => h leaf (List.mem_singleton_self leaf)
  | .not item, h => Blurs.negate _ _ (blurs_meaning verdict blurred item h)
  | .allOf items, h => Blurs.all _ _ (blurs_meanings verdict blurred items h)
  | .anyOf items, h => Blurs.any _ _ (blurs_meanings verdict blurred items h)
  | .foreign _, _ => Blurs.refl none

theorem blurs_meanings (verdict blurred : Compare → Truth) : ∀ (items : List Condition),
    (∀ leaf ∈ leavesOf items, Blurs (verdict leaf) (blurred leaf)) →
    List.Forall₂ Blurs (meanings verdict items) (meanings blurred items)
  | [], _ => .nil
  | item :: rest, h =>
      .cons (blurs_meaning verdict blurred item fun leaf hl => h leaf (List.mem_append_left _ hl))
        (blurs_meanings verdict blurred rest fun leaf hl => h leaf (List.mem_append_right _ hl))

end

end Meaning

section Comparing

theorem number?_of_kind (value : Scalar) (h : value.kind = some .number) :
    ∃ number, value.number? = some number := by
  cases value with
  | bool value => cases h
  | int value => exact ⟨value, rfl⟩
  | float value =>
      cases value with
      | finite value => exact ⟨value, rfl⟩
      | negativeZero => exact ⟨0, rfl⟩
      | infinity negative => cases h
      | nan => cases h
  | str text => cases h

theorem equal_total (value bound : Scalar) (h : value.kind = bound.kind) :
    ∃ same, equal value bound = .ok same := by
  unfold equal
  rw [if_neg (not_not.mpr h)]
  split
  · exact ⟨_, rfl⟩
  · exact ⟨_, rfl⟩

theorem ordered_total (test : Rat → Rat → Bool) (value bound : Scalar)
    (hv : value.kind = some .number) (hb : bound.kind = some .number) :
    ∃ holds, ordered test value bound = .ok holds := by
  obtain ⟨a, ha⟩ := number?_of_kind value hv
  obtain ⟨b, hb'⟩ := number?_of_kind bound hb
  unfold ordered
  rw [if_neg (not_not.mpr (hv.trans hb.symm)), ha, hb']
  exact ⟨_, rfl⟩

theorem anyEqual_total (value : Scalar) (items : List Scalar)
    (h : ∀ item ∈ items, value.kind = item.kind) : ∃ found, anyEqual value items = .ok found := by
  induction items with
  | nil => exact ⟨false, rfl⟩
  | cons item rest ih =>
      obtain ⟨same, hs⟩ := equal_total value item (h item List.mem_cons_self)
      obtain ⟨found, hf⟩ := ih fun other ho => h other (List.mem_cons_of_mem _ ho)
      rw [anyEqual, hs]
      cases same with
      | true => exact ⟨true, rfl⟩
      | false => exact ⟨found, hf⟩

theorem compareMember_total (op : Operator) (operand : Operand) (kind : Kind) (hf : Fits op operand kind)
    (value : Scalar) (own : Kind) (hv : value.kind = some own) :
    ∃ truth, compareMember op operand value own = .ok truth := by
  obtain ⟨first, rest, hi⟩ := List.exists_cons_of_ne_nil hf.items
  have hkinds := hf.kinds
  rw [hi] at hkinds
  unfold compareMember
  rw [hi]
  dsimp only
  by_cases hk : some own = first.kind
  · have hsame : ∀ item ∈ first :: rest, value.kind = item.kind := by
      intro item hm
      rw [hv, hk, hkinds first List.mem_cons_self, hkinds item hm]
    obtain ⟨found, hfound⟩ := anyEqual_total value (first :: rest) hsame
    rw [if_neg (not_not.mpr hk), hfound]
    exact ⟨_, rfl⟩
  · rw [if_pos hk]
    exact ⟨none, rfl⟩

-- A scalar operand of the value's own kind: whichever of the six operators it is, it answers.
theorem compareScalar_total (op : Operator) (value bound : Scalar) (kind : Kind)
    (hv : value.kind = some kind) (hb : bound.kind = some kind)
    (hn : op ∈ NUMERIC_OPERATORS → kind = .number) (hp : op ∉ PRESENCE_OPERATORS)
    (hl : op ∉ LIST_OPERATORS) : ∃ holds, compareScalar op value bound = .ok holds := by
  have hequal := equal_total value bound (hv.trans hb.symm)
  have hordered (test : Rat → Rat → Bool) (hm : op ∈ NUMERIC_OPERATORS) :
      ∃ holds, ordered test value bound = .ok holds :=
    ordered_total test value bound (hn hm ▸ hv) (hn hm ▸ hb)
  cases op with
  | eq => exact hequal
  | ne =>
      obtain ⟨same, hs⟩ := hequal
      exact ⟨!same, by simp [compareScalar, hs, Except.map]⟩
  | gt => exact hordered _ (by decide)
  | gte => exact hordered _ (by decide)
  | lt => exact hordered _ (by decide)
  | lte => exact hordered _ (by decide)
  | isIn => exact absurd (by decide) hl
  | notIn => exact absurd (by decide) hl
  | exist => exact absurd (by decide) hp
  | missing => exact absurd (by decide) hp

theorem kind_of_usable (reading : Reading) (value : Scalar) (kind : Kind)
    (h : reading.usable = some (value, kind)) :
    reading = .found (.scalar value) ∧ value.kind = some kind := by
  unfold Reading.usable at h
  split at h
  · rename_i found
    obtain ⟨own, hk, he⟩ := Option.map_eq_some_iff.mp h
    cases he
    exact ⟨rfl, hk⟩
  · cases h

theorem compareReading_total (op : Operator) (operand : Operand) (kind : Kind) (hf : Fits op operand kind)
    (reading : Reading) : ∃ truth, compareReading op operand reading = .ok truth := by
  unfold compareReading
  split
  · exact ⟨none, rfl⟩
  · split
    · exact ⟨_, rfl⟩
    · rename_i hexist
      split
      · exact ⟨_, rfl⟩
      · rename_i hmissing
        split
        · exact ⟨none, rfl⟩
        · rename_i value own hu
          obtain ⟨_, hv⟩ := kind_of_usable _ value own hu
          split
          · exact compareMember_total op operand kind hf value own hv
          · rename_i hlist
            have hl : op ∉ LIST_OPERATORS := by simpa [LIST_OPERATORS] using hlist
            obtain ⟨bound, rfl⟩ := hf.scalar hl
            have hb : bound.kind = some kind := hf.kinds bound (List.mem_singleton_self bound)
            dsimp only
            split
            · exact ⟨none, rfl⟩
            · rename_i hk
              have hown : own = kind := Option.some.inj ((not_not.mp hk).trans hb)
              obtain ⟨holds, hh⟩ := compareScalar_total op value bound kind (hown ▸ hv) hb hf.number
                (by simp [PRESENCE_OPERATORS, hexist, hmissing]) hl
              rw [hh]
              exact ⟨some holds, rfl⟩

-- What a comparison says of the evidence.
def verdict (evidence : Evidence) (leaf : Compare) : Truth :=
  match compareReading leaf.op leaf.operand (read evidence leaf.segments) with
  | .ok truth => truth
  | .error _ => none

theorem compareReading_eq_verdict (evidence : Evidence) (leaf : Compare) (h : leaf.Compiled) :
    compareReading leaf.op leaf.operand (read evidence leaf.segments) = .ok (verdict evidence leaf) := by
  obtain ⟨kind, hf⟩ := h.operand
  obtain ⟨truth, ht⟩ := compareReading_total leaf.op leaf.operand kind hf (read evidence leaf.segments)
  rw [verdict, ht]

end Comparing

section Truth

variable (evidence : Evidence) (values : Values)

theorem truths_eq_meanings (items : List Condition)
    (h : ∀ item ∈ items, ∀ unresolved, ∃ paths,
      truth values item unresolved = .ok (item.meaning (verdict evidence), paths))
    (unresolved : List String) :
    ∃ paths, truths values items unresolved = .ok (meanings (verdict evidence) items, paths) := by
  induction items generalizing unresolved with
  | nil => exact ⟨unresolved, rfl⟩
  | cons item rest ih =>
      obtain ⟨paths, hp⟩ := h item List.mem_cons_self unresolved
      obtain ⟨others, ho⟩ := ih (fun other hm => h other (List.mem_cons_of_mem _ hm)) paths
      refine ⟨others, ?_⟩
      rw [truths, hp, ok_bind]
      dsimp only
      rw [ho, ok_bind]
      rfl

-- The engine computes what the condition means, over an index that has all its paths.
theorem truth_eq_meaning (condition : Condition) (hc : condition.Compiled)
    (hv : ∀ leaf ∈ condition.leaves, valueAt values leaf.path = .ok (read evidence leaf.segments))
    (unresolved : List String) :
    ∃ paths, truth values condition unresolved = .ok (condition.meaning (verdict evidence), paths) := by
  induction hc generalizing unresolved with
  | compare leaf hleaf =>
      rw [truth, compare, hv leaf (List.mem_singleton_self leaf), ok_bind,
        compareReading_eq_verdict evidence leaf hleaf, ok_bind]
      exact ⟨_, rfl⟩
  | allOf items _ ih =>
      have hitems : ∀ item ∈ items, ∀ unresolved, ∃ paths,
          truth values item unresolved = .ok (item.meaning (verdict evidence), paths) := by
        intro item hi
        exact ih item hi fun leaf hl => hv leaf ((mem_leavesOf leaf items).mpr ⟨item, hi, hl⟩)
      obtain ⟨paths, hp⟩ := truths_eq_meanings evidence values items hitems unresolved
      rw [truth, hp]
      exact ⟨paths, rfl⟩
  | anyOf items _ ih =>
      have hitems : ∀ item ∈ items, ∀ unresolved, ∃ paths,
          truth values item unresolved = .ok (item.meaning (verdict evidence), paths) := by
        intro item hi
        exact ih item hi fun leaf hl => hv leaf ((mem_leavesOf leaf items).mpr ⟨item, hi, hl⟩)
      obtain ⟨paths, hp⟩ := truths_eq_meanings evidence values items hitems unresolved
      rw [truth, hp]
      exact ⟨paths, rfl⟩
  | not item _ ih =>
      obtain ⟨paths, hp⟩ := ih hv unresolved
      rw [truth, hp]
      exact ⟨paths, rfl⟩

end Truth

section Firing

-- A rule fires unless its condition is false.
def Rule.fires (evidence : Evidence) (rule : Rule) : Bool :=
  rule.when.meaning (verdict evidence) != some false

-- What a rule puts into the result when it fires.
def Rule.yields (rule : Rule) : String × Tier × Int := (rule.ruleId, rule.effect.tier, rule.effect.score)

def PolicyReason.yields (reason : PolicyReason) : String × Tier × Int :=
  (reason.ruleId, reason.tier, reason.score)

theorem fireRules_eq (evidence : Evidence) (values : Values) (rules : List Rule)
    (hc : ∀ rule ∈ rules, rule.when.Compiled)
    (hv : ∀ rule ∈ rules, ∀ leaf ∈ rule.when.leaves,
      valueAt values leaf.path = .ok (read evidence leaf.segments)) (index : Nat) :
    ∃ fired, fireRules values index rules = .ok fired ∧
      fired.map (fun entry => entry.2.yields) =
        (rules.filter fun rule => rule.fires evidence).map Rule.yields := by
  induction rules generalizing index with
  | nil => exact ⟨[], rfl, rfl⟩
  | cons rule rest ih =>
      obtain ⟨fired, hf, hy⟩ := ih (fun other ho => hc other (List.mem_cons_of_mem _ ho))
        (fun other ho => hv other (List.mem_cons_of_mem _ ho)) (index + 1)
      obtain ⟨paths, hp⟩ := truth_eq_meaning evidence values rule.when (hc rule List.mem_cons_self)
        (hv rule List.mem_cons_self) []
      rw [fireRules, hp, ok_bind, hf, ok_bind]
      refine ⟨_, rfl, ?_⟩
      by_cases hfalse : rule.when.meaning (verdict evidence) = some false
      · have hno : rule.fires evidence = false := by simp [Rule.fires, hfalse]
        rw [List.filter_cons_of_neg (by simp [hno]), reasonOf, if_pos hfalse]
        exact hy
      · have hyes : rule.fires evidence = true := by simp [Rule.fires, hfalse]
        rw [List.filter_cons_of_pos hyes, reasonOf, if_neg hfalse, List.map_cons, List.map_cons, hy]
        rfl

end Firing

section Hashing

variable (py : Python)

theorem two_pow_lt_ten_pow (digits : Nat) (h : 16 ≤ digits) : 2 ^ 53 < 10 ^ digits :=
  calc 2 ^ 53 < 10 ^ 16 := by decide
    _ ≤ 10 ^ digits := Nat.pow_le_pow_right (by decide) h

theorem json_of_kind (value : Scalar) (kind : Kind) (h : value.kind = some kind) :
    ∃ shown, value.json py = .ok shown := by
  cases value with
  | bool value => exact ⟨_, rfl⟩
  | int value =>
      have hsmall : value.natAbs < 10 ^ MAX_INT_DIGITS := by
        have hr : -MAX_SAFE_INTEGER ≤ value ∧ value ≤ MAX_SAFE_INTEGER := by
          by_contra hno
          rw [Scalar.kind, if_neg hno] at h
          cases h
        have hbound : value.natAbs ≤ 2 ^ 53 := by
          have hm : MAX_SAFE_INTEGER = 2 ^ 53 := rfl
          rw [hm] at hr
          omega
        exact lt_of_le_of_lt hbound (two_pow_lt_ten_pow MAX_INT_DIGITS (by decide))
      rw [Scalar.json, if_neg (Nat.not_le_of_lt hsmall)]
      exact ⟨_, rfl⟩
  | float value =>
      cases value with
      | finite value => exact ⟨_, rfl⟩
      | negativeZero => exact ⟨_, rfl⟩
      | infinity negative => cases h
      | nan => cases h
  | str text => exact ⟨_, rfl⟩

theorem json_snapshot (reading : Reading) : ∃ shown, (snapshot reading).json py = .ok shown := by
  unfold snapshot
  split
  · exact ⟨_, rfl⟩
  · exact ⟨_, rfl⟩
  · split
    · rename_i value _ _ kind hk
      exact json_of_kind py value kind hk
    · exact ⟨_, rfl⟩
    · exact ⟨_, rfl⟩
    · exact ⟨_, rfl⟩
  · exact ⟨_, rfl⟩
  · exact ⟨_, rfl⟩
  · exact ⟨_, rfl⟩

theorem canonicalHash_total (inputs : List (String × JsonValue))
    (h : ∀ input ∈ inputs, ∃ shown, input.2.json py = .ok shown) :
    ∃ hash, canonicalHash py inputs = .ok hash := by
  choose! shown hs using h
  have hmembers := mapM_eq_map
    (fun input : String × JsonValue => do
      let shown ← input.2.json py
      pure (py.quote input.1 ++ ":" ++ shown))
    (fun input => py.quote input.1 ++ ":" ++ shown input)
    (inputs.insertionSort fun a b => a.1 ≤ b.1)
    (by
      intro input hi
      rw [hs input ((List.perm_insertionSort _ _).mem_iff.mp hi)]
      rfl)
  rw [canonicalHash, hmembers]
  exact ⟨_, rfl⟩

end Hashing

section Evaluating

variable (py : Python)

theorem valueAt_referenced (policy : Policy) (hc : policy.Compiled) (evidence : Evidence) (path : String)
    (hp : path ∈ policy.referencedPaths) :
    valueAt (indexRules policy evidence) path = .ok (read evidence (segmentsOf path)) := by
  obtain ⟨leaf, hl, rfl⟩ := (hc.paths path).mp hp
  rw [valueAt_indexRules evidence policy hc leaf hl, (hc.leaves _ leaf hl).segments]

-- What a compiled policy gives on any mapping: the reasons of the rules that fire, in some
-- order, with the score and the tier that follow from them.
theorem evaluate_ok (policy : Policy) (hc : policy.Compiled) (entries : List (String × Option Evidence)) :
    ∃ result, evaluate py policy (.mapping entries) = .ok result ∧
      (result.reasons.map PolicyReason.yields).Perm
        ((policy.rules.filter fun rule => rule.fires (.mapping entries)).map Rule.yields) ∧
      result.firedRules = result.reasons.map (·.ruleId) ∧
      result.score = scoreOf result.reasons ∧
      result.tier =
        (escalate result.score policy.scoreThresholds (tierOfReasons result.reasons, "rules")).1 ∧
      ∀ input ∈ result.inputs, ∃ shown, input.2.json py = .ok shown := by
  have hreadings := mapM_eq_map
    (fun path => do
      let reading ← valueAt (indexRules policy (.mapping entries)) path
      pure (path, reading))
    (fun path => (path, read (.mapping entries) (segmentsOf path))) policy.referencedPaths
    (by
      intro path hp
      rw [valueAt_referenced policy hc (.mapping entries) path hp]
      rfl)
  obtain ⟨fired, hf, hy⟩ := fireRules_eq (.mapping entries) (indexRules policy (.mapping entries))
    policy.rules hc.conditions
    (fun rule hr leaf hl =>
      valueAt_indexRules (.mapping entries) policy hc leaf (List.mem_flatMap.mpr ⟨rule, hr, hl⟩)) 0
  have hjson : ∀ input ∈ (policy.referencedPaths.map fun path =>
        (path, read (.mapping entries) (segmentsOf path))).map
          (fun entry => (entry.1, snapshot entry.2)),
      ∃ shown, input.2.json py = .ok shown := by
    intro input hi
    obtain ⟨⟨path, reading⟩, _, rfl⟩ := List.mem_map.mp hi
    exact json_snapshot py reading
  obtain ⟨hash, hh⟩ := canonicalHash_total py _ hjson
  have hperm : (((fired.insertionSort Before).map Prod.snd).map PolicyReason.yields).Perm
      ((policy.rules.filter fun rule => rule.fires (.mapping entries)).map Rule.yields) := by
    rw [← hy, List.map_map]
    exact (List.perm_insertionSort Before fired).map _
  rw [evaluate]
  dsimp only
  rw [hreadings, ok_bind, hf, ok_bind, hh, ok_bind]
  exact ⟨_, rfl, hperm, rfl, rfl, rfl, hjson⟩

end Evaluating

end AgenticOrg.Policies
