import AgenticOrg.Lib.Fallible
import AgenticOrg.Workflows.Conditions
import AgenticOrg.Workflows.Digits

namespace AgenticOrg.Workflows

open Directive Kleene Fallible

namespace Conditions

section Operands

-- The expressions without keywords that an evaluation comes to.
def leaves : ℕ → Text → List Leaf
  | 0, _ => []
  | fuel + 1, text =>
      let expression := strip text
      let below (parts : List Text) := if parts.any unbalancedQuotes then [] else parts.flatMap (leaves fuel)
      if expression.isEmpty then []
      else
        match splitKeyword expression .or, splitKeyword expression .and with
        | some parts, _ => below parts
        | none, some parts => below parts
        | none, none =>
            if startsWithNot expression then leaves fuel (expression.drop 4) else [leafOf expression]

-- The operands that may become known, and those that may not.
def Leaf.open_ : Leaf → List Text
  | membership left right _ => left :: if isLiteral right then [] else [right]
  | comparison _ left _ => [left]
  | _ => []

def Leaf.fixed : Leaf → List Text
  | comparison _ _ right => [right]
  | word text => [text]
  | _ => []

variable (world : World) (before after : world.Value)

-- The second context knows what the first knows of the operands of a leaf, and maybe
-- more: a field on the left, or a list.
def Extends (leaf : Leaf) : Prop :=
  (∀ token ∈ leaf.open_, ∀ value, resolve world before token = some value → resolve world after token = some value) ∧
    ∀ token ∈ leaf.fixed, resolve world after token = resolve world before token

end Operands

section Conversions

variable (world : World) (context : world.Value)

-- Two values can be converted: to numbers, or else, when they are compared as
-- texts, to texts.
def Converts (asTexts : Bool) (left right : world.Value) : Prop :=
  (∃ found, floats world left right = .ok found) ∧
    (floats world left right = .ok none → asTexts = true → ∃ found, texts world left right = .ok found)

-- The members up to the first that equals the value can be converted.
def MembersConvert (value : world.Value) : List world.Value → Prop
  | [] => True
  | member :: rest =>
      Converts world true value member ∧ (valuesEqual world value member = .ok true ∨ MembersConvert value rest)

-- No operand of a leaf is a value that `float()` or `str()` fails on with an
-- exception of another kind.
def Leaf.Converts : Leaf → Prop
  | membership left right _ => ∀ value members, resolve world context left = some value →
      parseList world right context = .ok (some members) → MembersConvert world value members
  | comparison op left right => ∀ value, resolve world context left = some value →
      wordBeside world value ((resolve world context right).getD (world.ofText (strip right))) = none →
        Conditions.Converts world (!op.ordering) value
          ((resolve world context right).getD (world.ofText (strip right)))
  | _ => True

theorem floats_cases (left right : world.Value) :
    (∃ fault, floats world left right = .error fault) ∨ floats world left right = .ok none ∨
      ∃ pair, floats world left right = .ok (some pair) := by
  cases floats world left right with
  | error fault => exact .inl ⟨fault, rfl⟩
  | ok found =>
      cases found with
      | none => exact .inr (.inl rfl)
      | some pair => exact .inr (.inr ⟨pair, rfl⟩)

theorem valuesEqual_ok (left right : world.Value) :
    (∃ found, valuesEqual world left right = .ok found) ↔ Converts world true left right := by
  rw [Converts, valuesEqual]
  rcases floats_cases world left right with ⟨fault, hf⟩ | hf | ⟨pair, hf⟩
  · rw [hf]
    constructor
    · rintro ⟨found, h⟩
      cases h
    · rintro ⟨⟨found, h⟩, -⟩
      cases h
  · rw [hf]
    simp only [ok_bind]
    constructor
    · rintro ⟨found, h⟩
      obtain ⟨pair, ht, -⟩ := (bind_ok _ _ _).mp h
      exact ⟨⟨none, rfl⟩, fun _ _ => ⟨pair, ht⟩⟩
    · rintro ⟨-, h⟩
      obtain ⟨pair, ht⟩ := h trivial trivial
      exact ⟨pair.1 == pair.2, (bind_ok _ _ _).mpr ⟨pair, ht, rfl⟩⟩
  · rw [hf]
    constructor
    · exact fun _ => ⟨⟨some pair, rfl⟩, fun h => by cases h⟩
    · exact fun _ => ⟨world.floatOp .eq pair.1 pair.2, rfl⟩

theorem anyEqual_ok (value : world.Value) (members : List world.Value) :
    (∃ found, anyEqual world value members = .ok found) ↔ MembersConvert world value members := by
  induction members with
  | nil => exact ⟨fun _ => trivial, fun _ => ⟨false, rfl⟩⟩
  | cons member rest ih =>
      rw [anyEqual, MembersConvert, ← valuesEqual_ok]
      cases hv : valuesEqual world value member with
      | error fault =>
          constructor
          · rintro ⟨found, h⟩
            cases h
          · rintro ⟨⟨found, h⟩, -⟩
            cases h
      | ok same =>
          cases same with
          | true => exact ⟨fun _ => ⟨⟨true, rfl⟩, .inl rfl⟩, fun _ => ⟨true, rfl⟩⟩
          | false =>
              show (∃ found, anyEqual world value rest = .ok found) ↔ _
              rw [ih]
              constructor
              · exact fun h => ⟨⟨false, rfl⟩, .inr h⟩
              · rintro ⟨-, h | h⟩
                · cases h
                · exact h

theorem compareValues_ok (op : Op) (left right : world.Value) :
    (∃ found, compareValues world op left right = .ok found) ↔
      (wordBeside world left right = none → Converts world (!op.ordering) left right) := by
  rw [compareValues]
  cases hw : wordBeside world left right with
  | some pair => exact ⟨fun _ h => (by cases h), fun _ => ⟨_, rfl⟩⟩
  | none =>
      rw [Converts]
      rcases floats_cases world left right with ⟨fault, hf⟩ | hf | ⟨pair, hf⟩
      · rw [hf]
        constructor
        · rintro ⟨found, h⟩
          cases h
        · intro h
          obtain ⟨found, h⟩ := (h rfl).1
          cases h
      · rw [hf]
        simp only [ok_bind]
        cases ho : op.ordering with
        | true => exact ⟨fun _ _ => ⟨⟨none, rfl⟩, fun _ h => (by cases h)⟩, fun _ => ⟨_, rfl⟩⟩
        | false =>
            constructor
            · rintro ⟨found, h⟩
              obtain ⟨pair, ht, -⟩ := (bind_ok _ _ _).mp h
              exact fun _ => ⟨⟨none, rfl⟩, fun _ _ => ⟨pair, ht⟩⟩
            · intro h
              obtain ⟨pair, ht⟩ := (h trivial).2 trivial rfl
              exact ⟨some (sameOp op pair.1 pair.2), (bind_ok _ _ _).mpr ⟨pair, ht, rfl⟩⟩
      · rw [hf]
        exact ⟨fun _ _ => ⟨⟨some pair, rfl⟩, fun h => (by cases h)⟩, fun _ => ⟨_, rfl⟩⟩

end Conversions

section Leaves

variable (world : World) (before after : world.Value)

-- Of a leaf, more knowledge gives the same truth, or one where there was none.
theorem blurs_leaf (leaf : Leaf) (truth blurred : Truth) (he : Extends world before after leaf)
    (hb : evaluateLeaf world before leaf = .ok blurred) (ha : evaluateLeaf world after leaf = .ok truth) :
    Blurs truth blurred := by
  cases leaf with
  | malformed =>
      cases hb
      exact .inl rfl
  | word text =>
      have hsame := he.2 text List.mem_cons_self
      rw [evaluateLeaf, evaluateWord, hsame] at ha
      rw [evaluateLeaf, evaluateWord, ha] at hb
      cases hb
      exact Blurs.refl truth
  | comparison op left right =>
      rw [evaluateLeaf] at hb ha
      cases hv : resolve world before left with
      | none =>
          rw [hv] at hb
          cases hb
          exact .inl rfl
      | some value =>
          have hleft := he.1 left List.mem_cons_self value hv
          have hright := he.2 right List.mem_cons_self
          rw [hleft] at ha
          rw [hv] at hb
          have hsame : compare world op value right after = compare world op value right before := by
            rw [compare, compare, hright]
          have hb' : compare world op value right before = .ok blurred := hb
          have ha' : compare world op value right after = .ok truth := ha
          rw [hsame, hb'] at ha'
          exact .inr (Except.ok.inj ha')
  | membership left right negate =>
      rw [evaluateLeaf] at hb ha
      obtain ⟨known, hkb, hb⟩ := (bind_ok _ _ _).mp hb
      obtain ⟨members, hka, ha⟩ := (bind_ok _ _ _).mp ha
      cases hv : resolve world before left with
      | none =>
          rw [hv] at hb
          cases hb
          exact .inl rfl
      | some value =>
          have hleft := he.1 left List.mem_cons_self value hv
          cases known with
          | none =>
              rw [hv] at hb
              cases hb
              exact .inl rfl
          | some items =>
              have hitems : members = some items := by
                rw [parseList] at hkb hka
                by_cases hl : isLiteral right = true
                · rw [if_pos hl] at hkb hka
                  exact Except.ok.inj (hka.symm.trans hkb)
                · rw [if_neg hl] at hkb hka
                  obtain ⟨found, hf, hi⟩ := Option.bind_eq_some_iff.mp (Except.ok.inj hkb)
                  have hmem : right ∈ (Leaf.membership left right negate).open_ := by simp [Leaf.open_, hl]
                  rw [he.1 right hmem found hf, Option.bind_some, hi] at hka
                  exact (Except.ok.inj hka).symm
              rw [hv] at hb
              rw [hleft, hitems] at ha
              exact .inr (Except.ok.inj (hb.symm.trans ha))

-- With more knowledge a leaf is still evaluated, when its values can be converted.
theorem leaf_ok (leaf : Leaf) (blurred : Truth) (he : Extends world before after leaf)
    (hb : evaluateLeaf world before leaf = .ok blurred) :
    (∃ truth, evaluateLeaf world after leaf = .ok truth) ↔ leaf.Converts world after := by
  cases leaf with
  | malformed => exact ⟨fun _ => trivial, fun _ => ⟨none, rfl⟩⟩
  | word text => exact ⟨fun _ => trivial, fun _ => ⟨_, rfl⟩⟩
  | comparison op left right =>
      rw [evaluateLeaf, Leaf.Converts]
      cases resolve world after left with
      | none => exact ⟨fun _ value hv => (by cases hv), fun _ => ⟨none, rfl⟩⟩
      | some value =>
          simp only [Option.some.injEq, forall_eq']
          exact compareValues_ok world op value _
  | membership left right negate =>
      have hlist : ∃ members, parseList world right after = .ok members := by
        rw [evaluateLeaf] at hb
        obtain ⟨known, hk, -⟩ := (bind_ok _ _ _).mp hb
        rw [parseList] at hk ⊢
        by_cases hl : isLiteral right = true
        · rw [if_pos hl] at hk ⊢
          exact ⟨known, hk⟩
        · rw [if_neg hl]
          exact ⟨_, rfl⟩
      obtain ⟨members, hm⟩ := hlist
      rw [evaluateLeaf, Leaf.Converts, hm, ok_bind]
      cases resolve world after left with
      | none => exact ⟨fun _ value _ hv => (by cases hv), fun _ => ⟨none, rfl⟩⟩
      | some value =>
          cases members with
          | none => exact ⟨fun _ _ _ _ h => (by cases h), fun _ => ⟨none, rfl⟩⟩
          | some items =>
              have hany := anyEqual_ok world value items
              constructor
              · rintro ⟨truth, ht⟩ found list hf hl
                cases hf
                cases hl
                obtain ⟨same, hs, -⟩ := (bind_ok _ _ _).mp ht
                exact hany.mp ⟨same, hs⟩
              · intro h
                obtain ⟨same, hs⟩ := hany.mpr (h value items rfl rfl)
                exact ⟨some (same != negate), (bind_ok _ _ _).mpr ⟨same, hs, rfl⟩⟩

end Leaves

section Evaluation

variable (world : World)

theorem combine_ok (together : List Truth → Truth) (run : Text → Except String Truth) (parts : List Text)
    (truth : Truth) (hq : parts.any unbalancedQuotes = false) :
    combine together run parts = .ok truth ↔ ∃ truths, parts.mapM run = .ok truths ∧ together truths = truth := by
  rw [combine, hq, if_neg (by simp), map_ok]

-- Whatever was evaluated, its leaves were.
theorem leaves_ok (context : world.Value) (fuel : ℕ) (text : Text) (truth : Truth)
    (h : evaluate world context fuel text = .ok truth) :
    ∀ leaf ∈ leaves fuel text, ∃ found, evaluateLeaf world context leaf = .ok found := by
  induction fuel generalizing text truth with
  | zero => exact fun _ hl => absurd hl List.not_mem_nil
  | succ fuel ih =>
      have hparts (together : List Truth → Truth) (parts : List Text)
          (hc : combine together (evaluate world context fuel) parts = .ok truth) :
          ∀ leaf ∈ if parts.any unbalancedQuotes then [] else parts.flatMap (leaves fuel),
            ∃ found, evaluateLeaf world context leaf = .ok found := by
        cases hq : parts.any unbalancedQuotes with
        | true => exact fun _ hl => absurd hl List.not_mem_nil
        | false =>
            intro leaf hl
            rw [if_neg (by simp), List.mem_flatMap] at hl
            obtain ⟨part, hp, hl⟩ := hl
            obtain ⟨truths, hm, -⟩ := (combine_ok together _ parts truth hq).mp hc
            obtain ⟨found, hf⟩ := ok_of_mapM_ok _ parts truths hm part hp
            exact ih part found hf leaf hl
      rw [evaluate] at h
      rw [leaves]
      by_cases hempty : (strip text).isEmpty = true
      · rw [if_pos hempty]
        exact fun _ hl => absurd hl List.not_mem_nil
      · rw [if_neg hempty] at h ⊢
        cases hor : splitKeyword (strip text) .or with
        | some parts =>
            rw [hor] at h
            exact hparts any parts h
        | none =>
            rw [hor] at h
            cases hand : splitKeyword (strip text) .and with
            | some parts =>
                rw [hand] at h
                exact hparts all parts h
            | none =>
                rw [hand] at h
                by_cases hn : startsWithNot (strip text) = true
                · rw [if_pos hn] at h ⊢
                  obtain ⟨inner, hi, -⟩ := (map_ok _ _ _).mp h
                  exact ih _ inner hi
                · rw [if_neg hn] at h ⊢
                  intro leaf hl
                  rw [List.mem_singleton.mp hl]
                  exact ⟨truth, h⟩

-- With more knowledge, the truth is the same or there was none.
theorem blurs_evaluate (before after : world.Value) (fuel : ℕ) (text : Text) (blurred : Truth)
    (he : ∀ leaf ∈ leaves fuel text, Extends world before after leaf)
    (hc : ∀ leaf ∈ leaves fuel text, leaf.Converts world after)
    (hb : evaluate world before fuel text = .ok blurred) :
    ∃ truth, evaluate world after fuel text = .ok truth ∧ Blurs truth blurred := by
  induction fuel generalizing text blurred with
  | zero => exact ⟨none, rfl, .inl (Except.ok.inj hb).symm⟩
  | succ fuel ih =>
      have hparts (together : List Truth → Truth) (parts : List Text)
          (hblurs : ∀ truths blurred, List.Forall₂ Blurs truths blurred → Blurs (together truths) (together blurred))
          (hl : ∀ leaf ∈ if parts.any unbalancedQuotes then [] else parts.flatMap (leaves fuel),
            Extends world before after leaf ∧ leaf.Converts world after)
          (hcb : combine together (evaluate world before fuel) parts = .ok blurred) :
          ∃ truth, combine together (evaluate world after fuel) parts = .ok truth ∧ Blurs truth blurred := by
        cases hq : parts.any unbalancedQuotes with
        | true =>
            rw [combine, hq] at hcb ⊢
            exact ⟨none, rfl, .inl (Except.ok.inj hcb).symm⟩
        | false =>
            rw [hq, if_neg (by simp)] at hl
            obtain ⟨truths, hm, rfl⟩ := (combine_ok together _ parts blurred hq).mp hcb
            obtain ⟨found, hf, hrel⟩ := mapM_forall₂ (evaluate world before fuel) (evaluate world after fuel)
              (fun blurred truth => Blurs truth blurred) parts truths
              (fun part hp blurred hpart => ih part blurred
                (fun leaf hleaf => (hl leaf (List.mem_flatMap.mpr ⟨part, hp, hleaf⟩)).1)
                (fun leaf hleaf => (hl leaf (List.mem_flatMap.mpr ⟨part, hp, hleaf⟩)).2) hpart) hm
            exact ⟨together found, (combine_ok together _ parts _ hq).mpr ⟨found, hf, rfl⟩,
              hblurs found truths hrel.flip⟩
      rw [evaluate] at hb ⊢
      rw [leaves] at he hc
      by_cases hempty : (strip text).isEmpty = true
      · rw [if_pos hempty] at hb ⊢
        exact ⟨none, rfl, .inl (Except.ok.inj hb).symm⟩
      · rw [if_neg hempty] at hb he hc ⊢
        cases hor : splitKeyword (strip text) .or with
        | some parts =>
            rw [hor] at hb he hc
            exact hparts any parts Blurs.any (fun leaf hl => ⟨he leaf hl, hc leaf hl⟩) hb
        | none =>
            rw [hor] at hb he hc
            cases hand : splitKeyword (strip text) .and with
            | some parts =>
                rw [hand] at hb he hc
                exact hparts all parts Blurs.all (fun leaf hl => ⟨he leaf hl, hc leaf hl⟩) hb
            | none =>
                rw [hand] at hb he hc
                by_cases hn : startsWithNot (strip text) = true
                · rw [if_pos hn] at hb he hc ⊢
                  obtain ⟨inner, hi, rfl⟩ := (map_ok _ _ _).mp hb
                  obtain ⟨truth, ht, hblur⟩ := ih _ inner he hc hi
                  exact ⟨negate truth, (map_ok _ _ _).mpr ⟨truth, ht, rfl⟩, hblur.negate⟩
                · rw [if_neg hn] at hb he hc ⊢
                  have hext := he _ (List.mem_singleton_self _)
                  obtain ⟨truth, ht⟩ := (leaf_ok world before after _ blurred hext hb).mpr
                    (hc _ (List.mem_singleton_self _))
                  exact ⟨truth, ht, blurs_leaf world before after _ truth blurred hext hb ht⟩

end Evaluation

section Monotonicity

variable (world : World)

def evaluatedLeaves (expression : Text) : List Leaf := leaves (expression.length + 1) expression

-- A decision stands when a field becomes known, unless a value it is compared with
-- cannot be converted.
theorem knowledge_exact (before after : world.Value) (expression : Text) (value : Bool)
    (he : ∀ leaf ∈ evaluatedLeaves expression, Extends world before after leaf)
    (hb : evaluateConditionStrict world before expression = .ok (some value)) :
    evaluateConditionStrict world after expression = .ok (some value) ↔
      ∀ leaf ∈ evaluatedLeaves expression, leaf.Converts world after := by
  have hbefore := leaves_ok world before _ expression _ hb
  constructor
  · intro ha leaf hl
    obtain ⟨blurred, hblurred⟩ := hbefore leaf hl
    exact (leaf_ok world before after leaf blurred (he leaf hl) hblurred).mp (leaves_ok world after _ expression _ ha leaf hl)
  · intro hc
    obtain ⟨truth, ht, hblur⟩ := blurs_evaluate world before after _ expression (some value) he hc hb
    rcases hblur with h | h
    · cases h
    · rw [h]
      exact ht

end Monotonicity

section Cases

-- `2 ^ 1024`, above every float.
def FLOAT_LIMIT : ℕ := (2 ^ 256) ^ 4

-- `10 ^ 400`
def TOO_LARGE : ℤ := (10 ^ 200) ^ 2

-- Contexts of JSON values, with the numbers that are whole.
def jsonWorld : World where
  Value := Json
  Float := ℤ
  Date := Unit
  lookup value key := value.get? (String.ofList key)
  ofText text := .str (String.ofList text)
  text? value := match value with
    | .scalar (.str text) => some text.toList
    | _ => none
  bool? value := match value with
    | .scalar (.bool flag) => some flag
    | _ => none
  items? value := match value with
    | .arr items => some items
    | _ => none
  truthy := Json.truthy
  float value := match value with
    | .scalar (.int n) => if n.natAbs < FLOAT_LIMIT then .ok (some n) else .error "OverflowError"
    | .scalar (.bool flag) => .ok (some (if flag then 1 else 0))
    | .scalar (.str text) => .ok (Digits.asciiDigits.int text.toList)
    | _ => .ok none
  str value := match value with
    | .scalar value => .ok value.display.toList
    | _ => .ok []
  floatOp op x y := match op with
    | .gt => y < x
    | .lt => x < y
    | .ge => y ≤ x
    | .le => x ≤ y
    | .eq => x = y
    | .ne => x ≠ y
  isDigit := Char.isDigit
  fromIsoFormat _ := none
  dateOp _ _ _ := none
  literalEval _ := .ok none

-- `a == 1 OR b > 5`
def oneOrMany : Text := "a == 1 OR b > 5".toList

def knowing (fields : List (String × ℤ)) : Json := .obj (fields.map fun field => (field.1, .scalar (.int field.2)))

theorem leaves_oneOrMany :
    evaluatedLeaves oneOrMany = [.comparison .eq ['a'] [' ', '1'], .comparison .gt ['b'] [' ', '5']] := by
  rfl

theorem extends_oneOrMany (n : ℤ) :
    ∀ leaf ∈ evaluatedLeaves oneOrMany, Extends jsonWorld (knowing [("a", 1)]) (knowing [("a", 1), ("b", n)]) leaf := by
  rw [leaves_oneOrMany]
  intro leaf hl
  simp only [List.mem_cons, List.not_mem_nil, or_false] at hl
  rcases hl with rfl | rfl
  · refine ⟨fun token ht value hv => ?_, fun token ht => ?_⟩
    · obtain rfl := List.mem_singleton.mp ht
      exact hv
    · obtain rfl := List.mem_singleton.mp ht
      rfl
  · refine ⟨fun token ht value hv => ?_, fun token ht => ?_⟩
    · obtain rfl := List.mem_singleton.mp ht
      cases hv
    · obtain rfl := List.mem_singleton.mp ht
      rfl

theorem oneOrMany_before : evaluateConditionStrict jsonWorld (knowing [("a", 1)]) oneOrMany = .ok (some true) := by
  rfl

theorem knowledge_exact_three :
    evaluateConditionStrict jsonWorld (knowing [("a", 1), ("b", 3)]) oneOrMany = .ok (some true) :=
  (knowledge_exact jsonWorld (knowing [("a", 1)]) _ oneOrMany true (extends_oneOrMany 3) oneOrMany_before).mpr (by
    rw [leaves_oneOrMany]
    intro leaf hl
    simp only [List.mem_cons, List.not_mem_nil, or_false] at hl
    rcases hl with rfl | rfl
    · intro value hv _
      cases hv
      exact ⟨⟨some ((1 : ℤ), (1 : ℤ)), rfl⟩, fun h => by cases h⟩
    · intro value hv _
      cases hv
      exact ⟨⟨some ((3 : ℤ), (5 : ℤ)), rfl⟩, fun h => by cases h⟩)

-- The decision is lost when the missing field turns out to be a number that is too
-- large for a float.
theorem decision_lost :
    (∀ leaf ∈ evaluatedLeaves oneOrMany,
        Extends jsonWorld (knowing [("a", 1)]) (knowing [("a", 1), ("b", TOO_LARGE)]) leaf) ∧
      evaluateConditionStrict jsonWorld (knowing [("a", 1)]) oneOrMany = .ok (some true) ∧
      evaluateConditionStrict jsonWorld (knowing [("a", 1), ("b", TOO_LARGE)]) oneOrMany =
        .error "OverflowError" := by
  refine ⟨extends_oneOrMany _, oneOrMany_before, ?_⟩
  rfl

end Cases

end Conditions

end AgenticOrg.Workflows
