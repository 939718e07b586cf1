import AgenticOrg.Lib.Fallible
import AgenticOrg.Policy.Loader
import Mathlib.Data.List.Dedup

namespace AgenticOrg.Policies

open Fallible

section Shape

-- The operand of an operator is what the engine expects there: scalars of one kind, a single
-- one unless the operator takes a list, and a number where values are ordered.
structure Fits (op : Operator) (operand : Operand) (kind : Kind) : Prop where
  items : operand.items ≠ []
  kinds : ∀ item ∈ operand.items, item.kind = some kind
  scalar : op ∉ LIST_OPERATORS → ∃ value, operand = .scalar value
  number : op ∈ NUMERIC_OPERATORS → kind = .number

structure Compare.Compiled (leaf : Compare) : Prop where
  segments : leaf.segments = segmentsOf leaf.path
  operand : ∃ kind, Fits leaf.op leaf.operand kind

inductive Condition.Compiled : Condition → Prop where
  | compare (leaf : Compare) (h : leaf.Compiled) : Compiled (.compare leaf)
  | allOf (items : List Condition) (h : ∀ item ∈ items, Compiled item) : Compiled (.allOf items)
  | anyOf (items : List Condition) (h : ∀ item ∈ items, Compiled item) : Compiled (.anyOf items)
  | not (item : Condition) (h : Compiled item) : Compiled (.not item)

structure Policy.Compiled (policy : Policy) : Prop where
  conditions : ∀ rule ∈ policy.rules, rule.when.Compiled
  scores : ∀ rule ∈ policy.rules, 0 ≤ rule.effect.score
  paths : ∀ path, path ∈ policy.referencedPaths ↔ ∃ leaf ∈ policy.leaves, leaf.path = path

end Shape

section Operands

variable (source : String)

theorem scalarOperand_kind (raw : Yaml) (location : String) (value : Scalar)
    (h : scalarOperand source raw location = .ok value) : ∃ kind, value.kind = some kind := by
  unfold scalarOperand at h
  cases raw with
  | scalar found =>
      dsimp only at h
      split at h
      · cases h
      · rename_i kind hk
        have hv : found = value := by
          split at h
          · split at h
            · cases h
            · exact Except.ok.inj h
          · exact Except.ok.inj h
        exact ⟨kind, hv ▸ hk⟩
  | null => cases h
  | list items => cases h
  | mapping entries => cases h

theorem eq_of_dedup_length_one (kinds : List (Option Kind)) (h : kinds.dedup.length = 1)
    (a b : Option Kind) (ha : a ∈ kinds) (hb : b ∈ kinds) : a = b := by
  obtain ⟨only, ho⟩ := List.length_eq_one_iff.mp h
  have hall : ∀ kind ∈ kinds, kind = only := by
    intro kind hk
    have hd := List.mem_dedup.mpr hk
    rw [ho] at hd
    exact List.mem_singleton.mp hd
  rw [hall a ha, hall b hb]

theorem fits_scalar (op : Operator) (value : Scalar) (kind : Kind) (hk : value.kind = some kind)
    (hn : op ∈ NUMERIC_OPERATORS → kind = .number) : Fits op (.scalar value) kind where
  items := by simp [Operand.items]
  kinds := by
    intro item hi
    rw [List.mem_singleton.mp hi]
    exact hk
  scalar := fun _ => ⟨value, rfl⟩
  number := hn

theorem fits_tuple (op : Operator) (items : List Scalar) (hop : op ∈ LIST_OPERATORS) (hne : items ≠ [])
    (hk : ∀ item ∈ items, ∃ kind, item.kind = some kind)
    (hone : (items.map Scalar.kind).dedup.length = 1) : ∃ kind, Fits op (.tuple items) kind := by
  obtain ⟨first, rest, rfl⟩ := List.exists_cons_of_ne_nil hne
  obtain ⟨kind, hfirst⟩ := hk first List.mem_cons_self
  refine ⟨kind, hne, ?_, fun h => absurd hop h, ?_⟩
  · intro item hi
    rw [← hfirst]
    exact eq_of_dedup_length_one _ hone _ _ (List.mem_map_of_mem hi)
      (List.mem_map_of_mem List.mem_cons_self)
  · intro hnum
    cases op <;> simp [LIST_OPERATORS, NUMERIC_OPERATORS] at hop hnum

theorem compileOperand_fits (op : Operator) (raw : Yaml) (location : String) (operand : Operand)
    (h : compileOperand source op raw location = .ok operand) : ∃ kind, Fits op operand kind := by
  unfold compileOperand at h
  split at h
  · -- `exists` and `missing` only take true
    rename_i hp
    split at h
    · cases h
      refine ⟨.bool, fits_scalar op _ .bool rfl ?_⟩
      intro hnum
      cases op <;> simp [PRESENCE_OPERATORS, NUMERIC_OPERATORS] at hp hnum
    · cases h
  · split at h
    · split at h
      · split at h
        · rename_i value hk
          cases h
          exact ⟨.number, fits_scalar op value .number hk fun _ => rfl⟩
        · cases h
      · cases h
    · rename_i hnum
      split at h
      · rename_i hl
        split at h
        · rename_i first rest
          split at h
          · cases h
          · obtain ⟨items, hi, h⟩ := (bind_ok _ _ _).mp h
            split at h
            · cases h
            · rename_i hone
              rw [pure_ok] at h
              rw [← h]
              refine fits_tuple op items (by simpa using hl) ?_ ?_ (not_not.mp hone)
              · intro hnil
                have hlen := length_of_mapM_ok _ _ _ hi
                rw [hnil] at hlen
                simp at hlen
              · intro item hm
                obtain ⟨⟨rawItem, index⟩, _, hs⟩ := mem_of_mapM_ok _ _ _ hi item hm
                exact scalarOperand_kind source rawItem _ item hs
        · cases h
      · obtain ⟨value, hv, h⟩ := (bind_ok _ _ _).mp h
        rw [pure_ok] at h
        obtain ⟨kind, hk⟩ := scalarOperand_kind source raw location value hv
        rw [← h]
        exact ⟨kind, fits_scalar op value kind hk fun hm => absurd hm (by simpa using hnum)⟩

end Operands

section Conditions

variable (py : Python) (source : String)

theorem compileCompare_compiled (path : String) (spec : Yaml) (location : String) (leaf : Compare)
    (h : compileCompare py source path spec location = .ok leaf) : leaf.Compiled := by
  unfold compileCompare at h
  dsimp only at h
  split at h
  · cases h
  · split at h
    · cases h
    · split at h
      · split at h
        · cases h
        · obtain ⟨operand, ho, h⟩ := (bind_ok _ _ _).mp h
          rw [pure_ok] at h
          rw [← h]
          exact ⟨rfl, compileOperand_fits source _ _ _ operand ho⟩
      · cases h

theorem compileCondition_compiled (left : Nat) (raw : Yaml) (location : String) (condition : Condition)
    (h : compileCondition py source left raw location = .ok condition) : condition.Compiled := by
  induction left generalizing raw location condition with
  | zero => cases h
  | succ left ih =>
      unfold compileCondition at h
      split at h
      · cases h
      · rename_i hl
        cases hl
        split at h
        · split at h
          · split at h
            · cases h
            · obtain ⟨items, hi, h⟩ := (bind_ok _ _ _).mp h
              rw [pure_ok] at h
              have hall : ∀ item ∈ items, item.Compiled := by
                intro item hm
                obtain ⟨⟨rawItem, index⟩, _, hc⟩ := mem_of_mapM_ok _ _ _ hi item hm
                exact ih rawItem _ item hc
              split at h
              · rw [← h]
                exact .allOf items hall
              · rw [← h]
                exact .anyOf items hall
          · cases h
        · split at h
          · obtain ⟨item, hi, h⟩ := (bind_ok _ _ _).mp h
            rw [pure_ok] at h
            rw [← h]
            exact .not item (ih _ _ item hi)
          · obtain ⟨leaf, hl, h⟩ := (bind_ok _ _ _).mp h
            rw [pure_ok] at h
            rw [← h]
            exact .compare leaf (compileCompare_compiled py source _ _ _ leaf hl)
      · cases h

mutual

theorem mem_collectPaths (path : String) : ∀ (condition : Condition) (into : List String),
    path ∈ collectPaths condition into ↔ path ∈ into ∨ ∃ leaf ∈ condition.leaves, leaf.path = path
  | .compare leaf, into => by
      rw [collectPaths, Condition.leaves, List.mem_insert_iff]
      constructor
      · rintro (rfl | h)
        · exact .inr ⟨leaf, List.mem_singleton_self leaf, rfl⟩
        · exact .inl h
      · rintro (h | ⟨found, hf, rfl⟩)
        · exact .inr h
        · rw [List.mem_singleton.mp hf]
          exact .inl rfl
  | .allOf items, into => mem_collectAll path items into
  | .anyOf items, into => mem_collectAll path items into
  | .not item, into => mem_collectPaths path item into
  | .foreign items, into => mem_collectAll path items into

theorem mem_collectAll (path : String) : ∀ (items : List Condition) (into : List String),
    path ∈ collectAll items into ↔ path ∈ into ∨ ∃ leaf ∈ leavesOf items, leaf.path = path
  | [], into => by simp [collectAll, leavesOf]
  | item :: rest, into => by
      rw [collectAll, mem_collectAll path rest, mem_collectPaths path item, leavesOf]
      simp only [List.mem_append, or_and_right, exists_or, or_assoc]

end

end Conditions

section Policies

variable (py : Python) (source : String)

theorem compileScore_nonneg (entries : List (String × Yaml)) (tier : Tier) (location : String) (score : Int)
    (h : compileScore source entries tier location = .ok score) : 0 ≤ score := by
  unfold compileScore at h
  split at h
  · cases h
    cases tier <;> decide
  · split at h
    · rename_i value _ found hw
      cases h
      unfold wholeNumber at hw
      split at hw
      · split at hw
        · rename_i hr
          cases hw
          exact hr.1
        · cases hw
      · cases hw
    · cases h

theorem compileEffect_nonneg (raw : Yaml) (location : String) (effect : Effect)
    (h : compileEffect py source raw location = .ok effect) : 0 ≤ effect.score := by
  unfold compileEffect at h
  split at h
  · obtain ⟨_, _, h⟩ := (bind_ok _ _ _).mp h
    obtain ⟨_, _, h⟩ := (bind_ok _ _ _).mp h
    split at h
    · cases h
    · obtain ⟨_, _, h⟩ := (bind_ok _ _ _).mp h
      obtain ⟨_, _, h⟩ := (bind_ok _ _ _).mp h
      obtain ⟨score, hs, h⟩ := (bind_ok _ _ _).mp h
      rw [pure_ok] at h
      rw [← h]
      exact compileScore_nonneg source _ _ _ score hs
  · cases h

theorem compileRule_compiled (raw : Yaml) (location : String) (rule : Rule)
    (h : compileRule py source raw location = .ok rule) :
    rule.when.Compiled ∧ 0 ≤ rule.effect.score := by
  unfold compileRule at h
  split at h
  · obtain ⟨_, _, h⟩ := (bind_ok _ _ _).mp h
    obtain ⟨_, _, h⟩ := (bind_ok _ _ _).mp h
    obtain ⟨_, _, h⟩ := (bind_ok _ _ _).mp h
    obtain ⟨_, _, h⟩ := (bind_ok _ _ _).mp h
    obtain ⟨_, _, h⟩ := (bind_ok _ _ _).mp h
    obtain ⟨condition, hc, h⟩ := (bind_ok _ _ _).mp h
    obtain ⟨_, _, h⟩ := (bind_ok _ _ _).mp h
    obtain ⟨effect, he, h⟩ := (bind_ok _ _ _).mp h
    rw [pure_ok] at h
    rw [← h]
    exact ⟨compileCondition_compiled py source _ _ _ condition hc,
      compileEffect_nonneg py source _ _ effect he⟩
  · cases h

theorem compileRules_compiled (index : Nat) (seen : List String) (raws : List Yaml) (rules : List Rule)
    (h : compileRules py source index seen raws = .ok rules) :
    ∀ rule ∈ rules, rule.when.Compiled ∧ 0 ≤ rule.effect.score := by
  induction raws generalizing index seen rules with
  | nil =>
      cases h
      simp
  | cons raw rest ih =>
      rw [compileRules] at h
      obtain ⟨first, hf, h⟩ := (bind_ok _ _ _).mp h
      split at h
      · cases h
      · obtain ⟨others, ho, h⟩ := (bind_ok _ _ _).mp h
        rw [pure_ok] at h
        rw [← h]
        intro rule hr
        rcases List.mem_cons.mp hr with rfl | hr
        · exact compileRule_compiled py source _ _ rule hf
        · exact ih _ _ others ho rule hr

theorem mem_collectRules (path : String) (rules : List Rule) (into : List String) :
    path ∈ rules.foldl (fun into rule => collectPaths rule.when into) into ↔
      path ∈ into ∨ ∃ leaf ∈ rules.flatMap (fun rule => rule.when.leaves), leaf.path = path := by
  induction rules generalizing into with
  | nil => simp
  | cons rule rest ih =>
      rw [List.foldl_cons, ih, mem_collectPaths, List.flatMap_cons]
      simp only [List.mem_append, or_and_right, exists_or, or_assoc]

-- What the engine relies on in a policy that was loaded.
theorem compilePolicy_compiled (document : Yaml) (contentHash : String) (policy : Policy)
    (h : compilePolicy py source document contentHash = .ok policy) : policy.Compiled := by
  unfold compilePolicy at h
  split at h
  · obtain ⟨_, _, h⟩ := (bind_ok _ _ _).mp h
    obtain ⟨_, _, h⟩ := (bind_ok _ _ _).mp h
    obtain ⟨_, _, h⟩ := (bind_ok _ _ _).mp h
    obtain ⟨_, _, h⟩ := (bind_ok _ _ _).mp h
    obtain ⟨_, _, h⟩ := (bind_ok _ _ _).mp h
    obtain ⟨_, _, h⟩ := (bind_ok _ _ _).mp h
    obtain ⟨_, _, h⟩ := (bind_ok _ _ _).mp h
    obtain ⟨_, _, h⟩ := (bind_ok _ _ _).mp h
    obtain ⟨_, _, h⟩ := (bind_ok _ _ _).mp h
    split at h
    · split at h
      · cases h
      · obtain ⟨rules, hr, h⟩ := (bind_ok _ _ _).mp h
        rw [pure_ok] at h
        have hall := compileRules_compiled py source _ _ _ rules hr
        rw [← h]
        refine ⟨fun rule hm => (hall rule hm).1, fun rule hm => (hall rule hm).2, ?_⟩
        intro path
        have hs : path ∈ sortTexts (rules.foldl (fun into rule => collectPaths rule.when into) []) ↔
            path ∈ rules.foldl (fun into rule => collectPaths rule.when into) [] :=
          (List.perm_insertionSort _ _).mem_iff
        refine hs.trans ?_
        rw [mem_collectRules]
        simp [Policy.leaves]
    · cases h
  · cases h

end Policies

end AgenticOrg.Policies
