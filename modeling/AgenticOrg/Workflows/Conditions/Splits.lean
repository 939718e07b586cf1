import AgenticOrg.Workflows.Conditions

namespace AgenticOrg.Workflows

open Directive

namespace Conditions

section Lengths

theorem length_split_le (sep : Text) (skip : ℕ) (text : Text) :
    ∀ part ∈ split sep skip text, part.length ≤ text.length := by
  induction text generalizing skip with
  | nil => simp [split]
  | cons c rest ih =>
      cases skip with
      | succ skip =>
          intro part hp
          exact Nat.le_succ_of_le (ih skip part hp)
      | zero =>
          rw [split]
          by_cases hs : sep.isPrefixOf (c :: rest) = true
          · rw [if_pos hs, List.forall_mem_cons]
            exact ⟨Nat.zero_le _, fun part hp => Nat.le_succ_of_le (ih _ part hp)⟩
          · rw [if_neg hs]
            have hrest := ih 0
            cases hsplit : split sep 0 rest with
            | nil => simp
            | cons first more =>
                rw [hsplit, List.forall_mem_cons] at hrest
                rw [List.modifyHead_cons, List.forall_mem_cons]
                exact ⟨Nat.succ_le_succ hrest.1, fun part hp => Nat.le_succ_of_le (hrest.2 part hp)⟩

-- Where a text is split, every part is shorter.
theorem length_split_lt (sep text : Text) (h : occurs sep text = true) :
    ∀ part ∈ split sep 0 text, part.length < text.length := by
  induction text with
  | nil => cases h
  | cons c rest ih =>
      rw [split]
      by_cases hs : sep.isPrefixOf (c :: rest) = true
      · rw [if_pos hs, List.forall_mem_cons]
        exact ⟨Nat.succ_pos _, fun part hp => Nat.lt_succ_of_le (length_split_le sep _ rest part hp)⟩
      · rw [if_neg hs]
        have hoccurs : occurs sep rest = true := by
          rw [occurs, cut, if_neg hs, Option.isSome_map] at h
          exact h
        have hrest := ih hoccurs
        cases hsplit : split sep 0 rest with
        | nil => simp
        | cons first more =>
            rw [hsplit, List.forall_mem_cons] at hrest
            rw [List.modifyHead_cons, List.forall_mem_cons]
            exact ⟨Nat.succ_lt_succ hrest.1, fun part hp => Nat.lt_succ_of_lt (hrest.2 part hp)⟩

theorem length_splitKeyword (expression : Text) (keyword : Keyword) (parts : List Text)
    (h : splitKeyword expression keyword = some parts) : ∀ part ∈ parts, part.length < expression.length := by
  rw [splitKeyword] at h
  by_cases hu : occurs (spaced keyword.upper) expression = true
  · rw [if_pos hu] at h
    cases h
    exact length_split_lt _ expression hu
  · rw [if_neg hu] at h
    by_cases hl : occurs (spaced keyword.lower) expression = true
    · rw [if_pos hl] at h
      cases h
      exact length_split_lt _ expression hl
    · rw [if_neg hl] at h
      cases h

theorem length_strip_le (text : Text) : (strip text).length ≤ text.length := by
  rw [strip, List.length_reverse]
  refine Nat.le_trans (List.dropWhile_sublist _).length_le ?_
  rw [List.length_reverse]
  exact (List.dropWhile_sublist _).length_le

end Lengths

section Fuel

variable (world : World) (context : world.Value)

theorem combine_congr (together : List Kleene.Truth → Kleene.Truth) (run other : Text → Except String Kleene.Truth)
    (parts : List Text) (h : ∀ part ∈ parts, run part = other part) :
    combine together run parts = combine together other parts := by
  have hmap : parts.mapM run = parts.mapM other := by
    induction parts with
    | nil => rfl
    | cons part rest ih =>
        obtain ⟨hpart, hrest⟩ := List.forall_mem_cons.mp h
        rw [List.mapM_cons, List.mapM_cons, hpart, ih hrest]
  rw [combine, combine, hmap]

-- Any fuel above the length of the text gives the same.
theorem evaluate_fuel (fuel other : ℕ) (text : Text) (hf : text.length < fuel) (ho : text.length < other) :
    evaluate world context fuel text = evaluate world context other text := by
  induction fuel generalizing other text with
  | zero => exact absurd hf (Nat.not_lt_zero _)
  | succ fuel ih =>
      cases other with
      | zero => exact absurd ho (Nat.not_lt_zero _)
      | succ other =>
          have hstrip := length_strip_le text
          have hparts (together : List Kleene.Truth → Kleene.Truth) (keyword : Keyword) (parts : List Text)
              (hk : splitKeyword (strip text) keyword = some parts) :
              combine together (evaluate world context fuel) parts =
                combine together (evaluate world context other) parts := by
            refine combine_congr together _ _ parts fun part hp => ?_
            have hlt := length_splitKeyword (strip text) keyword parts hk part hp
            exact ih other part (by omega) (by omega)
          rw [evaluate, evaluate]
          by_cases hempty : (strip text).isEmpty = true
          · rw [if_pos hempty, if_pos hempty]
          · rw [if_neg hempty, if_neg hempty]
            cases hor : splitKeyword (strip text) .or with
            | some parts => exact hparts Kleene.any .or parts hor
            | none =>
                cases hand : splitKeyword (strip text) .and with
                | some parts => exact hparts Kleene.all .and parts hand
                | none =>
                    have hpos : 0 < (strip text).length := List.length_pos_iff.mpr (by simpa using hempty)
                    have hdrop : ((strip text).drop 4).length < (strip text).length := by
                      rw [List.length_drop]
                      omega
                    dsimp only
                    rw [ih other ((strip text).drop 4) (by omega) (by omega)]

theorem evaluate_enough (fuel : ℕ) (text : Text) (h : text.length < fuel) :
    evaluate world context fuel text = evaluateConditionStrict world context text :=
  evaluate_fuel world context fuel (text.length + 1) text h (Nat.lt_succ_self _)

end Fuel

section Fields

def IsField (field : Text) : Prop := ' ' ∉ field

-- The text that has these fields between its spaces.
def joined : List Text → Text
  | [] => []
  | [field] => field
  | field :: next :: rest => field ++ ' ' :: joined (next :: rest)

-- Where a word stands between two fields, the fields are cut; `first` begins a part.
def cutFields (word : Text) (first : Text) : List Text → List (List Text)
  | [] => [[first]]
  | [last] => [[first, last]]
  | field :: next :: rest =>
      if field = word then [first] :: cutFields word next rest
      else (cutFields word field (next :: rest)).modifyHead (first :: ·)

variable (word : Text) (hword : IsField word)

theorem split_skip (sep text rest : Text) : split sep text.length (text ++ rest) = split sep 0 rest := by
  induction text with
  | nil => rfl
  | cons c more ih => exact ih

theorem isPrefixOf_append_space (field rest : Text) (hw : IsField word) (hf : IsField field) :
    (word ++ [' ']).isPrefixOf (field ++ ' ' :: rest) = true ↔ field = word := by
  rw [List.isPrefixOf_iff_prefix]
  constructor
  · intro h
    induction word generalizing field with
    | nil =>
        cases field with
        | nil => rfl
        | cons c more =>
            obtain ⟨hc, -⟩ := List.cons_prefix_cons.mp h
            exact absurd (hc ▸ List.mem_cons_self) hf
    | cons w word ih =>
        cases field with
        | nil =>
            obtain ⟨hc, -⟩ := List.cons_prefix_cons.mp h
            exact absurd (hc ▸ List.mem_cons_self) hw
        | cons c more =>
            obtain ⟨hc, h⟩ := List.cons_prefix_cons.mp h
            rw [hc, ih more (fun hm => hw (List.mem_cons_of_mem _ hm)) (fun hm => hf (List.mem_cons_of_mem _ hm)) h]
  · rintro rfl
    refine ⟨rest, ?_⟩
    simp

theorem not_isPrefixOf_field (field : Text) (hf : IsField field) : (word ++ [' ']).isPrefixOf field = false := by
  rw [← Bool.not_eq_true, List.isPrefixOf_iff_prefix]
  intro h
  exact hf (h.subset (List.mem_append_right _ (List.mem_singleton_self _)))

-- No separator begins inside a field.
theorem split_field (field rest : Text) (hf : IsField field) :
    split (spaced word) 0 (field ++ rest) = (split (spaced word) 0 rest).modifyHead (field ++ ·) := by
  induction field with
  | nil =>
      rw [List.nil_append]
      cases split (spaced word) 0 rest <;> rfl
  | cons c more ih =>
      have hc : ¬(spaced word).isPrefixOf (c :: (more ++ rest)) = true := by
        rw [List.isPrefixOf_iff_prefix]
        intro h
        obtain ⟨he, -⟩ := List.cons_prefix_cons.mp h
        exact hf (he ▸ List.mem_cons_self)
      rw [List.cons_append, split, if_neg hc, ih fun hm => hf (List.mem_cons_of_mem _ hm)]
      cases split (spaced word) 0 rest <;> rfl

theorem cut_field (field rest : Text) (hf : IsField field) :
    occurs (spaced word) (field ++ rest) = occurs (spaced word) rest := by
  induction field with
  | nil => rfl
  | cons c more ih =>
      have hc : ¬(spaced word).isPrefixOf (c :: (more ++ rest)) = true := by
        rw [List.isPrefixOf_iff_prefix]
        intro h
        obtain ⟨he, -⟩ := List.cons_prefix_cons.mp h
        exact hf (he ▸ List.mem_cons_self)
      rw [List.cons_append, occurs, cut, if_neg hc, Option.isSome_map]
      exact ih fun hm => hf (List.mem_cons_of_mem _ hm)

theorem cutFields_cons (first : Text) (rest : List Text) :
    ∃ more parts, cutFields word first rest = (first :: more) :: parts := by
  fun_induction cutFields word first rest with
  | case1 first => exact ⟨[], [], rfl⟩
  | case2 first last => exact ⟨[last], [], rfl⟩
  | case3 first next rest => exact ⟨[], _, rfl⟩
  | case4 first field next rest hne ih =>
      obtain ⟨more, parts, h⟩ := ih
      exact ⟨field :: more, parts, by rw [h]; rfl⟩

theorem split_space (text : Text) :
    split (spaced word) 0 (' ' :: text) =
      if (word ++ [' ']).isPrefixOf text then [] :: split (spaced word) (word.length + 1) text
      else (split (spaced word) 0 text).modifyHead (' ' :: ·) := by
  rw [split]
  simp [spaced]

theorem occurs_space (text : Text) :
    occurs (spaced word) (' ' :: text) = ((word ++ [' ']).isPrefixOf text || occurs (spaced word) text) := by
  rw [occurs, cut]
  by_cases h : (word ++ [' ']).isPrefixOf text = true
  · have hs : (spaced word).isPrefixOf (' ' :: text) = true := by simpa [spaced] using h
    rw [if_pos hs, h]
    rfl
  · have hs : ¬(spaced word).isPrefixOf (' ' :: text) = true := by simpa [spaced] using h
    rw [if_neg hs, Option.isSome_map, Bool.eq_false_iff.mpr h, Bool.false_or]
    rfl

include hword

theorem split_joined (first : Text) (rest : List Text) (hf : IsField first) (hr : ∀ field ∈ rest, IsField field) :
    split (spaced word) 0 (joined (first :: rest)) = (cutFields word first rest).map joined := by
  fun_induction cutFields word first rest with
  | case1 first =>
      have h := split_field word first [] hf
      rw [List.append_nil] at h
      simpa [joined, split] using h
  | case2 first last =>
      have hlast := hr last List.mem_cons_self
      have h := split_field word last [] hlast
      rw [List.append_nil] at h
      show split (spaced word) 0 (first ++ ' ' :: last) = _
      rw [split_field word first _ hf, split_space, not_isPrefixOf_field word last hlast, if_neg (by simp), h]
      simp [split, joined]
  | case3 first next rest ih =>
      obtain ⟨-, hrest⟩ := List.forall_mem_cons.mp hr
      obtain ⟨hnext, hmore⟩ := List.forall_mem_cons.mp hrest
      have hprefix := (isPrefixOf_append_space word word (joined (next :: rest)) hword hword).mpr rfl
      have hskip := split_skip (spaced word) (word ++ [' ']) (joined (next :: rest))
      rw [List.length_append, List.length_singleton, List.append_assoc, List.singleton_append] at hskip
      show split (spaced word) 0 (first ++ ' ' :: (word ++ ' ' :: joined (next :: rest))) = _
      rw [split_field word first _ hf, split_space, if_pos hprefix, hskip, ih hnext hmore]
      simp [joined]
  | case4 first field next rest hne ih =>
      obtain ⟨hfield, hrest⟩ := List.forall_mem_cons.mp hr
      have hprefix : ¬(word ++ [' ']).isPrefixOf (joined (field :: next :: rest)) = true := fun h =>
        hne ((isPrefixOf_append_space word field (joined (next :: rest)) hword hfield).mp h)
      obtain ⟨more, parts, hcut⟩ := cutFields_cons word field (next :: rest)
      show split (spaced word) 0 (first ++ ' ' :: joined (field :: next :: rest)) = _
      rw [split_field word first _ hf, split_space, if_neg hprefix, ih hfield hrest, hcut]
      rfl

theorem occurs_joined (first : Text) (rest : List Text) (hf : IsField first) (hr : ∀ field ∈ rest, IsField field) :
    occurs (spaced word) (joined (first :: rest)) = true ↔ word ∈ rest.dropLast := by
  fun_induction cutFields word first rest with
  | case1 first =>
      have h := cut_field word first [] hf
      rw [List.append_nil] at h
      show occurs (spaced word) first = true ↔ word ∈ []
      rw [h]
      simp [occurs, cut]
  | case2 first last =>
      have hlast := hr last List.mem_cons_self
      have h := cut_field word last [] hlast
      rw [List.append_nil] at h
      show occurs (spaced word) (first ++ ' ' :: last) = true ↔ _
      rw [cut_field word first _ hf, occurs_space word, not_isPrefixOf_field word last hlast, h]
      simp [occurs, cut]
  | case3 first next rest ih =>
      have hprefix := (isPrefixOf_append_space word word (joined (next :: rest)) hword hword).mpr rfl
      show occurs (spaced word) (first ++ ' ' :: (word ++ ' ' :: joined (next :: rest))) = true ↔ _
      rw [cut_field word first _ hf, occurs_space word, hprefix]
      simp
  | case4 first field next rest hne ih =>
      obtain ⟨hfield, hrest⟩ := List.forall_mem_cons.mp hr
      have hprefix : (word ++ [' ']).isPrefixOf (joined (field :: next :: rest)) = false := by
        rw [← Bool.not_eq_true]
        exact fun h => hne ((isPrefixOf_append_space word field (joined (next :: rest)) hword hfield).mp h)
      show occurs (spaced word) (first ++ ' ' :: joined (field :: next :: rest)) = true ↔ _
      rw [cut_field word first _ hf, occurs_space word, hprefix, Bool.false_or, ih hfield hrest,
        List.dropLast_cons_cons, List.mem_cons]
      simp [Ne.symm hne]

end Fields

end Conditions

end AgenticOrg.Workflows
