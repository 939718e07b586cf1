import Mathlib.Data.List.Basic

namespace Kleene

-- Three-valued truth: `none` is a truth nobody knows.
abbrev Truth := Option Bool

def negate (truth : Truth) : Truth := truth.map not

def all (truths : List Truth) : Truth :=
  if truths.contains (some false) then some false
  else if truths.contains none then none
  else some true

def any (truths : List Truth) : Truth :=
  if truths.contains (some true) then some true
  else if truths.contains none then none
  else some false

-- The second truth is the first one, or nothing is known any more.
def Blurs (truth blurred : Truth) : Prop := blurred = none ∨ blurred = truth

theorem Blurs.refl (truth : Truth) : Blurs truth truth := .inr rfl

theorem Blurs.negate (truth blurred : Truth) (h : Blurs truth blurred) :
    Blurs (negate truth) (negate blurred) := by
  rcases h with rfl | rfl
  · exact .inl rfl
  · exact .inr rfl

-- What is still known of one of the truths was known of it before.
theorem contains_of_blurs (truths blurred : List Truth) (h : List.Forall₂ Blurs truths blurred)
    (value : Bool) (hc : some value ∈ blurred) : some value ∈ truths := by
  induction h with
  | nil => exact hc
  | cons hb _ ih =>
      rcases List.mem_cons.mp hc with he | hc
      · rcases hb with hn | hs
        · rw [hn] at he
          cases he
        · rw [he, hs]
          exact List.mem_cons_self
      · exact List.mem_cons_of_mem _ (ih hc)

theorem eq_of_blurs (truths blurred : List Truth) (h : List.Forall₂ Blurs truths blurred)
    (hn : none ∉ blurred) : truths = blurred := by
  induction h with
  | nil => rfl
  | cons hb _ ih =>
      rw [List.mem_cons, not_or] at hn
      rcases hb with hb | hb
      · exact absurd hb.symm hn.1
      · rw [hb, ih hn.2]

theorem Blurs.all (truths blurred : List Truth) (h : List.Forall₂ Blurs truths blurred) :
    Blurs (all truths) (all blurred) := by
  unfold Kleene.all
  simp only [List.contains_iff_mem]
  by_cases hf : some false ∈ blurred
  · rw [if_pos hf, if_pos (contains_of_blurs truths blurred h false hf)]
    exact .inr rfl
  · rw [if_neg hf]
    by_cases hn : none ∈ blurred
    · rw [if_pos hn]
      exact .inl rfl
    · rw [eq_of_blurs truths blurred h hn, if_neg hf]
      exact .inr rfl

theorem Blurs.any (truths blurred : List Truth) (h : List.Forall₂ Blurs truths blurred) :
    Blurs (any truths) (any blurred) := by
  unfold Kleene.any
  simp only [List.contains_iff_mem]
  by_cases ht : some true ∈ blurred
  · rw [if_pos ht, if_pos (contains_of_blurs truths blurred h true ht)]
    exact .inr rfl
  · rw [if_neg ht]
    by_cases hn : none ∈ blurred
    · rw [if_pos hn]
      exact .inl rfl
    · rw [eq_of_blurs truths blurred h hn, if_neg ht]
      exact .inr rfl

section Nesting

theorem any_eq_true (truths : List Truth) : any truths = some true ↔ some true ∈ truths := by
  unfold any
  simp only [List.contains_iff_mem]
  by_cases ht : some true ∈ truths
  · simp [ht]
  · by_cases hn : none ∈ truths <;> simp [ht, hn]

theorem any_eq_false (truths : List Truth) : any truths = some false ↔ ∀ truth ∈ truths, truth = some false := by
  unfold any
  simp only [List.contains_iff_mem]
  constructor
  · intro h truth hm
    by_cases ht : some true ∈ truths
    · rw [if_pos ht] at h
      cases h
    · rw [if_neg ht] at h
      by_cases hn : none ∈ truths
      · rw [if_pos hn] at h
        cases h
      · cases truth with
        | none => exact absurd hm hn
        | some value =>
            cases value with
            | true => exact absurd hm ht
            | false => rfl
  · intro h
    have ht : some true ∉ truths := fun hm => absurd (h _ hm) (by decide)
    have hn : none ∉ truths := fun hm => absurd (h _ hm) (by decide)
    rw [if_neg ht, if_neg hn]

theorem any_singleton (truth : Truth) : any [truth] = truth := by
  rcases truth with _ | _ | _ <;> rfl

theorem any_flatten (lists : List (List Truth)) : any (lists.map any) = any lists.flatten := by
  apply Option.ext
  intro value
  cases value with
  | true =>
      rw [any_eq_true, any_eq_true, List.mem_map, List.mem_flatten]
      constructor
      · rintro ⟨truths, hm, ht⟩
        exact ⟨truths, hm, (any_eq_true truths).mp ht⟩
      · rintro ⟨truths, hm, ht⟩
        exact ⟨truths, hm, (any_eq_true truths).mpr ht⟩
  | false =>
      rw [any_eq_false, any_eq_false, List.forall_mem_map]
      constructor
      · intro h truth ht
        obtain ⟨truths, hm, ht⟩ := List.mem_flatten.mp ht
        exact (any_eq_false truths).mp (h truths hm) truth ht
      · intro h truths hm
        exact (any_eq_false truths).mpr fun truth ht => h truth (List.mem_flatten_of_mem hm ht)

theorem negate_negate (truth : Truth) : negate (negate truth) = truth := by
  rcases truth with _ | _ | _ <;> rfl

theorem negate_injective (truth other : Truth) (h : negate truth = negate other) : truth = other := by
  rw [← negate_negate truth, h, negate_negate]

-- De Morgan's law.
theorem negate_all (truths : List Truth) : negate (all truths) = any (truths.map negate) := by
  have hmem (value : Bool) : some (!value) ∈ truths.map negate ↔ some value ∈ truths := by
    rw [List.mem_map]
    constructor
    · rintro ⟨truth, hm, ht⟩
      rw [← negate_injective truth (some value) ht]
      exact hm
    · exact fun h => ⟨some value, h, rfl⟩
  have hnone : none ∈ truths.map negate ↔ none ∈ truths := by
    rw [List.mem_map]
    constructor
    · rintro ⟨truth, hm, ht⟩
      rw [← negate_injective truth none ht]
      exact hm
    · exact fun h => ⟨none, h, rfl⟩
  have hfalse := hmem false
  rw [Bool.not_false] at hfalse
  unfold all any
  simp only [List.contains_iff_mem, hfalse, hnone]
  by_cases hf : some false ∈ truths
  · rw [if_pos hf, if_pos hf]
    rfl
  · by_cases hn : none ∈ truths
    · rw [if_neg hf, if_neg hf, if_pos hn, if_pos hn]
      rfl
    · rw [if_neg hf, if_neg hf, if_neg hn, if_neg hn]
      rfl

theorem all_singleton (truth : Truth) : all [truth] = truth := by
  rcases truth with _ | _ | _ <;> rfl

theorem all_flatten (lists : List (List Truth)) : all (lists.map all) = all lists.flatten := by
  apply negate_injective
  have hinner : (lists.map all).map negate = (lists.map (List.map negate)).map any := by
    rw [List.map_map, List.map_map]
    exact List.map_congr_left fun truths _ => negate_all truths
  rw [negate_all, negate_all, hinner, any_flatten, List.map_flatten]

end Nesting

end Kleene
