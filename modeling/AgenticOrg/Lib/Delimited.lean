import Mathlib.Data.List.Basic
import Mathlib.Data.String.Basic

namespace Delimited

section Parts

variable (sep : Char)

-- A text cut at the delimiter.
def parts (text : String) : List (List Char) := text.toList.splitOn sep

def Plain (text : String) : Prop := sep ∉ text.toList

theorem parts_injective : Function.Injective (parts sep) := by
  intro a b h
  have hjoin := congrArg (List.intercalate [sep]) h
  rw [parts, parts, List.intercalate_splitOn, List.intercalate_splitOn] at hjoin
  exact String.toList_injective hjoin

theorem parts_of_plain (text : String) (h : Plain sep text) : parts sep text = [text.toList] :=
  List.splitOn_eq_singleton h

-- The parts of a join are the parts of what is joined.
theorem parts_intercalate (delimiter : String) (hd : delimiter.toList = [sep]) (texts : List String)
    (hne : texts ≠ []) : parts sep (delimiter.intercalate texts) = texts.flatMap (parts sep) := by
  induction texts with
  | nil => exact absurd rfl hne
  | cons text rest ih =>
      cases rest with
      | nil => rw [String.intercalate_singleton, List.flatMap_cons, List.flatMap_nil, List.append_nil]
      | cons next rest =>
          have hrest := ih (List.cons_ne_nil next rest)
          rw [String.intercalate_cons_cons, List.flatMap_cons, ← hrest, parts, String.toList_append,
            String.toList_append, hd, List.append_assoc, List.singleton_append, List.splitOn_append_cons_self]
          rfl

theorem flatMap_parts_of_plain (texts : List String) (h : ∀ text ∈ texts, Plain sep text) :
    texts.flatMap (parts sep) = texts.map String.toList := by
  induction texts with
  | nil => rfl
  | cons text rest ih =>
      rw [List.flatMap_cons, List.map_cons, parts_of_plain sep text (h text List.mem_cons_self),
        ih fun other ho => h other (List.mem_cons_of_mem text ho)]
      rfl

end Parts

section Shifts

variable {α : Type}

-- A fixed part that comes later in another row: the longer free part takes in the whole of the shorter row's.
theorem append_longer (more fixed fixed' rest rest' : List α) (hlength : fixed.length = fixed'.length)
    (hhead : ∀ x ∈ fixed'.head?, x ∉ fixed.tail) (hne : fixed ≠ [])
    (h : fixed ++ rest = more ++ (fixed' ++ rest')) :
    (more = [] ∧ fixed = fixed' ∧ rest = rest') ∨
      ∃ between, rest = between ++ (fixed' ++ rest') ∧ more = fixed ++ between := by
  rcases List.append_eq_append_iff.mp h with ⟨between, rfl, hrest⟩ | ⟨kept, hfixed, hrest⟩
  · exact .inr ⟨between, hrest, rfl⟩
  · cases more with
    | nil =>
        obtain ⟨hsame, hrest⟩ := List.append_inj (by simpa using h) hlength
        exact .inl ⟨rfl, hsame, hrest⟩
    | cons first more =>
        cases kept with
        | nil => exact .inr ⟨[], by simpa using hrest.symm, by rw [hfixed, List.append_nil, List.append_nil]⟩
        | cons next kept =>
            cases fixed' with
            | nil =>
                rw [List.length_nil, List.length_eq_zero_iff] at hlength
                exact absurd hlength hne
            | cons head tail =>
                rw [List.cons_append, List.cons_append, List.cons.injEq] at hrest
                refine absurd ?_ (hhead head rfl)
                rw [hfixed, List.cons_append, List.tail_cons, hrest.1]
                exact List.mem_append_right _ List.mem_cons_self

-- Two rows of a free part, a fixed one and a rest: they agree, or what one has in its free part the other has
-- in its rest.
theorem append_shift (free free' fixed fixed' rest rest' : List α) (hlength : fixed.length = fixed'.length)
    (hhead : ∀ x ∈ fixed'.head?, x ∉ fixed.tail) (hhead' : ∀ x ∈ fixed.head?, x ∉ fixed'.tail) (hne : fixed ≠ [])
    (h : free ++ (fixed ++ rest) = free' ++ (fixed' ++ rest')) :
    (free = free' ∧ fixed = fixed' ∧ rest = rest') ∨
      (∃ between, rest = between ++ (fixed' ++ rest') ∧ free' = free ++ (fixed ++ between)) ∨
      ∃ between, rest' = between ++ (fixed ++ rest) ∧ free = free' ++ (fixed' ++ between) := by
  rcases List.append_eq_append_iff.mp h with ⟨more, rfl, hmore⟩ | ⟨more, rfl, hmore⟩
  · rcases append_longer more fixed fixed' rest rest' hlength hhead hne hmore with
      ⟨rfl, hsame⟩ | ⟨between, hrest, rfl⟩
    · exact .inl ⟨(List.append_nil free).symm, hsame⟩
    · exact .inr (.inl ⟨between, hrest, rfl⟩)
  · have hne' : fixed' ≠ [] := fun hnil => hne (List.length_eq_zero_iff.mp (by rw [hlength, hnil, List.length_nil]))
    rcases append_longer more fixed' fixed rest' rest hlength.symm hhead' hne' hmore with
      ⟨rfl, hsame, hrest⟩ | ⟨between, hrest, rfl⟩
    · exact .inl ⟨List.append_nil free', hsame.symm, hrest.symm⟩
    · exact .inr (.inr ⟨between, hrest, rfl⟩)

end Shifts

end Delimited
