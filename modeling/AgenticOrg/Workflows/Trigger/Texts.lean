import AgenticOrg.Workflows.Trigger.Names

namespace AgenticOrg.Workflows

open Directive

namespace Trigger

section Parts

variable {names : List (String × ℕ)} (letters : Letters) (name num : List Char) (hname : IsName name)
  (show_ : Number names → List Char)

theorem intercalate_cons_cons (c : Char) (text next : List Char) (rest : List (List Char)) :
    [c].intercalate (text :: next :: rest) = text ++ c :: [c].intercalate (next :: rest) := by
  simp [List.intercalate]

theorem ends_cons (c : Char) (rest : List Char) (h : IsSeparator c) : Ends (c :: rest) := by
  intro d hd
  cases hd
  exact h

theorem isToken_digits (text : List Char) (hne : text ≠ []) (h : ∀ c ∈ text, c.isDigit = true) :
    IsToken letters text :=
  ⟨hne, fun c hc => isWord_of_isDigit letters c (h c hc)⟩

include hname

theorem replaced_digits (text : List Char) (h : ∀ c ∈ text, c.isDigit = true) :
    replaced letters name num text = text := by
  have hnot : isSpelled letters name text = false := by
    rw [isSpelled, Bool.and_eq_false_iff]
    cases name with
    | nil => exact absurd rfl hname.1
    | cons letter more =>
        cases text with
        | nil => exact .inl rfl
        | cons c rest =>
            right
            rw [List.zip_cons_cons, List.all_cons,
              sameLetter_digit letters c letter (h c List.mem_cons_self) (hname.2 letter List.mem_cons_self)]
            rfl
  rw [replaced, hnot, if_neg (by simp)]

theorem substitute_step (step : Step) (rest : List Char) (hr : Ends rest) :
    substitute letters name num none 0 (step.text ++ rest) =
      step.text ++ substitute letters name num none 0 rest := by
  rw [substitute_token letters name num hname step.text rest (isToken_digits letters step.text step.ne step.digits) hr,
    replaced_digits letters name num hname step.text step.digits]

-- In a part, each number is replaced by itself.
theorem substitute_part (hs : ∀ number, IsToken letters (show_ number)) (part : Part names) (rest : List Char)
    (hr : Ends rest) :
    substitute letters name num none 0 (part.print show_ ++ rest) =
      part.print (fun number => replaced letters name num (show_ number)) ++
        substitute letters name num none 0 rest := by
  have htoken (number : Number names) (rest : List Char) (hr : Ends rest) :=
    substitute_token letters name num hname (show_ number) rest (hs number) hr
  have hseparator (c : Char) (rest : List Char) (hc : IsSeparator c) :=
    substitute_separator letters name num hname none c rest hc
  have hdash : IsSeparator '-' := .inr (.inl rfl)
  have hslash : IsSeparator '/' := .inr (.inr (.inl rfl))
  have hstar : IsSeparator '*' := .inr (.inr (.inr rfl))
  cases part with
  | every => exact hseparator '*' rest hstar
  | one number => exact htoken number rest hr
  | range first last =>
      simp only [Part.print, List.append_assoc, List.cons_append]
      rw [htoken first _ (ends_cons '-' _ hdash), hseparator '-' _ hdash, htoken last rest hr]
  | everyStep step =>
      simp only [Part.print, List.cons_append]
      rw [hseparator '*' _ hstar, hseparator '/' _ hslash, substitute_step letters name num hname step rest hr]
  | fromStep first step =>
      simp only [Part.print, List.append_assoc, List.cons_append]
      rw [htoken first _ (ends_cons '/' _ hslash), hseparator '/' _ hslash,
        substitute_step letters name num hname step rest hr]
  | rangeStep first last step =>
      simp only [Part.print, List.append_assoc, List.cons_append]
      rw [htoken first _ (ends_cons '-' _ hdash), hseparator '-' _ hdash,
        htoken last _ (ends_cons '/' _ hslash), hseparator '/' _ hslash,
        substitute_step letters name num hname step rest hr]

theorem substitute_parts (hs : ∀ number, IsToken letters (show_ number)) (parts : List (Part names)) :
    substitute letters name num none 0 ([','].intercalate (parts.map (Part.print show_))) =
      [','].intercalate (parts.map (Part.print fun number => replaced letters name num (show_ number))) := by
  induction parts with
  | nil => rfl
  | cons part rest ih =>
      cases rest with
      | nil =>
          have h := substitute_part letters name num hname show_ hs part [] (by intro c hc; cases hc)
          rw [List.append_nil] at h
          simpa [List.intercalate, substitute] using h
      | cons next more =>
          have hcomma : IsSeparator ',' := .inl rfl
          simp only [List.map_cons, intercalate_cons_cons] at ih ⊢
          rw [substitute_part letters name num hname show_ hs part _ (ends_cons ',' _ hcomma),
            substitute_separator letters name num hname none ',' _ hcomma, ih]

end Parts

section Mappings

variable {names : List (String × ℕ)} (letters : Letters)

def replacedBy (mapping : List (String × ℕ)) (text : List Char) : List Char :=
  mapping.foldl (fun text entry => replaced letters entry.1.toList (toString entry.2).toList text) text

def IsMapping (mapping : List (String × ℕ)) : Prop :=
  (mapping.map Prod.fst).Nodup ∧ ∀ entry ∈ mapping, IsName entry.1.toList ∧
    (toString entry.2).toList ≠ [] ∧ ∀ c ∈ (toString entry.2).toList, c.isDigit = true

theorem isToken_replaced (entry : String × ℕ) (text : List Char) (ht : IsToken letters text)
    (he : (toString entry.2).toList ≠ [] ∧ ∀ c ∈ (toString entry.2).toList, c.isDigit = true) :
    IsToken letters (replaced letters entry.1.toList (toString entry.2).toList text) := by
  rw [replaced]
  by_cases hs : isSpelled letters entry.1.toList text = true
  · rw [if_pos hs]
    exact isToken_digits letters _ he.1 he.2
  · rw [if_neg hs]
    exact ht

theorem replaceNames_parts (mapping : List (String × ℕ)) (hm : IsMapping mapping)
    (show_ : Number names → List Char) (hs : ∀ number, IsToken letters (show_ number)) (parts : List (Part names)) :
    replaceNames letters ([','].intercalate (parts.map (Part.print show_))) mapping =
      [','].intercalate (parts.map (Part.print fun number => replacedBy letters mapping (show_ number))) := by
  induction mapping generalizing show_ with
  | nil => rfl
  | cons entry rest ih =>
      obtain ⟨hdistinct, hall⟩ := hm
      obtain ⟨hentry, hrest⟩ := List.forall_mem_cons.mp hall
      have htail : IsMapping rest := ⟨(List.nodup_cons.mp hdistinct).2, hrest⟩
      have htokens (number : Number names) := isToken_replaced letters entry (show_ number) (hs number) hentry.2
      have hstep := substitute_parts letters entry.1.toList (toString entry.2).toList hentry.1 show_ hs parts
      rw [replaceNames, List.foldl_cons, hstep]
      exact ih htail _ htokens

theorem replacedBy_digits (mapping : List (String × ℕ)) (hm : IsMapping mapping) (text : List Char)
    (h : ∀ c ∈ text, c.isDigit = true) : replacedBy letters mapping text = text := by
  induction mapping with
  | nil => rfl
  | cons entry rest ih =>
      obtain ⟨hdistinct, hall⟩ := hm
      obtain ⟨hentry, hrest⟩ := List.forall_mem_cons.mp hall
      rw [replacedBy, List.foldl_cons, replaced_digits letters _ _ hentry.1 text h]
      exact ih ⟨(List.nodup_cons.mp hdistinct).2, hrest⟩

theorem isSpelled_iff (name text : List Char) (h : ∀ c ∈ text, c.toNat < 128) :
    isSpelled letters name text = true ↔ text.map Char.toLower = name := by
  induction text generalizing name with
  | nil => cases name <;> simp [isSpelled]
  | cons c rest ih =>
      obtain ⟨hc, hrest⟩ := List.forall_mem_cons.mp h
      cases name with
      | nil => simp [isSpelled]
      | cons letter more =>
          have hmore := ih more hrest
          rw [isSpelled, Bool.and_eq_true, beq_iff_eq] at hmore
          rw [isSpelled, Bool.and_eq_true, beq_iff_eq, List.zip_cons_cons, List.all_cons, Bool.and_eq_true,
            (letters.ascii c hc).2 letter, beq_iff_eq, List.map_cons, List.cons_eq_cons, ← hmore,
            List.length_cons, List.length_cons, Nat.add_right_cancel_iff]
          exact and_left_comm

-- Of the names, only the one that a word spells replaces it.
theorem replacedBy_name (mapping : List (String × ℕ)) (hm : IsMapping mapping) (entry : String × ℕ)
    (he : entry ∈ mapping) (text : List Char) (hascii : ∀ c ∈ text, c.toNat < 128)
    (hs : text.map Char.toLower = entry.1.toList) :
    replacedBy letters mapping text = (toString entry.2).toList := by
  induction mapping with
  | nil => cases he
  | cons first rest ih =>
      obtain ⟨hdistinct, hall⟩ := hm
      obtain ⟨hfirst, hrest⟩ := List.forall_mem_cons.mp hall
      obtain ⟨hnot, hnodup⟩ := List.nodup_cons.mp hdistinct
      have htail : IsMapping rest := ⟨hnodup, hrest⟩
      have hspelled := isSpelled_iff letters first.1.toList text hascii
      rw [replacedBy, List.foldl_cons, replaced]
      obtain rfl | hmem := List.mem_cons.mp he
      · rw [if_pos (hspelled.mpr hs)]
        exact replacedBy_digits letters rest htail _ hfirst.2.2
      · have hne : ¬isSpelled letters first.1.toList text = true := by
          intro h
          have heq : first.1 = entry.1 := String.toList_inj.mp ((hspelled.mp h).symm.trans hs)
          exact hnot (heq ▸ List.mem_map_of_mem hmem)
        rw [if_neg hne]
        exact ih htail hmem

theorem ascii_of_name (name text : List Char) (hname : IsName name) (hs : text.map Char.toLower = name) :
    ∀ c ∈ text, c.toNat < 128 := by
  intro c hc
  refine lt_of_isLower_toLower c (hname.2 c.toLower ?_)
  rw [← hs]
  exact List.mem_map_of_mem hc

theorem isToken_text (hm : IsMapping names) (number : Number names) : IsToken letters number.text := by
  cases number with
  | plain text ne digits => exact isToken_digits letters text ne digits
  | name entry text mem same =>
      have hname := (hm.2 entry mem).1
      have hascii := ascii_of_name entry.1.toList text hname same
      constructor
      · rintro rfl
        exact hname.1 same.symm
      · intro c hc
        have hlower : c.toLower.isLower = true := by
          refine hname.2 c.toLower ?_
          rw [← same]
          exact List.mem_map_of_mem hc
        rw [(letters.ascii c (hascii c hc)).1, isAlphanum_of_toLower c hlower]
        rfl

theorem replacedBy_text (hm : IsMapping names) (number : Number names) :
    replacedBy letters names number.text = number.digits := by
  cases number with
  | plain text ne digits => exact replacedBy_digits letters names hm text digits
  | name entry text mem same =>
      exact replacedBy_name letters names hm entry mem text
        (ascii_of_name entry.1.toList text (hm.2 entry mem).1 same) same

theorem replaceNames_print (hm : IsMapping names) (field : Field names) :
    replaceNames letters field.print names = [','].intercalate (field.parts.map (Part.print Number.digits)) := by
  rw [Field.print, replaceNames_parts letters names hm Number.text (isToken_text letters hm)]
  simp only [replacedBy_text letters hm]

-- The checks of a mapping, one entry at a time.
def isMapping (mapping : List (String × ℕ)) : Bool :=
  (mapping.map Prod.fst).Nodup && mapping.all fun entry =>
    !entry.1.toList.isEmpty && entry.1.toList.all Char.isLower && !(toString entry.2).toList.isEmpty &&
      (toString entry.2).toList.all Char.isDigit

theorem isMapping_sound (mapping : List (String × ℕ)) (h : isMapping mapping = true) : IsMapping mapping := by
  rw [isMapping, Bool.and_eq_true, decide_eq_true_eq, List.all_eq_true] at h
  refine ⟨h.1, fun entry he => ?_⟩
  have hentry := h.2 entry he
  simp only [Bool.and_eq_true, Bool.not_eq_true', List.isEmpty_eq_false_iff, List.all_eq_true] at hentry
  exact ⟨hentry.1.1, hentry.1.2, hentry.2⟩

theorem isMapping_month : IsMapping MONTH_NAMES := isMapping_sound MONTH_NAMES (by decide)

theorem isMapping_dow : IsMapping DOW_NAMES := isMapping_sound DOW_NAMES (by decide)

theorem isMapping_nil : IsMapping [] := isMapping_sound [] (by decide)

end Mappings

end Trigger

end AgenticOrg.Workflows
