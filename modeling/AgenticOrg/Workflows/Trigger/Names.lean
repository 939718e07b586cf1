import AgenticOrg.Workflows.Trigger.Grammar

namespace AgenticOrg.Workflows

open Directive

namespace Trigger

section Characters

variable (letters : Letters)

-- A name: small letters only.
def IsName (name : List Char) : Prop := name ≠ [] ∧ ∀ letter ∈ name, letter.isLower = true

def IsSeparator (c : Char) : Prop := c = ',' ∨ c = '-' ∨ c = '/' ∨ c = '*'

theorem toNat_of_isLower (c : Char) (h : c.isLower = true) : 97 ≤ c.toNat ∧ c.toNat ≤ 122 := by
  obtain ⟨hlo, hhi⟩ := Bool.and_eq_true_iff.mp h
  exact ⟨of_decide_eq_true hlo, of_decide_eq_true hhi⟩

theorem not_isLower (c letter : Char) (hl : letter.isLower = true) (hc : c.toNat < 97) : c.toLower = c → c ≠ letter := by
  rintro - rfl
  have := (toNat_of_isLower c hl).1
  omega

theorem isWord_separator (c : Char) (h : IsSeparator c) : letters.isWord c = false := by
  rcases h with rfl | rfl | rfl | rfl
  all_goals
    rw [(letters.ascii _ (by decide)).1]
    decide

theorem sameLetter_separator (c letter : Char) (h : IsSeparator c) (hl : letter.isLower = true) :
    letters.sameLetter letter c = false := by
  rcases h with rfl | rfl | rfl | rfl
  all_goals
    rw [(letters.ascii _ (by decide)).2 letter, beq_eq_false_iff_ne]
    exact not_isLower _ letter hl (by decide) (by decide)

theorem isWord_of_isDigit (c : Char) (h : c.isDigit = true) : letters.isWord c = true := by
  have hlt : c.toNat < 128 := by
    have := (Digits.toNat_of_isDigit c h).2
    omega
  rw [(letters.ascii c hlt).1, Char.isAlphanum, h]
  simp

theorem toLower_of_not_upper (c : Char) (h : c.toNat < 65 ∨ 90 < c.toNat) : c.toLower = c := by
  delta Char.toLower
  rw [dif_neg]
  rintro ⟨hlo, hhi⟩
  have hlo' : 65 ≤ c.toNat := hlo
  have hhi' : c.toNat ≤ 90 := hhi
  omega

theorem lt_of_isLower_toLower (c : Char) (h : c.toLower.isLower = true) : c.toNat < 128 := by
  by_cases hc : c.toNat < 65 ∨ 90 < c.toNat
  · rw [toLower_of_not_upper c hc] at h
    have := (toNat_of_isLower c h).2
    omega
  · omega

theorem isAlphanum_of_toLower (c : Char) (h : c.toLower.isLower = true) : c.isAlphanum = true := by
  by_cases hc : c.toNat < 65 ∨ 90 < c.toNat
  · rw [toLower_of_not_upper c hc] at h
    have halpha : c.isAlpha = (c.isUpper || c.isLower) := rfl
    simp [Char.isAlphanum, halpha, h]
  · have hupper : c.isUpper = true :=
      decide_eq_true ⟨show 65 ≤ c.toNat by omega, show c.toNat ≤ 90 by omega⟩
    have halpha : c.isAlpha = (c.isUpper || c.isLower) := rfl
    simp [Char.isAlphanum, halpha, hupper]

theorem isSpace_of_toLower (c : Char) (h : c.toLower.isLower = true) : isSpace c = false := by
  have hrange : 65 ≤ c.toNat ∧ c.toNat ≤ 122 := by
    by_cases hc : c.toNat < 65 ∨ 90 < c.toNat
    · rw [toLower_of_not_upper c hc] at h
      have := toNat_of_isLower c h
      omega
    · omega
  simp only [isSpace, Bool.or_eq_false_iff, Bool.and_eq_false_iff, decide_eq_false_iff_not, beq_eq_false_iff_ne]
  omega

-- A digit is no letter of a name.
theorem sameLetter_digit (c letter : Char) (hc : c.isDigit = true) (hl : letter.isLower = true) :
    letters.sameLetter letter c = false := by
  have hle := (Digits.toNat_of_isDigit c hc).2
  rw [(letters.ascii c (by omega)).2 letter, beq_eq_false_iff_ne]
  have hsame := toLower_of_not_upper c (.inl (by omega))
  rw [hsame]
  exact not_isLower c letter hl (by omega) hsame

end Characters

section Substitution

variable (letters : Letters) (name num : List Char)

-- The text is the name, in any case.
def isSpelled (text : List Char) : Bool :=
  name.length == text.length && (name.zip text).all fun pair => letters.sameLetter pair.1 pair.2

def replaced (text : List Char) : List Char := if isSpelled letters name text then num else text

-- What may follow a number: nothing, or a separator.
def Ends (rest : List Char) : Prop := ∀ c, rest.head? = some c → IsSeparator c

def IsToken (text : List Char) : Prop := text ≠ [] ∧ ∀ c ∈ text, letters.isWord c = true

variable (hname : IsName name)

theorem matchesAt_congr (before other : Option Char) (text : List Char)
    (h : before.any letters.isWord = other.any letters.isWord) :
    matchesAt letters name before text = matchesAt letters name other text := by
  simp only [matchesAt, atBoundary, h]

theorem substitute_congr (before other : Option Char) (text : List Char)
    (h : before.any letters.isWord = other.any letters.isWord) :
    substitute letters name num before 0 text = substitute letters name num other 0 text := by
  cases text with
  | nil => rfl
  | cons c rest => rw [substitute, substitute, matchesAt_congr letters name before other (c :: rest) h]

include hname

theorem substitute_separator (before : Option Char) (c : Char) (rest : List Char) (hc : IsSeparator c) :
    substitute letters name num before 0 (c :: rest) = c :: substitute letters name num none 0 rest := by
  have hspells : spells letters name (c :: rest) = false := by
    cases hn : name with
    | nil => exact absurd hn hname.1
    | cons letter more =>
        have hl := hname.2 letter (by rw [hn]; exact List.mem_cons_self)
        rw [spells, List.zip_cons_cons, List.all_cons, sameLetter_separator letters c letter hc hl]
        simp
  have hmatch : matchesAt letters name before (c :: rest) = false := by
    rw [matchesAt, hspells]
    simp
  rw [substitute, hmatch, if_neg (by simp)]
  congr 1
  exact substitute_congr letters name num (some c) none rest (isWord_separator letters c hc)

theorem substitute_ends (before : Option Char) (rest : List Char) (h : Ends rest) :
    substitute letters name num before 0 rest = substitute letters name num none 0 rest := by
  cases rest with
  | nil => rfl
  | cons c rest =>
      rw [substitute_separator letters name num hname before c rest (h c rfl),
        substitute_separator letters name num hname none c rest (h c rfl)]

-- Inside a word no name begins.
theorem substitute_inside (before : Char) (text rest : List Char) (hb : letters.isWord before = true)
    (ht : ∀ c ∈ text, letters.isWord c = true) (hr : Ends rest) :
    substitute letters name num (some before) 0 (text ++ rest) =
      text ++ substitute letters name num none 0 rest := by
  induction text generalizing before with
  | nil => exact substitute_ends letters name num hname (some before) rest hr
  | cons c more ih =>
      obtain ⟨hc, hmore⟩ := List.forall_mem_cons.mp ht
      have hmatch : matchesAt letters name (some before) (c :: (more ++ rest)) = false := by
        simp [matchesAt, atBoundary, hb, hc]
      rw [List.cons_append, substitute, hmatch, if_neg (by simp), ih c hc hmore]
      rfl

theorem substitute_skip (before : Option Char) (text rest : List Char) (hr : Ends rest) :
    substitute letters name num before text.length (text ++ rest) = substitute letters name num none 0 rest := by
  induction text generalizing before with
  | nil => exact substitute_ends letters name num hname before rest hr
  | cons c more ih =>
      rw [List.length_cons, List.cons_append, substitute]
      exact ih (some c)

-- A name is found where a whole word spells it.
theorem matchesAt_token (c : Char) (more rest : List Char) (ht : ∀ d ∈ c :: more, letters.isWord d = true)
    (hr : Ends rest) :
    matchesAt letters name none (c :: more ++ rest) = isSpelled letters name (c :: more) := by
  have hstart : atBoundary letters none (c :: more ++ rest).head? = true := by
    simp [atBoundary, ht c List.mem_cons_self]
  have hpos : 0 < name.length := List.length_pos_iff.mpr hname.1
  rw [matchesAt, hstart, Bool.true_and]
  rcases Nat.lt_trichotomy name.length (c :: more).length with hlt | heq | hgt
  · -- the word goes on after the name
    have hlast : (c :: more ++ rest)[name.length - 1]? = some ((c :: more)[name.length - 1]) := by
      rw [List.getElem?_append_left (by omega), List.getElem?_eq_getElem (by omega)]
    have hnext : (c :: more ++ rest)[name.length]? = some ((c :: more)[name.length]) := by
      rw [List.getElem?_append_left hlt, List.getElem?_eq_getElem hlt]
    have hinside : atBoundary letters (c :: more ++ rest)[name.length - 1]? (c :: more ++ rest)[name.length]? = false := by
      rw [hlast, hnext, atBoundary, Option.any_some, Option.any_some, ht _ (List.getElem_mem _),
        ht _ (List.getElem_mem _)]
      rfl
    rw [hinside, Bool.and_false, isSpelled, beq_false_of_ne (by omega), Bool.false_and]
  · have hlast : (c :: more ++ rest)[name.length - 1]? = some ((c :: more)[name.length - 1]) := by
      rw [List.getElem?_append_left (by omega), List.getElem?_eq_getElem (by omega)]
    have hnext : (c :: more ++ rest)[name.length]? = rest.head? := by
      rw [List.getElem?_append_right (by omega), heq, Nat.sub_self, List.head?_eq_getElem?]
    have hafter : rest.head?.any letters.isWord = false := by
      cases hh : rest.head? with
      | none => rfl
      | some d => exact isWord_separator letters d (hr d hh)
    have hend : atBoundary letters (c :: more ++ rest)[name.length - 1]? (c :: more ++ rest)[name.length]? = true := by
      rw [hlast, hnext, atBoundary, hafter, Option.any_some, ht _ (List.getElem_mem _)]
      rfl
    have hzip : name.zip (c :: more ++ rest) = name.zip (c :: more) := by
      rw [← List.append_nil name, List.zip_append heq, List.append_nil, List.zip_nil_left, List.append_nil]
    rw [hend, Bool.and_true, spells, isSpelled, hzip, heq]
    simp
  · -- the name goes on where the word ends
    rw [isSpelled, beq_false_of_ne (by omega), Bool.false_and, Bool.and_eq_false_iff]
    left
    rw [spells, Bool.and_eq_false_iff]
    by_cases hlen : name.length ≤ (c :: more ++ rest).length
    · right
      rw [List.all_eq_false]
      have hrest : (c :: more).length < (c :: more ++ rest).length := by omega
      have hhead : rest.head? = some ((c :: more ++ rest)[(c :: more).length]) := by
        rw [List.head?_eq_getElem?, ← List.getElem?_eq_getElem hrest, List.getElem?_append_right (by omega),
          Nat.sub_self]
      refine ⟨(name[(c :: more).length], (c :: more ++ rest)[(c :: more).length]), ?_, ?_⟩
      · rw [List.mem_iff_getElem?]
        refine ⟨(c :: more).length, ?_⟩
        rw [List.getElem?_zip_eq_some]
        exact ⟨List.getElem?_eq_getElem hgt, List.getElem?_eq_getElem hrest⟩
      · rw [sameLetter_separator letters _ _ (hr _ hhead) (hname.2 _ (List.getElem_mem _))]
        simp
    · left
      rw [decide_eq_false_iff_not]
      exact hlen

theorem substitute_token (text rest : List Char) (ht : IsToken letters text) (hr : Ends rest) :
    substitute letters name num none 0 (text ++ rest) =
      replaced letters name num text ++ substitute letters name num none 0 rest := by
  cases text with
  | nil => exact absurd rfl ht.1
  | cons c more =>
      obtain ⟨hc, hmore⟩ := List.forall_mem_cons.mp ht.2
      have hmatch := matchesAt_token letters name hname c more rest ht.2 hr
      rw [List.cons_append] at hmatch ⊢
      rw [substitute, hmatch, replaced]
      by_cases hs : isSpelled letters name (c :: more) = true
      · have hlen : name.length - 1 = more.length := by
          rw [isSpelled, Bool.and_eq_true, beq_iff_eq, List.length_cons] at hs
          omega
        rw [if_pos hs, if_pos hs, hlen, substitute_skip letters name num hname (some c) more rest hr]
      · rw [if_neg hs, if_neg hs, substitute_inside letters name num hname c more rest hc hmore hr]
        rfl

end Substitution

end Trigger

end AgenticOrg.Workflows
