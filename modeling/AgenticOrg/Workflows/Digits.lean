import AgenticOrg.Workflows.Definition

namespace AgenticOrg.Workflows

open Directive

-- What Python takes for a digit, and the value `int()` reads from it. Outside
-- ASCII there are digits, such as superscripts, that `int()` refuses.
structure Digits where
  isDigit : Char → Bool
  decimal : Char → Option ℕ
  ascii : ∀ c : Char, c.toNat < 128 →
    isDigit c = c.isDigit ∧ decimal c = if c.isDigit then some (c.toNat - 48) else none

namespace Digits

-- `int()` refuses texts of more digits.
def MAX_STR_DIGITS : ℕ := 4300

def valueOf (values : List ℕ) : ℕ := values.foldl (10 * · + ·) 0

section Conversion

variable (digits : Digits)

-- `text.isdigit()`
def isNumeric (text : List Char) : Bool := !text.isEmpty && text.all digits.isDigit

-- Digits, with single underscores between them.
def magnitude (text : List Char) : Option ℕ :=
  match (text.splitOn '_').mapM fun group => if group.isEmpty then none else group.mapM digits.decimal with
  | none => none
  | some groups => if MAX_STR_DIGITS < groups.flatten.length then none else some (valueOf groups.flatten)

-- `int(text)`; `none` is its `ValueError`.
def int (text : List Char) : Option ℤ :=
  match strip text with
  | '-' :: rest => (digits.magnitude rest).map fun n => -(n : ℤ)
  | '+' :: rest => (digits.magnitude rest).map Nat.cast
  | rest => (digits.magnitude rest).map Nat.cast

end Conversion

section Lemmas

variable (digits : Digits)

-- The number that a text of ASCII digits stands for.
def natOf (text : List Char) : ℕ := valueOf (text.map fun c => c.toNat - 48)

theorem toNat_of_isDigit (c : Char) (h : c.isDigit = true) : 48 ≤ c.toNat ∧ c.toNat ≤ 57 := by
  simp only [Char.isDigit, Bool.and_eq_true, decide_eq_true_eq] at h
  exact ⟨h.1, h.2⟩

theorem isSpace_of_isDigit (c : Char) (h : c.isDigit = true) : isSpace c = false := by
  obtain ⟨hlo, hhi⟩ := toNat_of_isDigit c h
  simp only [isSpace, Bool.or_eq_false_iff, Bool.and_eq_false_iff, decide_eq_false_iff_not, beq_eq_false_iff_ne]
  omega

theorem ne_of_isDigit (c other : Char) (h : c.isDigit = true) (ho : other.isDigit = false) : c ≠ other := by
  rintro rfl
  rw [h] at ho
  cases ho

theorem strip_of_no_space (text : List Char) (h : ∀ c ∈ text, isSpace c = false) : strip text = text := by
  have hdrop (chars : List Char) (hc : ∀ c ∈ chars, isSpace c = false) : chars.dropWhile isSpace = chars := by
    cases chars with
    | nil => rfl
    | cons c rest => rw [List.dropWhile_cons, hc c List.mem_cons_self, if_neg (by simp)]
  rw [strip, hdrop text h, hdrop text.reverse fun c hc => h c (List.mem_reverse.mp hc), List.reverse_reverse]

theorem mapM_decimal (text : List Char) (h : ∀ c ∈ text, c.isDigit = true) :
    text.mapM digits.decimal = some (text.map fun c => c.toNat - 48) := by
  induction text with
  | nil => rfl
  | cons c rest ih =>
      obtain ⟨hc, hrest⟩ := List.forall_mem_cons.mp h
      obtain ⟨-, hhi⟩ := toNat_of_isDigit c hc
      rw [List.mapM_cons, (digits.ascii c (by omega)).2, if_pos hc, ih hrest]
      rfl

theorem magnitude_digits (text : List Char) (hne : text ≠ []) (h : ∀ c ∈ text, c.isDigit = true) :
    digits.magnitude text = if MAX_STR_DIGITS < text.length then none else some (natOf text) := by
  have hsplit : text.splitOn '_' = [text] := by
    rw [List.splitOn_eq_splitOnP]
    refine List.splitOnP_eq_singleton ?_
    intro c hc
    rw [beq_eq_false_iff_ne]
    exact ne_of_isDigit c '_' (h c hc) (by decide)
  have hgroup : ([text].mapM fun group => if group.isEmpty then none else group.mapM digits.decimal) =
      some [text.map fun c => c.toNat - 48] := by
    rw [List.mapM_cons, if_neg (by simpa using hne), mapM_decimal digits text h]
    rfl
  rw [magnitude, hsplit, hgroup]
  simp [natOf]

theorem int_digits (text : List Char) (hne : text ≠ []) (h : ∀ c ∈ text, c.isDigit = true) :
    digits.int text = if MAX_STR_DIGITS < text.length then none else some (natOf text : ℤ) := by
  rw [int, strip_of_no_space text fun c hc => isSpace_of_isDigit c (h c hc)]
  cases text with
  | nil => exact absurd rfl hne
  | cons c rest =>
      have hminus := ne_of_isDigit c '-' (h c List.mem_cons_self) (by decide)
      have hplus := ne_of_isDigit c '+' (h c List.mem_cons_self) (by decide)
      have hsign : (match c :: rest with
          | '-' :: rest => (digits.magnitude rest).map fun n => -(n : ℤ)
          | '+' :: rest => (digits.magnitude rest).map Nat.cast
          | rest => (digits.magnitude rest).map Nat.cast) = (digits.magnitude (c :: rest)).map Nat.cast := by
        split
        · rename_i he
          exact absurd (List.cons.inj he).1 hminus
        · rename_i he
          exact absurd (List.cons.inj he).1 hplus
        · rfl
      rw [hsign, magnitude_digits digits (c :: rest) hne h]
      split_ifs <;> rfl

end Lemmas

-- The digits of ASCII only.
def asciiDigits : Digits where
  isDigit := Char.isDigit
  decimal c := if c.isDigit then some (c.toNat - 48) else none
  ascii _ _ := ⟨rfl, rfl⟩

end Digits

end AgenticOrg.Workflows
