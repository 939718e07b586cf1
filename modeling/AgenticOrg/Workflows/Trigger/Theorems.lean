import AgenticOrg.Workflows.Trigger.Matching

namespace AgenticOrg.Workflows

open Directive

namespace Trigger

section Expressions

variable (letters : Letters) (digits : Digits)

theorem text_of_nil (field : Field []) :
    field.print = [','].intercalate (field.parts.map (Part.print Number.digits)) := by
  have hsame : (Number.text : Number [] → List Char) = Number.digits := by
    funext number
    cases number with
    | plain text ne digits => rfl
    | name entry text mem same => cases mem
  rw [Field.print, hsame]

theorem isSpace_text {names : List (String × ℕ)} (hm : IsMapping names) (number : Number names) :
    ∀ c ∈ number.text, isSpace c = false := by
  intro c hc
  cases number with
  | plain text ne digits => exact Digits.isSpace_of_isDigit c (digits c hc)
  | name entry text mem same =>
      have hlower : c.toLower.isLower = true := by
        refine (hm.2 entry mem).1.2 c.toLower ?_
        rw [← same]
        exact List.mem_map_of_mem hc
      exact isSpace_of_toLower c hlower

theorem intercalate_forall (P : Char → Prop) (hcomma : P ',') (texts : List (List Char))
    (h : ∀ text ∈ texts, ∀ c ∈ text, P c) : ∀ c ∈ [','].intercalate texts, P c := by
  induction texts with
  | nil => simp [List.intercalate]
  | cons text rest ih =>
      obtain ⟨htext, hrest⟩ := List.forall_mem_cons.mp h
      cases rest with
      | nil => simpa [List.intercalate] using htext
      | cons next more =>
          rw [intercalate_cons_cons, List.forall_mem_append, List.forall_mem_cons]
          exact ⟨htext, hcomma, ih hrest⟩

theorem no_space_field {names : List (String × ℕ)} (hm : IsMapping names) (field : Field names) :
    field.print ≠ [] ∧ ∀ c ∈ field.print, isSpace c = false := by
  constructor
  · obtain ⟨parts, hne⟩ := field
    cases parts with
    | nil => exact absurd rfl hne
    | cons part rest =>
        have hpart : part.print Number.text ≠ [] := by
          refine print_ne_nil Number.text part fun number => ?_
          cases number with
          | plain text ne digits => exact ne
          | name entry text mem same =>
              rintro rfl
              exact (hm.2 entry mem).1.1 same.symm
        cases rest with
        | nil => simpa [Field.print, List.intercalate] using hpart
        | cons next more => simp [Field.print]
  · refine intercalate_forall (fun c => isSpace c = false) (by decide) _ ?_
    intro text ht
    obtain ⟨part, -, rfl⟩ := List.mem_map.mp ht
    exact print_forall Number.text (fun c => isSpace c = false) Digits.isSpace_of_isDigit (by decide)
      (isSpace_text hm) part

theorem words_print (expression : Expression) :
    words (strip expression.print) = [expression.minute.print, expression.hour.print, expression.dom.print,
      expression.month.print, expression.dow.print] := by
  have hminute := no_space_field isMapping_nil expression.minute
  have hhour := no_space_field isMapping_nil expression.hour
  have hdom := no_space_field isMapping_nil expression.dom
  have hmonth := no_space_field isMapping_month expression.month
  have hdow := no_space_field isMapping_dow expression.dow
  rw [words_strip, Expression.print, words_blank_append _ _ expression.before_blank,
    words_gap _ _ _ hminute.1 hminute.2, words_gap _ _ _ hhour.1 hhour.2, words_gap _ _ _ hdom.1 hdom.2,
    words_gap _ _ _ hmonth.1 hmonth.2, words_append_blank _ _ expression.after_blank,
    words_token _ hdow.1 hdow.2]

theorem cronDow_le (dt : DateTime) : dt.cronDow ≤ 6 := by
  have := Nat.mod_lt dt.isoweekday (show 0 < 7 by decide)
  rw [DateTime.cronDow]
  omega

-- What the matcher answers: 7 is a value no weekday has.
theorem cronMatches_print (expression : Expression) (dt : DateTime) :
    Tells (cronMatches letters digits expression.print dt) (expression.Reads dt)
      (expression.DayFits dt ∧ dt.cronDow ∈ expression.dow.denotes 0 6) := by
  have hminute := fieldMatches_print digits isMapping_nil hasValues_nil dt.minute 0 59
    ⟨Nat.zero_le _, dt.minute_le⟩ expression.minute
  have hhour := fieldMatches_print digits isMapping_nil hasValues_nil dt.hour 0 23
    ⟨Nat.zero_le _, dt.hour_le⟩ expression.hour
  have hdom := fieldMatches_print digits isMapping_nil hasValues_nil dt.day 1 31 dt.day_within expression.dom
  have hmonth := fieldMatches_print digits isMapping_month hasValues_month dt.month 1 12 dt.month_within
    expression.month
  have hdow := fieldMatches_print digits isMapping_dow hasValues_dow dt.cronDow 0 6
    ⟨Nat.zero_le _, cronDow_le dt⟩ expression.dow
  simp only [Nat.cast_zero, Nat.cast_one, Nat.cast_ofNat] at hminute hhour hdom hmonth hdow
  rw [← text_of_nil] at hminute hhour hdom
  rw [← replaceNames_print letters isMapping_month] at hmonth
  rw [← replaceNames_print letters isMapping_dow] at hdow
  have hall := tells_andThen _ (fun _ => _) _ _ _ _ hminute (tells_andThen _ (fun _ => _) _ _ _ _ hhour
    (tells_andThen _ (fun _ => _) _ _ _ _ hdom (tells_andThen _ (fun _ => _) _ _ _ _ hmonth hdow)))
  rw [cronMatches, words_print]
  refine tells_congr _ _ _ _ _ Iff.rfl ?_ hall
  rw [Expression.DayFits]
  tauto

-- The matcher gives what the expression denotes, unless it is a Sunday that the
-- weekday field names only as 7, or a number is too long to be read.
theorem cron_exact (expression : Expression) (dt : DateTime) :
    (∃ answer, cronMatches letters digits expression.print dt = some answer ∧
        (answer = true ↔ expression.Denotes dt)) ↔
      expression.Reads dt ∧
        (dt.cronDow = 0 → expression.DayFits dt → 7 ∈ expression.dow.denotes 0 6 →
          0 ∈ expression.dow.denotes 0 6) := by
  have htells := cronMatches_print letters digits expression dt
  by_cases hr : expression.Reads dt
  · obtain ⟨found, he, hf⟩ := htells.1 hr
    rw [he]
    constructor
    · rintro ⟨answer, ha, hd⟩
      cases ha
      refine ⟨hr, fun hsunday hday hseven => ?_⟩
      have hfits := (hf.mp (hd.mpr ⟨hday, .inr ⟨hsunday, hseven⟩⟩)).2
      rw [hsunday] at hfits
      exact hfits
    · rintro ⟨-, hzero⟩
      refine ⟨found, rfl, hf.trans ⟨fun h => ⟨h.1, .inl h.2⟩, ?_⟩⟩
      rintro ⟨hday, hin | ⟨hsunday, hseven⟩⟩
      · exact ⟨hday, hin⟩
      · refine ⟨hday, ?_⟩
        rw [hsunday]
        exact hzero hsunday hday hseven
  · rw [htells.2 hr]
    constructor
    · rintro ⟨answer, ha, -⟩
      cases ha
    · exact fun h => absurd h.1 hr

end Expressions

section Cases

def asciiLetters : Letters where
  isWord c := c.isAlphanum || c == '_'
  sameLetter letter c := c.toLower == letter
  ascii _ _ := ⟨rfl, fun _ => rfl⟩

def anyValue (names : List (String × ℕ)) : Field names := ⟨[.every], by simp⟩

def single {names : List (String × ℕ)} (c : Char) (h : c.isDigit = true) : Field names :=
  ⟨[.one (.plain [c] (by simp) (by simpa using h))], by simp⟩

-- `0 9 * * 7`
def sevenOnly : Expression where
  minute := single '0' (by decide)
  hour := single '9' (by decide)
  dom := anyValue []
  month := anyValue MONTH_NAMES
  dow := single '7' (by decide)
  dow_within := by
    intro part hp number hn
    obtain rfl := List.mem_singleton.mp hp
    obtain rfl := List.mem_singleton.mp hn
    decide
  gaps _ := ⟨[' '], by simp, fun c hc => by rw [List.mem_singleton.mp hc]; rfl⟩
  before := []
  after := []
  before_blank := fun _ h => absurd h List.not_mem_nil
  after_blank := fun _ h => absurd h List.not_mem_nil

-- 7 January 2024, nine o'clock.
def aSunday : DateTime where
  minute := 0
  hour := 9
  day := 7
  month := 1
  isoweekday := 7
  minute_le := by decide
  hour_le := by decide
  day_within := by decide
  month_within := by decide
  isoweekday_within := by decide

-- A Sunday that is written as 7 is never matched.
theorem sevenOnly_sunday :
    ¬∃ answer, cronMatches asciiLetters Digits.asciiDigits sevenOnly.print aSunday = some answer ∧
      (answer = true ↔ sevenOnly.Denotes aSunday) := by
  have hrun : cronMatches asciiLetters Digits.asciiDigits sevenOnly.print aSunday = some false := by decide
  have hone {names : List (String × ℕ)} (c : Char) (h : c.isDigit = true) (lo hi value : ℕ)
      (he : Digits.natOf [c] = value) : value ∈ (single c h : Field names).denotes lo hi :=
    ⟨_, List.mem_cons_self, he.symm⟩
  have hevery (names : List (String × ℕ)) (lo hi value : ℕ) (hl : lo ≤ value ∧ value ≤ hi) :
      value ∈ (anyValue names).denotes lo hi := ⟨_, List.mem_cons_self, hl⟩
  rintro ⟨answer, he, hd⟩
  rw [hrun] at he
  cases he
  refine Bool.noConfusion (hd.mpr ⟨⟨?_, ?_, ?_, ?_⟩, .inr ⟨rfl, ?_⟩⟩)
  · exact hone '0' (by decide) 0 59 0 rfl
  · exact hone '9' (by decide) 0 23 9 rfl
  · exact hevery [] 1 31 7 (by decide)
  · exact hevery MONTH_NAMES 1 12 1 (by decide)
  · exact hone '7' (by decide) 0 6 7 rfl

end Cases

end Trigger

end AgenticOrg.Workflows
