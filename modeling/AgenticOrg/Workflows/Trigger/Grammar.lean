import Mathlib.Data.Set.Basic
import AgenticOrg.Workflows.Trigger

namespace AgenticOrg.Workflows

open Directive

namespace Trigger

section Syntax

variable (names : List (String × ℕ))

-- A number of a field: its digits, or a name in any mixture of cases.
inductive Number where
  | plain (text : List Char) (ne : text ≠ []) (digits : ∀ c ∈ text, c.isDigit = true)
  | name (entry : String × ℕ) (text : List Char) (mem : entry ∈ names)
      (same : text.map Char.toLower = entry.1.toList)

structure Step where
  text : List Char
  ne : text ≠ []
  digits : ∀ c ∈ text, c.isDigit = true
  pos : 1 ≤ Digits.natOf text

inductive Part where
  | every
  | one (number : Number names)
  | range (first last : Number names)
  | everyStep (step : Step)
  | fromStep (first : Number names) (step : Step)
  | rangeStep (first last : Number names) (step : Step)

structure Field where
  parts : List (Part names)
  ne : parts ≠ []

end Syntax

section Numbers

variable {names : List (String × ℕ)}

def Number.value : Number names → ℕ
  | plain text _ _ => Digits.natOf text
  | name entry _ _ _ => entry.2

-- The digits that a number is read from.
def Number.digits : Number names → List Char
  | plain text _ _ => text
  | name entry _ _ _ => (toString entry.2).toList

def Step.value (step : Step) : ℕ := Digits.natOf step.text

def Part.numbers : Part names → List (Number names)
  | every => []
  | one number => [number]
  | range first last => [first, last]
  | everyStep _ => []
  | fromStep first _ => [first]
  | rangeStep first last _ => [first, last]

def Part.steps : Part names → List Step
  | everyStep step => [step]
  | fromStep _ step => [step]
  | rangeStep _ _ step => [step]
  | _ => []

end Numbers

section Printing

variable {names : List (String × ℕ)}

def Number.text : Number names → List Char
  | plain text _ _ => text
  | name _ text _ _ => text

-- `show_` prints the numbers.
def Part.print (show_ : Number names → List Char) : Part names → List Char
  | every => ['*']
  | one number => show_ number
  | range first last => show_ first ++ '-' :: show_ last
  | everyStep step => '*' :: '/' :: step.text
  | fromStep first step => show_ first ++ '/' :: step.text
  | rangeStep first last step => show_ first ++ '-' :: show_ last ++ '/' :: step.text

def Field.print (field : Field names) : List Char :=
  [','].intercalate (field.parts.map (Part.print Number.text))

end Printing

section Meaning

variable {names : List (String × ℕ)}

-- The values that a part stands for in a field of the values from `lo` to `hi`.
def Part.denotes (lo hi : ℕ) : Part names → Set ℕ
  | every => {v | lo ≤ v ∧ v ≤ hi}
  | one number => {number.value}
  | range first last => {v | first.value ≤ v ∧ v ≤ last.value}
  | everyStep step => {v | lo ≤ v ∧ v ≤ hi ∧ step.value ∣ v - lo}
  | fromStep first step => {v | first.value ≤ v ∧ v ≤ max first.value hi ∧ step.value ∣ v - first.value}
  | rangeStep first last step => {v | first.value ≤ v ∧ v ≤ last.value ∧ step.value ∣ v - first.value}

def Field.denotes (lo hi : ℕ) (field : Field names) : Set ℕ := {v | ∃ part ∈ field.parts, v ∈ part.denotes lo hi}

end Meaning

section Reading

variable {names : List (String × ℕ)}

-- No number is longer than `int()` takes.
def Part.Fits (part : Part names) : Prop :=
  (∀ number ∈ part.numbers, number.digits.length ≤ Digits.MAX_STR_DIGITS) ∧
    ∀ step ∈ part.steps, step.text.length ≤ Digits.MAX_STR_DIGITS

-- The parts are read up to the first that has the value.
def readsParts (lo hi value : ℕ) : List (Part names) → Prop
  | [] => True
  | part :: rest => part.Fits ∧ (value ∈ part.denotes lo hi ∨ readsParts lo hi value rest)

def Field.Reads (lo hi value : ℕ) (field : Field names) : Prop := readsParts lo hi value field.parts

end Reading

section Expressions

def IsBlank (text : List Char) : Prop := ∀ c ∈ text, isSpace c = true

-- The blanks between the fields.
structure Gap where
  text : List Char
  ne : text ≠ []
  blank : IsBlank text

structure Expression where
  minute : Field []
  hour : Field []
  dom : Field []
  month : Field MONTH_NAMES
  dow : Field DOW_NAMES
  dow_within : ∀ part ∈ dow.parts, ∀ number ∈ part.numbers, number.value ≤ 7
  gaps : Fin 4 → Gap
  before : List Char
  after : List Char
  before_blank : IsBlank before
  after_blank : IsBlank after

def Expression.print (expression : Expression) : List Char :=
  expression.before ++ (expression.minute.print ++ ((expression.gaps 0).text ++ (expression.hour.print ++
    ((expression.gaps 1).text ++ (expression.dom.print ++ ((expression.gaps 2).text ++ (expression.month.print ++
      ((expression.gaps 3).text ++ (expression.dow.print ++ expression.after)))))))))

-- What the fields before the weekday say about a time.
def Expression.DayFits (expression : Expression) (dt : DateTime) : Prop :=
  dt.minute ∈ expression.minute.denotes 0 59 ∧ dt.hour ∈ expression.hour.denotes 0 23 ∧
    dt.day ∈ expression.dom.denotes 1 31 ∧ dt.month ∈ expression.month.denotes 1 12

-- The fields are read up to the first that does not have its value.
def Expression.Reads (expression : Expression) (dt : DateTime) : Prop :=
  expression.minute.Reads 0 59 dt.minute ∧ (dt.minute ∈ expression.minute.denotes 0 59 →
    expression.hour.Reads 0 23 dt.hour ∧ (dt.hour ∈ expression.hour.denotes 0 23 →
      expression.dom.Reads 1 31 dt.day ∧ (dt.day ∈ expression.dom.denotes 1 31 →
        expression.month.Reads 1 12 dt.month ∧ (dt.month ∈ expression.month.denotes 1 12 →
          expression.dow.Reads 0 6 dt.cronDow))))

-- 7 is Sunday as well.
def Expression.Denotes (expression : Expression) (dt : DateTime) : Prop :=
  expression.DayFits dt ∧
    (dt.cronDow ∈ expression.dow.denotes 0 6 ∨ dt.cronDow = 0 ∧ 7 ∈ expression.dow.denotes 0 6)

end Expressions

end Trigger

end AgenticOrg.Workflows
