import AgenticOrg.Workflows.Digits

namespace AgenticOrg.Workflows

open Directive

namespace Trigger

section Names

-- What `re` takes for a word character, and for `letter` in either case. Outside
-- ASCII there are characters that are one of the letters when case is ignored.
structure Letters where
  isWord : Char → Bool
  sameLetter : Char → Char → Bool
  ascii : ∀ c : Char, c.toNat < 128 →
    isWord c = (c.isAlphanum || c == '_') ∧ ∀ letter, sameLetter letter c = (c.toLower == letter)

def DOW_NAMES : List (String × ℕ) :=
  [("sun", 0), ("mon", 1), ("tue", 2), ("wed", 3), ("thu", 4), ("fri", 5), ("sat", 6)]

def MONTH_NAMES : List (String × ℕ) :=
  [("jan", 1), ("feb", 2), ("mar", 3), ("apr", 4), ("may", 5), ("jun", 6), ("jul", 7), ("aug", 8), ("sep", 9),
    ("oct", 10), ("nov", 11), ("dec", 12)]

variable (letters : Letters)

-- `\b` between two characters of the text, or at its ends.
def atBoundary (before after : Option Char) : Bool := before.any letters.isWord != after.any letters.isWord

def spells (name text : List Char) : Bool :=
  name.length ≤ text.length && (name.zip text).all fun pair => letters.sameLetter pair.1 pair.2

def matchesAt (name : List Char) (before : Option Char) (text : List Char) : Bool :=
  atBoundary letters before text.head? && spells letters name text &&
    atBoundary letters text[name.length - 1]? text[name.length]?

-- `re.sub(r"\bname\b", num, text, flags=re.IGNORECASE)`; `skip` characters of a
-- match are left.
def substitute (name num : List Char) : Option Char → ℕ → List Char → List Char
  | _, _, [] => []
  | _, skip + 1, c :: text => substitute name num (some c) skip text
  | before, 0, c :: text =>
      if matchesAt letters name before (c :: text) then
        num ++ substitute name num (some c) (name.length - 1) text
      else c :: substitute name num (some c) 0 text

def replaceNames (field : List Char) (mapping : List (String × ℕ)) : List Char :=
  mapping.foldl (fun field entry => substitute letters entry.1.toList (toString entry.2).toList none 0 field) field

end Names

section Fields

variable (digits : Digits)

-- `text.split(c, 1)` of a text that has the character.
def splitOnce (c : Char) (text : List Char) : List Char × List Char :=
  (text.takeWhile (· != c), (text.dropWhile (· != c)).tail)

-- `value in range(start, stop, step)`; `none` is the `ValueError` of a step of zero.
def inRange (value start stop step : ℤ) : Option Bool :=
  if step = 0 then none
  else if 0 < step then some (decide (start ≤ value ∧ value < stop ∧ step ∣ value - start))
  else some (decide (value ≤ start ∧ stop < value ∧ step ∣ value - start))

def bounds (text : List Char) : Option (ℤ × ℤ) := do
  let start ← digits.int (splitOnce '-' text).1
  let stop ← digits.int (splitOnce '-' text).2
  return (start, stop)

-- The range that a step goes through.
def stepBounds (rangePart : List Char) (minVal maxVal : ℤ) : Option (ℤ × ℤ) :=
  if rangePart = ['*'] then some (minVal, maxVal)
  else if '-' ∈ rangePart then bounds digits rangePart
  else (digits.int rangePart).map fun start => (start, maxVal)

def stepMatches (part : List Char) (value minVal maxVal : ℤ) : Option Bool := do
  let step ← digits.int (splitOnce '/' part).2
  let range ← stepBounds digits (splitOnce '/' part).1 minVal maxVal
  inRange value range.1 (range.2 + 1) step

-- Whether a part of a field lets the value in; `none` is a `ValueError`.
def partMatches (part : List Char) (value minVal maxVal : ℤ) : Option Bool :=
  if part = ['*'] then some true
  else if '/' ∈ part then stepMatches digits part value minVal maxVal
  else if '-' ∈ part then
    (bounds digits part).map fun (start, stop) => decide (start ≤ value ∧ value ≤ stop)
  else (digits.int part).map fun literal => decide (literal = value)

def anyMatches (value minVal maxVal : ℤ) : List (List Char) → Option Bool
  | [] => some false
  | part :: rest =>
      (partMatches digits (strip part) value minVal maxVal).bind fun found =>
        if found then some true else anyMatches value minVal maxVal rest

def fieldMatches (field : List Char) (value minVal maxVal : ℤ) : Option Bool :=
  anyMatches digits value minVal maxVal (field.splitOn ',')

end Fields

section Times

-- The parts of a date-time that a schedule looks at; `isoweekday` is 1 on a
-- Monday and 7 on a Sunday.
structure DateTime where
  minute : ℕ
  hour : ℕ
  day : ℕ
  month : ℕ
  isoweekday : ℕ
  minute_le : minute ≤ 59
  hour_le : hour ≤ 23
  day_within : 1 ≤ day ∧ day ≤ 31
  month_within : 1 ≤ month ∧ month ≤ 12
  isoweekday_within : 1 ≤ isoweekday ∧ isoweekday ≤ 7

-- Sunday is 0, Monday is 1.
def DateTime.cronDow (dt : DateTime) : ℕ := dt.isoweekday % 7

-- `text.split()`
def words (text : List Char) : List (List Char) := (text.splitOnP isSpace).filter (!·.isEmpty)

variable (letters : Letters) (digits : Digits)

-- `a and b`, where `a` may raise.
def andThen (first : Option Bool) (second : Unit → Option Bool) : Option Bool :=
  first.bind fun found => if found then second () else some false

-- `none` is a `ValueError`: not five fields, or a text that is no number.
def cronMatches (expression : List Char) (dt : DateTime) : Option Bool :=
  match words (strip expression) with
  | [minute, hour, dom, month, dow] =>
      let month := replaceNames letters month MONTH_NAMES
      let dow := replaceNames letters dow DOW_NAMES
      andThen (fieldMatches digits minute dt.minute 0 59) fun _ =>
        andThen (fieldMatches digits hour dt.hour 0 23) fun _ =>
          andThen (fieldMatches digits dom dt.day 1 31) fun _ =>
            andThen (fieldMatches digits month dt.month 1 12) fun _ =>
              fieldMatches digits dow dt.cronDow 0 6
  | _ => none

end Times

end Trigger

end AgenticOrg.Workflows
