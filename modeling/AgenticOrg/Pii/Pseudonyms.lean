import Mathlib.Data.Nat.Digits.Lemmas
import AgenticOrg.Lib.Json

namespace AgenticOrg.Pii

open JsonText OrderedDict

section Tokens

-- The zeros of the scripts' decimal digits; the other nine follow each of them.
def DECIMAL_ZEROS : List ℕ :=
  [0x30, 0x660, 0x6F0, 0x7C0, 0x966, 0x9E6, 0xA66, 0xAE6, 0xB66, 0xBE6, 0xC66, 0xCE6, 0xD66, 0xDE6, 0xE50, 0xED0,
    0xF20, 0x1040, 0x1090, 0x17E0, 0x1810, 0x1946, 0x19D0, 0x1A80, 0x1A90, 0x1B50, 0x1BB0, 0x1C40, 0x1C50, 0xA620,
    0xA8D0, 0xA900, 0xA9D0, 0xA9F0, 0xAA50, 0xABF0, 0xFF10, 0x104A0, 0x10D30, 0x10D40, 0x11066, 0x110F0, 0x11136,
    0x111D0, 0x112F0, 0x11450, 0x114D0, 0x11650, 0x116C0, 0x116D0, 0x116DA, 0x11730, 0x118E0, 0x11950, 0x11BF0,
    0x11C50, 0x11D50, 0x11DA0, 0x11F50, 0x16130, 0x16A60, 0x16AC0, 0x16B50, 0x16D70, 0x1CCF0, 0x1D7CE, 0x1D7D8,
    0x1D7E2, 0x1D7EC, 0x1D7F6, 0x1E140, 0x1E2F0, 0x1E4F0, 0x1E5F1, 0x1E950, 0x1FBF0]

def decimalValue (c : CodePoint) : Option ℕ :=
  (DECIMAL_ZEROS.find? fun start => start ≤ c.val && c.val < start + 10).map (c.val - ·)

-- `\d`
def isDecimal (c : CodePoint) : Bool := (decimalValue c).isSome

def intOf (digits : Text) : ℕ := digits.foldl (fun n c => 10 * n + (decimalValue c).getD 0) 0

def isUpper (c : CodePoint) : Bool := 65 ≤ c.val && c.val ≤ 90

def isEntityChar (c : CodePoint) : Bool := isUpper c || isDigit c || c = code '_'

def isHexChar (c : CodePoint) : Bool := isDigit c || (97 ≤ c.val && c.val ≤ 102)

def isEntity : Text → Bool
  | [] => false
  | c :: rest => isUpper c && rest.all isEntityChar

-- `_TAG_RE`
def isTag (tag : Text) : Bool := tag.length = 6 && tag.all isHexChar

structure TokenMatch where
  entity : Text
  digits : Text
  tag : Text
  deriving DecidableEq

-- What follows the entity's underscore in `_TOKEN_RE`.
def matchNumber (entity input : Text) : Option (TokenMatch × Text) :=
  match input with
  | [] => none
  | first :: rest =>
      if isDigit first ∧ first ≠ code '0' then
        match rest.dropWhile isDecimal with
        | [] => none
        | colon :: rest' =>
            if colon = code ':' ∧ isTag (rest'.take 6) ∧ (rest'.drop 6).take 2 = text "]]" then
              some (⟨entity, first :: rest.takeWhile isDecimal, rest'.take 6⟩, rest'.drop 8)
            else none
      else none

-- The shortest entity with which the rest matches.
def matchEntity (seen : Text) : Text → Option (TokenMatch × Text)
  | [] => none
  | c :: rest =>
      (if c = code '_' ∧ seen ≠ [] then matchNumber seen rest else none).or
        (if (if seen = [] then isUpper c else isEntityChar c) then matchEntity (seen ++ [c]) rest else none)

-- `_TOKEN_RE` at the start of a text, with what comes after it.
def matchToken : Text → Option (TokenMatch × Text)
  | a :: b :: rest => if a = code '[' ∧ b = code '[' then matchEntity [] rest else none
  | _ => none

def fullmatchToken (token : Text) : Option TokenMatch :=
  match matchToken token with
  | some (found, []) => some found
  | _ => none

def decimal (n : ℕ) : Text :=
  if n = 0 then [code '0'] else (Nat.digits 10 n).reverse.map fun digit => Fin.ofNat _ (48 + digit)

def TokenMatch.text (found : TokenMatch) : Text :=
  JsonText.text "[[" ++ found.entity ++ code '_' :: found.digits ++ code ':' :: found.tag ++ JsonText.text "]]"

def tokenText (entity : Text) (n : ℕ) (tag : Text) : Text := (TokenMatch.mk entity (decimal n) tag).text

end Tokens

section Maps

@[ext] structure PseudonymMap where
  tag : Text
  byToken : Dict Text Text
  byValue : Dict Text Text
  counters : Dict Text ℕ

-- Six hexadecimal characters from `secrets.token_hex`.
abbrev Tag := { tag : Text // isTag tag = true }

def newMap (tag : Text) : PseudonymMap := ⟨tag, Dict.empty, Dict.empty, Dict.empty⟩

def entityOf (entityType : Text) : Text := if isEntity entityType then entityType else text "PII"

def PseudonymMap.counter (pmap : PseudonymMap) (entity : Text) : ℕ := (pmap.counters.get? entity).getD 0

def PseudonymMap.insert (pmap : PseudonymMap) (token value entity : Text) (number : ℕ) : PseudonymMap where
  tag := pmap.tag
  byToken := pmap.byToken.insert token value
  byValue := pmap.byValue.insert value token
  counters := pmap.counters.insert entity number

def PseudonymMap.tokenFor (pmap : PseudonymMap) (value entityType : Text) : Text × PseudonymMap :=
  match pmap.byValue.get? value with
  | some existing => (existing, pmap)
  | none =>
      let entity := entityOf entityType
      let number := pmap.counter entity + 1
      let token := tokenText entity number pmap.tag
      (token, pmap.insert token value entity number)

def entryText (entry : Text × Text) : Text := arrayText [quote entry.1, quote entry.2]

def PseudonymMap.toJson (pmap : PseudonymMap) : Text :=
  objectText [(text "format", text "1"), (text "tag", quote pmap.tag),
    (text "entries", arrayText (pmap.byToken.entries.map entryText))]

-- Why a stored map is `map_unreadable`.
inductive Unreadable where
  | notJson
  | unknownFormat
  | malformedHeader
  | malformedEntry
  | inconsistentEntry
  deriving DecidableEq

-- `!= 1` compares numbers and booleans by value.
def equalsOne : Json → Bool
  | .int n => n = 1
  | .bool b => b
  | .float x => x == 1.0
  | _ => false

def PseudonymMap.readEntry (pmap : PseudonymMap) (token value : Text) : Except Unreadable PseudonymMap :=
  match fullmatchToken token with
  | none => .error .inconsistentEntry
  | some found =>
      if found.tag ≠ pmap.tag ∨ pmap.byToken.contains token ∨ pmap.byValue.contains value then
        .error .inconsistentEntry
      else
        .ok (pmap.insert token value found.entity (max (pmap.counter found.entity) (intOf found.digits)))

def PseudonymMap.readJsonEntry (pmap : PseudonymMap) : Json → Except Unreadable PseudonymMap
  | .arr [.str token, .str value] => pmap.readEntry token value
  | _ => .error .malformedEntry

def fromDocument (data : Json) : Except Unreadable PseudonymMap :=
  if (data.get? (text "format")).any equalsOne then
    match data.get? (text "tag"), data.get? (text "entries") with
    | some (.str tag), some (.arr entries) =>
        if isTag tag then entries.foldlM PseudonymMap.readJsonEntry (newMap tag) else .error .malformedHeader
    | _, _ => .error .malformedHeader
  else .error .unknownFormat

def fromJson (raw : Text) : Except Unreadable PseudonymMap :=
  match loads raw with
  | none => .error .notJson
  | some data => fromDocument data

end Maps

section Store

-- A case's row and every map that a session was given, the newest first.
structure Case where
  stored : Option Text
  held : List (ℕ × PseudonymMap)
  refusals : List Unreadable

def emptyCase : Case := ⟨none, [], []⟩

-- `_decode_stored(..) or PseudonymMap.new()`: a map without entries counts as none.
def mapOrNew (stored : Option Text) (tag : Tag) : Except Unreadable PseudonymMap :=
  match stored with
  | none => .ok (newMap tag)
  | some raw => do
      let pmap ← fromJson raw
      .ok (if pmap.byToken.size = 0 then newMap tag else pmap)

def PseudonymMap.addAll (pmap : PseudonymMap) (additions : List (Text × Text)) : PseudonymMap :=
  additions.foldl (fun pmap addition => (pmap.tokenFor addition.1 addition.2).2) pmap

inductive CaseStep where
  | load (session : ℕ)
  | add (session : ℕ) (tag : Tag) (additions : List (Text × Text))

-- A refused step leaves the row as it is.
def Case.load (record : Case) (session : ℕ) : Case :=
  match record.stored.map fromJson with
  | none => record
  | some (.error reason) => { record with refusals := reason :: record.refusals }
  | some (.ok pmap) => { record with held := (session, pmap) :: record.held }

-- `dict.fromkeys` keeps the first of equal additions.
def Case.add (record : Case) (session : ℕ) (tag : Tag) (additions : List (Text × Text)) : Case :=
  match mapOrNew record.stored tag with
  | .error reason => { record with refusals := reason :: record.refusals }
  | .ok pmap =>
      let pmap := pmap.addAll additions.eraseDups
      { record with stored := some pmap.toJson, held := (session, pmap) :: record.held }

def Case.step (record : Case) : CaseStep → Case
  | .load session => record.load session
  | .add session tag additions => record.add session tag additions

def Case.run (record : Case) (steps : List CaseStep) : Case := steps.foldl Case.step record

end Store

end AgenticOrg.Pii
