import Mathlib.Algebra.Order.Ring.Int
import AgenticOrg.Lib.Dict

namespace JsonText

open OrderedDict

section Texts

-- A text is a list of code points, surrogates among them.
abbrev CodePoint := Fin 0x110000

instance codePoints_pos : NeZero 0x110000 := ⟨by decide⟩

abbrev Text := List CodePoint

def code (c : Char) : CodePoint :=
  ⟨c.toNat, by
    rcases c.valid with h | h
    · have : c.toNat < 0xD800 := h
      omega
    · exact h.2⟩

def text (s : String) : Text := s.toList.map code

def isHighSurrogate (n : ℕ) : Bool := 0xD800 ≤ n && n ≤ 0xDBFF

def isLowSurrogate (n : ℕ) : Bool := 0xDC00 ≤ n && n ≤ 0xDFFF

def joinSurrogates (high low : ℕ) : ℕ := 0x10000 + (high - 0xD800) * 0x400 + (low - 0xDC00)

-- No high surrogate right before a low one: two code points that a JSON text would read as one.
def Unjoined (value : Text) : Prop :=
  value.IsChain fun a b => ¬(isHighSurrogate a.val = true ∧ isLowSurrogate b.val = true)

instance (value : Text) : Decidable (Unjoined value) := inferInstanceAs (Decidable (List.IsChain _ value))

end Texts

section Writing

def hexDigit (n : ℕ) : CodePoint := if n % 16 < 10 then Fin.ofNat _ (48 + n % 16) else Fin.ofNat _ (87 + n % 16)

def unicodeEscape (n : ℕ) : Text :=
  [code '\\', code 'u', hexDigit (n / 4096), hexDigit (n / 256), hexDigit (n / 16), hexDigit n]

def SHORT_ESCAPES : List (CodePoint × CodePoint) :=
  [(code '"', code '"'), (code '\\', code '\\'), (code '\n', code 'n'), (code '\r', code 'r'), (code '\t', code 't'),
    (12, code 'f'), (8, code 'b')]

def isPrintableAscii (c : CodePoint) : Bool := 0x20 ≤ c.val && c.val ≤ 0x7E

-- One character of a string, written in ASCII.
def escape (c : CodePoint) : Text :=
  match SHORT_ESCAPES.find? (·.1 = c) with
  | some short => [code '\\', short.2]
  | none =>
      if isPrintableAscii c then [c]
      else if c.val < 0x10000 then unicodeEscape c.val
      else
        unicodeEscape (0xD800 + (c.val - 0x10000) / 0x400) ++ unicodeEscape (0xDC00 + (c.val - 0x10000) % 0x400)

def quote (value : Text) : Text := code '"' :: value.flatMap escape ++ [code '"']

def joined (separator : Text) : List Text → Text
  | [] => []
  | [item] => item
  | item :: next :: rest => item ++ separator ++ joined separator (next :: rest)

def arrayText (items : List Text) : Text := code '[' :: joined [code ','] items ++ [code ']']

def memberText (entry : Text × Text) : Text := quote entry.1 ++ code ':' :: entry.2

def objectText (entries : List (Text × Text)) : Text :=
  code '{' :: joined [code ','] (entries.map memberText) ++ [code '}']

end Writing

section Values

inductive Json where
  | null
  | bool (value : Bool)
  | int (value : ℤ)
  | float (value : Float)
  | str (value : Text)
  | arr (items : List Json)
  | obj (entries : List (Text × Json))

def Json.get? (json : Json) (key : Text) : Option Json :=
  match json with
  | .obj entries => (entries.find? (·.1 = key)).map (·.2)
  | _ => none

end Values

section Reading

def isSpace (c : CodePoint) : Bool := c = code ' ' || c = code '\t' || c = code '\n' || c = code '\r'

def skipSpace (input : Text) : Text := input.dropWhile isSpace

def hexValue (c : CodePoint) : Option ℕ :=
  if 48 ≤ c.val && c.val ≤ 57 then some (c.val - 48)
  else if 97 ≤ c.val && c.val ≤ 102 then some (c.val - 87)
  else if 65 ≤ c.val && c.val ≤ 70 then some (c.val - 55)
  else none

def scanHex : Text → Option (ℕ × Text)
  | a :: b :: c :: d :: rest => do
      let a ← hexValue a
      let b ← hexValue b
      let c ← hexValue c
      let d ← hexValue d
      some (a * 4096 + b * 256 + c * 16 + d, rest)
  | _ => none

-- After a high surrogate: the low one of an escape that follows, when it is one.
def scanLow (high : ℕ) (input : Text) : Option (ℕ × Text) :=
  match input with
  | a :: b :: rest =>
      if a = code '\\' ∧ b = code 'u' ∧ 4 ≤ rest.length then
        match scanHex rest with
        | none => none
        | some (low, rest) => if isLowSurrogate low then some (joinSurrogates high low, rest) else some (high, input)
      else some (high, input)
  | _ => some (high, input)

def scanUnicode (input : Text) : Option (CodePoint × Text) :=
  match scanHex input with
  | none => none
  | some (n, rest) =>
      (if isHighSurrogate n then scanLow n rest else some (n, rest)).map fun found => (Fin.ofNat _ found.1, found.2)

def SHORT_UNESCAPES : List (CodePoint × CodePoint) :=
  (code '/', code '/') :: SHORT_ESCAPES.map fun short => (short.2, short.1)

def scanEscape : Text → Option (CodePoint × Text)
  | [] => none
  | d :: rest =>
      if d = code 'u' then scanUnicode rest
      else (SHORT_UNESCAPES.find? (·.1 = d)).map fun short => (short.2, rest)

-- One character of a string; control characters are refused.
def scanCharacter : Text → Option (CodePoint × Text)
  | [] => none
  | c :: rest => if c = code '\\' then scanEscape rest else if c.val < 0x20 then none else some (c, rest)

-- What follows the opening quote.
def scanCharacters : ℕ → Text → Option (Text × Text)
  | 0, _ => none
  | _ + 1, [] => none
  | fuel + 1, c :: rest =>
      if c = code '"' then some ([], rest)
      else
        match scanCharacter (c :: rest) with
        | none => none
        | some (d, rest) => (scanCharacters fuel rest).map fun found => (d :: found.1, found.2)

def scanString : Text → Option (Text × Text)
  | [] => none
  | c :: rest => if c = code '"' then scanCharacters (rest.length + 1) rest else none

def isDigit (c : CodePoint) : Bool := 48 ≤ c.val && c.val ≤ 57

def natOf (digits : Text) : ℕ := digits.foldl (fun n d => 10 * n + (d.val - 48)) 0

def scanWhole : Text → Option (Text × Text)
  | [] => none
  | c :: rest =>
      if c = code '0' then some ([c], rest)
      else if isDigit c then some (c :: rest.takeWhile isDigit, rest.dropWhile isDigit)
      else none

def scanFraction (input : Text) : Text × Text :=
  match input with
  | c :: rest =>
      if c = code '.' ∧ rest.takeWhile isDigit ≠ [] then (rest.takeWhile isDigit, rest.dropWhile isDigit)
      else ([], input)
  | [] => ([], input)

def scanSign (input : Text) : Bool × Text :=
  match input with
  | c :: rest => if c = code '-' then (true, rest) else if c = code '+' then (false, rest) else (false, input)
  | [] => (false, input)

def scanExponent (input : Text) : Option ℤ × Text :=
  match input with
  | c :: rest =>
      let (negative, digits) := scanSign rest
      if (c = code 'e' ∨ c = code 'E') ∧ digits.takeWhile isDigit ≠ [] then
        let size : ℤ := natOf (digits.takeWhile isDigit)
        (some (if negative then -size else size), digits.dropWhile isDigit)
      else (none, input)
  | [] => (none, input)

def floatOf (negative : Bool) (digits : Text) (exponent : ℤ) : Float :=
  let size := Float.ofScientific (natOf digits) (exponent < 0) exponent.natAbs
  if negative then -size else size

def scanNumber (input : Text) : Option (Json × Text) := do
  let negative := input.head? = some (code '-')
  let (whole, rest) ← scanWhole (if negative then input.tail else input)
  let (fraction, rest) := scanFraction rest
  let (exponent, rest) := scanExponent rest
  if fraction = [] ∧ exponent = none then
    some (.int (if negative then -natOf whole else natOf whole), rest)
  else some (.float (floatOf negative (whole ++ fraction) (exponent.getD 0 - fraction.length)), rest)

def literals : List (Text × Json) :=
  [(text "null", .null), (text "true", .bool true), (text "false", .bool false), (text "NaN", .float (0.0 / 0.0)),
    (text "Infinity", .float (1.0 / 0.0)), (text "-Infinity", .float (-1.0 / 0.0))]

def scanLiteral (input : Text) : Option (Json × Text) :=
  (literals.find? fun literal => literal.1.isPrefixOf input).map fun literal =>
    (literal.2, input.drop literal.1.length)

section Items

variable {α : Type} (close : CodePoint) (item : Text → Option (α × Text))

-- Items apart by commas, up to the closing bracket.
def scanItems : ℕ → Text → Option (List α × Text)
  | 0, _ => none
  | fuel + 1, input =>
      match item (skipSpace input) with
      | none => none
      | some (first, rest) =>
          match skipSpace rest with
          | [] => none
          | c :: rest =>
              if c = close then some ([first], rest)
              else if c = code ',' then (scanItems fuel rest).map fun found => (first :: found.1, found.2)
              else none

def scanList (input : Text) : Option (List α × Text) :=
  match skipSpace input with
  | [] => none
  | c :: rest => if c = close then some ([], rest) else scanItems close item (input.length + 1) (c :: rest)

end Items

def scanMember {α : Type} (value : Text → Option (α × Text)) (input : Text) : Option ((Text × α) × Text) :=
  match scanString input with
  | none => none
  | some (key, rest) =>
      match skipSpace rest with
      | [] => none
      | c :: rest =>
          if c = code ':' then (value (skipSpace rest)).map fun found => ((key, found.1), found.2) else none

-- A key that comes again replaces the value it had.
def dictOf {α : Type} (entries : List (Text × α)) : List (Text × α) :=
  entries.foldl (fun dict entry => Dict.put entry.1 entry.2 dict) []

def scanValue : ℕ → Text → Option (Json × Text)
  | 0, _ => none
  | _ + 1, [] => none
  | depth + 1, c :: rest =>
      if c = code '"' then (scanString (c :: rest)).map fun found => (.str found.1, found.2)
      else if c = code '[' then (scanList (code ']') (scanValue depth) rest).map fun found => (.arr found.1, found.2)
      else if c = code '{' then
        (scanList (code '}') (scanMember (scanValue depth)) rest).map fun found => (.obj (dictOf found.1), found.2)
      else (scanLiteral (c :: rest)).or (scanNumber (c :: rest))

-- `json.loads`: one value and nothing else, no byte order mark before it.
def loads (input : Text) : Option Json :=
  if input.head? = some 0xFEFF then none
  else
    match scanValue (input.length + 1) (skipSpace input) with
    | none => none
    | some (json, rest) => if skipSpace rest = [] then some json else none

end Reading

end JsonText
