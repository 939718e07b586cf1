import AgenticOrg.Lib.Kleene
import AgenticOrg.Workflows.Definition

namespace AgenticOrg.Workflows

open Directive Kleene

namespace Conditions

abbrev Text := List Char

section Texts

-- `text.split(sep, 1)` of a text that has `sep`.
def cut (sep : Text) : Text → Option (Text × Text)
  | [] => none
  | c :: text =>
      if sep.isPrefixOf (c :: text) then some ([], (c :: text).drop sep.length)
      else (cut sep text).map fun found => (c :: found.1, found.2)

-- `sep in text`
def occurs (sep text : Text) : Bool := (cut sep text).isSome

-- `text.split(sep)`; `skip` characters of a separator are left.
def split (sep : Text) : ℕ → Text → List Text
  | _, [] => [[]]
  | skip + 1, _ :: text => split sep skip text
  | 0, c :: text =>
      if sep.isPrefixOf (c :: text) then [] :: split sep (sep.length - 1) text
      else (split sep 0 text).modifyHead (c :: ·)

-- `AND` or `OR`, in capitals or not.
structure Keyword where
  upper : Text
  lower : Text

def Keyword.or : Keyword := ⟨"OR".toList, "or".toList⟩

def Keyword.and : Keyword := ⟨"AND".toList, "and".toList⟩

def spaced (word : Text) : Text := ' ' :: word ++ [' ']

def splitKeyword (expression : Text) (keyword : Keyword) : Option (List Text) :=
  if occurs (spaced keyword.upper) expression then some (split (spaced keyword.upper) 0 expression)
  else if occurs (spaced keyword.lower) expression then some (split (spaced keyword.lower) 0 expression)
  else none

def isQuote (c : Char) : Bool := c == '\'' || c == '"'

-- The quote that is open after the text.
def openQuote : Option Char → Text → Option Char
  | quote, [] => quote
  | some quote, c :: text => openQuote (if c == quote then none else some quote) text
  | none, c :: text => openQuote (if isQuote c then some c else none) text

def unbalancedQuotes (part : Text) : Bool := (openQuote none part).isSome

-- The text between the quotes of a quoted token.
def quoted? (token : Text) : Option Text :=
  match token with
  | quote :: rest => if isQuote quote ∧ rest.getLast? = some quote then some rest.dropLast else none
  | [] => none

def isBare (c : Char) : Bool := !isSpace c && !"'\"=<>!()[],".toList.contains c

def wellFormedOperand (token : Text) : Bool :=
  let token := strip token
  match quoted? token with
  | some inner => !(token.head?.any inner.contains)
  | none => !token.isEmpty && token.all isBare

end Texts

section Values

inductive Op where
  | gt
  | lt
  | ge
  | le
  | eq
  | ne
  deriving DecidableEq

def Op.text : Op → Text
  | gt => ['>']
  | lt => ['<']
  | ge => ['>', '=']
  | le => ['<', '=']
  | eq => ['=', '=']
  | ne => ['!', '=']

-- `sorted(OPS, key=lambda op: -len(op))`
def OPS : List Op := [.ge, .le, .eq, .ne, .gt, .lt]

def Op.ordering : Op → Bool
  | gt | lt | ge | le => true
  | eq | ne => false

-- What the evaluator asks of Python and of the values of a context. An error is an
-- exception that the evaluator does not catch; `float` answers `none` for the two it
-- does, and so does `literalEval`.
structure World where
  Value : Type
  Float : Type
  Date : Type
  lookup : Value → Text → Option Value
  ofText : Text → Value
  text? : Value → Option Text
  bool? : Value → Option Bool
  items? : Value → Option (List Value)
  truthy : Value → Bool
  float : Value → Except String (Option Float)
  str : Value → Except String Text
  floatOp : Op → Float → Float → Bool
  isDigit : Char → Bool
  fromIsoFormat : Text → Option Date
  dateOp : Op → Date → Date → Option Bool
  literalEval : Text → Except String (Option Value)

def TRUE_WORDS : List Text := ["true".toList, "1".toList, "yes".toList]

def FALSE_WORDS : List Text := ["false".toList, "0".toList, "no".toList]

def truthOf (word : Text) : Truth :=
  if TRUE_WORDS.contains word then some true else if FALSE_WORDS.contains word then some false else none

variable (world : World)

-- `_resolve(token, context)`; `none` is `MISSING`.
def resolve (context : world.Value) (token : Text) : Option world.Value :=
  match quoted? (strip token) with
  | some inner => some (world.ofText inner)
  | none => ((strip token).splitOn '.').foldlM world.lookup context

-- `float()` of both values; the second is not converted when the first is refused.
def floats (left right : world.Value) : Except String (Option (world.Float × world.Float)) := do
  match ← world.float left with
  | none => return none
  | some x => return (← world.float right).map fun y => (x, y)

def texts (left right : world.Value) : Except String (Text × Text) := do
  let a ← world.str left
  let b ← world.str right
  return (a, b)

def asDatetime (value : world.Value) : Option world.Date :=
  match world.text? value with
  | none => none
  | some text => if (strip text).head?.any world.isDigit then world.fromIsoFormat (strip text) else none

def datesCompare (op : Op) (left right : world.Value) : Truth := do
  let leftAt ← asDatetime world left
  let rightAt ← asDatetime world right
  world.dateOp op leftAt rightAt

-- `==` or `!=` of two texts or truth values.
def sameOp {α : Type} [BEq α] (op : Op) (left right : α) : Bool := if op = .eq then left == right else left != right

-- The truth value that a text next to a truth value stands for.
def wordBeside (left right : world.Value) : Option (Bool × Bool) := do
  let flag ← world.bool? left
  let text ← world.text? right
  let word ← truthOf (lower text)
  return (flag, word)

def compareValues (op : Op) (left right : world.Value) : Except String Truth :=
  match wordBeside world left right with
  | some (flag, word) => .ok (if op.ordering then none else some (sameOp op flag word))
  | none => do
      match ← floats world left right with
      | some (x, y) => return some (world.floatOp op x y)
      | none =>
          if op.ordering then return datesCompare world op left right
          else
            let (a, b) ← texts world left right
            return some (sameOp op a b)

def compare (op : Op) (left : world.Value) (right : Text) (context : world.Value) : Except String Truth :=
  compareValues world op left ((resolve world context right).getD (world.ofText (strip right)))

def valuesEqual (a b : world.Value) : Except String Bool := do
  match ← floats world a b with
  | some (x, y) => return world.floatOp .eq x y
  | none =>
      let (a, b) ← texts world a b
      return a == b

-- `any(_values_equal(value, member) for member in members)`
def anyEqual (value : world.Value) : List world.Value → Except String Bool
  | [] => .ok false
  | member :: rest => do if ← valuesEqual world value member then return true else anyEqual value rest

def isLiteral (token : Text) : Bool := token.head?.any fun c => c == '[' || c == '('

def parseList (token : Text) (context : world.Value) : Except String (Option (List world.Value)) :=
  if isLiteral token then (world.literalEval token).map fun parsed => parsed.bind world.items?
  else .ok ((resolve world context token).bind world.items?)

end Values

section Leaves

-- What an expression without keywords is.
inductive Leaf where
  | membership (left right : Text) (negate : Bool)
  | comparison (op : Op) (left right : Text)
  | malformed
  | word (text : Text)

def memberLeaf (left right : Text) (negate : Bool) : Leaf :=
  if wellFormedOperand left then .membership (strip left) (strip right) negate else .malformed

def opLeaf (op : Op) (left right : Text) : Leaf :=
  if wellFormedOperand left && wellFormedOperand right then .comparison op (strip left) right else .malformed

def leafOf (expression : Text) : Leaf :=
  match cut " not in ".toList expression, cut " in ".toList expression with
  | some (left, right), _ => memberLeaf left right true
  | none, some (left, right) => memberLeaf left right false
  | none, none =>
      match OPS.findSome? fun op => (cut op.text expression).map fun found => opLeaf op found.1 found.2 with
      | some leaf => leaf
      | none => .word expression

variable (world : World) (context : world.Value)

def evaluateWord (text : Text) : Truth :=
  match resolve world context text with
  | none => truthOf (lower text)
  | some value =>
      match world.text? value with
      | some found => truthOf (lower (strip found))
      | none => some (world.truthy value)

def evaluateLeaf : Leaf → Except String Truth
  | .membership left right negate => do
      let members ← parseList world right context
      match resolve world context left, members with
      | some value, some members => return some ((← anyEqual world value members) != negate)
      | _, _ => return none
  | .comparison op left right =>
      match resolve world context left with
      | none => .ok none
      | some value => compare world op value right context
  | .malformed => .ok none
  | .word text => .ok (evaluateWord world context text)

end Leaves

section Evaluation

variable (world : World) (context : world.Value)

def startsWithNot (expression : Text) : Bool :=
  "NOT ".toList.isPrefixOf expression || "not ".toList.isPrefixOf expression

-- The values of the parts, together; nothing is known when a quote is open in one.
def combine (together : List Truth → Truth) (evaluate : Text → Except String Truth) (parts : List Text) :
    Except String Truth :=
  if parts.any unbalancedQuotes then .ok none else (parts.mapM evaluate).map together

-- Every call goes on with a shorter text, so a fuel above the length of the text
-- is never used up.
def evaluate : ℕ → Text → Except String Truth
  | 0, _ => .ok none
  | fuel + 1, text =>
      let expression := strip text
      if expression.isEmpty then .ok none
      else
        match splitKeyword expression .or, splitKeyword expression .and with
        | some parts, _ => combine any (evaluate fuel) parts
        | none, some parts => combine all (evaluate fuel) parts
        | none, none =>
            if startsWithNot expression then (evaluate fuel (expression.drop 4)).map negate
            else evaluateLeaf world context (leafOf expression)

def evaluateConditionStrict (expression : Text) : Except String Truth :=
  evaluate world context (expression.length + 1) expression

end Evaluation

end Conditions

end AgenticOrg.Workflows
