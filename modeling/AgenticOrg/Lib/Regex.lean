namespace Derivatives

-- Regular expressions over characters, matched by derivatives.
inductive Regex where
  | never
  | empty
  | chars (test : Char → Bool)
  | seq (first second : Regex)
  | alt (first second : Regex)
  | star (inner : Regex)

namespace Regex

def nullable : Regex → Bool
  | never => false
  | empty => true
  | chars _ => false
  | seq first second => first.nullable && second.nullable
  | alt first second => first.nullable || second.nullable
  | star _ => true

-- What may follow after `c`.
def derive (c : Char) : Regex → Regex
  | never => never
  | empty => never
  | chars test => if test c then empty else never
  | seq first second =>
      if first.nullable then alt (seq (first.derive c) second) (second.derive c)
      else seq (first.derive c) second
  | alt first second => alt (first.derive c) (second.derive c)
  | star inner => seq (inner.derive c) (star inner)

def accepts (regex : Regex) : List Char → Bool
  | [] => regex.nullable
  | c :: text => (regex.derive c).accepts text

def char (c : Char) : Regex := chars (· == c)

def optional (inner : Regex) : Regex := alt empty inner

def plus (inner : Regex) : Regex := seq inner (star inner)

def upTo (inner : Regex) : Nat → Regex
  | 0 => empty
  | n + 1 => optional (seq inner (inner.upTo n))

-- `^...$`: a line feed may follow at the very end.
def matchesLine (regex : Regex) (text : String) : Bool :=
  regex.accepts text.toList ||
    (text.toList.getLast? == some '\n' && regex.accepts text.toList.dropLast)

end Regex

end Derivatives
