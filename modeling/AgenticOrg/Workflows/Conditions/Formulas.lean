import AgenticOrg.Workflows.Conditions

namespace AgenticOrg.Workflows

open Directive Kleene

namespace Conditions

section Words

-- The words between literals, in the order in which texts are split at them.
inductive Word where
  | orUpper
  | orLower
  | andUpper
  | andLower
  deriving DecidableEq

def Word.text : Word → Text
  | orUpper => Keyword.or.upper
  | orLower => Keyword.or.lower
  | andUpper => Keyword.and.upper
  | andLower => Keyword.and.lower

def Word.rank : Word → ℕ
  | orUpper => 0
  | orLower => 1
  | andUpper => 2
  | andLower => 3

def Word.isOr : Word → Bool
  | orUpper | orLower => true
  | andUpper | andLower => false

def Word.ofOr (capitals : Bool) : Word := if capitals then orUpper else orLower

def Word.ofAnd (capitals : Bool) : Word := if capitals then andUpper else andLower

end Words

section Syntax

-- A text without blanks around it; comparisons and membership tests are such.
structure Atom where
  text : Text
  ne : text ≠ []
  trimmed : strip text = text

-- `negation` says whether the `NOT` in front, if there is one, is in capitals.
structure Literal where
  atom : Atom
  negation : Option Bool := none

structure Conjunction where
  first : Literal
  rest : List (Bool × Literal) := []

structure Formula where
  first : Conjunction
  rest : List (Bool × Conjunction) := []

def Conjunction.literals (conjunction : Conjunction) : List Literal :=
  conjunction.first :: conjunction.rest.map Prod.snd

def Formula.conjunctions (formula : Formula) : List Conjunction := formula.first :: formula.rest.map Prod.snd

def Formula.literals (formula : Formula) : List Literal := formula.conjunctions.flatMap Conjunction.literals

def notText (capitals : Bool) : Text := if capitals then "NOT".toList else "not".toList

def Literal.print (literal : Literal) : Text :=
  match literal.negation with
  | none => literal.atom.text
  | some capitals => notText capitals ++ ' ' :: literal.atom.text

def Conjunction.print (conjunction : Conjunction) : Text :=
  conjunction.first.print ++
    conjunction.rest.flatMap fun entry => spaced (Word.ofAnd entry.1).text ++ entry.2.print

def Formula.print (formula : Formula) : Text :=
  formula.first.print ++ formula.rest.flatMap fun entry => spaced (Word.ofOr entry.1).text ++ entry.2.print

end Syntax

section Meaning

variable (value : Text → Truth)

def Literal.truth (literal : Literal) : Truth :=
  match literal.negation with
  | none => value literal.atom.text
  | some _ => negate (value literal.atom.text)

def Conjunction.truth (conjunction : Conjunction) : Truth := all (conjunction.literals.map (Literal.truth value))

-- The strong Kleene value of a formula.
def Formula.truth (formula : Formula) : Truth := any (formula.conjunctions.map (Conjunction.truth value))

end Meaning

section Layout

-- A formula read from left to right: the literals, and the word in front of each.
structure Flat where
  first : Literal
  rest : List (Word × Literal)

def Conjunction.flatRest (conjunction : Conjunction) : List (Word × Literal) :=
  conjunction.rest.map fun entry => (Word.ofAnd entry.1, entry.2)

def Formula.flat (formula : Formula) : Flat where
  first := formula.first.first
  rest := formula.first.flatRest ++
    formula.rest.flatMap fun entry => (Word.ofOr entry.1, entry.2.first) :: entry.2.flatRest

-- The pieces of a literal between its spaces.
def Literal.fields (literal : Literal) : List Text :=
  match literal.negation with
  | none => literal.atom.text.splitOn ' '
  | some capitals => notText capitals :: literal.atom.text.splitOn ' '

-- A literal between two words: where one of the words stands in the literal itself,
-- it is at the edge, and the text is split before it or behind it first.
def Literal.ClearBetween (literal : Literal) (prev next : Option Word) : Prop :=
  ∀ (word : Word) (before after : List Text), literal.fields = before ++ word.text :: after →
    (before = [] ∧ ∀ p, prev = some p → p.rank ≤ word.rank) ∨
      (after = [] ∧ ∀ n, next = some n → n.rank < word.rank)

def clearFrom (prev : Option Word) (literal : Literal) : List (Word × Literal) → Prop
  | [] => literal.ClearBetween prev none
  | entry :: rest => literal.ClearBetween prev (some entry.1) ∧ clearFrom (some entry.1) entry.2 rest

-- No text of an atom, with the words next to it, makes a keyword of its own.
def Formula.Clear (formula : Formula) : Prop := clearFrom none formula.flat.first formula.flat.rest

-- Of several atoms, none leaves a quote open.
def Formula.Balanced (formula : Formula) : Prop :=
  2 ≤ formula.literals.length → ∀ literal ∈ formula.literals, unbalancedQuotes literal.atom.text = false

end Layout

end Conditions

end AgenticOrg.Workflows
