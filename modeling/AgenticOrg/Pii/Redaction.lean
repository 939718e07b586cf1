import Mathlib.Data.Rat.Defs
import AgenticOrg.Lib.Splice.Layout
import AgenticOrg.Lib.Splice.SinglePass
import AgenticOrg.Pii.Overlaps

namespace AgenticOrg.Pii

open JsonText OrderedDict Splices

variable {source : Text}

section Candidates

-- What the analyser reports.
structure AnalyzerResult (source : Text) extends IdentifierMatch source where
  score : ℚ

-- Each item that clashes with none of those kept before it.
def keepUnless {β : Type} (clash : β → β → Bool) (items : List β) : List β :=
  items.foldl (fun kept item => if kept.any (clash item) then kept else kept ++ [item]) []

-- The wider first, then the higher score.
def widerFirst (a b : AnalyzerResult source) : Prop :=
  b.stop - b.start < a.stop - a.start ∨ (a.stop - a.start = b.stop - b.start ∧ b.score ≤ a.score)

instance (a b : AnalyzerResult source) : Decidable (widerFirst a b) := inferInstanceAs (Decidable (_ ∨ _))

-- Inside the other, around it, or partly over it.
def collides (r k : AnalyzerResult source) : Bool :=
  (k.start ≤ r.start && r.stop ≤ k.stop) || (r.start ≤ k.start && k.stop ≤ r.stop) ||
    (r.start < k.stop && k.start < r.stop)

-- What is redacted of the analyser's results, in the order of the document.
def analyzedSpans (results : List (AnalyzerResult source)) : List (IdentifierMatch source) :=
  ((keepUnless collides (results.insertionSort widerFirst)).map AnalyzerResult.toIdentifierMatch).insertionSort byStart

-- The earlier first, then the longer.
def earlierFirst (a b : IdentifierMatch source) : Prop :=
  a.start < b.start ∨ (a.start = b.start ∧ width b ≤ width a)

instance (a b : IdentifierMatch source) : Decidable (earlierFirst a b) := inferInstanceAs (Decidable (_ ∨ _))

-- What is redacted of the matches of the patterns.
def matchedSpans (found : List (IdentifierMatch source)) : List (IdentifierMatch source) :=
  keepUnless overlaps (found.insertionSort earlierFirst)

end Candidates

section Redacting

def placeholder (entity : Text) (n : ℕ) : Text := code '<' :: (entity ++ code '_' :: decimal n ++ [code '>'])

-- Numbered for each entity, in the order of the document.
def assignTokens : Dict Text ℕ → List (IdentifierMatch source) → List (IdentifierMatch source × Text)
  | _, [] => []
  | counters, found :: rest =>
      let count := (counters.get? found.entityType).getD 0 + 1
      (found, placeholder found.entityType count) :: assignTokens (counters.insert found.entityType count) rest

def laterFirst (a b : IdentifierMatch source × Text) : Prop := b.1.start ≤ a.1.start

instance (a b : IdentifierMatch source × Text) : Decidable (laterFirst a b) := inferInstanceAs (Decidable (_ ≤ _))

def replaceOne (redacted : Text × Dict Text Text) (assignment : IdentifierMatch source × Text) :
    Text × Dict Text Text :=
  (redacted.1.take assignment.1.start ++ assignment.2 ++ redacted.1.drop assignment.1.stop,
    redacted.2.insert assignment.2
      ((redacted.1.drop assignment.1.start).take (assignment.1.stop - assignment.1.start)))

-- From the end of the text; no two of the spans start at one place.
def redactSpans (kept : List (IdentifierMatch source)) : Text × Dict Text Text :=
  ((assignTokens Dict.empty kept).insertionSort laterFirst).foldl replaceOne (source, Dict.empty)

def redact (results : List (AnalyzerResult source)) : Text × Dict Text Text :=
  if results.isEmpty then (source, Dict.empty) else redactSpans (analyzedSpans results)

def regexFallbackRedact (found : List (IdentifierMatch source)) : Text × Dict Text Text :=
  if (matchedSpans found).isEmpty then (source, Dict.empty) else redactSpans (matchedSpans found)

-- One pass of a pattern that is the alternatives of the tokens, in the order of the map.
def deanonymize (input : Text) (tokenMap : Dict Text Text) : Text :=
  if tokenMap.size = 0 then input
  else substitute tokenMap.keys (fun token => (tokenMap.get? token).getD token) input

end Redacting

section Restoring

variable (kept : List (IdentifierMatch source))

def tokensOf : List Text := (assignTokens Dict.empty kept).map Prod.snd

def redactions : List (Edit CodePoint) :=
  (assignTokens Dict.empty kept).map fun assignment => ⟨assignment.1.start, assignment.1.stop, assignment.2⟩

-- The text comes back, and what is read as a token is what was put in.
structure Restores (redacted : Text × Dict Text Text) : Prop where
  apart : kept.Pairwise fun a b => overlaps a b = false
  restored : deanonymize redacted.1 redacted.2 = source
  untouched : parts redacted.2.keys 0 redacted.1 = (layout source 0 (redactions kept)).map Segment.part

-- No token is read where the text was kept, nor another one where one was put in.
def Undisturbed : Prop := Clear (tokensOf kept).reverse (layout source 0 (redactions kept))

end Restoring

end AgenticOrg.Pii
