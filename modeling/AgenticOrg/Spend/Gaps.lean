import AgenticOrg.Lib.Dict
import Mathlib.Algebra.BigOperators.Group.List.Basic

namespace AgenticOrg.Spend.Gaps

open OrderedDict

section Data

-- A gap as its tenant's table keys it.
structure DayGap where
  day : ℤ
  usageType : String
  reason : String
  detail : String
  deriving DecidableEq

structure GapKey extends DayGap where
  tenantId : String
  deriving DecidableEq

-- What the counters are labelled with.
abbrev Kind := String × String

def DayGap.kind (gap : DayGap) : Kind := (gap.usageType, gap.reason)

def MAX_GAP_KEYS : ℕ := 10000

def DETAIL_MAX : ℕ := 160

def gapKey (tenantId : String) (day : ℤ) (usageType reason detail : String) : GapKey :=
  ⟨⟨day, usageType, reason, String.ofList (detail.toList.take DETAIL_MAX)⟩, tenantId⟩

def GapKey.coarse (key : GapKey) : GapKey := { key with detail := "" }

-- Whose popped gaps they are: those of a caller of `pop_gaps`, of a tenant's flush, or of a tenant in a pass over all.
inductive Holder where
  | caller
  | flush
  | pass (tenantId : String)
  deriving DecidableEq

structure Batch where
  holder : Holder
  gaps : List (GapKey × ℕ)

-- The aggregator, the batches taken from it, and what was counted: by a call, in the table, and by the two counters.
structure GapState where
  gaps : Dict GapKey ℕ
  batches : List Batch
  added : List (Kind × ℕ)
  written : List (Kind × ℕ)
  overflowed : List (Kind × ℕ)
  lost : List (Kind × ℕ)

def GapState.initial : GapState := ⟨.empty, [], [], [], [], []⟩

end Data

section Aggregator

def addGapLocked (gaps : Dict GapKey ℕ) (key : GapKey) (count : ℕ) : Dict GapKey ℕ × ℕ :=
  if gaps.contains key || gaps.size < MAX_GAP_KEYS then (gaps.insert key ((gaps.get? key).getD 0 + count), 0)
  else if gaps.contains key.coarse then (gaps.insert key.coarse ((gaps.get? key.coarse).getD 0 + count), 0)
  else (gaps, count)

def gapOverflowed (state : GapState) (key : GapKey) (count : ℕ) : GapState :=
  if count ≤ 0 then state else { state with overflowed := state.overflowed ++ [(key.kind, count)] }

def addGap (state : GapState) (tenantId : String) (day : ℤ) (usageType reason detail : String) (count : ℕ) : GapState :=
  let key := gapKey tenantId day usageType reason detail
  let kept := addGapLocked state.gaps key count
  gapOverflowed { state with gaps := kept.1 } key kept.2

def kinds {κ : Type} (kindOf : κ → Kind) (gaps : List (κ × ℕ)) : List (Kind × ℕ) :=
  gaps.map fun gap => (kindOf gap.1, gap.2)

def gapsLost (state : GapState) (gaps : List (GapKey × ℕ)) : GapState :=
  { state with lost := state.lost ++ kinds (fun key => key.kind) gaps }

def noteGap (closed : Bool) (state : GapState) (tenantId : String) (day : ℤ) (usageType reason detail : String)
    (count : ℕ) : GapState :=
  if closed then gapsLost state [(gapKey tenantId day usageType reason detail, count)]
  else addGap state tenantId day usageType reason detail count

-- What `pop_gaps` takes: one tenant's gaps, or all.
def popped (state : GapState) (tenantId : Option String) : List (GapKey × ℕ) :=
  state.gaps.entries.filter fun gap => tenantId.all (gap.1.tenantId = ·)

def popGaps (state : GapState) (tenantId : Option String) : GapState :=
  { state with gaps := state.gaps.keep fun key => !tenantId.all (key.tenantId = ·) }

def restoreGaps (state : GapState) (gaps : List (GapKey × ℕ)) : GapState :=
  gaps.foldl (fun state gap =>
    addGap state gap.1.tenantId gap.1.day gap.1.usageType gap.1.reason gap.1.detail gap.2) state

-- The writer's own `_restore_gaps`.
def restoreOrLose (closed : Bool) (state : GapState) (gaps : List (GapKey × ℕ)) : GapState :=
  if closed then gapsLost state gaps else restoreGaps state gaps

end Aggregator

section Flushes

def tenantGaps (gaps : List (GapKey × ℕ)) : Dict DayGap ℕ :=
  Dict.ofList (gaps.map fun gap => (gap.1.toDayGap, gap.2))

-- The rows that `upsert_gaps` adds.
def upsertGaps (gaps : Dict DayGap ℕ) : List (Kind × ℕ) :=
  kinds DayGap.kind (gaps.entries.filter fun gap => 0 < gap.2)

-- The gaps that `write_events` adds of its own.
def writeGaps (gaps : Dict DayGap ℕ) (own : List DayGap) : Dict DayGap ℕ :=
  own.foldl (fun gaps key => gaps.insert key ((gaps.get? key).getD 0 + 1)) gaps

-- `by_tenant`
def byTenant (gaps : List (GapKey × ℕ)) : List Batch :=
  (Dict.gather (fun gap : GapKey × ℕ => gap.1.tenantId) (fun found gap => found.getD [] ++ [gap]) gaps).entries.map
    fun group => ⟨.pass group.1, group.2⟩

inductive FlushOutcome where
  | written (own : List DayGap)
  | busy
  | raised

def FlushOutcome.counts : FlushOutcome → List (Kind × ℕ)
  | .written own => own.map fun gap => (gap.kind, 1)
  | _ => []

variable (validTenant : String → Bool)

-- `_flush_tenant` up to its transaction.
def flushTenant (state : GapState) (tenantId : String) (paused : Bool) (events : List (ℤ × String)) : GapState :=
  if paused then events.foldl (fun state event => addGap state tenantId event.1 event.2 "paused" "" 1) state
  else if !validTenant tenantId then state
  else
    { popGaps state (some tenantId) with
      batches := state.batches ++ [⟨.flush, popped state (some tenantId)⟩] }

def tenantFlushed (closed : Bool) (outcome : FlushOutcome) (state : GapState) (gaps : List (GapKey × ℕ)) : GapState :=
  match outcome with
  | .written own => { state with written := state.written ++ upsertGaps (writeGaps (tenantGaps gaps) own) }
  | .busy => restoreOrLose closed state gaps
  | .raised => restoreOrLose closed state gaps

-- `_flush_gaps` up to its first transaction.
def flushGaps (state : GapState) : GapState :=
  { popGaps state none with batches := state.batches ++ byTenant (popped state none) }

-- One tenant of the pass.
def passFlushed (closed written : Bool) (tenantId : String) (state : GapState) (gaps : List (GapKey × ℕ)) : GapState :=
  if !validTenant tenantId then state
  else if written then { state with written := state.written ++ upsertGaps (tenantGaps gaps) }
  else restoreOrLose closed state gaps

end Flushes

section Runs

-- Flushes begin and end apart, and calls come in between. Closed says whether a drain has begun.
inductive GapStep where
  | addGap (tenantId : String) (day : ℤ) (usageType reason detail : String) (count : ℕ)
  | noteGap (closed : Bool) (tenantId : String) (day : ℤ) (usageType reason detail : String) (count : ℕ)
  | popGaps (tenantId : Option String)
  | restoreGaps (index : ℕ)
  | gapsLost (index : ℕ)
  | flushTenant (tenantId : String) (paused : Bool) (events : List (ℤ × String))
  | tenantFlushed (index : ℕ) (closed : Bool) (outcome : FlushOutcome)
  | flushGaps
  | passFlushed (index : ℕ) (closed written : Bool)

def GapState.add (state : GapState) (counts : List (Kind × ℕ)) : GapState :=
  { state with added := state.added ++ counts }

-- The batch at a place is put to its end, if the step is one for it.
def GapState.settle (state : GapState) (index : ℕ) (finish : Holder → Option (GapState → List (GapKey × ℕ) → GapState)) :
    GapState :=
  match state.batches[index]? with
  | none => state
  | some batch =>
      match finish batch.holder with
      | none => state
      | some ended => ended { state with batches := state.batches.eraseIdx index } batch.gaps

def forCaller (ended : GapState → List (GapKey × ℕ) → GapState) :
    Holder → Option (GapState → List (GapKey × ℕ) → GapState)
  | .caller => some ended
  | _ => none

def forFlush (ended : GapState → List (GapKey × ℕ) → GapState) :
    Holder → Option (GapState → List (GapKey × ℕ) → GapState)
  | .flush => some ended
  | _ => none

def forPass (ended : String → GapState → List (GapKey × ℕ) → GapState) :
    Holder → Option (GapState → List (GapKey × ℕ) → GapState)
  | .pass tenantId => some (ended tenantId)
  | _ => none

-- What a step counts that was not counted before.
def GapStep.counts (state : GapState) : GapStep → List (Kind × ℕ)
  | .addGap _ _ usageType reason _ count => [((usageType, reason), count)]
  | .noteGap _ _ _ usageType reason _ count => [((usageType, reason), count)]
  | .flushTenant _ true events => events.map fun event => ((event.2, "paused"), 1)
  | .tenantFlushed index _ outcome =>
      if (state.batches[index]?).any (·.holder = .flush) then outcome.counts else []
  | _ => []

def GapState.step (validTenant : String → Bool) (state : GapState) (step : GapStep) : GapState :=
  GapState.add
    (match step with
    | .addGap tenantId day usageType reason detail count =>
        Gaps.addGap state tenantId day usageType reason detail count
    | .noteGap closed tenantId day usageType reason detail count =>
        Gaps.noteGap closed state tenantId day usageType reason detail count
    | .popGaps tenantId =>
        { Gaps.popGaps state tenantId with batches := state.batches ++ [⟨.caller, popped state tenantId⟩] }
    | .restoreGaps index => state.settle index (forCaller Gaps.restoreGaps)
    | .gapsLost index => state.settle index (forCaller Gaps.gapsLost)
    | .flushTenant tenantId paused events => Gaps.flushTenant validTenant state tenantId paused events
    | .tenantFlushed index closed outcome => state.settle index (forFlush (Gaps.tenantFlushed closed outcome))
    | .flushGaps => Gaps.flushGaps state
    | .passFlushed index closed written => state.settle index (forPass (Gaps.passFlushed validTenant closed written)))
    (step.counts state)

def GapState.run (validTenant : String → Bool) (state : GapState) (steps : List GapStep) : GapState :=
  steps.foldl (GapState.step validTenant) state

end Runs

end AgenticOrg.Spend.Gaps
