import Mathlib.Logic.Relation

namespace VersionedStore

-- The types a family of operations on one stored record is built from.
structure Sig where
  State : Type
  Note : Type
  Query : Type
  Answer : Query → Type
  Op : Type
  Result : Type

-- A caller's own copy of the record, with the version it was read or saved at.
structure Copy (S : Sig) where
  version : Option Nat
  state : S.State

inductive Reply where
  | accepted (version : Nat)
  | duplicate
  | stale
  | failed

-- An operation as the tree of its accesses. `load` takes over the stored record
-- as the caller's copy, `peek` only looks at it; `call` runs another operation
-- and goes on with its result.
inductive Prog (S : Sig) : Type where
  | done (result : S.Result)
  | call (op : S.Op) (next : S.Result → Prog S)
  | ask (query : S.Query) (next : S.Answer query → Prog S)
  | load (next : Option (Copy S) → Prog S)
  | peek (next : Option (Copy S) → Prog S)
  | save (copy : Copy S) (note : S.Note) (next : Reply → Prog S)
  | cacheGet (next : Option S.State → Prog S)
  | cacheSet (state : S.State) (next : Prog S)

structure Row (S : Sig) where
  version : Nat
  state : S.State
  note : S.Note

-- The accepted saves, the newest first; the newest is the row that is stored.
-- The cache is best effort and is never asked while there is a row.
structure Store (S : Sig) where
  history : List (Row S)
  cache : Option S.State

def Store.read {S : Sig} (store : Store S) : Option (Copy S) :=
  store.history.head?.map fun row => ⟨some row.version, row.state⟩

structure Backend (S : Sig) where
  encode : S.State → S.State
  encode_encode : ∀ s, encode (encode s) = encode s
  key : S.Note → Option String
  storable : S.State → S.Note → Bool

def Backend.accept {S : Sig} (backend : Backend S) (version : Nat) (history : List (Row S))
    (state : S.State) (note : S.Note) : Reply × List (Row S) :=
  if backend.storable state note then
    (.accepted version, ⟨version, backend.encode state, note⟩ :: history)
  else (.failed, history)

def Backend.commit {S : Sig} (backend : Backend S) (history : List (Row S)) (copy : Copy S)
    (note : S.Note) : Reply × List (Row S) :=
  if (backend.key note).isSome && history.any fun row => backend.key row.note == backend.key note then
    (.duplicate, history)
  else
    match history with
    | [] => backend.accept 1 [] copy.state note
    | row :: rest =>
        match copy.version with
        | none => backend.accept (row.version + 1) (row :: rest) copy.state note
        | some expected =>
            if row.version = expected then
              backend.accept (row.version + 1) (row :: rest) copy.state note
            else (.stale, row :: rest)

section Sequential

variable {S : Sig}

inductive Stop (S : Sig) where
  | finished (result : S.Result)
  | calling (op : S.Op) (next : S.Result → Prog S)

def Stop.prog : Stop S → Prog S
  | .finished result => .done result
  | .calling op next => .call op next

-- One operation with nobody else around, up to its end or its next call.
def Prog.run (backend : Backend S) (answer : (query : S.Query) → S.Answer query) :
    Prog S → Store S → Store S × Stop S
  | .done result, store => (store, .finished result)
  | .call op next, store => (store, .calling op next)
  | .ask query next, store => (next (answer query)).run backend answer store
  | .load next, store => (next store.read).run backend answer store
  | .peek next, store => (next store.read).run backend answer store
  | .save copy note next, store =>
      (next (backend.commit store.history copy note).1).run backend answer
        { store with history := (backend.commit store.history copy note).2 }
  | .cacheGet next, store => (next store.cache).run backend answer store
  | .cacheSet state next, store =>
      next.run backend answer { store with cache := some (backend.encode state) }

end Sequential

section Interleaving

variable {S : Sig}

-- `held` is the copy the thread works on and the version it was stored at; it is
-- kept for the proofs and no step reads it. `stack` holds the callers.
structure Thread (S : Sig) where
  op : S.Op
  prog : Prog S
  stack : List (S.Op × (S.Result → Prog S))
  held : Option (Nat × S.State)

structure World (S : Sig) where
  store : Store S
  threads : List (Thread S)

-- Which loads and which answers a run may contain.
structure Rules (S : Sig) where
  load : S.Op → S.State → Prop
  answer : (query : S.Query) → S.Answer query → Prop

def Rules.free (S : Sig) : Rules S := ⟨fun _ _ => True, fun _ _ => True⟩

def holdAfter (held : Option (Nat × S.State)) (state : S.State) : Reply → Option (Nat × S.State)
  | .accepted version => some (version, state)
  | _ => held

variable (backend : Backend S) (body : S.Op → Prog S) (rules : Rules S)

inductive ThreadStep : Store S → Thread S → Store S → Thread S → Prop where
  | ask (store op query next stack held) (answer : S.Answer query)
      (ha : rules.answer query answer) :
      ThreadStep store ⟨op, .ask query next, stack, held⟩ store ⟨op, next answer, stack, held⟩
  | load (store op next stack held) (row : Row S) (rest : List (Row S))
      (hrow : store.history = row :: rest) (hl : rules.load op row.state) :
      ThreadStep store ⟨op, .load next, stack, held⟩ store
        ⟨op, next (some ⟨some row.version, row.state⟩), stack, some (row.version, row.state)⟩
  | loadMissing (store op next stack held) (hrow : store.history = []) :
      ThreadStep store ⟨op, .load next, stack, held⟩ store ⟨op, next none, stack, none⟩
  | peek (store op next stack held) :
      ThreadStep store ⟨op, .peek next, stack, held⟩ store ⟨op, next store.read, stack, held⟩
  | save (store op copy note next stack held) :
      ThreadStep store ⟨op, .save copy note next, stack, held⟩
        { store with history := (backend.commit store.history copy note).2 }
        ⟨op, next (backend.commit store.history copy note).1, stack,
          holdAfter held copy.state (backend.commit store.history copy note).1⟩
  | saveFails (store op copy note next stack held) :
      ThreadStep store ⟨op, .save copy note next, stack, held⟩ store
        ⟨op, next .failed, stack, held⟩
  | cacheGet (store op next stack held) :
      ThreadStep store ⟨op, .cacheGet next, stack, held⟩ store ⟨op, next store.cache, stack, held⟩
  | cacheMiss (store op next stack held) :
      ThreadStep store ⟨op, .cacheGet next, stack, held⟩ store ⟨op, next none, stack, held⟩
  | cacheSet (store op state next stack held) :
      ThreadStep store ⟨op, .cacheSet state next, stack, held⟩
        { store with cache := some (backend.encode state) } ⟨op, next, stack, held⟩
  | cacheLost (store op state next stack held) :
      ThreadStep store ⟨op, .cacheSet state next, stack, held⟩ store ⟨op, next, stack, held⟩
  | call (store op callee next stack held) :
      ThreadStep store ⟨op, .call callee next, stack, held⟩ store
        ⟨callee, body callee, (op, next) :: stack, none⟩
  | ret (store op result caller next stack held) :
      ThreadStep store ⟨op, .done result, (caller, next) :: stack, held⟩ store
        ⟨caller, next result, stack, none⟩

-- Operations start at any time and take their accesses in any order.
inductive Step : World S → World S → Prop where
  | start (world : World S) (op : S.Op) :
      Step world { world with threads := world.threads ++ [⟨op, body op, [], none⟩] }
  | run (world : World S) (i : Nat) (thread thread' : Thread S) (store' : Store S)
      (hi : world.threads[i]? = some thread)
      (ht : ThreadStep backend body rules world.store thread store' thread') :
      Step world ⟨store', world.threads.set i thread'⟩

def Reaches : World S → World S → Prop := Relation.ReflTransGen (Step backend body rules)

-- The next access of one thread when the outside gives fixed answers and the cache works.
def advance (answer : (query : S.Query) → S.Answer query) (store : Store S) :
    Thread S → Store S × Thread S
  | ⟨op, .ask query next, stack, held⟩ => (store, ⟨op, next (answer query), stack, held⟩)
  | ⟨op, .load next, stack, _⟩ =>
      (store, ⟨op, next store.read, stack, store.history.head?.map fun row => (row.version, row.state)⟩)
  | ⟨op, .peek next, stack, held⟩ => (store, ⟨op, next store.read, stack, held⟩)
  | ⟨op, .save copy note next, stack, held⟩ =>
      ({ store with history := (backend.commit store.history copy note).2 },
        ⟨op, next (backend.commit store.history copy note).1, stack,
          holdAfter held copy.state (backend.commit store.history copy note).1⟩)
  | ⟨op, .cacheGet next, stack, held⟩ => (store, ⟨op, next store.cache, stack, held⟩)
  | ⟨op, .cacheSet state next, stack, held⟩ =>
      ({ store with cache := some (backend.encode state) }, ⟨op, next, stack, held⟩)
  | ⟨op, .call callee next, stack, _⟩ => (store, ⟨callee, body callee, (op, next) :: stack, none⟩)
  | ⟨_, .done result, (caller, next) :: stack, _⟩ => (store, ⟨caller, next result, stack, none⟩)
  | ⟨op, .done result, [], held⟩ => (store, ⟨op, .done result, [], held⟩)

-- Threads take turns in the given order; one whose operation may not go on stays where it is.
def interleave (allowed : S.Op → Bool) (answer : (query : S.Query) → S.Answer query) :
    List Nat → World S → World S
  | [], world => world
  | i :: turns, world =>
      match world.threads[i]?.filter fun thread => allowed thread.op with
      | none => interleave allowed answer turns world
      | some thread =>
          let (store, thread) := advance backend body answer world.store thread
          interleave allowed answer turns ⟨store, world.threads.set i thread⟩

end Interleaving

end VersionedStore
