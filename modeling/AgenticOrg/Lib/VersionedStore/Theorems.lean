import AgenticOrg.Lib.VersionedStore
import Mathlib.Data.List.Chain

namespace VersionedStore

variable {S : Sig}

-- What the operations of a family may do with the copy they hold: the states
-- they save in its place and the questions they ask with it, or without one.
structure Spec (S : Sig) where
  writes : S.State → S.State → S.Note → Prop
  asks : Option S.State → S.Query → Prop

-- Only a note with a key can be a duplicate.
def Respects (backend : Backend S) (rules : Rules S) (spec : Spec S) (op : S.Op) :
    Prog S → Option (Nat × S.State) → Prop
  | .done _, _ => True
  | .call _ next, _ => ∀ result, Respects backend rules spec op (next result) none
  | .ask query next, held =>
      spec.asks (held.map Prod.snd) query ∧
        ∀ answer, rules.answer query answer → Respects backend rules spec op (next answer) held
  | .load next, _ =>
      ∀ v s, rules.load op s → Respects backend rules spec op (next (some ⟨some v, s⟩)) (some (v, s))
  | .peek next, held => ∀ found, Respects backend rules spec op (next (some found)) held
  | .save copy note next, held =>
      (∃ v s, held = some (v, s) ∧ copy.version = some v ∧ spec.writes s copy.state note) ∧
        (∀ v, Respects backend rules spec op (next (.accepted v)) (some (v, copy.state))) ∧
        (backend.key note ≠ none → Respects backend rules spec op (next .duplicate) held) ∧
        Respects backend rules spec op (next .stale) held ∧
        Respects backend rules spec op (next .failed) held
  | .cacheGet next, held => ∀ found, Respects backend rules spec op (next found) held
  | .cacheSet _ next, held => Respects backend rules spec op next held

-- Versions count the accepted saves.
def Numbered : List (Row S) → Prop
  | [] => True
  | row :: rest => row.version = rest.length + 1 ∧ Numbered rest

theorem Numbered.version_le (history : List (Row S)) (hn : Numbered history) (row : Row S)
    (hm : row ∈ history) : row.version ≤ history.length := by
  induction history with
  | nil => simp at hm
  | cons first rest ih =>
      rcases List.mem_cons.mp hm with rfl | hm
      · exact Nat.le_of_eq hn.1
      · exact Nat.le_succ_of_le (ih hn.2 hm)

theorem Numbered.eq_head (first : Row S) (rest : List (Row S)) (hn : Numbered (first :: rest))
    (row : Row S) (hm : row ∈ first :: rest) (hv : row.version = first.version) : row = first := by
  rcases List.mem_cons.mp hm with rfl | hm
  · rfl
  · have hle := hn.2.version_le rest row hm
    have hfirst := hn.1
    omega

theorem commit_cases (backend : Backend S) (history : List (Row S)) (copy : Copy S) (note : S.Note) :
    ((backend.commit history copy note).2 = history ∧
      (∀ v, (backend.commit history copy note).1 ≠ .accepted v) ∧
      ((backend.commit history copy note).1 = .duplicate → backend.key note ≠ none ∧
        ∃ row ∈ history, backend.key row.note = backend.key note)) ∨
    (history = [] ∧ (backend.commit history copy note).1 = .accepted 1 ∧
      backend.storable copy.state note = true ∧
      (backend.commit history copy note).2 = [⟨1, backend.encode copy.state, note⟩]) ∨
    (∃ row rest, history = row :: rest ∧ (∀ v, copy.version = some v → v = row.version) ∧
      backend.storable copy.state note = true ∧
      (backend.commit history copy note).1 = .accepted (row.version + 1) ∧
      (backend.commit history copy note).2 =
        ⟨row.version + 1, backend.encode copy.state, note⟩ :: history) := by
  unfold Backend.commit
  split
  · rename_i hkey
    rw [Bool.and_eq_true, Option.isSome_iff_ne_none, List.any_eq_true] at hkey
    obtain ⟨hsome, row, hm, hb⟩ := hkey
    exact .inl ⟨rfl, by simp, fun _ => ⟨hsome, row, hm, eq_of_beq hb⟩⟩
  · cases history with
    | nil =>
        by_cases hs : backend.storable copy.state note
        · simp [Backend.accept, hs]
        · simp [Backend.accept, hs]
    | cons row rest =>
        cases hv : copy.version with
        | none =>
            by_cases hs : backend.storable copy.state note
            · simp [Backend.accept, hs]
            · simp [Backend.accept, hs]
        | some expected =>
            by_cases he : row.version = expected
            · by_cases hs : backend.storable copy.state note
              · simp [Backend.accept, he, hs]
              · simp [Backend.accept, he, hs]
            · simp [he]

structure ThreadInv (backend : Backend S) (rules : Rules S) (spec : Spec S) (P : S.State → Prop)
    (history : List (Row S)) (thread : Thread S) : Prop where
  respects : Respects backend rules spec thread.op thread.prog thread.held
  held : ∀ v s, thread.held = some (v, s) →
    P s ∧ ∃ row ∈ history, row.version = v ∧ row.state = backend.encode s
  stack : ∀ frame ∈ thread.stack, ∀ result, Respects backend rules spec frame.1 (frame.2 result) none

-- A row was made from the row below it by one save of the family.
def Link (backend : Backend S) (spec : Spec S) (P : S.State → Prop) (newer older : Row S) : Prop :=
  newer.version = older.version + 1 ∧
    ∃ s s', P s ∧ spec.writes s s' newer.note ∧ backend.storable s' newer.note = true ∧
      older.state = backend.encode s ∧ newer.state = backend.encode s'

structure Inv (backend : Backend S) (rules : Rules S) (spec : Spec S) (P : S.State → Prop)
    (world : World S) : Prop where
  exists_row : world.store.history ≠ []
  numbered : Numbered world.store.history
  chain : world.store.history.IsChain (Link backend spec P)
  stored : ∀ row ∈ world.store.history,
    ∃ s, row.state = backend.encode s ∧ backend.storable s row.note = true
  rows : ∀ row ∈ world.store.history, P row.state
  threads : ∀ thread ∈ world.threads, ThreadInv backend rules spec P world.store.history thread

-- A predicate that every save of the family keeps, and that survives storage.
structure Preserved (backend : Backend S) (spec : Spec S) (P : S.State → Prop) : Prop where
  writes : ∀ s s' note, P s → spec.writes s s' note → P s'
  encode : ∀ s, P s → P (backend.encode s)

variable (backend : Backend S) (body : S.Op → Prog S) (rules : Rules S) (spec : Spec S)
  (P : S.State → Prop)

theorem ThreadInv.grow (history more : List (Row S)) (thread : Thread S)
    (hsub : ∀ row ∈ history, row ∈ more) (ht : ThreadInv backend rules spec P history thread) :
    ThreadInv backend rules spec P more thread := by
  refine ⟨ht.respects, ?_, ht.stack⟩
  intro v s hv
  obtain ⟨hp, row, hm, hrow⟩ := ht.held v s hv
  exact ⟨hp, row, hsub row hm, hrow⟩

-- What one access does to the stored history: it leaves it alone, or it puts one
-- save on top, made from the copy of the row that was on top.
theorem threadStep_history (store store' : Store S) (thread thread' : Thread S)
    (hn : Numbered store.history) (hrow : store.history ≠ [])
    (ht : ThreadInv backend rules spec P store.history thread)
    (hs : ThreadStep backend body rules store thread store' thread') :
    store'.history = store.history ∨
    ∃ row rest s s' note, store.history = row :: rest ∧ thread.held = some (row.version, s) ∧
      row.state = backend.encode s ∧ P s ∧ spec.writes s s' note ∧
      backend.storable s' note = true ∧
      thread'.held = some (row.version + 1, s') ∧
      store'.history = ⟨row.version + 1, backend.encode s', note⟩ :: store.history := by
  cases hs with
  | save op copy note next stack held =>
      obtain ⟨v, s, hheld, hversion, hwrites⟩ := ht.respects.1
      rcases commit_cases backend store.history copy note with
        ⟨hsame, _⟩ | ⟨hnil, _⟩ | ⟨row, rest, hhist, hv, hstore, hreply, hnew⟩
      · exact .inl hsame
      · exact absurd hnil hrow
      · have hvr := hv v hversion
        subst hvr
        obtain ⟨hp, found, hm, hfv, hfs⟩ := ht.held row.version s hheld
        rw [hhist] at hm hn
        have hfound := hn.eq_head row rest found hm hfv
        refine .inr ⟨row, rest, s, copy.state, note, hhist, hheld, hfound ▸ hfs, hp, hwrites,
          hstore, ?_, hnew⟩
        simp only [hreply, holdAfter]
  | _ => exact .inl rfl

theorem Numbered.push (row top : Row S) (rest : List (Row S)) (hn : Numbered (row :: rest))
    (hv : top.version = row.version + 1) : Numbered (top :: row :: rest) :=
  ⟨by rw [hv, hn.1, List.length_cons], hn⟩

-- The thread that took the access keeps its own obligations.
theorem threadStep_thread (hbody : ∀ op, Respects backend rules spec op (body op) none)
    (hP : Preserved backend spec P) (store store' : Store S) (thread thread' : Thread S)
    (hrow : store.history ≠ [])
    (hstored : ∀ row ∈ store.history,
      ∃ s, row.state = backend.encode s ∧ backend.storable s row.note = true)
    (hrows : ∀ row ∈ store.history, P row.state)
    (ht : ThreadInv backend rules spec P store.history thread)
    (hs : ThreadStep backend body rules store thread store' thread') :
    ThreadInv backend rules spec P store'.history thread' := by
  cases hs with
  | ask op query next stack held answer ha =>
      exact ⟨ht.respects.2 answer ha, ht.held, ht.stack⟩
  | load op next stack held row rest hhist hl =>
      have hm : row ∈ store.history := by simp [hhist]
      refine ⟨ht.respects row.version row.state hl, ?_, ht.stack⟩
      intro v s hv
      cases hv
      obtain ⟨s, hs, -⟩ := hstored row hm
      exact ⟨hrows row hm, row, hm, rfl, by rw [hs, backend.encode_encode]⟩
  | loadMissing op next stack held hnil => exact absurd hnil hrow
  | peek op next stack held =>
      obtain ⟨row, rest, hhist⟩ := List.exists_cons_of_ne_nil hrow
      have hread : store.read = some ⟨some row.version, row.state⟩ := by simp [Store.read, hhist]
      refine ⟨?_, ht.held, ht.stack⟩
      rw [hread]
      exact ht.respects _
  | save op copy note next stack held =>
      obtain ⟨⟨v, s, hheld, hversion, hwrites⟩, haccepted, hduplicate, hstale, hfailed⟩ := ht.respects
      rcases commit_cases backend store.history copy note with
        ⟨hsame, hno, hdup⟩ | ⟨hnil, _⟩ | ⟨row, rest, hhist, hv, hstore, hreply, hnew⟩
      · simp only [hsame]
        refine ⟨?_, ?_, ht.stack⟩
        · cases hr : (backend.commit store.history copy note).1 with
          | accepted version => exact absurd hr (hno version)
          | duplicate => exact hduplicate (hdup hr).1
          | stale => exact hstale
          | failed => exact hfailed
        · cases hr : (backend.commit store.history copy note).1 with
          | accepted version => exact absurd hr (hno version)
          | _ => exact ht.held
      · exact absurd hnil hrow
      · simp only [hreply, hnew, holdAfter]
        refine ⟨haccepted _, ?_, ht.stack⟩
        intro v' s' hv'
        cases hv'
        exact ⟨hP.writes s copy.state note (ht.held v s hheld).1 hwrites, _, List.mem_cons_self,
          rfl, rfl⟩
  | saveFails op copy note next stack held =>
      exact ⟨ht.respects.2.2.2.2, ht.held, ht.stack⟩
  | cacheGet op next stack held => exact ⟨ht.respects _, ht.held, ht.stack⟩
  | cacheMiss op next stack held => exact ⟨ht.respects _, ht.held, ht.stack⟩
  | cacheSet op state next stack held => exact ⟨ht.respects, ht.held, ht.stack⟩
  | cacheLost op state next stack held => exact ⟨ht.respects, ht.held, ht.stack⟩
  | call op callee next stack held =>
      refine ⟨hbody callee, fun v s hv => absurd hv (by simp), ?_⟩
      intro frame hf
      rcases List.mem_cons.mp hf with rfl | hf
      · exact ht.respects
      · exact ht.stack frame hf
  | ret op result caller next stack held =>
      exact ⟨ht.stack (caller, next) (by simp) result, fun v s hv => absurd hv (by simp),
        fun frame hf => ht.stack frame (by simp [hf])⟩

theorem step_inv (hbody : ∀ op, Respects backend rules spec op (body op) none)
    (hP : Preserved backend spec P) (world world' : World S)
    (hinv : Inv backend rules spec P world) (hs : Step backend body rules world world') :
    Inv backend rules spec P world' := by
  cases hs with
  | start op =>
      refine ⟨hinv.exists_row, hinv.numbered, hinv.chain, hinv.stored, hinv.rows, ?_⟩
      intro thread ht
      rcases List.mem_append.mp ht with ht | ht
      · exact hinv.threads thread ht
      · rw [List.mem_singleton] at ht
        subst ht
        exact ⟨hbody op, fun v s hv => absurd hv (by simp), fun frame hf => absurd hf (by simp)⟩
  | run i thread thread' store' hi ht =>
      have hthread := hinv.threads thread (List.mem_of_getElem? hi)
      have hnext := threadStep_thread backend body rules spec P hbody hP world.store store' thread
        thread' hinv.exists_row hinv.stored hinv.rows hthread ht
      have hothers : ∀ more, (∀ row ∈ world.store.history, row ∈ more) →
          ∀ other ∈ world.threads, ThreadInv backend rules spec P more other := fun more hm other ho =>
        (hinv.threads other ho).grow backend rules spec P world.store.history more other hm
      have hset : ∀ more, ThreadInv backend rules spec P more thread' →
          (∀ other ∈ world.threads, ThreadInv backend rules spec P more other) →
          ∀ other ∈ world.threads.set i thread', ThreadInv backend rules spec P more other := by
        intro more hmine hall other ho
        rcases List.mem_or_eq_of_mem_set ho with ho | rfl
        · exact hall other ho
        · exact hmine
      rcases threadStep_history backend body rules spec P world.store store' thread thread'
        hinv.numbered hinv.exists_row hthread ht with
        hsame | ⟨row, rest, s, s', note, hhist, _, hrow, hp, hwrites, hstorable, _, hnew⟩
      · refine ⟨?_, ?_, ?_, ?_, ?_, hset _ hnext (hothers _ ?_)⟩ <;> simp only [hsame]
        · exact hinv.exists_row
        · exact hinv.numbered
        · exact hinv.chain
        · exact hinv.stored
        · exact hinv.rows
        · exact fun _ h => h
      · have hp' := hP.encode s' (hP.writes s s' note hp hwrites)
        have hnum := hinv.numbered
        have hchain := hinv.chain
        refine ⟨?_, ?_, ?_, ?_, ?_, hset _ hnext (hothers _ ?_)⟩ <;> simp only [hnew]
        · simp
        · rw [hhist] at hnum ⊢
          exact hnum.push row _ rest rfl
        · rw [hhist] at hchain ⊢
          exact hchain.cons_cons ⟨rfl, s, s', hp, hwrites, hstorable, hrow, rfl⟩
        · intro found hf
          rcases List.mem_cons.mp hf with rfl | hf
          · exact ⟨s', rfl, hstorable⟩
          · exact hinv.stored found hf
        · intro found hf
          rcases List.mem_cons.mp hf with rfl | hf
          · exact hp'
          · exact hinv.rows found hf
        · exact fun _ h => List.mem_cons_of_mem _ h

theorem reaches_inv (hbody : ∀ op, Respects backend rules spec op (body op) none)
    (hP : Preserved backend spec P) (world world' : World S)
    (hinv : Inv backend rules spec P world) (hr : Reaches backend body rules world world') :
    Inv backend rules spec P world' := by
  induction hr with
  | refl => exact hinv
  | tail _ hs ih => exact step_inv backend body rules spec P hbody hP _ _ ih hs

-- One step leaves the history alone, or puts on it what a thread made of the row on top.
theorem step_adds (world world' : World S) (hinv : Inv backend rules spec P world)
    (hs : Step backend body rules world world') :
    world'.store.history = world.store.history ∨
      ∃ row rest thread s s' note, world.store.history = row :: rest ∧ thread ∈ world.threads ∧
        thread.held = some (row.version, s) ∧ row.state = backend.encode s ∧ P s ∧
        spec.writes s s' note ∧ backend.storable s' note = true ∧
        world'.store.history = ⟨row.version + 1, backend.encode s', note⟩ :: row :: rest := by
  cases hs with
  | start op => exact .inl rfl
  | run i thread thread' store' hi ht =>
      have hm := List.mem_of_getElem? hi
      rcases threadStep_history backend body rules spec P world.store store' thread thread'
        hinv.numbered hinv.exists_row (hinv.threads thread hm) ht with
        h | ⟨row, rest, s, s', note, hhist, hheld, hrow, hp, hw, hstore, -, hnew⟩
      · exact .inl h
      · exact .inr ⟨row, rest, thread, s, s', note, hhist, hm, hheld, hrow, hp, hw, hstore,
          by rw [hnew, hhist]⟩

theorem step_history (world world' : World S) (hinv : Inv backend rules spec P world)
    (hs : Step backend body rules world world') :
    world'.store.history = world.store.history ∨
      ∃ top row rest, world.store.history = row :: rest ∧ Link backend spec P top row ∧
        world'.store.history = top :: row :: rest := by
  rcases step_adds backend body rules spec P world world' hinv hs with
    h | ⟨row, rest, -, s, s', note, hhist, -, -, hrow, hp, hw, hstore, hnew⟩
  · exact .inl h
  · exact .inr ⟨_, row, rest, hhist, ⟨rfl, s, s', hp, hw, hstore, hrow, rfl⟩, hnew⟩

-- What every linked row keeps true of the history is true of the history of every run.
theorem reaches_history (Q : List (Row S) → Prop)
    (hpush : ∀ top row rest, Link backend spec P top row → Q (row :: rest) → Q (top :: row :: rest))
    (hbody : ∀ op, Respects backend rules spec op (body op) none) (hP : Preserved backend spec P)
    (world world' : World S) (hinv : Inv backend rules spec P world) (hq : Q world.store.history)
    (hr : Reaches backend body rules world world') : Q world'.store.history := by
  induction hr with
  | refl => exact hq
  | tail hfront hs ih =>
      have hinv' := reaches_inv backend body rules spec P hbody hP world _ hinv hfront
      rcases step_history backend body rules spec P _ _ hinv' hs with h | ⟨top, row, rest, hrow, hl, h⟩
      · rw [h]
        exact ih
      · rw [h]
        rw [hrow] at ih
        exact hpush top row rest hl ih

-- A record saved once, with no operation on its way.
def World.init (state : S.State) (note : S.Note) (cache : Option S.State) : World S :=
  ⟨⟨[⟨1, state, note⟩], cache⟩, []⟩

theorem init_inv (state : S.State) (note : S.Note) (cache : Option S.State)
    (he : backend.encode state = state) (hs : backend.storable state note = true) (hp : P state) :
    Inv backend rules spec P (World.init state note cache) where
  exists_row := by simp [World.init]
  numbered := ⟨rfl, trivial⟩
  chain := .singleton _
  stored row hr := by
    rw [World.init, List.mem_singleton] at hr
    rw [hr]
    exact ⟨state, he.symm, hs⟩
  rows row hr := by
    rw [World.init, List.mem_singleton] at hr
    rw [hr]
    exact hp
  threads thread ht := absurd ht (by simp [World.init])

section Chain

-- Two relations that agree on linked rows make the same histories chains.
theorem isChain_congr {R R' L : Row S → Row S → Prop} (history : List (Row S))
    (hl : history.IsChain L) (h : ∀ newer older, L newer older → (R newer older ↔ R' newer older)) :
    history.IsChain R ↔ history.IsChain R' := by
  induction hl with
  | nil => simp
  | singleton row => simp
  | cons_cons hrow _ ih => rw [List.isChain_cons_cons, List.isChain_cons_cons, h _ _ hrow, ih]

end Chain

section Sequential

theorem set_last (threads : List (Thread S)) (thread thread' : Thread S) :
    (threads ++ [thread]).set threads.length thread' = threads ++ [thread'] := by
  rw [List.set_append_right _ _ (Nat.le_refl _), Nat.sub_self]
  rfl

theorem step_last (store store' : Store S) (threads : List (Thread S)) (thread thread' : Thread S)
    (hs : ThreadStep backend body rules store thread store' thread') :
    Step backend body rules ⟨store, threads ++ [thread]⟩ ⟨store', threads ++ [thread']⟩ := by
  have h : Step backend body rules ⟨store, threads ++ [thread]⟩
      ⟨store', (threads ++ [thread]).set threads.length thread'⟩ :=
    .run ⟨store, threads ++ [thread]⟩ threads.length thread thread' store' (by simp) hs
  rwa [set_last] at h

-- Nobody has to interfere: a run of one operation alone is one of the interleavings.
theorem run_reaches (answer : (query : S.Query) → S.Answer query) (op : S.Op)
    (ha : ∀ query, rules.answer query (answer query)) (hl : ∀ s, rules.load op s) (prog : Prog S)
    (store : Store S) (threads : List (Thread S)) (held : Option (Nat × S.State)) :
    ∃ held', Reaches backend body rules ⟨store, threads ++ [⟨op, prog, [], held⟩]⟩
      ⟨(prog.run backend answer store).1,
        threads ++ [⟨op, (prog.run backend answer store).2.prog, [], held'⟩]⟩ := by
  induction prog generalizing store held with
  | done result => exact ⟨held, .refl⟩
  | call callee next _ => exact ⟨held, .refl⟩
  | ask query next ih =>
      obtain ⟨held', h⟩ := ih (answer query) store held
      exact ⟨held', .head (step_last backend body _ store store threads _ _
        (.ask store op query next [] held (answer query) (ha query))) h⟩
  | load next ih =>
      cases hhist : store.history with
      | nil =>
          obtain ⟨held', h⟩ := ih none store none
          have hread : store.read = none := by simp [Store.read, hhist]
          simp only [Prog.run, hread]
          exact ⟨held', .head (step_last backend body _ store store threads _ _
            (.loadMissing store op next [] held hhist)) h⟩
      | cons row rest =>
          obtain ⟨held', h⟩ := ih (some ⟨some row.version, row.state⟩) store
            (some (row.version, row.state))
          have hread : store.read = some ⟨some row.version, row.state⟩ := by simp [Store.read, hhist]
          simp only [Prog.run, hread]
          exact ⟨held', .head (step_last backend body _ store store threads _ _
            (.load store op next [] held row rest hhist (hl row.state))) h⟩
  | peek next ih =>
      obtain ⟨held', h⟩ := ih store.read store held
      exact ⟨held', .head (step_last backend body _ store store threads _ _
        (.peek store op next [] held)) h⟩
  | save copy note next ih =>
      obtain ⟨held', h⟩ := ih (backend.commit store.history copy note).1
        { store with history := (backend.commit store.history copy note).2 }
        (holdAfter held copy.state (backend.commit store.history copy note).1)
      exact ⟨held', .head (step_last backend body _ store _ threads _ _
        (.save store op copy note next [] held)) h⟩
  | cacheGet next ih =>
      obtain ⟨held', h⟩ := ih store.cache store held
      exact ⟨held', .head (step_last backend body _ store store threads _ _
        (.cacheGet store op next [] held)) h⟩
  | cacheSet state next ih =>
      obtain ⟨held', h⟩ := ih { store with cache := some (backend.encode state) } held
      exact ⟨held', .head (step_last backend body _ store _ threads _ _
        (.cacheSet store op state next [] held)) h⟩

-- One operation after the other, each to its end or to the operation it calls.
def runAll (answer : (query : S.Query) → S.Answer query) (store : Store S) (ops : List S.Op) : Store S :=
  ops.foldl (fun store op => ((body op).run backend answer store).1) store

theorem runAll_reaches (answer : (query : S.Query) → S.Answer query)
    (ha : ∀ query, rules.answer query (answer query)) (ops : List S.Op)
    (hl : ∀ op ∈ ops, ∀ s, rules.load op s) (world : World S) :
    ∃ threads, Reaches backend body rules world
      ⟨runAll backend body answer world.store ops, threads⟩ := by
  induction ops generalizing world with
  | nil => exact ⟨world.threads, .refl⟩
  | cons op rest ih =>
      obtain ⟨held, hrun⟩ := run_reaches backend body rules answer op ha (hl op (by simp)) (body op)
        world.store world.threads none
      obtain ⟨threads, h⟩ := ih (fun other ho => hl other (by simp [ho]))
        ⟨((body op).run backend answer world.store).1,
          world.threads ++ [⟨op, ((body op).run backend answer world.store).2.prog, [], held⟩]⟩
      exact ⟨threads, (Relation.ReflTransGen.head (.start world op) hrun).trans h⟩

end Sequential

section Turns

theorem advance_step (answer : (query : S.Query) → S.Answer query)
    (ha : ∀ query, rules.answer query (answer query)) (store : Store S) (thread : Thread S)
    (hl : ∀ s, rules.load thread.op s) :
    (∃ result, thread.prog = .done result) ∧ advance backend body answer store thread = (store, thread) ∨
      ThreadStep backend body rules store thread
        (advance backend body answer store thread).1 (advance backend body answer store thread).2 := by
  obtain ⟨op, prog, stack, held⟩ := thread
  cases prog with
  | done result =>
      cases stack with
      | nil => exact .inl ⟨⟨result, rfl⟩, rfl⟩
      | cons frame stack => exact .inr (.ret store op result frame.1 frame.2 stack held)
  | call callee next => exact .inr (.call store op callee next stack held)
  | ask query next => exact .inr (.ask store op query next stack held (answer query) (ha query))
  | load next =>
      cases hhist : store.history with
      | nil =>
          have hread : store.read = none := by simp [Store.read, hhist]
          simp only [advance, hread, hhist]
          exact .inr (.loadMissing store op next stack held hhist)
      | cons row rest =>
          have hread : store.read = some ⟨some row.version, row.state⟩ := by simp [Store.read, hhist]
          simp only [advance, hread, hhist]
          exact .inr (.load store op next stack held row rest hhist (hl row.state))
  | peek next => exact .inr (.peek store op next stack held)
  | save copy note next => exact .inr (.save store op copy note next stack held)
  | cacheGet next => exact .inr (.cacheGet store op next stack held)
  | cacheSet state next => exact .inr (.cacheSet store op state next stack held)

theorem starts_reaches (ops : List S.Op) (world : World S) :
    Reaches backend body rules world
      { world with threads := world.threads ++ ops.map fun op => ⟨op, body op, [], none⟩ } := by
  induction ops generalizing world with
  | nil =>
      rw [List.map_nil, List.append_nil]
      exact .refl
  | cons op rest ih =>
      have h := ih { world with threads := world.threads ++ [⟨op, body op, [], none⟩] }
      simp only [List.append_assoc, List.singleton_append] at h
      exact .head (.start world op) h

theorem interleave_reaches (allowed : S.Op → Bool) (answer : (query : S.Query) → S.Answer query)
    (ha : ∀ query, rules.answer query (answer query))
    (hl : ∀ op, allowed op = true → ∀ s, rules.load op s) (turns : List Nat) (world : World S) :
    Reaches backend body rules world (interleave backend body allowed answer turns world) := by
  induction turns generalizing world with
  | nil => exact .refl
  | cons i turns ih =>
      rw [interleave]
      cases hi : world.threads[i]?.filter fun thread => allowed thread.op with
      | none => exact ih world
      | some thread =>
          obtain ⟨hget, hallowed⟩ := Option.filter_eq_some_iff.mp hi
          rcases advance_step backend body rules answer ha world.store thread (hl _ hallowed) with
            ⟨_, hsame⟩ | hstep
          · have hset : world.threads.set i thread = world.threads := by
              obtain ⟨hlt, he⟩ := List.getElem?_eq_some_iff.mp hget
              rw [← he, List.set_getElem_self hlt]
            simp only [hsame, hset]
            exact ih world
          · exact .head (.run world i thread _ _ hget hstep) (ih _)

end Turns

end VersionedStore
