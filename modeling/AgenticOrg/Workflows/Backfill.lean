import AgenticOrg.Lib.VersionedStore.Theorems
import AgenticOrg.Workflows.Engine

namespace AgenticOrg.Workflows

open OrderedDict VersionedStore

def Note.isBackfill (note : Note) : Bool := note.actor = .redisLegacyBackfill

-- The store by itself: loads, and saves of any state at any version by anybody else.
inductive StoreOp where
  | load
  | save (version : Option Nat) (state : RunState) (note : Note) (hn : note.isBackfill = false)

abbrev StateStore : Sig := sig StoreOp (Option RunState)

def storeBody (repository : Repository) (runId : String) : StoreOp → Prog StateStore
  | .load => loadState repository runId (.done none) fun found => .done (found.map Copy.state)
  | .save version state note _ =>
      saveState ⟨version, state⟩ note (fun copy => .done (some copy.state)) (.done none) (.done none)

-- No row yet, and a state of the old kind in Redis.
def unmigrated (legacy : RunState) : World StateStore := ⟨⟨[], some (jsonSafe legacy)⟩, []⟩

-- What is stored: the latest state that was saved, or the legacy state while nobody
-- has saved anything.
def LatestWins (legacy : RunState) (history : List (Row StateStore)) : Prop :=
  ∀ top rest, history = top :: rest →
    (∀ row, history.find? (fun row => !row.note.isBackfill) = some row → top.state = row.state) ∧
    (history.find? (fun row => !row.note.isBackfill) = none → top.state = jsonSafe legacy)

def StoreStep (repository : Repository) (runId : String) : World StateStore → World StateStore → Prop :=
  VersionedStore.Step (repository.backend StoreOp (Option RunState)) (storeBody repository runId)
    (Rules.free StateStore)

-- A run, with the threads whose loads have found no row.
structure Watched where
  world : World StateStore
  missed : List ℕ

def missedBy (store : Store StateStore) (thread : Thread StateStore) : Bool :=
  match thread.prog with
  | .load _ => store.history.isEmpty
  | _ => false

def Watched.start (watched : Watched) (op : StoreOp) (prog : Prog StateStore) : Watched :=
  { watched with
    world := { watched.world with threads := watched.world.threads ++ [⟨op, prog, [], none⟩] } }

def Watched.after (watched : Watched) (i : ℕ) (thread thread' : Thread StateStore) (store' : Store StateStore) :
    Watched :=
  ⟨⟨store', watched.world.threads.set i thread'⟩,
    if missedBy watched.world.store thread then i :: watched.missed else watched.missed⟩

-- A load that found no row saves what it has from Redis only while nobody else's save has been accepted since,
-- or where that is what is stored.
def Timely (watched : Watched) (i : ℕ) (thread : Thread StateStore) : Prop :=
  i ∈ watched.missed → ∀ copy note next, thread.prog = .save copy note next → note.isBackfill = true →
    (∀ row ∈ watched.world.store.history, row.note.isBackfill = true) ∨
      ∃ row, watched.world.store.history.head? = some row ∧ row.state = jsonSafe copy.state

-- The runs whose accesses are timely.
inductive TimelyRun (repository : Repository) (runId : String) (legacy : RunState) : Watched → Prop where
  | unmigrated : TimelyRun repository runId legacy ⟨unmigrated legacy, []⟩
  | start (watched : Watched) (op : StoreOp) (hrun : TimelyRun repository runId legacy watched) :
      TimelyRun repository runId legacy (watched.start op (storeBody repository runId op))
  | access (watched : Watched) (i : ℕ) (thread thread' : Thread StateStore) (store' : Store StateStore)
      (hrun : TimelyRun repository runId legacy watched) (hi : watched.world.threads[i]? = some thread)
      (ht : ThreadStep (repository.backend StoreOp (Option RunState)) (storeBody repository runId)
        (Rules.free StateStore) watched.world.store thread store' thread')
      (htimely : Timely watched i thread) :
      TimelyRun repository runId legacy (watched.after i thread thread' store')

section Misses

-- A program that saves a backfill only behind a load that found nothing.
def MissesFirst : Prog StateStore → Prop
  | .done _ => True
  | .call _ _ => False
  | .ask _ next => ∀ answer, MissesFirst (next answer)
  | .load next => ∀ copy, MissesFirst (next (some copy))
  | .peek next => ∀ found, MissesFirst (next found)
  | .save _ note next => note.isBackfill = false ∧ ∀ reply, MissesFirst (next reply)
  | .cacheGet next => ∀ found, MissesFirst (next found)
  | .cacheSet _ next => MissesFirst next

theorem storeBody_missesFirst (repository : Repository) (runId : String) (op : StoreOp) :
    MissesFirst (storeBody repository runId op) := by
  cases op with
  | load => exact fun copy => trivial
  | save version state note hn =>
      refine ⟨hn, fun reply => ?_⟩
      cases reply with
      | accepted version => trivial
      | duplicate => trivial
      | stale => trivial
      | failed => trivial

theorem missesFirst_threadStep (repository : Repository) (runId : String) (store store' : Store StateStore)
    (thread thread' : Thread StateStore) (hstack : thread.stack = []) (hfirst : MissesFirst thread.prog)
    (hfound : missedBy store thread = false)
    (hs : ThreadStep (repository.backend StoreOp (Option RunState)) (storeBody repository runId)
      (Rules.free StateStore) store thread store' thread') :
    thread'.stack = [] ∧ MissesFirst thread'.prog := by
  cases hs with
  | ask op query next stack held answer ha => exact ⟨hstack, hfirst answer⟩
  | load op next stack held row rest hhist hl => exact ⟨hstack, hfirst _⟩
  | loadMissing op next stack held hhist =>
      rw [missedBy, hhist] at hfound
      cases hfound
  | peek op next stack held => exact ⟨hstack, hfirst _⟩
  | save op copy note next stack held => exact ⟨hstack, hfirst.2 _⟩
  | saveFails op copy note next stack held => exact ⟨hstack, hfirst.2 _⟩
  | cacheGet op next stack held => exact ⟨hstack, hfirst _⟩
  | cacheMiss op next stack held => exact ⟨hstack, hfirst _⟩
  | cacheSet op state next stack held => exact ⟨hstack, hfirst⟩
  | cacheLost op state next stack held => exact ⟨hstack, hfirst⟩
  | call op callee next stack held => exact hfirst.elim
  | ret op result caller next stack held => cases hstack

-- Only loads that found no row are on their way to a backfill.
def Watched.Sound (watched : Watched) : Prop :=
  ∀ (i : ℕ) (thread : Thread StateStore), watched.world.threads[i]? = some thread → i ∉ watched.missed →
    thread.stack = [] ∧ MissesFirst thread.prog

theorem Watched.Sound.start {watched : Watched} (h : watched.Sound) (repository : Repository) (runId : String)
    (op : StoreOp) : (watched.start op (storeBody repository runId op)).Sound := by
  intro i thread hi hmissed
  change (watched.world.threads ++ [_])[i]? = some thread at hi
  rcases lt_or_ge i watched.world.threads.length with hlt | hge
  · rw [List.getElem?_append_left hlt] at hi
    exact h i thread hi hmissed
  · rw [List.getElem?_append_right hge] at hi
    obtain rfl := List.mem_singleton.mp (List.mem_of_getElem? hi)
    exact ⟨rfl, storeBody_missesFirst repository runId op⟩

theorem Watched.Sound.after {watched : Watched} (h : watched.Sound) (repository : Repository) (runId : String)
    (i : ℕ) (thread thread' : Thread StateStore) (store' : Store StateStore)
    (hi : watched.world.threads[i]? = some thread)
    (ht : ThreadStep (repository.backend StoreOp (Option RunState)) (storeBody repository runId)
      (Rules.free StateStore) watched.world.store thread store' thread') :
    (watched.after i thread thread' store').Sound := by
  intro j other hj hmissed
  change (watched.world.threads.set i thread')[j]? = some other at hj
  have hbefore : j ∉ watched.missed ∧ (j = i → missedBy watched.world.store thread = false) := by
    rw [Watched.after] at hmissed
    dsimp only at hmissed
    split_ifs at hmissed with hmiss
    · rw [List.mem_cons, not_or] at hmissed
      exact ⟨hmissed.2, fun he => absurd he hmissed.1⟩
    · exact ⟨hmissed, fun _ => Bool.eq_false_of_not_eq_true hmiss⟩
  by_cases hsame : j = i
  · subst hsame
    rw [List.getElem?_set_self (List.getElem?_eq_some_iff.mp hi).1] at hj
    obtain rfl := Option.some.inj hj
    obtain ⟨hstack, hfirst⟩ := h j thread hi hbefore.1
    exact missesFirst_threadStep repository runId _ _ _ _ hstack hfirst (hbefore.2 rfl) ht
  · rw [List.getElem?_set_ne (Ne.symm hsame)] at hj
    exact h j other hj hbefore.1

end Misses

section Quiet

variable (base : RunState)

-- A program that brings nothing but `base` into the store and the cache as long as
-- it finds nothing else there and no save but backfills is accepted.
def Quiet : Prog StateStore → Prop
  | .done _ => True
  | .call _ _ => False
  | .ask _ next => ∀ answer, Quiet (next answer)
  | .load next => Quiet (next none) ∧ ∀ v, Quiet (next (some ⟨some v, base⟩))
  | .peek next => Quiet (next none) ∧ ∀ v, Quiet (next (some ⟨some v, base⟩))
  | .save copy note next =>
      (note.isBackfill = true →
        note.key = none ∧ jsonSafe copy.state = base ∧ ∀ v, Quiet (next (.accepted v))) ∧
        Quiet (next .stale) ∧ Quiet (next .failed)
  | .cacheGet next => Quiet (next (some base)) ∧ Quiet (next none)
  | .cacheSet state next => jsonSafe state = base ∧ Quiet next

theorem storeBody_quiet (repository : Repository) (runId : String) (hbase : jsonSafe base = base)
    (op : StoreOp) : Quiet base (storeBody repository runId op) := by
  cases op with
  | load =>
      refine ⟨⟨?_, trivial⟩, fun _ => trivial⟩
      dsimp only
      split
      · exact ⟨fun _ => ⟨rfl, hbase, fun _ => ⟨hbase, trivial⟩⟩, trivial, trivial⟩
      · trivial
  | save version state note hn =>
      refine ⟨fun h => ?_, trivial, trivial⟩
      rw [hn] at h
      cases h

-- Before anything but backfills has been saved.
structure Early (world : World StateStore) : Prop where
  rows : ∀ row ∈ world.store.history, row.note.isBackfill = true ∧ row.note.key = none ∧ row.state = base
  cache : world.store.cache = some base
  threads : ∀ thread ∈ world.threads, thread.stack = [] ∧ Quiet base thread.prog

-- What one access of a thread does before anything but backfills has been saved.
theorem early_threadStep (repository : Repository) (runId : String) (store store' : Store StateStore)
    (thread thread' : Thread StateStore)
    (hrows : ∀ row ∈ store.history,
      row.note.isBackfill = true ∧ row.note.key = none ∧ row.state = base)
    (hcache : store.cache = some base) (hstack : thread.stack = []) (hquiet : Quiet base thread.prog)
    (hs : ThreadStep (repository.backend StoreOp (Option RunState)) (storeBody repository runId)
      (Rules.free StateStore) store thread store' thread') :
    (∃ top, store'.history = top :: store.history ∧ top.note.isBackfill = false) ∨
      (store'.cache = some base ∧ thread'.stack = [] ∧ Quiet base thread'.prog ∧
        (store'.history = store.history ∨
          ∃ top, store'.history = top :: store.history ∧ top.note.isBackfill = true ∧
            top.note.key = none ∧ top.state = base)) := by
  cases hs with
  | ask op query next stack held answer ha =>
      exact .inr ⟨hcache, hstack, hquiet answer, .inl rfl⟩
  | load op next stack held row rest hhist hl =>
      have hrow := (hrows row (by simp [hhist])).2.2
      refine .inr ⟨hcache, hstack, ?_, .inl rfl⟩
      rw [hrow]
      exact hquiet.2 row.version
  | loadMissing op next stack held hhist => exact .inr ⟨hcache, hstack, hquiet.1, .inl rfl⟩
  | peek op next stack held =>
      refine .inr ⟨hcache, hstack, ?_, .inl rfl⟩
      cases hhist : store.history with
      | nil =>
          have hread : store.read = none := by simp [Store.read, hhist]
          rw [hread]
          exact hquiet.1
      | cons row rest =>
          have hrow := (hrows row (by simp [hhist])).2.2
          have hread : store.read = some ⟨some row.version, base⟩ := by
            simp [Store.read, hhist, hrow]
          rw [hread]
          exact hquiet.2 row.version
  | save op copy note next stack held =>
      rcases commit_cases (repository.backend StoreOp (Option RunState)) store.history copy note with
        ⟨hsame, hno, hdup⟩ | ⟨hnil, hreply, -, hnew⟩ | ⟨row, rest, hhist, -, -, hreply, hnew⟩
      · refine .inr ⟨hcache, hstack, ?_, .inl hsame⟩
        cases hr : ((repository.backend StoreOp (Option RunState)).commit store.history copy note).1 with
        | accepted version => exact absurd hr (hno version)
        | duplicate =>
            -- Backfills have no key that a save could repeat.
            obtain ⟨hkey, row, hm, he⟩ := hdup hr
            rw [← he] at hkey
            exact absurd (hrows row hm).2.1 hkey
        | stale => exact hquiet.2.1
        | failed => exact hquiet.2.2
      · rw [hnil] at *
        cases hb : note.isBackfill with
        | false => exact .inl ⟨_, hnew, hb⟩
        | true =>
            obtain ⟨hkey, hstate, haccepted⟩ := hquiet.1 hb
            refine .inr ⟨hcache, hstack, ?_, .inr ⟨_, hnew, hb, hkey, hstate⟩⟩
            simp only [hreply]
            exact haccepted 1
      · cases hb : note.isBackfill with
        | false => exact .inl ⟨_, hnew, hb⟩
        | true =>
            obtain ⟨hkey, hstate, haccepted⟩ := hquiet.1 hb
            refine .inr ⟨hcache, hstack, ?_, .inr ⟨_, hnew, hb, hkey, hstate⟩⟩
            simp only [hreply]
            exact haccepted _
  | saveFails op copy note next stack held => exact .inr ⟨hcache, hstack, hquiet.2.2, .inl rfl⟩
  | cacheGet op next stack held =>
      refine .inr ⟨hcache, hstack, ?_, .inl rfl⟩
      rw [hcache]
      exact hquiet.1
  | cacheMiss op next stack held => exact .inr ⟨hcache, hstack, hquiet.2, .inl rfl⟩
  | cacheSet op state next stack held =>
      refine .inr ⟨?_, hstack, hquiet.2, .inl rfl⟩
      exact congrArg some hquiet.1
  | cacheLost op state next stack held => exact .inr ⟨hcache, hstack, hquiet.2, .inl rfl⟩
  | call op callee next stack held => exact hquiet.elim
  | ret op result caller next stack held => cases hstack

theorem early_step (repository : Repository) (runId : String) (hbase : jsonSafe base = base)
    (world world' : World StateStore) (he : Early base world)
    (hs : StoreStep repository runId world world') :
    Early base world' ∨
      ∃ top, world'.store.history = top :: world.store.history ∧ top.note.isBackfill = false := by
  cases hs with
  | start op =>
      refine .inl ⟨he.rows, he.cache, ?_⟩
      intro thread ht
      rcases List.mem_append.mp ht with ht | ht
      · exact he.threads thread ht
      · rw [List.mem_singleton.mp ht]
        exact ⟨rfl, storeBody_quiet base repository runId hbase op⟩
  | run i thread thread' store' hi ht =>
      obtain ⟨hstack, hquiet⟩ := he.threads thread (List.mem_of_getElem? hi)
      rcases early_threadStep base repository runId world.store store' thread thread' he.rows he.cache
        hstack hquiet ht with htop | ⟨hcache, hstack', hquiet', hhist⟩
      · exact .inr htop
      · refine .inl ⟨?_, hcache, ?_⟩
        · rcases hhist with hsame | ⟨top, hnew, hb, hkey, hstate⟩
          · simp only [hsame]
            exact he.rows
          · simp only [hnew]
            intro row hm
            rcases List.mem_cons.mp hm with rfl | hm
            · exact ⟨hb, hkey, hstate⟩
            · exact he.rows row hm
        · intro other ho
          rcases List.mem_or_eq_of_mem_set ho with ho | rfl
          · exact he.threads other ho
          · exact ⟨hstack', hquiet'⟩

end Quiet

section Latest

variable (legacy : RunState)

theorem find?_backfill_none (history : List (Row StateStore)) :
    history.find? (fun row => !row.note.isBackfill) = none ↔
      ∀ row ∈ history, row.note.isBackfill = true := by
  simp [List.find?_eq_none]

theorem latestWins_of_early (world : World StateStore) (he : Early (jsonSafe legacy) world) :
    LatestWins legacy world.store.history := by
  intro top rest hh
  have hnone := (find?_backfill_none world.store.history).mpr fun row hm => (he.rows row hm).1
  refine ⟨fun row hf => ?_, fun _ => (he.rows top (by simp [hh])).2.2⟩
  rw [hnone] at hf
  cases hf

theorem latestWins_push_save (top : Row StateStore) (history : List (Row StateStore))
    (hb : top.note.isBackfill = false) : LatestWins legacy (top :: history) := by
  intro first rest hh
  cases hh
  have hfind : (top :: history).find? (fun row => !row.note.isBackfill) = some top := by
    simp [hb]
  rw [hfind]
  refine ⟨fun row hr => by cases hr; rfl, fun h => by cases h⟩

-- Over a state that somebody has saved, a backfill has to repeat what is there.
theorem latestWins_push_backfill_iff (top : Row StateStore) (history : List (Row StateStore))
    (hb : top.note.isBackfill = true) (hl : LatestWins legacy history)
    (hsaved : ∃ row ∈ history, row.note.isBackfill = false) :
    LatestWins legacy (top :: history) ↔ ∃ row, history.head? = some row ∧ top.state = row.state := by
  have hfind : (top :: history).find? (fun row => !row.note.isBackfill) =
      history.find? (fun row => !row.note.isBackfill) := by
    simp [hb]
  obtain ⟨latest, hlatest⟩ : ∃ latest, history.find? (fun row => !row.note.isBackfill) = some latest := by
    apply Option.ne_none_iff_exists'.mp
    rw [Ne, find?_backfill_none]
    intro hall
    obtain ⟨row, hm, hno⟩ := hsaved
    rw [hall row hm] at hno
    cases hno
  cases history with
  | nil =>
      obtain ⟨row, hm, -⟩ := hsaved
      exact absurd hm List.not_mem_nil
  | cons head rest =>
      have hhead := (hl head rest rfl).1 latest hlatest
      constructor
      · intro h
        have htop := (h top (head :: rest) rfl).1 latest (by rw [hfind, hlatest])
        exact ⟨head, rfl, by rw [htop, hhead]⟩
      · rintro ⟨row, hrow, hstate⟩ first tail hh
        cases hh
        cases hrow
        rw [hfind, hlatest]
        refine ⟨fun found hf => ?_, fun h => by cases h⟩
        cases hf
        rw [hstate, hhead]

theorem threadStep_adds (repository : Repository) (runId : String) (store store' : Store StateStore)
    (thread thread' : Thread StateStore)
    (hs : ThreadStep (repository.backend StoreOp (Option RunState)) (storeBody repository runId)
      (Rules.free StateStore) store thread store' thread') :
    store'.history = store.history ∨
      ∃ copy note next top, thread.prog = .save copy note next ∧ store'.history = top :: store.history ∧
        top.note = note ∧ top.state = jsonSafe copy.state := by
  cases hs with
  | save op copy note next stack held =>
      rcases commit_cases (repository.backend StoreOp (Option RunState)) store.history copy note with
        ⟨hsame, -⟩ | ⟨hnil, -, -, hnew⟩ | ⟨row, rest, -, -, -, -, hnew⟩
      · exact .inl hsame
      · exact .inr ⟨copy, note, next, _, rfl, by rw [hnil] at hnew ⊢; exact hnew, rfl, rfl⟩
      · exact .inr ⟨copy, note, next, _, rfl, hnew, rfl, rfl⟩
  | _ => exact .inl rfl

-- Either nothing but backfills so far, or somebody has saved and is on top.
structure Settled (watched : Watched) : Prop where
  kind : Early (jsonSafe legacy) watched.world ∨
    ∃ row ∈ watched.world.store.history, row.note.isBackfill = false
  latest : LatestWins legacy watched.world.store.history
  sound : watched.Sound

-- An access keeps the latest save exactly when it saves nothing or is timely.
theorem Settled.latest_iff {watched : Watched} (h : Settled legacy watched) (repository : Repository) (runId : String)
    (i : ℕ) (thread thread' : Thread StateStore) (store' : Store StateStore)
    (hi : watched.world.threads[i]? = some thread)
    (ht : ThreadStep (repository.backend StoreOp (Option RunState)) (storeBody repository runId)
      (Rules.free StateStore) watched.world.store thread store' thread') :
    LatestWins legacy store'.history ↔
      store'.history = watched.world.store.history ∨ Timely watched i thread := by
  rcases h.kind with he | ⟨row, hm, hsaved⟩
  · refine iff_of_true ?_ (.inr fun _ _ _ _ _ _ => .inl fun row hm => (he.rows row hm).1)
    rcases early_step (jsonSafe legacy) repository runId (jsonSafe_jsonSafe legacy) watched.world _ he
      (.run watched.world i thread thread' store' hi ht) with he' | ⟨top, hnew, hb⟩
    · exact latestWins_of_early legacy _ he'
    · change store'.history = top :: watched.world.store.history at hnew
      rw [hnew]
      exact latestWins_push_save legacy top _ hb
  · rcases threadStep_adds repository runId _ _ _ _ ht with hsame | ⟨copy, note, next, top, hprog, hnew, hnote, hstate⟩
    · refine iff_of_true ?_ (.inl hsame)
      rw [hsame]
      exact h.latest
    · have hgrown : store'.history ≠ watched.world.store.history := by
        rw [hnew]
        exact List.cons_ne_self _ _
      rw [or_iff_right hgrown, hnew]
      cases hb : top.note.isBackfill with
      | false =>
          refine iff_of_true (latestWins_push_save legacy top _ hb) fun _ copy' note' next' hprog' hbackfill => ?_
          rw [hprog] at hprog'
          cases hprog'
          rw [hnote, hbackfill] at hb
          cases hb
      | true =>
          rw [latestWins_push_backfill_iff legacy top _ hb h.latest ⟨row, hm, hsaved⟩]
          have hmissed : i ∈ watched.missed := by
            by_contra hfound
            obtain ⟨_, hfirst⟩ := h.sound i thread hi hfound
            rw [hprog] at hfirst
            rw [hnote, hfirst.1] at hb
            cases hb
          constructor
          · rintro ⟨first, hhead, hsame⟩ _ copy' note' next' hprog' _
            rw [hprog] at hprog'
            cases hprog'
            exact .inr ⟨first, hhead, by rw [← hsame, hstate]⟩
          · intro htimely
            rcases htimely hmissed copy note next hprog (hnote ▸ hb) with hall | ⟨first, hhead, hsame⟩
            · rw [hall row hm] at hsaved
              cases hsaved
            · exact ⟨first, hhead, by rw [hsame, hstate]⟩

theorem settled_unmigrated : Settled legacy ⟨unmigrated legacy, []⟩ := by
  have he : Early (jsonSafe legacy) (unmigrated legacy) :=
    ⟨fun row hm => absurd hm List.not_mem_nil, rfl, fun thread hm => absurd hm List.not_mem_nil⟩
  exact ⟨.inl he, latestWins_of_early legacy _ he, fun i thread hi => by cases hi⟩

theorem Settled.start {watched : Watched} (h : Settled legacy watched) (repository : Repository) (runId : String)
    (op : StoreOp) : Settled legacy (watched.start op (storeBody repository runId op)) := by
  refine ⟨?_, h.latest, h.sound.start repository runId op⟩
  rcases h.kind with he | hsaved
  · rcases early_step (jsonSafe legacy) repository runId (jsonSafe_jsonSafe legacy) watched.world _ he
      (.start watched.world op) with he' | ⟨top, hnew, _⟩
    · exact .inl he'
    · exact absurd hnew.symm (List.cons_ne_self _ _)
  · exact .inr hsaved

theorem Settled.after {watched : Watched} (h : Settled legacy watched) (repository : Repository) (runId : String)
    (i : ℕ) (thread thread' : Thread StateStore) (store' : Store StateStore)
    (hi : watched.world.threads[i]? = some thread)
    (ht : ThreadStep (repository.backend StoreOp (Option RunState)) (storeBody repository runId)
      (Rules.free StateStore) watched.world.store thread store' thread')
    (htimely : Timely watched i thread) : Settled legacy (watched.after i thread thread' store') := by
  refine ⟨?_, (h.latest_iff legacy repository runId i thread thread' store' hi ht).mpr (.inr htimely),
    h.sound.after repository runId i thread thread' store' hi ht⟩
  rcases h.kind with he | ⟨row, hm, hsaved⟩
  · rcases early_step (jsonSafe legacy) repository runId (jsonSafe_jsonSafe legacy) watched.world _ he
      (.run watched.world i thread thread' store' hi ht) with he' | ⟨top, hnew, hb⟩
    · exact .inl he'
    · exact .inr ⟨top, hnew ▸ List.mem_cons_self, hb⟩
  · refine .inr ⟨row, ?_, hsaved⟩
    change row ∈ store'.history
    rcases threadStep_adds repository runId _ _ _ _ ht with hsame | ⟨_, _, _, top, _, hnew, _⟩
    · rwa [hsame]
    · rw [hnew]
      exact List.mem_cons_of_mem _ hm

-- In a run whose accesses are timely the latest save wins, and an access that is not timely replaces it once
-- its save is accepted.
theorem backfill_latestWins (repository : Repository) (runId : String) (watched : Watched)
    (hr : TimelyRun repository runId legacy watched) :
    LatestWins legacy watched.world.store.history ∧
      ∀ (i : ℕ) (thread thread' : Thread StateStore) (store' : Store StateStore),
        watched.world.threads[i]? = some thread →
        ThreadStep (repository.backend StoreOp (Option RunState)) (storeBody repository runId)
          (Rules.free StateStore) watched.world.store thread store' thread' →
        (LatestWins legacy store'.history ↔
          store'.history = watched.world.store.history ∨ Timely watched i thread) := by
  have h : Settled legacy watched := by
    induction hr with
    | unmigrated => exact settled_unmigrated legacy
    | start watched op _ ih => exact ih.start legacy repository runId op
    | access watched i thread thread' store' _ hi ht htimely ih =>
        exact ih.after legacy repository runId i thread thread' store' hi ht htimely
  exact ⟨h.latest, fun i thread thread' store' hi ht =>
    h.latest_iff legacy repository runId i thread thread' store' hi ht⟩

def legacyRun : RunState :=
  initialState { id := "wfr_1" } { steps := [{ id := .str "fetch" }] } 0

-- The answers of the outside; neither loads nor saves ask for one.
def noAnswer : (query : Query) → query.Answer
  | .now => (0 : Int)
  | .operatorOverride _ => (none : Option Override)
  | .executeStep _ _ => (.error "" : Except String Json)
  | .replanReply _ _ _ _ => (.error "" : Except String (List Entry))
  | .markTimedOut _ => (none : Option ListenerStatus)
  | .floatOf _ => (none : Option Rat)
  | .uuids _ => false

-- Two loads, and a save of the completed run at a version.
def racers (version : ℕ) : List StoreOp :=
  [.load, .load,
    .save (some version) { legacyRun with status := .completed } { event := .workflowCompleted } rfl]

-- The next access of a thread.
def Watched.turn (watched : Watched) (i : ℕ) : Watched :=
  match watched.world.threads[i]? with
  | none => watched
  | some thread =>
      let (store, thread') := advance (Repository.inMemory.backend StoreOp (Option RunState))
        (storeBody .inMemory "wfr_1") noAnswer watched.world.store thread
      watched.after i thread thread' store

-- Whether only backfills have been saved once it is at a save.
def Watched.early (watched : Watched) (i : ℕ) : Bool :=
  watched.world.threads[i]?.all fun thread =>
    match thread.prog with
    | .save _ _ _ => !watched.missed.contains i || watched.world.store.history.all (·.note.isBackfill)
    | .done _ => false
    | _ => true

theorem timelyRun_turn (watched : Watched) (i : ℕ) (hr : TimelyRun .inMemory "wfr_1" legacyRun watched)
    (hearly : watched.early i = true) : TimelyRun .inMemory "wfr_1" legacyRun (watched.turn i) := by
  unfold Watched.turn
  cases hi : watched.world.threads[i]? with
  | none => exact hr
  | some thread =>
      rw [Watched.early, hi, Option.all_some] at hearly
      have htimely : Timely watched i thread := by
        intro hmissed copy note next hprog _
        rw [hprog] at hearly
        have hcontains : watched.missed.contains i = true := List.contains_iff_mem.mpr hmissed
        rw [hcontains, Bool.not_true, Bool.false_or] at hearly
        exact .inl (List.all_eq_true.mp hearly)
      rcases advance_step (Repository.inMemory.backend StoreOp (Option RunState)) (storeBody .inMemory "wfr_1")
        (Rules.free StateStore) noAnswer (fun _ => trivial) watched.world.store thread (fun _ => trivial) with
        ⟨⟨result, hdone⟩, _⟩ | hstep
      · rw [hdone] at hearly
        cases hearly
      · exact .access watched i thread _ _ hr hi hstep htimely

def Watched.earlyTurns : Watched → List ℕ → Bool
  | _, [] => true
  | watched, i :: rest => watched.early i && (watched.turn i).earlyTurns rest

theorem timelyRun_turns (turns : List ℕ) (watched : Watched) (hr : TimelyRun .inMemory "wfr_1" legacyRun watched)
    (hearly : watched.earlyTurns turns = true) :
    TimelyRun .inMemory "wfr_1" legacyRun (turns.foldl Watched.turn watched) := by
  induction turns generalizing watched with
  | nil => exact hr
  | cons i rest ih =>
      obtain ⟨hfirst, hrest⟩ := Bool.and_eq_true_iff.mp hearly
      exact ih (watched.turn i) (timelyRun_turn watched i hr hfirst) hrest

def lateSave : Watched :=
  (racers 2).foldl (fun watched op => watched.start op (storeBody .inMemory "wfr_1" op)) ⟨unmigrated legacyRun, []⟩

-- Both loads miss the row and save their backfills, and the completed run is saved after them.
theorem backfill_latestWins_late :
    ([0, 1, 0, 1, 0, 1, 0, 1, 2, 2].foldl Watched.turn lateSave).world.store.history.map (·.state.status) =
        [.completed, .running, .running] ∧
      LatestWins legacyRun ([0, 1, 0, 1, 0, 1, 0, 1, 2, 2].foldl Watched.turn lateSave).world.store.history := by
  have hstart : TimelyRun .inMemory "wfr_1" legacyRun lateSave :=
    .start _ _ (.start _ _ (.start _ _ .unmigrated))
  have hrun := timelyRun_turns [0, 1, 0, 1, 0, 1, 0, 1, 2, 2] lateSave hstart (by decide +kernel)
  exact ⟨by decide +kernel, (backfill_latestWins legacyRun .inMemory "wfr_1" _ hrun).1⟩

def racing : World StateStore :=
  ⟨(unmigrated legacyRun).store,
    (racers 1).map fun op => ⟨op, storeBody .inMemory "wfr_1" op, [], none⟩⟩

def raced : World StateStore :=
  interleave (Repository.inMemory.backend StoreOp (Option RunState)) (storeBody .inMemory "wfr_1")
    (fun _ => true) noAnswer [0, 1, 0, 1, 0, 0, 2, 2, 1, 1] racing

-- The second backfill takes the completed run back to its old state.
theorem backfill_rewinds :
    Relation.ReflTransGen (StoreStep .inMemory "wfr_1") (unmigrated legacyRun) raced ∧
      raced.store.history.map (·.state.status) = [.running, .completed, .running] ∧
      ¬ LatestWins legacyRun raced.store.history := by
  have hstart : Relation.ReflTransGen (StoreStep .inMemory "wfr_1") (unmigrated legacyRun) racing :=
    starts_reaches (Repository.inMemory.backend StoreOp (Option RunState))
      (storeBody .inMemory "wfr_1") (Rules.free StateStore) (racers 1) (unmigrated legacyRun)
  have hrace : Relation.ReflTransGen (StoreStep .inMemory "wfr_1") racing raced :=
    interleave_reaches (Repository.inMemory.backend StoreOp (Option RunState))
      (storeBody .inMemory "wfr_1") (Rules.free StateStore) (fun _ => true) noAnswer
      (fun _ => trivial) (fun _ _ _ => trivial) [0, 1, 0, 1, 0, 0, 2, 2, 1, 1] racing
  have hstatus : raced.store.history.map (·.state.status) = [.running, .completed, .running] := by
    decide +kernel
  refine ⟨hstart.trans hrace, hstatus, ?_⟩
  intro hl
  have hbackfill : raced.store.history.map (·.note.isBackfill) = [true, false, true] := by
    decide +kernel
  obtain ⟨top, saved, first, hh⟩ : ∃ top saved first, raced.store.history = [top, saved, first] :=
    ⟨_, _, _, rfl⟩
  rw [hh] at hl hstatus hbackfill
  simp only [List.map_cons, List.map_nil, List.cons.injEq, and_true] at hstatus hbackfill
  have hsame := (hl top [saved, first] rfl).1 saved (by simp [hbackfill])
  rw [hsame] at hstatus
  rw [hstatus.2.1] at hstatus
  cases hstatus.1

end Latest

end AgenticOrg.Workflows
