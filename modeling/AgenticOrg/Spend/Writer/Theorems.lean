import AgenticOrg.Spend.Writer

namespace AgenticOrg.Spend

open OrderedDict

section Purpose

-- An event that was written, handed to the spill task or counted.
def Settled (state : WriterState) (event : UsageEvent) : Prop :=
  event ∈ state.written ∨ event ∈ state.spilled ∨ ∃ reason, (event, reason) ∈ state.counted

def submissionEvents (submissions : List Submission) : List UsageEvent :=
  submissions.flatMap fun submission => submission.events

-- The events that some party has.
def WriterState.held (state : WriterState) : List UsageEvent :=
  submissionEvents state.submissions ++ state.creator.events ++ state.queue ++ retryEvents state.retries ++
    state.thread.held ++ state.drain.held

def DrainStage.over : DrainStage → Bool
  | .done => true
  | .raised => true
  | _ => false

-- No event has disappeared; and after the drain nothing is left to be read, and when the last submission is
-- over too, what is not settled is in the hands of a thread that outlived the join.
structure Accounted (state : WriterState) : Prop where
  kept : ∀ event ∈ state.submitted, Settled state event ∨ event ∈ state.held
  read : state.drain.over = true → state.queue = [] ∧ state.retries = []
  ended : state.drain.over = true → state.submissions = [] → state.creator = .none → ∀ event ∈ state.submitted,
    Settled state event ∨ state.thread.alive = true ∧ event ∈ state.thread.held

-- The drain does not join a thread object that has not been started.
def JoinHeld (state : WriterState) : WriterStep → Prop
  | .drain _ => state.drain = .joining → state.thread ≠ .assigned
  | _ => True

def JoinsHeld (validTenant : String → Bool) : WriterState → List WriterStep → Prop
  | _, [] => True
  | state, step :: rest =>
      JoinHeld state step ∧ ∀ next, WriterStep.after validTenant state step = some next → JoinsHeld validTenant next rest

end Purpose

section Places

theorem mem_retryEvents (retries : List WriteRetry) (event : UsageEvent) :
    event ∈ retryEvents retries ↔ ∃ retry ∈ retries, event ∈ retry.events := List.mem_flatMap

theorem retryEvents_append (a b : List WriteRetry) : retryEvents (a ++ b) = retryEvents a ++ retryEvents b :=
  List.flatMap_append

theorem retryEvents_cons (retry : WriteRetry) (rest : List WriteRetry) :
    retryEvents (retry :: rest) = retry.events ++ retryEvents rest := List.flatMap_cons

theorem mem_held (state : WriterState) (event : UsageEvent) :
    event ∈ state.held ↔ event ∈ submissionEvents state.submissions ∨ event ∈ state.creator.events ∨
      event ∈ state.queue ∨ event ∈ retryEvents state.retries ∨ event ∈ state.thread.held ∨ event ∈ state.drain.held := by
  simp only [WriterState.held, List.mem_append, or_assoc]

-- A batch taken tenant by tenant is the batch.
theorem mem_flushWork (batch : List UsageEvent) (retries : List WriteRetry) (event : UsageEvent) :
    event ∈ retryEvents (flushWork batch retries) ↔ event ∈ batch ∨ event ∈ retryEvents retries := by
  have hperm := Dict.gather_perm (fun event : UsageEvent => event.tenantId) groupEvents id
    (fun old item => by cases old <;> rfl) batch
  rw [flushWork, retryEvents_append, List.mem_append, retryEvents, List.flatMap_map]
  exact or_congr hperm.mem_iff Iff.rfl

theorem submissionEvents_set (submissions : List Submission) (k : ℕ) (old new : Submission)
    (hk : submissions[k]? = some old) (he : new.events = old.events) :
    submissionEvents (submissions.set k new) = submissionEvents submissions := by
  have hmap : (submissions.set k new).map Submission.events = submissions.map Submission.events := by
    refine List.ext_getElem? fun i => ?_
    rw [List.getElem?_map, List.getElem?_map, List.getElem?_set]
    split
    · rename_i hik
      subst hik
      rw [hk, if_pos (List.getElem?_eq_some_iff.mp hk).1, Option.map_some, Option.map_some, he]
    · rfl
  rw [submissionEvents, List.flatMap_def, hmap, submissionEvents, List.flatMap_def]

theorem mem_submissionEvents_eraseIdx (submissions : List Submission) (k : ℕ) (old : Submission)
    (hk : submissions[k]? = some old) (event : UsageEvent) (he : event ∈ submissionEvents submissions) :
    event ∈ submissionEvents (submissions.eraseIdx k) ∨ event ∈ old.events := by
  obtain ⟨submission, hs, hm⟩ := List.mem_flatMap.mp he
  obtain ⟨i, hi⟩ := List.getElem?_of_mem hs
  by_cases hik : i = k
  · rw [hik, hk] at hi
    cases hi
    exact .inr hm
  · refine .inl (List.mem_flatMap.mpr ⟨submission, ?_, hm⟩)
    exact List.mem_eraseIdx_iff_getElem?.mpr ⟨i, hik, hi⟩

theorem settled_count (state : WriterState) (reason : FailureReason) (events : List UsageEvent)
    (event : UsageEvent) : Settled (state.count reason events) event ↔ Settled state event ∨ event ∈ events := by
  simp only [Settled, WriterState.count, List.mem_append, List.mem_map, Prod.mk.injEq]
  constructor
  · rintro (h | h | ⟨found, h | ⟨other, ho, rfl, rfl⟩⟩)
    · exact .inl (.inl h)
    · exact .inl (.inr (.inl h))
    · exact .inl (.inr (.inr ⟨found, h⟩))
    · exact .inr ho
  · rintro ((h | h | ⟨found, h⟩) | h)
    · exact .inl h
    · exact .inr (.inl h)
    · exact .inr (.inr ⟨found, .inl h⟩)
    · exact .inr (.inr ⟨reason, .inr ⟨event, h, rfl, rfl⟩⟩)

end Places

section Moves

-- No step loses an event that some party has.
structure Keeps (state next : WriterState) : Prop where
  submitted : ∀ event ∈ next.submitted, event ∈ state.submitted ∨ event ∈ next.held
  settled : ∀ event, Settled state event → Settled next event
  held : ∀ event ∈ state.held, event ∈ next.held ∨ Settled next event

theorem keeps_of_held (state next : WriterState) (hsub : next.submitted = state.submitted)
    (hsettled : ∀ event, Settled state event → Settled next event)
    (hheld : ∀ event ∈ state.held, event ∈ next.held ∨ Settled next event) : Keeps state next :=
  ⟨fun _ he => .inl (hsub ▸ he), hsettled, hheld⟩

-- A submission that ends with its events counted.
theorem keeps_refused (state : WriterState) (k : ℕ) (old : Submission) (hk : state.submissions[k]? = some old)
    (reason : FailureReason) :
    Keeps state ({ state with submissions := state.submissions.eraseIdx k }.count reason old.events) := by
  refine keeps_of_held _ _ rfl (fun event he => (settled_count _ _ _ _).mpr (.inl he)) ?_
  intro event he
  rw [mem_held] at he
  rcases he with he | he
  · rcases mem_submissionEvents_eraseIdx state.submissions k old hk event he with he | he
    · exact .inl ((mem_held _ _).mpr (.inl he))
    · exact .inr ((settled_count _ _ _ _).mpr (.inr he))
  · exact .inl ((mem_held _ _).mpr (.inr he))

theorem keeps_submission (state : WriterState) (hstart : state.holder = .unopened → state.creator = .none) (k : ℕ)
    (old : Submission) (hk : state.submissions[k]? = some old) : Keeps state (submissionStep state k old) := by
  have herase := mem_submissionEvents_eraseIdx state.submissions k old hk
  cases old with
  | opening events =>
      rw [submissionStep, openWriter]
      split
      · refine keeps_of_held _ _ rfl (fun event he => he) fun event he => .inl ?_
        rw [mem_held] at he ⊢
        dsimp only
        rw [submissionEvents_set state.submissions k (.opening events) (.putting events) hk rfl]
        exact he
      · rename_i hunopened
        refine keeps_of_held _ _ rfl (fun event he => he) fun event he => .inl ?_
        rw [mem_held] at he ⊢
        rcases he with he | he | he
        · exact (herase event he).imp id .inl
        · rw [hstart hunopened] at he
          cases he
        · exact .inr (.inr he)
      · exact keeps_refused state k _ hk .shutdownLost
  | putting events =>
      rw [submissionStep, put]
      dsimp only
      split
      · exact keeps_refused state k _ hk .shutdownLost
      · split
        · exact keeps_refused state k _ hk .queueFull
        · refine keeps_of_held _ _ rfl (fun event he => he) fun event he => .inl ?_
          rw [mem_held] at he ⊢
          rcases he with he | he | he | he
          · rcases herase event he with he | he
            · exact .inl he
            · exact .inr (.inr (.inl (List.mem_append_right _ he)))
          · exact .inr (.inl he)
          · exact .inr (.inr (.inl (List.mem_append_left _ he)))
          · exact .inr (.inr (.inr he))

theorem keeps_creator (state next : WriterState) (launched : Bool)
    (hstarting : ∀ events, state.creator = .starting events → state.thread = .unassigned)
    (hlaunching : ∀ events, state.creator = .launching events → state.thread = .assigned)
    (hstep : creatorStep state launched state.creator = some next) : Keeps state next := by
  cases hc : state.creator with
  | none =>
      rw [hc] at hstep
      cases hstep
  | starting events =>
      rw [hc] at hstep
      cases hstep
      refine keeps_of_held _ _ rfl (fun event he => he) fun event he => .inl ?_
      rw [mem_held, hc, hstarting events hc] at he
      exact (mem_held _ _).mpr he
  | launching events =>
      rw [hc, creatorStep] at hstep
      split at hstep
      · cases hstep
        refine keeps_of_held _ _ rfl (fun event he => he) fun event he => .inl ?_
        rw [mem_held, hc, hlaunching events hc] at he
        rw [mem_held]
        simp only [submissionEvents, List.flatMap_append, List.flatMap_singleton, List.mem_append] at he ⊢
        rcases he with he | he | he
        · exact .inl (.inl he)
        · exact .inl (.inr he)
        · exact .inr (.inr he)
      · cases hstep
        refine keeps_of_held _ _ rfl (fun event he => (settled_count _ _ _ _).mpr (.inl he)) ?_
        intro event he
        rw [mem_held, hc] at he
        rcases he with he | he | he
        · exact .inl ((mem_held _ _).mpr (.inl he))
        · exact .inr ((settled_count _ _ _ _).mpr (.inr he))
        · exact .inl ((mem_held _ _).mpr (.inr (.inr he)))

-- The thread moves the events it has; every other party keeps its own.
theorem keeps_thread (state next : WriterState) (hsub : next.submitted = state.submitted)
    (hsubs : next.submissions = state.submissions) (hcreator : next.creator = state.creator)
    (hdrain : next.drain = state.drain) (hsettled : ∀ event, Settled state event → Settled next event)
    (hqueue : ∀ event ∈ state.queue, event ∈ next.queue ∨ event ∈ next.thread.held)
    (hretries : ∀ event ∈ retryEvents state.retries,
      event ∈ retryEvents next.retries ∨ event ∈ next.thread.held)
    (hheld : ∀ event ∈ state.thread.held, event ∈ next.thread.held ∨ event ∈ retryEvents next.retries ∨
      event ∈ state.drain.held ∨ Settled next event) : Keeps state next := by
  refine keeps_of_held _ _ hsub hsettled fun event he => ?_
  rw [mem_held] at he
  rw [mem_held, hsubs, hcreator, hdrain]
  rcases he with he | he | he | he | he | he
  · exact .inl (.inl he)
  · exact .inl (.inr (.inl he))
  · rcases hqueue event he with he | he
    · exact .inl (.inr (.inr (.inl he)))
    · exact .inl (.inr (.inr (.inr (.inr (.inl he)))))
  · rcases hretries event he with he | he
    · exact .inl (.inr (.inr (.inr (.inl he))))
    · exact .inl (.inr (.inr (.inr (.inr (.inl he)))))
  · rcases hheld event he with he | he | he | he
    · exact .inl (.inr (.inr (.inr (.inr (.inl he)))))
    · exact .inl (.inr (.inr (.inr (.inl he))))
    · exact .inl (.inr (.inr (.inr (.inr (.inr he)))))
    · exact .inr he
  · exact .inl (.inr (.inr (.inr (.inr (.inr he)))))

end Moves

section ThreadMoves

variable (validTenant : String → Bool)

-- What a flush of one tenant's events comes to.
theorem flushTenant_cases (state : WriterState) (item : WriteRetry) (work : List WriteRetry) (paused : Bool)
    (answer : WriteAnswer) (now : ℚ) :
    ∃ thread written counted,
      flushTenant validTenant state item work paused answer now =
        { state with thread := thread, written := state.written ++ written, counted := state.counted ++ counted } ∧
      (thread = .flushing work ∧ (∀ event ∈ item.events, event ∈ written ∨ ∃ reason, (event, reason) ∈ counted) ∨
        (∃ retry, retry.events = item.events ∧ thread = .requeueing retry work) ∨
        thread = .spilling item.events work) := by
  have hcounted : ∀ reason, ∀ event ∈ item.events,
      ∃ found, (event, found) ∈ item.events.map fun event => (event, (reason : FailureReason)) :=
    fun reason event he => ⟨reason, List.mem_map_of_mem he⟩
  unfold flushTenant
  split
  · exact ⟨.flushing work, [], item.events.map fun event => (event, .paused), by simp [WriterState.count],
      .inl ⟨rfl, fun event he => .inr (hcounted .paused event he)⟩⟩
  · split
    · exact ⟨.flushing work, [], item.events.map fun event => (event, .noTenant), by simp [WriterState.count],
        .inl ⟨rfl, fun event he => .inr (hcounted .noTenant event he)⟩⟩
    · split
      · exact ⟨.flushing work, item.events, [], by simp, .inl ⟨rfl, fun event he => .inl he⟩⟩
      · split
        · exact ⟨.requeueing (transientRetry item now) work, [], [], by simp,
            .inr (.inl ⟨transientRetry item now, rfl, rfl⟩)⟩
        · exact ⟨.spilling item.events work, [], item.events.map fun event => (event, .dbError),
            by simp [WriterState.count], .inr (.inr rfl)⟩
      · dsimp only
        split
        · exact ⟨.spilling item.events work, [], [], by simp, .inr (.inr rfl)⟩
        · exact ⟨.requeueing (busyRetry item now (item.busySince.getD now)) work, [], [], by simp,
            .inr (.inl ⟨busyRetry item now (item.busySince.getD now), rfl, rfl⟩)⟩

theorem settled_of_append (state next : WriterState) (written : List UsageEvent)
    (counted : List (UsageEvent × FailureReason)) (hw : next.written = state.written ++ written)
    (hs : next.spilled = state.spilled) (hc : next.counted = state.counted ++ counted) (event : UsageEvent)
    (h : Settled state event) : Settled next event := by
  rcases h with h | h | ⟨reason, h⟩
  · exact .inl (hw ▸ List.mem_append_left _ h)
  · exact .inr (.inl (hs ▸ h))
  · exact .inr (.inr ⟨reason, hc ▸ List.mem_append_left _ h⟩)

theorem settled_spillEvents (state : WriterState) (events : List UsageEvent) (published : Bool)
    (failed : FailureReason) (event : UsageEvent) :
    Settled (spillEvents state events published failed) event ↔ Settled state event ∨ event ∈ events := by
  unfold spillEvents
  split
  · simp only [Settled, List.mem_append]
    tauto
  · exact settled_count state failed events event

theorem spillEvents_frame (state : WriterState) (events : List UsageEvent) (published : Bool)
    (failed : FailureReason) :
    ∃ spilled counted, spillEvents state events published failed =
      { state with spilled := spilled, counted := counted } := by
  unfold spillEvents
  split
  · exact ⟨_, _, rfl⟩
  · exact ⟨state.spilled, _, rfl⟩

-- What the thread does to the places of the events it does not have.
structure ThreadMove (state next : WriterState) : Prop where
  keeps : Keeps state next
  holder : next.holder = state.holder
  submissions : next.submissions = state.submissions
  creator : next.creator = state.creator
  drain : next.drain = state.drain
  stop : next.stop = state.stop
  closed : next.closed = state.closed
  handedOver : next.handedOver = state.handedOver
  -- it leaves nothing where nothing was, and has nothing new that was nowhere
  emptied : state.closed = true → state.queue = [] → state.retries = [] → next.queue = [] ∧ next.retries = []
  held : ∀ event ∈ next.thread.held,
    event ∈ state.thread.held ∨ event ∈ state.queue ∨ event ∈ retryEvents state.retries

theorem threadMove (state next : WriterState) (input : ThreadInput)
    (hover : state.handedOver = true → ∀ event ∈ state.thread.held, Settled state event ∨ event ∈ state.drain.held)
    (hstep : threadStep validTenant state input state.thread = some next) : ThreadMove state next := by
  cases ht : state.thread with
  | unassigned =>
      rw [ht] at hstep
      cases hstep
  | assigned =>
      rw [ht] at hstep
      cases hstep
  | exited =>
      rw [ht] at hstep
      cases hstep
  | checking =>
      rw [ht] at hstep
      cases hstep
      have hheld : (if state.stop && state.queue.isEmpty then WriterThread.exited else .taking).held = [] := by
        split <;> rfl
      refine ⟨keeps_thread _ _ rfl rfl rfl rfl (fun _ h => h) (fun _ h => .inl h) (fun _ h => .inl h) ?_,
        rfl, rfl, rfl, rfl, rfl, rfl, rfl, fun _ hq hr => ⟨hq, hr⟩, ?_⟩
      · rw [ht]
        intro event he
        cases he
      · intro event he
        rw [hheld] at he
        cases he
  | taking =>
      rw [ht] at hstep
      cases hstep
      refine ⟨keeps_thread _ _ rfl rfl rfl rfl (fun _ h => h) ?_ (fun _ h => .inl h) ?_,
        rfl, rfl, rfl, rfl, rfl, rfl, rfl, ?_, ?_⟩
      · intro event he
        rw [← List.take_append_drop MAX_BATCH state.queue, List.mem_append] at he
        exact he.symm
      · rw [ht]
        intro event he
        cases he
      · intro _ hq hr
        exact ⟨by rw [hq]; rfl, hr⟩
      · intro event he
        exact .inr (.inl (List.mem_of_mem_take he))
  | took batch =>
      rw [ht] at hstep
      cases hstep
      have hsplit : ∀ event ∈ retryEvents state.retries,
          event ∈ retryEvents (state.retries.filter fun retry => input.now < retry.due) ∨
            event ∈ retryEvents (state.retries.filter fun retry => retry.due ≤ input.now) := by
        intro event he
        obtain ⟨retry, hr, hm⟩ := (mem_retryEvents _ _).mp he
        rcases lt_or_ge input.now retry.due with hlt | hge
        · exact .inl ((mem_retryEvents _ _).mpr ⟨retry, List.mem_filter.mpr ⟨hr, decide_eq_true hlt⟩, hm⟩)
        · exact .inr ((mem_retryEvents _ _).mpr ⟨retry, List.mem_filter.mpr ⟨hr, decide_eq_true hge⟩, hm⟩)
      refine ⟨keeps_thread _ _ rfl rfl rfl rfl (fun _ h => h) (fun _ h => .inl h) ?_ ?_,
        rfl, rfl, rfl, rfl, rfl, rfl, rfl, ?_, ?_⟩
      · intro event he
        exact (hsplit event he).imp id fun he => List.mem_append_right _ he
      · rw [ht]
        intro event he
        exact .inl (List.mem_append_left _ he)
      · intro _ hq hr
        exact ⟨hq, by rw [hr]; rfl⟩
      · intro event he
        rcases List.mem_append.mp he with he | he
        · exact .inl (by rw [ht]; exact he)
        · obtain ⟨retry, hr, hm⟩ := (mem_retryEvents _ _).mp he
          exact .inr (.inr ((mem_retryEvents _ _).mpr ⟨retry, List.mem_of_mem_filter hr, hm⟩))
  | picked batch retries =>
      rw [ht, threadStep] at hstep
      split at hstep
      · rename_i hempty
        rw [Bool.and_eq_true, List.isEmpty_iff, List.isEmpty_iff] at hempty
        cases hstep
        refine ⟨keeps_thread _ _ rfl rfl rfl rfl (fun _ h => h) (fun _ h => .inl h) (fun _ h => .inl h) ?_,
          rfl, rfl, rfl, rfl, rfl, rfl, rfl, fun _ hq hr => ⟨hq, hr⟩, fun event he => by cases he⟩
        rw [ht, hempty.1, hempty.2]
        intro event he
        cases he
      · cases hstep
        refine ⟨keeps_thread _ _ rfl rfl rfl rfl (fun _ h => h) (fun _ h => .inl h) (fun _ h => .inl h) ?_,
          rfl, rfl, rfl, rfl, rfl, rfl, rfl, fun _ hq hr => ⟨hq, hr⟩, ?_⟩
        · rw [ht]
          intro event he
          exact .inl ((mem_flushWork batch retries event).mpr (List.mem_append.mp he))
        · rw [ht]
          intro event he
          exact .inl (List.mem_append.mpr ((mem_flushWork batch retries event).mp he))
  | flushing work =>
      cases work with
      | nil =>
          rw [ht] at hstep
          cases hstep
          refine ⟨keeps_thread _ _ rfl rfl rfl rfl (fun _ h => h) (fun _ h => .inl h) (fun _ h => .inl h) ?_,
            rfl, rfl, rfl, rfl, rfl, rfl, rfl, fun _ hq hr => ⟨hq, hr⟩, fun event he => by cases he⟩
          rw [ht]
          intro event he
          cases he
      | cons item work =>
          rw [ht] at hstep
          obtain ⟨thread, written, counted, heq, hthread⟩ :=
            flushTenant_cases validTenant state item work input.paused input.answer input.now
          rw [threadStep, heq] at hstep
          cases hstep
          refine ⟨keeps_thread _ _ rfl rfl rfl rfl ?_ (fun _ h => .inl h) (fun _ h => .inl h) ?_,
            rfl, rfl, rfl, rfl, rfl, rfl, rfl, fun _ hq hr => ⟨hq, hr⟩, ?_⟩
          · exact settled_of_append state _ written counted rfl rfl rfl
          · rw [ht]
            intro event he
            rw [WriterThread.held, retryEvents_cons, List.mem_append] at he
            rcases hthread with ⟨rfl, hsettled⟩ | ⟨retry, hevents, rfl⟩ | rfl
            · rcases he with he | he
              · rcases hsettled event he with hw | ⟨reason, hc⟩
                · exact .inr (.inr (.inr (.inl (List.mem_append_right _ hw))))
                · exact .inr (.inr (.inr (.inr (.inr ⟨reason, List.mem_append_right _ hc⟩))))
              · exact .inl he
            · refine .inl (List.mem_append.mpr ?_)
              rw [hevents]
              exact he
            · exact .inl (List.mem_append.mpr he)
          · rw [ht, WriterThread.held, retryEvents_cons]
            intro event he
            refine .inl (List.mem_append.mpr ?_)
            rcases hthread with ⟨rfl, _⟩ | ⟨retry, hevents, rfl⟩ | rfl
            · exact .inr he
            · rw [← hevents]
              exact List.mem_append.mp he
            · exact List.mem_append.mp he
  | requeueing retry work =>
      rw [ht, threadStep, requeue] at hstep
      dsimp only at hstep
      have hnew : ∀ event ∈ (WriterThread.flushing work).held,
          event ∈ state.thread.held ∨ event ∈ state.queue ∨ event ∈ retryEvents state.retries := by
        intro event he
        rw [ht]
        exact .inl (List.mem_append_right _ he)
      split at hstep
      · rename_i hopen
        cases hstep
        refine ⟨keeps_thread _ _ rfl rfl rfl rfl (fun _ h => h) (fun _ h => .inl h) ?_ ?_,
          rfl, rfl, rfl, rfl, rfl, rfl, rfl, ?_, hnew⟩
        · intro event he
          refine .inl ?_
          rw [retryEvents_append]
          exact List.mem_append_left _ he
        · rw [ht]
          intro event he
          rw [retryEvents_append, retryEvents_cons]
          rcases List.mem_append.mp he with he | he
          · exact .inr (.inl (List.mem_append_right _ (List.mem_append_left _ he)))
          · exact .inl he
        · intro hclosed
          rw [hclosed] at hopen
          cases hopen
      · split at hstep
        · rename_i hhanded
          cases hstep
          refine ⟨keeps_thread _ _ rfl rfl rfl rfl (fun _ h => h) (fun _ h => .inl h) (fun _ h => .inl h) ?_,
            rfl, rfl, rfl, rfl, rfl, rfl, rfl, fun _ hq hr => ⟨hq, hr⟩, hnew⟩
          intro event he
          rcases hover hhanded event he with hs | hd
          · exact .inr (.inr (.inr hs))
          · exact .inr (.inr (.inl hd))
        · cases hstep
          refine ⟨keeps_thread _ _ rfl rfl rfl rfl ?_ (fun _ h => .inl h) (fun _ h => .inl h) ?_,
            rfl, rfl, rfl, rfl, rfl, rfl, rfl, fun _ hq hr => ⟨hq, hr⟩, hnew⟩
          · exact fun event h => (settled_count _ _ _ _).mpr (.inl h)
          · rw [ht]
            intro event he
            rcases List.mem_append.mp he with he | he
            · exact .inr (.inr (.inr ((settled_count _ _ _ _).mpr (.inr he))))
            · exact .inl he
  | spilling events work =>
      rw [ht] at hstep
      cases hstep
      have hsettled := settled_spillEvents { state with thread := .flushing work } events input.published .spillFailed
      obtain ⟨spilled, counted, heq⟩ :=
        spillEvents_frame { state with thread := .flushing work } events input.published .spillFailed
      rw [heq] at hsettled ⊢
      refine ⟨keeps_thread _ _ rfl rfl rfl rfl ?_ (fun _ h => .inl h) (fun _ h => .inl h) ?_,
        rfl, rfl, rfl, rfl, rfl, rfl, rfl, fun _ hq hr => ⟨hq, hr⟩, ?_⟩
      · exact fun event h => (hsettled event).mpr (.inl h)
      · rw [ht]
        intro event he
        rcases List.mem_append.mp he with he | he
        · exact .inr (.inr (.inr ((hsettled event).mpr (.inr he))))
        · exact .inl he
      · intro event he
        rw [ht]
        exact .inl (List.mem_append_right _ he)

def WriterThread.inFlight : WriterThread → Bool
  | .flushing _ => true
  | .requeueing _ _ => true
  | .spilling _ _ => true
  | _ => false

-- What the thread is flushing is marked, and nothing else is.
structure Marked (state : WriterState) : Prop where
  flying : state.thread.inFlight = true → ∀ event ∈ state.thread.held, event ∈ state.inflight
  landed : state.thread.inFlight = false → state.inflight = []

theorem Marked.flushTenant (state : WriterState) (item : WriteRetry) (work : List WriteRetry)
    (ht : state.thread = .flushing (item :: work)) (h : Marked state) (paused : Bool) (answer : WriteAnswer)
    (now : ℚ) : Marked (Spend.flushTenant validTenant state item work paused answer now) := by
  have hflying := h.flying (by rw [ht]; rfl)
  rw [ht, WriterThread.held, retryEvents_cons] at hflying
  obtain ⟨thread, written, counted, heq, hthread⟩ :=
    flushTenant_cases validTenant state item work paused answer now
  rw [heq]
  rcases hthread with ⟨rfl, _⟩ | ⟨retry, hevents, rfl⟩ | rfl
  · exact ⟨fun _ event he => hflying event (List.mem_append_right _ he), fun hf => by cases hf⟩
  · refine ⟨fun _ event he => hflying event ?_, fun hf => by cases hf⟩
    rw [← hevents]
    exact he
  · exact ⟨fun _ event he => hflying event he, fun hf => by cases hf⟩

-- Once the events of one tenant are dealt with, the rest is still marked.
theorem Marked.rest (state next : WriterState) (held : List UsageEvent) (work : List WriteRetry)
    (ht : state.thread.held = held ++ retryEvents work) (hin : state.thread.inFlight = true) (h : Marked state)
    (hnext : next.thread = .flushing work) (hinflight : next.inflight = state.inflight) : Marked next := by
  have hflying := h.flying hin
  rw [ht] at hflying
  refine ⟨fun _ event he => ?_, fun hf => ?_⟩
  · rw [hnext] at he
    rw [hinflight]
    exact hflying event (List.mem_append_right _ he)
  · rw [hnext] at hf
    cases hf

theorem requeue_frame (state : WriterState) (retry : WriteRetry) (work : List WriteRetry) :
    (requeue state retry work).thread = .flushing work ∧ (requeue state retry work).inflight = state.inflight := by
  unfold requeue
  dsimp only
  split
  · exact ⟨rfl, rfl⟩
  · split <;> exact ⟨rfl, rfl⟩

theorem Marked.thread (state next : WriterState) (h : Marked state) (input : ThreadInput)
    (hstep : threadStep validTenant state input state.thread = some next) : Marked next := by
  have hlanded := h.landed
  cases ht : state.thread with
  | unassigned =>
      rw [ht] at hstep
      cases hstep
  | assigned =>
      rw [ht] at hstep
      cases hstep
  | exited =>
      rw [ht] at hstep
      cases hstep
  | checking =>
      rw [ht] at hstep hlanded
      cases hstep
      refine ⟨fun hf => ?_, fun _ => hlanded rfl⟩
      dsimp only at hf
      split at hf <;> cases hf
  | taking =>
      rw [ht] at hstep hlanded
      cases hstep
      exact ⟨fun hf => absurd hf Bool.false_ne_true, fun _ => hlanded rfl⟩
  | took batch =>
      rw [ht] at hstep hlanded
      cases hstep
      exact ⟨fun hf => absurd hf Bool.false_ne_true, fun _ => hlanded rfl⟩
  | picked batch retries =>
      rw [ht] at hstep hlanded
      rw [threadStep] at hstep
      split at hstep
      · cases hstep
        exact ⟨fun hf => absurd hf Bool.false_ne_true, fun _ => hlanded rfl⟩
      · cases hstep
        refine ⟨fun _ event he => ?_, fun hf => absurd hf.symm Bool.false_ne_true⟩
        exact List.mem_append.mpr ((mem_flushWork batch retries event).mp he)
  | flushing work =>
      cases work with
      | nil =>
          rw [ht] at hstep
          cases hstep
          exact ⟨fun hf => absurd hf Bool.false_ne_true, fun _ => rfl⟩
      | cons item work =>
          rw [ht] at hstep
          cases hstep
          exact h.flushTenant validTenant state item work ht input.paused input.answer input.now
  | requeueing retry work =>
      rw [ht] at hstep
      cases hstep
      refine h.rest state _ retry.events work (by rw [ht]; rfl) (by rw [ht]; rfl)
        (requeue_frame state retry work).1 (requeue_frame state retry work).2
  | spilling events work =>
      rw [ht] at hstep
      cases hstep
      refine h.rest state _ events work (by rw [ht]; rfl) (by rw [ht]; rfl) ?_ ?_ <;>
        (unfold spillEvents; split <;> rfl)

end ThreadMoves

section Invariant

-- No one has had the writer.
structure Untouched (state : WriterState) : Prop where
  creator : state.creator = .none
  thread : state.thread = .unassigned
  queue : state.queue = []
  retries : state.retries = []
  opening : ∀ submission ∈ state.submissions, ∃ events, submission = .opening events

-- Before it collects.
def DrainStage.early : DrainStage → Bool
  | .waiting => true
  | .holding => true
  | .joining => true
  | .joined _ => true
  | _ => false

structure Conserved (state : WriterState) : Prop where
  accounted : ∀ event ∈ state.submitted, Settled state event ∨ event ∈ state.held
  unopened : state.holder = .unopened → Untouched state
  waiting : state.drain = .waiting → state.holder ≠ .closed
  starting : ∀ events, state.creator = .starting events → state.thread = .unassigned
  launching : ∀ events, state.creator = .launching events → state.thread = .assigned
  emptied : state.closed = true → state.queue = [] ∧ state.retries = []
  early : state.drain.early = true → state.closed = false
  collected : ∀ left, state.drain = .collected left → state.closed = true
  done : state.drain = .done → state.closed = true ∨ state.holder = .closed ∧ Untouched state
  marked : state.closed = false → Marked state
  handed : state.handedOver = true → state.closed = true ∧
    ∀ event ∈ state.thread.held, Settled state event ∨ event ∈ state.drain.held

theorem Conserved.accounted_next (state next : WriterState) (h : Conserved state) (hk : Keeps state next) :
    ∀ event ∈ next.submitted, Settled next event ∨ event ∈ next.held := by
  intro event he
  rcases hk.submitted event he with hold | hnew
  · rcases h.accounted event hold with hs | hheld
    · exact .inl (hk.settled event hs)
    · exact (hk.held event hheld).symm
  · exact .inr hnew

theorem conserved_initial : Conserved .initial where
  accounted := fun event he => by cases he
  unopened := fun _ => ⟨rfl, rfl, rfl, rfl, fun _ hs => by cases hs⟩
  waiting := fun _ h => by cases h
  starting := fun _ h => by cases h
  launching := fun _ h => by cases h
  emptied := fun h => by cases h
  early := fun _ => rfl
  collected := fun _ h => by cases h
  done := fun h => by cases h
  marked := fun _ => ⟨fun h => absurd h Bool.false_ne_true, fun _ => rfl⟩
  handed := fun h => by cases h

variable (validTenant : String → Bool)

theorem Conserved.thread (state next : WriterState) (h : Conserved state) (input : ThreadInput)
    (hstep : threadStep validTenant state input state.thread = some next) : Conserved next := by
  have hmove := threadMove validTenant state next input (fun hh => (h.handed hh).2) hstep
  have hrunning : state.thread ≠ .unassigned ∧ state.thread ≠ .assigned := by
    constructor <;>
      (intro ht; rw [ht] at hstep; cases hstep)
  refine ⟨h.accounted_next state next hmove.keeps, ?_, ?_, ?_, ?_, ?_, ?_, ?_, ?_, ?_, ?_⟩
  · intro hh
    rw [hmove.holder] at hh
    exact absurd (h.unopened hh).thread hrunning.1
  · rw [hmove.drain, hmove.holder]
    exact h.waiting
  · rw [hmove.creator]
    exact fun events hc => absurd (h.starting events hc) hrunning.1
  · rw [hmove.creator]
    exact fun events hc => absurd (h.launching events hc) hrunning.2
  · rw [hmove.closed]
    exact fun hc => hmove.emptied hc (h.emptied hc).1 (h.emptied hc).2
  · rw [hmove.drain, hmove.closed]
    exact h.early
  · rw [hmove.drain, hmove.closed]
    exact h.collected
  · rw [hmove.drain, hmove.closed]
    intro hd
    rcases h.done hd with hc | ⟨_, hu⟩
    · exact .inl hc
    · exact absurd hu.thread hrunning.1
  · rw [hmove.closed]
    exact fun hc => (h.marked hc).thread validTenant state next input hstep
  · rw [hmove.handedOver, hmove.closed, hmove.drain]
    intro hh
    obtain ⟨hclosed, hheld⟩ := h.handed hh
    obtain ⟨hq, hr⟩ := h.emptied hclosed
    refine ⟨hclosed, fun event he => ?_⟩
    rcases hmove.held event he with he | he | he
    · exact (hheld event he).imp (hmove.keeps.settled event) id
    · rw [hq] at he
      cases he
    · rw [hr] at he
      cases he

end Invariant

section Parties

theorem Conserved.submit (state : WriterState) (h : Conserved state) (events : List UsageEvent) :
    Conserved { state with
      submissions := state.submissions ++ [.opening events], submitted := state.submitted ++ events } := by
  have hevents : submissionEvents (state.submissions ++ [.opening events]) =
      submissionEvents state.submissions ++ events := by
    simp [submissionEvents, Submission.events]
  have hopening : (∀ submission ∈ state.submissions, ∃ events, submission = .opening events) →
      ∀ submission ∈ state.submissions ++ [.opening events], ∃ events, submission = .opening events := by
    intro hall submission hs
    rcases List.mem_append.mp hs with hs | hs
    · exact hall submission hs
    · exact ⟨events, List.mem_singleton.mp hs⟩
  refine ⟨h.accounted_next state _ ⟨?_, fun _ hs => hs, ?_⟩, ?_, h.waiting, h.starting, h.launching, h.emptied, h.early,
    h.collected, ?_, fun hc => ⟨(h.marked hc).flying, (h.marked hc).landed⟩, h.handed⟩
  · intro event he
    rcases List.mem_append.mp he with he | he
    · exact .inl he
    · refine .inr ((mem_held _ _).mpr (.inl ?_))
      rw [hevents]
      exact List.mem_append_right _ he
  · intro event he
    rw [mem_held] at he
    refine .inl ((mem_held _ _).mpr ?_)
    rw [hevents]
    exact he.imp (List.mem_append_left _) id
  · intro hh
    have hu := h.unopened hh
    exact ⟨hu.creator, hu.thread, hu.queue, hu.retries, hopening hu.opening⟩
  · intro hd
    refine (h.done hd).imp id fun hu => ⟨hu.1, ?_⟩
    exact ⟨hu.2.creator, hu.2.thread, hu.2.queue, hu.2.retries, hopening hu.2.opening⟩

-- A submission that is refused leaves all else as it was.
theorem Conserved.refused (state : WriterState) (h : Conserved state) (k : ℕ) (old : Submission)
    (hk : state.submissions[k]? = some old) (reason : FailureReason) :
    Conserved ({ state with submissions := state.submissions.eraseIdx k }.count reason old.events) := by
  have hkeeps := keeps_refused state k old hk reason
  have hopening : (∀ submission ∈ state.submissions, ∃ events, submission = .opening events) →
      ∀ submission ∈ state.submissions.eraseIdx k, ∃ events, submission = .opening events :=
    fun hall submission hs => hall submission (List.mem_of_mem_eraseIdx hs)
  refine ⟨h.accounted_next state _ hkeeps, ?_, h.waiting, h.starting, h.launching, h.emptied, h.early, h.collected, ?_,
    fun hc => ⟨(h.marked hc).flying, (h.marked hc).landed⟩, ?_⟩
  · intro hh
    have hu := h.unopened hh
    exact ⟨hu.creator, hu.thread, hu.queue, hu.retries, hopening hu.opening⟩
  · intro hd
    refine (h.done hd).imp id fun hu => ⟨hu.1, ?_⟩
    exact ⟨hu.2.creator, hu.2.thread, hu.2.queue, hu.2.retries, hopening hu.2.opening⟩
  · intro hh
    refine ⟨(h.handed hh).1, fun event he => ?_⟩
    exact ((h.handed hh).2 event he).imp (hkeeps.settled event) id

theorem Conserved.submission (state : WriterState) (h : Conserved state) (k : ℕ) (old : Submission)
    (hk : state.submissions[k]? = some old) : Conserved (submissionStep state k old) := by
  have hkeeps := keeps_submission state (fun hh => (h.unopened hh).creator) k old hk
  cases old with
  | opening events =>
      rw [submissionStep, openWriter] at hkeeps ⊢
      split at hkeeps
      · rename_i hopened
        refine ⟨h.accounted_next state _ hkeeps, ?_, h.waiting, h.starting, h.launching, h.emptied, h.early, h.collected, ?_,
          fun hc => ⟨(h.marked hc).flying, (h.marked hc).landed⟩, h.handed⟩
        · intro hh
          rw [hopened] at hh
          cases hh
        · intro hd
          refine (h.done hd).imp id fun hu => ?_
          rw [hopened] at hu
          cases hu.1
      · rename_i hunopened
        have hu := h.unopened hunopened
        refine ⟨h.accounted_next state _ hkeeps, ?_, ?_, ?_, ?_, h.emptied, h.early, h.collected, ?_,
          fun hc => ⟨(h.marked hc).flying, (h.marked hc).landed⟩, h.handed⟩
        · intro hh
          cases hh
        · intro _ hh
          cases hh
        · intro _ _
          exact hu.thread
        · intro _ hc
          cases hc
        · intro hd
          refine (h.done hd).imp id fun hclosed => ?_
          rw [hunopened] at hclosed
          cases hclosed.1
      · exact h.refused state k (.opening events) hk .shutdownLost
  | putting events =>
      have hmem := List.mem_of_getElem? hk
      have htouched : ¬Untouched state := by
        intro hu
        obtain ⟨other, ho⟩ := hu.opening _ hmem
        cases ho
      rw [submissionStep, put] at hkeeps ⊢
      dsimp only at hkeeps ⊢
      split at hkeeps
      · rename_i hclosed
        rw [if_pos hclosed]
        exact h.refused state k (.putting events) hk .shutdownLost
      · rename_i hopen
        rw [if_neg hopen]
        split at hkeeps
        · rename_i hfull
          rw [if_pos hfull]
          exact h.refused state k (.putting events) hk .queueFull
        · rename_i hroom
          rw [if_neg hroom]
          refine ⟨h.accounted_next state _ hkeeps, fun hh => absurd (h.unopened hh) htouched, h.waiting, h.starting,
            h.launching, fun hc => absurd hc hopen, h.early, h.collected, ?_,
            fun hc => ⟨(h.marked hc).flying, (h.marked hc).landed⟩, h.handed⟩
          intro hd
          rcases h.done hd with hc | hu
          · exact absurd hc hopen
          · exact absurd hu.2 htouched

theorem Conserved.creatorMoves (state next : WriterState) (h : Conserved state) (launched : Bool)
    (hstep : creatorStep state launched state.creator = some next) : Conserved next := by
  have hkeeps := keeps_creator state next launched h.starting h.launching hstep
  cases hc : state.creator with
  | none =>
      rw [hc] at hstep
      cases hstep
  | starting events =>
      have hthread := h.starting events hc
      have htouched : ¬Untouched state := fun hu => by cases hc.symm.trans hu.creator
      rw [hc] at hstep
      cases hstep
      refine ⟨h.accounted_next state _ hkeeps, fun hh => absurd (h.unopened hh) htouched, h.waiting, ?_, ?_,
        h.emptied, h.early, h.collected, ?_, ?_, ?_⟩
      · intro _ hs
        cases hs
      · intro _ _
        rfl
      · exact fun hd => (h.done hd).imp id fun hu => absurd hu.2 htouched
      · intro hopen
        exact ⟨fun hf => absurd hf Bool.false_ne_true, fun _ => (h.marked hopen).landed (by rw [hthread]; rfl)⟩
      · intro hh
        exact ⟨(h.handed hh).1, fun event he => by cases he⟩
  | launching events =>
      have hthread := h.launching events hc
      have htouched : ¬Untouched state := fun hu => by cases hc.symm.trans hu.creator
      rw [hc, creatorStep] at hstep
      split at hstep
      · cases hstep
        refine ⟨h.accounted_next state _ hkeeps, fun hh => absurd (h.unopened hh) htouched, h.waiting, ?_, ?_,
          h.emptied, h.early, h.collected, ?_, ?_, ?_⟩
        · intro _ hs
          cases hs
        · intro _ hl
          cases hl
        · exact fun hd => (h.done hd).imp id fun hu => absurd hu.2 htouched
        · intro hopen
          exact ⟨fun hf => absurd hf Bool.false_ne_true, fun _ => (h.marked hopen).landed (by rw [hthread]; rfl)⟩
        · intro hh
          exact ⟨(h.handed hh).1, fun event he => by cases he⟩
      · cases hstep
        refine ⟨h.accounted_next state _ hkeeps, fun hh => absurd (h.unopened hh) htouched, h.waiting, ?_, ?_,
          h.emptied, h.early, h.collected, ?_, fun hopen => ⟨(h.marked hopen).flying, (h.marked hopen).landed⟩, ?_⟩
        · intro _ hs
          cases hs
        · intro _ hl
          cases hl
        · exact fun hd => (h.done hd).imp id fun hu => absurd hu.2 htouched
        · intro hh
          refine ⟨(h.handed hh).1, fun event he => ?_⟩
          exact ((h.handed hh).2 event he).imp (hkeeps.settled event) id

end Parties

section Drains

theorem keeps_collect (state : WriterState) (hd : state.drain.held = []) (outlived : Bool) :
    Keeps state (collect state outlived) := by
  refine keeps_of_held _ _ rfl (fun _ hs => hs) fun event he => .inl ?_
  have hleft : ∀ event, event ∈ state.queue ∨ event ∈ retryEvents state.retries →
      event ∈ (collect state outlived).drain.held := fun event he =>
    List.mem_append_left _ (List.mem_append.mpr he)
  rw [mem_held, hd] at he
  rw [mem_held]
  rcases he with he | he | he | he | he | he
  · exact .inl he
  · exact .inr (.inl he)
  · exact .inr (.inr (.inr (.inr (.inr (hleft event (.inl he))))))
  · exact .inr (.inr (.inr (.inr (.inr (hleft event (.inr he))))))
  · exact .inr (.inr (.inr (.inr (.inl he))))
  · cases he

-- What the thread is flushing when it is overtaken is what has been handed over.
theorem Conserved.collect (state : WriterState) (h : Conserved state) (outlived : Bool)
    (hd : state.drain = .joined outlived) : Conserved (collect state outlived) := by
  have hopen : state.closed = false := h.early (by rw [hd]; rfl)
  have hkeeps := keeps_collect state (by rw [hd]; rfl) outlived
  refine ⟨h.accounted_next state _ hkeeps, ?_, ?_, h.starting, h.launching, fun _ => ⟨rfl, rfl⟩, ?_,
    fun _ _ => rfl, ?_, ?_, ?_⟩
  · intro hh
    have hu := h.unopened hh
    exact ⟨hu.creator, hu.thread, rfl, rfl, hu.opening⟩
  · intro hw
    cases hw
  · intro he
    cases he
  · intro hdone
    cases hdone
  · intro hclosed
    cases hclosed
  · intro hover
    refine ⟨rfl, fun event he => .inr ?_⟩
    have hnot : state.handedOver = false := by
      by_contra hyes
      rw [Bool.not_eq_false] at hyes
      rw [(h.handed hyes).1] at hopen
      cases hopen
    have hboth : (outlived && !state.inflight.isEmpty) = true := by
      simpa [Spend.collect, hnot] using hover
    have hflight : state.thread.inFlight = true := by
      by_contra hno
      rw [Bool.not_eq_true] at hno
      rw [(h.marked hopen).landed hno] at hboth
      simp at hboth
    refine List.mem_append_right _ ?_
    rw [if_pos hboth]
    exact (h.marked hopen).flying hflight event he

-- The drain comes nearer to its join, or fails at it.
theorem Conserved.redrained (state : WriterState) (h : Conserved state) (stage : DrainStage) (stop : Bool)
    (hearly : state.drain.early = true) (hold : state.drain.held = []) (hnew : stage.held = [])
    (hwaiting : stage ≠ .waiting) (hdone : stage ≠ .done) (hcollected : ∀ left, stage ≠ .collected left) :
    Conserved { state with stop := stop, drain := stage } := by
  have hkeeps : Keeps state { state with stop := stop, drain := stage } := by
    refine keeps_of_held _ _ rfl (fun _ hs => hs) fun event he => .inl ?_
    rw [mem_held, hold] at he
    rw [mem_held, hnew]
    exact he
  refine ⟨h.accounted_next state _ hkeeps, ?_, fun hw => absurd hw hwaiting, h.starting, h.launching, h.emptied,
    fun _ => h.early hearly, fun left hc => absurd hc (hcollected left), fun hd => absurd hd hdone,
    fun hc => ⟨(h.marked hc).flying, (h.marked hc).landed⟩, ?_⟩
  · intro hh
    have hu := h.unopened hh
    exact ⟨hu.creator, hu.thread, hu.queue, hu.retries, hu.opening⟩
  · intro hh
    have hclosed := (h.handed hh).1
    rw [h.early hearly] at hclosed
    cases hclosed

theorem Conserved.drainMoves (state next : WriterState) (h : Conserved state) (published : Bool)
    (hstep : drainStep state published state.drain = some next) : Conserved next := by
  cases hd : state.drain with
  | waiting =>
      rw [hd] at hstep
      cases hstep
      have hopen := h.early (by rw [hd]; rfl)
      have hheld : (if state.holder = .opened then DrainStage.holding else .done).held = [] := by
        split <;> rfl
      have hkeeps : Keeps state { state with
          holder := .closed, drain := if state.holder = .opened then .holding else .done } := by
        refine keeps_of_held _ _ rfl (fun _ hs => hs) fun event he => .inl ?_
        rw [mem_held, hd] at he
        rw [mem_held, hheld]
        exact he
      refine ⟨h.accounted_next state _ hkeeps, ?_, ?_, h.starting, h.launching, h.emptied, fun _ => hopen, ?_, ?_,
        fun hc => ⟨(h.marked hc).flying, (h.marked hc).landed⟩, ?_⟩
      · intro hh
        cases hh
      · intro hw
        dsimp only at hw
        split at hw <;> cases hw
      · intro left hc
        dsimp only at hc
        split at hc <;> cases hc
      · intro hdone
        dsimp only at hdone
        split at hdone
        · cases hdone
        · rename_i hnot
          cases hh : state.holder with
          | opened => exact absurd hh hnot
          | unopened =>
              have hu := h.unopened hh
              exact .inr ⟨rfl, hu.creator, hu.thread, hu.queue, hu.retries, hu.opening⟩
          | closed => exact absurd hh (h.waiting hd)
      · intro hh
        rw [(h.handed hh).1] at hopen
        cases hopen
  | holding =>
      rw [hd] at hstep
      cases hstep
      exact h.redrained state .joining true (by rw [hd]; rfl) (by rw [hd]; rfl) rfl (by simp) (by simp) (by simp)
  | joining =>
      rw [hd] at hstep
      have hearly : state.drain.early = true := by rw [hd]; rfl
      have hheld : state.drain.held = [] := by rw [hd]; rfl
      rw [drainStep] at hstep
      split at hstep
      · cases hstep
        exact h.redrained state .raised state.stop hearly hheld rfl (by simp) (by simp) (by simp)
      · cases hstep
        exact h.redrained state (.joined state.thread.alive) state.stop hearly hheld rfl (by simp) (by simp) (by simp)
  | joined outlived =>
      rw [hd] at hstep
      cases hstep
      exact h.collect state outlived hd
  | collected left =>
      rw [hd] at hstep
      cases hstep
      have hclosed := h.collected left hd
      have hsettled := settled_spillEvents { state with drain := .done } left published .shutdownLost
      obtain ⟨spilled, counted, heq⟩ := spillEvents_frame { state with drain := .done } left published .shutdownLost
      rw [heq] at hsettled ⊢
      have hkeeps : Keeps state { state with drain := .done, spilled := spilled, counted := counted } := by
        refine keeps_of_held _ _ rfl (fun event hs => (hsettled event).mpr (.inl hs)) fun event he => ?_
        rw [mem_held, hd] at he
        rw [mem_held]
        rcases he with he | he | he | he | he | he
        · exact .inl (.inl he)
        · exact .inl (.inr (.inl he))
        · exact .inl (.inr (.inr (.inl he)))
        · exact .inl (.inr (.inr (.inr (.inl he))))
        · exact .inl (.inr (.inr (.inr (.inr (.inl he)))))
        · exact .inr ((hsettled event).mpr (.inr he))
      refine ⟨h.accounted_next state _ hkeeps, ?_, ?_, h.starting, h.launching, h.emptied, ?_, ?_,
        fun _ => .inl hclosed, ?_, ?_⟩
      · intro hh
        have hu := h.unopened hh
        exact ⟨hu.creator, hu.thread, hu.queue, hu.retries, hu.opening⟩
      · intro hw
        cases hw
      · intro he
        cases he
      · intro _ hc
        cases hc
      · intro hopen
        cases hclosed.symm.trans hopen
      · intro hh
        refine ⟨hclosed, fun event he => .inl ((hsettled event).mpr ?_)⟩
        rcases (h.handed hh).2 event he with hs | hs
        · exact .inl hs
        · rw [hd] at hs
          exact .inr hs
  | done =>
      rw [hd] at hstep
      cases hstep
  | raised =>
      rw [hd] at hstep
      cases hstep

end Drains

section Runs

variable (validTenant : String → Bool)

theorem Conserved.after (state next : WriterState) (h : Conserved state) (step : WriterStep)
    (hstep : WriterStep.after validTenant state step = some next) : Conserved next := by
  cases step with
  | submit events =>
      cases hstep
      exact h.submit state events
  | submission k =>
      obtain ⟨old, hk, rfl⟩ := Option.map_eq_some_iff.mp hstep
      exact h.submission state k old hk
  | creator launched => exact h.creatorMoves state next launched hstep
  | thread input => exact h.thread validTenant state next input hstep
  | drain published => exact h.drainMoves state next published hstep

-- A drain that joins no thread before its start does not fail.
theorem not_raised (state next : WriterState) (hc : Conserved state) (step : WriterStep) (h : state.drain ≠ .raised)
    (hheld : JoinHeld state step) (hstep : WriterStep.after validTenant state step = some next) :
    next.drain ≠ .raised := by
  cases step with
  | submit events =>
      cases hstep
      exact h
  | submission k =>
      obtain ⟨old, hk, rfl⟩ := Option.map_eq_some_iff.mp hstep
      cases old with
      | opening events =>
          rw [submissionStep, openWriter]
          split <;> exact h
      | putting events =>
          rw [submissionStep, put]
          dsimp only
          split
          · exact h
          · split <;> exact h
  | creator launched =>
      rw [WriterStep.after] at hstep
      cases hcreator : state.creator with
      | none =>
          rw [hcreator] at hstep
          cases hstep
      | starting events =>
          rw [hcreator] at hstep
          cases hstep
          exact h
      | launching events =>
          rw [hcreator, creatorStep] at hstep
          split at hstep <;> (cases hstep; exact h)
  | thread input =>
      rw [(threadMove validTenant state next input (fun hh => (hc.handed hh).2) hstep).drain]
      exact h
  | drain published =>
      rw [WriterStep.after] at hstep
      cases hd : state.drain with
      | waiting =>
          rw [hd] at hstep
          cases hstep
          dsimp only
          split <;> simp
      | holding =>
          rw [hd] at hstep
          cases hstep
          simp
      | joining =>
          rw [hd, drainStep] at hstep
          split at hstep
          · rename_i hassigned
            exact absurd hassigned (hheld hd)
          · cases hstep
            simp
      | joined outlived =>
          rw [hd] at hstep
          cases hstep
          simp [collect]
      | collected left =>
          rw [hd] at hstep
          cases hstep
          obtain ⟨spilled, counted, heq⟩ := spillEvents_frame { state with drain := .done } left published .shutdownLost
          rw [heq]
          simp
      | done =>
          rw [hd] at hstep
          cases hstep
      | raised => exact absurd hd h

theorem Conserved.toAccounted (state : WriterState) (h : Conserved state) (hraised : state.drain ≠ .raised) :
    Accounted state := by
  have hover : state.drain.over = true → state.drain = .done := by
    intro ho
    cases hd : state.drain with
    | done => rfl
    | raised => exact absurd hd hraised
    | _ =>
        rw [hd] at ho
        cases ho
  have hread : state.drain.over = true → state.queue = [] ∧ state.retries = [] := by
    intro ho
    rcases h.done (hover ho) with hclosed | ⟨_, hu⟩
    · exact h.emptied hclosed
    · exact ⟨hu.queue, hu.retries⟩
  refine ⟨h.accounted, hread, ?_⟩
  intro ho hsubmissions hcreator event he
  obtain ⟨hq, hr⟩ := hread ho
  refine (h.accounted event he).imp id fun hheld => ?_
  rw [mem_held, hsubmissions, hcreator, hq, hr, hover ho] at hheld
  have hthread : event ∈ state.thread.held := by
    rcases hheld with hm | hm | hm | hm | hm | hm
    · cases hm
    · cases hm
    · cases hm
    · cases hm
    · exact hm
    · cases hm
  refine ⟨?_, hthread⟩
  cases ht : state.thread with
  | unassigned =>
      rw [ht] at hthread
      cases hthread
  | assigned =>
      rw [ht] at hthread
      cases hthread
  | exited =>
      rw [ht] at hthread
      cases hthread
  | _ => rfl

theorem conserved_run (steps front : List WriterStep) (hf : front <+: steps) (state last : WriterState)
    (h : Conserved state) (hraised : state.drain ≠ .raised) (hheld : JoinsHeld validTenant state steps)
    (hlast : front.foldlM (WriterStep.after validTenant) state = some last) :
    Conserved last ∧ last.drain ≠ .raised := by
  induction front generalizing steps state with
  | nil =>
      cases hlast
      exact ⟨h, hraised⟩
  | cons step front ih =>
      obtain ⟨rest, rfl⟩ := hf
      rw [List.foldlM_cons] at hlast
      obtain ⟨next, hnext, hlast⟩ := Option.bind_eq_some_iff.mp hlast
      exact ih (front ++ rest) (List.prefix_append _ _) next (h.after validTenant state next step hnext)
        (not_raised validTenant state next h step hraised hheld.1 hnext) (hheld.2 next hnext) hlast

theorem joinsHeld_cons (state next : WriterState) (step : WriterStep) (rest : List WriterStep)
    (hstep : WriterStep.after validTenant state step = some next) (hheld : JoinHeld state step)
    (hrest : JoinsHeld validTenant next rest) : JoinsHeld validTenant state (step :: rest) := by
  refine ⟨hheld, fun other ho => ?_⟩
  rw [← Option.some.inj (hstep.symm.trans ho)]
  exact hrest

-- In a run whose drain joins no thread before its start, every event is accounted for in every state.
theorem events_accounted (steps front : List WriterStep) (hf : front <+: steps)
    (h : JoinsHeld validTenant .initial steps) (state : WriterState)
    (hs : writerAfter validTenant front = some state) : Accounted state := by
  obtain ⟨hconserved, hraised⟩ := conserved_run validTenant steps front hf .initial state conserved_initial
    (by simp [WriterState.initial]) h hs
  exact hconserved.toAccounted state hraised

end Runs

section Sample

def sampleEvent : UsageEvent := ⟨0, "5b8ed6f4-3c1a-4a54-9a7e-0d5c6f1e2b3a", "llm_tokens"⟩

def idleInput : ThreadInput := ⟨0, false, .written, true⟩

-- The first submit has made the thread object and not started it when the drain comes to its join.
def overtakenStart : List WriterStep :=
  [.submit [sampleEvent], .submission 0, .creator true, .drain true, .drain true, .drain true, .creator true,
    .thread idleInput, .submission 0]

-- The drain has failed, the thread has ended, and the event is in a queue nobody reads.
theorem event_left_in_queue : ∃ state, writerAfter (fun _ => true) overtakenStart = some state ∧
    state.drain.over = true ∧ state.submissions = [] ∧ sampleEvent ∈ state.queue ∧ state.thread.alive = false ∧
      ¬Accounted state := by
  refine ⟨_, rfl, rfl, rfl, by decide, rfl, fun h => ?_⟩
  have hread := (h.read rfl).1
  cases hread

-- The thread outlives the join with the event in flight, which is spilled and then written.
def drainedRun : List WriterStep :=
  [.submit [sampleEvent], .submission 0, .creator true, .creator true, .submission 0, .thread idleInput,
    .thread idleInput, .thread idleInput, .thread idleInput, .drain true, .drain true, .drain true, .drain true,
    .thread idleInput, .drain true]

theorem events_accounted_drained : ∃ state, writerAfter (fun _ => true) drainedRun = some state ∧
    state.drain.over = true ∧ Accounted state := by
  refine ⟨_, rfl, rfl, events_accounted (fun _ => true) drainedRun drainedRun (List.prefix_refl _) ?_ _ rfl⟩
  iterate 15
    refine joinsHeld_cons _ _ _ _ _ rfl ?_ ?_
    · first
      | exact trivial
      | exact fun _ h => nomatch h
  exact trivial

end Sample

end AgenticOrg.Spend
