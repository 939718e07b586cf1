import AgenticOrg.Lib.Fallible
import AgenticOrg.Spend.Jobs

namespace AgenticOrg.Spend

open Tables Fallible

section Covering

variable (norm : String → String)

-- A job of the one parameters goes over every record that one of the others would.
def Covers (kind : JobKind) (params request : JobParams) : Prop :=
  ∀ unit, selects norm kind request unit = true → selects norm kind params unit = true

theorem Covers.refl (kind : JobKind) (params : JobParams) : Covers norm kind params params := fun _ h => h

theorem Covers.trans (kind : JobKind) (a b c : JobParams) (hab : Covers norm kind a b)
    (hbc : Covers norm kind b c) : Covers norm kind a c := fun unit h => hab unit (hbc unit h)

theorem inSpan_iff (params : JobParams) (day : Date) :
    params.inSpan day = true ↔
      ∃ start stop, params.start = some start ∧ params.stop = some stop ∧ start ≤ day ∧ day ≤ stop := by
  unfold JobParams.inSpan
  split
  · rename_i start stop hs he
    simp [hs, he]
  · rename_i hnone
    constructor
    · intro h
      cases h
    · rintro ⟨start, stop, hs, he, _⟩
      exact absurd he (hnone start stop hs)

-- The joined range holds both.
theorem span_covers (a b merged : JobParams) (joined : Date × Date) (h : span a b = .ok (some joined))
    (hs : merged.start = some joined.1) (he : merged.stop = some joined.2) (day : Date)
    (hday : a.inSpan day = true ∨ b.inSpan day = true) : merged.inSpan day = true := by
  unfold span at h
  obtain ⟨aStart, has, h⟩ := (bind_ok _ _ _).mp h
  obtain ⟨bStart, hbs, h⟩ := (bind_ok _ _ _).mp h
  obtain ⟨aStop, hae, h⟩ := (bind_ok _ _ _).mp h
  obtain ⟨bStop, hbe, h⟩ := (bind_ok _ _ _).mp h
  have hneed : ∀ field date found, needDate field date = .ok found → date = some found := by
    intro field date found hok
    unfold needDate at hok
    split at hok
    · rw [Except.ok.inj hok]
    · cases hok
  rw [pure_ok, spanWithin] at h
  split at h
  · cases h
  · rw [← Option.some.inj h] at hs he
    have ha := hneed _ _ _ has
    have hb := hneed _ _ _ hbs
    have ha' := hneed _ _ _ hae
    have hb' := hneed _ _ _ hbe
    rw [inSpan_iff] at hday ⊢
    rw [inSpan_iff] at hday
    refine ⟨_, _, hs, he, ?_⟩
    rcases hday with ⟨start, stop, h1, h2, h3, h4⟩ | ⟨start, stop, h1, h2, h3, h4⟩
    · rw [ha] at h1
      rw [ha'] at h2
      rw [Option.some.inj h1, Option.some.inj h2]
      exact ⟨le_trans (min_le_left _ _) h3, le_trans h4 (le_max_left _ _)⟩
    · rw [hb] at h1
      rw [hb'] at h2
      rw [Option.some.inj h1, Option.some.inj h2]
      exact ⟨le_trans (min_le_right _ _) h3, le_trans h4 (le_max_right _ _)⟩

theorem named_keeps (queued : JobParams) (name : String) (hname : queued.named = some name) :
    ({ JobParams.blank with provider := queued.named } : JobParams).named = queued.named := by
  have hne := (Option.filter_eq_some_iff.mp hname).2
  rw [hname]
  simp only [JobParams.named, Option.filter_some, if_pos hne]

theorem mergeRecompute_covers (queued new : JobParams) :
    Covers norm .recomputeCommitments (mergeRecompute queued new) queued ∧
      Covers norm .recomputeCommitments (mergeRecompute queued new) new := by
  unfold mergeRecompute
  split
  · rename_i hsame
    obtain ⟨name, hname⟩ := Option.isSome_iff_exists.mp hsame.1
    have hkeeps := named_keeps queued name hname
    refine ⟨fun unit h => ?_, fun unit h => ?_⟩
    · rw [selects] at h ⊢
      rw [hkeeps]
      exact h
    · rw [selects] at h ⊢
      rw [hkeeps, hsame.2]
      exact h
  · exact ⟨fun unit _ => rfl, fun unit _ => rfl⟩

theorem mergeSettle_forceDates (queued new : JobParams) (joined : Date × Date) (pair : String × String) :
    pair ∈ (mergeSettle queued new joined).forceDates ↔ pair ∈ queued.forceDates ∨ pair ∈ new.forceDates := by
  rw [mergeSettle, List.mem_mergeSort, List.mem_dedup, List.mem_append]

theorem mergeSettle_covers (queued new : JobParams) (joined : Date × Date)
    (h : span queued new = .ok (some joined)) :
    Covers norm .settleFx (mergeSettle queued new joined) queued ∧
      Covers norm .settleFx (mergeSettle queued new joined) new := by
  have hspan := span_covers queued new (mergeSettle queued new joined) joined h rfl rfl
  refine ⟨fun unit hu => ?_, fun unit hu => ?_⟩
  · simp only [selects, Bool.and_eq_true, Bool.or_eq_true, List.contains_iff_mem] at hu ⊢
    refine ⟨hspan _ (.inl hu.1), ?_⟩
    rw [mergeSettle_forceDates]
    tauto
  · simp only [selects, Bool.and_eq_true, Bool.or_eq_true, List.contains_iff_mem] at hu ⊢
    refine ⟨hspan _ (.inr hu.1), ?_⟩
    rw [mergeSettle_forceDates]
    tauto

-- One that restates everything makes the job do so; else the job has the selectors of both.
theorem mergeRestate_everything (texts : JobTexts) (queued new : JobParams) (joined : Date × Date)
    (hall : (queued.everything || new.everything) = true) :
    (mergeRestate texts queued new joined).everything = true := by
  rw [mergeRestate, JobParams.everything]
  simp only [hall]
  rfl

theorem mergeRestate_selectors (texts : JobTexts) (queued new : JobParams) (joined : Date × Date)
    (hall : ¬(queued.everything || new.everything) = true) (part : JobParams) (hpart : part = queued ∨ part = new) :
    part.everything ≠ true ∧ (∀ card ∈ part.cardIds, card ∈ (mergeRestate texts queued new joined).cardIds) ∧
      (part.includeUnpriced = true → (mergeRestate texts queued new joined).includeUnpriced = true) := by
  refine ⟨?_, ?_, ?_⟩
  · rw [Bool.or_eq_true, not_or] at hall
    rcases hpart with rfl | rfl
    · exact hall.1
    · exact hall.2
  · intro card hcard
    rw [mergeRestate]
    simp only [hall]
    rw [if_neg (by simp), List.mem_mergeSort, List.mem_dedup, List.mem_append]
    rcases hpart with rfl | rfl
    · exact .inl hcard
    · exact .inr hcard
  · intro hi
    rw [mergeRestate]
    simp only [hall]
    rcases hpart with rfl | rfl
    · simp [hi]
    · simp [hi]

theorem mergeRestate_covers (texts : JobTexts) (queued new : JobParams) (joined : Date × Date)
    (hp : queued.provider.getD "" = new.provider.getD "") (h : span queued new = .ok (some joined)) :
    Covers norm .restate (mergeRestate texts queued new joined) queued ∧
      Covers norm .restate (mergeRestate texts queued new joined) new := by
  have hspan := span_covers queued new (mergeRestate texts queued new joined) joined h rfl rfl
  have hselect : ∀ (part : JobParams), part = queued ∨ part = new → ∀ unit : WorkUnit,
      (part.everything || unit.cards.any part.cardIds.contains || part.includeUnpriced && unit.repriceable) =
        true →
      ((mergeRestate texts queued new joined).everything ||
        unit.cards.any (mergeRestate texts queued new joined).cardIds.contains ||
        (mergeRestate texts queued new joined).includeUnpriced && unit.repriceable) = true := by
    intro part hpart unit hu
    by_cases hall : (queued.everything || new.everything) = true
    · rw [mergeRestate_everything texts queued new joined hall]
      rfl
    · obtain ⟨hwhole, hcards, hinclude⟩ := mergeRestate_selectors texts queued new joined hall part hpart
      rw [Bool.eq_false_iff.mpr hwhole] at hu
      simp only [Bool.false_or, Bool.or_eq_true, Bool.and_eq_true, List.any_eq_true, List.contains_iff_mem] at hu ⊢
      rcases hu with ⟨card, hcard, hin⟩ | ⟨hi, hr⟩
      · exact .inl (.inr ⟨card, hcard, hcards card hin⟩)
      · exact .inr ⟨hinclude hi, hr⟩
  refine ⟨fun unit hu => ?_, fun unit hu => ?_⟩
  · rw [selects] at hu ⊢
    rw [Bool.and_eq_true, Bool.and_eq_true] at hu ⊢
    exact ⟨⟨hu.1.1, hspan _ (.inl hu.1.2)⟩, hselect queued (.inl rfl) unit hu.2⟩
  · rw [selects] at hu ⊢
    rw [Bool.and_eq_true, Bool.and_eq_true] at hu ⊢
    rw [← hp] at hu
    exact ⟨⟨hu.1.1, hspan _ (.inr hu.1.2)⟩, hselect new (.inr rfl) unit hu.2⟩

-- Merged parameters cover the queued job's work and the new request's.
theorem mergeParams_covers (texts : JobTexts) (kind : JobKind) (queued new merged : JobParams)
    (h : mergeParams texts kind queued new = .ok (some merged)) :
    Covers norm kind merged queued ∧ Covers norm kind merged new := by
  have hequal : (.ok (if queued = new then some queued else none) : Except Failure (Option JobParams)) =
      .ok (some merged) → Covers norm kind merged queued ∧ Covers norm kind merged new := by
    intro hok
    have hmerged := Except.ok.inj hok
    split at hmerged
    · rename_i hsame
      rw [← Option.some.inj hmerged, ← hsame]
      exact ⟨Covers.refl norm kind queued, Covers.refl norm kind queued⟩
    · cases hmerged
  cases kind with
  | rebuild => exact hequal h
  | backfill => exact hequal h
  | reattribute => exact hequal h
  | recomputeCommitments =>
      rw [← Option.some.inj (Except.ok.inj h)]
      exact mergeRecompute_covers norm queued new
  | settleFx =>
      obtain ⟨joined, hspan, h⟩ := (bind_ok _ _ _).mp h
      rw [pure_ok] at h
      obtain ⟨range, hrange, rfl⟩ := Option.map_eq_some_iff.mp h
      rw [hrange] at hspan
      exact mergeSettle_covers norm queued new range hspan
  | restate =>
      rw [mergeParams] at h
      split at h
      · cases h
      · rename_i hp
        obtain ⟨joined, hspan, h⟩ := (bind_ok _ _ _).mp h
        rw [pure_ok] at h
        obtain ⟨range, hrange, rfl⟩ := Option.map_eq_some_iff.mp h
        rw [hrange] at hspan
        exact mergeRestate_covers norm texts queued new range (not_not.mp hp) hspan

end Covering

section Board

variable (norm : String → String)

-- What holds of the jobs after any steps.
structure JobsSound (board : JobBoard) : Prop where
  covers : ∀ job ∈ board.jobs.rows, ∀ request, (job.id, request) ∈ board.requests →
    Covers norm job.kind job.params request
  known : ∀ entry ∈ board.requests, ∃ job ∈ board.jobs.rows, job.id = entry.1
  single : ∀ a ∈ board.jobs.rows, ∀ b ∈ board.jobs.rows, a.kind = b.kind → a.status = .running →
    b.status = .running → a.id = b.id

-- A job that succeeded had a run to the end that covers every request that went into it.
def Fulfilled (board : JobBoard) : Prop :=
  ∀ job ∈ board.jobs.rows, job.status = .succeeded → ∃ run ∈ board.runs, run.jobId = job.id ∧
    run.Completed ∧ ∀ request, (job.id, request) ∈ board.requests → Covers norm job.kind run.params request

theorem jobsSound_empty : JobsSound norm .empty where
  covers := fun _ h => absurd h List.not_mem_nil
  known := fun _ h => absurd h List.not_mem_nil
  single := fun _ h => absurd h List.not_mem_nil

-- Jobs keep their ids, kinds and parameters, and none becomes running.
structure Quiet (before after : Table Job) : Prop where
  kept : ∀ job ∈ before.rows, ∃ found ∈ after.rows, found.id = job.id
  origin : ∀ job ∈ after.rows, ∃ old ∈ before.rows, old.id = job.id ∧ old.kind = job.kind ∧
    old.params = job.params ∧ (job.status = .running → old.status = .running)

-- What one row is turned into.
structure QuietChange (f : Job → Job) : Prop where
  id : ∀ job, (f job).id = job.id
  kind : ∀ job, (f job).kind = job.kind
  params : ∀ job, (f job).params = job.params
  running : ∀ job, (f job).status = .running → job.status = .running

theorem Quiet.map (jobs : Table Job) (f : Job → Job) (hf : QuietChange f) : Quiet jobs (jobs.map f hf.id) where
  kept := fun job hj => ⟨f job, List.mem_map_of_mem hj, hf.id job⟩
  origin := by
    intro job hj
    obtain ⟨old, ho, rfl⟩ := List.mem_map.mp hj
    exact ⟨old, ho, (hf.id old).symm, (hf.kind old).symm, (hf.params old).symm, hf.running old⟩

theorem modify_kept (jobs : Table Job) (key : String) (f : Job → Job) (hf : ∀ job, (f job).id = job.id)
    (job : Job) (hj : job ∈ jobs.rows) : ∃ found ∈ (jobs.modify key f hf).rows, found.id = job.id := by
  by_cases he : job.id = key
  · exact ⟨f job, List.mem_map.mpr ⟨job, hj, if_pos he⟩, hf job⟩
  · exact ⟨job, Table.mem_modify_of_ne jobs key f hf job hj he, rfl⟩

theorem Quiet.modify (jobs : Table Job) (key : String) (f : Job → Job) (hf : QuietChange f) :
    Quiet jobs (jobs.modify key f hf.id) where
  kept := modify_kept jobs key f hf.id
  origin := by
    intro job hj
    obtain ⟨old, ho, hcase⟩ := Table.mem_modify jobs key f hf.id job hj
    rcases hcase with ⟨_, rfl⟩ | ⟨_, rfl⟩
    · exact ⟨job, ho, rfl, rfl, rfl, fun h => h⟩
    · exact ⟨old, ho, (hf.id old).symm, (hf.kind old).symm, (hf.params old).symm, hf.running old⟩

theorem JobsSound.quiet (board : JobBoard) (h : JobsSound norm board) (jobs : Table Job)
    (hq : Quiet board.jobs jobs) (runs : List JobRun) :
    JobsSound norm { board with jobs := jobs, runs := runs } where
  covers := by
    intro job hj request hr
    obtain ⟨old, ho, hid, hkind, hparams, _⟩ := hq.origin job hj
    rw [← hkind, ← hparams]
    exact h.covers old ho request (hid ▸ hr)
  known := by
    intro entry he
    obtain ⟨job, hj, hid⟩ := h.known entry he
    obtain ⟨found, hf, hsame⟩ := hq.kept job hj
    exact ⟨found, hf, hsame.trans hid⟩
  single := by
    intro a ha b hb hkind hra hrb
    obtain ⟨oldA, hoa, hida, hka, _, hra'⟩ := hq.origin a ha
    obtain ⟨oldB, hob, hidb, hkb, _, hrb'⟩ := hq.origin b hb
    rw [← hida, ← hidb]
    exact h.single oldA hoa oldB hob (hka.trans (hkind.trans hkb.symm)) (hra' hra) (hrb' hrb)

-- No completed run is lost.
def RunsKept (before after : List JobRun) : Prop :=
  ∀ run ∈ before, run.Completed → ∃ kept ∈ after, kept.jobId = run.jobId ∧ kept.params = run.params ∧
    kept.Completed

theorem RunsKept.refl (runs : List JobRun) : RunsKept runs runs := fun run hr hc => ⟨run, hr, rfl, rfl, hc⟩

theorem RunsKept.append (runs more : List JobRun) : RunsKept runs (runs ++ more) :=
  fun run hr hc => ⟨run, List.mem_append_left _ hr, rfl, rfl, hc⟩

theorem RunsKept.set (runs : List JobRun) (index : Nat) (run new : JobRun) (hget : runs[index]? = some run)
    (h : run.Completed → new.jobId = run.jobId ∧ new.params = run.params ∧ new.Completed) :
    RunsKept runs (runs.set index new) := by
  intro old ho hc
  obtain ⟨place, hplace⟩ := List.mem_iff_getElem?.mp ho
  obtain ⟨hlt, _⟩ := List.getElem?_eq_some_iff.mp hplace
  by_cases he : index = place
  · subst he
    have hsame : run = old := Option.some.inj (hget.symm.trans hplace)
    rw [← hsame] at hc ⊢
    refine ⟨new, List.mem_iff_getElem?.mpr ⟨index, ?_⟩, h hc⟩
    exact List.getElem?_set_self hlt
  · refine ⟨old, List.mem_iff_getElem?.mpr ⟨place, ?_⟩, rfl, rfl, hc⟩
    rw [List.getElem?_set_ne he]
    exact hplace

-- Only the rows that were succeeded before count, and they are as they were.
theorem Fulfilled.quiet (board : JobBoard) (h : Fulfilled norm board) (jobs : Table Job)
    (hold : ∀ job ∈ jobs.rows, job.status = .succeeded → ∃ old ∈ board.jobs.rows, old.id = job.id ∧
      old.kind = job.kind ∧ old.status = .succeeded) (runs : List JobRun) (hruns : RunsKept board.runs runs) :
    Fulfilled norm { board with jobs := jobs, runs := runs } := by
  intro job hj hs
  obtain ⟨old, ho, hid, hkind, hsold⟩ := hold job hj hs
  obtain ⟨run, hr, hjob, hc, hcovers⟩ := h old ho hsold
  obtain ⟨kept, hk, hkjob, hkparams, hkc⟩ := hruns run hr hc
  refine ⟨kept, hk, (hkjob.trans hjob).trans hid, hkc, ?_⟩
  intro request hq
  rw [hkparams, ← hkind]
  exact hcovers request (hid ▸ hq)

end Board

section Operations

variable (norm : String → String)

theorem succeeded_modify (jobs : Table Job) (key : String) (f : Job → Job) (hid : ∀ job, (f job).id = job.id)
    (hkind : ∀ job, (f job).kind = job.kind)
    (hs : ∀ job, (f job).status = .succeeded → job.status = .succeeded) :
    ∀ job ∈ (jobs.modify key f hid).rows, job.status = .succeeded → ∃ old ∈ jobs.rows, old.id = job.id ∧
      old.kind = job.kind ∧ old.status = .succeeded := by
  intro job hj hsucceeded
  obtain ⟨old, ho, hcase⟩ := Table.mem_modify jobs key f hid job hj
  rcases hcase with ⟨_, rfl⟩ | ⟨_, rfl⟩
  · exact ⟨job, ho, rfl, rfl, hsucceeded⟩
  · exact ⟨old, ho, (hid old).symm, (hkind old).symm, hs old hsucceeded⟩

theorem rows_insertJob (jobs jobs' : Table Job) (job : Job) (h : insertJob jobs job = .ok jobs') :
    jobs'.rows = jobs.rows ++ [job] ∧ ∀ other ∈ jobs.rows, other.id ≠ job.id := by
  unfold insertJob at h
  split at h
  · cases h
  · rename_i hins
    cases h
    exact Table.rows_insert? jobs jobs' job hins

theorem JobsSound.insertJob (board : JobBoard) (h : JobsSound norm board) (id : String) (kind : JobKind)
    (params : JobParams) (who : String) (now : Int) (jobs : Table Job)
    (hi : insertJob board.jobs (newJob id kind params who now) = .ok jobs) :
    JobsSound norm { board with jobs := jobs, requests := board.requests ++ [(id, params)] } := by
  obtain ⟨hrows, hfresh⟩ := rows_insertJob board.jobs jobs _ hi
  constructor
  · intro job hj request hr
    rw [hrows, List.mem_append, List.mem_singleton] at hj
    rw [List.mem_append, List.mem_singleton] at hr
    rcases hj with hj | rfl
    · rcases hr with hr | hr
      · exact h.covers job hj request hr
      · exact absurd (congrArg Prod.fst hr) (hfresh job hj)
    · rcases hr with hr | hr
      · obtain ⟨old, ho, hid⟩ := h.known _ hr
        exact absurd hid (hfresh old ho)
      · have hsame : request = params := congrArg Prod.snd hr
        rw [hsame]
        exact Covers.refl norm kind params
  · intro entry he
    rw [List.mem_append, List.mem_singleton] at he
    rw [hrows]
    rcases he with he | rfl
    · obtain ⟨job, hj, hid⟩ := h.known entry he
      exact ⟨job, List.mem_append_left _ hj, hid⟩
    · exact ⟨_, List.mem_append_right _ (List.mem_singleton_self _), rfl⟩
  · intro a ha b hb hkind hra hrb
    rw [hrows, List.mem_append, List.mem_singleton] at ha hb
    rcases ha with ha | rfl
    · rcases hb with hb | rfl
      · exact h.single a ha b hb hkind hra hrb
      · cases hrb
    · cases hra

theorem Fulfilled.insertJob (board : JobBoard) (h : Fulfilled norm board) (id : String) (kind : JobKind)
    (params : JobParams) (who : String) (now : Int) (jobs : Table Job)
    (hi : insertJob board.jobs (newJob id kind params who now) = .ok jobs) :
    Fulfilled norm { board with jobs := jobs, requests := board.requests ++ [(id, params)] } := by
  obtain ⟨hrows, hfresh⟩ := rows_insertJob board.jobs jobs _ hi
  intro job hj hs
  rw [hrows, List.mem_append, List.mem_singleton] at hj
  rcases hj with hj | rfl
  · obtain ⟨run, hr, hjob, hc, hcovers⟩ := h job hj hs
    refine ⟨run, hr, hjob, hc, fun request hq => ?_⟩
    rw [List.mem_append, List.mem_singleton] at hq
    rcases hq with hq | hq
    · exact hcovers request hq
    · exact absurd (congrArg Prod.fst hq) (hfresh job hj)
  · cases hs

theorem findMerge_spec (texts : JobTexts) (kind : JobKind) (params : JobParams) (jobs : List Job)
    (found : Job × JobParams) (h : findMerge texts kind params jobs = .ok (some found)) :
    found.1 ∈ jobs ∧ mergeParams texts kind found.1.params params = .ok (some found.2) := by
  induction jobs with
  | nil => cases h
  | cons job rest ih =>
      have hrest : findMerge texts kind params rest = .ok (some found) →
          found.1 ∈ job :: rest ∧ mergeParams texts kind found.1.params params = .ok (some found.2) :=
        fun hr => ⟨List.mem_cons_of_mem _ (ih hr).1, (ih hr).2⟩
      rw [findMerge] at h
      split at h
      · exact hrest h
      · obtain ⟨merged, hm, h⟩ := (bind_ok _ _ _).mp h
        split at h
        · exact hrest h
        · rw [pure_ok] at h
          rw [← Option.some.inj h]
          exact ⟨List.mem_cons_self, hm⟩

theorem JobsSound.mergeJob (board : JobBoard) (h : JobsSound norm board) (job : Job) (hj : job ∈ board.jobs.rows)
    (params merged : JobParams) (hold : Covers norm job.kind merged job.params)
    (hnew : Covers norm job.kind merged params) :
    JobsSound norm
      { board with
        jobs := board.jobs.modify job.id (mergeJob merged) fun _ => rfl
        requests := board.requests ++ [(job.id, params)] } := by
  constructor
  · intro found hf request hr
    rw [List.mem_append, List.mem_singleton] at hr
    obtain ⟨old, ho, hcase⟩ := Table.mem_modify board.jobs job.id (Spend.mergeJob merged) (fun _ => rfl) found hf
    rcases hcase with ⟨hne, rfl⟩ | ⟨he, rfl⟩
    · rcases hr with hr | hr
      · exact h.covers found ho request hr
      · exact absurd (congrArg Prod.fst hr) hne
    · rw [Table.eq_of_key board.jobs old job ho hj he] at hr ⊢
      rcases hr with hr | hr
      · exact (hold.trans norm job.kind merged job.params request (h.covers job hj request hr))
      · have hsame : request = params := congrArg Prod.snd hr
        rw [hsame]
        exact hnew
  · intro entry he
    rw [List.mem_append, List.mem_singleton] at he
    have hkept := modify_kept board.jobs job.id (Spend.mergeJob merged) fun _ => rfl
    rcases he with he | rfl
    · obtain ⟨old, ho, hid⟩ := h.known entry he
      obtain ⟨found, hf, hsame⟩ := hkept old ho
      exact ⟨found, hf, hsame.trans hid⟩
    · exact hkept job hj
  · intro a ha b hb hkind hra hrb
    obtain ⟨oldA, hoa, hca⟩ := Table.mem_modify board.jobs job.id (Spend.mergeJob merged) (fun _ => rfl) a ha
    obtain ⟨oldB, hob, hcb⟩ := Table.mem_modify board.jobs job.id (Spend.mergeJob merged) (fun _ => rfl) b hb
    rcases hca with ⟨_, rfl⟩ | ⟨_, rfl⟩
    · rcases hcb with ⟨_, rfl⟩ | ⟨_, rfl⟩
      · exact h.single a hoa b hob hkind hra hrb
      · exact h.single a hoa oldB hob hkind hra hrb
    · rcases hcb with ⟨_, rfl⟩ | ⟨_, rfl⟩
      · exact h.single oldA hoa b hob hkind hra hrb
      · exact h.single oldA hoa oldB hob hkind hra hrb

theorem Fulfilled.mergeJob (board : JobBoard) (h : Fulfilled norm board) (job : Job)
    (hj : job ∈ board.jobs.rows) (hq : job.status = .queued) (params merged : JobParams) :
    Fulfilled norm
      { board with
        jobs := board.jobs.modify job.id (mergeJob merged) fun _ => rfl
        requests := board.requests ++ [(job.id, params)] } := by
  intro found hf hs
  obtain ⟨old, ho, hcase⟩ := Table.mem_modify board.jobs job.id (Spend.mergeJob merged) (fun _ => rfl) found hf
  rcases hcase with ⟨hne, rfl⟩ | ⟨he, rfl⟩
  · obtain ⟨run, hr, hjob, hc, hcovers⟩ := h found ho hs
    refine ⟨run, hr, hjob, hc, fun request hreq => ?_⟩
    rw [List.mem_append, List.mem_singleton] at hreq
    rcases hreq with hreq | hreq
    · exact hcovers request hreq
    · exact absurd (congrArg Prod.fst hreq) hne
  · have hstatus : old.status = .succeeded := hs
    rw [Table.eq_of_key board.jobs old job ho hj he, hq] at hstatus
    cases hstatus

theorem mem_queuedJobs (jobs : Table Job) (kind : JobKind) (job : Job) (h : job ∈ queuedJobs jobs kind) :
    job ∈ jobs.rows ∧ job.kind = kind ∧ job.status = .queued := by
  obtain ⟨hj, htest⟩ := List.mem_filter.mp (List.mem_mergeSort.mp h)
  simp only [Bool.and_eq_true, decide_eq_true_eq] at htest
  exact ⟨hj, htest.1, htest.2⟩

theorem mem_otherRunning (jobs : Table Job) (job other : Job) :
    other ∈ otherRunning jobs job ↔
      other ∈ jobs.rows ∧ other.kind = job.kind ∧ other.status = .running ∧ other.id ≠ job.id := by
  simp [otherRunning, List.mem_filter, and_assoc]

-- A claim leaves one running job of the kind: no other one was running.
theorem JobsSound.startJob (board : JobBoard) (h : JobsSound norm board) (job : Job)
    (hj : job ∈ board.jobs.rows) (hfree : otherRunning board.jobs job = []) (now : Int) (runs : List JobRun) :
    JobsSound norm
      { board with jobs := board.jobs.modify job.id (startJob now) fun _ => rfl, runs := runs } := by
  have hcases : ∀ found ∈ (board.jobs.modify job.id (Spend.startJob now) fun _ => rfl).rows,
      (found ∈ board.jobs.rows ∧ found.id ≠ job.id) ∨ found = Spend.startJob now job := by
    intro found hf
    obtain ⟨old, ho, hcase⟩ := Table.mem_modify board.jobs job.id (Spend.startJob now) (fun _ => rfl) found hf
    rcases hcase with ⟨hne, rfl⟩ | ⟨he, rfl⟩
    · exact .inl ⟨ho, hne⟩
    · rw [Table.eq_of_key board.jobs old job ho hj he]
      exact .inr rfl
  have hnone : ∀ found ∈ board.jobs.rows, found.kind = job.kind → found.status = .running →
      found.id = job.id := by
    intro found hf hkind hr
    by_contra hne
    have hmem := (mem_otherRunning board.jobs job found).mpr ⟨hf, hkind, hr, hne⟩
    rw [hfree] at hmem
    cases hmem
  constructor
  · intro found hf request hr
    rcases hcases found hf with ⟨hfound, _⟩ | rfl
    · exact h.covers found hfound request hr
    · exact h.covers job hj request hr
  · intro entry he
    obtain ⟨old, ho, hid⟩ := h.known entry he
    obtain ⟨found, hf, hsame⟩ := modify_kept board.jobs job.id (Spend.startJob now) (fun _ => rfl) old ho
    exact ⟨found, hf, hsame.trans hid⟩
  · intro a ha b hb hkind hra hrb
    rcases hcases a ha with ⟨hfa, hna⟩ | rfl
    · rcases hcases b hb with ⟨hfb, _⟩ | rfl
      · exact h.single a hfa b hfb hkind hra hrb
      · exact absurd (hnone a hfa hkind hra) hna
    · rcases hcases b hb with ⟨hfb, hnb⟩ | rfl
      · exact absurd (hnone b hfb hkind.symm hrb) hnb
      · rfl

end Operations

section Steps

variable (norm : String → String) (texts : JobTexts)

theorem quiet_failDispatch : QuietChange failDispatch where
  id := fun _ => rfl
  kind := fun _ => rfl
  params := fun _ => rfl
  running := fun _ h => by cases h

theorem quiet_beatJob (now : Int) : QuietChange (beatJob now) where
  id := beatJob_id now
  kind := by
    intro job
    unfold beatJob
    split <;> rfl
  params := by
    intro job
    unfold beatJob
    split <;> rfl
  running := by
    intro job h
    unfold beatJob at h
    split at h <;> exact h

theorem quiet_requeueJob (attempts : Nat) (errorCode : String) : QuietChange (requeueJob attempts errorCode) where
  id := requeueJob_id attempts errorCode
  kind := by
    intro job
    unfold requeueJob
    split <;> rfl
  params := by
    intro job
    unfold requeueJob
    split <;> rfl
  running := by
    intro job h
    unfold requeueJob at h
    split at h
    · assumption
    · exact h

theorem quiet_writeOutcome (run : JobRun) (fault : Option JobFault) : QuietChange (writeOutcome run fault) where
  id := writeOutcome_id run fault
  kind := by
    intro job
    unfold writeOutcome
    split
    · rfl
    · split
      · exact (quiet_requeueJob _ _).kind job
      · rfl
  params := by
    intro job
    unfold writeOutcome
    split
    · rfl
    · split
      · exact (quiet_requeueJob _ _).params job
      · rfl
  running := by
    intro job h
    unfold writeOutcome at h
    split at h
    · cases h
    · split at h
      · exact (quiet_requeueJob _ _).running job h
      · cases h

theorem quiet_sweepJob (cutoff : Int) : QuietChange (sweepJob cutoff) where
  id := sweepJob_id cutoff
  kind := by
    intro job
    unfold sweepJob
    split <;> rfl
  params := by
    intro job
    unfold sweepJob
    split <;> rfl
  running := by
    intro job h
    unfold sweepJob at h
    split at h
    · cases h
    · exact h

theorem JobsSound.after (board board' : JobBoard) (h : JobsSound norm board) (step : JobStep)
    (hok : step.after texts board = .ok board') : JobsSound norm board' := by
  cases step with
  | enqueue newId kind params actor now =>
      rw [JobStep.after, enqueue] at hok
      split at hok
      · cases hok
      · obtain ⟨jobs, hi, hok⟩ := (bind_ok _ _ _).mp hok
        rw [pure_ok] at hok
        rw [← hok]
        exact h.insertJob norm board newId kind params _ now jobs hi
  | markUndispatched jobId params =>
      rw [← Except.ok.inj hok, markUndispatched]
      split
      · exact h
      · split
        · exact h.quiet norm board _ (Quiet.modify board.jobs jobId failDispatch quiet_failDispatch) board.runs
        · exact h
  | queueFollowup newId kind params actor now skipped =>
      obtain ⟨found, hfound, hok⟩ := (bind_ok _ _ _).mp hok
      split at hok
      · rename_i found
        rw [pure_ok] at hok
        rw [← hok]
        obtain ⟨hmem, hmerge⟩ := findMerge_spec texts kind params _ found hfound
        obtain ⟨hj, hkind, _⟩ := mem_queuedJobs board.jobs kind found.1 (List.mem_of_mem_filter hmem)
        obtain ⟨hold, hnew⟩ := mergeParams_covers norm texts kind found.1.params params found.2 hmerge
        exact h.mergeJob norm board found.1 hj params found.2 (hkind ▸ hold) (hkind ▸ hnew)
      · obtain ⟨jobs, hi, hok⟩ := (bind_ok _ _ _).mp hok
        rw [pure_ok] at hok
        rw [← hok]
        exact h.insertJob norm board newId kind params _ now jobs hi
  | claim jobId now unseen =>
      rw [← Except.ok.inj hok, claim]
      split
      · exact h
      · rename_i job hf
        obtain ⟨hj, rfl⟩ := Table.mem_of_find? board.jobs jobId job hf
        split
        · split
          · rename_i hfree
            exact h.startJob norm board job hj (List.isEmpty_iff.mp hfree) now _
          · exact h
        · exact h
  | heartbeat index now =>
      rw [← Except.ok.inj hok, heartbeat]
      split
      · exact h
      · rename_i run _
        exact h.quiet norm board _ (Quiet.modify board.jobs run.jobId (beatJob now) (quiet_beatJob now)) board.runs
  | endRun index fault =>
      rw [← Except.ok.inj hok, endRun]
      split
      · exact h
      · split
        · exact ⟨h.covers, h.known, h.single⟩
        · exact h
  | writeRun index =>
      rw [← Except.ok.inj hok, writeRun]
      split
      · exact h
      · rename_i run _
        split
        · rename_i fault _
          exact h.quiet norm board _
            (Quiet.modify board.jobs run.jobId (writeOutcome run fault) (quiet_writeOutcome run fault)) _
        · exact h
  | sweep now =>
      rw [← Except.ok.inj hok, sweep]
      exact h.quiet norm board _ (Quiet.map board.jobs _ (quiet_sweepJob _)) board.runs

theorem JobsSound.step (board : JobBoard) (h : JobsSound norm board) (step : JobStep) :
    JobsSound norm (jobStep texts board step) := by
  unfold jobStep
  split
  · rename_i board' hok
    exact h.after norm texts board board' step hok
  · exact h

theorem jobsSound_jobsAfter (steps : List JobStep) : JobsSound norm (jobsAfter texts steps) := by
  have hfold : ∀ board, JobsSound norm board → JobsSound norm (steps.foldl (jobStep texts) board) := by
    induction steps with
    | nil => exact fun _ h => h
    | cons step rest ih => exact fun board h => ih _ (h.step norm texts board step)
  exact hfold .empty (jobsSound_empty norm)

-- Success is written only by a run whose claim read the parameters that the row still has.
def Held (board : JobBoard) : JobStep → Prop
  | .writeRun index => ∀ run, board.runs[index]? = some run → run.stage = .ended none →
      ∀ job ∈ board.jobs.rows, job.id = run.jobId → job.params = run.params
  | _ => True

def HeldAll (texts : JobTexts) : JobBoard → List JobStep → Prop
  | _, [] => True
  | board, step :: rest => Held board step ∧ HeldAll texts (jobStep texts board step) rest

theorem Fulfilled.writeRun (board : JobBoard) (hs : JobsSound norm board) (h : Fulfilled norm board)
    (index : Nat) (hheld : Held board (.writeRun index)) : Fulfilled norm (writeRun board index) := by
  rw [Spend.writeRun]
  split
  · exact h
  · rename_i run hget
    split
    · rename_i fault hstage
      have hruns : RunsKept board.runs (board.runs.set index { run with stage := .written fault }) := by
        refine RunsKept.set board.runs index run _ hget fun hc => ⟨rfl, rfl, ?_⟩
        rcases hc with hc | hc
        · rw [hstage] at hc
          rw [RunStage.ended.inj hc]
          exact .inr rfl
        · rw [hstage] at hc
          cases hc
      cases fault with
      | some fault =>
          refine h.quiet norm board _ (succeeded_modify board.jobs run.jobId _ _
            (quiet_writeOutcome run (some fault)).kind ?_) _ hruns
          intro job hsucceeded
          rw [writeOutcome] at hsucceeded
          split at hsucceeded
          · unfold requeueJob at hsucceeded
            split at hsucceeded
            · cases hsucceeded
            · exact hsucceeded
          · cases hsucceeded
      | none =>
          intro job hj hsucceeded
          obtain ⟨old, ho, hcase⟩ := Table.mem_modify board.jobs run.jobId (writeOutcome run none)
            (writeOutcome_id run none) job hj
          rcases hcase with ⟨_, rfl⟩ | ⟨he, rfl⟩
          · obtain ⟨found, hf, hjob, hc, hcovers⟩ := h job ho hsucceeded
            obtain ⟨kept, hk, hkjob, hkparams, hkc⟩ := hruns found hf hc
            exact ⟨kept, hk, hkjob.trans hjob, hkc, fun request hq => hkparams ▸ hcovers request hq⟩
          · have hparams := hheld run hget hstage old ho he
            refine ⟨{ run with stage := .written none }, ?_, he.symm, .inr rfl, ?_⟩
            · obtain ⟨hlt, _⟩ := List.getElem?_eq_some_iff.mp hget
              exact List.mem_iff_getElem?.mpr ⟨index, List.getElem?_set_self hlt⟩
            · intro request hq
              have hcovers := hs.covers old ho request hq
              rw [hparams] at hcovers
              exact hcovers
    · exact h

theorem Fulfilled.after (board board' : JobBoard) (hs : JobsSound norm board) (h : Fulfilled norm board)
    (step : JobStep) (hheld : Held board step) (hok : step.after texts board = .ok board') :
    Fulfilled norm board' := by
  cases step with
  | enqueue newId kind params actor now =>
      rw [JobStep.after, enqueue] at hok
      split at hok
      · cases hok
      · obtain ⟨jobs, hi, hok⟩ := (bind_ok _ _ _).mp hok
        rw [pure_ok] at hok
        rw [← hok]
        exact h.insertJob norm board newId kind params _ now jobs hi
  | markUndispatched jobId params =>
      rw [← Except.ok.inj hok, markUndispatched]
      split
      · exact h
      · split
        · refine h.quiet norm board _ (succeeded_modify board.jobs jobId failDispatch (fun _ => rfl)
            (fun _ => rfl) ?_) board.runs (RunsKept.refl _)
          intro job hsucceeded
          cases hsucceeded
        · exact h
  | queueFollowup newId kind params actor now skipped =>
      obtain ⟨found, hfound, hok⟩ := (bind_ok _ _ _).mp hok
      split at hok
      · rename_i found
        rw [pure_ok] at hok
        rw [← hok]
        obtain ⟨hmem, _⟩ := findMerge_spec texts kind params _ found hfound
        obtain ⟨hj, _, hq⟩ := mem_queuedJobs board.jobs kind found.1 (List.mem_of_mem_filter hmem)
        exact h.mergeJob norm board found.1 hj hq params found.2
      · obtain ⟨jobs, hi, hok⟩ := (bind_ok _ _ _).mp hok
        rw [pure_ok] at hok
        rw [← hok]
        exact h.insertJob norm board newId kind params _ now jobs hi
  | claim jobId now unseen =>
      rw [← Except.ok.inj hok, claim]
      split
      · exact h
      · split
        · split
          · refine h.quiet norm board _ (succeeded_modify board.jobs jobId (startJob now) (fun _ => rfl)
              (fun _ => rfl) ?_) _ (RunsKept.append _ _)
            intro job hsucceeded
            cases hsucceeded
          · exact h
        · exact h
  | heartbeat index now =>
      rw [← Except.ok.inj hok, heartbeat]
      split
      · exact h
      · rename_i run _
        refine h.quiet norm board _ (succeeded_modify board.jobs run.jobId (beatJob now) (beatJob_id now)
          (quiet_beatJob now).kind ?_) board.runs (RunsKept.refl _)
        intro job hsucceeded
        unfold beatJob at hsucceeded
        split at hsucceeded <;> exact hsucceeded
  | endRun index fault =>
      rw [← Except.ok.inj hok, endRun]
      split
      · exact h
      · rename_i run hget
        split
        · rename_i hstage
          refine h.quiet norm board board.jobs (fun job hj hsucceeded => ⟨job, hj, rfl, rfl, hsucceeded⟩) _
            (RunsKept.set board.runs index run _ hget ?_)
          intro hc
          rcases hc with hc | hc
          · rw [hstage] at hc
            cases hc
          · rw [hstage] at hc
            cases hc
        · exact h
  | writeRun index =>
      rw [← Except.ok.inj hok]
      exact h.writeRun norm board hs index hheld
  | sweep now =>
      rw [← Except.ok.inj hok, sweep]
      refine h.quiet norm board _ ?_ board.runs (RunsKept.refl _)
      intro job hj hsucceeded
      obtain ⟨old, ho, rfl⟩ := List.mem_map.mp hj
      refine ⟨old, ho, (sweepJob_id _ old).symm, ((quiet_sweepJob _).kind old).symm, ?_⟩
      unfold sweepJob at hsucceeded
      split at hsucceeded
      · cases hsucceeded
      · exact hsucceeded

theorem Fulfilled.step (board : JobBoard) (hs : JobsSound norm board) (h : Fulfilled norm board)
    (step : JobStep) (hheld : Held board step) : Fulfilled norm (jobStep texts board step) := by
  unfold jobStep
  split
  · rename_i board' hok
    exact h.after norm texts board board' hs step hheld hok
  · exact h

theorem Fulfilled.run (steps front : List JobStep) (hf : front <+: steps) (board : JobBoard)
    (hs : JobsSound norm board) (h : Fulfilled norm board) (hheld : HeldAll texts board steps) :
    Fulfilled norm (front.foldl (jobStep texts) board) := by
  induction front generalizing steps board with
  | nil => exact h
  | cons step front ih =>
      obtain ⟨rest, rfl⟩ := hf
      exact ih (front ++ rest) (List.prefix_append _ _) _ (hs.step norm texts board step)
        (h.step norm texts board hs step hheld.1) hheld.2

-- In every state of a run at most one job of a kind is running; and where each success is written by a
-- run that holds the row's parameters, a job that succeeded was run to the end for every request in it.
theorem jobs_fulfilled (steps front : List JobStep) (hf : front <+: steps) :
    (∀ kind, ((jobsAfter texts front).jobs.rows.filter fun job =>
      job.kind = kind && job.status = .running).length ≤ 1) ∧
    (HeldAll texts .empty steps → ∀ job ∈ (jobsAfter texts front).jobs.rows, job.status = .succeeded →
      ∃ run ∈ (jobsAfter texts front).runs, run.jobId = job.id ∧ run.Completed ∧
        ∀ request, (job.id, request) ∈ (jobsAfter texts front).requests →
          Covers norm job.kind run.params request) := by
  have hsound := jobsSound_jobsAfter norm texts front
  refine ⟨fun kind => ?_, ?_⟩
  · refine Table.length_filter_le_one _ _ ?_
    intro a ha b hb hta htb
    simp only [Bool.and_eq_true, decide_eq_true_eq] at hta htb
    exact hsound.single a ha b hb (hta.1.trans htb.1.symm) hta.2 htb.2
  · intro hheld
    exact Fulfilled.run norm texts steps front hf .empty (jobsSound_empty norm)
      (fun _ hj => absurd hj List.not_mem_nil) hheld

end Steps

section Sample

-- The texts that occur have no blanks around them.
def sampleTexts : JobTexts := ⟨id, id⟩

def openaiRequest : JobParams := { JobParams.blank with provider := some "openai" }

def anthropicRequest : JobParams := { JobParams.blank with provider := some "anthropic" }

-- A worker loses its heartbeats, the sweep queues its job again, a change is merged into it, and then the
-- worker writes its success.
def lateSteps : List JobStep :=
  [.queueFollowup "j1" .recomputeCommitments openaiRequest "admin" 0 [], .claim "j1" 0 [],
    .sweep 700000000, .queueFollowup "j2" .recomputeCommitments anthropicRequest "admin" 700000001 [],
    .endRun 0 none, .writeRun 0]

theorem late_success_drops :
    ¬ ∀ job ∈ (jobsAfter sampleTexts lateSteps).jobs.rows, job.status = .succeeded →
      ∃ run ∈ (jobsAfter sampleTexts lateSteps).runs, run.jobId = job.id ∧ run.Completed ∧
        ∀ request, (job.id, request) ∈ (jobsAfter sampleTexts lateSteps).requests →
          Covers id job.kind run.params request := by
  have hjobs : ∃ job ∈ (jobsAfter sampleTexts lateSteps).jobs.rows, job.id = "j1" ∧
      job.kind = .recomputeCommitments ∧ job.status = .succeeded := by decide +kernel
  have hruns : ∀ run ∈ (jobsAfter sampleTexts lateSteps).runs, run.params = openaiRequest := by decide +kernel
  have hrequest : ("j1", anthropicRequest) ∈ (jobsAfter sampleTexts lateSteps).requests := by decide +kernel
  intro h
  obtain ⟨job, hj, hid, hkind, hs⟩ := hjobs
  obtain ⟨run, hr, _, _, hcovers⟩ := h job hj hs
  have hunit := hcovers anthropicRequest (hid ▸ hrequest) ⟨"anthropic", 0, 0, [], false, false, "", ""⟩
  rw [hkind, hruns run hr] at hunit
  exact absurd (hunit (by decide)) (by decide)

-- The same change, claimed anew by a worker that then ends.
def mergedSteps : List JobStep :=
  [.queueFollowup "j1" .recomputeCommitments openaiRequest "admin" 0 [], .claim "j1" 0 [],
    .sweep 700000000, .queueFollowup "j2" .recomputeCommitments anthropicRequest "admin" 700000001 [],
    .claim "j1" 700000002 [], .endRun 1 none, .writeRun 1]

theorem jobs_fulfilled_merged :
    HeldAll sampleTexts .empty mergedSteps ∧
    (∃ job ∈ (jobsAfter sampleTexts mergedSteps).jobs.rows, job.status = .succeeded) ∧
    ∀ job ∈ (jobsAfter sampleTexts mergedSteps).jobs.rows, job.status = .succeeded →
      ∃ run ∈ (jobsAfter sampleTexts mergedSteps).runs, run.jobId = job.id ∧ run.Completed ∧
        ∀ request, (job.id, request) ∈ (jobsAfter sampleTexts mergedSteps).requests →
          Covers id job.kind run.params request := by
  have hlast : ∀ run ∈ (jobsAfter sampleTexts (mergedSteps.take 6)).runs[1]?,
      ∀ job ∈ (jobsAfter sampleTexts (mergedSteps.take 6)).jobs.rows, job.params = run.params := by
    decide +kernel
  have hheld : HeldAll sampleTexts .empty mergedSteps := by
    refine ⟨trivial, trivial, trivial, trivial, trivial, trivial, ?_, trivial⟩
    intro run hget _ job hj _
    exact hlast run hget job hj
  refine ⟨hheld, by decide +kernel, ?_⟩
  exact (jobs_fulfilled id sampleTexts mergedSteps mergedSteps (List.prefix_refl _)).2 hheld

end Sample

end AgenticOrg.Spend
