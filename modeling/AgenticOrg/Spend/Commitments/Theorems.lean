import AgenticOrg.Spend.Commitments.Passes

namespace AgenticOrg.Spend

open Tables Replay

section Draws

variable (env : DrawEnv) (terms : List Terms)

theorem bestCommitment_mem (record : UsageRecord) (chosen : Terms)
    (h : bestCommitment env record terms = some chosen) : chosen ∈ terms := by
  obtain ⟨ranked, hr, rfl⟩ := Option.map_eq_some_iff.mp h
  have hmem := List.mem_of_mem_head? (Option.mem_def.mpr hr)
  rw [mem_ordered] at hmem
  obtain ⟨found, hf, hm⟩ := List.mem_filterMap.mp hmem
  obtain ⟨rank, _, rfl⟩ := Option.map_eq_some_iff.mp hm
  exact hf

-- Only the totals of the commitments given move.
theorem drawRecord_other (id : String) (hid : ∀ row ∈ terms, row.id ≠ id) (states : DrawStates)
    (record : UsageRecord) : (drawRecord env terms states record).1 id = states id := by
  unfold drawRecord
  split
  · rfl
  · rename_i chosen hc
    exact Function.update_of_ne (hid chosen (bestCommitment_mem env terms record chosen hc)).symm _ _

-- A quantity is drawn whatever it costs.
theorem drawRecord_repriced (hq : ∀ row ∈ terms, row.pledge.kind = .quantity) (states : DrawStates)
    (record : UsageRecord) (prices : Prices) :
    drawRecord env terms states (record.repriced prices) = drawRecord env terms states record := by
  have hbest : bestCommitment env (record.repriced prices) terms = bestCommitment env record terms := rfl
  unfold drawRecord
  rw [hbest]
  split
  · rfl
  · rename_i chosen hc
    have hkind := hq chosen (bestCommitment_mem env terms record chosen hc)
    have hdraw : ∀ (state : Drawn) (a b : Option ℚ),
        draw env (record.repriced prices) chosen state a = draw env record chosen state b := by
      intro state a b
      unfold draw
      cases hp : chosen.pledge with
      | quantity usageType unit committed => rfl
      | money usageType committed currency =>
          rw [hp] at hkind
          cases hkind
    rw [hdraw]

end Draws

section Totals

variable (env : DrawEnv) (terms : List Terms) (rows : List UsageRecord) (read : RecordKey → Bool)

-- One fold from zero over what has been read.
def drawnTo : DrawStates :=
  (replay (drawRecord env terms) .zero (ordered recordKey (rows.filter fun row => read (recordKey row)))).1

-- What the fold gives a record.
def due (record : UsageRecord) : Assignment := given (drawRecord env terms) recordKey .zero rows record

structure UpTo (states : DrawStates) : Prop where
  states_eq : states = drawnTo env terms rows read
  assigned : ∀ row ∈ rows, read (recordKey row) = true → row.assignment = due env terms rows row

-- What has been read is what comes first.
def DownClosed : Prop := ∀ a b : RecordKey, a ≤ b → read b = true → read a = true

variable {rows read}

theorem filter_map_key (f : UsageRecord → UsageRecord) (test : RecordKey → Bool)
    (hkey : ∀ row ∈ rows, recordKey (f row) = recordKey row) :
    (rows.map f).filter (fun row => test (recordKey row)) =
      (rows.filter fun row => test (recordKey row)).map f := by
  rw [List.filter_map]
  congr 1
  refine List.filter_congr fun row hr => ?_
  rw [Function.comp_apply, hkey row hr]

theorem replay_map_rows (f : UsageRecord → UsageRecord) (test : RecordKey → Bool)
    (hkey : ∀ row ∈ rows, recordKey (f row) = recordKey row)
    (hdraw : ∀ row ∈ rows, ∀ states, drawRecord env terms states (f row) = drawRecord env terms states row) :
    replay (drawRecord env terms) .zero (ordered recordKey ((rows.map f).filter fun row => test (recordKey row))) =
      replay (drawRecord env terms) .zero (ordered recordKey (rows.filter fun row => test (recordKey row))) := by
  rw [filter_map_key f test hkey, ordered_map recordKey f _ fun row hr => hkey row (List.mem_of_mem_filter hr)]
  refine replay_map _ f _ _ fun row hr => hdraw row ?_
  rw [mem_ordered] at hr
  exact List.mem_of_mem_filter hr

theorem due_map (f : UsageRecord → UsageRecord) (hkey : ∀ row ∈ rows, recordKey (f row) = recordKey row)
    (hdraw : ∀ row ∈ rows, ∀ states, drawRecord env terms states (f row) = drawRecord env terms states row)
    (row : UsageRecord) (hr : row ∈ rows) :
    due env terms (rows.map f) (f row) = due env terms rows row := by
  have hreplay := replay_map_rows env terms f (fun key => decide (key < recordKey row)) hkey hdraw
  rw [due, given, hkey row hr, hreplay, hdraw row hr]
  rfl

-- Records rewritten so that those read have what is due, and drawn as before.
theorem upTo_map (states : DrawStates) (hstates : states = drawnTo env terms rows read)
    (f : UsageRecord → UsageRecord) (hkey : ∀ row ∈ rows, recordKey (f row) = recordKey row)
    (hdraw : ∀ row ∈ rows, ∀ states, drawRecord env terms states (f row) = drawRecord env terms states row)
    (hassign : ∀ row ∈ rows, read (recordKey row) = true → (f row).assignment = due env terms rows row) :
    UpTo env terms (rows.map f) read states where
  states_eq := by rw [hstates, drawnTo, drawnTo, replay_map_rows env terms f read hkey hdraw]
  assigned := by
    intro row hr hread
    obtain ⟨old, ho, rfl⟩ := List.mem_map.mp hr
    rw [hkey old ho] at hread
    rw [due_map env terms f hkey hdraw old ho, hassign old ho hread]

-- Records that come after all that has been read.
theorem UpTo.append (states : DrawStates) (h : UpTo env terms rows read states) (hdown : DownClosed read)
    (more : List UsageRecord) (hmore : ∀ row ∈ more, read (recordKey row) = false) :
    UpTo env terms (rows ++ more) read states where
  states_eq := by
    have hnone : (more.filter fun row => read (recordKey row)) = [] := by
      refine List.filter_eq_nil_iff.mpr fun row hr => ?_
      rw [hmore row hr]
      exact Bool.false_ne_true
    rw [h.states_eq, drawnTo, drawnTo, List.filter_append, hnone, List.append_nil]
  assigned := by
    intro row hr hread
    have hold : row ∈ rows := by
      refine (List.mem_append.mp hr).resolve_right fun hnew => ?_
      rw [hmore row hnew] at hread
      cases hread
    have hnone : (more.filter fun other => decide (recordKey other < recordKey row)) = [] := by
      refine List.filter_eq_nil_iff.mpr fun other ho hlt => ?_
      have hother := hdown _ _ (of_decide_eq_true hlt).le hread
      rw [hmore other ho] at hother
      cases hother
    rw [h.assigned row hold hread, due, due, given, given, List.filter_append, hnone, List.append_nil]

theorem UpTo.untouched (states : DrawStates) (h : UpTo env terms rows read states) (id : String)
    (hid : ∀ row ∈ terms, row.id ≠ id) : states id = .zero := by
  rw [h.states_eq, drawnTo, replay_keeps (drawRecord env terms) (fun states => states id) _ _
    (drawRecord_other env terms id hid)]
  rfl

theorem UpTo.nothing (hnone : ∀ row ∈ rows, read (recordKey row) = false) :
    UpTo env terms rows read .zero where
  states_eq := by
    have hfilter : (rows.filter fun row => read (recordKey row)) = [] := by
      refine List.filter_eq_nil_iff.mpr fun row hr => ?_
      rw [hnone row hr]
      exact Bool.false_ne_true
    rw [drawnTo, hfilter]
    rfl
  assigned := by
    intro row hr hread
    rw [hnone row hr] at hread
    cases hread

variable (hd : (rows.map recordKey).Nodup)

include hd

-- What the fold over all that has been read gives is what is due.
theorem replay_due (hdown : DownClosed read) :
    (replay (drawRecord env terms) .zero
        (ordered recordKey (rows.filter fun row => read (recordKey row)))).2 =
      (ordered recordKey (rows.filter fun row => read (recordKey row))).map (due env terms rows) := by
  rw [replay_given _ recordKey _ _ ((List.filter_sublist.map recordKey).nodup hd)]
  refine List.map_congr_left fun row hr => ?_
  rw [mem_ordered, List.mem_filter] at hr
  exact given_filter _ recordKey _ rows _ row fun other _ hlt => hdown _ _ hlt.le hr.2

-- A page drawn from the totals of what was read before it.
theorem UpTo.page (states : DrawStates) (h : UpTo env terms rows read states) (read' : RecordKey → Bool)
    (hdown : DownClosed read) (hdown' : DownClosed read') (next : UsageRecord → Bool)
    (hboth : ∀ row ∈ rows, read' (recordKey row) = true ↔ read (recordKey row) = true ∨ next row = true)
    (hlt : ∀ a ∈ rows, ∀ b ∈ rows, read (recordKey a) = true → next b = true → recordKey a < recordKey b) :
    (replay (drawRecord env terms) states (ordered recordKey (rows.filter next))).1 =
        drawnTo env terms rows read' ∧
      (replay (drawRecord env terms) states (ordered recordKey (rows.filter next))).2 =
        (ordered recordKey (rows.filter next)).map (due env terms rows) := by
  have hsplit := ordered_split recordKey rows hd (fun row => read (recordKey row)) next
    (fun row => read' (recordKey row)) hboth hlt
  have hall := replay_append (drawRecord env terms) .zero
    (ordered recordKey (rows.filter fun row => read (recordKey row))) (ordered recordKey (rows.filter next))
  have hstates : (replay (drawRecord env terms) .zero
      (ordered recordKey (rows.filter fun row => read (recordKey row)))).1 = states := h.states_eq.symm
  rw [← hsplit, hstates] at hall
  constructor
  · rw [drawnTo, hall]
  · have houtputs := replay_due env terms hd hdown'
    rw [hall, hsplit, List.map_append, replay_due env terms hd hdown] at houtputs
    exact List.append_cancel_left houtputs

end Totals

section Windows

-- Windows that follow one another from an instant to another.
def Tiles : Int → List (Int × Int) → Int → Prop
  | start, [], stop => start = stop
  | start, window :: rest, stop => window.1 = start ∧ window.1 < window.2 ∧ Tiles window.2 rest stop

variable (calendar : Calendar)

theorem dayStart_mono (day : Date) (offset : ℕ) :
    calendar.dayStart day ≤ calendar.dayStart (day + offset) := by
  induction offset with
  | zero => simp
  | succ offset ih =>
      have hnext := calendar.dayStart_le (day + offset)
      rw [show day + ((offset + 1 : ℕ) : Int) = day + offset + 1 by push_cast; ring]
      exact ih.trans hnext

-- Day by day from a day on, as far as the day after the last one.
theorem tiles_days (start stop : Int) (hlt : start < stop) (count : ℕ) (day : Date) :
    Tiles (max start (min (calendar.dayStart day) stop))
      ((((List.range count).map fun offset : ℕ => day + (offset : Int)).map
        (dayWindowOf calendar start stop)).filter fun window => window.1 < window.2)
      (max start (min (calendar.dayStart (day + count)) stop)) := by
  induction count generalizing day with
  | zero => simp [Tiles]
  | succ count ih =>
      have hle := calendar.dayStart_le day
      have hrest := ih (day + 1)
      have hshift : (List.range (count + 1)).map (fun offset : ℕ => day + (offset : Int)) =
          day :: (List.range count).map fun offset : ℕ => day + 1 + (offset : Int) := by
        rw [List.range_succ_eq_map, List.map_cons, List.map_map]
        congr 1
        · simp
        · refine List.map_congr_left fun offset _ => ?_
          rw [Function.comp_apply]
          push_cast
          ring
      rw [show day + ((count + 1 : ℕ) : Int) = day + 1 + count by push_cast; ring, hshift, List.map_cons]
      by_cases hw : (dayWindowOf calendar start stop day).1 < (dayWindowOf calendar start stop day).2
      · rw [List.filter_cons_of_pos (by simpa using hw)]
        unfold dayWindowOf at hw
        refine ⟨?_, hw, ?_⟩
        · simp only [dayWindowOf] at hw ⊢
          omega
        · have hend : (dayWindowOf calendar start stop day).2 =
              max start (min (calendar.dayStart (day + 1)) stop) := by
            simp only [dayWindowOf] at hw ⊢
            omega
          rw [hend]
          exact hrest
      · rw [List.filter_cons_of_neg (by simpa using hw)]
        have hsame : max start (min (calendar.dayStart day) stop) =
            max start (min (calendar.dayStart (day + 1)) stop) := by
          simp only [dayWindowOf] at hw
          omega
        rw [hsame]
        exact hrest

theorem tiles_replayWindows (start stop : Int) :
    Tiles start (replayWindows calendar start (max start stop)) (max start stop) := by
  unfold replayWindows
  split
  · rename_i hle
    exact (le_antisymm hle (le_max_left _ _)).symm
  · rename_i hlt
    have hstart := calendar.dateOf_bounds start
    have hstop := calendar.dateOf_bounds (max start stop - 1)
    set first : Int := calendar.dateOf start
    set final : Int := calendar.dateOf (max start stop - 1)
    have hfinal : first ≤ final := by
      by_contra hgt
      obtain ⟨offset, hoffset⟩ : ∃ offset : ℕ, first = final + 1 + offset :=
        ⟨(first - (final + 1)).toNat, by omega⟩
      have hmono := dayStart_mono calendar (final + 1) offset
      rw [← hoffset] at hmono
      omega
    have hcount : first + ((final - first + 1).toNat : Int) = final + 1 := by omega
    have htiles := tiles_days calendar start (max start stop) (by omega) (final - first + 1).toNat first
    rw [hcount] at htiles
    have hlow : max start (min (calendar.dayStart first) (max start stop)) = start := by omega
    have hhigh : max start (min (calendar.dayStart (final + 1)) (max start stop)) = max start stop := by omega
    rw [hlow, hhigh] at htiles
    exact htiles

end Windows

end AgenticOrg.Spend
