import AgenticOrg.Push.Outbox

namespace AgenticOrg.Push

open Tables

section Statements

variable (settings : PushSettings)

-- The attempts since the row was replayed last.
def attemptsSince (rowId : ℕ) : List OutboxEvent → ℕ
  | [] => 0
  | .replayed other :: earlier => if other = rowId then 0 else attemptsSince rowId earlier
  | .attempted other :: earlier =>
      if other = rowId then attemptsSince rowId earlier + 1 else attemptsSince rowId earlier
  | _ :: earlier => attemptsSince rowId earlier

-- What the endpoint answered to the row's last attempt; a replay starts over.
def lastAnswer (rowId : ℕ) : List OutboxEvent → Option SendResult
  | [] => none
  | .sent other result :: earlier => if other = rowId then some result else lastAnswer rowId earlier
  | .attempted other :: earlier => if other = rowId then none else lastAnswer rowId earlier
  | .replayed other :: earlier => if other = rowId then none else lastAnswer rowId earlier

def Succeeded (rowId : ℕ) (history : List OutboxEvent) : Prop :=
  ∃ result, .sent rowId result ∈ history ∧ result.succeeded = true

def Outbox.Delivered (outbox : Outbox) (rowId : ℕ) : Prop :=
  ∃ row, outbox.rows.find? rowId = some row ∧ row.status = .delivered

def Outbox.DeadLettered (outbox : Outbox) (rowId : ℕ) : Prop :=
  ∃ row, outbox.rows.find? rowId = some row ∧ row.status = .deadLettered

-- A row is given up when nothing was delivered and its subscription is disabled, the endpoint rejected its last attempt
-- for good or it was attempted as often as it may be.
def GivenUpRightly (step : OutboxStep) (history : List OutboxEvent) (rowId : ℕ) : Prop :=
  ¬Succeeded rowId history ∧
    ((∃ now ids disabled, step = .lease now ids disabled ∧ rowId ∈ disabled) ∨
      (∃ result ∈ lastAnswer rowId history, result.succeeded = false ∧ result.retryable = false) ∨
      settings.maxAttempts ≤ attemptsSince rowId history)

-- No attempt of a pending row is due while another one of it runs under its lease.
def Outbox.LeasesKept (outbox : Outbox) : Prop :=
  ∀ attempt ∈ outbox.attempts, ∀ row, outbox.rows.find? attempt.rowId = some row → row.status = .pending →
    attempt.leaseUntil ≤ row.nextAttemptAt

-- Every result is written back before its row is leased again, a success before its worker crashes.
def ReportedStep (outbox : Outbox) : OutboxStep → Prop
  | .lease now ids _ => ∀ row ∈ outbox.chosen now ids, ∀ attempt ∈ outbox.attempts, attempt.rowId ≠ row.id
  | .crash run => ∀ attempt ∈ outbox.attempts, attempt.run = run → ∀ result ∈ attempt.result, result.succeeded = false
  | _ => True

def ReportedAlong (outbox : Outbox) : List OutboxStep → Prop
  | [] => True
  | step :: rest => ReportedStep outbox step ∧ ReportedAlong (outbox.step settings step) rest

end Statements

section Invariants

structure OutboxInvariant (outbox : Outbox) : Prop where
  single : (outbox.attempts.map (·.rowId)).Nodup
  running : ∀ attempt ∈ outbox.attempts, ∃ row, outbox.rows.find? attempt.rowId = some row ∧
    row.status = .pending ∧ row.nextAttemptAt = attempt.leaseUntil ∧ row.attempts = attempt.number
  counted : ∀ rowId row, outbox.rows.find? rowId = some row → row.attempts = attemptsSince rowId outbox.history
  unknown : ∀ rowId, outbox.rows.find? rowId = none → attemptsSince rowId outbox.history = 0 ∧
    ¬Succeeded rowId outbox.history
  answered : ∀ attempt ∈ outbox.attempts, ∀ result, attempt.result = some result →
    lastAnswer attempt.rowId outbox.history = some result
  succeeded : ∀ rowId, Succeeded rowId outbox.history → outbox.Delivered rowId ∨
    ∃ attempt ∈ outbox.attempts, attempt.rowId = rowId ∧ ∃ result, attempt.result = some result ∧
      result.succeeded = true

variable {settings : PushSettings} {outbox : Outbox}

theorem emptyOutbox_invariant : OutboxInvariant emptyOutbox := by
  refine ⟨List.nodup_nil, fun _ ha => ?_, fun rowId row hr => ?_, fun rowId _ => ⟨rfl, ?_⟩, fun _ ha => ?_,
    fun rowId hs => ?_⟩
  · cases ha
  · cases hr
  · rintro ⟨result, hm, _⟩
    cases hm
  · cases ha
  · obtain ⟨result, hm, _⟩ := hs
    cases hm

-- No attempt on a row that nobody works on has succeeded unless the row is delivered.
theorem OutboxInvariant.not_succeeded (h : OutboxInvariant outbox) (rowId : ℕ) (row : Delivery)
    (hrow : outbox.rows.find? rowId = some row) (hstatus : row.status ≠ .delivered)
    (hattempts : ∀ attempt ∈ outbox.attempts, attempt.rowId = rowId → ∀ result, attempt.result = some result →
      result.succeeded = false) : ¬Succeeded rowId outbox.history := by
  intro hs
  rcases h.succeeded rowId hs with ⟨row', hrow', hd⟩ | ⟨attempt, ha, hid, result, hr, hok⟩
  · rw [hrow, Option.some.injEq] at hrow'
    exact hstatus (hrow' ▸ hd)
  · rw [hattempts attempt ha hid result hr] at hok
    cases hok

theorem OutboxInvariant.leasesKept (h : OutboxInvariant outbox) : outbox.LeasesKept := by
  intro attempt ha row hrow _
  obtain ⟨row', hrow', _, hnext, _⟩ := h.running attempt ha
  rw [hrow, Option.some.injEq] at hrow'
  rw [hrow', hnext]

theorem attempt_unique (h : OutboxInvariant outbox) (attempt other : Attempt)
    (ha : attempt ∈ outbox.attempts) (ho : other ∈ outbox.attempts) (hid : attempt.rowId = other.rowId) :
    attempt = other :=
  List.inj_on_of_nodup_map h.single ha ho hid

-- An insert leaves the rows that are there.
theorem find?_enqueue (rowId other : ℕ) (now : ℤ) (invalid : Bool) (row : Delivery)
    (hrow : outbox.rows.find? other = some row) : (outbox.enqueue rowId now invalid).rows.find? other = some row := by
  unfold Outbox.enqueue
  split
  · exact hrow
  · rename_i rows hinsert
    have hnew := (outbox.rows.rows_insert? rows _ hinsert).2
    refine (outbox.rows.find?_of_insert? rows _ hinsert other).trans ((if_neg ?_).trans hrow)
    rintro rfl
    rw [← Table.find?_eq_none_iff, hrow] at hnew
    cases hnew

theorem OutboxInvariant.enqueue (h : OutboxInvariant outbox) (rowId : ℕ) (now : ℤ) (invalid : Bool) :
    OutboxInvariant (outbox.enqueue rowId now invalid) := by
  unfold Outbox.enqueue
  split
  · exact h
  · rename_i rows hinsert
    generalize hadded : Delivery.mk rowId (if invalid then .deadLettered else .pending) 0 now invalid = added at hinsert
    have hid : Keyed.key added = rowId := by
      rw [← hadded]
      rfl
    have hzero : added.attempts = 0 := by rw [← hadded]
    have hfind := outbox.rows.find?_of_insert? rows added hinsert
    have hnone : outbox.rows.find? rowId = none := by
      rw [Table.find?_eq_none_iff, ← hid]
      exact (outbox.rows.rows_insert? rows added hinsert).2
    rw [hid] at hfind
    have hold : ∀ other row, outbox.rows.find? other = some row → rows.find? other = some row := by
      intro other row hrow
      have hkept := find?_enqueue rowId other now invalid row hrow
      rw [Outbox.enqueue, hadded, hinsert] at hkept
      exact hkept
    refine ⟨h.single, fun attempt ha => ?_, fun other row hrow => ?_, fun other hrow => ?_, h.answered,
      fun other hs => ?_⟩
    · obtain ⟨row, hrow, hrest⟩ := h.running attempt ha
      exact ⟨row, hold _ row hrow, hrest⟩
    · change rows.find? other = some row at hrow
      rw [hfind] at hrow
      split_ifs at hrow with he
      · rw [Option.some.injEq] at hrow
        rw [← hrow, ← he, hzero]
        exact (h.unknown rowId hnone).1.symm
      · exact h.counted other row hrow
    · change rows.find? other = none at hrow
      rw [hfind] at hrow
      split_ifs at hrow
      exact h.unknown other hrow
    · rcases h.succeeded other hs with ⟨row, hrow, hd⟩ | hs
      · exact .inl ⟨row, hold other row hrow, hd⟩
      · exact .inr hs

theorem OutboxInvariant.send (h : OutboxInvariant outbox) (run rowId : ℕ) (result : SendResult) :
    OutboxInvariant (outbox.send run rowId result) := by
  by_cases hany : (outbox.attempts.any fun attempt =>
      attempt.run = run ∧ attempt.rowId = rowId ∧ attempt.result = none) = true
  · obtain ⟨attempt, ha, hsame⟩ := List.any_eq_true.mp hany
    obtain ⟨hrun, hid, hnone⟩ := of_decide_eq_true hsame
    have hhistory : (outbox.send run rowId result).history = .sent rowId result :: outbox.history := if_pos hany
    have hback : ∀ other ∈ (outbox.send run rowId result).attempts, ∃ old ∈ outbox.attempts,
        other.rowId = old.rowId ∧ other.number = old.number ∧ other.leaseUntil = old.leaseUntil ∧
        (other.result = old.result ∨ (other.rowId = rowId ∧ other.result = some result)) := by
      intro other ho
      obtain ⟨old, hold, rfl⟩ := List.mem_map.mp ho
      refine ⟨old, hold, ?_⟩
      split_ifs with hthis
      · exact ⟨rfl, rfl, rfl, .inr ⟨hthis.2.1, rfl⟩⟩
      · exact ⟨rfl, rfl, rfl, .inl rfl⟩
    have hids : (outbox.send run rowId result).attempts.map (·.rowId) = outbox.attempts.map (·.rowId) := by
      change (outbox.attempts.map _).map _ = _
      rw [List.map_map]
      refine List.map_congr_left fun old _ => ?_
      rw [Function.comp_apply]
      split_ifs
      · rfl
      · rfl
    obtain ⟨row, hrow, _⟩ := h.running attempt ha
    refine ⟨hids ▸ h.single, fun other ho => ?_, fun other row' hrow' => ?_, fun other hrow' => ?_,
      fun other ho result' hr => ?_, fun other hs => ?_⟩
    · obtain ⟨old, hold, hid', hnumber, hlease, _⟩ := hback other ho
      rw [hid', hnumber, hlease]
      exact h.running old hold
    · rw [hhistory]
      exact h.counted other row' hrow'
    · rw [hhistory]
      obtain ⟨hzero, hsucceeded⟩ := h.unknown other hrow'
      refine ⟨hzero, ?_⟩
      rintro ⟨result', hm, hok⟩
      rcases List.mem_cons.mp hm with he | hm
      · cases he
        change outbox.rows.find? _ = none at hrow'
        rw [← hid, hrow] at hrow'
        cases hrow'
      · exact hsucceeded ⟨result', hm, hok⟩
    · rw [hhistory]
      obtain ⟨old, hold, hid', _, _, hr' | ⟨hid'', hr'⟩⟩ := hback other ho
      · have hkept := h.answered old hold result' (hr'.symm.trans hr)
        rw [hid', lastAnswer, if_neg]
        · exact hkept
        · -- the row's one attempt is the one without a result
          intro hsent
          rw [attempt_unique h old attempt hold ha (hsent.symm.trans hid.symm), hnone] at hr'
          rw [hr'] at hr
          cases hr
      · rw [hid'', lastAnswer, if_pos rfl, ← hr', hr]
    · rw [hhistory] at hs
      obtain ⟨result', hm, hok⟩ := hs
      -- An attempt that has its result keeps it; the one that is sent has it now.
      have hkeeps : ∀ old ∈ outbox.attempts, ∀ result'', old.result = some result'' →
          old ∈ (outbox.send run rowId result).attempts := by
        intro old hold result'' hr
        refine List.mem_map.mpr ⟨old, hold, if_neg ?_⟩
        rintro ⟨_, _, hn⟩
        rw [hr] at hn
        cases hn
      rcases List.mem_cons.mp hm with he | hm
      · cases he
        refine .inr ⟨{ attempt with result := some result }, List.mem_map.mpr ⟨attempt, ha, ?_⟩, hid, result, rfl,
          hok⟩
        rw [if_pos ⟨hrun, hid, hnone⟩]
      · rcases h.succeeded other ⟨result', hm, hok⟩ with hd | ⟨old, hold, hid', result'', hr, hok'⟩
        · exact .inl hd
        · exact .inr ⟨old, hkeeps old hold result'' hr, hid', result'', hr, hok'⟩
  · have hsame : outbox.send run rowId result = outbox := by
      unfold Outbox.send
      rw [if_neg hany]
      have hattempts : (outbox.attempts.map fun attempt =>
          if attempt.run = run ∧ attempt.rowId = rowId ∧ attempt.result = none then
            { attempt with result := some result }
          else attempt) = outbox.attempts := by
        refine (List.map_congr_left fun attempt ha => ?_).trans (List.map_id _)
        rw [if_neg]
        · rfl
        · intro hsame
          exact hany (List.any_eq_true.mpr ⟨attempt, ha, decide_eq_true hsame⟩)
      rw [hattempts]
    rw [hsame]
    exact h

end Invariants

section Events

theorem succeeded_attempted (rows : List Delivery) (history : List OutboxEvent) (rowId : ℕ)
    (hs : Succeeded rowId (rows.map (fun row => .attempted row.id) ++ history)) : Succeeded rowId history := by
  obtain ⟨result, hm, hok⟩ := hs
  rcases List.mem_append.mp hm with hm | hm
  · obtain ⟨row, _, he⟩ := List.mem_map.mp hm
    cases he
  · exact ⟨result, hm, hok⟩

theorem attemptsSince_attempted (rows : List Delivery) (history : List OutboxEvent) (rowId : ℕ) :
    attemptsSince rowId (rows.map (fun row => .attempted row.id) ++ history) =
      rows.countP (·.id = rowId) + attemptsSince rowId history := by
  induction rows with
  | nil => simp
  | cons row rest ih =>
      rw [List.map_cons, List.cons_append, attemptsSince, ih, List.countP_cons]
      by_cases he : row.id = rowId
      · rw [if_pos he, if_pos (decide_eq_true he)]
        omega
      · rw [if_neg he, if_neg (by simpa using he)]
        omega

theorem lastAnswer_attempted (rows : List Delivery) (history : List OutboxEvent) (rowId : ℕ)
    (h : ∀ row ∈ rows, row.id ≠ rowId) :
    lastAnswer rowId (rows.map (fun row => .attempted row.id) ++ history) = lastAnswer rowId history := by
  induction rows with
  | nil => rfl
  | cons row rest ih =>
      rw [List.map_cons, List.cons_append, lastAnswer, if_neg (h row List.mem_cons_self)]
      exact ih fun other ho => h other (List.mem_cons_of_mem _ ho)

end Events

section Leases

variable {settings : PushSettings} {outbox : Outbox}

theorem mem_chosen (now : ℤ) (ids : List ℕ) (row : Delivery) :
    row ∈ outbox.chosen now ids ↔
      outbox.rows.find? row.id = some row ∧ row.due now = true ∧ ids.contains row.id = true := by
  rw [Outbox.chosen, List.mem_filter, Bool.and_eq_true, Table.find?_eq_some_iff]
  exact ⟨fun h => ⟨⟨h.1, rfl⟩, h.2⟩, fun h => ⟨h.1.1, h.2⟩⟩

theorem find?_lease (now : ℤ) (ids disabled : List ℕ) (rowId : ℕ) :
    (outbox.lease settings now ids disabled).rows.find? rowId = (outbox.rows.find? rowId).map fun row =>
      if row.due now && ids.contains row.id then settings.leased row now (disabled.contains row.id) else row :=
  outbox.rows.find?_map _ (fun row => by split <;> rfl) rowId

theorem find?_lease_chosen (now : ℤ) (ids disabled : List ℕ) (row : Delivery) (h : row ∈ outbox.chosen now ids) :
    (outbox.lease settings now ids disabled).rows.find? row.id =
      some (settings.leased row now (disabled.contains row.id)) := by
  obtain ⟨hrow, hdue, hin⟩ := (mem_chosen now ids row).mp h
  rw [find?_lease, hrow, Option.map_some, hdue, hin]
  rfl

theorem find?_lease_other (now : ℤ) (ids disabled : List ℕ) (rowId : ℕ) (row : Delivery)
    (hrow : outbox.rows.find? rowId = some row) (h : row ∉ outbox.chosen now ids) :
    (outbox.lease settings now ids disabled).rows.find? rowId = some row := by
  have hid : row.id = rowId := (outbox.rows.mem_of_find? rowId row hrow).2
  rw [find?_lease, hrow, Option.map_some, if_neg]
  intro hboth
  rw [Bool.and_eq_true] at hboth
  exact h ((mem_chosen now ids row).mpr ⟨hid ▸ hrow, hboth.1, hboth.2⟩)

theorem Outbox.Delivered.lease (rowId : ℕ) (h : outbox.Delivered rowId) (now : ℤ) (ids disabled : List ℕ) :
    (outbox.lease settings now ids disabled).Delivered rowId := by
  obtain ⟨row, hrow, hd⟩ := h
  refine ⟨row, find?_lease_other now ids disabled rowId row hrow fun hm => ?_, hd⟩
  have hdue := ((mem_chosen now ids row).mp hm).2.1
  rw [Delivery.due, Bool.and_eq_true, decide_eq_true_eq, hd] at hdue
  cases hdue.1

theorem countP_chosen (now : ℤ) (ids : List ℕ) (rowId : ℕ) (row : Delivery)
    (hrow : outbox.rows.find? rowId = some row) :
    (outbox.chosen now ids).countP (·.id = rowId) = if row ∈ outbox.chosen now ids then 1 else 0 := by
  have hid : row.id = rowId := (outbox.rows.mem_of_find? rowId row hrow).2
  have hcount := outbox.rows.countP_key rowId fun row => row.due now && ids.contains row.id
  rw [hrow, Option.any_some] at hcount
  rw [Outbox.chosen, List.countP_filter]
  refine hcount.trans ?_
  by_cases hboth : (row.due now && ids.contains row.id) = true
  · rw [if_pos hboth, if_pos]
    rw [Bool.and_eq_true] at hboth
    exact (mem_chosen now ids row).mpr ⟨hid ▸ hrow, hboth.1, hboth.2⟩
  · rw [if_neg hboth, if_neg]
    intro hm
    obtain ⟨_, hdue, hin⟩ := (mem_chosen now ids row).mp hm
    exact hboth (by rw [hdue, hin]; rfl)

theorem countP_chosen_unknown (now : ℤ) (ids : List ℕ) (rowId : ℕ) (hrow : outbox.rows.find? rowId = none) :
    (outbox.chosen now ids).countP (·.id = rowId) = 0 := by
  rw [List.countP_eq_zero]
  intro row hm hid
  rw [← of_decide_eq_true hid, ((mem_chosen now ids row).mp hm).1] at hrow
  cases hrow

theorem OutboxInvariant.lease (h : OutboxInvariant outbox) (now : ℤ) (ids disabled : List ℕ)
    (hreported : ReportedStep outbox (.lease now ids disabled)) :
    OutboxInvariant (outbox.lease settings now ids disabled) := by
  have hcount : ∀ rowId, attemptsSince rowId (outbox.lease settings now ids disabled).history =
      (outbox.chosen now ids).countP (·.id = rowId) + attemptsSince rowId outbox.history :=
    attemptsSince_attempted _ _
  -- A row that somebody works on is not chosen.
  have hbusy : ∀ attempt ∈ outbox.attempts, ∀ row, outbox.rows.find? attempt.rowId = some row →
      row ∉ outbox.chosen now ids := by
    intro attempt ha row hrow hm
    exact hreported row hm attempt ha (outbox.rows.mem_of_find? _ row hrow).2.symm
  refine ⟨?_, fun attempt ha => ?_, fun rowId row hrow => ?_, fun rowId hrow => ?_, fun attempt ha result hr => ?_,
    fun rowId hs => ?_⟩
  · change (List.map (·.rowId) (_ ++ outbox.attempts)).Nodup
    rw [List.map_append, List.map_map, List.nodup_append]
    refine ⟨?_, h.single, fun a ha b hb he => ?_⟩
    · exact ((List.filter_sublist.trans List.filter_sublist).map _).nodup outbox.rows.distinct
    · obtain ⟨row, hm, rfl⟩ := List.mem_map.mp ha
      obtain ⟨attempt, hattempt, rfl⟩ := List.mem_map.mp hb
      exact hreported row (List.mem_of_mem_filter hm) attempt hattempt he.symm
  · rcases List.mem_append.mp ha with ha | ha
    · obtain ⟨row, hm, rfl⟩ := List.mem_map.mp ha
      obtain ⟨hm, hd⟩ := List.mem_filter.mp hm
      rw [Bool.not_eq_true'] at hd
      refine ⟨_, find?_lease_chosen now ids disabled row hm, ?_, rfl, rfl⟩
      have hdue := ((mem_chosen now ids row).mp hm).2.1
      rw [Delivery.due, Bool.and_eq_true, decide_eq_true_eq] at hdue
      rw [PushSettings.leased, hd]
      exact hdue.1
    · obtain ⟨row, hrow, hrest⟩ := h.running attempt ha
      exact ⟨row, find?_lease_other now ids disabled _ row hrow (hbusy attempt ha row hrow), hrest⟩
  · rw [hcount]
    cases hold : outbox.rows.find? rowId with
    | none =>
        rw [find?_lease, hold] at hrow
        cases hrow
    | some old =>
        rw [countP_chosen now ids rowId old hold, ← h.counted rowId old hold]
        have hid : old.id = rowId := (outbox.rows.mem_of_find? rowId old hold).2
        by_cases hm : old ∈ outbox.chosen now ids
        · rw [← hid, find?_lease_chosen now ids disabled old hm, Option.some.injEq] at hrow
          rw [if_pos hm, ← hrow, PushSettings.leased]
          exact Nat.add_comm _ _
        · rw [find?_lease_other now ids disabled rowId old hold hm, Option.some.injEq] at hrow
          rw [if_neg hm, ← hrow, Nat.zero_add]
  · have hold : outbox.rows.find? rowId = none := by
      rw [find?_lease, Option.map_eq_none_iff] at hrow
      exact hrow
    obtain ⟨hzero, hsucceeded⟩ := h.unknown rowId hold
    refine ⟨?_, fun hs => hsucceeded (succeeded_attempted _ _ rowId hs)⟩
    rw [hcount, countP_chosen_unknown now ids rowId hold, hzero]
  · rcases List.mem_append.mp ha with ha | ha
    · obtain ⟨row, _, rfl⟩ := List.mem_map.mp ha
      cases hr
    · refine (lastAnswer_attempted _ _ attempt.rowId fun row hm he => ?_).trans (h.answered attempt ha result hr)
      exact hreported row hm attempt ha he.symm
  · rcases h.succeeded rowId (succeeded_attempted _ _ rowId hs) with hd | ⟨attempt, ha, hrest⟩
    · exact .inl (hd.lease rowId now ids disabled)
    · exact .inr ⟨attempt, List.mem_append_right _ ha, hrest⟩

end Leases

section Reports

variable {settings : PushSettings} {outbox : Outbox}

theorem PushSettings.reported_attempts (row : Delivery) (finished : ℤ) (attempt : Option Attempt) :
    (settings.reported row finished attempt).attempts = row.attempts := by
  unfold PushSettings.reported PushSettings.settled
  split
  · rfl
  · split
    · rfl
    · split_ifs
      · rfl
      · rfl
      · rfl

theorem attemptOf_some (run rowId : ℕ) (attempt : Attempt) (h : outbox.attemptOf run rowId = some attempt) :
    attempt ∈ outbox.attempts ∧ attempt.run = run ∧ attempt.rowId = rowId := by
  refine ⟨List.mem_of_find?_eq_some h, ?_⟩
  simpa using List.find?_some h

theorem OutboxInvariant.attemptOf_self (h : OutboxInvariant outbox) (attempt : Attempt)
    (ha : attempt ∈ outbox.attempts) : outbox.attemptOf attempt.run attempt.rowId = some attempt := by
  cases hfind : outbox.attemptOf attempt.run attempt.rowId with
  | none =>
      have := List.find?_eq_none.mp hfind attempt ha
      simp at this
  | some other =>
      obtain ⟨ho, _, hid⟩ := attemptOf_some _ _ other hfind
      rw [attempt_unique h other attempt ho ha hid]

-- Rows of other attempts, and rows nobody works on, stay as they are.
theorem OutboxInvariant.attemptOf_other (h : OutboxInvariant outbox) (run : ℕ) (attempt : Attempt)
    (ha : attempt ∈ outbox.attempts) (hrun : attempt.run ≠ run) : outbox.attemptOf run attempt.rowId = none := by
  cases hfind : outbox.attemptOf run attempt.rowId with
  | none => rfl
  | some other =>
      obtain ⟨ho, hr, hid⟩ := attemptOf_some _ _ other hfind
      rw [attempt_unique h other attempt ho ha hid] at hr
      exact absurd hr hrun

theorem Outbox.reported_key (settings : PushSettings) (outbox : Outbox) (run : ℕ) (finished : ℤ) (row : Delivery) :
    Keyed.key (settings.reported row finished (outbox.attemptOf run row.id)) = Keyed.key row :=
  settings.reported_id row finished (outbox.attemptOf run row.id)

-- The write-back of a batch all of which was sent.
def Outbox.written (settings : PushSettings) (outbox : Outbox) (run : ℕ) (finished : ℤ) : Outbox :=
  { outbox with
    rows := outbox.rows.map (fun row => settings.reported row finished (outbox.attemptOf run row.id))
      (outbox.reported_key settings run finished)
    attempts := outbox.attempts.filter (·.run ≠ run) }

theorem find?_written (run : ℕ) (finished : ℤ) (rowId : ℕ) :
    (outbox.written settings run finished).rows.find? rowId =
      (outbox.rows.find? rowId).map fun row => settings.reported row finished (outbox.attemptOf run row.id) :=
  outbox.rows.find?_map _ (outbox.reported_key settings run finished) rowId

theorem find?_written_other (run : ℕ) (finished : ℤ) (rowId : ℕ) (row : Delivery)
    (hrow : outbox.rows.find? rowId = some row) (h : outbox.attemptOf run rowId = none) :
    (outbox.written settings run finished).rows.find? rowId = some row := by
  have hid : row.id = rowId := (outbox.rows.mem_of_find? rowId row hrow).2
  rw [find?_written, hrow, Option.map_some, hid, h]
  rfl

-- Nobody works on a row that is delivered.
theorem Outbox.Delivered.written (rowId : ℕ) (hd : outbox.Delivered rowId) (h : OutboxInvariant outbox)
    (run : ℕ) (finished : ℤ) : (outbox.written settings run finished).Delivered rowId := by
  obtain ⟨row, hrow, hd⟩ := hd
  refine ⟨row, find?_written_other run finished rowId row hrow ?_, hd⟩
  cases hfind : outbox.attemptOf run rowId with
  | none => rfl
  | some attempt =>
      obtain ⟨ha, _, hid⟩ := attemptOf_some run rowId attempt hfind
      obtain ⟨row', hrow', hpending, _⟩ := h.running attempt ha
      rw [hid, hrow, Option.some.injEq] at hrow'
      rw [← hrow', hd] at hpending
      cases hpending

theorem OutboxInvariant.written (h : OutboxInvariant outbox) (run : ℕ) (finished : ℤ) :
    OutboxInvariant (outbox.written settings run finished) := by
  refine ⟨?_, fun attempt ha => ?_, fun rowId row hrow => ?_, fun rowId hrow => ?_, fun attempt ha result hr => ?_,
    fun rowId hs => ?_⟩
  · exact (List.filter_sublist.map _).nodup h.single
  · obtain ⟨ha, hrun⟩ := List.mem_filter.mp ha
    obtain ⟨row, hrow, hrest⟩ := h.running attempt ha
    exact ⟨row, find?_written_other run finished _ row hrow
      (h.attemptOf_other run attempt ha (of_decide_eq_true hrun)), hrest⟩
  · rw [find?_written] at hrow
    obtain ⟨old, hold, rfl⟩ := Option.map_eq_some_iff.mp hrow
    rw [PushSettings.reported_attempts]
    exact h.counted rowId old hold
  · rw [find?_written, Option.map_eq_none_iff] at hrow
    exact h.unknown rowId hrow
  · exact h.answered attempt (List.mem_of_mem_filter ha) result hr
  · rcases h.succeeded rowId hs with hd | ⟨attempt, ha, rfl, result, hr, hok⟩
    · exact .inl (hd.written rowId h run finished)
    · by_cases hrun : attempt.run = run
      · obtain ⟨row, hrow, _⟩ := h.running attempt ha
        have hid : row.id = attempt.rowId := (outbox.rows.mem_of_find? _ row hrow).2
        refine .inl ⟨settings.settled row finished attempt result, ?_, ?_⟩
        · rw [find?_written, hrow, Option.map_some, hid, ← hrun, h.attemptOf_self attempt ha,
            PushSettings.reported, hr]
        · rw [PushSettings.settled, if_pos hok]
      · exact .inr ⟨attempt, List.mem_filter.mpr ⟨ha, decide_eq_true hrun⟩, rfl, result, hr, hok⟩

theorem OutboxInvariant.report (h : OutboxInvariant outbox) (run : ℕ) (finished : ℤ) :
    OutboxInvariant (outbox.report settings run finished) := by
  unfold Outbox.report
  split_ifs
  · exact h
  · exact h.written run finished

theorem OutboxInvariant.crash (h : OutboxInvariant outbox) (run : ℕ) (hfailed : ReportedStep outbox (.crash run)) :
    OutboxInvariant (outbox.crash run) := by
  refine ⟨?_, fun attempt ha => ?_, h.counted, h.unknown, fun attempt ha => ?_, fun rowId hs => ?_⟩
  · exact (List.filter_sublist.map _).nodup h.single
  · exact h.running attempt (List.mem_of_mem_filter ha)
  · exact h.answered attempt (List.mem_of_mem_filter ha)
  · rcases h.succeeded rowId hs with hd | ⟨attempt, ha, hid, result, hr, hok⟩
    · exact .inl hd
    · refine .inr ⟨attempt, List.mem_filter.mpr ⟨ha, decide_eq_true fun hrun => ?_⟩, hid, result, hr, hok⟩
      rw [hfailed attempt ha hrun result hr] at hok
      cases hok

theorem Outbox.Delivered.replay (other : ℕ) (h : outbox.Delivered other) (rowId : ℕ) (now : ℤ) (rebuilt : Bool) :
    (outbox.replayDeadLetter rowId now rebuilt).Delivered other := by
  unfold Outbox.replayDeadLetter
  split
  · exact h
  · rename_i row hrow
    split_ifs with hrefused
    · exact h
    · rw [not_or, not_not] at hrefused
      obtain ⟨row', hrow', hd⟩ := h
      have hfind := outbox.rows.find?_modify rowId (·.replayed now) fun _ => rfl
      refine ⟨row', (hfind other).trans ((if_neg ?_).trans hrow'), hd⟩
      intro he
      rw [← he, hrow, Option.some.injEq] at hrow'
      rw [← hrow', hrefused.1] at hd
      cases hd

theorem OutboxInvariant.replay (h : OutboxInvariant outbox) (rowId : ℕ) (now : ℤ) (rebuilt : Bool) :
    OutboxInvariant (outbox.replayDeadLetter rowId now rebuilt) := by
  unfold Outbox.replayDeadLetter
  split
  · exact h
  · rename_i row hrow
    split_ifs with hrefused
    · exact h
    · rw [not_or, not_not] at hrefused
      have hdead := hrefused.1
      have hfind := outbox.rows.find?_modify rowId (·.replayed now) fun _ => rfl
      -- Nobody works on a row that was given up.
      have hfree : ∀ attempt ∈ outbox.attempts, rowId ≠ attempt.rowId := by
        intro attempt ha he
        obtain ⟨row', hrow', hpending, _⟩ := h.running attempt ha
        rw [← he, hrow, Option.some.injEq] at hrow'
        rw [← hrow', hdead] at hpending
        cases hpending
      have hsucceeded : ∀ other, Succeeded other (.replayed rowId :: outbox.history) →
          Succeeded other outbox.history := by
        rintro other ⟨result, hm, hok⟩
        rcases List.mem_cons.mp hm with he | hm
        · cases he
        · exact ⟨result, hm, hok⟩
      refine ⟨h.single, fun attempt ha => ?_, fun other row' hrow' => ?_, fun other hrow' => ?_,
        fun attempt ha result hr => ?_, fun other hs => ?_⟩
      · obtain ⟨row', hrow', hrest⟩ := h.running attempt ha
        refine ⟨row', ?_, hrest⟩
        exact (hfind attempt.rowId).trans ((if_neg (hfree attempt ha)).trans hrow')
      · have hrow'' := (hfind other).symm.trans hrow'
        rw [attemptsSince]
        by_cases he : rowId = other
        · rw [if_pos he] at hrow'' ⊢
          obtain ⟨old, _, rfl⟩ := Option.map_eq_some_iff.mp hrow''
          rfl
        · rw [if_neg he] at hrow'' ⊢
          exact h.counted other row' hrow''
      · have hrow'' := (hfind other).symm.trans hrow'
        by_cases he : rowId = other
        · rw [if_pos he, ← he, hrow] at hrow''
          cases hrow''
        · rw [if_neg he] at hrow''
          obtain ⟨hzero, hnot⟩ := h.unknown other hrow''
          refine ⟨?_, fun hs => hnot (hsucceeded other hs)⟩
          rw [attemptsSince, if_neg he]
          exact hzero
      · rw [lastAnswer, if_neg (hfree attempt ha)]
        exact h.answered attempt ha result hr
      · rcases h.succeeded other (hsucceeded other hs) with ⟨row', hrow', hd⟩ | hs
        · refine .inl ⟨row', (hfind other).trans ?_, hd⟩
          rw [if_neg]
          · exact hrow'
          · intro he
            rw [← he, hrow, Option.some.injEq] at hrow'
            rw [← hrow', hdead] at hd
            cases hd
        · exact .inr hs

theorem OutboxInvariant.step (h : OutboxInvariant outbox) (step : OutboxStep)
    (hreported : ReportedStep outbox step) : OutboxInvariant (outbox.step settings step) := by
  cases step with
  | enqueue rowId now invalid => exact h.enqueue rowId now invalid
  | lease now ids disabled => exact h.lease now ids disabled hreported
  | send run rowId result => exact h.send run rowId result
  | report run finished => exact h.report run finished
  | crash run => exact h.crash run hreported
  | replay rowId now rebuilt => exact h.replay rowId now rebuilt

theorem OutboxInvariant.run (h : OutboxInvariant outbox) (steps : List OutboxStep)
    (hreported : ReportedAlong settings outbox steps) : OutboxInvariant (outbox.run settings steps) := by
  induction steps generalizing outbox with
  | nil => exact h
  | cons step rest ih => exact ih (h.step step hreported.1) hreported.2

end Reports

section Runs

variable {settings : PushSettings} {outbox : Outbox}

theorem OutboxInvariant.delivered_step (h : OutboxInvariant outbox) (step : OutboxStep) (rowId : ℕ)
    (hd : outbox.Delivered rowId) : (outbox.step settings step).Delivered rowId := by
  cases step with
  | enqueue other now invalid =>
      obtain ⟨row, hrow, hd⟩ := hd
      exact ⟨row, find?_enqueue other rowId now invalid row hrow, hd⟩
  | lease now ids disabled => exact hd.lease rowId now ids disabled
  | send run other result => exact hd
  | report run finished =>
      change (outbox.report settings run finished).Delivered rowId
      unfold Outbox.report
      split_ifs
      · exact hd
      · exact hd.written rowId h run finished
  | crash run => exact hd
  | replay other now rebuilt => exact hd.replay rowId other now rebuilt

theorem OutboxInvariant.delivered_run (h : OutboxInvariant outbox) (steps : List OutboxStep)
    (hreported : ReportedAlong settings outbox steps) (rowId : ℕ) (hd : outbox.Delivered rowId) :
    (outbox.run settings steps).Delivered rowId := by
  induction steps generalizing outbox with
  | nil => exact hd
  | cons step rest ih => exact ih (h.step step hreported.1) hreported.2 (h.delivered_step step rowId hd)

-- Nothing was delivered for a row that is given up: nobody works on it.
theorem OutboxInvariant.not_succeeded_of_deadLettered (h : OutboxInvariant outbox) (rowId : ℕ)
    (hdead : outbox.DeadLettered rowId) : ¬Succeeded rowId outbox.history := by
  obtain ⟨row, hrow, hd⟩ := hdead
  refine h.not_succeeded rowId row hrow (by rw [hd]; decide) fun attempt ha hid => ?_
  obtain ⟨row', hrow', hpending, _⟩ := h.running attempt ha
  rw [hid, hrow, Option.some.injEq] at hrow'
  rw [← hrow', hd] at hpending
  cases hpending

-- A write-back gives a row up for its own attempt's result.
theorem OutboxInvariant.deadLettered_written (h : OutboxInvariant outbox) (run : ℕ) (finished : ℤ) (rowId : ℕ)
    (row : Delivery) (hrow : outbox.rows.find? rowId = some row) (hbefore : row.status ≠ .deadLettered)
    (hafter : (outbox.written settings run finished).DeadLettered rowId) :
    (∃ result ∈ lastAnswer rowId outbox.history, result.succeeded = false ∧ result.retryable = false) ∨
      settings.maxAttempts ≤ attemptsSince rowId outbox.history := by
  obtain ⟨row', hrow', hd⟩ := hafter
  cases hfind : outbox.attemptOf run rowId with
  | none =>
      rw [find?_written_other run finished rowId row hrow hfind, Option.some.injEq] at hrow'
      exact absurd (hrow' ▸ hd) hbefore
  | some attempt =>
      obtain ⟨ha, hrun, hid⟩ := attemptOf_some run rowId attempt hfind
      obtain ⟨row'', hrow'', _, _, hnumber⟩ := h.running attempt ha
      rw [hid, hrow, Option.some.injEq] at hrow''
      have hself : row.id = rowId := (outbox.rows.mem_of_find? rowId row hrow).2
      rw [find?_written, hrow, Option.map_some, hself, hfind, Option.some.injEq] at hrow'
      cases hresult : attempt.result with
      | none =>
          rw [PushSettings.reported, hresult] at hrow'
          change row = row' at hrow'
          exact absurd (hrow' ▸ hd) hbefore
      | some result =>
          rw [PushSettings.reported, hresult] at hrow'
          change settings.settled row finished attempt result = row' at hrow'
          have hanswer := h.answered attempt ha result hresult
          rw [hid] at hanswer
          unfold PushSettings.settled at hrow'
          by_cases hok : result.succeeded = true
          · rw [if_pos hok] at hrow'
            rw [← hrow'] at hd
            cases hd
          · rw [if_neg hok] at hrow'
            by_cases hretry : result.retryable = true
            · right
              rw [← h.counted rowId row hrow, hrow'', hnumber]
              by_contra hlt
              rw [if_pos (by rw [hretry, Bool.true_and, decide_eq_true_eq]; omega)] at hrow'
              exact hbefore ((congrArg Delivery.status hrow').trans hd)
            · exact .inl ⟨result, hanswer, Bool.not_eq_true _ ▸ hok, Bool.not_eq_true _ ▸ hretry⟩

theorem OutboxInvariant.givenUpRightly (h : OutboxInvariant outbox) (step : OutboxStep)
    (hreported : ReportedStep outbox step) (rowId : ℕ) (row : Delivery)
    (hrow : outbox.rows.find? rowId = some row) (hbefore : row.status ≠ .deadLettered)
    (hafter : (outbox.step settings step).DeadLettered rowId) :
    GivenUpRightly settings step (outbox.step settings step).history rowId := by
  refine ⟨(h.step step hreported).not_succeeded_of_deadLettered rowId hafter, ?_⟩
  obtain ⟨row', hrow', hd⟩ := hafter
  -- A row that the step leaves as it was has not become dead-lettered.
  have hchanged : row ≠ row' := by
    rintro rfl
    exact hbefore hd
  cases step with
  | enqueue other now invalid =>
      have hkept := find?_enqueue other rowId now invalid row hrow
      exact absurd (Option.some.inj (hkept.symm.trans hrow')) hchanged
  | lease now ids disabled =>
      by_cases hm : row ∈ outbox.chosen now ids
      · have hid : row.id = rowId := (outbox.rows.mem_of_find? rowId row hrow).2
        have hleased : (outbox.lease settings now ids disabled).rows.find? row.id = _ :=
          find?_lease_chosen now ids disabled row hm
        rw [hid] at hleased
        have he := Option.some.inj (hleased.symm.trans hrow')
        refine .inl ⟨now, ids, disabled, rfl, ?_⟩
        by_contra hin
        rw [← he, PushSettings.leased] at hd
        have hfalse : disabled.contains rowId = false := by simpa using hin
        simp only [hfalse, Bool.false_eq_true, if_false] at hd
        exact hbefore hd
      · have hkept : (outbox.lease settings now ids disabled).rows.find? rowId = some row :=
          find?_lease_other now ids disabled rowId row hrow hm
        exact absurd (Option.some.inj (hkept.symm.trans hrow')) hchanged
  | send run other result => exact absurd (Option.some.inj (hrow.symm.trans hrow')) hchanged
  | crash run => exact absurd (Option.some.inj (hrow.symm.trans hrow')) hchanged
  | report run finished =>
      change (outbox.report settings run finished).rows.find? rowId = some row' at hrow'
      unfold Outbox.report at hrow'
      split_ifs at hrow' with hunsent
      · exact absurd (Option.some.inj (hrow.symm.trans hrow')) hchanged
      · have hreason := h.deadLettered_written run finished rowId row hrow hbefore ⟨row', hrow', hd⟩
        change _ ∨ (∃ result ∈ lastAnswer rowId (outbox.report settings run finished).history, _) ∨
          settings.maxAttempts ≤ attemptsSince rowId (outbox.report settings run finished).history
        rw [Outbox.report, if_neg hunsent]
        exact .inr hreason
  | replay other now rebuilt =>
      change (outbox.replayDeadLetter other now rebuilt).rows.find? rowId = some row' at hrow'
      unfold Outbox.replayDeadLetter at hrow'
      split at hrow'
      · exact absurd (Option.some.inj (hrow.symm.trans hrow')) hchanged
      · split_ifs at hrow'
        · exact absurd (Option.some.inj (hrow.symm.trans hrow')) hchanged
        · rw [outbox.rows.find?_modify other (·.replayed now) (fun _ => rfl), hrow] at hrow'
          split_ifs at hrow'
          · rw [Option.map_some, Option.some.injEq] at hrow'
            rw [← hrow'] at hd
            cases hd
          · exact absurd (Option.some.inj hrow') hchanged

theorem reportedAlong_append (steps rest : List OutboxStep) (h : ReportedAlong settings outbox (steps ++ rest)) :
    ReportedAlong settings outbox steps ∧ ReportedAlong settings (outbox.run settings steps) rest := by
  induction steps generalizing outbox with
  | nil => exact ⟨trivial, h⟩
  | cons step earlier ih =>
      obtain ⟨hearlier, hrest⟩ := ih h.2
      exact ⟨⟨h.1, hearlier⟩, hrest⟩

theorem run_append (steps rest : List OutboxStep) :
    outbox.run settings (steps ++ rest) = (outbox.run settings steps).run settings rest :=
  List.foldl_append

-- However the runs interleave, as long as every result is written back before its row is leased again, a delivered row
-- stays delivered, a row is given up for a reason only and no row is due before the lease of a running attempt ends.
theorem deliveries_final (settings : PushSettings) (steps rest : List OutboxStep) (step : OutboxStep)
    (hreported : ReportedAlong settings emptyOutbox (steps ++ step :: rest)) :
    (∀ rowId, (emptyOutbox.run settings steps).Delivered rowId →
      (emptyOutbox.run settings (steps ++ step :: rest)).Delivered rowId) ∧
    (∀ rowId row, (emptyOutbox.run settings steps).rows.find? rowId = some row → row.status ≠ .deadLettered →
      (emptyOutbox.run settings (steps ++ [step])).DeadLettered rowId →
      GivenUpRightly settings step (emptyOutbox.run settings (steps ++ [step])).history rowId) ∧
    (emptyOutbox.run settings (steps ++ step :: rest)).LeasesKept := by
  obtain ⟨hsteps, hstep, hrest⟩ := reportedAlong_append steps (step :: rest) hreported
  have h := emptyOutbox_invariant.run steps hsteps
  rw [run_append, run_append]
  refine ⟨fun rowId hd => ?_, fun rowId row hrow hbefore hafter => ?_, ?_⟩
  · exact h.delivered_run (step :: rest) ⟨hstep, hrest⟩ rowId hd
  · exact h.givenUpRightly step hstep rowId row hrow hbefore hafter
  · exact (h.run (step :: rest) ⟨hstep, hrest⟩).leasesKept

instance (outbox : Outbox) (rowId : ℕ) : Decidable (outbox.Delivered rowId) :=
  decidable_of_iff ((outbox.rows.find? rowId).any (·.status = .delivered) = true) (by
    rw [Option.any_eq_true, Outbox.Delivered]
    simp only [decide_eq_true_eq])

instance (outbox : Outbox) (step : OutboxStep) : Decidable (ReportedStep outbox step) :=
  match step with
  | .lease .. => inferInstanceAs (Decidable (∀ row ∈ _, ∀ attempt ∈ _, _))
  | .crash _ => inferInstanceAs (Decidable (∀ attempt : Attempt, attempt ∈ _ → _ → ∀ result ∈ attempt.result, _))
  | .enqueue .. | .send .. | .report .. | .replay .. => inferInstanceAs (Decidable True)

instance ReportedAlong.decidable (settings : PushSettings) (outbox : Outbox) (steps : List OutboxStep) :
    Decidable (ReportedAlong settings outbox steps) :=
  match steps with
  | [] => inferInstanceAs (Decidable True)
  | step :: rest =>
      have := ReportedAlong.decidable settings (outbox.step settings step) rest
      inferInstanceAs (Decidable (_ ∧ _))

def defaultSettings : PushSettings := ⟨10, 120, fun _ _ => 60⟩

-- Two runs, the second after the first was written back.
def retriedSteps : List OutboxStep :=
  [.enqueue 1 0 false, .lease 0 [1] [], .send 0 1 ⟨"http_503", some 503⟩, .report 0 10, .lease 70 [1] [],
    .send 1 1 ⟨"", some 200⟩, .report 1 71]

theorem deliveries_final_retried :
    ReportedAlong defaultSettings emptyOutbox (retriedSteps ++ [.lease 600 [1] []]) ∧
    (emptyOutbox.run defaultSettings (retriedSteps ++ [.lease 600 [1] []])).Delivered 1 := by
  have hreported : ReportedAlong defaultSettings emptyOutbox (retriedSteps ++ [.lease 600 [1] []]) := by
    decide +kernel
  refine ⟨hreported, ?_⟩
  exact (deliveries_final defaultSettings retriedSteps [] _ hreported).1 1 (by decide +kernel)

-- The first run's batch takes longer than its lease; the second one delivers before the first reports its failure.
def overtakenSteps : List OutboxStep :=
  [.enqueue 1 0 false, .lease 0 [1] [], .lease 300 [1] [], .send 1 1 ⟨"", some 200⟩, .report 1 301,
    .send 0 1 ⟨"http_400", some 400⟩]

theorem delivered_row_given_up :
    (emptyOutbox.run defaultSettings overtakenSteps).Delivered 1 ∧
    ¬(emptyOutbox.run defaultSettings (overtakenSteps ++ [.report 0 310])).Delivered 1 := by
  decide +kernel

end Runs

end AgenticOrg.Push
