import Mathlib.Data.List.Nodup
import AgenticOrg.Tools.Gateway

namespace AgenticOrg.Tools

section Statements

-- What an event says of the results stored before it, until their time is over: no call gets the key or invokes the
-- connector, and every call that reads the key gets the result.
def Sound : CallEvent → List CallEvent → Prop
  | .reserved _ at_, earlier => ∀ id result storedAt, .stored id result storedAt ∈ earlier →
      storedAt + IDEMPOTENCY_TTL ≤ at_
  | .invoked _ at_, earlier => ∀ id result storedAt, .stored id result storedAt ∈ earlier →
      storedAt + IDEMPOTENCY_TTL ≤ at_
  | .replied _ cached at_, earlier => ∀ id result storedAt, .stored id result storedAt ∈ earlier →
      at_ < storedAt + IDEMPOTENCY_TTL → cached = some result
  | .stored .., _ => True

def SoundAlong : List CallEvent → Prop
  | [] => True
  | event :: earlier => Sound event earlier ∧ SoundAlong earlier

structure ExactlyOnce (gateway : Gateway) : Prop where
  alone : gateway.calls.countP (·.stage = .invoking) ≤ 1
  sound : SoundAlong gateway.history

-- `reserve` can tell the result from a reservation.
def ToolResult.replayable : ToolResult → Bool
  | .null => false
  | .dict _ pending _ => !pending
  | .other _ => true

-- The audit row of an invocation is written, what is stored can be replayed, and no reply to it is lost.
def RecordedStep (gateway : Gateway) : CallStep → Prop
  | .audit id written => (gateway.find id .recorded).isSome = true → written = true
  | .record id result => (gateway.find id (.returned result)).isSome = true → result.failed = false →
      result.replayable = true
  | .recordLost id result => (gateway.find id (.returned result)).isSome = false
  | _ => True

def RecordedAlong (gateway : Gateway) : List CallStep → Prop
  | [] => True
  | step :: rest => RecordedStep gateway step ∧ RecordedAlong (gateway.step step) rest

end Statements

section Invariants

structure GatewayInvariant (gateway : Gateway) : Prop where
  distinct : (gateway.calls.map (·.id)).Nodup
  below : ∀ call ∈ gateway.calls, call.id < gateway.next
  holds : ∀ call ∈ gateway.calls, call.holding = true →
    gateway.entry = some ⟨.pending, call.reservedAt + RESERVATION_TTL, call.id⟩ ∧
      gateway.clock < call.reservedAt + RESERVATION_TTL
  kept : ∀ id result at_, .stored id result at_ ∈ gateway.history → at_ + IDEMPOTENCY_TTL ≤ gateway.clock ∨
    (gateway.entry = some ⟨.result result, at_ + IDEMPOTENCY_TTL, id⟩ ∧ result.replayable = true)
  sound : SoundAlong gateway.history

variable {gateway : Gateway}

theorem NewGateway.gatewayInvariant (h : NewGateway gateway) : GatewayInvariant gateway := by
  refine ⟨?_, fun call hc => ?_, fun call hc => ?_, fun id result at_ hs => ?_, ?_⟩
  · rw [h.calls]
    exact List.nodup_nil
  · rw [h.calls] at hc
    cases hc
  · rw [h.calls] at hc
    cases hc
  · rw [h.history] at hs
    cases hs
  · rw [h.history]
    trivial

theorem mem_find (id : ℕ) (stage : CallStage) (call : Call) (h : gateway.find id stage = some call) :
    call ∈ gateway.calls ∧ call.id = id ∧ call.stage = stage := by
  refine ⟨List.mem_of_find?_eq_some h, ?_⟩
  simpa using List.find?_some h

theorem nodup_drop (h : GatewayInvariant gateway) (id : ℕ) : ((gateway.drop id).calls.map (·.id)).Nodup :=
  (List.filter_sublist.map _).nodup h.distinct

theorem nodup_setStage (h : GatewayInvariant gateway) (call : Call) (stage : CallStage) :
    ((gateway.setStage call stage).calls.map (·.id)).Nodup := by
  change (call.id :: (gateway.drop call.id).calls.map (·.id)).Nodup
  rw [List.nodup_cons]
  refine ⟨fun hm => ?_, nodup_drop h call.id⟩
  obtain ⟨other, ho, hid⟩ := List.mem_map.mp hm
  exact of_decide_eq_true (List.mem_filter.mp ho).2 hid

theorem mem_setStage (call other : Call) (stage : CallStage) (h : other ∈ (gateway.setStage call stage).calls) :
    other = { call with stage } ∨ (other ∈ gateway.calls ∧ other.id ≠ call.id) := by
  rcases List.mem_cons.mp h with h | h
  · exact .inl h
  · obtain ⟨ho, hne⟩ := List.mem_filter.mp h
    exact .inr ⟨ho, of_decide_eq_true hne⟩

theorem mem_drop (id : ℕ) (other : Call) (h : other ∈ (gateway.drop id).calls) :
    other ∈ gateway.calls ∧ other.id ≠ id := by
  obtain ⟨ho, hne⟩ := List.mem_filter.mp h
  exact ⟨ho, of_decide_eq_true hne⟩

-- Two calls cannot both have the key.
theorem GatewayInvariant.holding_unique (h : GatewayInvariant gateway) (call other : Call) (hc : call ∈ gateway.calls)
    (ho : other ∈ gateway.calls) (hcall : call.holding = true) (hother : other.holding = true) :
    other.id = call.id := by
  have hentry := (h.holds call hc hcall).1
  rw [(h.holds other ho hother).1, Option.some.injEq, Entry.mk.injEq] at hentry
  exact hentry.2.2

theorem GatewayInvariant.alone (h : GatewayInvariant gateway) :
    gateway.calls.countP (·.stage = .invoking) ≤ 1 := by
  by_cases hany : ∃ call ∈ gateway.calls, call.stage = .invoking
  · obtain ⟨call, hc, hstage⟩ := hany
    have hcall : call.holding = true := by rw [Call.holding, hstage]
    have hle : gateway.calls.countP (·.stage = .invoking) ≤ (gateway.calls.map (·.id)).count call.id := by
      rw [List.count, List.countP_map]
      refine List.countP_mono_left fun other ho hinvoking => ?_
      have hother : other.holding = true := by rw [Call.holding, of_decide_eq_true hinvoking]
      simp [h.holding_unique call other hc ho hcall hother]
    exact hle.trans (List.nodup_iff_count_le_one.mp h.distinct call.id)
  · have hzero : gateway.calls.countP (·.stage = .invoking) = 0 := by
      rw [List.countP_eq_zero]
      intro call hc hstage
      exact hany ⟨call, hc, of_decide_eq_true hstage⟩
    omega

-- While a call has the key every stored result has had its time.
theorem GatewayInvariant.over (h : GatewayInvariant gateway) (call : Call) (hc : call ∈ gateway.calls)
    (hcall : call.holding = true) (id : ℕ) (result : ToolResult) (at_ : ℤ)
    (hs : .stored id result at_ ∈ gateway.history) : at_ + IDEMPOTENCY_TTL ≤ gateway.clock := by
  rcases h.kept id result at_ hs with hover | ⟨hentry, _⟩
  · exact hover
  · rw [(h.holds call hc hcall).1, Option.some.injEq, Entry.mk.injEq] at hentry
    cases hentry.1

-- A key that is free has no call and no result that counts.
theorem GatewayInvariant.free (h : GatewayInvariant gateway) (hfree : gateway.entry? = none) :
    (∀ call ∈ gateway.calls, call.holding = false) ∧
      ∀ id result at_, .stored id result at_ ∈ gateway.history → at_ + IDEMPOTENCY_TTL ≤ gateway.clock := by
  have hexpired : ∀ entry, gateway.entry = some entry → entry.expiresAt ≤ gateway.clock := by
    intro entry he
    rw [Gateway.entry?, he, Option.filter_some] at hfree
    by_contra hlt
    rw [if_pos (decide_eq_true (by omega))] at hfree
    cases hfree
  refine ⟨fun call hc => ?_, fun id result at_ hs => ?_⟩
  · rw [← Bool.not_eq_true]
    intro hcall
    obtain ⟨he, hlive⟩ := h.holds call hc hcall
    have hle : call.reservedAt + RESERVATION_TTL ≤ gateway.clock := hexpired _ he
    omega
  · rcases h.kept id result at_ hs with hover | ⟨he, _⟩
    · exact hover
    · exact hexpired _ he

-- A call that has the key goes on with it.
theorem GatewayInvariant.move (h : GatewayInvariant gateway) (call : Call) (stage : CallStage)
    (hc : call ∈ gateway.calls) (hcall : call.holding = true ∨ ({ call with stage } : Call).holding = false) :
    GatewayInvariant (gateway.setStage call stage) := by
  refine ⟨nodup_setStage h call stage, fun other ho => ?_, fun other ho hother => ?_, h.kept, h.sound⟩
  · rcases mem_setStage call other stage ho with rfl | ⟨ho, _⟩
    · exact h.below call hc
    · exact h.below other ho
  · rcases mem_setStage call other stage ho with rfl | ⟨ho, _⟩
    · rcases hcall with hcall | hcall
      · exact h.holds call hc hcall
      · rw [hcall] at hother
        cases hother
    · exact h.holds other ho hother

theorem GatewayInvariant.drop (h : GatewayInvariant gateway) (id : ℕ) : GatewayInvariant (gateway.drop id) :=
  ⟨nodup_drop h id, fun other ho => h.below other (mem_drop id other ho).1,
    fun other ho hother => h.holds other (mem_drop id other ho).1 hother, h.kept, h.sound⟩

-- The call that has the key gives it up or leaves a result.
theorem GatewayInvariant.leave (h : GatewayInvariant gateway) (later : Gateway) (call : Call)
    (hc : call ∈ gateway.calls) (hcall : call.holding = true) (hclock : later.clock = gateway.clock)
    (hdistinct : (later.calls.map (·.id)).Nodup) (hbelow : ∀ other ∈ later.calls, other.id < later.next)
    (hcalls : ∀ other ∈ later.calls, other.holding = true → other ∈ gateway.calls ∧ other.id ≠ call.id)
    (hkept : ∀ id result at_, .stored id result at_ ∈ later.history → .stored id result at_ ∈ gateway.history ∨
      (later.entry = some ⟨.result result, at_ + IDEMPOTENCY_TTL, id⟩ ∧ result.replayable = true))
    (hsound : SoundAlong later.history) : GatewayInvariant later := by
  refine ⟨hdistinct, hbelow, fun other ho hother => ?_, fun id result at_ hs => ?_, hsound⟩
  · obtain ⟨ho, hne⟩ := hcalls other ho hother
    exact absurd (h.holding_unique call other hc ho hcall hother) hne
  · rcases hkept id result at_ hs with hs | hs
    · rw [hclock]
      exact .inl (h.over call hc hcall id result at_ hs)
    · exact .inr hs

theorem GatewayInvariant.record (h : GatewayInvariant gateway) (call : Call) (result : ToolResult)
    (hc : call ∈ gateway.calls) (hcall : call.holding = true)
    (hreplayable : result.failed = false → result.replayable = true) :
    GatewayInvariant (gateway.record call result .recorded) := by
  have hbelow : ∀ other ∈ (gateway.setStage call .recorded).calls, other.id < gateway.next := by
    intro other ho
    rcases mem_setStage call other .recorded ho with rfl | ⟨ho, _⟩
    · exact h.below call hc
    · exact h.below other ho
  have hcalls : ∀ other ∈ (gateway.setStage call .recorded).calls, other.holding = true →
      other ∈ gateway.calls ∧ other.id ≠ call.id := by
    intro other ho hother
    rcases mem_setStage call other .recorded ho with rfl | ho
    · cases hother
    · exact ho
  unfold Gateway.record
  split_ifs with hfailed
  · exact h.leave _ call hc hcall rfl (nodup_setStage h call .recorded) hbelow hcalls (fun id result' at_ hs => .inl hs)
      h.sound
  · refine h.leave _ call hc hcall rfl (nodup_setStage h call .recorded) hbelow hcalls
      (fun id result' at_ hs => ?_) ⟨trivial, h.sound⟩
    rcases List.mem_cons.mp hs with he | hs
    · cases he
      rw [Bool.not_eq_true] at hfailed
      exact .inr ⟨rfl, hreplayable hfailed⟩
    · exact .inl hs

theorem GatewayInvariant.release (h : GatewayInvariant gateway) (call : Call) (hc : call ∈ gateway.calls)
    (hcall : call.holding = true) : GatewayInvariant { gateway.drop call.id with entry := none } :=
  h.leave _ call hc hcall rfl (nodup_drop h call.id) (fun other ho => h.below other (mem_drop call.id other ho).1)
    (fun other ho _ => mem_drop call.id other ho) (fun _ _ _ hs => .inl hs) h.sound

theorem GatewayInvariant.reserve (h : GatewayInvariant gateway) (call : Call) (hc : call ∈ gateway.calls) :
    GatewayInvariant (gateway.reserve call) := by
  unfold Gateway.reserve
  split
  · exact h.move call .taken hc (.inr rfl)
  · rename_i hfree
    obtain ⟨hnone, hover⟩ := h.free hfree
    refine ⟨nodup_setStage h { call with reservedAt := gateway.clock } .reserved, fun other ho => ?_,
      fun other ho hother => ?_, fun id result at_ hs => ?_, ⟨hover, h.sound⟩⟩
    · rcases mem_setStage _ other .reserved ho with rfl | ⟨ho, _⟩
      · exact h.below call hc
      · exact h.below other ho
    · rcases mem_setStage _ other .reserved ho with rfl | ⟨ho, _⟩
      · refine ⟨rfl, ?_⟩
        change gateway.clock < gateway.clock + RESERVATION_TTL
        simp [RESERVATION_TTL]
      · rw [hnone other ho] at hother
        cases hother
    · rcases List.mem_cons.mp hs with he | hs
      · cases he
      · exact .inl (hover id result at_ hs)

-- A result that can be replayed is what the next call reads.
theorem cached_result (result : ToolResult) (at_ : ℤ) (id : ℕ) (h : result.replayable = true) :
    Entry.cached ⟨.result result, at_, id⟩ = some result := by
  cases result with
  | null => cases h
  | dict error pending text =>
      rw [ToolResult.replayable, Bool.not_eq_true'] at h
      rw [Entry.cached, h]
      rfl
  | other text => rfl

theorem GatewayInvariant.read (h : GatewayInvariant gateway) (call : Call) :
    GatewayInvariant ((gateway.drop call.id).log
      (.replied call.id (gateway.entry?.bind Entry.cached) gateway.clock)) := by
  have hd := h.drop call.id
  refine ⟨hd.distinct, hd.below, hd.holds, fun id result at_ hs => ?_, ⟨fun id result at_ hs hlive => ?_, h.sound⟩⟩
  · rcases List.mem_cons.mp hs with he | hs
    · cases he
    · exact h.kept id result at_ hs
  · rcases h.kept id result at_ hs with hover | ⟨he, hreplayable⟩
    · omega
    · rw [Gateway.entry?, he, Option.filter_some, if_pos (decide_eq_true hlive), Option.bind_some]
      exact cached_result result _ id hreplayable

theorem GatewayInvariant.invoke (h : GatewayInvariant gateway) (call : Call) (hc : call ∈ gateway.calls)
    (hcall : call.holding = true) :
    GatewayInvariant ((gateway.setStage call .invoking).log (.invoked call.id gateway.clock)) := by
  have hm := h.move call .invoking hc (.inl hcall)
  refine ⟨hm.distinct, hm.below, hm.holds, fun id result at_ hs => ?_, ⟨h.over call hc hcall, h.sound⟩⟩
  rcases List.mem_cons.mp hs with he | hs
  · cases he
  · exact h.kept id result at_ hs

theorem GatewayInvariant.tick (h : GatewayInvariant gateway) (elapsed : ℕ)
    (htimely : TimelyStep gateway (.tick elapsed)) :
    GatewayInvariant { gateway with clock := gateway.clock + elapsed } := by
  refine ⟨h.distinct, h.below, fun call hc hcall => ⟨(h.holds call hc hcall).1, ?_⟩, fun id result at_ hs => ?_,
    h.sound⟩
  · refine htimely call hc (fun hs => ?_) fun hs => ?_
    · rw [Call.holding, hs] at hcall
      cases hcall
    · rw [Call.holding, hs] at hcall
      cases hcall
  · rcases h.kept id result at_ hs with hover | hs
    · refine .inl ?_
      change at_ + IDEMPOTENCY_TTL ≤ gateway.clock + elapsed
      omega
    · exact .inr hs

theorem GatewayInvariant.begin (h : GatewayInvariant gateway) : GatewayInvariant (gateway.step .begin) := by
  refine ⟨?_, fun call hc => ?_, fun call hc hcall => ?_, h.kept, h.sound⟩
  · change (gateway.next :: gateway.calls.map (·.id)).Nodup
    rw [List.nodup_cons]
    refine ⟨fun hm => ?_, h.distinct⟩
    obtain ⟨call, hc, hid⟩ := List.mem_map.mp hm
    have := h.below call hc
    omega
  · rcases List.mem_cons.mp hc with rfl | hc
    · exact Nat.lt_succ_self _
    · exact Nat.lt_succ_of_lt (h.below call hc)
  · rcases List.mem_cons.mp hc with rfl | hc
    · cases hcall
    · exact h.holds call hc hcall

theorem GatewayInvariant.step (h : GatewayInvariant gateway) (step : CallStep) (htimely : TimelyStep gateway step)
    (hrecorded : RecordedStep gateway step) : GatewayInvariant (gateway.step step) := by
  cases step with
  | tick elapsed => exact h.tick elapsed htimely
  | begin => exact h.begin
  | reserve id =>
      unfold Gateway.step
      dsimp only
      split
      · rename_i call hfind
        exact h.reserve call (mem_find id _ call hfind).1
      · exact h
  | read id =>
      unfold Gateway.step
      dsimp only
      split
      · rename_i call hfind
        exact h.read call
      · exact h
  | refuse id =>
      unfold Gateway.step
      dsimp only
      split
      · rename_i call hfind
        obtain ⟨hc, _, hstage⟩ := mem_find id _ call hfind
        exact h.move call .refused hc (.inl (by rw [Call.holding, hstage]))
      · exact h
  | invoke id =>
      unfold Gateway.step
      dsimp only
      split
      · rename_i call hfind
        obtain ⟨hc, _, hstage⟩ := mem_find id _ call hfind
        exact h.invoke call hc (by rw [Call.holding, hstage])
      · exact h
  | returns id result =>
      unfold Gateway.step
      dsimp only
      split
      · rename_i call hfind
        obtain ⟨hc, _, hstage⟩ := mem_find id _ call hfind
        exact h.move call (.returned result) hc (.inl (by rw [Call.holding, hstage]))
      · exact h
  | raises id =>
      unfold Gateway.step
      dsimp only
      split
      · rename_i call hfind
        obtain ⟨hc, _, hstage⟩ := mem_find id _ call hfind
        exact h.move call .failing hc (.inl (by rw [Call.holding, hstage]))
      · exact h
  | record id result =>
      unfold Gateway.step
      dsimp only
      split
      · rename_i call hfind
        obtain ⟨hc, _, hstage⟩ := mem_find id _ call hfind
        exact h.record call result hc (by rw [Call.holding, hstage]) (hrecorded (by rw [hfind]; rfl))
      · exact h
  | recordFails id result =>
      unfold Gateway.step
      dsimp only
      split
      · rename_i call hfind
        obtain ⟨hc, _, hstage⟩ := mem_find id _ call hfind
        exact h.move call .failing hc (.inl (by rw [Call.holding, hstage]))
      · exact h
  | recordLost id result =>
      unfold Gateway.step
      dsimp only
      split
      · rename_i call hfind
        have hkept : (gateway.find id (.returned result)).isSome = false := hrecorded
        rw [hfind] at hkept
        cases hkept
      · exact h
  | audit id written =>
      unfold Gateway.step
      dsimp only
      split
      · rename_i call hfind
        rw [hrecorded (by rw [hfind]; rfl)]
        exact h.drop call.id
      · exact h
  | release id stage =>
      unfold Gateway.step
      dsimp only
      split
      · rename_i call hfind
        obtain ⟨hc, _, _⟩ := mem_find id _ call hfind
        split_ifs with hstage
        · refine h.release call hc ?_
          rcases hstage with hs | hs
          · rw [Call.holding, hs]
          · rw [Call.holding, hs]
        · exact h
      · exact h
  | abandon id => exact h.drop id

theorem GatewayInvariant.run (h : GatewayInvariant gateway) (steps : List CallStep)
    (htimely : TimelyAlong gateway steps) (hrecorded : RecordedAlong gateway steps) :
    GatewayInvariant (gateway.run steps) := by
  induction steps generalizing gateway with
  | nil => exact h
  | cons step rest ih => exact ih (h.step step htimely.1 hrecorded.1) htimely.2 hrecorded.2

end Invariants

section Theorems

-- In a run whose audit rows are written and whose results can be told from reservations, one invocation is in flight
-- at most and a stored result is the last word until its time is over.
theorem calls_exactly_once (gateway : Gateway) (steps : List CallStep) (hnew : NewGateway gateway)
    (htimely : TimelyAlong gateway steps) (hrecorded : RecordedAlong gateway steps) :
    ExactlyOnce (gateway.run steps) := by
  have h := hnew.gatewayInvariant.run steps htimely hrecorded
  exact ⟨h.alone, h.sound⟩

end Theorems

section Examples

instance (gateway : Gateway) (step : CallStep) : Decidable (TimelyStep gateway step) :=
  match step with
  | .tick _ => inferInstanceAs (Decidable (∀ call ∈ gateway.calls, _ → _ → _))
  | .begin | .reserve _ | .read _ | .refuse _ | .invoke _ | .returns .. | .raises _ | .record .. | .recordFails ..
  | .recordLost .. | .audit .. | .release .. | .abandon _ => .isTrue trivial

instance (gateway : Gateway) (step : CallStep) : Decidable (RecordedStep gateway step) :=
  match step with
  | .audit .. => inferInstanceAs (Decidable (_ → _))
  | .record .. => inferInstanceAs (Decidable (_ → _ → _))
  | .recordLost .. => inferInstanceAs (Decidable (_ = false))
  | .tick _ | .begin | .reserve _ | .read _ | .refuse _ | .invoke _ | .returns .. | .raises _ | .recordFails ..
  | .release .. | .abandon _ => .isTrue trivial

def decideTimelyAlong (gateway : Gateway) : (steps : List CallStep) → Decidable (TimelyAlong gateway steps)
  | [] => .isTrue trivial
  | step :: rest =>
      have := decideTimelyAlong (gateway.step step) rest
      inferInstanceAs (Decidable (_ ∧ _))

instance (gateway : Gateway) (steps : List CallStep) : Decidable (TimelyAlong gateway steps) :=
  decideTimelyAlong gateway steps

def decideRecordedAlong (gateway : Gateway) : (steps : List CallStep) → Decidable (RecordedAlong gateway steps)
  | [] => .isTrue trivial
  | step :: rest =>
      have := decideRecordedAlong (gateway.step step) rest
      inferInstanceAs (Decidable (_ ∧ _))

instance (gateway : Gateway) (steps : List CallStep) : Decidable (RecordedAlong gateway steps) :=
  decideRecordedAlong gateway steps

def newGateway : Gateway := ⟨0, none, [], 0, []⟩

theorem newGateway_new : NewGateway newGateway := ⟨rfl, rfl, rfl⟩

def sent : ToolResult := .dict false false "sent"

-- A call that stores its result, and a retry that came while it ran.
def overlapped : List CallStep :=
  [.begin, .reserve 0, .begin, .reserve 1, .invoke 0, .tick 20, .returns 0 sent, .record 0 sent, .audit 0 true, .read 1]

theorem calls_exactly_once_overlapped :
    ExactlyOnce (newGateway.run overlapped) ∧
      (newGateway.run overlapped).history =
        [.replied 1 (some sent) 20, .stored 0 sent 20, .invoked 0 0, .reserved 0 0] :=
  ⟨calls_exactly_once newGateway overlapped newGateway_new (by decide +kernel) (by decide +kernel),
    by decide +kernel⟩

-- The audit row cannot be written, so the stored result is deleted with the reservation and a retry sends again.
def auditFailed : List CallStep :=
  [.begin, .reserve 0, .invoke 0, .returns 0 sent, .record 0 sent, .audit 0 false, .release 0 .failing,
    .begin, .reserve 1, .invoke 1]

theorem invoked_again_after_audit :
    ¬∀ (gateway : Gateway) (steps : List CallStep), NewGateway gateway → TimelyAlong gateway steps →
      ExactlyOnce (gateway.run steps) := by
  intro h
  have hsound := (h newGateway auditFailed newGateway_new (by decide +kernel)).sound
  have hhistory : (newGateway.run auditFailed).history =
      [.invoked 1 0, .reserved 1 0, .stored 0 sent 0, .invoked 0 0, .reserved 0 0] := by decide +kernel
  rw [hhistory] at hsound
  have hover := hsound.1 0 sent 0 (by simp)
  simp [IDEMPOTENCY_TTL] at hover

end Examples

end AgenticOrg.Tools
