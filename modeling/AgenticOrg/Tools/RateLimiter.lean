import Mathlib.Algebra.Order.Field.Rat
import Mathlib.Tactic.FieldSimp
import Mathlib.Tactic.Linarith

namespace AgenticOrg.Tools.RateLimiter

section Script

-- The bucket of one key, as its hash holds it.
structure Bucket where
  tokens : ℚ
  lastRefill : ℚ
  deriving DecidableEq

structure Limit where
  capacity : ℚ
  refillRate : ℚ

structure Answer where
  allowed : Bool
  remaining : ℚ
  retryAfter : ℚ
  deriving DecidableEq

variable (limit : Limit)

-- The tokens that the script finds at `now`. A first request finds a full bucket.
def refilled (bucket : Option Bucket) (now : ℚ) : ℚ :=
  match bucket with
  | none => min limit.capacity (limit.capacity + max (now - now) 0 * limit.refillRate)
  | some bucket => min limit.capacity (bucket.tokens + max (now - bucket.lastRefill) 0 * limit.refillRate)

def evaluate (bucket : Option Bucket) (now : ℚ) : Answer × Bucket :=
  let tokens := refilled limit bucket now
  if 1 ≤ tokens then (⟨true, tokens - 1, 0⟩, ⟨tokens - 1, now⟩)
  else (⟨false, tokens, (1 - tokens) / limit.refillRate⟩, ⟨tokens, now⟩)

def run (bucket : Option Bucket) : List ℚ → List Answer × Option Bucket
  | [] => ([], bucket)
  | now :: rest =>
      let first := evaluate limit bucket now
      let later := run (some first.2) rest
      (first.1 :: later.1, later.2)

def allowedCount (answers : List Answer) : ℕ := answers.countP (·.allowed)

-- The limit of a rate in requests per minute.
def perMinute (rpm : ℕ) : Limit := ⟨rpm, rpm / 60⟩

end Script

section Readings

-- How far the readings go forward, each from the one before it.
def forward (last : ℚ) : List ℚ → ℚ
  | [] => 0
  | now :: rest => max (now - last) 0 + forward now rest

-- No reading is behind the one that the bucket holds.
def NeverBack (first : ℚ) (rest : List ℚ) : Prop := (first :: rest).IsChain (· ≤ ·)

def largest (first : ℚ) (rest : List ℚ) : ℚ := rest.foldl max first

def smallest (first : ℚ) (rest : List ℚ) : ℚ := rest.foldl min first

end Readings

section Steps

variable (limit : Limit) (bucket : Option Bucket) (now : ℚ)

theorem evaluate_allowed (h : 1 ≤ refilled limit bucket now) :
    evaluate limit bucket now =
      (⟨true, refilled limit bucket now - 1, 0⟩, ⟨refilled limit bucket now - 1, now⟩) := by
  unfold evaluate
  exact if_pos h

theorem evaluate_denied (h : ¬ 1 ≤ refilled limit bucket now) :
    evaluate limit bucket now =
      (⟨false, refilled limit bucket now, (1 - refilled limit bucket now) / limit.refillRate⟩,
        ⟨refilled limit bucket now, now⟩) := by
  unfold evaluate
  exact if_neg h

theorem allowed_iff : (evaluate limit bucket now).1.allowed = true ↔ 1 ≤ refilled limit bucket now := by
  by_cases h : 1 ≤ refilled limit bucket now
  · rw [evaluate_allowed limit bucket now h]
    exact iff_of_true rfl h
  · rw [evaluate_denied limit bucket now h]
    exact iff_of_false Bool.false_ne_true h

theorem lastRefill_evaluate : (evaluate limit bucket now).2.lastRefill = now := by
  by_cases h : 1 ≤ refilled limit bucket now
  · rw [evaluate_allowed limit bucket now h]
  · rw [evaluate_denied limit bucket now h]

-- What a call is allowed it pays from what the bucket holds.
theorem evaluate_pays :
    (if (evaluate limit bucket now).1.allowed then (1 : ℚ) else 0) + (evaluate limit bucket now).2.tokens =
      refilled limit bucket now := by
  by_cases h : 1 ≤ refilled limit bucket now
  · rw [evaluate_allowed limit bucket now h, if_pos rfl]
    exact add_sub_cancel _ _
  · rw [evaluate_denied limit bucket now h, if_neg Bool.false_ne_true]
    exact zero_add _

theorem refilled_le (held : Bucket) :
    refilled limit (some held) now ≤ held.tokens + limit.refillRate * max (now - held.lastRefill) 0 := by
  rw [mul_comm]
  exact min_le_right _ _

theorem refilled_nonneg (hc : 0 ≤ limit.capacity) (hr : 0 ≤ limit.refillRate)
    (hb : ∀ held ∈ bucket, 0 ≤ held.tokens) : 0 ≤ refilled limit bucket now := by
  cases bucket with
  | none => exact le_min hc (add_nonneg hc (mul_nonneg (le_max_right _ _) hr))
  | some held => exact le_min hc (add_nonneg (hb held rfl) (mul_nonneg (le_max_right _ _) hr))

theorem evaluate_nonneg (hc : 0 ≤ limit.capacity) (hr : 0 ≤ limit.refillRate)
    (hb : ∀ held ∈ bucket, 0 ≤ held.tokens) : 0 ≤ (evaluate limit bucket now).2.tokens := by
  by_cases h : 1 ≤ refilled limit bucket now
  · rw [evaluate_allowed limit bucket now h]
    exact sub_nonneg.mpr h
  · rw [evaluate_denied limit bucket now h]
    exact refilled_nonneg limit bucket now hc hr hb

-- After a refusal, the told time is when the next call is allowed, and not before.
theorem retryAfter_exact (hc : 1 ≤ limit.capacity) (hr : 0 < limit.refillRate)
    (hdenied : (evaluate limit bucket now).1.allowed = false) :
    0 < (evaluate limit bucket now).1.retryAfter ∧
      ∀ wait, 0 ≤ wait →
        ((evaluate limit (some (evaluate limit bucket now).2) (now + wait)).1.allowed = true ↔
          (evaluate limit bucket now).1.retryAfter ≤ wait) := by
  have hfew : ¬ 1 ≤ refilled limit bucket now := by
    rw [← allowed_iff, hdenied]
    exact Bool.false_ne_true
  rw [evaluate_denied limit bucket now hfew]
  refine ⟨div_pos (sub_pos.mpr (not_le.mp hfew)) hr, ?_⟩
  intro wait hw
  have helapsed : max (now + wait - now) 0 = wait := by
    rw [add_sub_cancel_left]
    exact max_eq_left hw
  rw [allowed_iff, refilled, helapsed, le_min_iff, and_iff_right hc, div_le_iff₀ hr, sub_le_iff_le_add']

end Steps

section Runs

variable (limit : Limit)

theorem allowedCount_cons (answer : Answer) (answers : List Answer) :
    (allowedCount (answer :: answers) : ℚ) = (if answer.allowed then 1 else 0) + allowedCount answers := by
  unfold allowedCount
  rw [List.countP_cons]
  cases answer.allowed with
  | true => simp [add_comm]
  | false => simp

-- Every run pays what it is allowed from the bucket and from the time that its readings go forward.
theorem run_pays (hc : 0 ≤ limit.capacity) (hr : 0 ≤ limit.refillRate) (held : Bucket) (hh : 0 ≤ held.tokens)
    (nows : List ℚ) :
    (allowedCount (run limit (some held) nows).1 : ℚ) ≤
      held.tokens + limit.refillRate * forward held.lastRefill nows := by
  induction nows generalizing held with
  | nil =>
      rw [run, forward, mul_zero, add_zero]
      simpa [allowedCount] using hh
  | cons now rest ih =>
      have hnonneg := evaluate_nonneg limit (some held) now hc hr fun other ho => by rwa [← Option.some.inj ho]
      have hlater := ih (evaluate limit (some held) now).2 hnonneg
      have hpays := evaluate_pays limit (some held) now
      have hfound := refilled_le limit now held
      rw [run, allowedCount_cons, forward, mul_add]
      rw [lastRefill_evaluate] at hlater
      linarith

-- The first request finds a full bucket.
theorem run_none_pays (hc : 0 ≤ limit.capacity) (hr : 0 ≤ limit.refillRate) (first : ℚ) (rest : List ℚ) :
    (allowedCount (run limit none (first :: rest)).1 : ℚ) ≤
      limit.capacity + limit.refillRate * forward first rest := by
  have h := run_pays limit hc hr ⟨limit.capacity, first⟩ hc (first :: rest)
  rw [forward, sub_self, max_self, zero_add] at h
  exact h

end Runs

section Clocks

variable (limit : Limit)

theorem foldl_min_eq (first : ℚ) (rest : List ℚ) (h : ∀ now ∈ rest, first ≤ now) : rest.foldl min first = first := by
  induction rest with
  | nil => rfl
  | cons now rest ih =>
      rw [List.foldl_cons, min_eq_left (h now List.mem_cons_self)]
      exact ih fun other ho => h other (List.mem_cons_of_mem _ ho)

theorem forward_of_neverBack (first : ℚ) (rest : List ℚ) (h : NeverBack first rest) :
    forward first rest = largest first rest - first := by
  unfold largest
  induction rest generalizing first with
  | nil => simp [forward]
  | cons now rest ih =>
      obtain ⟨hle, hrest⟩ := List.isChain_cons_cons.mp h
      rw [forward, List.foldl_cons, max_eq_right hle, ih now hrest, max_eq_left (sub_nonneg.mpr hle)]
      linarith

theorem smallest_of_neverBack (first : ℚ) (rest : List ℚ) (h : NeverBack first rest) : smallest first rest = first :=
  foldl_min_eq first rest (List.pairwise_cons.mp (List.isChain_iff_pairwise.mp h)).1

-- The bound holds of every run whose readings never step back, and what a refused call is told holds of every run.
theorem run_bounded (hc : 1 ≤ limit.capacity) (hr : 0 < limit.refillRate) (first : ℚ) (rest : List ℚ) :
    (NeverBack first rest → (allowedCount (run limit none (first :: rest)).1 : ℚ) ≤
      limit.capacity + limit.refillRate * (largest first rest - smallest first rest)) ∧
    ∀ before now,
      (evaluate limit (run limit none before).2 now).1.allowed = false →
        0 < (evaluate limit (run limit none before).2 now).1.retryAfter ∧
          ∀ wait, 0 ≤ wait →
            ((evaluate limit (some (evaluate limit (run limit none before).2 now).2) (now + wait)).1.allowed = true ↔
              (evaluate limit (run limit none before).2 now).1.retryAfter ≤ wait) := by
  refine ⟨?_, ?_⟩
  · intro hforward
    have hpays := run_none_pays limit (by linarith) hr.le first rest
    rw [smallest_of_neverBack first rest hforward, ← forward_of_neverBack first rest hforward]
    exact hpays
  · intro before now hdenied
    exact retryAfter_exact limit _ now hc hr hdenied

theorem run_bounded_perMinute :
    (allowedCount (run (perMinute 60) none [0, 0, 1]).1 : ℚ) ≤ 60 + 60 / 60 * (1 - 0) := by
  have h := (run_bounded (perMinute 60) (by norm_num [perMinute]) (by norm_num [perMinute]) 0 [0, 1]).1 (by simp [NeverBack])
  simpa [perMinute, largest, smallest] using h

-- Two clocks a minute apart: each step back lets the same minute be credited again.
theorem run_unbounded :
    ¬ (allowedCount (run (perMinute 1) none [60, 0, 60, 0, 60]).1 : ℚ) ≤
      (perMinute 1).capacity + (perMinute 1).refillRate * (largest 60 [0, 60, 0, 60] - smallest 60 [0, 60, 0, 60]) := by
  have hcount : allowedCount (run (perMinute 1) none [60, 0, 60, 0, 60]).1 = 3 := by decide +kernel
  rw [hcount]
  decide +kernel

end Clocks

end AgenticOrg.Tools.RateLimiter
