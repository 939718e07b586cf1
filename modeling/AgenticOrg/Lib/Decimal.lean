import Mathlib.Data.Int.Log
import Mathlib.Data.Rat.Floor
import Mathlib.Algebra.BigOperators.Group.List.Basic
import Mathlib.Algebra.Order.BigOperators.Group.List

namespace Decimals

section Rounding

-- The nearest integer, of two equally near ones the even one.
def halfEven (x : ℚ) : ℤ :=
  let low := ⌊x⌋
  if x - low < 1 / 2 then low
  else if 1 / 2 < x - low then low + 1
  else if low % 2 = 0 then low else low + 1

-- A value kept to a number of significant decimal digits.
def rounded (digits : ℕ) (x : ℚ) : ℚ :=
  let exponent : ℤ := Int.log 10 |x| + 1 - digits
  halfEven (x / 10 ^ exponent) * 10 ^ exponent

-- `abs` of a decimal, which rounds as well.
def absolute (digits : ℕ) (x : ℚ) : ℚ := rounded digits |x|

-- A value kept to a number of decimal places.
def quantized (places : ℕ) (x : ℚ) : ℚ := halfEven (x * 10 ^ places) / 10 ^ places

-- The next integer away from zero.
def awayFromZero (x : ℚ) : ℤ := if 0 ≤ x then ⌈x⌉ else ⌊x⌋

-- A value kept to a number of decimal places, never nearer to zero than it is.
def quantizedUp (places : ℕ) (x : ℚ) : ℚ := awayFromZero (x * 10 ^ places) / 10 ^ places

theorem halfEven_intCast (n : ℤ) : halfEven (n : ℚ) = n := by
  simp [halfEven]

-- The nearest integer to a quotient, from the integer quotient and what it leaves.
theorem halfEven_div (n : ℤ) (d : ℕ) (hd : 0 < d) :
    halfEven ((n : ℚ) / d) =
      if 2 * (n % d) < d then n / d else if d < 2 * (n % d) then n / d + 1
      else if n / d % 2 = 0 then n / d else n / d + 1 := by
  have hq : (0 : ℚ) < d := by exact_mod_cast hd
  have hfloor : ⌊(n : ℚ) / d⌋ = n / d := Rat.floor_intCast_div_natCast n d
  have hrest : (n : ℚ) / d - (n / d : ℤ) = (n % d : ℤ) / d := by
    have hsplit : (n : ℚ) = d * (n / d : ℤ) + (n % d : ℤ) := by exact_mod_cast (Int.mul_ediv_add_emod n d).symm
    rw [eq_div_iff hq.ne', sub_mul, div_mul_cancel₀ _ hq.ne']
    linarith
  have hlow : ((n % d : ℤ) : ℚ) / d < 1 / 2 ↔ 2 * (n % d) < d := by
    rw [div_lt_div_iff₀ hq two_pos, one_mul, mul_comm]
    exact_mod_cast Iff.rfl
  have hhigh : 1 / 2 < ((n % d : ℤ) : ℚ) / d ↔ d < 2 * (n % d) := by
    rw [div_lt_div_iff₀ two_pos hq, one_mul, mul_comm ((n % d : ℤ) : ℚ)]
    exact_mod_cast Iff.rfl
  unfold halfEven
  dsimp only
  rw [hfloor, hrest]
  simp only [hlow, hhigh]

-- A whole number of units of the given power of ten.
def Multiple (power : ℤ) (x : ℚ) : Prop := ∃ n : ℤ, x = n * 10 ^ power

theorem Multiple.zero (power : ℤ) : Multiple power 0 := ⟨0, by simp⟩

theorem Multiple.add (power : ℤ) (x y : ℚ) (hx : Multiple power x) (hy : Multiple power y) :
    Multiple power (x + y) := by
  obtain ⟨n, rfl⟩ := hx
  obtain ⟨m, rfl⟩ := hy
  exact ⟨n + m, by push_cast; ring⟩

theorem Multiple.sum (power : ℤ) (xs : List ℚ) (h : ∀ x ∈ xs, Multiple power x) :
    Multiple power xs.sum := by
  induction xs with
  | nil => exact Multiple.zero power
  | cons x rest ih =>
      rw [List.sum_cons]
      exact Multiple.add power x rest.sum (h x List.mem_cons_self)
        (ih fun y hy => h y (List.mem_cons_of_mem _ hy))

-- What has no more than the digits kept is kept exactly.
theorem rounded_of_multiple (digits : ℕ) (power : ℤ) (x : ℚ) (hm : Multiple power x)
    (hb : |x| < 10 ^ (digits + power)) : rounded digits x = x := by
  obtain ⟨n, hn⟩ := hm
  by_cases hx : x = 0
  · rw [hx]
    simp [rounded, halfEven]
  · have hpos : 0 < |x| := abs_pos.mpr hx
    have hlog : Int.log 10 |x| < digits + power :=
      (Int.lt_zpow_iff_log_lt (by norm_num) hpos).mp (by exact_mod_cast hb)
    have hten : (10 : ℚ) ≠ 0 := by norm_num
    -- the unit kept divides the unit of the value
    obtain ⟨k, hk⟩ : ∃ k : ℕ, power = Int.log 10 |x| + 1 - digits + k :=
      ⟨(power - (Int.log 10 |x| + 1 - digits)).toNat, by omega⟩
    have hint : x / 10 ^ (Int.log 10 |x| + 1 - digits : ℤ) = ((n * 10 ^ k : ℤ) : ℚ) := by
      rw [div_eq_iff (zpow_ne_zero _ hten)]
      conv_lhs => rw [hn, hk, zpow_add₀ hten, zpow_natCast]
      push_cast
      ring
    unfold rounded
    dsimp only
    rw [hint, halfEven_intCast, ← hint, div_mul_cancel₀ _ (zpow_ne_zero _ hten)]

theorem le_halfEven (n : ℤ) (x : ℚ) (h : (n : ℚ) ≤ x) : n ≤ halfEven x := by
  have hlow : n ≤ ⌊x⌋ := Int.le_floor.mpr h
  unfold halfEven
  dsimp only
  split_ifs <;> omega

theorem halfEven_le (n : ℤ) (x : ℚ) (h : x ≤ n) : halfEven x ≤ n := by
  have hlow : ⌊x⌋ ≤ n := Int.floor_le_iff.mpr (by linarith)
  by_cases he : ⌊x⌋ = n
  · have hx : x = n := le_antisymm h (he ▸ Int.floor_le x)
    rw [hx, halfEven_intCast]
  · unfold halfEven
    dsimp only
    split_ifs <;> omega

theorem Multiple.coarser (fine power : ℤ) (x : ℚ) (hle : fine ≤ power) (h : Multiple power x) :
    Multiple fine x := by
  obtain ⟨n, rfl⟩ := h
  obtain ⟨k, hk⟩ := Int.eq_ofNat_of_zero_le (sub_nonneg.mpr hle)
  refine ⟨n * 10 ^ k, ?_⟩
  rw [show power = k + fine by omega, zpow_add₀ (by norm_num), zpow_natCast]
  push_cast
  ring

-- Rounding never leaves two values that the digits hold.
theorem rounded_between (digits : ℕ) (power : ℤ) (low high x : ℚ) (hlow : Multiple power low)
    (hhigh : Multiple power high) (hl : low ≤ x) (hh : x ≤ high) (hx : x ≠ 0)
    (hb : |x| < 10 ^ (digits + power)) : low ≤ rounded digits x ∧ rounded digits x ≤ high := by
  have hlog : Int.log 10 |x| < digits + power :=
    (Int.lt_zpow_iff_log_lt (by norm_num) (abs_pos.mpr hx)).mp (by exact_mod_cast hb)
  have hle : Int.log 10 |x| + 1 - digits ≤ power := by omega
  obtain ⟨n, hn⟩ := Multiple.coarser _ power low hle hlow
  obtain ⟨m, hm⟩ := Multiple.coarser _ power high hle hhigh
  have hpos : (0 : ℚ) < 10 ^ (Int.log 10 |x| + 1 - digits) := zpow_pos (by norm_num) _
  unfold rounded
  dsimp only
  constructor
  · rw [hn]
    refine mul_le_mul_of_nonneg_right ?_ hpos.le
    exact_mod_cast le_halfEven n _ ((le_div_iff₀ hpos).mpr (hn ▸ hl))
  · rw [hm]
    refine mul_le_mul_of_nonneg_right ?_ hpos.le
    exact_mod_cast halfEven_le m _ ((div_le_iff₀ hpos).mpr (hm ▸ hh))

theorem multiple_power (digits : ℕ) (power : ℤ) : Multiple power (10 ^ (digits + power)) :=
  ⟨10 ^ digits, by rw [zpow_add₀ (by norm_num), zpow_natCast]; push_cast; rfl⟩

theorem Multiple.neg (power : ℤ) (x : ℚ) (h : Multiple power x) : Multiple power (-x) := by
  obtain ⟨n, rfl⟩ := h
  exact ⟨-n, by push_cast; ring⟩

theorem abs_rounded_le (digits : ℕ) (power : ℤ) (high x : ℚ) (hhigh : Multiple power high) (h : |x| ≤ high)
    (hb : |x| < 10 ^ (digits + power)) : |rounded digits x| ≤ high := by
  by_cases hx : x = 0
  · have hzero : rounded digits x = 0 := by simp [hx, rounded, halfEven]
    rw [hzero, abs_zero]
    exact (abs_nonneg x).trans h
  · obtain ⟨hlow, hup⟩ := abs_le.mp h
    have hbetween := rounded_between digits power (-high) high x (hhigh.neg power high) hhigh hlow hup hx hb
    exact abs_le.mpr hbetween

theorem le_abs_rounded (digits : ℕ) (power : ℤ) (low x : ℚ) (hlow : Multiple power low) (h : low ≤ |x|) (hx : x ≠ 0)
    (hb : |x| < 10 ^ (digits + power)) : low ≤ |rounded digits x| := by
  have htop := multiple_power digits power
  rcases le_total 0 x with hpos | hneg
  · rw [abs_of_nonneg hpos] at h hb
    have hbetween := rounded_between digits power low _ x hlow htop h hb.le hx (by rwa [abs_of_nonneg hpos])
    exact hbetween.1.trans (le_abs_self _)
  · rw [abs_of_nonpos hneg] at h hb
    have hbetween := rounded_between digits power _ (-low) x (htop.neg power _) (hlow.neg power low)
      (by linarith) (by linarith) hx (by rwa [abs_of_nonpos hneg])
    rw [← abs_neg]
    exact (by linarith [hbetween.2] : low ≤ -rounded digits x).trans (le_abs_self _)

-- What is shown stays within a whole number exactly when the value does.
theorem abs_quantizedUp_le (places n : ℕ) (x : ℚ) : |quantizedUp places x| ≤ n ↔ |x| ≤ n := by
  have hten : (0 : ℚ) < 10 ^ places := by positivity
  rw [quantizedUp, abs_div, abs_of_pos hten, div_le_iff₀ hten]
  have hscaled : |x| ≤ n ↔ |x * 10 ^ places| ≤ n * 10 ^ places := by
    rw [abs_mul, abs_of_pos hten, mul_le_mul_iff_left₀ hten]
  rw [hscaled, awayFromZero]
  have hcast : ((n : ℚ) * 10 ^ places) = ((n * 10 ^ places : ℤ) : ℚ) := by push_cast; rfl
  rw [hcast]
  by_cases hpos : 0 ≤ x * 10 ^ places
  · rw [if_pos hpos, abs_of_nonneg hpos, ← Int.cast_abs, abs_of_nonneg (Int.ceil_nonneg hpos), Int.cast_le,
      Int.ceil_le]
  · have hneg : x * 10 ^ places ≤ 0 := (not_le.mp hpos).le
    have hfloor : ⌊x * 10 ^ places⌋ ≤ 0 := Int.floor_le_iff.mpr (by push_cast; linarith)
    rw [if_neg hpos, abs_of_nonpos hneg, ← Int.cast_abs, abs_of_nonpos hfloor, Int.cast_le, neg_le, Int.le_floor,
      neg_le]
    push_cast
    rfl

-- What a whole number divided by another falls short of the next whole number by, the digits show.
theorem floor_rounded_div (digits places : ℕ) (n d : ℕ) (hd : 0 < d) (hplaces : d ≤ 10 ^ places)
    (hb : n ≤ d * 10 ^ (digits - places)) (hle : places ≤ digits) (hdigits : 0 < digits) :
    ⌊rounded digits ((n : ℚ) / d)⌋ = ((n / d : ℕ) : ℤ) := by
  by_cases hn : n = 0
  · subst hn
    simp [rounded, halfEven]
  have hdpos : (0 : ℚ) < d := by exact_mod_cast hd
  -- the largest quotient is a power of ten
  obtain rfl | hb := hb.eq_or_lt
  · rw [Nat.mul_div_cancel_left _ hd, Nat.cast_mul, mul_div_cancel_left₀ _ hdpos.ne',
      rounded_of_multiple digits (digits - places : ℕ) _ ⟨1, by simp⟩ ?_, Int.floor_natCast]
    rw [Nat.abs_cast, ← Nat.cast_add, zpow_natCast]
    exact_mod_cast Nat.pow_lt_pow_right (by omega) (by omega)
  have hten : (0 : ℚ) < 10 ^ places := by positivity
  have hsum : (n : ℚ) = d * (n / d : ℕ) + (n % d : ℕ) := by exact_mod_cast (Nat.div_add_mod n d).symm
  generalize n / d = q at hsum ⊢
  have hrest : ((n % d : ℕ) : ℚ) ≤ d - 1 := by
    have hlt : n % d + 1 ≤ d := Nat.mod_lt n hd
    have hcast : ((n % d : ℕ) : ℚ) + 1 ≤ d := by exact_mod_cast hlt
    linarith
  have hshort : (d : ℚ) * (10 ^ (-(places : ℤ))) ≤ 1 := by
    rw [zpow_neg, zpow_natCast, ← div_eq_mul_inv, div_le_one hten]
    exact_mod_cast hplaces
  have hlow : (q : ℚ) ≤ n / d := by
    rw [le_div_iff₀ hdpos, hsum]
    have hnonneg : (0 : ℚ) ≤ (n % d : ℕ) := Nat.cast_nonneg _
    linarith
  have hhigh : (n : ℚ) / d ≤ q + 1 - 10 ^ (-(places : ℤ)) := by
    rw [div_le_iff₀ hdpos, hsum]
    linarith
  have hbound : |(n : ℚ) / d| < 10 ^ ((digits : ℤ) + -(places : ℤ)) := by
    rw [abs_of_nonneg (by positivity), div_lt_iff₀ hdpos, ← sub_eq_add_neg, ← Nat.cast_sub hle, zpow_natCast,
      mul_comm]
    exact_mod_cast hb
  have hmultiple : Multiple (-(places : ℤ)) (q : ℚ) :=
    Multiple.coarser _ 0 _ (by omega) ⟨q, by simp⟩
  have hnext : Multiple (-(places : ℤ)) ((q : ℚ) + 1 - 10 ^ (-(places : ℤ))) := by
    obtain ⟨m, hm⟩ := Multiple.coarser (-(places : ℤ)) 0 ((q : ℚ) + 1) (by omega)
      ⟨q + 1, by simp⟩
    refine ⟨m - 1, ?_⟩
    rw [hm]
    push_cast
    ring
  have hne : (n : ℚ) / d ≠ 0 := div_ne_zero (by exact_mod_cast hn) hdpos.ne'
  obtain ⟨hleft, hright⟩ := rounded_between digits _ _ _ _ hmultiple hnext hlow hhigh hne hbound
  have hpos : (0 : ℚ) < 10 ^ (-(places : ℤ)) := zpow_pos (by norm_num) _
  rw [Int.floor_eq_iff]
  exact ⟨by exact_mod_cast hleft, by push_cast; linarith⟩

end Rounding

section Sums

variable (digits : ℕ)

def plus (x y : ℚ) : ℚ := rounded digits (x + y)

-- A running sum, rounded at each step.
def total (xs : List ℚ) : ℚ := xs.foldl (plus digits) 0

-- A running sum that is not known once a part is not.
def totalKnown (xs : List (Option ℚ)) : Option ℚ :=
  xs.foldl (fun sum x => sum.bind fun sum => x.map fun x => plus digits sum x) (some 0)

-- Values in units of one power of ten that can be added in any order within the digits.
structure Exact (power : ℤ) (xs : List ℚ) : Prop where
  multiples : ∀ x ∈ xs, Multiple power x
  bound : (xs.map abs).sum < 10 ^ (digits + power)

theorem foldl_plus (power : ℤ) (xs : List ℚ) (start : ℚ) (hs : Multiple power start)
    (hm : ∀ x ∈ xs, Multiple power x) (hb : |start| + (xs.map abs).sum < 10 ^ (digits + power)) :
    xs.foldl (plus digits) start = start + xs.sum := by
  induction xs generalizing start with
  | nil => simp
  | cons x rest ih =>
      rw [List.map_cons, List.sum_cons] at hb
      have hsum : Multiple power (start + x) := Multiple.add power start x hs (hm x List.mem_cons_self)
      have habs : |start + x| ≤ |start| + |x| := abs_add_le start x
      have hrest : 0 ≤ (rest.map abs).sum :=
        List.sum_nonneg (by
          intro y hy
          obtain ⟨z, _, rfl⟩ := List.mem_map.mp hy
          exact abs_nonneg z)
      have hplus : plus digits start x = start + x :=
        rounded_of_multiple digits power (start + x) hsum (by linarith)
      rw [List.foldl_cons, hplus, ih (start + x) hsum (fun y hy => hm y (List.mem_cons_of_mem _ hy))
        (by linarith), List.sum_cons, add_assoc]

-- Values of either sign: neither the positive ones nor the negative ones leave the digits.
theorem foldl_plus_signed (power : ℤ) (xs : List ℚ) (start : ℚ) (hs : Multiple power start)
    (hm : ∀ x ∈ xs, Multiple power x) (hup : start + (xs.map (max · 0)).sum < 10 ^ (digits + power))
    (hdown : -start + (xs.map fun x => max (-x) 0).sum < 10 ^ (digits + power)) :
    xs.foldl (plus digits) start = start + xs.sum := by
  induction xs generalizing start with
  | nil => simp
  | cons x rest ih =>
      rw [List.map_cons, List.sum_cons] at hup hdown
      have hsum : Multiple power (start + x) := Multiple.add power start x hs (hm x List.mem_cons_self)
      have hposNonneg : 0 ≤ (rest.map (max · 0)).sum := by
        refine List.sum_nonneg fun y hy => ?_
        obtain ⟨z, _, rfl⟩ := List.mem_map.mp hy
        exact le_max_right z 0
      have hnegNonneg : 0 ≤ (rest.map fun x => max (-x) 0).sum := by
        refine List.sum_nonneg fun y hy => ?_
        obtain ⟨z, _, rfl⟩ := List.mem_map.mp hy
        exact le_max_right (-z) 0
      have hx := le_max_left x 0
      have hx' := le_max_left (-x) 0
      have hplus : plus digits start x = start + x :=
        rounded_of_multiple digits power (start + x) hsum (abs_lt.mpr ⟨by linarith, by linarith⟩)
      rw [List.foldl_cons, hplus, ih (start + x) hsum (fun y hy => hm y (List.mem_cons_of_mem _ hy))
        (by linarith) (by linarith), List.sum_cons, add_assoc]

theorem Exact.total_eq (power : ℤ) (xs : List ℚ) (h : Exact digits power xs) :
    total digits xs = xs.sum := by
  rw [total, foldl_plus digits power xs 0 (Multiple.zero power) h.multiples (by simpa using h.bound),
    zero_add]

theorem Exact.perm (power : ℤ) (xs ys : List ℚ) (h : Exact digits power xs) (hp : xs.Perm ys) :
    Exact digits power ys where
  multiples := fun y hy => h.multiples y (hp.mem_iff.mpr hy)
  bound := by
    rw [← (hp.map abs).sum_eq]
    exact h.bound

theorem Exact.sublist (power : ℤ) (xs ys : List ℚ) (h : Exact digits power ys) (hs : xs.Sublist ys) :
    Exact digits power xs where
  multiples := fun x hx => h.multiples x (hs.subset hx)
  bound := by
    refine lt_of_le_of_lt ?_ h.bound
    refine List.Sublist.sum_le_sum (hs.map abs) ?_
    intro y hy
    obtain ⟨z, _, rfl⟩ := List.mem_map.mp hy
    exact abs_nonneg z

theorem abs_sum_le (xs : List ℚ) : |xs.sum| ≤ (xs.map abs).sum := by
  induction xs with
  | nil => simp
  | cons x rest ih =>
      rw [List.sum_cons, List.map_cons, List.sum_cons]
      exact (abs_add_le x rest.sum).trans (by linarith)

theorem sum_abs_sums_le (groups : List (List ℚ)) :
    ((groups.map List.sum).map abs).sum ≤ (groups.flatten.map abs).sum := by
  induction groups with
  | nil => simp
  | cons group rest ih =>
      rw [List.map_cons, List.map_cons, List.sum_cons, List.flatten_cons, List.map_append, List.sum_append]
      exact add_le_add (abs_sum_le group) ih

theorem Exact.map_total (power : ℤ) (groups : List (List ℚ)) (h : Exact digits power groups.flatten) :
    groups.map (total digits) = groups.map List.sum := by
  refine List.map_congr_left fun group hg => ?_
  exact Exact.total_eq digits power group
    (Exact.sublist digits power group groups.flatten h (List.sublist_flatten_of_mem hg))

-- Adding up group by group comes to the sum of all.
theorem Exact.total_groups (power : ℤ) (groups : List (List ℚ)) (h : Exact digits power groups.flatten) :
    total digits (groups.map (total digits)) = groups.flatten.sum := by
  have hsums : Exact digits power (groups.map List.sum) := by
    refine ⟨?_, lt_of_le_of_lt (sum_abs_sums_le groups) h.bound⟩
    intro x hx
    obtain ⟨group, hg, rfl⟩ := List.mem_map.mp hx
    refine Multiple.sum power group fun y hy => h.multiples y ?_
    exact List.mem_flatten.mpr ⟨group, hg, hy⟩
  rw [Exact.map_total digits power groups h, Exact.total_eq digits power _ hsums, List.sum_flatten]

theorem foldl_totalKnown_none (xs : List (Option ℚ)) :
    xs.foldl (fun sum x => sum.bind fun sum => x.map fun x => plus digits sum x) none = none := by
  induction xs with
  | nil => rfl
  | cons x rest ih => exact ih

theorem totalKnown_some (xs : List ℚ) : totalKnown digits (xs.map some) = some (total digits xs) := by
  have hfold : ∀ start : ℚ,
      (xs.map some).foldl (fun sum x => sum.bind fun sum => x.map fun x => plus digits sum x) (some start) =
        some (xs.foldl (plus digits) start) := by
    induction xs with
    | nil => exact fun _ => rfl
    | cons x rest ih => exact fun start => ih (plus digits start x)
  exact hfold 0

theorem totalKnown_eq_none_iff (xs : List (Option ℚ)) : totalKnown digits xs = none ↔ none ∈ xs := by
  have hfold : ∀ start : ℚ,
      xs.foldl (fun sum x => sum.bind fun sum => x.map fun x => plus digits sum x) (some start) = none ↔
        none ∈ xs := by
    induction xs with
    | nil => simp
    | cons x rest ih =>
        intro start
        cases x with
        | none =>
            rw [List.foldl_cons]
            exact iff_of_true (foldl_totalKnown_none digits rest) List.mem_cons_self
        | some x =>
            rw [List.foldl_cons]
            refine (ih (plus digits start x)).trans ?_
            simp
  exact hfold 0

end Sums

end Decimals
