import AgenticOrg.Lib.Decimal

namespace Decimals

section Signs

theorem rounded_nonneg (digits : ℕ) (x : ℚ) (h : 0 ≤ x) : 0 ≤ rounded digits x := by
  have hpow : (0 : ℚ) < 10 ^ (Int.log 10 |x| + 1 - digits) := zpow_pos (by norm_num) _
  refine mul_nonneg ?_ hpow.le
  exact_mod_cast le_halfEven 0 _ (by simpa using div_nonneg h hpow.le)

theorem rounded_nonpos (digits : ℕ) (x : ℚ) (h : x ≤ 0) : rounded digits x ≤ 0 := by
  have hpow : (0 : ℚ) < 10 ^ (Int.log 10 |x| + 1 - digits) := zpow_pos (by norm_num) _
  refine mul_nonpos_of_nonpos_of_nonneg ?_ hpow.le
  exact_mod_cast halfEven_le 0 _ (by simpa using div_nonpos_of_nonpos_of_nonneg h hpow.le)

theorem quantized_nonneg (places : ℕ) (x : ℚ) (h : 0 ≤ x) : 0 ≤ quantized places x := by
  refine div_nonneg ?_ (by positivity)
  exact_mod_cast le_halfEven 0 _ (by simpa using mul_nonneg h (by positivity : (0 : ℚ) ≤ 10 ^ places))

end Signs

section Places

theorem multiple_div (places : ℕ) (n : ℤ) : Multiple (-(places : ℤ)) ((n : ℚ) / 10 ^ places) :=
  ⟨n, by rw [zpow_neg, zpow_natCast, div_eq_mul_inv]⟩

theorem quantized_multiple (places : ℕ) (x : ℚ) : Multiple (-(places : ℤ)) (quantized places x) :=
  multiple_div places (halfEven (x * 10 ^ places))

theorem Multiple.mul_natCast (power : ℤ) (x : ℚ) (n : ℕ) (h : Multiple power x) : Multiple power (x * n) := by
  obtain ⟨m, rfl⟩ := h
  exact ⟨m * n, by push_cast; ring⟩

theorem Multiple.sub (power : ℤ) (x y : ℚ) (hx : Multiple power x) (hy : Multiple power y) :
    Multiple power (x - y) := by
  rw [sub_eq_add_neg]
  exact hx.add power x _ (hy.neg power y)

-- A value past the digits stays past them.
theorem le_rounded (digits : ℕ) (hdigits : 0 < digits) (power : ℤ) (x : ℚ) (h : 10 ^ (digits + power) ≤ x) :
    10 ^ (digits + power) ≤ rounded digits x := by
  have hpos : 0 < x := lt_of_lt_of_le (zpow_pos (by norm_num) _) h
  -- the leading digit is kept
  obtain ⟨top, htop⟩ : ∃ top : ℤ, Int.log 10 x = top := ⟨_, rfl⟩
  have hle : (10 : ℚ) ^ top ≤ x := htop ▸ Int.zpow_log_le_self (by norm_num) hpos
  have hlt : x < 10 ^ (top + 1) := htop ▸ Int.lt_zpow_succ_log_self (by norm_num) x
  have hreach : (digits : ℤ) + power ≤ top := htop ▸ (Int.zpow_le_iff_le_log (by norm_num) hpos).mp h
  have hlow : Multiple (top + 1 - digits) ((10 : ℚ) ^ top) := Multiple.coarser _ top _ (by omega) ⟨1, by simp⟩
  have hsum : (digits : ℤ) + (top + 1 - digits) = top + 1 := by omega
  have hbetween := rounded_between digits (top + 1 - digits) _ _ x hlow (multiple_power digits _) hle
    (by rw [hsum]; exact hlt.le) hpos.ne' (by rw [hsum, abs_of_pos hpos]; exact hlt)
  exact (zpow_le_zpow_right₀ (by norm_num) hreach).trans hbetween.1

end Places

section Errors

theorem abs_halfEven_sub_le (x : ℚ) : |(halfEven x : ℚ) - x| ≤ 1 / 2 := by
  have hlow := Int.floor_le x
  have hhigh := Int.lt_floor_add_one x
  unfold halfEven
  dsimp only
  split_ifs <;> push_cast <;> rw [abs_le] <;> constructor <;> linarith

-- Half a unit of the last digit kept.
theorem abs_rounded_sub_le (digits : ℕ) (x : ℚ) :
    |rounded digits x - x| ≤ |x| * 10 ^ (1 - digits : ℤ) / 2 := by
  by_cases hx : x = 0
  · simp [hx, rounded, halfEven]
  have hpos : 0 < |x| := abs_pos.mpr hx
  have hten : (10 : ℚ) ≠ 0 := by norm_num
  have hlog : (10 : ℚ) ^ Int.log 10 |x| ≤ |x| := Int.zpow_log_le_self (by norm_num) hpos
  unfold rounded
  dsimp only
  have hunit : (10 : ℚ) ^ (Int.log 10 |x| + 1 - digits) = 10 ^ Int.log 10 |x| * 10 ^ (1 - digits : ℤ) := by
    rw [← zpow_add₀ hten]
    congr 1
    ring
  generalize (10 : ℚ) ^ (Int.log 10 |x| + 1 - digits) = ulp at hunit
  have hsmall : (0 : ℚ) < 10 ^ (1 - digits : ℤ) := zpow_pos (by norm_num) _
  have hulp : 0 < ulp := hunit ▸ mul_pos (zpow_pos (by norm_num) _) hsmall
  have herror := abs_halfEven_sub_le (x / ulp)
  have hscaled : (halfEven (x / ulp) : ℚ) * ulp - x = (halfEven (x / ulp) - x / ulp) * ulp := by
    rw [sub_mul, div_mul_cancel₀ _ hulp.ne']
  rw [hscaled, abs_mul, abs_of_pos hulp]
  have hle : ulp ≤ |x| * 10 ^ (1 - digits : ℤ) := hunit ▸ mul_le_mul_of_nonneg_right hlog hsmall.le
  calc |(halfEven (x / ulp) : ℚ) - x / ulp| * ulp ≤ 1 / 2 * ulp := mul_le_mul_of_nonneg_right herror hulp.le
    _ ≤ |x| * 10 ^ (1 - digits : ℤ) / 2 := by linarith

-- No value but zero is rounded to zero.
theorem rounded_eq_zero (digits : ℕ) (hdigits : 0 < digits) (x : ℚ) : rounded digits x = 0 ↔ x = 0 := by
  constructor
  · intro h
    by_contra hx
    have hpos : (0 : ℚ) < 10 ^ Int.log 10 |x| := zpow_pos (by norm_num) _
    have hlt : |x| < (10 : ℚ) ^ ((digits : ℤ) + Int.log 10 |x|) := by
      have hnext : |x| < (10 : ℚ) ^ (Int.log 10 |x| + 1) := Int.lt_zpow_succ_log_self (by norm_num) |x|
      exact hnext.trans_le (zpow_le_zpow_right₀ (by norm_num) (by omega))
    have hle := le_abs_rounded digits (Int.log 10 |x|) (10 ^ Int.log 10 |x|) x ⟨1, by push_cast; ring⟩
      (Int.zpow_log_le_self (by norm_num) (abs_pos.mpr hx)) hx hlt
    rw [h, abs_zero] at hle
    exact absurd hle (not_le.mpr hpos)
  · rintro rfl
    simp [rounded, halfEven]

end Errors

end Decimals
