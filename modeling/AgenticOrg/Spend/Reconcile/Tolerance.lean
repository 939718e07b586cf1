import Mathlib.Tactic.NormNum
import Mathlib.Tactic.Linarith
import AgenticOrg.Lib.Decimal.Bounds
import AgenticOrg.Spend.Reconcile

namespace AgenticOrg.Spend

open Decimals

section Boundary

-- A figure with at most ten decimals, below 10^14.
structure Bounded (x : ℚ) : Prop where
  multiple : Multiple (-10) x
  size : |x| < 10 ^ 14

variable (figure invoice : ℚ)

theorem difference_exact (hf : Bounded figure) (hi : Bounded invoice) :
    rounded DEFAULT_DIGITS (figure - invoice) = figure - invoice := by
  refine rounded_of_multiple DEFAULT_DIGITS (-10) _ ?_ ?_
  · rw [sub_eq_add_neg]
    exact Multiple.add _ _ _ hf.multiple (hi.multiple.neg _ _)
  · have hsum := abs_sub figure invoice
    have hf' := hf.size
    have hi' := hi.size
    have hpower : (10 : ℚ) ^ ((DEFAULT_DIGITS : ℤ) + -10) = 10 ^ 18 := by norm_num [DEFAULT_DIGITS]
    rw [hpower]
    linarith

-- Two figures of ten decimals that differ by more than one percent do so by more than the digits lose.
theorem quotient_beyond (hf : Bounded figure) (hi : Bounded invoice) (hpos : 0 < invoice)
    (h : invoice < |figure - invoice| * 100) :
    1 / 100 + 1 / 10 ^ 26 ≤ |(figure - invoice) / invoice| := by
  obtain ⟨n, hn⟩ : Multiple (-10) (figure - invoice) := by
    rw [sub_eq_add_neg]
    exact Multiple.add _ _ _ hf.multiple (hi.multiple.neg _ _)
  obtain ⟨m, hm⟩ := hi.multiple
  have hunit : (10 : ℚ) ^ (-10 : ℤ) = 1 / 10 ^ 10 := by norm_num
  rw [hunit] at hn hm
  have habs : |figure - invoice| = |(n : ℚ)| / 10 ^ 10 := by
    rw [hn, abs_mul, abs_of_pos (by norm_num : (0 : ℚ) < 1 / 10 ^ 10), mul_one_div]
  have hmpos : (0 : ℚ) < m := by
    rw [hm] at hpos
    exact pos_of_mul_pos_left hpos (by norm_num)
  have hsize : (m : ℚ) < 10 ^ 24 := by
    have hsize := hi.size
    rw [abs_of_pos hpos, hm] at hsize
    linarith
  -- in units of the last decimal the excess is a whole one at least
  have hstep : (m : ℚ) + 1 ≤ |(n : ℚ)| * 100 := by
    have hlt : (m : ℚ) < |(n : ℚ)| * 100 := by
      rw [habs, hm] at h
      linarith
    have hint : m < |n| * 100 := by
      have hcast : ((|n| * 100 : ℤ) : ℚ) = |(n : ℚ)| * 100 := by push_cast; rfl
      rw [← hcast] at hlt
      exact_mod_cast hlt
    have hsucc : m + 1 ≤ |n| * 100 := hint
    have hback : ((m + 1 : ℤ) : ℚ) ≤ ((|n| * 100 : ℤ) : ℚ) := by exact_mod_cast hsucc
    push_cast at hback
    exact hback
  rw [abs_div, abs_of_pos hpos, le_div_iff₀ hpos, habs, hm]
  have hsmall : (m : ℚ) * (1 / 10 ^ 26) ≤ 1 / 100 := by linarith
  have hrest : (1 / 100 + 1 / 10 ^ 26) * (m : ℚ) ≤ |(n : ℚ)| := by linarith
  calc (1 / 100 + 1 / 10 ^ 26) * ((m : ℚ) * (1 / 10 ^ 10))
      = ((1 / 100 + 1 / 10 ^ 26) * m) / 10 ^ 10 := by ring
    _ ≤ |(n : ℚ)| / 10 ^ 10 := by
        refine div_le_div_of_nonneg_right hrest ?_
        norm_num

theorem quotient_size (hf : Bounded figure) (hi : Bounded invoice) (hpos : 0 < invoice) :
    |(figure - invoice) / invoice| < 10 ^ 25 := by
  obtain ⟨m, hm⟩ := hi.multiple
  have hunit : (10 : ℚ) ^ (-10 : ℤ) = 1 / 10 ^ 10 := by norm_num
  rw [hunit] at hm
  have hmpos : (0 : ℚ) < m := by
    rw [hm] at hpos
    exact pos_of_mul_pos_left hpos (by norm_num)
  have hone : (1 : ℚ) ≤ m := by
    have hint : 0 < m := by exact_mod_cast hmpos
    exact_mod_cast hint
  have hleast : 1 / 10 ^ 10 ≤ invoice := by
    rw [hm]
    linarith
  have hsum := abs_sub figure invoice
  have hf' := hf.size
  have hi' := hi.size
  rw [abs_div, abs_of_pos hpos, div_lt_iff₀ hpos]
  linarith

end Boundary

section Percentages

variable (figure invoice : ℚ)

theorem variancePct_positive (hf : Bounded figure) (hi : Bounded invoice) (hpos : 0 < invoice) :
    variancePct (some figure) invoice =
      some (rounded CTX_DIGITS (rounded CTX_DIGITS ((figure - invoice) / invoice) * 100)) := by
  simp only [variancePct, if_pos hpos, difference_exact figure invoice hf hi]

theorem hundredfold_within (q : ℚ) (h : |q| ≤ 1 / 100) :
    |rounded CTX_DIGITS (rounded CTX_DIGITS q * 100)| ≤ 1 := by
  have hquotient : |rounded CTX_DIGITS q| ≤ 1 / 100 := by
    refine abs_rounded_le CTX_DIGITS (-2) _ q ⟨1, by norm_num⟩ h ?_
    refine h.trans_lt ?_
    norm_num [CTX_DIGITS]
  have hhundred : |rounded CTX_DIGITS q * 100| ≤ 1 := by
    rw [abs_mul, abs_of_pos (by norm_num : (0 : ℚ) < 100)]
    linarith
  refine abs_rounded_le CTX_DIGITS 0 1 _ ⟨1, by norm_num⟩ hhundred ?_
  refine hhundred.trans_lt ?_
  norm_num [CTX_DIGITS]

-- A percentage that is within one, or past it by more than 28 digits lose.
def Separated (pct : ℚ) : Prop := |pct| ≤ 1 ∨ 1 + 1 / 10 ^ 24 ≤ |pct| ∧ |pct| ≤ 10 ^ 27

theorem hundredfold_beyond (q : ℚ) (h : 1 / 100 + 1 / 10 ^ 26 ≤ |q|) (hsize : |q| < 10 ^ 25) :
    1 + 1 / 10 ^ 24 ≤ |rounded CTX_DIGITS (rounded CTX_DIGITS q * 100)| ∧
      |rounded CTX_DIGITS (rounded CTX_DIGITS q * 100)| ≤ 10 ^ 27 := by
  have hq : q ≠ 0 := by
    rintro rfl
    rw [abs_zero] at h
    norm_num at h
  have hscale : |rounded CTX_DIGITS q * 100| = |rounded CTX_DIGITS q| * 100 := by
    rw [abs_mul, abs_of_pos (by norm_num : (0 : ℚ) < 100)]
  have hhigh : |rounded CTX_DIGITS q| ≤ 10 ^ 25 := by
    refine abs_rounded_le CTX_DIGITS 0 _ q ⟨10 ^ 25, by norm_num⟩ hsize.le ?_
    refine hsize.trans ?_
    norm_num [CTX_DIGITS]
  have hpower : (10 : ℚ) ^ ((CTX_DIGITS : ℤ) + 0) = 10 ^ 38 := by norm_num [CTX_DIGITS]
  have hne : ∀ low : ℚ, 0 < low → low ≤ |rounded CTX_DIGITS q * 100| → rounded CTX_DIGITS q * 100 ≠ 0 := by
    intro low hpos hle hzero
    rw [hzero, abs_zero] at hle
    linarith
  constructor
  · by_cases hone : |q| < 1
    · have hlow : 1 / 100 + 1 / 10 ^ 26 ≤ |rounded CTX_DIGITS q| := by
        refine le_abs_rounded CTX_DIGITS (-26) _ q ⟨10 ^ 24 + 1, by norm_num⟩ h hq ?_
        refine hone.trans ?_
        norm_num [CTX_DIGITS]
      have hunit : |rounded CTX_DIGITS q| ≤ 1 := by
        refine abs_rounded_le CTX_DIGITS 0 1 q ⟨1, by norm_num⟩ hone.le ?_
        refine hone.trans ?_
        norm_num [CTX_DIGITS]
      have hle : 1 + 1 / 10 ^ 24 ≤ |rounded CTX_DIGITS q * 100| := by
        rw [hscale]
        linarith
      refine le_abs_rounded CTX_DIGITS (-24) _ _ ⟨10 ^ 24 + 1, by norm_num⟩ hle (hne _ (by norm_num) hle) ?_
      have hplaces : (10 : ℚ) ^ ((CTX_DIGITS : ℤ) + -24) = 10 ^ 14 := by norm_num [CTX_DIGITS]
      rw [hscale, hplaces]
      linarith
    · have hlow : 1 ≤ |rounded CTX_DIGITS q| := by
        refine le_abs_rounded CTX_DIGITS 0 1 q ⟨1, by norm_num⟩ (not_lt.mp hone) hq ?_
        refine hsize.trans ?_
        norm_num [CTX_DIGITS]
      have hle : 100 ≤ |rounded CTX_DIGITS q * 100| := by
        rw [hscale]
        linarith
      have hround : 100 ≤ |rounded CTX_DIGITS (rounded CTX_DIGITS q * 100)| := by
        refine le_abs_rounded CTX_DIGITS 0 100 _ ⟨100, by norm_num⟩ hle (hne _ (by norm_num) hle) ?_
        rw [hscale, hpower]
        linarith
      linarith
  · refine abs_rounded_le CTX_DIGITS 0 _ _ ⟨10 ^ 27, by norm_num⟩ ?_ ?_
    · rw [hscale]
      linarith
    · rw [hscale, hpower]
      linarith

-- The rounding of `abs` does not change which of the two it is.
theorem absolute_separated (pct : ℚ) (h : Separated pct) : absolute DEFAULT_DIGITS pct ≤ 1 ↔ |pct| ≤ 1 := by
  have hsame : absolute DEFAULT_DIGITS pct = abs (rounded DEFAULT_DIGITS |pct|) :=
    (abs_of_nonneg (rounded_nonneg DEFAULT_DIGITS |pct| (abs_nonneg pct))).symm
  rw [hsame]
  rcases h with h | ⟨hlow, hhigh⟩
  · refine iff_of_true ?_ h
    refine abs_rounded_le DEFAULT_DIGITS 0 1 _ ⟨1, by norm_num⟩ (by rwa [abs_abs]) ?_
    rw [abs_abs]
    refine h.trans_lt ?_
    norm_num [DEFAULT_DIGITS]
  · have hone : 1 < |pct| := lt_of_lt_of_le (by norm_num) hlow
    have hne : |pct| ≠ 0 := by linarith
    refine iff_of_false (not_le.mpr ?_) (not_le.mpr hone)
    by_cases hsmall : |pct| < 10 ^ 4
    · have hle : 1 + 1 / 10 ^ 24 ≤ abs (rounded DEFAULT_DIGITS |pct|) := by
        refine le_abs_rounded DEFAULT_DIGITS (-24) _ _ ⟨10 ^ 24 + 1, by norm_num⟩ (by rwa [abs_abs]) hne ?_
        have hplaces : (10 : ℚ) ^ ((DEFAULT_DIGITS : ℤ) + -24) = 10 ^ 4 := by norm_num [DEFAULT_DIGITS]
        rwa [abs_abs, hplaces]
      exact lt_of_lt_of_le (by norm_num) hle
    · have hle : 10 ^ 4 ≤ abs (rounded DEFAULT_DIGITS |pct|) := by
        refine le_abs_rounded DEFAULT_DIGITS 0 _ _ ⟨10 ^ 4, by norm_num⟩ (by rw [abs_abs]; exact not_lt.mp hsmall) hne ?_
        rw [abs_abs]
        refine hhigh.trans_lt ?_
        norm_num [DEFAULT_DIGITS]
      exact lt_of_lt_of_le (by norm_num) hle

theorem variancePct_separated (hf : Bounded figure) (hi : Bounded invoice) :
    ∀ pct ∈ variancePct (some figure) invoice, Separated pct := by
  intro pct hpct
  by_cases hpos : 0 < invoice
  · rw [variancePct_positive figure invoice hf hi hpos] at hpct
    obtain rfl := Option.some.inj hpct
    rcases le_or_gt (|figure - invoice| * 100) invoice with hwithin | hbeyond
    · refine .inl (hundredfold_within _ ?_)
      rw [abs_div, abs_of_pos hpos, div_le_iff₀ hpos]
      linarith
    · exact .inr (hundredfold_beyond _ (quotient_beyond figure invoice hf hi hpos hbeyond)
        (quotient_size figure invoice hf hi hpos))
  · simp only [variancePct, gt_iff_lt, if_neg hpos] at hpct
    split_ifs at hpct
    · obtain rfl := Option.some.inj hpct
      exact .inl (by norm_num)
    · cases hpct

theorem withinTolerance_some (pct : ℚ) (h : Separated pct) : withinTolerance (some pct) = true ↔ |pct| ≤ 1 := by
  rw [← absolute_separated pct h]
  exact decide_eq_true_iff

-- The verdict on one figure, in exact arithmetic.
theorem withinTolerance_iff (hf : Bounded figure) (hi : Bounded invoice) :
    withinTolerance (variancePct (some figure) invoice) = true ↔
      0 < invoice ∧ |figure - invoice| * 100 ≤ invoice ∨ figure = 0 ∧ invoice = 0 := by
  by_cases hpos : 0 < invoice
  · have hsep := variancePct_separated figure invoice hf hi
    rw [variancePct_positive figure invoice hf hi hpos] at hsep ⊢
    rw [withinTolerance_some _ (hsep _ rfl)]
    constructor
    · intro h
      refine .inl ⟨hpos, ?_⟩
      by_contra hbeyond
      have hlow := quotient_beyond figure invoice hf hi hpos (not_le.mp hbeyond)
      obtain ⟨hlarge, _⟩ := hundredfold_beyond _ hlow (quotient_size figure invoice hf hi hpos)
      exact absurd h (not_le.mpr (lt_of_lt_of_le (by norm_num) hlarge))
    · rintro (⟨_, h⟩ | ⟨_, h⟩)
      · refine hundredfold_within _ ?_
        rw [abs_div, abs_of_pos hpos, div_le_iff₀ hpos]
        linarith
      · exact absurd h hpos.ne'
  · have hfirst : ¬(0 < invoice ∧ |figure - invoice| * 100 ≤ invoice) := fun h => hpos h.1
    by_cases hzero : figure = 0 ∧ invoice = 0
    · have hsome : variancePct (some figure) invoice = some 0 := by simp [variancePct, hzero.1, hzero.2]
      rw [hsome, withinTolerance_some 0 (.inl (by norm_num))]
      exact iff_of_true (by norm_num) (.inr hzero)
    · simp only [variancePct, gt_iff_lt, if_neg hpos, if_neg hzero, withinTolerance, Bool.false_eq_true, false_iff,
        not_or]
      exact ⟨hfirst, hzero⟩

-- What is shown of a percentage stays within one exactly when the percentage does.
theorem withinTolerance_shown (pct : Option ℚ) (hsep : ∀ x ∈ pct, Separated x) :
    withinTolerance pct = true ↔ ∃ shown, pctShown pct = some shown ∧ |shown| ≤ 1 := by
  cases pct with
  | none => simp [withinTolerance, pctShown]
  | some pct =>
      rw [withinTolerance_some pct (hsep pct rfl)]
      simp only [pctShown, Option.map_some, Option.some.injEq, exists_eq_left']
      by_cases hlimit : absolute DEFAULT_DIGITS pct > PCT_LIMIT
      · have hone : (1 : ℚ) < PCT_LIMIT := by norm_num [PCT_LIMIT]
        rw [if_pos hlimit, ← absolute_separated pct (hsep pct rfl)]
        refine iff_of_false (not_le.mpr (hone.trans hlimit)) (not_le.mpr ?_)
        split_ifs
        · rwa [abs_of_pos (by linarith)]
        · rwa [abs_neg, abs_of_pos (by linarith)]
      · rw [if_neg hlimit]
        have hshown := abs_quantizedUp_le PCT_PLACES 1 pct
        rw [Nat.cast_one] at hshown
        exact hshown.symm

end Percentages

section Verdicts

-- The verdict is the one of exact arithmetic, and the percentages that are shown agree with it.
theorem status_exact (stored repriced : Option ℚ) (invoice : ℚ) (hs : ∀ x ∈ stored, Bounded x)
    (hr : ∀ x ∈ repriced, Bounded x) (hi : Bounded invoice) :
    (statusFor stored repriced invoice = .withinTolerance ↔
      ∃ s ∈ stored, ∃ r ∈ repriced,
        0 < invoice ∧ |s - invoice| * 100 ≤ invoice ∧ |r - invoice| * 100 ≤ invoice ∨
          s = 0 ∧ r = 0 ∧ invoice = 0) ∧
      (statusFor stored repriced invoice = .withinTolerance ↔
        ∃ p ∈ pctShown (variancePct stored invoice), ∃ q ∈ pctShown (variancePct repriced invoice),
          |p| ≤ 1 ∧ |q| ≤ 1) := by
  have hstatus : statusFor stored repriced invoice = .withinTolerance ↔
      withinTolerance (variancePct stored invoice) = true ∧ withinTolerance (variancePct repriced invoice) = true := by
    rw [statusFor]
    split_ifs with h
    · exact iff_of_true rfl (by simpa using h)
    · exact iff_of_false (fun he => by cases he) (by simpa using h)
  rw [hstatus]
  constructor
  · cases stored with
    | none => simp [variancePct, withinTolerance]
    | some s =>
        cases repriced with
        | none => simp [variancePct, withinTolerance]
        | some r =>
            rw [withinTolerance_iff s invoice (hs s rfl) hi, withinTolerance_iff r invoice (hr r rfl) hi]
            constructor
            · rintro ⟨⟨hpos, hs'⟩ | ⟨hs', hz⟩, ⟨hpos', hr'⟩ | ⟨hr', hz'⟩⟩
              · exact ⟨s, rfl, r, rfl, .inl ⟨hpos, hs', hr'⟩⟩
              · exact absurd hz' hpos.ne'
              · exact absurd hz hpos'.ne'
              · exact ⟨s, rfl, r, rfl, .inr ⟨hs', hr', hz⟩⟩
            · rintro ⟨s', ⟨⟩, r', ⟨⟩, ⟨hpos, hs', hr'⟩ | ⟨hs', hr', hz⟩⟩
              · exact ⟨.inl ⟨hpos, hs'⟩, .inl ⟨hpos, hr'⟩⟩
              · exact ⟨.inr ⟨hs', hz⟩, .inr ⟨hr', hz⟩⟩
  · have hsep : ∀ figure : Option ℚ, (∀ x ∈ figure, Bounded x) → ∀ pct ∈ variancePct figure invoice, Separated pct := by
      intro figure hfigure pct hpct
      cases figure with
      | none => cases hpct
      | some x => exact variancePct_separated x invoice (hfigure x rfl) hi pct hpct
    rw [withinTolerance_shown _ (hsep stored hs), withinTolerance_shown _ (hsep repriced hr)]
    constructor
    · rintro ⟨⟨p, hp, hp'⟩, q, hq, hq'⟩
      exact ⟨p, hp, q, hq, hp', hq'⟩
    · rintro ⟨p, hp, q, hq, hp', hq'⟩
      exact ⟨⟨p, hp, hp'⟩, q, hq, hq'⟩

-- One percent exactly, and one percent and the last decimal.
theorem status_exact_boundary :
    Bounded 100 ∧ Bounded 101 ∧ statusFor (some 101) (some 99) 100 = .withinTolerance := by
  have hundred : Bounded 100 := ⟨⟨1000000000000, by norm_num⟩, by norm_num⟩
  have above : Bounded 101 := ⟨⟨1010000000000, by norm_num⟩, by norm_num⟩
  have below : Bounded 99 := ⟨⟨990000000000, by norm_num⟩, by norm_num⟩
  refine ⟨hundred, above, (status_exact (some 101) (some 99) 100 ?_ ?_ hundred).1.mpr ?_⟩
  · rintro x ⟨⟩
    exact above
  · rintro x ⟨⟩
    exact below
  · refine ⟨101, rfl, 99, rfl, .inl ⟨by norm_num, ?_, ?_⟩⟩
    · norm_num
    · norm_num [abs_of_neg]

end Verdicts

end AgenticOrg.Spend
