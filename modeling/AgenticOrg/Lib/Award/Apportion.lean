import AgenticOrg.Lib.Award
import Mathlib.Algebra.Order.BigOperators.Group.List
import Mathlib.Algebra.Order.Floor.Ring
import Mathlib.Data.Rat.Floor
import Mathlib.Tactic.Linarith

namespace Awards

section Sums

variable {α : Type}

theorem sum_le_length_mul (items : List α) (f : α → ℚ) (bound : ℚ) (h : ∀ a ∈ items, f a ≤ bound) :
    (items.map f).sum ≤ items.length * bound := by
  induction items with
  | nil => simp
  | cons a rest ih =>
      have hrest := ih fun b hb => h b (List.mem_cons_of_mem a hb)
      have ha := h a List.mem_cons_self
      rw [List.map_cons, List.sum_cons, List.length_cons]
      push_cast
      linarith

theorem abs_sum_sub_le (items : List α) (f g : α → ℚ) (error : ℚ) (h : ∀ a ∈ items, |f a - g a| ≤ error) :
    |(items.map f).sum - (items.map g).sum| ≤ items.length * error := by
  induction items with
  | nil => simp
  | cons a rest ih =>
      have hrest := ih fun b hb => h b (List.mem_cons_of_mem a hb)
      have ha := h a List.mem_cons_self
      rw [List.map_cons, List.map_cons, List.sum_cons, List.sum_cons, List.length_cons]
      have hsplit : f a + (rest.map f).sum - (g a + (rest.map g).sum) =
          (f a - g a) + ((rest.map f).sum - (rest.map g).sum) := by ring
      rw [hsplit]
      push_cast
      linarith [abs_add_le (f a - g a) ((rest.map f).sum - (rest.map g).sum)]

theorem sum_chosen [DecidableEq α] (items chosen : List α) (value : ℚ) (hd : items.Nodup) (hc : chosen.Nodup)
    (hs : ∀ a ∈ chosen, a ∈ items) :
    (items.map fun a => if a ∈ chosen then value else 0).sum = chosen.length * value := by
  have hindicator := sum_indicator items chosen hd hc hs
  have hcast : (items.map fun a => if a ∈ chosen then value else 0).sum =
      (((items.map fun a => if a ∈ chosen then (1 : ℤ) else 0).sum : ℤ) : ℚ) * value := by
    clear hindicator hd hs
    induction items with
    | nil => simp
    | cons a rest ih =>
        rw [List.map_cons, List.sum_cons, ih, List.map_cons, List.sum_cons]
        push_cast
        split_ifs <;> ring
  rw [hcast, hindicator]
  push_cast
  rfl

end Sums

section Map

variable {α β ρ : Type} [LinearOrder ρ] (rank : β → ρ) (f : α → β)

theorem first_map (n : ℕ) (items : List α) :
    first rank n (items.map f) = (first (fun a => rank (f a)) n items).map f := by
  have hordered : Replay.ordered rank (items.map f) = (Replay.ordered (fun a => rank (f a)) items).map f :=
    (List.map_insertionSort _ _ f items fun _ _ _ _ => Iff.rfl).symm
  rw [first, first, hordered, List.map_take]

-- Items seen through what ranks them.
theorem award_map [DecidableEq α] [DecidableEq β] (base : β → ℤ) (n : ℕ) (items : List α) (a : α)
    (hinj : ∀ b ∈ items, f b = f a → b = a) :
    award rank base n (items.map f) (f a) = award (fun b => rank (f b)) (fun b => base (f b)) n items a := by
  have hmem : f a ∈ first rank n (items.map f) ↔ a ∈ first (fun b => rank (f b)) n items := by
    rw [first_map, List.mem_map]
    constructor
    · rintro ⟨b, hb, hsame⟩
      rwa [← hinj b (mem_of_mem_first _ n items b hb) hsame]
    · exact fun h => ⟨a, h, rfl⟩
  unfold award
  rw [if_congr hmem rfl rfl]

end Map

section Apportion

variable {α ρ : Type} [LinearOrder ρ] (rank : α → ρ) (quota exact : α → ℚ)

-- What the whole parts of the quotas leave of the total.
def leftOver (total : ℤ) (items : List α) : ℤ := total - (items.map fun a => ⌊quota a⌋).sum

-- Quotas near exact ones that come to the total, the largest remainders first.
structure Apportions (items : List α) (total : ℤ) (error : ℚ) : Prop where
  ranks : (items.map rank).Nodup
  byRemainder : ∀ a ∈ items, ∀ b ∈ items, rank a < rank b → Int.fract (quota b) ≤ Int.fract (quota a)
  close : ∀ a ∈ items, |quota a - exact a| ≤ error
  sum : (items.map exact).sum = total
  small : 2 * (items.length * error) < 1

variable (items : List α) (total : ℤ) (error : ℚ)

theorem leftOver_eq : (leftOver quota total items : ℚ) =
    (items.map fun a => Int.fract (quota a)).sum + (total - (items.map quota).sum) := by
  have hsum : (items.map quota).sum =
      (((items.map fun a => ⌊quota a⌋).sum : ℤ) : ℚ) + (items.map fun a => Int.fract (quota a)).sum := by
    induction items with
    | nil => simp
    | cons a rest ih =>
        rw [List.map_cons, List.sum_cons, ih, List.map_cons, List.sum_cons, List.map_cons, List.sum_cons]
        push_cast
        linarith [Int.floor_add_fract (quota a)]
  rw [leftOver, hsum]
  push_cast
  ring

variable (h : Apportions rank quota exact items total error)

include h

theorem Apportions.nodup : items.Nodup := List.Nodup.of_map _ h.ranks

theorem Apportions.left_close :
    |(leftOver quota total items : ℚ) - (items.map fun a => Int.fract (quota a)).sum| ≤ items.length * error := by
  have hclose := abs_sum_sub_le items quota exact error h.close
  rw [h.sum] at hclose
  rw [leftOver_eq, add_sub_cancel_left, abs_sub_comm]
  exact hclose

theorem Apportions.left_nonneg : 0 ≤ leftOver quota total items := by
  have hfract : 0 ≤ (items.map fun a => Int.fract (quota a)).sum := by
    refine List.sum_nonneg fun x hx => ?_
    obtain ⟨a, _, rfl⟩ := List.mem_map.mp hx
    exact Int.fract_nonneg _
  have hclose := (abs_le.mp h.left_close).1
  have hsmall := h.small
  have hleft : (-1 : ℚ) < leftOver quota total items := by linarith
  have hint : (-1 : ℤ) < leftOver quota total items := by exact_mod_cast hleft
  omega

theorem Apportions.left_le : leftOver quota total items ≤ items.length := by
  have hfract := sum_le_length_mul items (fun a => Int.fract (quota a)) 1 fun a _ => (Int.fract_lt_one _).le
  have hclose := (abs_le.mp h.left_close).2
  have hsmall := h.small
  have hleft : (leftOver quota total items : ℚ) < items.length + 1 := by linarith
  have hint : leftOver quota total items < items.length + 1 := by exact_mod_cast hleft
  omega

theorem Apportions.length_awarded :
    ((first rank (leftOver quota total items).toNat items).length : ℚ) = leftOver quota total items := by
  have hnonneg := h.left_nonneg
  have hle := h.left_le
  rw [length_first rank _ items (by omega)]
  exact_mod_cast Int.toNat_of_nonneg hnonneg

variable [DecidableEq α]

-- An item left out with a remainder of almost a unit: the remainders before it would leave a unit more.
theorem Apportions.unawarded (a : α) (ha : a ∈ items)
    (hn : a ∉ first rank (leftOver quota total items).toNat items) : Int.fract (quota a) < 1 - error := by
  by_contra hbig
  rw [not_lt] at hbig
  have hlength := h.length_awarded
  generalize hfirst : first rank (leftOver quota total items).toNat items = awarded at hn hlength
  have hnodup : awarded.Nodup := hfirst ▸ nodup_first rank _ items h.ranks
  have hmem : ∀ b ∈ awarded, b ∈ items := hfirst ▸ mem_of_mem_first rank _ items
  have hchosen : ∀ b ∈ a :: awarded, b ∈ items := by
    intro b hb
    rcases List.mem_cons.mp hb with rfl | hb
    · exact ha
    · exact hmem b hb
  have hcount := sum_chosen items (a :: awarded) (1 - error) h.nodup (List.nodup_cons.mpr ⟨hn, hnodup⟩) hchosen
  have hle : (items.map fun b => if b ∈ a :: awarded then 1 - error else 0).sum ≤
      (items.map fun b => Int.fract (quota b)).sum := by
    refine List.sum_le_sum fun b hb => ?_
    split_ifs with hb'
    · rcases List.mem_cons.mp hb' with rfl | hb'
      · exact hbig
      · have hrank := rank_lt_of_first rank _ items h.ranks b a (hfirst ▸ hb') ha (hfirst ▸ hn)
        exact hbig.trans (h.byRemainder b hb a ha hrank)
    · exact Int.fract_nonneg _
  have hshort : ((a :: awarded).length : ℚ) ≤ items.length := by
    exact_mod_cast (List.subperm_of_subset (List.nodup_cons.mpr ⟨hn, hnodup⟩) hchosen).length_le
  have hnonneg : 0 ≤ error := (abs_nonneg _).trans (h.close a ha)
  have hclose := (abs_le.mp h.left_close).1
  have hsmall := h.small
  rw [hcount, List.length_cons] at hle
  rw [List.length_cons] at hshort
  push_cast at hle hshort
  rw [hlength] at hle hshort
  have hproduct := mul_le_mul_of_nonneg_right hshort hnonneg
  linarith

-- An item awarded with almost no remainder: those that come after it have as little, and leave less.
theorem Apportions.awarded (a : α) (ha : a ∈ first rank (leftOver quota total items).toNat items) :
    error < Int.fract (quota a) := by
  by_contra hsmallest
  rw [not_lt] at hsmallest
  have hlength := h.length_awarded
  have haitems := mem_of_mem_first rank _ items a ha
  generalize hfirst : first rank (leftOver quota total items).toNat items = awarded at ha hlength
  have hnodup : awarded.Nodup := hfirst ▸ nodup_first rank _ items h.ranks
  have hmem : ∀ b ∈ awarded, b ∈ items := hfirst ▸ mem_of_mem_first rank _ items
  have hnonneg : 0 ≤ error := (abs_nonneg _).trans (h.close a haitems)
  have hcount := sum_chosen items (awarded.erase a) 1 h.nodup (hnodup.erase a)
    fun b hb => hmem b (List.mem_of_mem_erase hb)
  have hle : (items.map fun b => Int.fract (quota b)).sum ≤
      (items.map fun b => (if b ∈ awarded.erase a then (1 : ℚ) else 0) + error).sum := by
    refine List.sum_le_sum fun b hb => ?_
    split_ifs with hb'
    · linarith [Int.fract_lt_one (quota b)]
    · rw [zero_add]
      by_cases hsame : b = a
      · rw [hsame]
        exact hsmallest
      · have hout : b ∉ awarded := fun hin => hb' ((List.mem_erase_of_ne hsame).mpr hin)
        have hrank := rank_lt_of_first rank _ items h.ranks a b (hfirst ▸ ha) hb (hfirst ▸ hout)
        exact (h.byRemainder a haitems b hb hrank).trans hsmallest
  have hsum : (items.map fun b => (if b ∈ awarded.erase a then (1 : ℚ) else 0) + error).sum =
      (items.map fun b => if b ∈ awarded.erase a then (1 : ℚ) else 0).sum + items.length * error := by
    rw [List.sum_map_add, List.map_const', List.sum_replicate, nsmul_eq_mul]
  have herase : ((awarded.erase a).length : ℚ) = awarded.length - 1 := by
    rw [List.length_erase_of_mem ha, Nat.cast_sub (List.length_pos_of_mem ha)]
    norm_num
  have hclose := (abs_le.mp h.left_close).2
  have hsmall := h.small
  rw [hsum, hcount, herase, hlength] at hle
  linarith

theorem Apportions.sum_award :
    (items.map (award rank (fun a => ⌊quota a⌋) (leftOver quota total items).toNat items)).sum = total := by
  have hnonneg := h.left_nonneg
  have hle := h.left_le
  rw [Awards.sum_award rank (fun a => ⌊quota a⌋) _ items h.ranks (by omega), Int.toNat_of_nonneg hnonneg, leftOver]
  omega

-- Every item gets its exact quota to less than a unit.
theorem Apportions.award_close (a : α) (ha : a ∈ items) :
    |(award rank (fun a => ⌊quota a⌋) (leftOver quota total items).toNat items a : ℚ) - exact a| < 1 := by
  have hquota := abs_le.mp (h.close a ha)
  have hsplit := Int.floor_add_fract (quota a)
  have hlt := Int.fract_lt_one (quota a)
  have hfract := Int.fract_nonneg (quota a)
  have herror : error < 1 := by
    have hnonneg : 0 ≤ error := (abs_nonneg _).trans (h.close a ha)
    have hone : (1 : ℚ) ≤ items.length := by exact_mod_cast List.length_pos_of_mem ha
    have hproduct := mul_le_mul_of_nonneg_right hone hnonneg
    linarith [h.small]
  unfold award
  split_ifs with hin
  · have hawarded := h.awarded rank quota exact items total error a hin
    push_cast
    exact abs_lt.mpr ⟨by linarith, by linarith⟩
  · have hunawarded := h.unawarded rank quota exact items total error a ha hin
    push_cast
    exact abs_lt.mpr ⟨by linarith, by linarith⟩

theorem Apportions.award_mono (hrank : ∀ a b, Int.fract (quota b) < Int.fract (quota a) → rank a < rank b)
    (a b : α) (hb : b ∈ items) (hlt : quota a < quota b) :
    award rank (fun a => ⌊quota a⌋) (leftOver quota total items).toNat items a ≤
      award rank (fun a => ⌊quota a⌋) (leftOver quota total items).toNat items b := by
  have hfloor := Int.floor_le_floor hlt.le
  rcases hfloor.lt_or_eq with hless | hsame
  · dsimp only [award]
    split_ifs <;> omega
  · -- the larger quota has the larger remainder and comes first
    have hsplitA := Int.floor_add_fract (quota a)
    have hsplitB := Int.floor_add_fract (quota b)
    have hfract : Int.fract (quota a) < Int.fract (quota b) := by
      rw [hsame] at hsplitA
      linarith
    have hbefore := hrank b a hfract
    dsimp only [award]
    by_cases hin : a ∈ first rank (leftOver quota total items).toNat items
    · have hboth : b ∈ first rank (leftOver quota total items).toNat items := by
        by_contra hout
        exact lt_asymm hbefore (rank_lt_of_first rank _ items h.ranks a b hin hb hout)
      rw [if_pos hin, if_pos hboth, hsame]
    · rw [if_neg hin, hsame]
      split_ifs <;> omega

end Apportion

end Awards
