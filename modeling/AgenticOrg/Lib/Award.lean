import AgenticOrg.Lib.Replay
import Mathlib.Algebra.BigOperators.Group.Finset.Basic
import Mathlib.Algebra.BigOperators.Ring.Finset
import Mathlib.Algebra.Order.Ring.Int

namespace Awards

section First

variable {α ρ : Type} [LinearOrder ρ] (rank : α → ρ)

-- The items that come first, so many of them.
def first (n : ℕ) (items : List α) : List α := (Replay.ordered rank items).take n

theorem mem_of_mem_first (n : ℕ) (items : List α) (a : α) (h : a ∈ first rank n items) : a ∈ items :=
  (Replay.mem_ordered rank items a).mp (List.mem_of_mem_take h)

theorem length_first (n : ℕ) (items : List α) (h : n ≤ items.length) : (first rank n items).length = n := by
  have hlength : (Replay.ordered rank items).length = items.length := List.length_insertionSort _ items
  rw [first, List.length_take, hlength, Nat.min_eq_left h]

theorem nodup_first (n : ℕ) (items : List α) (hd : (items.map rank).Nodup) : (first rank n items).Nodup := by
  have hordered : (Replay.ordered rank items).Nodup :=
    (List.perm_insertionSort _ items).nodup_iff.mpr (List.Nodup.of_map _ hd)
  exact (List.take_sublist n _).nodup hordered

theorem rank_lt_of_first (n : ℕ) (items : List α) (hd : (items.map rank).Nodup) (a b : α)
    (ha : a ∈ first rank n items) (hb : b ∈ items) (hn : b ∉ first rank n items) : rank a < rank b := by
  have hascending := Replay.ordered_ascending rank items hd
  rw [← List.take_append_drop n (Replay.ordered rank items), List.pairwise_append] at hascending
  have hmem : b ∈ Replay.ordered rank items := (Replay.mem_ordered rank items b).mpr hb
  rw [← List.take_append_drop n (Replay.ordered rank items), List.mem_append] at hmem
  exact hascending.2.2 a ha b (hmem.resolve_left hn)

-- Of the items two lists share, those that come first in one come first in the other, or the other way round.
theorem first_nested (n m : ℕ) (xs ys : List α) (hx : (xs.map rank).Nodup) (hy : (ys.map rank).Nodup) :
    (∀ a ∈ xs, a ∈ ys → a ∈ first rank n xs → a ∈ first rank m ys) ∨
      (∀ a ∈ xs, a ∈ ys → a ∈ first rank m ys → a ∈ first rank n xs) := by
  by_contra hnot
  push Not at hnot
  obtain ⟨⟨a, hax, hay, ha, han⟩, b, hbx, hby, hb, hbn⟩ := hnot
  have hab : rank a < rank b := rank_lt_of_first rank n xs hx a b ha hbx hbn
  have hba : rank b < rank a := rank_lt_of_first rank m ys hy b a hb hay han
  exact lt_asymm hab hba

end First

section Award

variable {α ρ : Type} [LinearOrder ρ] [DecidableEq α] (rank : α → ρ) (base : α → ℤ)

-- One more than its own for each item that comes first.
def award (n : ℕ) (items : List α) (a : α) : ℤ :=
  base a + if a ∈ first rank n items then 1 else 0

theorem sum_indicator (items chosen : List α) (hd : items.Nodup) (hc : chosen.Nodup)
    (hs : ∀ a ∈ chosen, a ∈ items) :
    (items.map fun a => if a ∈ chosen then (1 : ℤ) else 0).sum = chosen.length := by
  have hfilter : items.toFinset.filter (· ∈ chosen) = chosen.toFinset := by
    ext a
    rw [Finset.mem_filter, List.mem_toFinset, List.mem_toFinset]
    exact and_iff_right_of_imp (hs a)
  rw [← List.sum_toFinset _ hd, Finset.sum_boole, hfilter, List.toFinset_card_of_nodup hc]

-- The awards come to the items' own and the units given out.
theorem sum_award (n : ℕ) (items : List α) (hd : (items.map rank).Nodup) (hn : n ≤ items.length) :
    (items.map (award rank base n items)).sum = (items.map base).sum + n := by
  have hsplit : (items.map (award rank base n items)).sum =
      (items.map base).sum + (items.map fun a => if a ∈ first rank n items then (1 : ℤ) else 0).sum :=
    List.sum_map_add
  rw [hsplit, sum_indicator items _ (List.Nodup.of_map _ hd) (nodup_first rank n items hd)
    (mem_of_mem_first rank n items), length_first rank n items hn]

-- Of what two lists share, no item is awarded more by one of them.
theorem award_nested (n m : ℕ) (xs ys : List α) (hx : (xs.map rank).Nodup) (hy : (ys.map rank).Nodup) :
    (∀ a ∈ xs, a ∈ ys → award rank base n xs a ≤ award rank base m ys a) ∨
      (∀ a ∈ xs, a ∈ ys → award rank base m ys a ≤ award rank base n xs a) := by
  refine (first_nested rank n m xs ys hx hy).imp ?_ ?_
  · intro h a hax hay
    have ha := h a hax hay
    unfold award
    split_ifs <;> first | omega | tauto
  · intro h a hax hay
    have ha := h a hax hay
    unfold award
    split_ifs <;> first | omega | tauto

end Award

end Awards
