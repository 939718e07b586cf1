import Mathlib.Algebra.BigOperators.Group.List.Basic
import Mathlib.Algebra.Order.BigOperators.Group.List
import Mathlib.Algebra.Order.Ring.Int
import Mathlib.Data.List.Induction
import Mathlib.Data.List.Nodup

namespace Lists

section Sums

variable {α : Type} (f : α → ℤ)

theorem sum_filter {M : Type} [AddMonoid M] (f : α → M) (test : α → Bool) (xs : List α) (h : ∀ a ∈ xs, ¬test a = true → f a = 0) :
    ((xs.filter test).map f).sum = (xs.map f).sum := by
  induction xs with
  | nil => rfl
  | cons a rest ih =>
      have hrest := ih fun b hb => h b (List.mem_cons_of_mem _ hb)
      rw [List.map_cons, List.sum_cons, ← hrest, List.filter_cons]
      split_ifs with ht
      · rw [List.map_cons, List.sum_cons]
      · rw [h a List.mem_cons_self ht, zero_add]

-- What counts in one list of different items is in the other.
theorem sum_le_of_support (xs ys : List α) (hd : xs.Nodup) (hs : ∀ a ∈ xs, f a ≠ 0 → a ∈ ys)
    (hf : ∀ a ∈ ys, 0 ≤ f a) : (xs.map f).sum ≤ (ys.map f).sum := by
  classical
  have hfilter := sum_filter f (fun a => f a ≠ 0) xs fun a _ hz => by simpa using hz
  have hsubset : (xs.filter fun a => f a ≠ 0) ⊆ ys := by
    intro a ha
    rw [List.mem_filter, decide_eq_true_eq] at ha
    exact hs a ha.1 ha.2
  obtain ⟨zs, hperm, hsub⟩ := List.subperm_of_subset (hd.filter _) hsubset
  rw [← hfilter, ← (hperm.map f).sum_eq]
  refine List.Sublist.sum_le_sum (hsub.map f) ?_
  intro x hx
  obtain ⟨a, ha, rfl⟩ := List.mem_map.mp hx
  exact hf a ha

theorem sum_le_of_subset (xs ys : List α) (hd : xs.Nodup) (hs : ∀ a ∈ xs, a ∈ ys) (hf : ∀ a ∈ ys, 0 ≤ f a) :
    (xs.map f).sum ≤ (ys.map f).sum :=
  sum_le_of_support f xs ys hd (fun a ha _ => hs a ha) hf

end Sums

section Lookups

variable {κ ν : Type} [DecidableEq κ]

theorem lookup_of_mem (entries : List (κ × ν)) (key : κ) (value : ν) (hd : (entries.map (·.1)).Nodup)
    (h : (key, value) ∈ entries) : entries.lookup key = some value := by
  induction entries with
  | nil => cases h
  | cons entry rest ih =>
      rw [List.map_cons, List.nodup_cons] at hd
      obtain rfl | hm := List.mem_cons.mp h
      · exact List.lookup_cons_self
      · have hne : key ≠ entry.1 := fun he => hd.1 (he ▸ List.mem_map_of_mem hm)
        rw [List.lookup_cons, beq_false_of_ne hne]
        exact ih hd.2 hm

theorem lookup_of_not_mem (entries : List (κ × ν)) (key : κ) (h : key ∉ entries.map (·.1)) :
    entries.lookup key = none := by
  rw [List.lookup_eq_none_iff]
  intro entry he
  rw [bne_iff_ne]
  rintro rfl
  exact h (List.mem_map_of_mem he)

end Lookups

section Places

variable {α : Type}

-- An item at a place, what comes before it and what comes after.
theorem split_at (xs : List α) (index : ℕ) (a : α) (h : xs[index]? = some a) :
    ∃ before after, xs = before ++ a :: after ∧ ∀ b, xs.set index b = before ++ b :: after := by
  obtain ⟨hlt, hget⟩ := List.getElem?_eq_some_iff.mp h
  refine ⟨xs.take index, xs.drop (index + 1), ?_, fun b => ?_⟩
  · rw [← hget, List.cons_getElem_drop_succ, List.take_append_drop]
  · rw [List.set_eq_take_append_cons_drop, if_pos hlt]

end Places

section Sorting

variable {α : Type} (le : α → α → Bool) (P : α → Prop)

-- A comparison that is an order on the items at hand sorts them.
theorem pairwise_mergeSort_of (htrans : ∀ a b c, P a → P b → P c → le a b = true → le b c = true → le a c = true)
    (htotal : ∀ a b, P a → P b → (le a b || le b a) = true) (xs : List α) (h : ∀ a ∈ xs, P a) :
    (xs.mergeSort le).Pairwise fun a b => le a b = true := by
  have hval := List.attachWith_map_subtype_val h
  have hsort := List.map_mergeSort (r := fun a b => le a.val b.val) (s := le) (l := xs.attachWith P h)
    (f := Subtype.val) fun _ _ _ _ => rfl
  rw [hval] at hsort
  have hsorted : ((xs.attachWith P h).mergeSort fun a b => le a.val b.val).Pairwise
      fun a b => le a.val b.val = true :=
    List.pairwise_mergeSort (fun a b c : { a // P a } => htrans a b c a.property b.property c.property)
      (fun a b : { a // P a } => htotal a b a.property b.property) _
  rw [← hsort]
  exact List.pairwise_map.mpr hsorted

end Sorting

section Prefixes

variable {α κ β : Type} [DecidableEq κ]

-- The groups of a list, where each item counted is the first of its group.
theorem filterMap_eraseDups (key : α → κ) (f : κ → Option β) (test : α → Bool) (g : α → β) (xs : List α)
    (h : ∀ before x after, xs = before ++ x :: after →
      (key x ∈ before.map key → test x = false) ∧
        (key x ∉ before.map key → f (key x) = if test x then some (g x) else none)) :
    (xs.map key).eraseDups.filterMap f = (xs.filter test).map g := by
  induction xs using List.reverseRecOn with
  | nil => rfl
  | append_singleton xs x ih =>
      obtain ⟨hlater, hfirst⟩ := h xs x [] rfl
      have hinit := ih fun before y after hsplit => h before y (after ++ [x]) (by
        rw [hsplit, List.append_assoc, List.cons_append])
      have herase : [key x].removeAll (xs.map key) = if key x ∈ xs.map key then [] else [key x] := by
        rw [List.removeAll, List.filter_singleton]
        by_cases hin : key x ∈ xs.map key
        · simp [hin]
        · simp [hin]
      rw [List.map_append, List.map_singleton, List.eraseDups_append, List.filterMap_append, hinit, herase,
        List.filter_append, List.map_append]
      by_cases hin : key x ∈ xs.map key
      · rw [if_pos hin, List.filter_cons_of_neg (by rw [hlater hin]; exact Bool.false_ne_true)]
        rfl
      · rw [if_neg hin]
        have hone : [key x].eraseDups = [key x] := rfl
        have hvalue := hfirst hin
        by_cases ht : test x = true
        · rw [if_pos ht] at hvalue
          rw [List.filter_cons_of_pos ht, hone, List.filterMap_cons_some hvalue]
          rfl
        · rw [if_neg ht] at hvalue
          rw [List.filter_cons_of_neg ht, hone, List.filterMap_cons_none hvalue]
          rfl

-- The first items that pass a test, read from a prefix by another test that agrees with it for as long as items are
-- still wanted.
theorem take_filter_take (found wanted : α → Bool) (xs : List α) (length limit : ℕ)
    (h : ∀ before x after, xs = before ++ x :: after → (before.filter wanted).length < limit →
      (before.length < length → found x = wanted x) ∧ (length ≤ before.length → wanted x = false)) :
    ((xs.take length).filter found).take limit = (xs.filter wanted).take limit := by
  induction xs generalizing length limit with
  | nil => rw [List.take_nil]; rfl
  | cons x xs ih =>
      cases limit with
      | zero => rfl
      | succ limit =>
          have hstep := h [] x xs rfl (Nat.succ_pos limit)
          have hrest : ∀ length' limit', length' = length - 1 →
              (limit' + if wanted x then 1 else 0) = limit + 1 →
              ((xs.take length').filter found).take limit' = (xs.filter wanted).take limit' := by
            rintro length' limit' rfl hlimit
            refine ih (length - 1) limit' fun before y after hsplit hcount => ?_
            have hnext := h (x :: before) y after (by rw [hsplit, List.cons_append]) (by
              rw [List.filter_cons]
              split_ifs at hlimit ⊢
              · rw [List.length_cons]; omega
              · omega)
            refine ⟨fun hlt => hnext.1 (by rw [List.length_cons]; omega), fun hle => ?_⟩
            by_cases hz : length = 0
            · exact hnext.2 (by omega)
            · exact hnext.2 (by rw [List.length_cons]; omega)
          cases length with
          | zero =>
              have hwanted : wanted x = false := hstep.2 (Nat.le_refl 0)
              have hnone := hrest 0 (limit + 1) rfl (by rw [hwanted]; rfl)
              rw [List.filter_cons_of_neg (by rw [hwanted]; exact Bool.false_ne_true), ← hnone]
              rfl
          | succ length =>
              have hsame : found x = wanted x := hstep.1 (Nat.succ_pos length)
              rw [List.take_succ_cons, List.filter_cons, List.filter_cons, hsame]
              by_cases hw : wanted x = true
              · rw [if_pos hw, if_pos hw, List.take_succ_cons, List.take_succ_cons,
                  hrest length limit rfl (by rw [if_pos hw])]
              · rw [if_neg hw, if_neg hw, hrest length (limit + 1) rfl (by rw [if_neg hw])]

end Prefixes

end Lists
