import AgenticOrg.Lib.Dict
import Mathlib.Data.List.Pairwise
import Mathlib.Data.Set.Basic

namespace Prunings

open OrderedDict

variable {κ α : Type} [BEq κ]

section Operations

-- One pass over a snapshot: what the rest does not hold goes at once, and the pass tells whether anything went.
def sweep (holds : Dict κ α → α → Bool) : List (κ × α) → Dict κ α × Bool → Dict κ α × Bool
  | [], state => state
  | entry :: rest, state =>
      if holds state.1 entry.2 then sweep holds rest state else sweep holds rest (state.1.erase entry.1, true)

end Operations

section Passes

variable (holds : Dict κ α → α → Bool)

theorem mem_entries_erase (dict : Dict κ α) (key : κ) (entry : κ × α) :
    entry ∈ (dict.erase key).entries ↔ entry ∈ dict.entries ∧ (entry.1 == key) = false := by
  rw [Dict.erase, List.mem_filter, Bool.not_eq_true']

theorem sweep_entries_subset (snapshot : List (κ × α)) (state : Dict κ α × Bool) :
    ∀ entry ∈ (sweep holds snapshot state).1.entries, entry ∈ state.1.entries := by
  induction snapshot generalizing state with
  | nil => exact fun _ h => h
  | cons first rest ih =>
      rw [sweep]
      split
      · exact ih state
      · intro entry he
        exact ((mem_entries_erase state.1 first.1 entry).mp (ih _ entry he)).1

theorem sweep_size_le (snapshot : List (κ × α)) (state : Dict κ α × Bool) :
    (sweep holds snapshot state).1.size ≤ state.1.size := by
  induction snapshot generalizing state with
  | nil => exact Nat.le_refl _
  | cons first rest ih =>
      rw [sweep]
      split
      · exact ih state
      · exact Nat.le_trans (ih _) (List.length_filter_le _ _)

-- A pass that changes nothing held every entry of the snapshot.
theorem sweep_unchanged (snapshot : List (κ × α)) (state : Dict κ α × Bool)
    (h : (sweep holds snapshot state).2 = false) :
    (sweep holds snapshot state).1 = state.1 ∧ ∀ entry ∈ snapshot, holds state.1 entry.2 = true := by
  have htrue : ∀ (rest : List (κ × α)) (dict : Dict κ α), (sweep holds rest (dict, true)).2 = true := by
    intro rest
    induction rest with
    | nil => exact fun _ => rfl
    | cons next rest ih =>
        intro dict
        rw [sweep]
        split
        · exact ih dict
        · exact ih _
  induction snapshot with
  | nil => exact ⟨rfl, fun _ he => absurd he List.not_mem_nil⟩
  | cons first rest ih =>
      rw [sweep] at h ⊢
      split at h
      · rename_i hfirst
        obtain ⟨hsame, hrest⟩ := ih h
        rw [if_pos hfirst]
        refine ⟨hsame, ?_⟩
        intro entry he
        rcases List.mem_cons.mp he with rfl | he
        · exact hfirst
        · exact hrest entry he
      · rw [htrue] at h
        cases h

-- Entries that hold one another in whatever they are part of.
def SelfSupporting (T : Set (κ × α)) : Prop :=
  ∀ dict : Dict κ α, (∀ entry ∈ T, entry ∈ dict.entries) → ∀ entry ∈ T, holds dict entry.2 = true

-- A pass leaves them all in.
theorem sweep_keeps (T : Set (κ × α)) (hT : SelfSupporting holds T) (snapshot : List (κ × α))
    (state : Dict κ α × Bool) (hs : ∀ entry ∈ snapshot, ∀ other ∈ T, (other.1 == entry.1) = true → other = entry)
    (hin : ∀ entry ∈ T, entry ∈ state.1.entries) :
    ∀ entry ∈ T, entry ∈ (sweep holds snapshot state).1.entries := by
  induction snapshot generalizing state with
  | nil => exact hin
  | cons first rest ih =>
      have hrest := fun entry he => hs entry (List.mem_cons_of_mem first he)
      rw [sweep]
      split
      · exact ih state hrest hin
      · rename_i hfirst
        refine ih _ hrest ?_
        intro entry he
        rw [mem_entries_erase]
        refine ⟨hin entry he, ?_⟩
        rw [Bool.eq_false_iff]
        intro hk
        have heq := hs first List.mem_cons_self entry he hk
        rw [heq] at he
        exact hfirst (hT state.1 hin first he)

variable [EquivBEq κ]

theorem erase_size_lt (dict : Dict κ α) (entry : κ × α) (he : entry ∈ dict.entries) :
    (dict.erase entry.1).size < dict.size := by
  refine List.length_filter_lt_length_iff_exists.mpr ⟨entry, he, ?_⟩
  simp

theorem sweep_size_lt (snapshot : List (κ × α)) (dict : Dict κ α)
    (hd : snapshot.Pairwise fun a b => (a.1 == b.1) = false) (hs : ∀ entry ∈ snapshot, entry ∈ dict.entries)
    (h : (sweep holds snapshot (dict, false)).2 = true) :
    (sweep holds snapshot (dict, false)).1.size < dict.size := by
  induction snapshot with
  | nil => cases h
  | cons first rest ih =>
      rw [sweep] at h ⊢
      split
      · rename_i hfirst
        rw [if_pos hfirst] at h
        exact ih (List.pairwise_cons.mp hd).2 (fun entry he => hs entry (List.mem_cons_of_mem _ he)) h
      · exact Nat.lt_of_le_of_lt (sweep_size_le holds _ _) (erase_size_lt dict first (hs first List.mem_cons_self))

theorem eq_of_same_key (dict : Dict κ α) (a b : κ × α) (ha : a ∈ dict.entries) (hb : b ∈ dict.entries)
    (hk : (a.1 == b.1) = true) : a = b := by
  have hsymm : Std.Symm fun x y : κ × α => (x.1 == y.1) = false := ⟨fun x y h => by rw [BEq.comm]; exact h⟩
  by_contra hne
  have hdistinct := dict.distinct.forall ha hb hne
  rw [hdistinct] at hk
  cases hk

end Passes

section Fixpoint

-- Passes until one changes nothing.
def prune [EquivBEq κ] (holds : Dict κ α → α → Bool) (active : Dict κ α) : Dict κ α :=
  let next := sweep holds active.entries (active, false)
  if next.2 = true then prune holds next.1 else next.1
  termination_by active.size
  decreasing_by
    rename_i h
    exact sweep_size_lt holds active.entries active active.distinct (fun _ he => he) h

variable [EquivBEq κ] (holds : Dict κ α → α → Bool)

theorem prune_subset (active : Dict κ α) : ∀ entry ∈ (prune holds active).entries, entry ∈ active.entries := by
  induction active using prune.induct holds with
  | case1 active next hchanged ih =>
      rw [prune, if_pos hchanged]
      intro entry he
      exact sweep_entries_subset holds active.entries (active, false) entry (ih entry he)
  | case2 active next hsame =>
      rw [prune, if_neg hsame]
      exact sweep_entries_subset holds active.entries (active, false)

-- What is left holds all of what is left.
theorem prune_holds (active : Dict κ α) :
    ∀ entry ∈ (prune holds active).entries, holds (prune holds active) entry.2 = true := by
  induction active using prune.induct holds with
  | case1 active next hchanged ih =>
      rw [prune, if_pos hchanged]
      exact ih
  | case2 active next hsame =>
      obtain ⟨heq, hall⟩ := sweep_unchanged holds active.entries (active, false) (Bool.eq_false_iff.mpr hsame)
      rw [prune, if_neg hsame, heq]
      exact hall

theorem prune_keeps (active : Dict κ α) (T : Set (κ × α)) (hT : SelfSupporting holds T)
    (hin : ∀ entry ∈ T, entry ∈ active.entries) : ∀ entry ∈ T, entry ∈ (prune holds active).entries := by
  induction active using prune.induct holds with
  | case1 active next hchanged ih =>
      rw [prune, if_pos hchanged]
      refine ih (sweep_keeps holds T hT active.entries (active, false) ?_ hin)
      exact fun entry he other ho hk => eq_of_same_key active other entry (hin other ho) he hk
  | case2 active next hsame =>
      obtain ⟨heq, _⟩ := sweep_unchanged holds active.entries (active, false) (Bool.eq_false_iff.mpr hsame)
      rw [prune, if_neg hsame, heq]
      exact hin

end Fixpoint

end Prunings
