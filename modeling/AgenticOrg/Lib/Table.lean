import Mathlib.Data.List.Nodup

namespace Tables

-- What a row of a table is found by.
class Keyed (ρ : Type) (κ : outParam Type) where
  key : ρ → κ

-- Rows in the order in which they came in, no two with the same key.
@[ext] structure Table (ρ : Type) {κ : Type} [Keyed ρ κ] where
  rows : List ρ
  distinct : (rows.map Keyed.key).Nodup

namespace Table

variable {ρ κ : Type} [Keyed ρ κ]

instance [DecidableEq ρ] : DecidableEq (Table ρ) := fun _ _ => decidable_of_iff _ Table.ext_iff.symm

section Operations

def empty : Table ρ := ⟨[], .nil⟩

variable [DecidableEq κ]

def find? (table : Table ρ) (key : κ) : Option ρ := table.rows.find? fun row => Keyed.key row = key

-- Nothing when the key is taken.
def insert? (table : Table ρ) (row : ρ) : Option (Table ρ) :=
  if h : Keyed.key row ∈ table.rows.map Keyed.key then none
  else
    some
      ⟨table.rows ++ [row], by
        rw [List.map_append, List.nodup_append]
        refine ⟨table.distinct, by simp, ?_⟩
        intro a ha b hb
        rw [List.map_singleton, List.mem_singleton] at hb
        rw [hb]
        intro he
        exact h (he ▸ ha)⟩

def filter (table : Table ρ) (keep : ρ → Bool) : Table ρ :=
  ⟨table.rows.filter keep, (List.filter_sublist.map _).nodup table.distinct⟩

-- Rewrites every row, which keeps its key.
def map (table : Table ρ) (f : ρ → ρ) (hf : ∀ row, Keyed.key (f row) = Keyed.key row) : Table ρ :=
  ⟨table.rows.map f, by
    have hkeys : (table.rows.map f).map Keyed.key = table.rows.map Keyed.key := by
      rw [List.map_map]
      exact List.map_congr_left fun row _ => hf row
    rw [hkeys]
    exact table.distinct⟩

-- Rewrites the row of a key, which it keeps.
def modify (table : Table ρ) (key : κ) (f : ρ → ρ) (hf : ∀ row, Keyed.key (f row) = Keyed.key row) :
    Table ρ :=
  ⟨table.rows.map fun row => if Keyed.key row = key then f row else row, by
    have hkeys : (table.rows.map fun row => if Keyed.key row = key then f row else row).map Keyed.key =
        table.rows.map Keyed.key := by
      rw [List.map_map]
      refine List.map_congr_left fun row _ => ?_
      rw [Function.comp_apply]
      split
      · exact hf row
      · rfl
    rw [hkeys]
    exact table.distinct⟩

end Operations

section Lemmas

@[simp] theorem rows_empty : (empty : Table ρ).rows = [] := rfl

theorem eq_of_key (table : Table ρ) (a b : ρ) (ha : a ∈ table.rows) (hb : b ∈ table.rows)
    (h : Keyed.key a = Keyed.key b) : a = b :=
  List.inj_on_of_nodup_map table.distinct ha hb h

-- A test that only the row of one key can meet.
theorem length_filter_le_one (table : Table ρ) (test : ρ → Bool)
    (h : ∀ a ∈ table.rows, ∀ b ∈ table.rows, test a = true → test b = true → Keyed.key a = Keyed.key b) :
    (table.rows.filter test).length ≤ 1 := by
  have hnodup : (table.rows.filter test).Nodup := (List.Nodup.of_map _ table.distinct).filter _
  match hf : table.rows.filter test with
  | [] => simp
  | [_] => simp
  | a :: b :: rest =>
      have ha : a ∈ table.rows.filter test := by simp [hf]
      have hb : b ∈ table.rows.filter test := by simp [hf]
      rw [List.mem_filter] at ha hb
      have hab : a = b := table.eq_of_key a b ha.1 hb.1 (h a ha.1 b hb.1 ha.2 hb.2)
      rw [hf, hab] at hnodup
      simp at hnodup

variable [DecidableEq κ]

theorem mem_of_find? (table : Table ρ) (key : κ) (row : ρ) (h : table.find? key = some row) :
    row ∈ table.rows ∧ Keyed.key row = key :=
  ⟨List.mem_of_find?_eq_some h, by simpa using List.find?_some h⟩

theorem rows_insert? (table table' : Table ρ) (row : ρ) (h : table.insert? row = some table') :
    table'.rows = table.rows ++ [row] ∧ ∀ other ∈ table.rows, Keyed.key other ≠ Keyed.key row := by
  unfold insert? at h
  split at h
  · cases h
  · rename_i hfresh
    cases h
    refine ⟨rfl, fun other ho he => hfresh ?_⟩
    rw [← he]
    exact List.mem_map_of_mem ho

theorem mem_modify (table : Table ρ) (key : κ) (f : ρ → ρ)
    (hf : ∀ row, Keyed.key (f row) = Keyed.key row) (row : ρ) (hr : row ∈ (table.modify key f hf).rows) :
    ∃ old ∈ table.rows, (Keyed.key old ≠ key ∧ row = old) ∨ (Keyed.key old = key ∧ row = f old) := by
  obtain ⟨old, ho, he⟩ := List.mem_map.mp hr
  split at he
  · rename_i hk
    exact ⟨old, ho, .inr ⟨hk, he.symm⟩⟩
  · rename_i hk
    exact ⟨old, ho, .inl ⟨hk, he.symm⟩⟩

theorem mem_modify_of_ne (table : Table ρ) (key : κ) (f : ρ → ρ)
    (hf : ∀ row, Keyed.key (f row) = Keyed.key row) (row : ρ) (hr : row ∈ table.rows)
    (hne : Keyed.key row ≠ key) : row ∈ (table.modify key f hf).rows :=
  List.mem_map.mpr ⟨row, hr, if_neg hne⟩

theorem find?_eq_some_iff (table : Table ρ) (key : κ) (row : ρ) :
    table.find? key = some row ↔ row ∈ table.rows ∧ Keyed.key row = key := by
  constructor
  · exact table.mem_of_find? key row
  · rintro ⟨hr, hk⟩
    obtain ⟨found, hf⟩ : ∃ found, table.find? key = some found := by
      rw [← Option.isSome_iff_exists, find?, List.find?_isSome]
      exact ⟨row, hr, decide_eq_true hk⟩
    obtain ⟨hfound, hkey⟩ := table.mem_of_find? key found hf
    rw [hf, table.eq_of_key found row hfound hr (hkey.trans hk.symm)]

theorem find?_eq_none_iff (table : Table ρ) (key : κ) :
    table.find? key = none ↔ ∀ row ∈ table.rows, Keyed.key row ≠ key := by
  simp [find?, List.find?_eq_none]

-- Of the rows of one key there is one at most.
theorem countP_key (table : Table ρ) (key : κ) (test : ρ → Bool) :
    table.rows.countP (fun row => Keyed.key row = key && test row) =
      if (table.find? key).any test then 1 else 0 := by
  have hle := table.length_filter_le_one (fun row => Keyed.key row = key && test row) fun a _ b _ ha hb => by
    rw [Bool.and_eq_true, decide_eq_true_eq] at ha hb
    exact ha.1.trans hb.1.symm
  rw [← List.countP_eq_length_filter] at hle
  split_ifs with hfind
  · obtain ⟨row, hrow, htest⟩ := (Option.any_eq_true _ _).mp hfind
    obtain ⟨hmem, hk⟩ := table.mem_of_find? key row hrow
    have hpos : 0 < table.rows.countP fun row => Keyed.key row = key && test row :=
      List.countP_pos_iff.mpr ⟨row, hmem, by simp [hk, htest]⟩
    omega
  · rw [List.countP_eq_zero]
    intro row hmem hboth
    rw [Bool.and_eq_true, decide_eq_true_eq] at hboth
    refine hfind ?_
    rw [(table.find?_eq_some_iff key row).mpr ⟨hmem, hboth.1⟩]
    exact hboth.2

theorem insert?_of_absent (table : Table ρ) (row : ρ) (h : table.find? (Keyed.key row) = none) :
    ∃ table', table.insert? row = some table' ∧ table'.rows = table.rows ++ [row] := by
  have hfresh : Keyed.key row ∉ table.rows.map Keyed.key := by
    intro hm
    obtain ⟨other, ho, he⟩ := List.mem_map.mp hm
    exact (find?_eq_none_iff table _).mp h other ho he
  rw [insert?, dif_neg hfresh]
  exact ⟨_, rfl, rfl⟩

theorem insert?_of_taken (table : Table ρ) (row other : ρ) (h : table.find? (Keyed.key row) = some other) :
    table.insert? row = none := by
  obtain ⟨ho, hk⟩ := table.mem_of_find? _ other h
  exact dif_pos (List.mem_map.mpr ⟨other, ho, hk⟩)

theorem find?_of_insert? (table table' : Table ρ) (row : ρ) (h : table.insert? row = some table') (key : κ) :
    table'.find? key = if Keyed.key row = key then some row else table.find? key := by
  obtain ⟨hrows, hfresh⟩ := rows_insert? table table' row h
  by_cases hk : Keyed.key row = key
  · rw [if_pos hk, find?_eq_some_iff, hrows]
    exact ⟨by simp, hk⟩
  · rw [if_neg hk, find?, hrows, List.find?_append, ← find?]
    simp [hk]

theorem find?_modify (table : Table ρ) (key : κ) (f : ρ → ρ)
    (hf : ∀ row, Keyed.key (f row) = Keyed.key row) (other : κ) :
    (table.modify key f hf).find? other =
      if key = other then (table.find? other).map f else table.find? other := by
  have hfind : (table.modify key f hf).find? other =
      (table.find? other).map fun row => if Keyed.key row = key then f row else row := by
    have htest : ((fun row : ρ => decide (Keyed.key row = other)) ∘ fun row =>
        if Keyed.key row = key then f row else row) = fun row => decide (Keyed.key row = other) := by
      funext row
      rw [Function.comp_apply]
      split
      · rw [hf]
      · rfl
    rw [find?, modify, List.find?_map, htest, find?]
  rw [hfind]
  split
  · rename_i hk
    refine Option.map_congr fun row hr => ?_
    rw [if_pos ((table.mem_of_find? other row hr).2.trans hk.symm)]
  · rename_i hk
    cases hr : table.find? other with
    | none => rfl
    | some row =>
        have hne : Keyed.key row ≠ key := fun he => hk (he.symm.trans (table.mem_of_find? other row hr).2)
        rw [Option.map_some, if_neg hne]

theorem find?_map (table : Table ρ) (f : ρ → ρ) (hf : ∀ row, Keyed.key (f row) = Keyed.key row) (key : κ) :
    (table.map f hf).find? key = (table.find? key).map f := by
  have htest : ((fun row : ρ => decide (Keyed.key row = key)) ∘ f) = fun row => decide (Keyed.key row = key) := by
    funext row
    rw [Function.comp_apply, hf]
  rw [find?, map, List.find?_map, htest, find?]

theorem find?_filter (table : Table ρ) (keep : ρ → Bool) (key : κ) :
    (table.filter keep).find? key = (table.find? key).filter keep := by
  cases hr : table.find? key with
  | none =>
      rw [Option.filter_none, find?_eq_none_iff]
      intro row hrow
      exact (find?_eq_none_iff table key).mp hr row (List.mem_of_mem_filter hrow)
  | some row =>
      obtain ⟨hrow, hk⟩ := table.mem_of_find? key row hr
      by_cases hkeep : keep row = true
      · rw [Option.filter_some, if_pos hkeep, find?_eq_some_iff]
        exact ⟨List.mem_filter.mpr ⟨hrow, hkeep⟩, hk⟩
      · rw [Option.filter_some, if_neg hkeep, find?_eq_none_iff]
        intro other ho he
        obtain ⟨hmem, htest⟩ := List.mem_filter.mp ho
        rw [table.eq_of_key other row hmem hrow (he.trans hk.symm)] at htest
        exact hkeep htest

end Lemmas

end Table

end Tables
