import Mathlib.Data.List.Perm.Subperm
import Mathlib.Data.List.Nodup

namespace OrderedDict

-- A dictionary that remembers the order in which its keys first came in.
-- Two keys count as one key when `==` says so, which need not be equality:
-- the key kept is the one that came in first.
@[ext] structure Dict (κ α : Type) [BEq κ] where
  entries : List (κ × α)
  distinct : entries.Pairwise fun a b => (a.1 == b.1) = false

namespace Dict

section Operations

variable {κ α : Type} [BEq κ]

def empty : Dict κ α := ⟨[], .nil⟩

def keys (dict : Dict κ α) : List κ := dict.entries.map Prod.fst

def size (dict : Dict κ α) : Nat := dict.entries.length

def contains (dict : Dict κ α) (key : κ) : Bool := dict.entries.any (·.1 == key)

def get? (dict : Dict κ α) (key : κ) : Option α :=
  (dict.entries.find? (·.1 == key)).map Prod.snd

def put (key : κ) (value : α) : List (κ × α) → List (κ × α)
  | [] => [(key, value)]
  | entry :: rest =>
      if entry.1 == key then (entry.1, value) :: rest else entry :: put key value rest

theorem fst_mem_put (key : κ) (value : α) (entries : List (κ × α)) (found : κ × α)
    (hf : found ∈ put key value entries) :
    found.1 = key ∨ ∃ entry ∈ entries, entry.1 = found.1 := by
  induction entries with
  | nil =>
      rw [put, List.mem_singleton] at hf
      exact .inl (by rw [hf])
  | cons entry rest ih =>
      rw [put] at hf
      split at hf
      · rcases List.mem_cons.mp hf with rfl | hf
        · exact .inr ⟨entry, by simp, rfl⟩
        · exact .inr ⟨found, by simp [hf], rfl⟩
      · rcases List.mem_cons.mp hf with rfl | hf
        · exact .inr ⟨found, by simp, rfl⟩
        · rcases ih hf with he | ⟨other, ho, he⟩
          · exact .inl he
          · exact .inr ⟨other, by simp [ho], he⟩

theorem put_distinct (key : κ) (value : α) (entries : List (κ × α))
    (hd : entries.Pairwise fun a b => (a.1 == b.1) = false) :
    (put key value entries).Pairwise fun a b => (a.1 == b.1) = false := by
  induction entries with
  | nil => simp [put]
  | cons entry rest ih =>
      obtain ⟨hhead, hrest⟩ := List.pairwise_cons.mp hd
      rw [put]
      split
      · exact List.pairwise_cons.mpr ⟨fun other ho => hhead other ho, hrest⟩
      · rename_i hne
        refine List.pairwise_cons.mpr ⟨?_, ih hrest⟩
        intro found hf
        rcases fst_mem_put key value rest found hf with he | ⟨other, ho, he⟩
        · rw [he]
          exact Bool.eq_false_iff.mpr hne
        · rw [← he]
          exact hhead other ho

def insert (dict : Dict κ α) (key : κ) (value : α) : Dict κ α :=
  ⟨put key value dict.entries, put_distinct key value dict.entries dict.distinct⟩

def ofList (entries : List (κ × α)) : Dict κ α :=
  entries.foldl (fun dict entry => dict.insert entry.1 entry.2) empty

-- Gathers items under their keys; `add` takes an item in, to what its key has so far.
def gather {ι : Type} (key : ι → κ) (add : Option α → ι → α) (items : List ι) : Dict κ α :=
  items.foldl (fun dict item => dict.insert (key item) (add (dict.get? (key item)) item)) empty

def mapKeys {κ' : Type} [BEq κ'] (f : κ → κ') (dict : Dict κ α) : Dict κ' α :=
  ofList (dict.entries.map fun entry => (f entry.1, entry.2))

end Operations

section Lemmas

variable {κ α : Type} [BEq κ]

theorem contains_iff (dict : Dict κ α) (key : κ) :
    dict.contains key = true ↔ ∃ found ∈ dict.keys, (found == key) = true := by
  simp [contains, keys, List.any_eq_true]

theorem isSome_get? (dict : Dict κ α) (key : κ) :
    (dict.get? key).isSome = dict.contains key := by
  rw [get?, contains, Option.isSome_map, Bool.eq_iff_iff, List.find?_isSome, List.any_eq_true]

theorem get?_eq_none_iff (dict : Dict κ α) (key : κ) :
    dict.get? key = none ↔ dict.contains key = false := by
  rw [← isSome_get?, Option.isSome_eq_false_iff, Option.isNone_iff_eq_none]

@[simp] theorem get?_empty (key : κ) : (empty : Dict κ α).get? key = none := rfl

@[simp] theorem contains_empty (key : κ) : (empty : Dict κ α).contains key = false := rfl

theorem mem_keys_insert (dict : Dict κ α) (key : κ) (value : α) (found : κ)
    (hf : found ∈ (dict.insert key value).keys) : found = key ∨ found ∈ dict.keys := by
  obtain ⟨entry, he, rfl⟩ := List.mem_map.mp hf
  rcases fst_mem_put key value dict.entries entry he with hk | ⟨other, ho, hk⟩
  · exact .inl hk
  · exact .inr (List.mem_map.mpr ⟨other, ho, hk⟩)

theorem mem_keys_foldl_insert (entries : List (κ × α)) (dict : Dict κ α) (found : κ)
    (hf : found ∈ (entries.foldl (fun dict entry => dict.insert entry.1 entry.2) dict).keys) :
    found ∈ dict.keys ∨ ∃ entry ∈ entries, entry.1 = found := by
  induction entries generalizing dict with
  | nil => exact .inl hf
  | cons entry rest ih =>
      rcases ih (dict.insert entry.1 entry.2) hf with h | ⟨other, ho, he⟩
      · rcases mem_keys_insert dict entry.1 entry.2 found h with rfl | h
        · exact .inr ⟨entry, by simp, rfl⟩
        · exact .inl h
      · exact .inr ⟨other, by simp [ho], he⟩

theorem mem_keys_mapKeys {κ' : Type} [BEq κ'] (f : κ → κ') (dict : Dict κ α) (found : κ')
    (hf : found ∈ (dict.mapKeys f).keys) : ∃ key ∈ dict.keys, f key = found := by
  rcases mem_keys_foldl_insert _ empty found hf with h | ⟨entry, he, rfl⟩
  · exact absurd h List.not_mem_nil
  · obtain ⟨original, ho, rfl⟩ := List.mem_map.mp he
    exact ⟨original.1, List.mem_map.mpr ⟨original, ho, rfl⟩, rfl⟩

theorem keys_distinct (dict : Dict κ α) :
    dict.keys.Pairwise fun a b => (a == b) = false := by
  unfold keys
  exact List.pairwise_map.mpr dict.distinct

theorem put_append_of_fresh (key : κ) (value : α) (entries : List (κ × α))
    (hf : entries.any (·.1 == key) = false) :
    put key value entries = entries ++ [(key, value)] := by
  induction entries with
  | nil => rfl
  | cons entry rest ih =>
      rw [List.any_cons, Bool.or_eq_false_iff] at hf
      rw [put, if_neg (by simp [hf.1]), ih hf.2]
      rfl

theorem length_put_of_mem (key : κ) (value : α) (entries : List (κ × α))
    (hm : entries.any (·.1 == key) = true) : (put key value entries).length = entries.length := by
  induction entries with
  | nil => cases hm
  | cons entry rest ih =>
      rw [put]
      split
      · rfl
      · rename_i hne
        rw [List.any_cons, Bool.or_eq_true] at hm
        rw [List.length_cons, ih (hm.resolve_left hne), List.length_cons]

theorem size_insert_of_contains (dict : Dict κ α) (key : κ) (value : α)
    (hc : dict.contains key = true) : (dict.insert key value).size = dict.size :=
  length_put_of_mem key value dict.entries hc

-- A new key goes to the end, so a list of new keys is kept as it stands.
theorem entries_insert_of_fresh (dict : Dict κ α) (key : κ) (value : α)
    (hf : dict.contains key = false) :
    (dict.insert key value).entries = dict.entries ++ [(key, value)] :=
  put_append_of_fresh key value dict.entries hf

theorem entries_foldl_insert (entries : List (κ × α)) (dict : Dict κ α)
    (hd : (dict.entries ++ entries).Pairwise fun a b => (a.1 == b.1) = false) :
    (entries.foldl (fun dict entry => dict.insert entry.1 entry.2) dict).entries =
      dict.entries ++ entries := by
  induction entries generalizing dict with
  | nil => simp
  | cons entry rest ih =>
      have hfresh : dict.contains entry.1 = false := by
        rw [contains, List.any_eq_false]
        intro other ho
        have hp := (List.pairwise_append.mp hd).2.2 other ho entry (by simp)
        simp [hp]
      have he := entries_insert_of_fresh dict entry.1 entry.2 hfresh
      rw [List.foldl_cons, ih, he, List.append_assoc]
      · rfl
      · rw [he, List.append_assoc]
        exact hd

theorem ofList_entries (dict : Dict κ α) : ofList dict.entries = dict := by
  apply Dict.ext
  have h := entries_foldl_insert dict.entries (empty : Dict κ α) (by simpa [empty] using dict.distinct)
  simpa [ofList, empty] using h

theorem mapKeys_eq_self (f : κ → κ) (dict : Dict κ α) (hf : ∀ key ∈ dict.keys, f key = key) :
    dict.mapKeys f = dict := by
  have he : (dict.entries.map fun entry => (f entry.1, entry.2)) = dict.entries := by
    conv_rhs => rw [← List.map_id dict.entries]
    apply List.map_congr_left
    intro entry hm
    rw [hf entry.1 (List.mem_map.mpr ⟨entry, hm, rfl⟩)]
    rfl
  rw [mapKeys, he, ofList_entries]

end Lemmas

section Equivalence

variable {κ α : Type} [BEq κ] [EquivBEq κ]

theorem contains_congr (dict : Dict κ α) (key other : κ) (h : (key == other) = true) :
    dict.contains key = dict.contains other := by
  unfold contains
  congr 1
  funext entry
  exact BEq.congr_right h

theorem get?_congr (dict : Dict κ α) (key other : κ) (h : (key == other) = true) :
    dict.get? key = dict.get? other := by
  unfold get?
  congr 2
  funext entry
  exact BEq.congr_right h

theorem find?_put (key other : κ) (value : α) (entries : List (κ × α)) :
    ((put key value entries).find? (·.1 == other)).map Prod.snd =
      if key == other then some value else (entries.find? (·.1 == other)).map Prod.snd := by
  induction entries with
  | nil =>
      rw [put, List.find?_cons]
      cases key == other <;> rfl
  | cons entry rest ih =>
      rw [put]
      split
      · rename_i he
        rw [List.find?_cons, List.find?_cons, BEq.congr_left (c := other) he]
        cases key == other <;> rfl
      · rename_i hne
        rw [List.find?_cons, List.find?_cons]
        cases ho : entry.1 == other with
        | false => exact ih
        | true =>
            have hk : (key == other) = false := by
              rw [Bool.eq_false_iff]
              intro hk
              exact hne (BEq.trans ho (BEq.symm hk))
            rw [hk]
            rfl

@[simp] theorem get?_insert (dict : Dict κ α) (key other : κ) (value : α) :
    (dict.insert key value).get? other =
      if key == other then some value else dict.get? other :=
  find?_put key other value dict.entries

theorem get?_insert_self (dict : Dict κ α) (key : κ) (value : α) :
    (dict.insert key value).get? key = some value := by
  simp

@[simp] theorem contains_insert (dict : Dict κ α) (key other : κ) (value : α) :
    (dict.insert key value).contains other = (key == other || dict.contains other) := by
  rw [← isSome_get?, get?_insert, ← isSome_get?]
  cases key == other <;> rfl

theorem contains_foldl_insert (entries : List (κ × α)) (dict : Dict κ α) (key : κ) :
    (entries.foldl (fun dict entry => dict.insert entry.1 entry.2) dict).contains key =
      (dict.contains key || entries.any (·.1 == key)) := by
  induction entries generalizing dict with
  | nil => simp
  | cons entry rest ih =>
      rw [List.foldl_cons, ih, contains_insert, List.any_cons]
      cases entry.1 == key <;> cases dict.contains key <;> rfl

theorem mem_of_get?_foldl_insert (entries : List (κ × α)) (dict : Dict κ α) (key : κ) (value : α)
    (h : (entries.foldl (fun dict entry => dict.insert entry.1 entry.2) dict).get? key = some value) :
    dict.get? key = some value ∨ ∃ entry ∈ entries, (entry.1 == key) = true ∧ entry.2 = value := by
  induction entries generalizing dict with
  | nil => exact .inl h
  | cons entry rest ih =>
      rcases ih (dict.insert entry.1 entry.2) h with hd | ⟨other, ho, hk⟩
      · rw [get?_insert] at hd
        split at hd
        · exact .inr ⟨entry, by simp, by assumption, Option.some.inj hd⟩
        · exact .inl hd
      · exact .inr ⟨other, by simp [ho], hk⟩

theorem mem_of_get?_ofList (entries : List (κ × α)) (key : κ) (value : α)
    (h : (ofList entries).get? key = some value) :
    ∃ entry ∈ entries, (entry.1 == key) = true ∧ entry.2 = value := by
  rcases mem_of_get?_foldl_insert entries empty key value h with hd | hm
  · cases hd
  · exact hm

theorem contains_ofList (entries : List (κ × α)) (key : κ) :
    (ofList entries).contains key = entries.any (·.1 == key) := by
  rw [ofList, contains_foldl_insert, contains_empty, Bool.false_or]

theorem contains_mapKeys {κ' : Type} [BEq κ'] (f : κ' → κ) (dict : Dict κ' α) (key : κ) :
    (dict.mapKeys f).contains key = dict.keys.any (f · == key) := by
  rw [mapKeys, ofList, contains_foldl_insert, contains_empty, Bool.false_or, List.any_map, keys,
    List.any_map]
  rfl

theorem get?_foldl_insert_of_absent (entries : List (κ × α)) (dict : Dict κ α) (key : κ)
    (ha : entries.any (·.1 == key) = false) :
    (entries.foldl (fun dict entry => dict.insert entry.1 entry.2) dict).get? key =
      dict.get? key := by
  induction entries generalizing dict with
  | nil => rfl
  | cons entry rest ih =>
      rw [List.any_cons, Bool.or_eq_false_iff] at ha
      rw [List.foldl_cons, ih _ ha.2, get?_insert, if_neg (by simp [ha.1])]

-- A key that no other key is renamed onto keeps its value.
theorem get?_foldl_rename (f : κ → κ) (key : κ) (entries : List (κ × α)) (dict : Dict κ α)
    (hf : ∀ entry ∈ entries, (f entry.1 == key) = (entry.1 == key))
    (hd : entries.Pairwise fun a b => (a.1 == b.1) = false) :
    ((entries.map fun entry => (f entry.1, entry.2)).foldl
      (fun dict entry => dict.insert entry.1 entry.2) dict).get? key =
      ((entries.find? (·.1 == key)).map Prod.snd).or (dict.get? key) := by
  induction entries generalizing dict with
  | nil => simp
  | cons entry rest ih =>
      obtain ⟨hhead, hrest⟩ := List.pairwise_cons.mp hd
      have hk := hf entry (by simp)
      rw [List.map_cons, List.foldl_cons, List.find?_cons]
      cases he : entry.1 == key with
      | false =>
          rw [ih _ (fun other ho => hf other (by simp [ho])) hrest, get?_insert,
            if_neg (by simp [hk, he])]
      | true =>
          have habsent : (rest.map fun entry => (f entry.1, entry.2)).any (·.1 == key) = false := by
            rw [List.any_map, List.any_eq_false]
            intro other ho
            have hne := hhead other ho
            rw [Function.comp, hf other (by simp [ho]), ← BEq.congr_right (a := other.1) he,
              BEq.comm, hne]
            simp
          rw [get?_foldl_insert_of_absent _ _ _ habsent, get?_insert, hk, he]
          rfl

theorem get?_mapKeys (f : κ → κ) (dict : Dict κ α) (key : κ)
    (hf : ∀ found ∈ dict.keys, (f found == key) = (found == key)) :
    (dict.mapKeys f).get? key = dict.get? key := by
  have h := get?_foldl_rename f key dict.entries empty
    (fun entry he => hf entry.1 (List.mem_map.mpr ⟨entry, he, rfl⟩)) dict.distinct
  rwa [get?_empty, Option.or_none] at h

theorem get?_of_mem (dict : Dict κ α) (entry : κ × α) (he : entry ∈ dict.entries) :
    dict.get? entry.1 = some entry.2 := by
  obtain ⟨front, back, hsplit⟩ := List.append_of_mem he
  have hd := dict.distinct
  rw [hsplit, List.pairwise_append] at hd
  have hfront : front.find? (·.1 == entry.1) = none := by
    rw [List.find?_eq_none]
    intro other ho
    simp [hd.2.2 other ho entry (by simp)]
  rw [get?, hsplit, List.find?_append, hfront]
  simp

theorem length_le_of_matched (keys names : List κ)
    (hd : keys.Pairwise fun a b => (a == b) = false)
    (hm : ∀ key ∈ keys, ∃ name ∈ names, (key == name) = true) :
    keys.length ≤ names.length := by
  induction keys generalizing names with
  | nil => simp
  | cons key rest ih =>
      obtain ⟨hhead, hrest⟩ := List.pairwise_cons.mp hd
      obtain ⟨name, hn, he⟩ := hm key (by simp)
      have hl := List.length_eraseP_of_mem (p := (key == ·)) hn he
      have hpos := List.length_pos_of_mem hn
      have hi := ih (names.eraseP (key == ·)) hrest (by
        intro other ho
        obtain ⟨target, ht, hto⟩ := hm other (by simp [ho])
        refine ⟨target, ?_, hto⟩
        apply (List.mem_eraseP_of_neg ?_).mpr ht
        intro hkt
        have hko := BEq.trans hkt (BEq.symm hto)
        rw [hhead other ho] at hko
        cases hko)
      rw [List.length_cons]
      omega

-- Distinct keys that all stand for names of a list are no more than the names.
theorem size_le_of_keys_matched (dict : Dict κ α) (names : List κ)
    (hm : ∀ key ∈ dict.keys, ∃ name ∈ names, (key == name) = true) :
    dict.size ≤ names.length := by
  have h := length_le_of_matched dict.keys names dict.keys_distinct hm
  simpa [keys, size] using h

end Equivalence

section Gathering

variable {κ α ι : Type} [BEq κ]

theorem mem_put (key : κ) (value : α) (entries : List (κ × α)) (found : κ × α)
    (hf : found ∈ put key value entries) : found ∈ entries ∨ found.2 = value := by
  induction entries with
  | nil =>
      rw [put, List.mem_singleton] at hf
      exact .inr (by rw [hf])
  | cons entry rest ih =>
      rw [put] at hf
      split at hf
      · rcases List.mem_cons.mp hf with rfl | hf
        · exact .inr rfl
        · exact .inl (List.mem_cons_of_mem _ hf)
      · rcases List.mem_cons.mp hf with rfl | hf
        · exact .inl List.mem_cons_self
        · rcases ih hf with hf | hv
          · exact .inl (List.mem_cons_of_mem _ hf)
          · exact .inr hv

theorem flatMap_put_perm (view : α → List ι) (key : κ) (value : α) (entries : List (κ × α)) (item : ι)
    (hv : view value = (((entries.find? (·.1 == key)).map Prod.snd).map view).getD [] ++ [item]) :
    ((put key value entries).flatMap fun entry => view entry.2).Perm
      ((entries.flatMap fun entry => view entry.2) ++ [item]) := by
  induction entries with
  | nil => simpa [put] using List.Perm.of_eq hv
  | cons entry rest ih =>
      rw [put]
      split
      · rename_i he
        rw [List.find?_cons, he] at hv
        have hval : view value = view entry.2 ++ [item] := hv
        simp only [List.flatMap_cons, hval, List.append_assoc]
        exact List.Perm.append_left _ List.perm_append_comm
      · rename_i hne
        rw [List.find?_cons, Bool.eq_false_iff.mpr hne] at hv
        simp only [List.flatMap_cons, List.append_assoc]
        exact List.Perm.append_left _ (ih hv)

-- Every item is in the entry of its key, once.
theorem gather_perm (key : ι → κ) (add : Option α → ι → α) (view : α → List ι)
    (hadd : ∀ old item, view (add old item) = (old.map view).getD [] ++ [item]) (items : List ι) :
    ((gather key add items).entries.flatMap fun entry => view entry.2).Perm items := by
  have hfold : ∀ dict : Dict κ α,
      ((items.foldl (fun dict item => dict.insert (key item) (add (dict.get? (key item)) item)) dict).entries.flatMap
        fun entry => view entry.2).Perm ((dict.entries.flatMap fun entry => view entry.2) ++ items) := by
    induction items with
    | nil => simp
    | cons item rest ih =>
        intro dict
        rw [List.foldl_cons]
        refine (ih _).trans ?_
        have hput := flatMap_put_perm view (key item) (add (dict.get? (key item)) item) dict.entries item
          (hadd _ item)
        refine (hput.append_right rest).trans ?_
        rw [List.append_assoc]
        exact List.Perm.refl _
  exact (hfold empty).trans (by simp [empty])

theorem gather_forall (key : ι → κ) (add : Option α → ι → α) (items : List ι) (P : α → Prop)
    (hadd : ∀ old item, (∀ value, old = some value → P value) → P (add old item)) :
    ∀ entry ∈ (gather key add items).entries, P entry.2 := by
  have hfold : ∀ dict : Dict κ α, (∀ entry ∈ dict.entries, P entry.2) →
      ∀ entry ∈ (items.foldl
        (fun dict item => dict.insert (key item) (add (dict.get? (key item)) item)) dict).entries,
        P entry.2 := by
    induction items with
    | nil => exact fun _ h => h
    | cons item rest ih =>
        intro dict h
        refine ih _ ?_
        intro entry he
        rcases mem_put (key item) _ dict.entries entry he with he | hv
        · exact h entry he
        · rw [hv]
          refine hadd _ item ?_
          intro value hg
          obtain ⟨found, hf, rfl⟩ := Option.map_eq_some_iff.mp hg
          exact h found (List.mem_of_find?_eq_some hf)
  exact hfold empty fun _ he => absurd he List.not_mem_nil

-- What a key has is made of the items of that key, in their order.
theorem get?_gather [LawfulBEq κ] (key : ι → κ) (add : Option α → ι → α) (items : List ι) (other : κ) :
    (gather key add items).get? other =
      (items.filter fun item => key item == other).foldl (fun found item => some (add found item)) none := by
  have hfold : ∀ dict : Dict κ α,
      (items.foldl (fun dict item => dict.insert (key item) (add (dict.get? (key item)) item)) dict).get? other =
        (items.filter fun item => key item == other).foldl (fun found item => some (add found item))
          (dict.get? other) := by
    induction items with
    | nil => exact fun _ => rfl
    | cons item rest ih =>
        intro dict
        rw [List.foldl_cons, ih, get?_insert, List.filter_cons]
        cases hk : key item == other with
        | false => rfl
        | true => simp [eq_of_beq hk]
  exact hfold empty

theorem mem_keys_gather (key : ι → κ) (add : Option α → ι → α) (items : List ι) (found : κ)
    (hf : found ∈ (gather key add items).keys) : ∃ item ∈ items, key item = found := by
  have hfold : ∀ dict : Dict κ α, found ∈ (items.foldl
      (fun dict item => dict.insert (key item) (add (dict.get? (key item)) item)) dict).keys →
        found ∈ dict.keys ∨ ∃ item ∈ items, key item = found := by
    clear hf
    induction items with
    | nil => exact fun _ h => .inl h
    | cons item rest ih =>
        intro dict h
        rcases ih _ h with h | ⟨other, ho, he⟩
        · rcases mem_keys_insert dict (key item) _ found h with rfl | h
          · exact .inr ⟨item, List.mem_cons_self, rfl⟩
          · exact .inl h
        · exact .inr ⟨other, List.mem_cons_of_mem _ ho, he⟩
  rcases hfold empty hf with h | h
  · exact absurd h List.not_mem_nil
  · exact h

theorem mem_of_get? [LawfulBEq κ] (dict : Dict κ α) (key : κ) (value : α) (h : dict.get? key = some value) :
    (key, value) ∈ dict.entries := by
  obtain ⟨entry, he, rfl⟩ := Option.map_eq_some_iff.mp h
  have hkey := List.find?_some he
  rw [← eq_of_beq hkey]
  exact List.mem_of_find?_eq_some he

end Gathering

section Erasing

variable {κ α : Type} [BEq κ]

def erase (dict : Dict κ α) (key : κ) : Dict κ α :=
  ⟨dict.entries.filter fun entry => !(entry.1 == key), dict.distinct.filter _⟩

def keep (dict : Dict κ α) (test : κ → Bool) : Dict κ α :=
  ⟨dict.entries.filter fun entry => test entry.1, dict.distinct.filter _⟩

-- The values of the second dictionary stand, where it has the key.
def merge (dict other : Dict κ α) : Dict κ α :=
  other.entries.foldl (fun dict entry => dict.insert entry.1 entry.2) dict

variable [EquivBEq κ]

theorem get?_erase (dict : Dict κ α) (key other : κ) :
    (dict.erase key).get? other = if key == other then none else dict.get? other := by
  have hsame : (key == other) = false → ∀ entry : κ × α, (entry.1 == other) = true → (entry.1 == key) = false := by
    intro hk entry ho
    rw [Bool.eq_false_iff]
    intro he
    exact Bool.eq_false_iff.mp hk (BEq.trans (BEq.symm he) ho)
  unfold get? erase
  rw [List.find?_filter]
  cases hk : key == other with
  | false =>
      have htest : (fun entry : κ × α => decide ((!entry.1 == key) = true ∧ (entry.1 == other) = true)) =
          fun entry => entry.1 == other := by
        funext entry
        cases ho : entry.1 == other with
        | false => simp
        | true => simp [hsame hk entry ho]
      rw [htest]
      rfl
  | true =>
      have hnone : dict.entries.find? (fun entry : κ × α =>
          decide ((!entry.1 == key) = true ∧ (entry.1 == other) = true)) = none := by
        rw [List.find?_eq_none]
        intro entry _
        rw [BEq.congr_right hk]
        simp
      rw [hnone]
      rfl

theorem get?_merge (dict other : Dict κ α) (key : κ) :
    (dict.merge other).get? key = (other.get? key).or (dict.get? key) := by
  have h := get?_foldl_rename id key other.entries dict (fun _ _ => rfl) other.distinct
  rwa [show other.entries.map (fun entry => (id entry.1, entry.2)) = other.entries from List.map_id _] at h

end Erasing

section Values

variable {κ α β : Type} [BEq κ]

def mapValues (f : α → β) (dict : Dict κ α) : Dict κ β :=
  ⟨dict.entries.map fun entry => (entry.1, f entry.2), List.pairwise_map.mpr dict.distinct⟩

theorem get?_mapValues (f : α → β) (dict : Dict κ α) (key : κ) :
    (dict.mapValues f).get? key = (dict.get? key).map f := by
  rw [get?, mapValues, List.find?_map, Option.map_map, get?, Option.map_map]
  rfl

@[simp] theorem size_mapValues (f : α → β) (dict : Dict κ α) : (dict.mapValues f).size = dict.size := by
  rw [size, mapValues, List.length_map, size]

@[simp] theorem mapValues_empty (f : α → β) : (empty : Dict κ α).mapValues f = empty := rfl

theorem map_put (f : α → β) (key : κ) (value : α) (entries : List (κ × α)) :
    (put key value entries).map (fun entry => (entry.1, f entry.2)) =
      put key (f value) (entries.map fun entry => (entry.1, f entry.2)) := by
  induction entries with
  | nil => rfl
  | cons entry rest ih =>
      rw [put, List.map_cons, put]
      split
      · rw [List.map_cons]
      · rw [List.map_cons, ih]

theorem mapValues_insert (f : α → β) (dict : Dict κ α) (key : κ) (value : α) :
    (dict.insert key value).mapValues f = (dict.mapValues f).insert key (f value) :=
  Dict.ext (map_put f key value dict.entries)

variable [EquivBEq κ]

-- Entries of other keys may be left out.
theorem get?_ofList_filter {ι : Type} (f : ι → κ × α) (test : ι → Bool) (items : List ι) (key : κ)
    (ht : ∀ item ∈ items, ((f item).1 == key) = true → test item = true) :
    (ofList ((items.filter test).map f)).get? key = (ofList (items.map f)).get? key := by
  have hfold : ∀ dict dict' : Dict κ α, dict.get? key = dict'.get? key →
      (((items.filter test).map f).foldl (fun dict entry => dict.insert entry.1 entry.2) dict).get? key =
        ((items.map f).foldl (fun dict entry => dict.insert entry.1 entry.2) dict').get? key := by
    induction items with
    | nil => exact fun _ _ h => h
    | cons item rest ih =>
        intro dict dict' h
        have hrest := ih fun other ho => ht other (List.mem_cons_of_mem _ ho)
        rw [List.filter_cons, List.map_cons, List.foldl_cons]
        split
        · rw [List.map_cons, List.foldl_cons]
          refine hrest _ _ ?_
          rw [get?_insert, get?_insert, h]
        · rename_i hout
          refine hrest _ _ ?_
          rw [get?_insert, if_neg fun hk => hout (ht item List.mem_cons_self hk), h]
  exact hfold empty empty rfl

end Values

end Dict

end OrderedDict
