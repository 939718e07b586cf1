import Mathlib.Data.List.Basic

namespace Fallible

variable {ε α β : Type}

theorem bind_ok (first : Except ε α) (next : α → Except ε β) (result : β) :
    (first >>= next) = .ok result ↔ ∃ value, first = .ok value ∧ next value = .ok result := by
  cases first with
  | error fault =>
      constructor
      · intro h
        cases h
      · rintro ⟨value, h, _⟩
        cases h
  | ok value =>
      constructor
      · intro h
        exact ⟨value, rfl, h⟩
      · rintro ⟨other, h, hn⟩
        cases h
        exact hn

theorem ok_bind (value : α) (next : α → Except ε β) :
    ((Except.ok value : Except ε α) >>= next) = next value := rfl

theorem pure_ok (value result : α) : (pure value : Except ε α) = .ok result ↔ value = result := by
  constructor
  · intro h
    exact Except.ok.inj h
  · rintro rfl
    rfl

theorem map_ok (first : Except ε α) (f : α → β) (result : β) :
    first.map f = .ok result ↔ ∃ value, first = .ok value ∧ f value = result := by
  cases first with
  | error fault => simp [Except.map]
  | ok value => simp [Except.map]

-- Whatever is in the result was made from one of the items.
theorem mem_of_mapM_ok (f : α → Except ε β) (items : List α) (results : List β)
    (h : items.mapM f = .ok results) (result : β) (hr : result ∈ results) :
    ∃ item ∈ items, f item = .ok result := by
  induction items generalizing results with
  | nil =>
      rw [List.mapM_nil, pure_ok] at h
      rw [← h] at hr
      cases hr
  | cons item rest ih =>
      rw [List.mapM_cons, bind_ok] at h
      obtain ⟨first, hf, h⟩ := h
      obtain ⟨others, ho, h⟩ := (bind_ok _ _ _).mp h
      rw [pure_ok] at h
      rw [← h] at hr
      rcases List.mem_cons.mp hr with rfl | hr
      · exact ⟨item, List.mem_cons_self, hf⟩
      · obtain ⟨found, hm, hf⟩ := ih others ho hr
        exact ⟨found, List.mem_cons_of_mem _ hm, hf⟩

-- Every item has its result among them.
theorem mem_results_of_mapM_ok (f : α → Except ε β) (items : List α) (results : List β)
    (h : items.mapM f = .ok results) (item : α) (hi : item ∈ items) : ∃ result ∈ results, f item = .ok result := by
  induction items generalizing results with
  | nil => cases hi
  | cons first rest ih =>
      rw [List.mapM_cons, bind_ok] at h
      obtain ⟨result, hf, h⟩ := h
      obtain ⟨others, ho, h⟩ := (bind_ok _ _ _).mp h
      rw [pure_ok] at h
      rw [← h]
      obtain rfl | hm := List.mem_cons.mp hi
      · exact ⟨result, List.mem_cons_self, hf⟩
      · obtain ⟨found, hfound, hof⟩ := ih others ho hm
        exact ⟨found, List.mem_cons_of_mem _ hfound, hof⟩

theorem ok_of_mapM_ok (f : α → Except ε β) (items : List α) (results : List β)
    (h : items.mapM f = .ok results) (item : α) (hi : item ∈ items) : ∃ result, f item = .ok result := by
  obtain ⟨result, -, hf⟩ := mem_results_of_mapM_ok f items results h item hi
  exact ⟨result, hf⟩

-- What relates the results of each item relates the lists of them.
theorem mapM_forall₂ (f g : α → Except ε β) (R : β → β → Prop) (items : List α) (results : List β)
    (hstep : ∀ item ∈ items, ∀ result, f item = .ok result → ∃ other, g item = .ok other ∧ R result other)
    (h : items.mapM f = .ok results) : ∃ others, items.mapM g = .ok others ∧ List.Forall₂ R results others := by
  induction items generalizing results with
  | nil =>
      cases h
      exact ⟨[], rfl, .nil⟩
  | cons item rest ih =>
      rw [List.mapM_cons, bind_ok] at h
      obtain ⟨result, hf, h⟩ := h
      obtain ⟨tail, ht, h⟩ := (bind_ok _ _ _).mp h
      cases h
      obtain ⟨hitem, hrest⟩ := List.forall_mem_cons.mp hstep
      obtain ⟨other, hg, hr⟩ := hitem result hf
      obtain ⟨others, ho, hrel⟩ := ih tail hrest ht
      refine ⟨other :: others, ?_, .cons hr hrel⟩
      rw [List.mapM_cons, hg, ho]
      rfl

theorem length_of_mapM_ok (f : α → Except ε β) (items : List α) (results : List β)
    (h : items.mapM f = .ok results) : results.length = items.length := by
  induction items generalizing results with
  | nil =>
      rw [List.mapM_nil, pure_ok] at h
      simp [← h]
  | cons item rest ih =>
      rw [List.mapM_cons, bind_ok] at h
      obtain ⟨first, _, h⟩ := h
      obtain ⟨others, ho, h⟩ := (bind_ok _ _ _).mp h
      rw [pure_ok] at h
      rw [← h, List.length_cons, List.length_cons, ih others ho]

-- What stands side by side in two lists of results was made from one item.
theorem mem_zip_of_mapM_ok {γ : Type} (f : α → Except ε β) (g : α → Except ε γ) (items : List α)
    (results : List β) (others : List γ) (hf : items.mapM f = .ok results) (hg : items.mapM g = .ok others)
    (pair : β × γ) (hp : pair ∈ results.zip others) : ∃ item ∈ items, f item = .ok pair.1 ∧ g item = .ok pair.2 := by
  induction items generalizing results others with
  | nil =>
      cases hf
      cases hp
  | cons item rest ih =>
      rw [List.mapM_cons, bind_ok] at hf hg
      obtain ⟨result, hfi, hf⟩ := hf
      obtain ⟨moreResults, hfr, hf⟩ := (bind_ok _ _ _).mp hf
      obtain ⟨other, hgi, hg⟩ := hg
      obtain ⟨moreOthers, hgr, hg⟩ := (bind_ok _ _ _).mp hg
      cases hf
      cases hg
      rcases List.mem_cons.mp hp with rfl | hp
      · exact ⟨item, List.mem_cons_self, hfi, hgi⟩
      · obtain ⟨found, hfound, h⟩ := ih moreResults moreOthers hfr hgr hp
        exact ⟨found, List.mem_cons_of_mem _ hfound, h⟩

-- Where no item fails, it is a plain map.
theorem mapM_eq_map (f : α → Except ε β) (g : α → β) (items : List α)
    (h : ∀ item ∈ items, f item = .ok (g item)) : items.mapM f = .ok (items.map g) := by
  induction items with
  | nil => rfl
  | cons item rest ih =>
      rw [List.mapM_cons, h item List.mem_cons_self,
        ih fun other ho => h other (List.mem_cons_of_mem _ ho)]
      rfl

-- An item stands beside its result.
theorem of_mem_zip_mapM_ok (f : α → Except ε β) (items : List α) (results : List β) (h : items.mapM f = .ok results)
    (pair : α × β) (hp : pair ∈ items.zip results) : pair.1 ∈ items ∧ f pair.1 = .ok pair.2 := by
  have hself := mapM_eq_map (fun item => (Except.ok item : Except ε α)) (fun item => item) items fun _ _ => rfl
  rw [List.map_id'] at hself
  obtain ⟨item, hitem, hfst, hsnd⟩ := mem_zip_of_mapM_ok _ f items items results hself h pair hp
  cases hfst
  exact ⟨hitem, hsnd⟩

section Chunks

-- Consecutive pieces of a size, the last one what is left.
def chunks (size : Nat) (items : List α) : List (List α) :=
  (List.range' 0 ((items.length + size - 1) / size) size).map fun start => (items.drop start).take size

theorem flatten_range' (size : Nat) (items : List α) (count start : Nat) :
    ((List.range' start count size).map fun start => (items.drop start).take size).flatten =
      (items.drop start).take (count * size) := by
  induction count generalizing start with
  | zero => simp
  | succ count ih =>
      rw [List.range'_succ, List.map_cons, List.flatten_cons, ih (start + size), Nat.succ_mul,
        Nat.add_comm (count * size) size, List.take_add, List.drop_drop]

theorem flatten_chunks (size : Nat) (hs : 0 < size) (items : List α) :
    (chunks size items).flatten = items := by
  rw [chunks, flatten_range', List.drop_zero]
  refine List.take_of_length_le ?_
  have hdiv := Nat.div_add_mod (items.length + size - 1) size
  have hmod := Nat.mod_lt (items.length + size - 1) hs
  rw [Nat.mul_comm]
  omega

-- Working through the pieces one after another is working through the items.
theorem foldlM_chunks (size : Nat) (hs : 0 < size) (f : β → α → Except ε β) (items : List α) (start : β) :
    (chunks size items).foldlM (fun state piece => piece.foldlM f state) start = items.foldlM f start := by
  have hflat : ∀ (pieces : List (List α)) (start : β),
      pieces.foldlM (fun state piece => piece.foldlM f state) start = pieces.flatten.foldlM f start := by
    intro pieces
    induction pieces with
    | nil => exact fun _ => rfl
    | cons piece rest ih =>
        intro start
        rw [List.foldlM_cons, List.flatten_cons, List.foldlM_append]
        exact bind_congr fun state => ih state
  rw [hflat, flatten_chunks size hs]

end Chunks

end Fallible
