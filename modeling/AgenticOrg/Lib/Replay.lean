import Mathlib.Data.List.Sort
import Mathlib.Data.List.Nodup
import Mathlib.Data.List.Induction

namespace Replay

section Fold

variable {σ α β : Type} (step : σ → α → σ × β)

-- The state after the items, and what each of them was given on the way.
def replay : σ → List α → σ × List β
  | state, [] => (state, [])
  | state, item :: rest =>
      ((replay (step state item).1 rest).1, (step state item).2 :: (replay (step state item).1 rest).2)

theorem replay_append (state : σ) (xs ys : List α) :
    replay step state (xs ++ ys) = ((replay step (replay step state xs).1 ys).1,
      (replay step state xs).2 ++ (replay step (replay step state xs).1 ys).2) := by
  induction xs generalizing state with
  | nil => rfl
  | cons x rest ih => rw [List.cons_append, replay, ih, replay, List.cons_append]

-- A change of the items that no step notices.
theorem replay_map (f : α → α) (state : σ) (items : List α)
    (h : ∀ item ∈ items, ∀ state, step state (f item) = step state item) :
    replay step state (items.map f) = replay step state items := by
  induction items generalizing state with
  | nil => rfl
  | cons item rest ih =>
      rw [List.map_cons, replay, replay, h item List.mem_cons_self,
        ih _ fun other ho => h other (List.mem_cons_of_mem _ ho)]

-- What every step keeps is kept.
theorem replay_keeps {γ : Type} (view : σ → γ) (state : σ) (items : List α)
    (h : ∀ state item, view (step state item).1 = view state) :
    view (replay step state items).1 = view state := by
  induction items generalizing state with
  | nil => rfl
  | cons item rest ih => rw [replay, ih, h]

end Fold

section Order

variable {α κ : Type} [LinearOrder κ] (key : α → κ)

def ordered (items : List α) : List α := items.insertionSort fun a b => key a ≤ key b

@[simp] theorem mem_ordered (items : List α) (a : α) : a ∈ ordered key items ↔ a ∈ items :=
  List.mem_insertionSort _

-- Strictly ascending lists of the same items are the same.
theorem eq_of_ascending (xs ys : List α) (hx : xs.Pairwise fun a b => key a < key b)
    (hy : ys.Pairwise fun a b => key a < key b) (h : ∀ a, a ∈ xs ↔ a ∈ ys) : xs = ys := by
  have hne : ∀ zs : List α, (zs.Pairwise fun a b => key a < key b) → zs.Nodup := by
    intro zs hz
    refine hz.imp ?_
    rintro a b hlt rfl
    exact lt_irrefl _ hlt
  refine List.Perm.eq_of_pairwise ?_ hx hy ((List.perm_ext_iff_of_nodup (hne xs hx) (hne ys hy)).mpr h)
  intro a b _ _ hab hba
  exact absurd hba hab.asymm

theorem ordered_ascending (items : List α) (h : (items.map key).Nodup) :
    (ordered key items).Pairwise fun a b => key a < key b := by
  have htotal : Std.Total fun a b : α => key a ≤ key b := ⟨fun a b => le_total _ _⟩
  have htrans : IsTrans α fun a b => key a ≤ key b := ⟨fun _ _ _ => le_trans⟩
  have hle : (ordered key items).Pairwise fun a b => key a ≤ key b := List.pairwise_insertionSort _ items
  have hperm : ((ordered key items).map key).Nodup :=
    ((List.perm_insertionSort _ items).map key).nodup_iff.mpr h
  rw [List.Nodup, List.pairwise_map] at hperm
  exact (hle.and hperm).imp fun hab => lt_of_le_of_ne hab.1 hab.2

theorem ordered_map (f : α → α) (items : List α) (h : ∀ item ∈ items, key (f item) = key item) :
    ordered key (items.map f) = (ordered key items).map f := by
  refine (List.map_insertionSort _ _ f items ?_).symm
  intro a ha b hb
  rw [h a ha, h b hb]

variable (items : List α) (hd : (items.map key).Nodup)

include hd

theorem filter_ascending (keep : α → Bool) :
    (ordered key (items.filter keep)).Pairwise fun a b => key a < key b :=
  ordered_ascending key _ ((List.filter_sublist.map key).nodup hd)

-- What comes before is gone through before.
theorem ordered_split (below above both : α → Bool)
    (hboth : ∀ a ∈ items, both a = true ↔ below a = true ∨ above a = true)
    (hlt : ∀ a ∈ items, ∀ b ∈ items, below a = true → above b = true → key a < key b) :
    ordered key (items.filter both) =
      ordered key (items.filter below) ++ ordered key (items.filter above) := by
  refine eq_of_ascending key _ _ (filter_ascending key items hd both) ?_ ?_
  · rw [List.pairwise_append]
    refine ⟨filter_ascending key items hd below, filter_ascending key items hd above, ?_⟩
    intro a ha b hb
    rw [mem_ordered, List.mem_filter] at ha hb
    exact hlt a ha.1 b hb.1 ha.2 hb.2
  · intro a
    rw [List.mem_append, mem_ordered, mem_ordered, mem_ordered, List.mem_filter, List.mem_filter,
      List.mem_filter]
    constructor
    · rintro ⟨ha, h⟩
      exact ((hboth a ha).mp h).imp (fun h => ⟨ha, h⟩) fun h => ⟨ha, h⟩
    · rintro (⟨ha, h⟩ | ⟨ha, h⟩)
      · exact ⟨ha, (hboth a ha).mpr (.inl h)⟩
      · exact ⟨ha, (hboth a ha).mpr (.inr h)⟩

-- A page is what is not past its last item.
theorem take_ordered (keep : α → Bool) (size : ℕ) (last : α)
    (hl : ((ordered key (items.filter keep)).take size).getLast? = some last) :
    (ordered key (items.filter keep)).take size =
      ordered key (items.filter fun a => keep a && decide (key a ≤ key last)) := by
  have hasc := filter_ascending key items hd keep
  have hsplit := List.take_append_drop size (ordered key (items.filter keep))
  obtain ⟨front, hfront⟩ := List.getLast?_eq_some_iff.mp hl
  rw [← hsplit, List.pairwise_append] at hasc
  obtain ⟨hpage, _, hcross⟩ := hasc
  refine eq_of_ascending key _ _ hpage (filter_ascending key items hd _) ?_
  intro a
  rw [mem_ordered, List.mem_filter, Bool.and_eq_true, decide_eq_true_eq]
  constructor
  · intro ha
    have hmem := List.mem_of_mem_take ha
    rw [mem_ordered, List.mem_filter] at hmem
    refine ⟨hmem.1, hmem.2, ?_⟩
    rw [hfront] at ha hpage
    rcases List.mem_append.mp ha with ha | ha
    · exact ((List.pairwise_append.mp hpage).2.2 a ha last (by simp)).le
    · rw [List.mem_singleton.mp ha]
  · rintro ⟨ha, hk, hle⟩
    have hmem : a ∈ ordered key (items.filter keep) := (mem_ordered _ _ _).mpr (List.mem_filter.mpr ⟨ha, hk⟩)
    rw [← hsplit, List.mem_append] at hmem
    refine hmem.resolve_right fun hrest => ?_
    have hlast : last ∈ (ordered key (items.filter keep)).take size := by
      rw [hfront]
      simp
    exact absurd hle (not_le.mpr (hcross last hlast a hrest))

end Order

section Given

variable {σ α β κ : Type} [LinearOrder κ] (step : σ → α → σ × β) (key : α → κ) (start : σ)

-- What an item is given when those before it have been gone through.
def given (items : List α) (item : α) : β :=
  (step (replay step start (ordered key (items.filter fun a => decide (key a < key item)))).1 item).2

variable (items : List α)

-- It does not matter how far past an item one goes.
theorem given_filter (keep : α → Bool) (item : α)
    (hk : ∀ a ∈ items, key a < key item → keep a = true) :
    given step key start (items.filter keep) item = given step key start items item := by
  have hfilter : (items.filter keep).filter (fun a => decide (key a < key item)) =
      items.filter fun a => decide (key a < key item) := by
    rw [List.filter_filter]
    refine List.filter_congr fun a ha => ?_
    by_cases hlt : key a < key item
    · simp [hlt, hk a ha hlt]
    · simp [hlt]
  rw [given, hfilter, given]

theorem replay_given (hd : (items.map key).Nodup) :
    (replay step start (ordered key items)).2 =
      (ordered key items).map (given step key start items) := by
  have hasc := ordered_ascending key items hd
  have hfront : ∀ front rest : List α, front ++ rest = ordered key items →
      (replay step start front).2 = front.map (given step key start items) := by
    intro front
    induction front using List.reverseRecOn with
    | nil => exact fun _ _ => rfl
    | append_singleton front item ih =>
        intro rest h
        have hprev := ih ([item] ++ rest) (by rw [← List.append_assoc, h])
        rw [replay_append, List.map_append, hprev]
        -- those before the item are the ones with a smaller key
        have hbefore : ordered key (items.filter fun a => decide (key a < key item)) = front := by
          rw [← h, List.append_assoc, List.pairwise_append] at hasc
          obtain ⟨hfrontAsc, hrestAsc, hcross⟩ := hasc
          refine eq_of_ascending key _ _ (filter_ascending key items hd _) hfrontAsc fun a => ?_
          rw [mem_ordered, List.mem_filter, decide_eq_true_eq, ← mem_ordered key items, ← h]
          constructor
          · rintro ⟨ha, hlt⟩
            rw [List.append_assoc, List.mem_append] at ha
            refine ha.resolve_right fun ha => ?_
            rcases List.mem_cons.mp ha with rfl | ha
            · exact lt_irrefl _ hlt
            · exact lt_asymm hlt ((List.pairwise_cons.mp hrestAsc).1 a ha)
          · intro ha
            exact ⟨by simp [ha], hcross a ha item (by simp)⟩
        rw [List.map_singleton, given, hbefore]
        rfl
  exact hfront (ordered key items) [] (List.append_nil _)

end Given

end Replay
