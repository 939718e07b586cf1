import AgenticOrg.Pii.Masking.Texts

namespace AgenticOrg.Pii

open JsonText

variable {source : Text}

section Greedy

def overlaps (a b : IdentifierMatch source) : Bool := a.start < b.stop && b.start < a.stop

def width (found : IdentifierMatch source) : ℕ := found.stop - found.start

-- What has been kept, and what has been dropped.
abbrev Sifted (source : Text) := List (IdentifierMatch source) × List (IdentifierMatch source)

def sift (sifted : Sifted source) (candidate : IdentifierMatch source) : Sifted source :=
  if sifted.1.any (overlaps candidate) then (sifted.1, sifted.2 ++ [candidate])
  else (sifted.1 ++ [candidate], sifted.2)

-- The longest first, then the earliest: each one is kept unless it overlaps any that was kept.
def greedy (found : List (IdentifierMatch source)) : Sifted source :=
  (found.insertionSort longestFirst).foldl sift ([], [])

def byStart (a b : IdentifierMatch source) : Prop := a.start ≤ b.start

instance (a b : IdentifierMatch source) : Decidable (byStart a b) := inferInstanceAs (Decidable (_ ≤ _))

instance : Std.Total (@longestFirst source) :=
  ⟨fun a b => by unfold longestFirst; omega⟩

instance : Std.Total (@byStart source) := ⟨fun a b => Nat.le_total a.start b.start⟩

instance : IsTrans (IdentifierMatch source) byStart := ⟨fun _ _ _ hab hbc => Nat.le_trans hab hbc⟩

instance : IsTrans (IdentifierMatch source) longestFirst :=
  ⟨fun a b c hab hbc => by unfold longestFirst at *; omega⟩

end Greedy

section Neighbours

theorem overlaps_iff (a b : IdentifierMatch source) :
    overlaps a b = true ↔ a.start < b.stop ∧ b.start < a.stop := by
  rw [overlaps, Bool.and_eq_true, decide_eq_true_eq, decide_eq_true_eq]

-- Of matches that start no later than the candidate, only the last can overlap it.
theorem last_overlaps (before : List (IdentifierMatch source)) (candidate : IdentifierMatch source)
    (ha : Apart before) (hb : ∀ found ∈ before, found.start ≤ candidate.start) :
    before.getLast?.any (candidate.start < ·.stop) = before.any (overlaps candidate) := by
  have hcandidate := candidate.nonempty
  rw [Bool.eq_iff_iff, Option.any_eq_true, List.any_eq_true]
  constructor
  · rintro ⟨last, hl, hstop⟩
    have hm := List.mem_of_getLast? hl
    have hstart := hb last hm
    refine ⟨last, hm, (overlaps_iff candidate last).mpr ⟨by simpa using hstop, by omega⟩⟩
  · rintro ⟨found, hf, ho⟩
    by_contra hnone
    have hlast : ∀ last ∈ before.getLast?, last.stop ≤ candidate.start := by
      intro last hl
      by_contra hlt
      exact hnone ⟨last, hl, by simpa using hlt⟩
    have hstop := Apart.stop_le before ha candidate.start hlast found hf
    have := ((overlaps_iff candidate found).mp ho).1
    omega

-- Of those that start later, only the first.
theorem head_overlaps (after : List (IdentifierMatch source)) (candidate : IdentifierMatch source)
    (ha : Apart after) (hb : ∀ found ∈ after, candidate.start < found.start) :
    after.head?.any (·.start < candidate.stop) = after.any (overlaps candidate) := by
  rw [Bool.eq_iff_iff, Option.any_eq_true, List.any_eq_true]
  constructor
  · rintro ⟨first, hf, hstart⟩
    have hm := List.mem_of_head? hf
    have hlater := hb first hm
    have hnonempty := first.nonempty
    refine ⟨first, hm, (overlaps_iff candidate first).mpr ⟨by omega, by simpa using hstart⟩⟩
  · rintro ⟨found, hf, ho⟩
    by_contra hnone
    have hfirst : ∀ first ∈ after.head?, candidate.stop ≤ first.start := by
      intro first hf
      by_contra hlt
      exact hnone ⟨first, hf, by simpa using hlt⟩
    have hstart := Apart.le_start after ha candidate.stop hfirst found hf
    have := ((overlaps_iff candidate found).mp ho).2
    omega

theorem Apart.starts (kept : List (IdentifierMatch source)) (h : Apart kept) :
    kept.Pairwise fun a b => a.start < b.start :=
  h.imp fun {a b} hab => by have := a.nonempty; omega

theorem start_of_mem_dropWhile (kept : List (IdentifierMatch source)) (h : Apart kept) (limit : ℕ)
    (found : IdentifierMatch source) (hf : found ∈ kept.dropWhile (·.start ≤ limit)) : limit < found.start := by
  induction kept with
  | nil => exact absurd hf List.not_mem_nil
  | cons first rest ih =>
      rw [List.dropWhile_cons] at hf
      split at hf
      · exact ih (List.pairwise_cons.mp h).2 hf
      · rename_i hstart
        have hfirst : limit < first.start := by simpa using hstart
        rcases List.mem_cons.mp hf with rfl | hm
        · exact hfirst
        · have := (List.pairwise_cons.mp (Apart.starts _ h)).1 found hm
          omega

-- Looking at the two neighbours of a candidate is looking at all that was kept.
theorem keepMatch_eq (kept : List (IdentifierMatch source)) (h : Apart kept) (candidate : IdentifierMatch source) :
    keepMatch kept candidate =
      if kept.any (overlaps candidate) then kept
      else kept.takeWhile (·.start ≤ candidate.start) ++ candidate :: kept.dropWhile (·.start ≤ candidate.start) := by
  have hsplit : kept = kept.takeWhile (·.start ≤ candidate.start) ++ kept.dropWhile (·.start ≤ candidate.start) :=
    List.takeWhile_append_dropWhile.symm
  have hbefore : ∀ found ∈ kept.takeWhile (·.start ≤ candidate.start), found.start ≤ candidate.start := fun found hf =>
    by simpa using List.mem_takeWhile_imp hf
  have hafter : ∀ found ∈ kept.dropWhile (·.start ≤ candidate.start), candidate.start < found.start :=
    start_of_mem_dropWhile kept h candidate.start
  unfold keepMatch
  generalize kept.takeWhile (·.start ≤ candidate.start) = before at *
  generalize kept.dropWhile (·.start ≤ candidate.start) = after at *
  subst hsplit
  obtain ⟨hb, ha, _⟩ := List.pairwise_append.mp h
  simp only [List.take_left, List.drop_left, last_overlaps before candidate hb hbefore,
    head_overlaps after candidate ha hafter, List.any_append, Bool.or_eq_true]
  by_cases hlast : before.any (overlaps candidate) = true
  · rw [if_pos hlast, if_pos (.inl hlast)]
  · rw [if_neg hlast]
    simp only [hlast, Bool.false_eq_true, false_or]

end Neighbours

section Runs

-- Dropped for a match that was kept and is no shorter.
def Outdone (sifted : Sifted source) : Prop :=
  ∀ dropped ∈ sifted.2, ∃ kept ∈ sifted.1, overlaps dropped kept = true ∧ width dropped ≤ width kept

theorem keepMatch_perm_sift (kept : List (IdentifierMatch source)) (sifted : Sifted source) (h : Apart kept)
    (hp : kept.Perm sifted.1) (candidate : IdentifierMatch source) :
    (keepMatch kept candidate).Perm (sift sifted candidate).1 := by
  have hany : kept.any (overlaps candidate) = sifted.1.any (overlaps candidate) := hp.any_eq
  rw [keepMatch_eq kept h, sift, hany]
  split
  · exact hp
  · refine List.perm_middle.trans ?_
    rw [List.takeWhile_append_dropWhile]
    exact (hp.cons candidate).trans (List.perm_append_singleton candidate sifted.1).symm

theorem sift_outdone (sifted : Sifted source) (candidate : IdentifierMatch source) (h : Outdone sifted)
    (hw : ∀ kept ∈ sifted.1, width candidate ≤ width kept) : Outdone (sift sifted candidate) := by
  unfold sift
  split
  · rename_i hany
    intro dropped hd
    rcases List.mem_append.mp hd with hd | hd
    · exact h dropped hd
    · obtain ⟨kept, hk, ho⟩ := List.any_eq_true.mp hany
      rw [List.mem_singleton.mp hd]
      exact ⟨kept, hk, ho, hw kept hk⟩
  · intro dropped hd
    obtain ⟨kept, hk, ho⟩ := h dropped hd
    exact ⟨kept, List.mem_append_left _ hk, ho⟩

theorem mem_sift (sifted : Sifted source) (candidate kept : IdentifierMatch source)
    (h : kept ∈ (sift sifted candidate).1) : kept ∈ sifted.1 ∨ kept = candidate := by
  unfold sift at h
  split at h
  · exact .inl h
  · rcases List.mem_append.mp h with h | h
    · exact .inl h
    · exact .inr (List.mem_singleton.mp h)

theorem sift_perm (sifted : Sifted source) (candidate : IdentifierMatch source) :
    ((sift sifted candidate).1 ++ (sift sifted candidate).2).Perm (sifted.1 ++ sifted.2 ++ [candidate]) := by
  unfold sift
  split
  · rw [List.append_assoc]
  · rw [List.append_assoc, List.append_assoc]
    exact (List.perm_append_comm).append_left sifted.1

theorem width_le_of_longestFirst (a b : IdentifierMatch source) (h : longestFirst a b) : width b ≤ width a := by
  unfold longestFirst at h
  unfold width
  omega

-- The kept matches are those of the greedy run, in text order.
theorem foldl_perm_sift (candidates kept : List (IdentifierMatch source)) (sifted : Sifted source) (h : Apart kept)
    (hp : kept.Perm sifted.1) :
    (candidates.foldl keepMatch kept).Perm (candidates.foldl sift sifted).1 := by
  induction candidates generalizing kept sifted with
  | nil => exact hp
  | cons candidate rest ih => exact ih _ _ (h.keepMatch candidate) (keepMatch_perm_sift kept sifted h hp candidate)

theorem foldl_sift_outdone (candidates : List (IdentifierMatch source)) (sifted : Sifted source)
    (hs : candidates.Pairwise longestFirst) (h : Outdone sifted)
    (hw : ∀ kept ∈ sifted.1, ∀ candidate ∈ candidates, width candidate ≤ width kept) :
    Outdone (candidates.foldl sift sifted) := by
  induction candidates generalizing sifted with
  | nil => exact h
  | cons candidate rest ih =>
      obtain ⟨hfirst, hrest⟩ := List.pairwise_cons.mp hs
      refine ih _ hrest (sift_outdone sifted candidate h fun kept hk => hw kept hk candidate List.mem_cons_self) ?_
      intro kept hk later hl
      rcases mem_sift sifted candidate kept hk with hk | rfl
      · exact hw kept hk later (List.mem_cons_of_mem _ hl)
      · exact width_le_of_longestFirst kept later (hfirst later hl)

theorem foldl_sift_partition (candidates : List (IdentifierMatch source)) (sifted : Sifted source) :
    ((candidates.foldl sift sifted).1 ++ (candidates.foldl sift sifted).2).Perm
      (sifted.1 ++ sifted.2 ++ candidates) := by
  induction candidates generalizing sifted with
  | nil => rw [List.append_nil]; exact List.Perm.refl _
  | cons candidate rest ih =>
      refine (ih _).trans (((sift_perm sifted candidate).append_right rest).trans ?_)
      rw [List.append_assoc _ [candidate], List.singleton_append]

theorem Apart.disjoint (kept : List (IdentifierMatch source)) (h : Apart kept) :
    kept.Pairwise fun a b => overlaps a b = false := by
  refine h.imp ?_
  intro a b hab
  rw [Bool.eq_false_iff]
  intro ho
  have := ((overlaps_iff a b).mp ho).2
  omega

theorem Apart.eq_of_start (kept : List (IdentifierMatch source)) (h : Apart kept) {a b : IdentifierMatch source}
    (ha : a ∈ kept) (hb : b ∈ kept) (hstart : a.start = b.start) : a = b := by
  have hnodup : (kept.map IdentifierMatch.start).Nodup :=
    List.pairwise_map.mpr (h.starts.imp fun hlt => Nat.ne_of_lt hlt)
  exact List.inj_on_of_nodup_map hnodup ha hb hstart

-- Looking at neighbours only, the same matches are kept as by the plain greedy choice, in text order and
-- disjoint; each dropped match overlaps a kept one at least as long.
theorem resolveOverlaps_greedy (found : List (IdentifierMatch source)) :
    resolveOverlaps found = (greedy found).1.insertionSort byStart ∧
      (resolveOverlaps found).Pairwise (fun a b => a.start < b.start) ∧
      (resolveOverlaps found).Pairwise (fun a b => overlaps a b = false) ∧
      found.Perm (resolveOverlaps found ++ (greedy found).2) ∧
      ∀ dropped ∈ (greedy found).2, ∃ kept ∈ resolveOverlaps found,
        overlaps dropped kept = true ∧ width dropped ≤ width kept := by
  have hapart := resolveOverlaps_apart found
  have hperm : (resolveOverlaps found).Perm (greedy found).1 :=
    foldl_perm_sift _ [] ([], []) List.Pairwise.nil (List.Perm.refl _)
  have hsorted : (found.insertionSort longestFirst).Pairwise longestFirst := List.pairwise_insertionSort _ _
  refine ⟨?_, hapart.starts, hapart.disjoint, ?_, ?_⟩
  · have hstarts : ((greedy found).1.insertionSort byStart).Pairwise byStart := List.pairwise_insertionSort _ _
    have hsame : (resolveOverlaps found).Perm ((greedy found).1.insertionSort byStart) :=
      hperm.trans (List.perm_insertionSort byStart _).symm
    refine hsame.eq_of_pairwise ?_ (hapart.starts.imp fun hlt => Nat.le_of_lt hlt) hstarts
    intro a b ha hb hab hba
    exact hapart.eq_of_start _ ha (hsame.mem_iff.mpr hb) (Nat.le_antisymm hab hba)
  · have hpartition := foldl_sift_partition (found.insertionSort longestFirst) ([], [])
    refine (List.perm_insertionSort longestFirst found).symm.trans (hpartition.symm.trans ?_)
    exact hperm.symm.append_right _
  · intro dropped hd
    have houtdone : Outdone (greedy found) :=
      foldl_sift_outdone _ ([], []) hsorted (fun _ h => absurd h List.not_mem_nil) fun _ h => absurd h List.not_mem_nil
    obtain ⟨kept, hk, ho⟩ := houtdone dropped hd
    exact ⟨kept, hperm.mem_iff.mpr hk, ho⟩

end Runs

end AgenticOrg.Pii
