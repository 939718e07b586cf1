import Mathlib.Data.Int.Notation
import Mathlib.Data.List.Induction

namespace HashChains

variable {Row Hash : Type}

section Chains

structure Entry (Row Hash : Type) where
  seq : ℤ
  prev : Hash
  hash : Hash
  row : Row

variable (link : Hash → Row → Hash)

-- Numbered from `seq` on, each entry naming the link before it.
def Linked : ℤ → Hash → List (Entry Row Hash) → Prop
  | _, _, [] => True
  | seq, prev, entry :: rest =>
      entry.seq = seq ∧ entry.prev = prev ∧ entry.hash = link prev entry.row ∧ Linked (seq + 1) entry.hash rest

-- The newest link.
def tip (start : Hash) : List (Entry Row Hash) → Hash
  | [] => start
  | entry :: rest => tip entry.hash rest

theorem tip_append (start : Hash) (xs ys : List (Entry Row Hash)) : tip start (xs ++ ys) = tip (tip start xs) ys := by
  induction xs generalizing start with
  | nil => rfl
  | cons entry rest ih => exact ih entry.hash

theorem linked_append (seq : ℤ) (prev : Hash) (xs ys : List (Entry Row Hash)) :
    Linked link seq prev (xs ++ ys) ↔ Linked link seq prev xs ∧ Linked link (seq + xs.length) (tip prev xs) ys := by
  induction xs generalizing seq prev with
  | nil => simp [Linked, tip]
  | cons entry rest ih =>
      have hadd : seq + 1 + (rest.length : ℤ) = seq + ((entry :: rest).length : ℤ) := by
        rw [List.length_cons]
        omega
      rw [List.cons_append, Linked, Linked, ih, hadd, tip]
      simp only [and_assoc]

theorem linked_seq (seq : ℤ) (prev : Hash) (entries : List (Entry Row Hash)) (h : Linked link seq prev entries)
    (entry : Entry Row Hash) (he : entry ∈ entries) : seq ≤ entry.seq ∧ entry.seq < seq + entries.length := by
  induction entries generalizing seq prev with
  | nil => cases he
  | cons first rest ih =>
      obtain ⟨hseq, _, _, hrest⟩ := h
      rw [List.length_cons]
      rcases List.mem_cons.mp he with rfl | he
      · omega
      · have hlater := ih (seq + 1) first.hash hrest he
        omega

theorem linked_hash (seq : ℤ) (prev : Hash) (entries : List (Entry Row Hash)) (h : Linked link seq prev entries)
    (entry : Entry Row Hash) (he : entry ∈ entries) : ∃ before, entry.hash = link before entry.row := by
  induction entries generalizing seq prev with
  | nil => cases he
  | cons first rest ih =>
      obtain ⟨_, _, hhash, hrest⟩ := h
      rcases List.mem_cons.mp he with rfl | he
      · exact ⟨prev, hhash⟩
      · exact ih (seq + 1) first.hash hrest he

-- The numbers go up by one.
theorem linked_ascending (seq : ℤ) (prev : Hash) (entries : List (Entry Row Hash)) (h : Linked link seq prev entries) :
    entries.Pairwise fun a b => a.seq < b.seq := by
  induction entries generalizing seq prev with
  | nil => exact List.Pairwise.nil
  | cons first rest ih =>
      obtain ⟨hseq, _, _, hrest⟩ := h
      refine List.pairwise_cons.mpr ⟨fun other ho => ?_, ih _ _ hrest⟩
      have hlater := (linked_seq link _ _ rest hrest other ho).1
      omega

-- What is numbered up to an entry is what stands before it, and itself.
theorem linked_at (seq : ℤ) (prev : Hash) (entries : List (Entry Row Hash)) (h : Linked link seq prev entries)
    (entry : Entry Row Hash) (he : entry ∈ entries) :
    ∃ front rest, entries = (front ++ [entry]) ++ rest ∧ entry.seq = seq + front.length ∧
      entries.filter (fun other => other.seq ≤ entry.seq) = front ++ [entry] := by
  obtain ⟨front, rest, hsplit⟩ := List.append_of_mem he
  have hentries : entries = (front ++ [entry]) ++ rest := by
    rw [hsplit, List.append_assoc, List.singleton_append]
  have hasc := linked_ascending link seq prev entries h
  rw [hentries, List.pairwise_append, List.pairwise_append] at hasc
  obtain ⟨⟨_, _, hfront⟩, _, hrest⟩ := hasc
  have hseq : entry.seq = seq + front.length := by
    rw [hsplit] at h
    exact ((linked_append link seq prev front (entry :: rest)).mp h).2.1
  refine ⟨front, rest, hentries, hseq, ?_⟩
  have hkept : (front ++ [entry]).filter (fun other => other.seq ≤ entry.seq) = front ++ [entry] := by
    refine List.filter_eq_self.mpr fun other ho => decide_eq_true ?_
    rcases List.mem_append.mp ho with ho | ho
    · exact Int.le_of_lt (hfront other ho entry (List.mem_singleton.mpr rfl))
    · exact Int.le_of_eq (congrArg Entry.seq (List.mem_singleton.mp ho))
  have hdropped : rest.filter (fun other => other.seq ≤ entry.seq) = [] := by
    refine List.filter_eq_nil_iff.mpr fun other ho => ?_
    rw [decide_eq_true_eq, Int.not_le]
    exact hrest entry (List.mem_append_right _ (List.mem_singleton.mpr rfl)) other ho
  rw [hentries, List.filter_append, hkept, hdropped, List.append_nil]

end Chains

section Tampering

variable {κ : Type} (link : Hash → Row → Hash) (key : Row → κ) (Good : Hash → Prop) (Known : Row → Prop)

-- A link tells the link before it and what it was made of.
def Binding : Prop :=
  ∀ prev row other row', Good prev → Good other → Known row → Known row' → link prev row = link other row' →
    prev = other ∧ key row = key row'

theorem tip_good (start : Hash) (entries : List (Entry Row Hash)) (hs : Good start)
    (hgood : ∀ entry ∈ entries, Good entry.hash) : Good (tip start entries) := by
  induction entries generalizing start with
  | nil => exact hs
  | cons entry rest ih =>
      exact ih entry.hash (hgood entry List.mem_cons_self) fun other ho => hgood other (List.mem_cons_of_mem _ ho)

variable (hbinding : Binding link key Good Known)

include hbinding

-- Two chains of one length with one newest link are made of the same rows: by induction from the newest back.
theorem linked_agree (seq other : ℤ) (start start' : Hash) (xs ys : List (Entry Row Hash))
    (hx : Linked link seq start xs) (hy : Linked link other start' ys) (hs : Good start) (hs' : Good start')
    (hgood : ∀ entry ∈ xs ++ ys, Good entry.hash ∧ Known entry.row) (hlength : xs.length = ys.length)
    (htip : tip start xs = tip start' ys) :
    xs.map (fun entry => key entry.row) = ys.map fun entry => key entry.row := by
  induction xs using List.reverseRecOn generalizing ys with
  | nil =>
      rw [List.length_nil, eq_comm, List.length_eq_zero_iff] at hlength
      rw [hlength]
  | append_singleton xs x ih =>
      rcases List.eq_nil_or_concat ys with rfl | ⟨init, y, rfl⟩
      · rw [List.length_append, List.length_singleton, List.length_nil] at hlength
        omega
      · rw [List.concat_eq_append] at *
        obtain ⟨hxs, hxe⟩ := (linked_append link seq start xs [x]).mp hx
        obtain ⟨hys, hye⟩ := (linked_append link other start' init [y]).mp hy
        obtain ⟨_, _, hxh, _⟩ := hxe
        obtain ⟨_, _, hyh, _⟩ := hye
        rw [tip_append, tip_append] at htip
        have hlast : x.hash = y.hash := htip
        have hleft : ∀ entry ∈ xs, entry ∈ xs ++ [x] ++ (init ++ [y]) := fun entry he => by simp [he]
        have hright : ∀ entry ∈ init, entry ∈ xs ++ [x] ++ (init ++ [y]) := fun entry he => by simp [he]
        obtain ⟨hprev, hkey⟩ := hbinding _ x.row _ y.row
          (tip_good Good start xs hs fun entry he => (hgood entry (hleft entry he)).1)
          (tip_good Good start' init hs' fun entry he => (hgood entry (hright entry he)).1)
          (hgood x (by simp)).2 (hgood y (by simp)).2 (hxh.symm.trans (hlast.trans hyh))
        rw [List.length_append, List.length_append, List.length_singleton, List.length_singleton] at hlength
        have hmap := ih init hxs hys
          (fun entry he => hgood entry ((List.mem_append.mp he).elim (hleft entry) (hright entry))) (by omega) hprev
        rw [List.map_append, List.map_append, hmap, List.map_singleton, List.map_singleton, hkey]

-- Chains that hold one link at one number hold the same rows up to it.
theorem linked_agree_upTo (seq : ℤ) (start : Hash) (xs ys : List (Entry Row Hash)) (hx : Linked link seq start xs)
    (hy : Linked link seq start ys) (hs : Good start) (hgood : ∀ entry ∈ xs ++ ys, Good entry.hash ∧ Known entry.row)
    (x y : Entry Row Hash) (hxm : x ∈ xs) (hym : y ∈ ys) (hseq : x.seq = y.seq) (hhash : x.hash = y.hash) :
    (xs.filter fun entry => entry.seq ≤ x.seq).map (fun entry => key entry.row) =
      (ys.filter fun entry => entry.seq ≤ x.seq).map fun entry => key entry.row := by
  obtain ⟨front, rest, hxs, hxseq, hxfilter⟩ := linked_at link seq start xs hx x hxm
  obtain ⟨init, more, hys, hyseq, hyfilter⟩ := linked_at link seq start ys hy y hym
  rw [hxfilter, hseq, hyfilter]
  rw [hxs, linked_append] at hx
  rw [hys, linked_append] at hy
  refine linked_agree link key Good Known hbinding seq seq start start _ _ hx.1 hy.1 hs hs ?_ ?_ ?_
  · intro entry he
    refine hgood entry ?_
    rw [hxs, hys]
    rcases List.mem_append.mp he with he | he
    · exact List.mem_append_left _ (List.mem_append_left _ he)
    · exact List.mem_append_right _ (List.mem_append_left _ he)
  · rw [List.length_append, List.length_append, List.length_singleton, List.length_singleton]
    omega
  · rw [tip_append, tip_append]
    exact hhash

end Tampering

end HashChains

