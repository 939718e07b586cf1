import AgenticOrg.Lib.Pruning
import Mathlib.Order.Bounds.Basic

namespace AgenticOrg.Commerce.Negotiation

open OrderedDict Prunings

section Data

-- A capability or extension of the business: its parents, and its parents in releases where they differ.
structure CapabilityEntry where
  name : String
  extends_ : List String
  extendsByVersion : List (String × List String)
  deriving DecidableEq

-- An entry of the platform's profile; its version as text, where it has one.
structure ProfileEntry where
  version : Option String
  deriving DecidableEq

structure PlatformProfile where
  capabilities : Dict String (List ProfileEntry)

end Data

section Intersection

def PlatformProfile.versionsOf (platform : PlatformProfile) (name : String) : List String :=
  ((platform.capabilities.get? name).getD []).filterMap ProfileEntry.version

def CapabilityEntry.extendsFor (entry : CapabilityEntry) (version : String) : List String :=
  ((Dict.ofList entry.extendsByVersion).get? version).getD entry.extends_

def shared (business : List CapabilityEntry) (platform : PlatformProfile) (version : String) :
    Dict String CapabilityEntry :=
  .ofList ((business.filter fun entry => (platform.versionsOf entry.name).contains version).map
    fun entry => (entry.name, entry))

-- A parent of it is active, or it has none.
def anchored (version : String) (active : Dict String CapabilityEntry) (entry : CapabilityEntry) : Bool :=
  (entry.extendsFor version).isEmpty || (entry.extendsFor version).any active.contains

def intersect (business : List CapabilityEntry) (platform : PlatformProfile) (version : String) :
    Dict String CapabilityEntry :=
  prune (anchored version) (shared business platform version)

end Intersection

section Meaning

-- Entries of the business shared at the version, each with a parent among them where it has parents.
def Rooted (business : List CapabilityEntry) (platform : PlatformProfile) (version : String)
    (S : Set CapabilityEntry) : Prop :=
  (∀ entry ∈ S, entry ∈ business ∧ version ∈ platform.versionsOf entry.name) ∧
    ∀ entry ∈ S, entry.extendsFor version ≠ [] →
      ∃ parent ∈ entry.extendsFor version, ∃ other ∈ S, other.name = parent

def activeEntries (business : List CapabilityEntry) (platform : PlatformProfile) (version : String) :
    Set CapabilityEntry :=
  fun entry => (entry.name, entry) ∈ (intersect business platform version).entries

end Meaning

section Lemmas

variable (business : List CapabilityEntry) (platform : PlatformProfile) (version : String)

theorem shared_entries (hd : (business.map CapabilityEntry.name).Nodup) :
    (shared business platform version).entries =
      (business.filter fun entry => (platform.versionsOf entry.name).contains version).map
        fun entry => (entry.name, entry) := by
  have hdistinct : ((business.filter fun entry => (platform.versionsOf entry.name).contains version).map
      fun entry => (entry.name, entry)).Pairwise fun a b => (a.1 == b.1) = false := by
    rw [List.pairwise_map]
    refine ((List.pairwise_map.mp hd).filter _).imp ?_
    intro a b hne
    exact beq_false_of_ne hne
  have h := Dict.entries_foldl_insert _ (Dict.empty : Dict String CapabilityEntry) hdistinct
  simpa [shared, Dict.ofList, Dict.empty] using h

theorem mem_shared (hd : (business.map CapabilityEntry.name).Nodup) (found : String × CapabilityEntry) :
    found ∈ (shared business platform version).entries ↔
      (found.2 ∈ business ∧ version ∈ platform.versionsOf found.2.name) ∧ found.1 = found.2.name := by
  rw [shared_entries business platform version hd, List.mem_map]
  constructor
  · rintro ⟨entry, he, rfl⟩
    rw [List.mem_filter, List.contains_iff_mem] at he
    exact ⟨he, rfl⟩
  · rintro ⟨he, hname⟩
    refine ⟨found.2, ?_, Prod.ext hname.symm rfl⟩
    rw [List.mem_filter, List.contains_iff_mem]
    exact he

theorem name_of_mem_intersect (hd : (business.map CapabilityEntry.name).Nodup) (found : String × CapabilityEntry)
    (hf : found ∈ (intersect business platform version).entries) : found.1 = found.2.name :=
  ((mem_shared business platform version hd found).mp (prune_subset _ _ found hf)).2

theorem anchored_iff (active : Dict String CapabilityEntry) (entry : CapabilityEntry) :
    anchored version active entry = true ↔
      (entry.extendsFor version ≠ [] →
        ∃ parent ∈ entry.extendsFor version, ∃ other ∈ active.entries, other.1 = parent) := by
  have hcontains : ∀ parent, active.contains parent = true ↔ ∃ other ∈ active.entries, other.1 = parent := by
    intro parent
    rw [Dict.contains, List.any_eq_true]
    simp only [beq_iff_eq]
  unfold anchored
  simp only [Bool.or_eq_true, List.isEmpty_iff, List.any_eq_true, hcontains]
  by_cases hnone : entry.extendsFor version = []
  · exact iff_of_true (.inl hnone) fun h => absurd hnone h
  · simp only [hnone, false_or, ne_eq, not_false_eq_true, true_implies]

-- A set of entries that are rooted in one another supports itself wherever it is active.
theorem rooted_selfSupporting (S : Set CapabilityEntry) (hS : Rooted business platform version S) :
    SelfSupporting (anchored version) {found : String × CapabilityEntry | found.2 ∈ S ∧ found.1 = found.2.name} := by
  intro active hin found hf
  rw [anchored_iff]
  intro hparents
  obtain ⟨parent, hp, other, ho, hname⟩ := hS.2 found.2 hf.1 hparents
  exact ⟨parent, hp, (other.name, other), hin (other.name, other) ⟨ho, rfl⟩, hname⟩

theorem activeEntries_rooted (hd : (business.map CapabilityEntry.name).Nodup) :
    Rooted business platform version (activeEntries business platform version) := by
  refine ⟨?_, ?_⟩
  · intro entry he
    exact ((mem_shared business platform version hd _).mp (prune_subset _ _ _ he)).1
  · intro entry he hparents
    have hanchored := prune_holds (anchored version) (shared business platform version) _ he
    obtain ⟨parent, hp, other, ho, hname⟩ := (anchored_iff version _ entry).mp hanchored hparents
    have hown := name_of_mem_intersect business platform version hd other ho
    refine ⟨parent, hp, other.2, ?_, hown ▸ hname⟩
    change (other.2.name, other.2) ∈ (intersect business platform version).entries
    rw [← hown]
    exact ho

theorem activeEntries_greatest (hd : (business.map CapabilityEntry.name).Nodup) :
    IsGreatest {S | Rooted business platform version S} (activeEntries business platform version) := by
  refine ⟨activeEntries_rooted business platform version hd, ?_⟩
  intro S hS entry he
  refine prune_keeps (anchored version) (shared business platform version) _
    (rooted_selfSupporting business platform version S hS) ?_ (entry.name, entry) ⟨he, rfl⟩
  intro found hf
  exact (mem_shared business platform version hd found).mpr ⟨hS.1 found.2 hf.1, hf.2⟩

theorem rooted_perm (business' : List CapabilityEntry) (hp : business.Perm business') (S : Set CapabilityEntry) :
    Rooted business platform version S ↔ Rooted business' platform version S := by
  unfold Rooted
  simp only [hp.mem_iff]

theorem get?_intersect_iff (hd : (business.map CapabilityEntry.name).Nodup) (name : String) (entry : CapabilityEntry) :
    (intersect business platform version).get? name = some entry ↔
      entry ∈ activeEntries business platform version ∧ entry.name = name := by
  constructor
  · intro h
    have hmem := Dict.mem_of_get? _ _ _ h
    have hname : name = entry.name := name_of_mem_intersect business platform version hd _ hmem
    refine ⟨?_, hname.symm⟩
    change (entry.name, entry) ∈ (intersect business platform version).entries
    rw [← hname]
    exact hmem
  · rintro ⟨he, rfl⟩
    exact Dict.get?_of_mem _ (entry.name, entry) he

-- The active capabilities are the largest rooted set, whatever the order of the business's list.
theorem intersect_greatest (hd : (business.map CapabilityEntry.name).Nodup) :
    IsGreatest {S | Rooted business platform version S} (activeEntries business platform version) ∧
      (∀ found ∈ (intersect business platform version).entries, found.1 = found.2.name) ∧
      ∀ business', business.Perm business' → ∀ name,
        (intersect business' platform version).get? name = (intersect business platform version).get? name := by
  refine ⟨activeEntries_greatest business platform version hd, name_of_mem_intersect business platform version hd, ?_⟩
  intro business' hp name
  have hd' : (business'.map CapabilityEntry.name).Nodup := (hp.map _).nodup_iff.mp hd
  have hsets : activeEntries business' platform version = activeEntries business platform version := by
    refine (activeEntries_greatest business' platform version hd').unique ?_
    simp only [← rooted_perm business platform version business' hp]
    exact activeEntries_greatest business platform version hd
  refine Option.ext fun entry => ?_
  rw [get?_intersect_iff business' platform version hd', get?_intersect_iff business platform version hd, hsets]

-- A checkout extension stays with one of its two parents, and an orphaned one goes with its own extension.
theorem intersect_greatest_sample :
    let business := [⟨"loyalty", ["discount"], []⟩, ⟨"fulfillment", ["checkout", "cart"], []⟩,
      ⟨"discount", ["cart"], []⟩, ⟨"checkout", [], []⟩]
    let platform := ⟨.ofList [("loyalty", [⟨some "1"⟩]), ("fulfillment", [⟨some "1"⟩]), ("discount", [⟨some "1"⟩]),
      ("checkout", [⟨some "1"⟩])]⟩
    IsGreatest {S | Rooted business platform "1" S} (activeEntries business platform "1") :=
  (intersect_greatest _ _ _ (by decide)).1

end Lemmas

end AgenticOrg.Commerce.Negotiation
