import AgenticOrg.Lib.Kahn

namespace Precedence

section DepthFirst

variable {V : Type}

-- The nodes seen so far and, among them, those whose visit is still going on.
structure Marks (V : Type) where
  visited : List V
  inStack : List V

def Marks.enter (marks : Marks V) (node : V) : Marks V :=
  ⟨node :: marks.visited, node :: marks.inStack⟩

def Marks.leave [DecidableEq V] (marks : Marks V) (node : V) : Marks V :=
  ⟨marks.visited, marks.inStack.erase node⟩

def visitAll (visit : V → Marks V → Bool × Marks V) : List V → Marks V → Bool × Marks V
  | [], marks => (false, marks)
  | node :: rest, marks =>
      match visit node marks with
      | (true, marks') => (true, marks')
      | (false, marks') => visitAll visit rest marks'

def hasCycle [DecidableEq V] (graph : V → List V) : Nat → V → Marks V → Bool × Marks V
  | 0, _, marks => (true, marks)
  | fuel + 1, node, marks =>
      if node ∈ marks.inStack then (true, marks)
      else if node ∈ marks.visited then (false, marks)
      else
        match visitAll (hasCycle graph fuel) (graph node) (marks.enter node) with
        | (true, marks') => (true, marks')
        | (false, marks') => (false, marks'.leave node)

def DependsOn (graph : V → List V) (node dep : V) : Prop := dep ∈ graph node

theorem not_cycle_of_acc (graph : V → List V) (v : V)
    (ha : Acc (fun dep node => DependsOn graph node dep) v) :
    ¬ Relation.TransGen (DependsOn graph) v v := by
  induction ha with
  | intro v _ ih =>
      intro hv
      obtain ⟨dep, hdep, hback⟩ := Relation.TransGen.head'_iff.mp hv
      exact ih dep hdep (Relation.TransGen.tail' hback hdep)

-- What a visit that finds no cycle leaves behind: the stack is as it was, and
-- from every finished node all chains of dependencies end.
structure Finished (graph : V → List V) (before after : Marks V) : Prop where
  stack : after.inStack = before.inStack
  mono : ∀ v ∈ before.visited, v ∈ after.visited
  acc : ∀ v ∈ after.visited, v ∉ after.inStack → Acc (fun dep node => DependsOn graph node dep) v

theorem visitAll_finished (graph : V → List V) (visit : V → Marks V → Bool × Marks V)
    (hvisit : ∀ node marks marks', Finished graph marks marks → visit node marks = (false, marks') →
      Finished graph marks marks' ∧ node ∈ marks'.visited ∧ node ∉ marks'.inStack)
    (nodes : List V) (marks marks' : Marks V) (hm : Finished graph marks marks)
    (h : visitAll visit nodes marks = (false, marks')) :
    Finished graph marks marks' ∧ ∀ node ∈ nodes, node ∈ marks'.visited ∧ node ∉ marks'.inStack := by
  induction nodes generalizing marks with
  | nil =>
      cases h
      exact ⟨hm, by simp⟩
  | cons node rest ih =>
      rw [visitAll] at h
      split at h
      · cases h
      · rename_i between hb
        obtain ⟨hf, hin, hout⟩ := hvisit node marks between hm hb
        obtain ⟨hrest, hall⟩ := ih between ⟨rfl, fun _ hv => hv, hf.acc⟩ h
        refine ⟨⟨hrest.stack.trans hf.stack, fun v hv => hrest.mono v (hf.mono v hv), hrest.acc⟩, ?_⟩
        intro v hv
        rcases List.mem_cons.mp hv with rfl | hv
        · exact ⟨hrest.mono v hin, by rw [hrest.stack]; exact hout⟩
        · exact hall v hv

theorem Finished.enter (graph : V → List V) (marks : Marks V) (hm : Finished graph marks marks)
    (node : V) : Finished graph (marks.enter node) (marks.enter node) := by
  refine ⟨rfl, fun _ hv => hv, ?_⟩
  intro v hv hout
  rcases List.mem_cons.mp hv with rfl | hv
  · exact absurd List.mem_cons_self hout
  · exact hm.acc v hv (fun hs => hout (List.mem_cons_of_mem _ hs))

section Visits

variable [DecidableEq V]

theorem hasCycle_finished (graph : V → List V) (fuel : Nat) (node : V) (marks marks' : Marks V)
    (hm : Finished graph marks marks) (h : hasCycle graph fuel node marks = (false, marks')) :
    Finished graph marks marks' ∧ node ∈ marks'.visited ∧ node ∉ marks'.inStack := by
  induction fuel generalizing node marks marks' with
  | zero => simp [hasCycle] at h
  | succ fuel ih =>
      rw [hasCycle] at h
      split at h
      · cases h
      · rename_i hstack
        split at h
        · rename_i hvisited
          cases h
          exact ⟨hm, hvisited, hstack⟩
        · rename_i hvisited
          split at h
          · cases h
          · rename_i between hb
            cases h
            obtain ⟨hf, hall⟩ := visitAll_finished graph (hasCycle graph fuel) ih
              (graph node) _ between (hm.enter graph marks node) hb
            have hs : between.inStack = node :: marks.inStack := hf.stack
            have hleave : (between.leave node).inStack = marks.inStack := by
              simp [Marks.leave, hs]
            have hacc : Acc (fun dep node => DependsOn graph node dep) node := by
              constructor
              intro dep hdep
              obtain ⟨hin, hout⟩ := hall dep hdep
              exact hf.acc dep hin hout
            refine ⟨⟨hleave, ?_, ?_⟩, hf.mono node (by simp [Marks.enter]), ?_⟩
            · exact fun v hv => hf.mono v (List.mem_cons_of_mem _ hv)
            · intro v hv hout
              by_cases hvn : v = node
              · rw [hvn]
                exact hacc
              · apply hf.acc v hv
                rw [hs, List.mem_cons, not_or]
                exact ⟨hvn, by rwa [hleave] at hout⟩
            · rw [hleave]
              exact hstack

def unvisited (nodes visited : List V) : Nat := (nodes.toFinset \ visited.toFinset).card

theorem unvisited_mono (nodes visited more : List V) (h : ∀ v ∈ visited, v ∈ more) :
    unvisited nodes more ≤ unvisited nodes visited := by
  apply Finset.card_le_card
  intro v hv
  simp only [Finset.mem_sdiff, List.mem_toFinset] at hv ⊢
  exact ⟨hv.1, fun hm => hv.2 (h v hm)⟩

theorem unvisited_cons_lt (nodes visited : List V) (node : V) (hu : node ∈ nodes)
    (hn : node ∉ visited) : unvisited nodes (node :: visited) < unvisited nodes visited := by
  apply Finset.card_lt_card
  refine Finset.ssubset_iff_subset_ne.mpr ⟨?_, ?_⟩
  · intro v hv
    simp only [Finset.mem_sdiff, List.mem_toFinset, List.mem_cons, not_or] at hv ⊢
    exact ⟨hv.1, hv.2.2⟩
  · intro he
    have hm : node ∈ nodes.toFinset \ visited.toFinset := by simp [hu, hn]
    rw [← he] at hm
    simp at hm

theorem visitAll_true (graph : V → List V) (nodes stack : List V) (fuel : Nat) (deps : List V)
    (hvisit : ∀ dep ∈ deps, ∀ marks, Finished graph marks marks → marks.inStack = stack →
      unvisited nodes marks.visited < fuel → (hasCycle graph fuel dep marks).1 = true →
      ∃ v, Relation.TransGen (DependsOn graph) v v)
    (marks : Marks V) (hm : Finished graph marks marks) (hs : marks.inStack = stack)
    (hfuel : unvisited nodes marks.visited < fuel)
    (h : (visitAll (hasCycle graph fuel) deps marks).1 = true) :
    ∃ v, Relation.TransGen (DependsOn graph) v v := by
  induction deps generalizing marks with
  | nil => cases h
  | cons dep rest ih =>
      rw [visitAll] at h
      split at h
      · rename_i after hafter
        exact hvisit dep (by simp) marks hm hs hfuel (by rw [hafter])
      · rename_i after hafter
        obtain ⟨hf, _⟩ := hasCycle_finished graph fuel dep marks after hm hafter
        have hmono := unvisited_mono nodes marks.visited after.visited hf.mono
        exact ih (fun other ho => hvisit other (by simp [ho])) after
          ⟨rfl, fun _ hv => hv, hf.acc⟩ (hf.stack.trans hs) (by omega) h

-- A node met again while its visit is going on closes a cycle: every node of
-- the stack leads to the node being visited. Each level of the recursion visits
-- a new node, so the fuel does not run out first.
theorem hasCycle_true (graph : V → List V) (nodes : List V)
    (hn : ∀ v, ∀ dep ∈ graph v, dep ∈ nodes) (fuel : Nat) (node : V) (marks : Marks V)
    (hnode : node ∈ nodes) (hm : Finished graph marks marks)
    (hpath : ∀ v ∈ marks.inStack, Relation.TransGen (DependsOn graph) v node)
    (hfuel : unvisited nodes marks.visited < fuel)
    (h : (hasCycle graph fuel node marks).1 = true) :
    ∃ v, Relation.TransGen (DependsOn graph) v v := by
  induction fuel generalizing node marks with
  | zero => omega
  | succ fuel ih =>
      rw [hasCycle] at h
      split at h
      · rename_i hstack
        exact ⟨node, hpath node hstack⟩
      · split at h
        · cases h
        · rename_i hvisited
          have hlt := unvisited_cons_lt nodes marks.visited node hnode hvisited
          have hall : (visitAll (hasCycle graph fuel) (graph node) (marks.enter node)).1 = true := by
            split at h
            · rename_i after hafter
              rw [hafter]
            · cases h
          refine visitAll_true graph nodes (node :: marks.inStack) fuel (graph node) ?_
            (marks.enter node) (hm.enter graph marks node) rfl
            (show unvisited nodes (node :: marks.visited) < fuel by omega) hall
          intro dep hdep between hb hs hf
          apply ih dep between (hn node dep hdep) hb ?_ hf
          intro v hv
          rw [hs] at hv
          rcases List.mem_cons.mp hv with rfl | hv
          · exact .single hdep
          · exact (hpath v hv).tail hdep

def findCycle (graph : V → List V) (nodes : List V) : Bool :=
  (visitAll (hasCycle graph ((nodes ++ nodes.flatMap graph).length + 1)) nodes ⟨[], []⟩).1

theorem findCycle_eq_false_iff (graph : V → List V) (nodes : List V)
    (hg : ∀ v, v ∉ nodes → graph v = []) :
    findCycle graph nodes = false ↔ ∀ v, ¬ Relation.TransGen (DependsOn graph) v v := by
  have hempty : Finished graph (⟨[], []⟩ : Marks V) ⟨[], []⟩ :=
    ⟨rfl, fun _ hv => hv, fun _ hv => absurd hv (by simp)⟩
  constructor
  · intro h v hv
    unfold findCycle at h
    obtain ⟨hf, hall⟩ := visitAll_finished graph _ (hasCycle_finished graph _) nodes ⟨[], []⟩ _
      hempty (Prod.ext h rfl)
    have hin : v ∈ nodes := by
      by_contra hout
      obtain ⟨dep, hdep, _⟩ := Relation.TransGen.head'_iff.mp hv
      rw [DependsOn, hg v hout] at hdep
      exact List.not_mem_nil hdep
    exact not_cycle_of_acc graph v (hf.acc v (hall v hin).1 (hall v hin).2) hv
  · intro h
    by_contra hc
    let support := nodes ++ nodes.flatMap graph
    have hn : ∀ v, ∀ dep ∈ graph v, dep ∈ support := by
      intro v dep hdep
      by_cases hin : v ∈ nodes
      · exact List.mem_append_right _ (List.mem_flatMap.mpr ⟨v, hin, hdep⟩)
      · rw [hg v hin] at hdep
        exact absurd hdep List.not_mem_nil
    have hfuel : unvisited support [] < support.length + 1 := by
      have hle := List.toFinset_card_le support
      simp only [unvisited, List.toFinset_nil, Finset.sdiff_empty]
      omega
    obtain ⟨v, hv⟩ := visitAll_true graph support [] (support.length + 1) nodes
      (fun dep hdep marks hm hs hf => hasCycle_true graph support hn _ dep marks
        (List.mem_append_left _ hdep) hm (by simp [hs]) hf)
      ⟨[], []⟩ hempty rfl hfuel (Bool.eq_true_of_not_eq_false hc)
    exact h v hv

end Visits

end DepthFirst

end Precedence
