import Mathlib.Data.List.Nodup
import Mathlib.Data.Set.Finite.Lattice
import Mathlib.Order.WellFoundedSet
import Mathlib.Logic.Relation

namespace Precedence

section Relation

variable {V : Type}

def Edge (edges : List (V × V)) (before after : V) : Prop := (before, after) ∈ edges

def Acyclic (edges : List (V × V)) : Prop := ∀ v, ¬ Relation.TransGen (Edge edges) v v

-- Every node of the list stands behind all nodes with an edge to it.
def Sorted (edges : List (V × V)) (order : List V) : Prop :=
  ∀ front v back, order = front ++ v :: back → ∀ u, Edge edges u v → u ∈ front

theorem Acyclic.mono (edges others : List (V × V)) (hs : ∀ e ∈ edges, e ∈ others)
    (ha : Acyclic others) : Acyclic edges := by
  intro v hv
  exact ha v (Relation.TransGen.mono (fun a b hab => hs (a, b) hab) v v hv)

-- A cycle either runs through a new node or was there before.
theorem Acyclic.extend (edges old : List (V × V)) (new : V → Prop) (ho : Acyclic old)
    (he : ∀ u v, Edge edges u v → new u ∨ new v ∨ Edge old u v)
    (hn : ∀ v, new v → ¬ Relation.TransGen (Edge edges) v v) : Acyclic edges := by
  have hpath : ∀ u v, Relation.TransGen (Edge edges) u v →
      Relation.TransGen (Edge old) u v ∨
        ∃ w, new w ∧ Relation.ReflTransGen (Edge edges) u w ∧ Relation.ReflTransGen (Edge edges) w v := by
    intro u v h
    induction h with
    | single h =>
        rcases he _ _ h with hu | hv | hold
        · exact .inr ⟨_, hu, .refl, .single h⟩
        · exact .inr ⟨_, hv, .single h, .refl⟩
        · exact .inl (.single hold)
    | tail hfront h ih =>
        rcases ih with hold | ⟨w, hw, huw, hwv⟩
        · rcases he _ _ h with hu | hv | hlast
          · exact .inr ⟨_, hu, hfront.to_reflTransGen, .single h⟩
          · exact .inr ⟨_, hv, hfront.to_reflTransGen.tail h, .refl⟩
          · exact .inl (hold.tail hlast)
        · exact .inr ⟨w, hw, huw, hwv.tail h⟩
  intro v hv
  rcases hpath v v hv with hold | ⟨w, hw, hvw, hwv⟩
  · exact ho v hold
  · exact hn w hw (Relation.TransGen.trans_right hwv (Relation.TransGen.trans_left hv hvw))

theorem sorted_nil (edges : List (V × V)) : Sorted edges [] := by
  intro front v back h
  simp at h

theorem Sorted.snoc (edges : List (V × V)) (order : List V) (node : V) (hs : Sorted edges order)
    (hn : ∀ u, Edge edges u node → u ∈ order) : Sorted edges (order ++ [node]) := by
  intro front v back h u hu
  rcases List.eq_nil_or_concat' back with rfl | ⟨rest, last, rfl⟩
  · obtain ⟨rfl, hv⟩ := List.append_inj' h rfl
    cases hv
    exact hn u hu
  · have h' : order ++ [node] = (front ++ v :: rest) ++ [last] := by
      rw [h, List.append_assoc]
      rfl
    obtain ⟨horder, _⟩ := List.append_inj' h' rfl
    exact hs front v rest horder u hu

theorem Sorted.idxOf_lt [DecidableEq V] (edges : List (V × V)) (order : List V)
    (hs : Sorted edges order) (u v : V) (hv : v ∈ order) (he : Edge edges u v) :
    order.idxOf u < order.idxOf v := by
  obtain ⟨front, back, rfl, hfresh⟩ := List.eq_append_cons_of_mem hv
  have hu := hs front v back rfl u he
  rw [List.idxOf_append_of_mem hu, List.idxOf_append_of_notMem hfresh, List.idxOf_cons_self]
  exact List.idxOf_lt_length_of_mem hu

-- A list that holds every target of an edge and respects the edges leaves no room for a cycle.
theorem Sorted.acyclic [DecidableEq V] (edges : List (V × V)) (order : List V)
    (hs : Sorted edges order) (ht : ∀ u v, Edge edges u v → v ∈ order) : Acyclic edges := by
  have hpath : ∀ u v, Relation.TransGen (Edge edges) u v → order.idxOf u < order.idxOf v := by
    intro u v h
    induction h with
    | single h => exact hs.idxOf_lt edges order _ _ (ht _ _ h) h
    | tail _ h ih => exact ih.trans (hs.idxOf_lt edges order _ _ (ht _ _ h) h)
  intro v hv
  exact Nat.lt_irrefl _ (hpath v v hv)

-- Going back along edges inside a finite set comes to an end when there is no cycle.
theorem Acyclic.eq_nil_of_entered (edges : List (V × V)) (ha : Acyclic edges) (nodes : List V)
    (hn : ∀ v ∈ nodes, ∃ u ∈ nodes, Edge edges u v) : nodes = [] := by
  have hstrict : IsStrictOrder V (Relation.TransGen (Edge edges)) :=
    { irrefl := ha
      trans := fun _ _ _ h h' => Relation.TransGen.trans h h' }
  have hwf := (List.finite_toSet nodes).wellFoundedOn (r := Relation.TransGen (Edge edges))
  rw [List.eq_nil_iff_forall_not_mem]
  intro v hv
  refine hwf.induction (P := fun _ => False) hv ?_
  intro w hw ih
  obtain ⟨u, hu, he⟩ := hn w hw
  exact ih u hu (.single he)

end Relation

section Kahn

variable {V : Type} [DecidableEq V]

def successors (edges : List (V × V)) (node : V) : List V :=
  (edges.filter (·.1 = node)).map Prod.snd

-- Lower the degree of every neighbour and queue those that reach zero.
def relax : List V → (V → Int) → List V → (V → Int) × List V
  | [], degree, queue => (degree, queue)
  | node :: rest, degree, queue =>
      let lowered := Function.update degree node (degree node - 1)
      relax rest lowered (if lowered node = 0 then queue ++ [node] else queue)

def drain (edges : List (V × V)) : Nat → (V → Int) → List V → List V → List V
  | 0, _, _, order => order
  | _ + 1, _, [], order => order
  | fuel + 1, degree, node :: queue, order =>
      let (lowered, extended) := relax (successors edges node) degree queue
      drain edges fuel lowered extended (order ++ [node])

def inDegree (edges : List (V × V)) (node : V) : Int := (edges.filter (·.2 = node)).length

def kahn (nodes : List V) (edges : List (V × V)) : List V :=
  drain edges nodes.length (inDegree edges) (nodes.filter (inDegree edges · = 0)) []

theorem relax_degree (nodes : List V) (degree : V → Int) (queue : List V) (v : V) :
    (relax nodes degree queue).1 v = degree v - nodes.count v := by
  induction nodes generalizing degree queue with
  | nil => simp [relax]
  | cons node rest ih =>
      rw [relax, ih, List.count_cons]
      by_cases h : v = node
      · subst h
        simp
        omega
      · simp [Function.update_of_ne h, Ne.symm h]

-- A degree only falls, so it meets zero once: exactly when it was positive and
-- the node is lowered at least that often.
theorem relax_queue (nodes : List V) (degree : V → Int) (queue : List V) :
    ∃ pushed, (relax nodes degree queue).2 = queue ++ pushed ∧ pushed.Nodup ∧
      ∀ v, v ∈ pushed ↔ 0 < degree v ∧ degree v ≤ nodes.count v := by
  induction nodes generalizing degree queue with
  | nil => exact ⟨[], by simp [relax], by simp, by simp⟩
  | cons node rest ih =>
      let lowered := Function.update degree node (degree node - 1)
      have hnode : lowered node = degree node - 1 := by simp [lowered]
      have hother : ∀ v, v ≠ node → lowered v = degree v := by
        intro v hv
        simp [lowered, Function.update_of_ne hv]
      obtain ⟨pushed, hq, hnodup, hmem⟩ := ih lowered (if lowered node = 0 then queue ++ [node] else queue)
      by_cases hz : lowered node = 0
      · refine ⟨node :: pushed, ?_, ?_, ?_⟩
        · simp only [relax]
          rw [hq, if_pos hz]
          simp
        · refine List.nodup_cons.mpr ⟨?_, hnodup⟩
          intro hm
          have := ((hmem node).mp hm).1
          omega
        · intro v
          by_cases hv : v = node
          · subst hv
            have := List.count_cons_self (a := v) (l := rest)
            simp only [List.mem_cons, true_or, true_iff]
            omega
          · simp only [List.mem_cons, hv, false_or, hmem v, hother v hv,
              List.count_cons_of_ne (Ne.symm hv)]
      · refine ⟨pushed, ?_, hnodup, ?_⟩
        · simp only [relax]
          rw [hq, if_neg hz]
        · intro v
          by_cases hv : v = node
          · subst hv
            have := List.count_cons_self (a := v) (l := rest)
            rw [hmem v]
            omega
          · rw [hmem v, hother v hv, List.count_cons_of_ne (Ne.symm hv)]

def pending (edges : List (V × V)) (order : List V) (v : V) : List (V × V) :=
  edges.filter fun e => e.2 = v ∧ e.1 ∉ order

-- The degree of a node counts its edges from nodes that are not yet ordered;
-- a node has left the graph as soon as that count is zero.
structure Inv (nodes : List V) (edges : List (V × V)) (degree : V → Int)
    (queue order : List V) : Prop where
  degree_eq : ∀ v, degree v = (pending edges order v).length
  nodup : (order ++ queue).Nodup
  mem_nodes : ∀ v ∈ order ++ queue, v ∈ nodes
  mem_iff : ∀ v ∈ nodes, degree v = 0 ↔ v ∈ order ++ queue
  sorted : Sorted edges order

theorem length_pending_snoc (edges : List (V × V)) (order : List V) (node : V)
    (hn : node ∉ order) (v : V) :
    (pending edges order v).length =
      (pending edges (order ++ [node]) v).length + (successors edges node).count v := by
  induction edges with
  | nil => rfl
  | cons e rest ih =>
      simp only [pending, successors] at ih ⊢
      rcases e with ⟨a, b⟩
      by_cases hb : b = v <;> by_cases ha : a ∈ order <;> by_cases hnode : a = node <;>
        simp_all <;> omega

theorem Inv.init (nodes : List V) (edges : List (V × V)) (hn : nodes.Nodup) :
    Inv nodes edges (inDegree edges) (nodes.filter (inDegree edges · = 0)) [] where
  degree_eq v := by simp [inDegree, pending]
  nodup := by simpa using hn.filter _
  mem_nodes v hv := by
    rw [List.nil_append] at hv
    exact (List.mem_filter.mp hv).1
  mem_iff v hv := by simp [hv]
  sorted := sorted_nil edges

theorem Inv.edge_done (nodes : List V) (edges : List (V × V)) (degree : V → Int)
    (queue order : List V) (hinv : Inv nodes edges degree queue order) (v : V)
    (hv : degree v = 0) (u : V) (he : Edge edges u v) : u ∈ order := by
  by_contra hu
  have hm : (u, v) ∈ pending edges order v := by simp [pending, hu]; exact he
  have hpos := List.length_pos_of_mem hm
  have hd := hinv.degree_eq v
  omega

theorem Inv.step (nodes : List V) (edges : List (V × V)) (ht : ∀ u v, Edge edges u v → v ∈ nodes)
    (degree : V → Int) (node : V) (queue order : List V)
    (hinv : Inv nodes edges degree (node :: queue) order) :
    Inv nodes edges (relax (successors edges node) degree queue).1
      (relax (successors edges node) degree queue).2 (order ++ [node]) := by
  obtain ⟨pushed, hq, hpushed, hmem⟩ := relax_queue (successors edges node) degree queue
  have hnode : node ∉ order := by
    intro hm
    exact (List.nodup_append.mp hinv.nodup).2.2 node hm node (by simp) rfl
  have hzero : degree node = 0 :=
    (hinv.mem_iff node (hinv.mem_nodes node (by simp))).mpr (by simp)
  have hlower : ∀ v, (relax (successors edges node) degree queue).1 v =
      (pending edges (order ++ [node]) v).length := by
    intro v
    have hp := length_pending_snoc edges order node hnode v
    have hd := hinv.degree_eq v
    rw [relax_degree]
    omega
  have hpushed_nodes : ∀ v ∈ pushed, v ∈ nodes := by
    intro v hv
    obtain ⟨hpos, hle⟩ := (hmem v).mp hv
    have hc : 0 < (successors edges node).count v := by omega
    obtain ⟨e, he, rfl⟩ := List.mem_map.mp (List.count_pos_iff.mp hc)
    exact ht e.1 e.2 (List.mem_filter.mp he).1
  have happend : order ++ [node] ++ (queue ++ pushed) = (order ++ node :: queue) ++ pushed := by
    simp
  refine ⟨hlower, ?_, ?_, ?_, ?_⟩
  · rw [hq, happend]
    refine List.nodup_append.mpr ⟨hinv.nodup, hpushed, ?_⟩
    intro a ha b hb hab
    subst hab
    have hz := (hinv.mem_iff a (hinv.mem_nodes a ha)).mpr ha
    have hpos := ((hmem a).mp hb).1
    omega
  · intro v hv
    rw [hq, happend] at hv
    rcases List.mem_append.mp hv with hv | hv
    · exact hinv.mem_nodes v hv
    · exact hpushed_nodes v hv
  · intro v hv
    rw [hq, happend, List.mem_append, ← hinv.mem_iff v hv, hmem v, relax_degree]
    have hd := hinv.degree_eq v
    have hp := length_pending_snoc edges order node hnode v
    omega
  · exact hinv.sorted.snoc edges order node
      (hinv.edge_done nodes edges degree (node :: queue) order node hzero)

-- Each round orders one more node, so as many rounds as there are nodes empty the queue.
theorem drain_inv (nodes : List V) (edges : List (V × V))
    (ht : ∀ u v, Edge edges u v → v ∈ nodes) (fuel : Nat) (degree : V → Int)
    (queue order : List V) (hinv : Inv nodes edges degree queue order)
    (hfuel : nodes.length ≤ order.length + fuel) :
    ∃ final, Inv nodes edges final [] (drain edges fuel degree queue order) := by
  induction fuel generalizing degree queue order with
  | zero =>
      have hsub := List.subperm_of_subset hinv.nodup hinv.mem_nodes
      have hlen := hsub.length_le
      rw [List.length_append] at hlen
      have hq : queue = [] := List.length_eq_zero_iff.mp (by omega)
      subst hq
      exact ⟨degree, hinv⟩
  | succ fuel ih =>
      cases queue with
      | nil => exact ⟨degree, hinv⟩
      | cons node queue =>
          apply ih
          · exact hinv.step nodes edges ht degree node queue order
          · rw [List.length_append, List.length_singleton]
            omega

theorem kahn_inv (nodes : List V) (edges : List (V × V)) (hn : nodes.Nodup)
    (ht : ∀ u v, Edge edges u v → v ∈ nodes) :
    ∃ final, Inv nodes edges final [] (kahn nodes edges) :=
  drain_inv nodes edges ht nodes.length _ _ [] (Inv.init nodes edges hn) (by simp)

theorem kahn_sorted (nodes : List V) (edges : List (V × V)) (hn : nodes.Nodup)
    (ht : ∀ u v, Edge edges u v → v ∈ nodes) : Sorted edges (kahn nodes edges) := by
  obtain ⟨final, hinv⟩ := kahn_inv nodes edges hn ht
  exact hinv.sorted

theorem kahn_perm (nodes : List V) (edges : List (V × V)) (hn : nodes.Nodup)
    (ht : ∀ u v, Edge edges u v → v ∈ nodes)
    (hl : (kahn nodes edges).length = nodes.length) : (kahn nodes edges).Perm nodes := by
  obtain ⟨final, hinv⟩ := kahn_inv nodes edges hn ht
  have hnodup := hinv.nodup
  have hmem := hinv.mem_nodes
  rw [List.append_nil] at hnodup hmem
  exact (List.subperm_of_subset hnodup hmem).perm_of_length_le (by omega)

theorem kahn_length_iff (nodes : List V) (edges : List (V × V)) (hn : nodes.Nodup)
    (ht : ∀ u v, Edge edges u v → u ∈ nodes ∧ v ∈ nodes) :
    (kahn nodes edges).length = nodes.length ↔ Acyclic edges := by
  have ht' : ∀ u v, Edge edges u v → v ∈ nodes := fun u v h => (ht u v h).2
  constructor
  · intro hl
    have hp := kahn_perm nodes edges hn ht' hl
    apply (kahn_sorted nodes edges hn ht').acyclic
    intro u v h
    exact hp.mem_iff.mpr (ht' u v h)
  · intro ha
    obtain ⟨final, hinv⟩ := kahn_inv nodes edges hn ht'
    -- A node left over keeps a positive degree, hence an edge from another node left over.
    have hleft : nodes.filter (· ∉ kahn nodes edges) = [] := by
      apply ha.eq_nil_of_entered
      intro v hv
      obtain ⟨hv, hout⟩ := List.mem_filter.mp hv
      have hd := (hinv.mem_iff v hv).not.mpr (by simpa using hout)
      rw [hinv.degree_eq v] at hd
      obtain ⟨e, he⟩ := List.exists_mem_of_ne_nil (pending edges (kahn nodes edges) v) (by
        intro h
        simp [h] at hd)
      rw [pending, List.mem_filter] at he
      obtain ⟨he, hcond⟩ := he
      obtain ⟨rfl, hu⟩ := of_decide_eq_true hcond
      exact ⟨e.1, List.mem_filter.mpr ⟨(ht e.1 e.2 he).1, by simpa using hu⟩, he⟩
    have hmem := hinv.mem_nodes
    have hnodup := hinv.nodup
    rw [List.append_nil] at hmem hnodup
    have hle := (List.subperm_of_subset hnodup hmem).length_le
    have hall : ∀ v ∈ nodes, v ∈ kahn nodes edges := by
      intro v hv
      by_contra hout
      have hm : v ∈ nodes.filter (· ∉ kahn nodes edges) :=
        List.mem_filter.mpr ⟨hv, by simpa using hout⟩
      rw [hleft] at hm
      exact List.not_mem_nil hm
    have hge := (List.subperm_of_subset hn hall).length_le
    omega

end Kahn

end Precedence
