import Mathlib.Data.Nat.Log
import Mathlib.Data.Set.Function

/-!
# IceMarkets.Lib.CarryTree

Binary hash trees of any number of leaves, in which the odd node at the end of a layer
is carried up unchanged.

Leaves sit at different depths, so a path has one sibling for each layer in which its
node has one. Where combining is commutative, climbing a node's path leads to the
root (`climb_path`). Where combining is a hash of pairs, injective on what was
hashed, nothing but a leaf can be climbed to the root by any path (`mem_of_climb`):
the climb can only pass through nodes of the tree, and the preimage it starts from
is no pair.
-/

namespace CarryTree

/-! ### Layers and paths -/

section Layers

variable {D : Type*} (combine : D → D → D)

/-- The layer above: neighbours combined in pairs, an odd node carried up. -/
def parents : List D → List D
  | a :: b :: rest => combine a b :: parents rest
  | nodes => nodes

theorem length_parents (nodes : List D) :
    (parents combine nodes).length = (nodes.length + 1) / 2 := by
  induction nodes using parents.induct with
  | case1 a b rest ih =>
      simp only [parents, List.length_cons, ih]
      omega
  | case2 nodes h =>
      match nodes with
      | [] => simp [parents]
      | [a] => simp [parents]
      | a :: b :: rest => exact absurd rfl (h a b rest)

/-- All layers, from `nodes` up to the root's. -/
def layers (nodes : List D) : List (List D) :=
  if 1 < nodes.length then nodes :: layers (parents combine nodes) else [nodes]
termination_by nodes.length
decreasing_by
  rw [length_parents]
  omega

/-- The node of the last layer. -/
def root? (nodes : List D) : Option D := (layers combine nodes).getLast?.bind List.head?

/-- The index of a node's neighbour. -/
def sibling (i : Nat) : Nat := if i % 2 = 1 then i - 1 else i + 1

/-- The siblings met on the way up from index `i`; a carried node meets none. -/
def path : List (List D) → Nat → List D
  | nodes :: above :: rest, i => nodes[sibling i]?.toList ++ path (above :: rest) (i / 2)
  | _, _ => []

variable {combine}

/-- A node with its sibling, if it has one, gives its parent. -/
theorem getElem?_parents (hcomm : ∀ a b, combine a b = combine b a) {nodes : List D} {i : Nat}
    {x : D} (hx : nodes[i]? = some x) :
    (parents combine nodes)[i / 2]? = some (nodes[sibling i]?.toList.foldl combine x) := by
  induction nodes using parents.induct generalizing i with
  | case1 a b rest ih =>
      match i with
      | 0 =>
          cases hx
          rfl
      | 1 =>
          cases hx
          simp [parents, sibling, hcomm]
      | j + 2 =>
          have hj : (j + 2) / 2 = j / 2 + 1 := by omega
          have hs : sibling (j + 2) = sibling j + 2 := by
            unfold sibling
            split_ifs <;> omega
          have hrest := ih (i := j) (by simpa using hx)
          simpa [parents, hj, hs] using hrest
  | case2 nodes h =>
      match nodes, i with
      | [], i => simp at hx
      | [a], 0 =>
          cases hx
          rfl
      | [a], j + 1 => simp at hx
      | a :: b :: rest, i => exact absurd rfl (h a b rest)

theorem layers_ne_nil (nodes : List D) : layers combine nodes ≠ [] := by
  unfold layers
  split_ifs <;> simp

theorem layers_of_one_lt {nodes : List D} (h : 1 < nodes.length) :
    layers combine nodes = nodes :: layers combine (parents combine nodes) := by
  rw [layers, if_pos h]

theorem layers_of_le_one {nodes : List D} (h : ¬ 1 < nodes.length) :
    layers combine nodes = [nodes] := by
  rw [layers, if_neg h]

/-- The first layer is the given one. -/
theorem headD_layers (nodes : List D) : (layers combine nodes).headD [] = nodes := by
  unfold layers
  split_ifs <;> rfl

theorem path_cons {nodes : List D} {rest : List (List D)} (h : rest ≠ []) (i : Nat) :
    path (nodes :: rest) i = nodes[sibling i]?.toList ++ path rest (i / 2) := by
  cases rest with
  | nil => exact absurd rfl h
  | cons above rest => rfl

/-- The root of a layer is the root of the layer above. -/
theorem root?_parents {nodes : List D} (h : 1 < nodes.length) :
    root? combine nodes = root? combine (parents combine nodes) := by
  unfold root?
  rw [layers_of_one_lt h]
  cases hl : layers combine (parents combine nodes) with
  | nil => exact absurd hl (layers_ne_nil _)
  | cons above rest => rfl

/-- A layer of at most one node is the root's. -/
theorem root?_of_le_one {nodes : List D} (h : ¬ 1 < nodes.length) :
    root? combine nodes = nodes.head? := by
  unfold root?
  rw [layers_of_le_one h]
  rfl

/-- Climbing its path leads every node to the root. -/
theorem climb_path (hcomm : ∀ a b, combine a b = combine b a) {nodes : List D} {i : Nat} {x : D}
    (hx : nodes[i]? = some x) :
    root? combine nodes = some ((path (layers combine nodes) i).foldl combine x) := by
  induction nodes using layers.induct combine generalizing i x with
  | case1 nodes hlen ih =>
      rw [root?_parents hlen, layers_of_one_lt hlen, path_cons (layers_ne_nil _),
        List.foldl_append]
      exact ih (getElem?_parents hcomm hx)
  | case2 nodes hlen =>
      rw [root?_of_le_one hlen, layers_of_le_one hlen]
      match nodes, i with
      | [], i => simp at hx
      | [a], 0 => exact hx
      | [a], j + 1 => simp at hx
      | a :: b :: rest, i => simp at hlen

/-- A path is no longer than the tree is high. -/
theorem length_path_le (combine : D → D → D) (nodes : List D) (i : Nat) :
    (path (layers combine nodes) i).length ≤ Nat.clog 2 nodes.length := by
  induction nodes using layers.induct combine generalizing i with
  | case1 nodes hlen ih =>
      have hclog : Nat.clog 2 nodes.length = Nat.clog 2 (parents combine nodes).length + 1 := by
        rw [length_parents]
        exact Nat.clog_of_two_le Nat.one_lt_two hlen
      have hsib : (nodes[sibling i]?.toList).length ≤ 1 := by
        cases nodes[sibling i]? <;> simp
      rw [layers_of_one_lt hlen, path_cons (layers_ne_nil _), List.length_append, hclog]
      have := ih (i / 2)
      omega
  | case2 nodes hlen =>
      rw [layers_of_le_one hlen]
      exact Nat.zero_le _

/-- Only an empty layer has no root. -/
theorem exists_root? (combine : D → D → D) {nodes : List D} (h : nodes ≠ []) :
    ∃ r, root? combine nodes = some r := by
  induction nodes using layers.induct combine with
  | case1 nodes hlen ih =>
      rw [root?_parents hlen]
      refine ih fun hnil => ?_
      have := length_parents combine nodes
      rw [hnil, List.length_nil] at this
      omega
  | case2 nodes hlen =>
      rw [root?_of_le_one hlen]
      cases nodes with
      | nil => exact absurd rfl h
      | cons a rest => exact ⟨a, rfl⟩

end Layers

/-! ### Soundness -/

section Soundness

variable {P D : Type*} (H : P → D) (pair : D → D → P)

/-- What combining a layer hashes. -/
def pairings : List D → List P
  | a :: b :: rest => pair a b :: pairings rest
  | _ => []

/-- What building the tree over `nodes` hashes. -/
def treePreimages (nodes : List D) : List P :=
  (layers (fun a b => H (pair a b)) nodes).flatMap (pairings pair)

/-- What climbing `proof` from `x` hashes. -/
def climbPreimages : D → List D → List P
  | _, [] => []
  | x, s :: proof => pair x s :: climbPreimages (H (pair x s)) proof

/-- Everything hashed to build the tree over the leaf preimages `ps` and to climb
`proof` from the hash of `p`. -/
def preimages (ps : List P) (p : P) (proof : List D) : List P :=
  ps ++ treePreimages H pair (ps.map H) ++ p :: climbPreimages H pair (H p) proof

/-- The nodes a tree can have over `leaves`, when the pairs in `formed` were hashed. -/
inductive Node (leaves : List D) (formed : Set P) : D → Prop
  | leaf {x : D} (h : x ∈ leaves) : Node leaves formed x
  | pair {a b : D} (h : pair a b ∈ formed) (left : Node leaves formed a)
      (right : Node leaves formed b) : Node leaves formed (H (pair a b))

variable {H pair} {leaves : List D} {formed : Set P}

theorem node_parents {nodes : List D} (hnodes : ∀ x ∈ nodes, Node H pair leaves formed x)
    (hformed : ∀ p ∈ pairings pair nodes, p ∈ formed) :
    ∀ y ∈ parents (fun a b => H (pair a b)) nodes, Node H pair leaves formed y := by
  induction nodes using parents.induct with
  | case1 a b rest ih =>
      intro y hy
      rcases List.mem_cons.mp hy with rfl | hy
      · exact .pair (hformed _ List.mem_cons_self) (hnodes a (by simp)) (hnodes b (by simp))
      · exact ih (fun x hx => hnodes x (by simp [hx]))
          (fun p hp => hformed p (List.mem_cons_of_mem _ hp)) y hy
  | case2 nodes h =>
      intro y hy
      rw [parents] at hy
      · exact hnodes y hy
      · exact h

/-- The root is a node. -/
theorem node_root {nodes : List D} {r : D} (hnodes : ∀ x ∈ nodes, Node H pair leaves formed x)
    (hformed : ∀ p ∈ treePreimages H pair nodes, p ∈ formed)
    (hr : root? (fun a b => H (pair a b)) nodes = some r) : Node H pair leaves formed r := by
  induction nodes using layers.induct (fun a b => H (pair a b)) with
  | case1 nodes hlen ih =>
      unfold treePreimages at hformed ih
      rw [layers_of_one_lt hlen, List.flatMap_cons] at hformed
      rw [root?_parents hlen] at hr
      exact ih (node_parents hnodes fun p hp => hformed p (List.mem_append_left _ hp))
        (fun p hp => hformed p (List.mem_append_right _ hp)) hr
  | case2 nodes hlen =>
      rw [root?_of_le_one hlen] at hr
      exact hnodes r (List.mem_of_mem_head? (by simp [hr]))

/-- A climb that reaches a node has passed through nodes only. -/
theorem node_of_climb {proof : List D} {x : D} (hinj : Set.InjOn H formed)
    (hpair : ∀ a b c d, pair a b = pair c d → a = c ∨ a = d)
    (hleaves : ∀ y ∈ leaves, ∃ q ∈ formed, H q = y ∧ ∀ a b, q ≠ pair a b)
    (hclimb : ∀ q ∈ climbPreimages H pair x proof, q ∈ formed)
    (h : Node H pair leaves formed (proof.foldl (fun a b => H (pair a b)) x)) :
    Node H pair leaves formed x := by
  induction proof generalizing x with
  | nil => exact h
  | cons s proof ih =>
      have hs : pair x s ∈ formed := hclimb _ List.mem_cons_self
      have hnode := ih (fun q hq => hclimb q (List.mem_cons_of_mem _ hq)) h
      generalize hy : H (pair x s) = y at hnode
      cases hnode with
      | leaf hmem =>
          -- a leaf's preimage is no pair
          obtain ⟨q, hq, hHq, hne⟩ := hleaves y hmem
          exact absurd (hinj hq hs (hHq.trans hy.symm)) (hne x s)
      | @pair a b hab left right =>
          rcases hpair x s a b (hinj hs hab hy) with rfl | rfl
          · exact left
          · exact right

/-- Nothing but a leaf climbs to the root: where the hash is injective on what was
hashed, and leaf preimages are no pairs, a preimage that some proof leads to the
root is a leaf's. -/
theorem mem_of_climb {ps : List P} {p : P} {proof : List D}
    (hinj : Set.InjOn H {q | q ∈ preimages H pair ps p proof})
    (hpair : ∀ a b c d, pair a b = pair c d → a = c ∨ a = d)
    (hps : ∀ q ∈ ps, ∀ a b, q ≠ pair a b) (hp : ∀ a b, p ≠ pair a b)
    (hroot : root? (fun a b => H (pair a b)) (ps.map H) =
      some (proof.foldl (fun a b => H (pair a b)) (H p))) : p ∈ ps := by
  have hleaves : ∀ y ∈ ps.map H, ∃ q ∈ {q | q ∈ preimages H pair ps p proof},
      H q = y ∧ ∀ a b, q ≠ pair a b := by
    intro y hy
    obtain ⟨q, hq, rfl⟩ := List.mem_map.mp hy
    exact ⟨q, by simp [preimages, hq], rfl, hps q hq⟩
  have htop : Node H pair (ps.map H) {q | q ∈ preimages H pair ps p proof} _ :=
    node_root (fun x hx => .leaf hx) (fun q hq => by simp [preimages, hq]) hroot
  have hnode := node_of_climb hinj hpair hleaves (fun q hq => by simp [preimages, hq]) htop
  have hmem : p ∈ {q | q ∈ preimages H pair ps p proof} := by simp [preimages]
  generalize hy : H p = y at hnode
  cases hnode with
  | leaf h =>
      obtain ⟨q, hq, hHq⟩ := List.mem_map.mp h
      have heq : q = p := hinj (by simp [preimages, hq]) hmem (hHq.trans hy.symm)
      rwa [← heq]
  | @pair a b hab left right => exact absurd (hinj hmem hab hy) (hp a b)

end Soundness

end CarryTree
