import LittlePascal.Proofs.Depiction
import LittlePascal.Proofs.Doubling

/-! # Copies of nodes

Drawing twice, the first edition with trees draws a graph in which a node of the tree has many copies: two if it is
the whole tree, and twice as many with each level. Only the second copy of a child is linked to a copy of its
parent. So the graph is not the tree that was read, for any expression.

Main definitions:
* `origin`, `Node.copies`: the node that a copy shows, and the copies of the nodes of a tree;
* `DepictsTwice`: a list of lines shows these copies;
* `Expr.isPlain`: expressions of literals and operators.

Main statements:
* `Node.sum_copies`, `Node.count_copies`: how many copies are drawn, in all and of each node;
* `Node.copyEdges_out`, `Node.copyEdges_in`: the edges out of a copy and into it;
* `Grammar.plainFactor_complete`: plain expressions are read by any grammar;
* `first_trees_drawn_twice`: what is drawn for an expression. -/

namespace LittlePascal

/-! ## Copies of nodes -/

/-- The address of the node that a copy shows. The first index of a copy tells the pass over the whole tree, and of
the others two in a row stand for one child. -/
def origin (b : List Nat) : List Nat := b.tail.map (· / 2)

/-- The addresses with these halves. -/
def doublings : List Nat → List (List Nat)
  | [] => [[]]
  | i :: a => (doublings a).map ((2 * i) :: ·) ++ (doublings a).map ((2 * i + 1) :: ·)

/-- There are two for each index. -/
theorem length_doublings (a : List Nat) : (doublings a).length = 2 ^ a.length := by
  induction a with
  | nil => rfl
  | cons i a ih =>
    rw [doublings, List.length_append, List.length_map, List.length_map, ih, List.length_cons, Nat.pow_succ,
      Nat.mul_two]

/-- They are those whose halves are the given ones. -/
theorem mem_doublings_iff {a c : List Nat} : c ∈ doublings a ↔ c.map (· / 2) = a := by
  induction a generalizing c with
  | nil => simp [doublings]
  | cons i a ih =>
    rw [doublings, List.mem_append, List.mem_map, List.mem_map, List.map_eq_cons_iff]
    constructor
    · rintro (⟨c, member, rfl⟩ | ⟨c, member, rfl⟩)
      · exact ⟨2 * i, c, rfl, by omega, ih.mp member⟩
      · exact ⟨2 * i + 1, c, rfl, by omega, ih.mp member⟩
    · rintro ⟨j, c, rfl, rfl, halves⟩
      rcases Nat.mod_two_eq_zero_or_one j with even | odd
      · exact .inl ⟨c, ih.mpr halves, by rw [show 2 * (j / 2) = j by omega]⟩
      · exact .inr ⟨c, ih.mpr halves, by rw [show 2 * (j / 2) + 1 = j by omega]⟩

/-- None is listed twice. -/
theorem nodup_doublings (a : List Nat) : (doublings a).Nodup := by
  induction a with
  | nil => simp [doublings]
  | cons i a ih =>
    refine List.nodup_append.mpr ⟨ih.map (List.cons_injective), ih.map (List.cons_injective), ?_⟩
    rintro c first c' second rfl
    obtain ⟨d, _, rfl⟩ := List.mem_map.mp first
    obtain ⟨d', _, same⟩ := List.mem_map.mp second
    have := (List.cons.inj same).1
    omega

namespace Node

variable {tree : Node}

/-- The labels of both passes over a tree. -/
def copyEntries (tree : Node) : List (List Nat × String) :=
  Figure.entriesAll [] 0 [tree.figure.doubled, tree.figure.doubled]

/-- The copies that are drawn of the nodes of a tree, in order. -/
def copies (tree : Node) : List (List Nat) := tree.copyEntries.map Prod.fst

/-- The lines that are drawn, with copies for numbers. -/
def copyItems (tree : Node) : List (Line (List Nat)) :=
  Line.kept (Figure.itemsAll [] 0 [tree.figure.doubled, tree.figure.doubled])

/-- The lines that are drawn. -/
def copyLines (tree : Node) : List (Line Nat) := tree.copyItems.map (Line.map (number tree.copies))

/-- The two passes are over the same figure. -/
theorem getElem?_passes {f child : Figure} {i : Nat} : [f, f][i]? = some child ↔ i < 2 ∧ f = child := by
  rw [show [f, f] = List.replicate 2 f from rfl, List.getElem?_replicate, Option.ite_none_right_eq_some,
    Option.some.injEq]

/-- What a copy in one of the passes shows. -/
theorem doubled_at?_eq_some {c : List Nat} {g : Figure} :
    tree.figure.doubled.at? c = some g ↔ ∃ n, tree.at? (c.map (· / 2)) = some n ∧ n.figure.doubled = g := by
  rw [Figure.doubled_at?, figure_at?, Option.map_map, Option.map_eq_some_iff]
  rfl

/-- A copy shows a node of the tree, with the label of that node. -/
theorem mem_copyEntries_iff {b : List Nat} {t : String} :
    (b, t) ∈ tree.copyEntries ↔ ∃ i c n, b = i :: c ∧ i < 2 ∧ tree.at? (origin b) = some n ∧ n.label = t := by
  rw [copyEntries, Figure.mem_entriesAll_iff]
  constructor
  · rintro ⟨i, c, child, g, rfl, member, found, rfl⟩
    obtain ⟨less, rfl⟩ := getElem?_passes.mp member
    obtain ⟨n, here, rfl⟩ := doubled_at?_eq_some.mp found
    refine ⟨i, c, n, by simp, less, by simpa [origin] using here, ?_⟩
    rw [Figure.doubled_title, figure_title]
  · rintro ⟨i, c, n, rfl, less, found, rfl⟩
    refine ⟨i, c, _, _, by simp, getElem?_passes.mpr ⟨less, rfl⟩, doubled_at?_eq_some.mpr ⟨n, found, rfl⟩, ?_⟩
    rw [Figure.doubled_title, figure_title]

/-- The copies are those of the nodes of a tree. -/
theorem mem_copies_iff {b : List Nat} :
    b ∈ tree.copies ↔ ∃ i c, b = i :: c ∧ i < 2 ∧ (tree.at? (origin b)).isSome = true := by
  rw [copies, List.mem_map]
  constructor
  · rintro ⟨⟨b, t⟩, member, rfl⟩
    obtain ⟨i, c, n, split, less, found, _⟩ := mem_copyEntries_iff.mp member
    exact ⟨i, c, split, less, Option.isSome_of_eq_some found⟩
  · rintro ⟨i, c, split, less, found⟩
    obtain ⟨n, found⟩ := Option.isSome_iff_exists.mp found
    exact ⟨(b, n.label), mem_copyEntries_iff.mpr ⟨i, c, n, split, less, found, rfl⟩, rfl⟩

/-- They are drawn in lexicographic order. -/
theorem copies_sorted (tree : Node) : tree.copies.Pairwise (· < ·) :=
  List.pairwise_map.mpr (Figure.entriesAll_sorted [] 0 _)

/-- No copy is drawn twice. -/
theorem copies_nodup (tree : Node) : tree.copies.Nodup := by
  refine tree.copies_sorted.imp ?_
  rintro a b less rfl
  exact List.lt_irrefl a less

/-- There are two passes over a tree. -/
theorem length_copies (tree : Node) : tree.copies.length = 2 * tree.figure.weight := by
  have pair := Figure.length_entriesAll_doubled [] 0 [tree.figure]
  rw [Figure.weightAll, Figure.weightAll, Nat.add_zero] at pair
  rw [copies, List.length_map]
  exact pair

/-- A node is drawn twice, and twice as often with each level. -/
theorem sum_copies (tree : Node) :
    tree.copies.length = (tree.addresses.map fun a => 2 ^ (a.length + 1)).sum := by
  rw [length_copies, addresses, List.map_map]
  exact (Figure.sum_entries [] tree.figure).symm

/-- There are more copies than nodes. -/
theorem two_mul_length_addresses_le (tree : Node) : 2 * tree.addresses.length ≤ tree.copies.length := by
  rw [sum_copies]
  generalize tree.addresses = addresses
  induction addresses with
  | nil => simp
  | cons a rest ih =>
    have twice : 2 ≤ 2 ^ (a.length + 1) := by
      rw [Nat.pow_succ']
      exact Nat.le_mul_of_pos_right 2 (Nat.two_pow_pos _)
    rw [List.map_cons, List.sum_cons, List.length_cons]
    omega

/-- The edges that are drawn are those to second copies. -/
theorem edges_copyItems (tree : Node) : Line.edges tree.copyItems =
    (Line.edges (Figure.itemsAll [] 0 [tree.figure.doubled, tree.figure.doubled])).filter fun e => isSecond e.2 :=
  Line.edges_kept _

/-- They lead from copies to the second copies of their children. -/
theorem mem_copyEdges_iff {e : List Nat × List Nat} :
    e ∈ Line.edges tree.copyItems ↔
      ∃ b n k, b ∈ tree.copies ∧ tree.at? (origin b) = some n ∧ k < n.children.length ∧
        e = (b, b ++ [2 * k + 1]) := by
  have passes : e ∈ Line.edges (Figure.itemsAll [] 0 [tree.figure.doubled, tree.figure.doubled]) ↔
      ∃ i < 2, e ∈ Line.edges (tree.figure.doubled.items [i]) := by
    rw [Figure.itemsAll_pair, Line.edges_append, List.mem_append]
    constructor
    · rintro (first | second)
      · exact ⟨0, by omega, first⟩
      · exact ⟨1, by omega, second⟩
    · rintro ⟨i, less, member⟩
      have either : i = 0 ∨ i = 1 := by omega
      rcases either with rfl | rfl
      · exact .inl member
      · exact .inr member
  rw [edges_copyItems, List.mem_filter, passes]
  constructor
  · rintro ⟨⟨i, less, member⟩, second⟩
    obtain ⟨c, g, j, shown, lt, rfl⟩ := Figure.mem_edges_iff.mp member
    obtain ⟨n, found, rfl⟩ := doubled_at?_eq_some.mp shown
    rw [Figure.doubled_children, Figure.length_doubledAll, figure_children, List.length_map] at lt
    rw [isSecond_concat, decide_eq_true_eq] at second
    have odd : j = 2 * (j / 2) + 1 := by omega
    refine ⟨i :: c, n, j / 2, ?_, found, by omega, by rw [← odd]; rfl⟩
    exact mem_copies_iff.mpr ⟨i, c, rfl, less, Option.isSome_of_eq_some found⟩
  · rintro ⟨b, n, k, member, found, lt, rfl⟩
    obtain ⟨i, c, rfl, less, _⟩ := mem_copies_iff.mp member
    refine ⟨⟨i, less, Figure.mem_edges_iff.mpr ⟨c, _, 2 * k + 1, doubled_at?_eq_some.mpr ⟨n, found, rfl⟩, ?_, rfl⟩⟩, ?_⟩
    · rw [Figure.doubled_children, Figure.length_doubledAll, figure_children, List.length_map]
      omega
    · rw [isSecond_concat, decide_eq_true_eq]
      omega

/-- The edges out of a copy lead to the second copies of its children, in order. -/
theorem filter_copyEdges_eq {b : List Nat} {n : Node} (member : b ∈ tree.copies)
    (found : tree.at? (origin b) = some n) :
    (Line.edges tree.copyItems).filter (·.1 = b) =
      (List.range n.children.length).map fun k => (b, b ++ [2 * k + 1]) := by
  obtain ⟨i, c, rfl, less, _⟩ := mem_copies_iff.mp member
  have shown : tree.figure.doubled.at? c = some n.figure.doubled := doubled_at?_eq_some.mpr ⟨n, found, rfl⟩
  -- all edges out of the copy, and of these the ones that are kept
  have pass : [tree.figure.doubled, tree.figure.doubled][i]? = some tree.figure.doubled :=
    getElem?_passes.mpr ⟨less, rfl⟩
  have inside := @Figure.edgesOut_itemsAll [] c 0 i _ _ pass
  have out := Figure.edgesOut_at shown [i]
  rw [Figure.doubled_children, Figure.length_doubledAll, figure_children, List.length_map] at out
  rw [Nat.zero_add] at inside
  have all : (Line.edges (Figure.itemsAll [] 0 [tree.figure.doubled, tree.figure.doubled])).filter (·.1 = i :: c) =
      (List.range (2 * n.children.length)).map fun j => (i :: c, i :: c ++ [j]) := inside.trans out
  rw [edges_copyItems, List.filter_comm, all, List.filter_map]
  simp only [Function.comp_def, isSecond_concat]
  rw [filter_odd, List.map_map]
  rfl

/-- The edges of the lines. -/
theorem edges_copyLines (tree : Node) : Line.edges tree.copyLines =
    (Line.edges tree.copyItems).map fun e => (number tree.copies e.1, number tree.copies e.2) :=
  Line.edges_map _ _

/-- The edges out of a copy lead to the last copies of its children, by their numbers. -/
theorem copyEdges_out {b : List Nat} {n : Node} (member : b ∈ tree.copies)
    (found : tree.at? (origin b) = some n) :
    (Line.edges tree.copyLines).filter (·.1 = number tree.copies b) =
      (List.range n.children.length).map fun k => (number tree.copies b, number tree.copies (b ++ [2 * k + 1])) := by
  have told : ∀ e ∈ Line.edges tree.copyItems,
      decide (number tree.copies e.1 = number tree.copies b) = decide (e.1 = b) := by
    intro e among
    obtain ⟨b', _, _, member', _, _, rfl⟩ := mem_copyEdges_iff.mp among
    rw [decide_eq_decide]
    exact number_eq_iff member'
  rw [edges_copyLines, List.filter_map, Function.comp_def, List.filter_congr told, filter_copyEdges_eq member found,
    List.map_map]
  rfl

/-- The parent of a copy that is not one of the whole tree. -/
theorem parent_mem_copies {p : List Nat} {j : Nat} (inner : p ≠ []) (member : p ++ [j] ∈ tree.copies) :
    p ∈ tree.copies ∧ ∃ n, tree.at? (origin p) = some n ∧ j / 2 < n.children.length := by
  obtain ⟨i, c, rfl⟩ := List.exists_cons_of_ne_nil inner
  obtain ⟨i', c', split, less, found⟩ := mem_copies_iff.mp member
  obtain ⟨rfl, rfl⟩ := List.cons.inj split
  have shown : origin (i :: c ++ [j]) = origin (i :: c) ++ [j / 2] := by simp [origin]
  obtain ⟨m, found⟩ := Option.isSome_iff_exists.mp found
  rw [shown, at?_concat] at found
  obtain ⟨n, found, child⟩ := Option.bind_eq_some_iff.mp found
  exact ⟨mem_copies_iff.mpr ⟨i, c, rfl, less, Option.isSome_of_eq_some found⟩, n, found,
    (List.getElem?_eq_some_iff.mp child).1⟩

/-- One edge leads to the second copy of a child, and none to any other copy. -/
theorem copyEdges_in {b : List Nat} (member : b ∈ tree.copies) :
    ((Line.edges tree.copyLines).filter (·.2 = number tree.copies b)).length =
      if isSecond b = true ∧ 1 < b.length then 1 else 0 := by
  have told : ∀ e ∈ Line.edges tree.copyItems,
      decide (number tree.copies e.2 = number tree.copies b) = decide (e.2 = b) := by
    intro e _
    rw [decide_eq_decide, eq_comm, number_eq_iff member, eq_comm]
  rw [edges_copyLines, List.filter_map, Function.comp_def, List.length_map, List.filter_congr told]
  split
  · rename_i second
    have long : b ≠ [] := List.ne_nil_of_length_pos (by omega)
    obtain ⟨p, j, rfl⟩ : ∃ p j, b = p ++ [j] := ⟨_, _, (List.dropLast_append_getLast long).symm⟩
    have inner : p ≠ [] := by
      rintro rfl
      simp at second
    obtain ⟨parent, n, found, less⟩ := parent_mem_copies inner member
    rw [isSecond_concat, decide_eq_true_eq] at second
    -- an edge to this copy comes from its parent
    have narrow : ∀ e ∈ Line.edges tree.copyItems,
        decide (e.2 = p ++ [j]) = (decide (e.2 = p ++ [j]) && decide (e.1 = p)) := by
      intro e among
      obtain ⟨b', _, k, _, _, _, rfl⟩ := mem_copyEdges_iff.mp among
      by_cases same : b' = p
      · simp [same]
      · have apart : b' ++ [2 * k + 1] ≠ p ++ [j] := fun h => same (List.append_inj_left' h rfl)
        simp [apart]
    have index : ∀ k ∈ List.range n.children.length,
        decide (p ++ [2 * k + 1] = p ++ [j]) = decide (k = j / 2) := by
      intro k _
      rw [decide_eq_decide, List.append_cancel_left_eq, List.cons.injEq, and_iff_left rfl]
      omega
    rw [List.filter_congr narrow, ← List.filter_filter, filter_copyEdges_eq parent found, List.filter_map,
      List.length_map, Function.comp_def, List.filter_congr index, ← List.countP_eq_length_filter]
    exact List.count_eq_one_of_mem List.nodup_range (List.mem_range.mpr less)
  · rename_i other
    rw [List.length_eq_zero_iff, List.filter_eq_nil_iff]
    intro e among
    obtain ⟨b', _, k, member', _, _, rfl⟩ := mem_copyEdges_iff.mp among
    obtain ⟨i, c, rfl, _⟩ := mem_copies_iff.mp member'
    rw [decide_eq_true_eq]
    rintro rfl
    refine other ⟨?_, by simp⟩
    rw [isSecond_concat, decide_eq_true_eq]
    omega

/-- There is an edge for each two copies, those of the whole tree apart. -/
theorem length_copyEdges (tree : Node) : 2 * ((Line.edges tree.copyLines).length + 1) = tree.copies.length := by
  have edges := Figure.length_edges_doubledAll [] 0 [tree.figure]
  rw [Figure.weightAll, Figure.weightAll, Nat.add_zero] at edges
  rw [edges_copyLines, List.length_map, length_copies, ← edges]
  rfl

/-- How many copies a node has. -/
theorem count_copies {a : List Nat} (found : (tree.at? a).isSome = true) :
    (tree.copies.filter (origin · = a)).length = 2 ^ (a.length + 1) := by
  -- the index of a pass is halved to zero, so copies are addresses with given halves
  have same : (tree.copies.filter (origin · = a)).Perm (doublings (0 :: a)) := by
    refine (List.perm_ext_iff_of_nodup (tree.copies_nodup.filter _) (nodup_doublings _)).mpr fun b => ?_
    rw [List.mem_filter, mem_copies_iff, decide_eq_true_eq, mem_doublings_iff]
    constructor
    · rintro ⟨⟨i, c, rfl, less, _⟩, rfl⟩
      rw [List.map_cons, show i / 2 = 0 by omega]
      rfl
    · intro halves
      obtain ⟨i, c, rfl, zero, rfl⟩ := List.map_eq_cons_iff.mp halves
      exact ⟨⟨i, c, rfl, by omega, found⟩, rfl⟩
  rw [same.length_eq, length_doublings, List.length_cons]

end Node

/-! ## Graphs that show copies -/

/-- The lines of a graph show these copies of the nodes of a tree. -/
structure DepictsTwice (tree : Node) (copies : List (List Nat)) (lines : List (Line Nat)) : Prop where
  /-- Copies stand in preorder: parents before children, and both copies of a child before the next one. -/
  preorder : copies.Pairwise (· < ·)
  /-- They are copies of the nodes, in two passes over the tree. -/
  mem_iff : ∀ b, b ∈ copies ↔ ∃ i c, b = i :: c ∧ i < 2 ∧ (tree.at? (origin b)).isSome = true
  /-- A node has two copies, and twice as many with each level. -/
  count : ∀ a, (tree.at? a).isSome = true → (copies.filter (origin · = a)).length = 2 ^ (a.length + 1)
  /-- There is one label line a copy. -/
  length_labels : (Line.labels lines).length = copies.length
  /-- Labels have the numbers from one on, in order, and are those of the nodes that the copies show. -/
  labels : ∀ i b, copies[i]? = some b →
    ∃ n, tree.at? (origin b) = some n ∧ (Line.labels lines)[i]? = some (i + 1, n.label)
  /-- The edges out of a copy lead to the second copies of its children, in order. -/
  edges_out : ∀ b n, b ∈ copies → tree.at? (origin b) = some n →
    (Line.edges lines).filter (·.1 = number copies b) =
      (List.range n.children.length).map fun k => (number copies b, number copies (b ++ [2 * k + 1]))
  /-- There are no other edges. -/
  edges_only : ∀ e ∈ Line.edges lines, ∃ b n k, b ∈ copies ∧ tree.at? (origin b) = some n ∧
    k < n.children.length ∧ e = (number copies b, number copies (b ++ [2 * k + 1]))
  /-- One edge leads to the second copy of a child, and none to a first copy or to one of the whole tree. -/
  edges_in : ∀ b ∈ copies, ((Line.edges lines).filter (·.2 = number copies b)).length =
    if isSecond b = true ∧ 1 < b.length then 1 else 0
  /-- There is an edge for each two copies, those of the whole tree apart. -/
  length_edges : 2 * ((Line.edges lines).length + 1) = copies.length

/-- The lines of both passes over a tree show its copies. -/
theorem Node.depictsTwice (tree : Node) : DepictsTwice tree tree.copies tree.copyLines where
  preorder := tree.copies_sorted
  mem_iff _ := mem_copies_iff
  count _ := count_copies
  length_labels := by
    rw [copyLines, Line.labels_map, List.length_map, copyItems, Line.labels_kept, Figure.labels_itemsAll, copies,
      List.length_map]
    rfl
  labels i b h := by
    have position : number tree.copies b = i + 1 := by
      obtain ⟨less, rfl⟩ := List.getElem?_eq_some_iff.mp h
      exact number_getElem tree.copies_nodup less
    rw [copies, List.getElem?_map] at h
    obtain ⟨⟨b, t⟩, entry, rfl⟩ := Option.map_eq_some_iff.mp h
    obtain ⟨_, _, n, _, _, found, rfl⟩ := mem_copyEntries_iff.mp (List.mem_of_getElem? entry)
    refine ⟨n, found, ?_⟩
    rw [copyLines, Line.labels_map, copyItems, Line.labels_kept, Figure.labels_itemsAll, List.getElem?_map,
      show (Figure.entriesAll [] 0 _)[i]? = some (b, n.label) from entry, Option.map_some, position]
  edges_out _ _ := copyEdges_out
  edges_only e member := by
    rw [edges_copyLines] at member
    obtain ⟨_, among, rfl⟩ := List.mem_map.mp member
    obtain ⟨b, n, k, copy, found, less, rfl⟩ := mem_copyEdges_iff.mp among
    exact ⟨b, n, k, copy, found, less, rfl⟩
  edges_in _ := copyEdges_in
  length_edges := tree.length_copyEdges

/-! ## Expressions without signs and variables -/

/-- Whether an expression is made of literals and operators. -/
def Expr.isPlain : Expr → Bool
  | .literal _ _ => true
  | .binary _ _ left right => left.isPlain && right.isPlain
  | .var _ | .signed _ _ _ | .hole => false

/-- A plain expression can be drawn. -/
theorem Expr.drawable_of_isPlain {e : Expr} (plain : e.isPlain = true) : e.figure.Drawable := by
  induction e with
  | literal => trivial
  | binary _ _ left right ihLeft ihRight =>
    rw [isPlain, Bool.and_eq_true] at plain
    exact ⟨ihLeft plain.1, ihRight plain.2, trivial⟩
  | var | signed | hole => cases plain

/-- The operands of a plain chain are plain. -/
theorem Parse.LeftChain.plain {operators : List Operator} {Operand : List Mark → Expr → Prop} {ms : List Mark}
    {e : Expr} (h : LeftChain operators Operand ms e) (plain : e.isPlain = true) :
    LeftChain operators (fun ms e => Operand ms e ∧ e.isPlain = true) ms e := by
  induction h with
  | one form => exact .one ⟨form, plain⟩
  | more _ mark member form ih =>
    rw [Expr.isPlain, Bool.and_eq_true] at plain
    exact .more (ih plain.1) mark member ⟨form, plain.2⟩

namespace Grammar

open Parse

variable {g : Grammar}

/-- A plain expression of a level. -/
def DerivesPlain (level : Level) (ms : List Mark) (e : Expr) : Prop := DerivesExpr level ms e ∧ e.isPlain = true

/-- A plain sum is read if its factors are. -/
theorem plainSum_complete {bound : Nat} {rule : Parse Expr}
    (complete : Complete g.lexis bound rule (DerivesPlain .factor) fun _ => True) :
    Complete g.lexis bound (g.sum rule) (DerivesPlain .sum) NoOperator := by
  intro r s ms e passage short form stop
  have products := (derivesSum_iff.mp form.1).plain form.2
  exact chains_complete complete passage short
    (products.imp fun product => (derivesProduct_iff.mp product.1).plain product.2) stop

/-- A plain factor is read whether or not the grammar has signs and variables, if there are levels of nesting for
its marks. -/
theorem plainFactor_complete (n : Nat) :
    Complete g.lexis n (g.factorWithin n) (DerivesPlain .factor) fun _ => True := by
  induction n with
  | zero =>
    intro r s ms e _ short
    exact absurd short (Nat.not_lt_zero _)
  | succ n ih =>
    rintro r s ms e passage short ⟨form, plain⟩ -
    cases form with
    | @literal m l mark =>
      have token : r.token = .lexeme (.literal l) m.place := by
        rw [passage.token_eq, Mark.token, mark]
      simp only [factorWithin, current_bind, token]
      exact Work.bind_of_ok (next_of_passage passage)
    | @parens m k ms e mark form mark' =>
      -- what stands between the parentheses has two marks less
      obtain ⟨t, first, rest⟩ := Passage.step_iff.mp passage
      obtain ⟨u, middle, last⟩ := Passage.append_iff.mp rest
      rw [List.length_cons, List.length_append] at short
      have token : r.token = .lexeme (.punctuation .leftParen) m.place := by
        rw [first.token_eq, Mark.token, mark]
      have stop : NoOperator u.token := by
        intro o
        rw [last.token_eq, Mark.token, mark']
        exact Kind.noConfusion
      simp only [factorWithin, current_bind, token]
      rw [Work.bind_of_ok (next_of_passage first),
        Work.bind_of_ok (plainSum_complete ih middle (by omega) ⟨form, plain⟩ stop),
        Work.bind_of_ok (expect_of_passage (by rw [mark']; rfl) last)]
      rfl
    | var | signed => cases plain

end Grammar

/-- The first edition with trees accepts a text that is a plain expression. -/
theorem Edition.exists_accepts_of_plain {limit : DigitLimit} {text : String} {ms : List Mark} {e : Expr}
    (reads : (Edition.trees.lexis limit).Reads text ms) (form : DerivesExpr .sum ms e) (plain : e.isPlain = true) :
    ∃ reading, Edition.trees.Accepts text (.expr e) reading limit := by
  obtain ⟨r, s, opened, passage, last⟩ := reads
  have stop : Grammar.NoOperator s.token := by
    intro o
    rw [last]
    exact fun same => by cases same
  have read : (Edition.trees.grammar limit).expr r = .ok e s := by
    rw [Grammar.expr, Parse.budget_bind]
    exact Grammar.plainSum_complete (Grammar.plainFactor_complete _) passage passage.length_lt_budget ⟨form, plain⟩ stop
  have whole : (Edition.trees.grammar limit).whole r = .ok (.expr e) s := by
    show ((Edition.trees.grammar limit).expr >>= fun e => pure (Node.expr e)) r = _
    rw [Work.bind_of_ok read]
    rfl
  have parsed : (Edition.trees.grammar limit).parse r = .ok (.expr e) s := by
    rw [Grammar.parse, Work.bind_of_ok whole]
    rfl
  exact ⟨s, Lexis.attempt_of_ok opened parsed⟩

/-- Lines are written one below the other. -/
theorem Console.lines_eq (texts : List String) (written : String) :
    Console.lines texts.toArray written = .ok () (written ++ String.join (texts.map (· ++ "\n"))) := by
  have listed : ∀ texts : List String, Console.lines texts.toArray = texts.forM Console.line :=
    fun texts => List.forM_toArray texts Console.line
  rw [listed]
  induction texts generalizing written with
  | nil =>
    simp
    rfl
  | cons text rest ih =>
    have first : Console.line text written = .ok () (written ++ text ++ "\n") := rfl
    show (Console.line text >>= fun _ => rest.forM Console.line) written = _
    rw [Work.bind_of_ok first, ih]
    simp [String.append_assoc]

/-- The first edition with trees accepts every text that is an expression of literals, operators and parentheses,
and draws its tree twice: not each node once, but each as often as it is come to. -/
theorem first_trees_drawn_twice {text : String} {ms : List Mark} {e : Expr}
    (reads : Edition.trees.lexis.Reads text ms) (form : DerivesExpr .sum ms e) (plain : e.isPlain = true) :
    (∃ reading, Edition.trees.Accepts text (.expr e) reading) ∧
    ∃ copies lines drawing,
      Edition.trees.draw (.node (.expr e)) .blank = .ok (number copies [1]) drawing ∧
      drawing.next = copies.length + 1 ∧
      drawing.body.toList = lines.map Line.text ∧
      (∀ others, drawing.body.toList = others.map Line.text → others = lines) ∧
      DepictsTwice (.expr e) copies lines ∧
      copies.length = ((Node.expr e).addresses.map fun a => 2 ^ (a.length + 1)).sum ∧
      2 * (Node.expr e).addresses.length ≤ (Line.labels lines).length ∧
      ∀ written, Edition.trees.illustrate text written =
        .ok () (written ++ String.join (List.replicate (copies.length / 2) "visitor(node) = None\n") ++
          Line.graph lines ++ "\n") := by
  obtain ⟨reading, accepts⟩ := Edition.exists_accepts_of_plain reads form plain
  let tree := Node.expr e
  let drawing := Drawing.blank.extendTraced (2 * tree.figure.weight) tree.figure.weight
    (tree.copyLines.map Line.text)
  have drawn : Edition.trees.draw (.node tree) .blank = .ok (number tree.copies [1]) drawing :=
    @Drawing.figureTwice_eq (number tree.copies) tree.figure .blank [] 0 (Expr.drawable_of_isPlain plain)
      (numbered_of_nodup tree.copies_nodup)
  have body : drawing.body.toList = tree.copyLines.map Line.text := by
    simp [drawing, Drawing.extendTraced, Drawing.extend, Drawing.blank]
  have depicts := tree.depictsTwice
  refine ⟨⟨reading, accepts⟩, tree.copies, tree.copyLines, drawing, drawn, ?_, body, ?_, depicts, tree.sum_copies,
    ?_, ?_⟩
  · rw [tree.length_copies]
    exact Nat.add_comm _ _
  · intro others same
    rw [body] at same
    exact ((List.map_inj_right fun _ _ => Line.text_inj).mp same).symm
  · rw [depicts.length_labels]
    exact tree.two_mul_length_addresses_le
  · intro written
    have result : (Edition.trees.lexis.attempt Edition.trees.grammar.parse text).result = .ok tree := by
      rw [show Edition.trees.lexis.attempt Edition.trees.grammar.parse text = .done tree reading from accepts]
      rfl
    have trace : drawing.trace = (List.replicate tree.figure.weight (traceLine "None")).toArray := by
      simp [drawing, Drawing.extendTraced, Drawing.extend, Drawing.blank]
    have half : tree.copies.length / 2 = tree.figure.weight := by
      rw [tree.length_copies]
      omega
    have traced := Console.lines_eq (List.replicate tree.figure.weight (traceLine "None")) written
    rw [List.map_replicate, ← trace] at traced
    rw [Edition.illustrate, result, Console.ofExcept, pure_bind, drawn, half, ← Drawing.text_eq_graph body]
    exact Work.bind_of_ok traced

/-- A sum has three nodes, which are drawn ten times, with four edges. -/
theorem first_trees_drawn_twice_sum :
    let text := "1 + 2"
    let e : Expr := .binary .plus ⟨1, 3⟩ (.literal (.whole 1) ⟨1, 1⟩) (.literal (.whole 2) ⟨1, 5⟩)
    ∃ ms, Edition.trees.lexis.Reads text ms ∧ DerivesExpr .sum ms e ∧ e.isPlain = true ∧
      (Node.expr e).addresses.length = 3 ∧
      ∃ copies lines drawing, Edition.trees.draw (.node (.expr e)) .blank = .ok (number copies [1]) drawing ∧
        drawing.next = 11 ∧ drawing.body.toList = lines.map Line.text ∧
        (Line.labels lines).length = 10 ∧ (Line.edges lines).length = 4 := by
  intro text e
  let marks : List Mark :=
    [⟨.literal (.whole 1), ⟨1, 1⟩, ' '⟩, ⟨.operator .plus, ⟨1, 3⟩, ' '⟩, ⟨.literal (.whole 2), ⟨1, 5⟩, none⟩]
  have reads : Edition.trees.lexis.Reads text marks := by decide
  have form : DerivesExpr .sum marks e :=
    .added (.product (.factor (.literal rfl))) rfl (by decide) (.factor (.literal rfl))
  have nodes : (Node.expr e).addresses.length = 3 := by decide
  have total : ((Node.expr e).addresses.map fun a => 2 ^ (a.length + 1)).sum = 10 := by decide
  obtain ⟨_, copies, lines, drawing, drawn, next, body, _, depicts, sum, _⟩ := first_trees_drawn_twice reads form rfl
  have number : copies.length = 10 := sum.trans total
  have labels := depicts.length_labels
  have edges := depicts.length_edges
  exact ⟨marks, reads, form, rfl, nodes, copies, lines, drawing, drawn, by omega, body, by omega, by omega⟩

end LittlePascal
