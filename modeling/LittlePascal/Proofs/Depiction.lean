import LittlePascal.Proofs.Figures
import LittlePascal.Proofs.Succession
import Mathlib.Data.List.Nodup

/-! # Drawings depict trees

The graph that is drawn for a tree is the tree: its nodes are numbered in preorder, each with its own label, and
an edge leads from every node to each of its children. Which nodes a tree has is said by addresses, and preorder
is the lexicographic order of addresses.

Main definitions:
* `Node.children`, `Node.label`, `Node.at?`: trees as a reader of the graph sees them;
* `Depicts`: a list of lines is the graph of a tree.

Main statements: `Line.text_inj`, `Node.figure_at?`, `drawing_depicts_tree`. -/

namespace LittlePascal

/-! ## Nodes and their children -/

namespace Node

/-- The children of a node, in order. A name with its type has both as children, each time it is declared. -/
def children : Node → List Node
  | .expr (.signed _ _ operand) => [.expr operand]
  | .expr (.binary _ _ left right) => [.expr left, .expr right]
  | .expr (.literal _ _) | .expr (.var _) | .expr .hole | .stmt .empty | .type _ => []
  | .stmt (.compound children) => children.map .stmt
  | .stmt (.assign target _ value) => [.expr (.var target), .expr value]
  | .stmt (.call _ arguments) => arguments.map .expr
  | .parameter b | .decl (.var b) => [.expr (.var b.id), .type b.type]
  | .decl (.procedure _ parameters declarations body) =>
    parameters.map .parameter ++ [.block ⟨declarations, body⟩]
  | .block b => b.declarations.map .decl ++ [.stmt (.compound b.body)]
  | .program p => [.block p.block]

/-- The label of a node. -/
def label : Node → String
  | .expr (.literal l _) => l.value.text
  | .expr (.var id) => id.name
  | .expr (.signed sign _ _) => "unary " ++ sign.operator.spelling
  | .expr (.binary operator _ _ _) => operator.spelling
  | .expr .hole => Expr.hole.className
  | .stmt (.compound _) => "Compound"
  | .stmt (.assign _ _ _) => Punctuation.assign.spelling
  | .stmt (.call procedure _) => "ProcCall:" ++ procedure.name
  | .stmt .empty => "NoOp"
  | .type t => t.type.name
  | .parameter _ => "Param"
  | .decl (.var _) => "VarDecl"
  | .decl (.procedure name _ _ _) => "ProcDecl:" ++ name
  | .block _ => "Block"
  | .program _ => "Program"

/-- The node at an address, the list of the child indices that lead to it. -/
def at? : Node → List Nat → Option Node
  | n, [] => some n
  | n, i :: address => n.children[i]?.bind fun child => child.at? address

end Node

/-! ## The figure of a tree -/

/-- The figures of statements are taken one by one. -/
theorem Stmt.figures_eq_map (statements : List Stmt) : figures statements = statements.map figure := by
  induction statements with
  | nil => rfl
  | cons statement rest ih => rw [figures, ih, List.map_cons]

/-- The figures of declarations are taken one by one. -/
theorem Decl.figures_eq_map (declarations : List Decl) : figures declarations = declarations.map figure := by
  induction declarations with
  | nil => rfl
  | cons declaration rest ih => rw [figures, ih, List.map_cons]

namespace Node

/-- The figure of a node shows its label. -/
theorem figure_title (n : Node) : n.figure.title = n.label := by
  cases n with
  | expr e => cases e <;> rfl
  | stmt s => cases s <;> rfl
  | decl d => cases d <;> rfl
  | type | parameter | block | program => rfl

/-- The figure of a node has the figures of its children. -/
theorem figure_children (n : Node) : n.figure.children = n.children.map figure := by
  cases n with
  | expr e => cases e <;> rfl
  | stmt s =>
    cases s with
    | compound statements =>
      simp [figure, Stmt.figure, Figure.children, children, Stmt.figures_eq_map, Function.comp_def]
    | call procedure arguments =>
      simp [figure, Stmt.figure, Figure.children, children, Function.comp_def]
    | assign | empty => rfl
  | decl d =>
    cases d with
    | var binding => rfl
    | procedure name parameters declarations body =>
      simp [figure, Decl.figure, Figure.children, children, Function.comp_def, Block.figure]
  | block b =>
    simp [figure, Block.figure, Figure.children, children, Function.comp_def, Decl.figures_eq_map]
  | type | parameter | program => rfl

/-- What stands at an address of the figure is the figure of what stands there in the tree. -/
theorem figure_at? (n : Node) (a : List Nat) : n.figure.at? a = (n.at? a).map figure := by
  induction a generalizing n with
  | nil => rfl
  | cons i a ih =>
    rw [Figure.at?, at?, figure_children, List.getElem?_map]
    cases n.children[i]? with
    | none => rfl
    | some child => exact ih child

/-- The children of what stands at an address stand below it. -/
theorem at?_concat (n : Node) (a : List Nat) (i : Nat) :
    n.at? (a ++ [i]) = (n.at? a).bind fun m => m.children[i]? := by
  induction a generalizing n with
  | nil =>
    rw [List.nil_append, at?, at?, Option.bind_some]
    cases n.children[i]? <;> rfl
  | cons j a ih =>
    rw [List.cons_append, at?, at?]
    cases n.children[j]? with
    | none => rfl
    | some child => exact ih child

/-- The children of a tree that fits a grammar fit it. -/
theorem Fits.child {g : Grammar} {n m : Node} (h : n.Fits g) (member : m ∈ n.children) : m.Fits g := by
  cases n with
  | expr e =>
    cases e with
    | signed sign place operand =>
      obtain rfl := List.mem_singleton.mp member
      exact h
    | binary operator place left right =>
      simp only [children, List.mem_cons, List.not_mem_nil, or_false] at member
      rcases member with rfl | rfl
      · exact h.1
      · exact h.2
    | literal | var | hole => simp [children] at member
  | stmt s =>
    cases s with
    | compound children =>
      obtain ⟨s, among, rfl⟩ := List.mem_map.mp member
      exact Stmt.allFit_iff.mp h s among
    | assign target place value =>
      simp only [children, List.mem_cons, List.not_mem_nil, or_false] at member
      rcases member with rfl | rfl
      · trivial
      · exact h
    | call procedure arguments =>
      obtain ⟨e, among, rfl⟩ := List.mem_map.mp member
      exact h.2 e among
    | empty => simp [children] at member
  | type t => simp [children] at member
  | parameter b =>
    simp only [children, List.mem_cons, List.not_mem_nil, or_false] at member
    rcases member with rfl | rfl <;> trivial
  | decl d =>
    cases d with
    | var b =>
      simp only [children, List.mem_cons, List.not_mem_nil, or_false] at member
      rcases member with rfl | rfl <;> trivial
    | procedure name parameters declarations body =>
      rcases List.mem_append.mp member with member | member
      · obtain ⟨b, _, rfl⟩ := List.mem_map.mp member
        trivial
      · obtain rfl := List.mem_singleton.mp member
        exact h.2
  | block b =>
    rcases List.mem_append.mp member with member | member
    · obtain ⟨d, among, rfl⟩ := List.mem_map.mp member
      exact Decl.allFit_iff.mp h.1 d among
    · obtain rfl := List.mem_singleton.mp member
      exact h.2
  | program p =>
    obtain rfl := List.mem_singleton.mp member
    exact h

/-- All nodes of a tree that fits a grammar fit it. -/
theorem Fits.at? {g : Grammar} {n m : Node} {a : List Nat} (h : n.Fits g) (found : n.at? a = some m) :
    m.Fits g := by
  induction a generalizing n with
  | nil =>
    cases found
    exact h
  | cons i a ih =>
    obtain ⟨child, member, found⟩ := Option.bind_eq_some_iff.mp found
    exact ih (h.child (List.mem_of_getElem? member)) found

/-- A tree can be drawn if no operand may be left out of it. -/
theorem Fits.drawable {g : Grammar} (holes : g.holes = false) {n : Node} (h : n.Fits g) :
    n.figure.Drawable := by
  refine Figure.drawable_of_at fun c f found className undrawable => ?_
  rw [figure_at?] at found
  obtain ⟨m, here, rfl⟩ := Option.map_eq_some_iff.mp found
  have fits := h.at? here
  -- only a hole has no figure
  cases m with
  | expr e =>
    cases e with
    | hole => exact (Expr.not_fits_hole holes fits).elim
    | literal | var | signed | binary => cases undrawable
  | stmt s => cases s <;> cases undrawable
  | decl d => cases d <;> cases undrawable
  | type | parameter | block | program => cases undrawable

end Node

/-! ## Lines as they are written -/

/-- A number is told from what follows it if that does not begin with a digit. -/
theorem repr_append_inj {m n : Nat} {first second : List Char} {x y : Char} (hx : x.isDigit = false)
    (hy : y.isDigit = false) (h : m.repr.toList ++ x :: first = n.repr.toList ++ y :: second) :
    m = n ∧ first = second := by
  have digits : ∀ (k : Nat) (z : Char) (rest : List Char), z.isDigit = false →
      (k.repr.toList ++ z :: rest).takeWhile Char.isDigit = k.repr.toList := by
    intro k z rest hz
    rw [Nat.repr_eq_ofList_toDigits, String.toList_ofList, List.takeWhile_append_of_pos, List.takeWhile_cons,
      hz]
    · simp
    · exact fun c member => Nat.isDigit_of_mem_toDigits (by decide) (by decide) member
  have same : m.repr.toList = n.repr.toList := by
    rw [← digits m x first hx, h, digits n y second hy]
  rw [same, List.append_cancel_left_eq, List.cons.injEq] at h
  refine ⟨?_, h.2⟩
  rw [Nat.repr_eq_ofList_toDigits, Nat.repr_eq_ofList_toDigits, String.toList_ofList,
    String.toList_ofList] at same
  rw [← Nat.ofDigitChars_ten_toDigits (n := m), same, Nat.ofDigitChars_ten_toDigits]

namespace Line

/-- What stands behind the first number of a line and a blank. -/
def tail : Line Nat → List Char
  | .label _ text => '[' :: ("label=\"".toList ++ text.toList ++ "\"]\n".toList)
  | .edge _ child => '-' :: ("> node".toList ++ (child.repr.toList ++ ['\n']))

/-- The first number of a line. -/
def subject : Line Nat → Nat
  | .label number _ => number
  | .edge parent _ => parent

/-- A line begins with its first number. -/
theorem toList_text (l : Line Nat) :
    l.text.toList = "  node".toList ++ (l.subject.repr.toList ++ ' ' :: l.tail) := by
  cases l <;> simp [text, subject, tail]

/-- Different lines are written differently. -/
theorem text_inj {l l' : Line Nat} (h : l.text = l'.text) : l = l' := by
  rw [← String.toList_inj, toList_text, toList_text, List.append_cancel_left_eq] at h
  obtain ⟨subject, tail⟩ := repr_append_inj rfl rfl h
  cases l with
  | label number text =>
    cases l' with
    | label number' text' =>
      have number : number = number' := subject
      have text : text = text' := by simpa [Line.tail, String.toList_inj] using tail
      rw [number, text]
    | edge parent child => simp [Line.tail] at tail
  | edge parent child =>
    cases l' with
    | label number text => simp [Line.tail] at tail
    | edge parent' child' =>
      have parent : parent = parent' := subject
      have child : child = child' := by
        rw [Line.tail, Line.tail, List.cons.injEq, List.append_cancel_left_eq] at tail
        exact (repr_append_inj rfl rfl tail.2).1
      rw [parent, child]

end Line

/-! ## Numbers of addresses -/

/-- The number of an address among those of a tree, from one on. -/
def number (addresses : List (List Nat)) (a : List Nat) : Nat := addresses.idxOf a + 1

/-- Addresses are told by their numbers. -/
theorem number_eq_iff {addresses : List (List Nat)} {a b : List Nat} (h : a ∈ addresses) :
    number addresses a = number addresses b ↔ a = b := by
  rw [number, number, Nat.add_right_cancel_iff, List.idxOf_inj h]

/-- Where no address stands twice, each has the number of its place. -/
theorem number_getElem {addresses : List (List Nat)} (nodup : addresses.Nodup) {i : Nat}
    (less : i < addresses.length) : number addresses addresses[i] = i + 1 := by
  rw [number, nodup.idxOf_getElem]

/-- Then labels are numbered from one on. -/
theorem numbered_of_nodup {entries : List (List Nat × String)} (nodup : (entries.map Prod.fst).Nodup) :
    Numbered (number (entries.map Prod.fst)) 1 entries := by
  have positions : (entries.map Prod.fst).map (number (entries.map Prod.fst)) =
      List.range' 1 (entries.map Prod.fst).length := by
    refine List.ext_getElem (by simp) fun i _ _ => ?_
    rw [List.getElem_map, number_getElem nodup, List.getElem_range', Nat.one_mul, Nat.add_comm]
  rw [List.map_map, List.length_map] at positions
  exact positions

/-- The lines of a graph depict a tree whose nodes have these addresses. -/
structure Depicts (tree : Node) (addresses : List (List Nat)) (lines : List (Line Nat)) : Prop where
  /-- Addresses stand in preorder: parents before children, and children in order. -/
  preorder : addresses.Pairwise (· < ·)
  /-- They are the addresses of all nodes. -/
  mem_iff : ∀ a, a ∈ addresses ↔ (tree.at? a).isSome = true
  /-- There is one label line a node. -/
  length_labels : (Line.labels lines).length = addresses.length
  /-- Labels have the numbers from one on, in order, and show the nodes in preorder. -/
  labels : ∀ i a, addresses[i]? = some a →
    ∃ n, tree.at? a = some n ∧ (Line.labels lines)[i]? = some (i + 1, n.label)
  /-- The edges out of a node lead to its children, in order. -/
  edges_out : ∀ a n, tree.at? a = some n →
    (Line.edges lines).filter (·.1 = number addresses a) =
      (List.range n.children.length).map fun i => (number addresses a, number addresses (a ++ [i]))
  /-- There are no other edges. -/
  edges_only : ∀ e ∈ Line.edges lines, ∃ a n i, tree.at? a = some n ∧ i < n.children.length ∧
    e = (number addresses a, number addresses (a ++ [i]))
  /-- There is one edge less than there are nodes. -/
  length_edges : (Line.edges lines).length + 1 = addresses.length
  /-- An edge comes after the labels of its ends. -/
  grounded : ∀ before after parent child, lines = before ++ .edge parent child :: after →
    parent ∈ (Line.labels before).map Prod.fst ∧ child ∈ (Line.labels before).map Prod.fst
  /-- One edge leads into every node but the first, and none into the first. -/
  edges_in : ∀ c, 1 ≤ c → c ≤ addresses.length →
    ((Line.edges lines).filter (·.2 = c)).length = if c = 1 then 0 else 1

namespace Node

variable {tree : Node}

/-- The addresses of a tree in the order in which its labels are drawn. -/
def addresses (tree : Node) : List (List Nat) := (tree.figure.entries []).map Prod.fst

/-- The lines of a tree. -/
def lines (tree : Node) : List (Line Nat) :=
  (tree.figure.items []).map (Line.map (number tree.addresses))

/-- The labels that are drawn are those of the nodes. -/
theorem mem_entries_iff {a : List Nat} {t : String} :
    (a, t) ∈ tree.figure.entries [] ↔ ∃ n, tree.at? a = some n ∧ n.label = t := by
  rw [Figure.mem_entries_iff]
  constructor
  · rintro ⟨c, g, rfl, found, rfl⟩
    rw [figure_at?] at found
    obtain ⟨n, here, rfl⟩ := Option.map_eq_some_iff.mp found
    exact ⟨n, here, (figure_title n).symm⟩
  · rintro ⟨n, found, rfl⟩
    refine ⟨a, n.figure, rfl, ?_, figure_title n⟩
    rw [figure_at?, found, Option.map_some]

/-- The addresses are those of all nodes. -/
theorem mem_addresses_iff {a : List Nat} : a ∈ tree.addresses ↔ (tree.at? a).isSome = true := by
  rw [addresses, List.mem_map, Option.isSome_iff_exists]
  constructor
  · rintro ⟨⟨a, t⟩, member, rfl⟩
    obtain ⟨n, found, _⟩ := mem_entries_iff.mp member
    exact ⟨n, found⟩
  · rintro ⟨n, found⟩
    exact ⟨(a, n.label), mem_entries_iff.mpr ⟨n, found, rfl⟩, rfl⟩

/-- They stand in lexicographic order. -/
theorem addresses_sorted (tree : Node) : tree.addresses.Pairwise (· < ·) :=
  List.pairwise_map.mpr (Figure.entries_sorted [] tree.figure)

/-- No address stands twice. -/
theorem addresses_nodup (tree : Node) : tree.addresses.Nodup := by
  refine tree.addresses_sorted.imp ?_
  rintro a b less rfl
  exact List.lt_irrefl a less

/-- Labels are numbered from one on. -/
theorem numbered (tree : Node) : Numbered (number tree.addresses) 1 (tree.figure.entries []) :=
  numbered_of_nodup tree.addresses_nodup

/-- The tree itself has number one. -/
theorem number_root (tree : Node) : number tree.addresses [] = 1 := by
  have first := tree.numbered
  cases f : tree.figure <;>
  · rw [f, Figure.entries] at first
    exact (numbered_cons.mp first).1

/-- The edges of a tree lead from its nodes to their children. -/
theorem mem_edges_iff {e : List Nat × List Nat} :
    e ∈ Line.edges (tree.figure.items []) ↔
      ∃ a n i, tree.at? a = some n ∧ i < n.children.length ∧ e = (a, a ++ [i]) := by
  rw [Figure.mem_edges_iff]
  constructor
  · rintro ⟨a, g, i, found, less, rfl⟩
    rw [figure_at?] at found
    obtain ⟨n, here, rfl⟩ := Option.map_eq_some_iff.mp found
    rw [figure_children, List.length_map] at less
    exact ⟨a, n, i, here, less, rfl⟩
  · rintro ⟨a, n, i, found, less, rfl⟩
    refine ⟨a, n.figure, i, ?_, ?_, rfl⟩
    · rw [figure_at?, found, Option.map_some]
    · rwa [figure_children, List.length_map]

/-- The edges of the lines. -/
theorem edges_lines (tree : Node) : Line.edges tree.lines =
    (Line.edges (tree.figure.items [])).map
      fun e => (number tree.addresses e.1, number tree.addresses e.2) :=
  Line.edges_map _ _

/-- With addresses for numbers, the edges out of a node lead to its children in order. -/
theorem filter_edges_eq {a : List Nat} {n : Node} (found : tree.at? a = some n) :
    (Line.edges (tree.figure.items [])).filter (·.1 = a) =
      (List.range n.children.length).map fun i => (a, a ++ [i]) := by
  have found' : tree.figure.at? a = some n.figure := by rw [figure_at?, found, Option.map_some]
  have drawn := Figure.edgesOut_at found' []
  rw [figure_children, List.length_map] at drawn
  exact drawn

/-- With addresses for numbers, one edge leads to each child. -/
theorem length_filter_edges {a : List Nat} {n : Node} {i : Nat} (found : tree.at? a = some n)
    (less : i < n.children.length) :
    ((Line.edges (tree.figure.items [])).filter (·.2 = a ++ [i])).length = 1 := by
  have narrow : ∀ e ∈ Line.edges (tree.figure.items []),
      decide (e.2 = a ++ [i]) = (decide (e.2 = a ++ [i]) && decide (e.1 = a)) := by
    intro e member
    obtain ⟨b, m, j, _, _, rfl⟩ := mem_edges_iff.mp member
    by_cases same : b = a
    · simp [same]
    · have other : b ++ [j] ≠ a ++ [i] := fun h => same (List.append_inj_left' h rfl)
      simp [other]
  rw [List.filter_congr narrow, ← List.filter_filter, filter_edges_eq found, List.filter_map,
    List.length_map]
  have index : ∀ j ∈ List.range n.children.length,
      decide (a ++ [j] = a ++ [i]) = decide (j = i) := by
    intro j _
    simp
  rw [Function.comp_def, List.filter_congr index, ← List.countP_eq_length_filter]
  exact List.count_eq_one_of_mem List.nodup_range (List.mem_range.mpr less)

/-- The edges out of a node lead to its children, in order. -/
theorem edges_out {a : List Nat} {n : Node} (found : tree.at? a = some n) :
    (Line.edges tree.lines).filter (·.1 = number tree.addresses a) =
      (List.range n.children.length).map
        fun i => (number tree.addresses a, number tree.addresses (a ++ [i])) := by
  -- an edge comes from an address of the tree, so that numbers tell whether it is this one
  have told : ∀ e ∈ Line.edges (tree.figure.items []),
      decide (number tree.addresses e.1 = number tree.addresses a) = decide (e.1 = a) := by
    intro e member
    obtain ⟨b, m, i, here, _, rfl⟩ := mem_edges_iff.mp member
    rw [decide_eq_decide]
    exact number_eq_iff (mem_addresses_iff.mpr (Option.isSome_of_eq_some here))
  rw [edges_lines, List.filter_map, Function.comp_def, List.filter_congr told, filter_edges_eq found, List.map_map]
  rfl

/-- One edge leads into every node but the first, and none into the first. -/
theorem edges_in {c : Nat} (pos : 1 ≤ c) (le : c ≤ tree.addresses.length) :
    ((Line.edges tree.lines).filter (·.2 = c)).length = if c = 1 then 0 else 1 := by
  -- the address with this number
  obtain ⟨b, member, rfl⟩ : ∃ b ∈ tree.addresses, number tree.addresses b = c := by
    refine ⟨tree.addresses[c - 1], List.getElem_mem _, ?_⟩
    rw [number_getElem tree.addresses_nodup]
    omega
  have told : ∀ e ∈ Line.edges (tree.figure.items []),
      decide (number tree.addresses e.2 = number tree.addresses b) = decide (e.2 = b) := by
    intro e _
    rw [decide_eq_decide, eq_comm, number_eq_iff member, eq_comm]
  rw [edges_lines, List.filter_map, Function.comp_def, List.length_map, List.filter_congr told]
  have first := tree.number_root
  by_cases root : b = []
  · subst root
    rw [if_pos first, List.length_eq_zero_iff, List.filter_eq_nil_iff]
    intro e among
    obtain ⟨a, n, i, _, _, rfl⟩ := mem_edges_iff.mp among
    simp
  · have other : number tree.addresses b ≠ 1 := by
      rw [← first, ne_eq, number_eq_iff member]
      exact root
    obtain ⟨a, i, rfl⟩ : ∃ a i, b = a ++ [i] := ⟨_, _, (List.dropLast_append_getLast root).symm⟩
    obtain ⟨m, found⟩ := Option.isSome_iff_exists.mp (mem_addresses_iff.mp member)
    rw [at?_concat] at found
    obtain ⟨n, found, child⟩ := Option.bind_eq_some_iff.mp found
    have less : i < n.children.length := (List.getElem?_eq_some_iff.mp child).1
    rw [if_neg other, length_filter_edges found less]

/-- The lines of a tree depict it. -/
theorem depicts (tree : Node) : Depicts tree tree.addresses tree.lines where
  preorder := tree.addresses_sorted
  mem_iff _ := mem_addresses_iff
  length_labels := by
    rw [lines, Line.labels_map, Figure.labels_items, List.length_map, addresses, List.length_map]
  labels i a h := by
    have position : number tree.addresses a = i + 1 := by
      obtain ⟨less, rfl⟩ := List.getElem?_eq_some_iff.mp h
      rw [number_getElem tree.addresses_nodup]
    rw [addresses, List.getElem?_map] at h
    obtain ⟨⟨b, t⟩, entry, rfl⟩ := Option.map_eq_some_iff.mp h
    obtain ⟨n, found, rfl⟩ := mem_entries_iff.mp (List.mem_of_getElem? entry)
    refine ⟨n, found, ?_⟩
    rw [lines, Line.labels_map, Figure.labels_items, List.getElem?_map, entry, Option.map_some, position]
  edges_out _ _ := edges_out
  edges_only e member := by
    rw [edges_lines] at member
    obtain ⟨_, among, rfl⟩ := List.mem_map.mp member
    obtain ⟨a, n, i, found, less, rfl⟩ := mem_edges_iff.mp among
    exact ⟨a, n, i, found, less, rfl⟩
  length_edges := by
    rw [edges_lines, List.length_map, Figure.length_edges_items, addresses, List.length_map]
  grounded before after parent child split := by
    have grounded := (Figure.items_grounded [] tree.figure []).map (number tree.addresses)
    rw [show (tree.figure.items []).map _ = tree.lines from rfl, split] at grounded
    have labelled := grounded.ends_labelled
    rwa [List.map_nil, List.append_nil] at labelled
  edges_in _ := edges_in

end Node

/-- A drawing with these lines is written as their graph. -/
theorem Drawing.text_eq_graph {d : Drawing} {lines : List (Line Nat)} (body : d.body.toList = lines.map Line.text) :
    d.text = Line.graph lines := by
  rw [Drawing.text, body]
  rfl

/-- In an edition with statements, every text that yields a tree can be drawn, and what is drawn depicts the
tree: the number of the next label exceeds the number of nodes by one, and the lines are those of the tree,
told apart by how they are written. What is printed is the graph of these lines. -/
theorem drawing_depicts_tree {e : Edition} (statements : e.hasStatements = true) {text : String} {tree : Node}
    {reading : Reading} (accepts : e.Accepts text tree reading) :
    ∃ addresses lines drawing,
      e.draw (.node tree) .blank = .ok 1 drawing ∧
      drawing.next = addresses.length + 1 ∧
      drawing.body.toList = lines.map Line.text ∧
      (∀ others, drawing.body.toList = others.map Line.text → others = lines) ∧
      Depicts tree addresses lines ∧
      ∀ written, e.illustrate text written = .ok () (written ++ Line.graph lines ++ "\n") := by
  have fits : tree.Fits e.grammar := Grammar.fits_of_attempt accepts
  have drawable := fits.drawable (show (!e.hasStatements) = false by rw [statements]; rfl)
  let drawing := Drawing.blank.extend tree.addresses.length (tree.lines.map Line.text)
  have drawn : e.draw (.node tree) .blank = .ok 1 drawing := by
    have later : e ≠ .trees := by
      rintro rfl
      cases statements
    have lines := Drawing.figure_eq (d := .blank) drawable tree.numbered
    rw [tree.number_root] at lines
    rw [Edition.draw, if_neg later, Fragment.figure, lines]
    show _ = EStateM.Result.ok 1 (Drawing.blank.extend tree.addresses.length _)
    rw [Node.addresses, List.length_map]
    rfl
  have body : drawing.body.toList = tree.lines.map Line.text := by
    simp [drawing, Drawing.extend, Drawing.blank]
  refine ⟨tree.addresses, tree.lines, drawing, drawn, Nat.add_comm _ _, body, ?_, tree.depicts, ?_⟩
  · intro others same
    rw [body] at same
    exact ((List.map_inj_right fun _ _ => Line.text_inj).mp same).symm
  · intro written
    have result : (e.lexis.attempt e.grammar.parse text).result = .ok tree := by
      rw [show e.lexis.attempt e.grammar.parse text = .done tree reading from accepts]
      rfl
    rw [Edition.illustrate, result, Console.ofExcept, pure_bind, drawn, ← Drawing.text_eq_graph body]
    rfl

/-- Two variables that share a type, which is drawn once for each of them. -/
theorem drawing_depicts_tree_shared_type :
    let text := "PROGRAM p; VAR a, b : INTEGER; BEGIN a := -1 END."
    Edition.calls.hasStatements = true ∧
    ∃ tree reading, Edition.calls.Accepts text tree reading ∧
      ∃ addresses lines drawing, Edition.calls.draw (.node tree) .blank = .ok 1 drawing ∧
        addresses.length = 13 ∧ drawing.body.toList = lines.map Line.text ∧
        Depicts tree addresses lines := by
  intro text
  let count (tree : Node) : Option Nat :=
    (do let _ ← Edition.calls.draw (.node tree); return (← get).next : EStateM Fault Drawing Nat).run' .blank
  have yields : Edition.calls.yields text (fun tree => count tree = some 14) = true := by decide +kernel
  obtain ⟨tree, reading, accepts, counted⟩ := Edition.exists_accepts yields
  obtain ⟨addresses, lines, drawing, drawn, next, body, _, depicts, _⟩ := drawing_depicts_tree rfl accepts
  have same : count tree = some drawing.next := Work.run'_eq_some.mpr ⟨drawing, Work.bind_of_ok drawn⟩
  have number : drawing.next = 14 := Option.some.inj (same.symm.trans (of_decide_eq_true counted))
  exact ⟨rfl, tree, reading, accepts, addresses, lines, drawing, drawn, by omega, body, depicts⟩

end LittlePascal
