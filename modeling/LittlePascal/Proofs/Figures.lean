import LittlePascal.Command.Illustrate
import LittlePascal.Proofs.Passage

/-! # Figures and their lines

A label of a figure has an address, the list of the child indices that lead to it. Here the lines of a drawing
are first taken with addresses for numbers. Then what is said about edges follows the figure, and a
drawing numbers the addresses in the order of their labels.

Main definitions:
* `Figure.at?`: the figure at an address;
* `Line`: a label or an edge of a graph whose nodes are named in any way;
* `Figure.entries`, `Figure.items`: the labels and the lines of a figure, with addresses.

Main statements:
* `Figure.mem_entries_iff`, `Figure.entries_sorted`: the labels are those of the figure, in lexicographic order;
* `Figure.edgesOut_at`: the edges out of an address lead to its children in order;
* `Figure.items_grounded`: an edge comes after the labels of its ends;
* `Drawing.figure_eq`: a drawing writes the items, with numbers for addresses. -/

namespace LittlePascal

/-! ## Lines -/

/-- A line of a graph: the label of a node, or an edge. -/
inductive Line (ι : Type) where
  | label (node : ι) (text : String)
  | edge (parent child : ι)

namespace Line

variable {ι κ : Type}

/-- A line with other names for the nodes. -/
def map (ν : ι → κ) : Line ι → Line κ
  | .label node text => .label (ν node) text
  | .edge parent child => .edge (ν parent) (ν child)

/-- The node and the text of a label. -/
def label? : Line ι → Option (ι × String)
  | .label node text => some (node, text)
  | .edge _ _ => none

/-- The ends of an edge. -/
def edge? : Line ι → Option (ι × ι)
  | .label _ _ => none
  | .edge parent child => some (parent, child)

/-- A line as it is written, where the nodes are numbers. -/
def text : Line Nat → String
  | .label number text => "  node" ++ number.repr ++ " [label=\"" ++ text ++ "\"]\n"
  | .edge parent child => "  node" ++ parent.repr ++ " -> node" ++ child.repr ++ "\n"

/-- The graph of these lines, as it is written. -/
def graph (lines : List (Line Nat)) : String :=
  "digraph astgraph \x7b\n  node [shape=circle, fontsize=12, fontname=\"Courier\", height=.1];\n" ++
    "  ranksep=.3;\n  edge [arrowsize=.5]\n\n" ++ String.join (lines.map text) ++ "\x7d"

/-- The labels among lines. -/
def labels (lines : List (Line ι)) : List (ι × String) := lines.filterMap label?

/-- The edges among lines. -/
def edges (lines : List (Line ι)) : List (ι × ι) := lines.filterMap edge?

@[simp] theorem labels_nil : labels ([] : List (Line ι)) = [] := rfl

@[simp] theorem labels_append (first second : List (Line ι)) :
    labels (first ++ second) = labels first ++ labels second := List.filterMap_append

@[simp] theorem labels_label (node : ι) (text : String) (lines : List (Line ι)) :
    labels (.label node text :: lines) = (node, text) :: labels lines := rfl

@[simp] theorem labels_edge (parent child : ι) (lines : List (Line ι)) :
    labels (.edge parent child :: lines) = labels lines := rfl

@[simp] theorem edges_nil : edges ([] : List (Line ι)) = [] := rfl

@[simp] theorem edges_append (first second : List (Line ι)) :
    edges (first ++ second) = edges first ++ edges second := List.filterMap_append

@[simp] theorem edges_label (node : ι) (text : String) (lines : List (Line ι)) :
    edges (.label node text :: lines) = edges lines := rfl

@[simp] theorem edges_edge (parent child : ι) (lines : List (Line ι)) :
    edges (.edge parent child :: lines) = (parent, child) :: edges lines := rfl

/-- Labels with other names for the nodes. -/
theorem labels_map (ν : ι → κ) (lines : List (Line ι)) :
    labels (lines.map (map ν)) = (labels lines).map fun l => (ν l.1, l.2) := by
  induction lines with
  | nil => rfl
  | cons line lines ih => cases line <;> simp [Line.map, ih]

/-- Edges with other names for the nodes. -/
theorem edges_map (ν : ι → κ) (lines : List (Line ι)) :
    edges (lines.map (map ν)) = (edges lines).map fun l => (ν l.1, ν l.2) := by
  induction lines with
  | nil => rfl
  | cons line lines ih => cases line <;> simp [Line.map, ih]

/-- Every edge comes after the labels of its ends, which may stand here or have been seen before. -/
def Grounded (seen : List ι) : List (Line ι) → Prop
  | [] => True
  | .label node _ :: rest => Grounded (node :: seen) rest
  | .edge parent child :: rest => parent ∈ seen ∧ child ∈ seen ∧ Grounded seen rest

/-- More may have been seen. -/
theorem Grounded.mono {seen more : List ι} {lines : List (Line ι)} (h : Grounded seen lines)
    (sub : seen ⊆ more) : Grounded more lines := by
  induction lines generalizing seen more with
  | nil => trivial
  | cons line rest ih =>
    cases line with
    | label node text => exact ih h (List.cons_subset_cons node sub)
    | edge parent child => exact ⟨sub h.1, sub h.2.1, ih h.2.2 sub⟩

/-- Lines one after the other. -/
theorem Grounded.append {seen : List ι} {first second : List (Line ι)} (h : Grounded seen first)
    (h' : Grounded ((labels first).map Prod.fst ++ seen) second) :
    Grounded seen (first ++ second) := by
  induction first generalizing seen with
  | nil => exact h'
  | cons line rest ih =>
    cases line with
    | label node text => exact ih h (h'.mono List.perm_middle.symm.subset)
    | edge parent child => exact ⟨h.1, h.2.1, ih h.2.2 h'⟩

/-- Lines with other names for the nodes. -/
theorem Grounded.map {seen : List ι} {lines : List (Line ι)} (h : Grounded seen lines) (ν : ι → κ) :
    Grounded (seen.map ν) (lines.map (Line.map ν)) := by
  induction lines generalizing seen with
  | nil => trivial
  | cons line rest ih =>
    cases line with
    | label node text => exact @ih (node :: seen) h
    | edge parent child => exact ⟨List.mem_map_of_mem h.1, List.mem_map_of_mem h.2.1, ih h.2.2⟩

/-- Wherever an edge stands, both its ends have been labelled before. -/
theorem Grounded.ends_labelled {seen : List ι} {before after : List (Line ι)} {parent child : ι}
    (h : Grounded seen (before ++ .edge parent child :: after)) :
    (parent ∈ (labels before).map Prod.fst ++ seen) ∧ child ∈ (labels before).map Prod.fst ++ seen := by
  induction before generalizing seen with
  | nil => exact ⟨h.1, h.2.1⟩
  | cons line rest ih =>
    cases line with
    | label node text =>
      obtain ⟨first, second⟩ := ih h
      exact ⟨List.perm_middle.subset first, List.perm_middle.subset second⟩
    | edge parent' child' => exact ih h.2.2

end Line

/-! ## Addresses -/

namespace Figure

/-- The label of a figure, or the class of what cannot be drawn. -/
def title : Figure → String
  | .node label _ _ => label
  | .undrawable className => className

/-- The figures below a label. -/
def children : Figure → List Figure
  | .node _ _ children => children
  | .undrawable _ => []

/-- The figure at an address. -/
def at? : Figure → List Nat → Option Figure
  | f, [] => some f
  | f, i :: address => f.children[i]?.bind fun child => child.at? address

mutual

/-- The labels of a figure with their addresses, behind the address of the figure itself, in the order in which
they are drawn. -/
def entries (a : List Nat) : Figure → List (List Nat × String)
  | .node label _ children => (a, label) :: entriesAll a 0 children
  | .undrawable className => [(a, className)]

/-- The labels of the figures below an address, from an index on. -/
def entriesAll (a : List Nat) (i : Nat) : List Figure → List (List Nat × String)
  | [] => []
  | child :: rest => child.entries (a ++ [i]) ++ entriesAll a (i + 1) rest

end

/-- The edges from an address to its children, from an index on. -/
def edgesTo (a : List Nat) (i n : Nat) : List (Line (List Nat)) :=
  (List.range' i n).map fun j => .edge a (a ++ [j])

mutual

/-- The lines of a figure with addresses for numbers. -/
def items (a : List Nat) : Figure → List (Line (List Nat))
  | .node label .afterEach children => .label a label :: itemsEach a 0 children
  | .node label .afterAll children =>
    .label a label :: (itemsAll a 0 children ++ edgesTo a 0 children.length)
  | .undrawable className => [.label a className]

/-- The lines of the figures below an address, each with the edge to it. -/
def itemsEach (a : List Nat) (i : Nat) : List Figure → List (Line (List Nat))
  | [] => []
  | child :: rest => child.items (a ++ [i]) ++ .edge a (a ++ [i]) :: itemsEach a (i + 1) rest

/-- The lines of the figures below an address. -/
def itemsAll (a : List Nat) (i : Nat) : List Figure → List (Line (List Nat))
  | [] => []
  | child :: rest => child.items (a ++ [i]) ++ itemsAll a (i + 1) rest

end

/-! ## The labels of a figure -/

mutual

/-- The labels of a figure are those at its addresses. -/
theorem mem_entries_iff {a b : List Nat} {t : String} {f : Figure} :
    (b, t) ∈ f.entries a ↔ ∃ c g, b = a ++ c ∧ f.at? c = some g ∧ g.title = t := by
  cases f with
  | undrawable className =>
    rw [entries, List.mem_singleton, Prod.mk.injEq]
    constructor
    · rintro ⟨rfl, rfl⟩
      exact ⟨[], .undrawable t, by simp, rfl, rfl⟩
    · rintro ⟨c, g, rfl, found, rfl⟩
      cases c with
      | nil =>
        cases found
        simp [title]
      | cons i c => simp [at?, children] at found
  | node label order children =>
    rw [entries, List.mem_cons, Prod.mk.injEq, mem_entriesAll_iff]
    constructor
    · rintro (⟨rfl, rfl⟩ | ⟨j, c, child, g, rfl, member, found, rfl⟩)
      · exact ⟨[], _, by simp, rfl, rfl⟩
      · refine ⟨j :: c, g, by rw [Nat.zero_add], ?_, rfl⟩
        rw [at?, Figure.children, member, Option.bind_some, found]
    · rintro ⟨c, g, rfl, found, rfl⟩
      cases c with
      | nil =>
        cases found
        simp [title]
      | cons j c =>
        obtain ⟨child, member, found⟩ := Option.bind_eq_some_iff.mp found
        exact .inr ⟨j, c, child, g, by rw [Nat.zero_add], member, found, rfl⟩

/-- The labels of figures are those at their addresses. -/
theorem mem_entriesAll_iff {a b : List Nat} {i : Nat} {t : String} {fs : List Figure} :
    (b, t) ∈ entriesAll a i fs ↔
      ∃ j c child g, b = a ++ (i + j) :: c ∧ fs[j]? = some child ∧ child.at? c = some g ∧ g.title = t := by
  cases fs with
  | nil => simp [entriesAll]
  | cons f fs =>
    rw [entriesAll, List.mem_append, mem_entries_iff, mem_entriesAll_iff]
    constructor
    · rintro (⟨c, g, rfl, found, rfl⟩ | ⟨j, c, child, g, rfl, member, found, rfl⟩)
      · exact ⟨0, c, f, g, by simp, rfl, found, rfl⟩
      · exact ⟨j + 1, c, child, g, by rw [Nat.add_right_comm, Nat.add_assoc], member, found, rfl⟩
    · rintro ⟨j, c, child, g, rfl, member, found, rfl⟩
      cases j with
      | zero =>
        cases member
        exact .inl ⟨c, g, by simp, found, rfl⟩
      | succ j => exact .inr ⟨j, c, child, g, by rw [Nat.add_right_comm, Nat.add_assoc], member, found, rfl⟩

end

/-- Addresses below a smaller index come first. -/
theorem append_lt_append {i j : Nat} (h : i < j) (a c d : List Nat) : a ++ i :: c < a ++ j :: d := by
  induction a with
  | nil => exact List.cons_lt_cons_iff.mpr (.inl h)
  | cons k a ih => exact List.cons_lt_cons_iff.mpr (.inr ⟨rfl, ih⟩)

/-- An address comes before those below it. -/
theorem lt_append (a : List Nat) (i : Nat) (c : List Nat) : a < a ++ i :: c := by
  induction a with
  | nil => exact List.nil_lt_cons i c
  | cons k a ih => exact List.cons_lt_cons_iff.mpr (.inr ⟨rfl, ih⟩)

mutual

/-- The labels of a figure are drawn in the lexicographic order of their addresses. -/
theorem entries_sorted (a : List Nat) (f : Figure) :
    (f.entries a).Pairwise fun x y => x.1 < y.1 := by
  cases f with
  | undrawable className => exact List.pairwise_singleton _ _
  | node label order children =>
    refine List.Pairwise.cons ?_ (entriesAll_sorted a 0 children)
    rintro ⟨b, t⟩ member
    obtain ⟨j, c, _, _, rfl, _⟩ := mem_entriesAll_iff.mp member
    exact lt_append a (0 + j) c

/-- The labels of figures one after the other are drawn in that order as well. -/
theorem entriesAll_sorted (a : List Nat) (i : Nat) (fs : List Figure) :
    (entriesAll a i fs).Pairwise fun x y => x.1 < y.1 := by
  cases fs with
  | nil => exact List.Pairwise.nil
  | cons f fs =>
    refine List.pairwise_append.mpr ⟨entries_sorted _ f, entriesAll_sorted a (i + 1) fs, ?_⟩
    rintro ⟨b, t⟩ first ⟨b', t'⟩ second
    obtain ⟨c, _, rfl, _⟩ := mem_entries_iff.mp first
    obtain ⟨j, d, _, _, rfl, _⟩ := mem_entriesAll_iff.mp second
    rw [List.append_assoc]
    exact append_lt_append (by omega) a c d

end

mutual

/-- The labels among the lines of a figure. -/
theorem labels_items (a : List Nat) (f : Figure) : Line.labels (f.items a) = f.entries a := by
  cases f with
  | undrawable className => rfl
  | node label order children =>
    cases order with
    | afterEach => rw [items, Line.labels_label, labels_itemsEach, entries]
    | afterAll =>
      have none : Line.labels (edgesTo a 0 children.length) = [] := by
        simp [Line.labels, edgesTo, Line.label?]
      rw [items, Line.labels_label, Line.labels_append, labels_itemsAll, none, List.append_nil, entries]

/-- The labels among the lines of figures with edges. -/
theorem labels_itemsEach (a : List Nat) (i : Nat) (fs : List Figure) :
    Line.labels (itemsEach a i fs) = entriesAll a i fs := by
  cases fs with
  | nil => rfl
  | cons f fs =>
    rw [itemsEach, Line.labels_append, Line.labels_edge, labels_items, labels_itemsEach, entriesAll]

/-- The labels among the lines of figures. -/
theorem labels_itemsAll (a : List Nat) (i : Nat) (fs : List Figure) :
    Line.labels (itemsAll a i fs) = entriesAll a i fs := by
  cases fs with
  | nil => rfl
  | cons f fs => rw [itemsAll, Line.labels_append, labels_items, labels_itemsAll, entriesAll]

end

/-! ## The edges of a figure -/

/-- The first label of a figure. -/
theorem root_mem_labels (a : List Nat) (f : Figure) : a ∈ (Line.labels (f.items a)).map Prod.fst := by
  rw [labels_items]
  exact List.mem_map.mpr ⟨(a, f.title), mem_entries_iff.mpr ⟨[], f, by simp, rfl, rfl⟩, rfl⟩

/-- The labels of figures below an address. -/
theorem child_mem_labels {a : List Nat} {i j : Nat} {fs : List Figure} (h : j ∈ List.range' i fs.length) :
    a ++ [j] ∈ (Line.labels (itemsAll a i fs)).map Prod.fst := by
  obtain ⟨k, short, rfl⟩ := List.mem_range'.mp h
  rw [labels_itemsAll]
  refine List.mem_map.mpr ⟨(a ++ [i + 1 * k], fs[k].title), ?_, rfl⟩
  refine mem_entriesAll_iff.mpr ⟨k, [], fs[k], fs[k], by simp, ?_, rfl, rfl⟩
  exact List.getElem?_eq_getElem short

mutual

/-- Every edge of a figure comes after the labels of its ends. -/
theorem items_grounded (a : List Nat) (f : Figure) (seen : List (List Nat)) :
    Line.Grounded seen (f.items a) := by
  cases f with
  | undrawable className => trivial
  | node label order children =>
    cases order with
    | afterEach => exact itemsEach_grounded 0 children List.mem_cons_self
    | afterAll =>
      refine (itemsAll_grounded a 0 children (a :: seen)).append ?_
      -- all edges at the end: the labels of all children have been drawn
      have edges : ∀ (js : List Nat) (seen : List (List Nat)), a ∈ seen → (∀ j ∈ js, a ++ [j] ∈ seen) →
          Line.Grounded seen (js.map fun j => .edge a (a ++ [j])) := by
        intro js
        induction js with
        | nil => exact fun _ _ _ => trivial
        | cons j js ih =>
          intro seen parent all
          rw [List.forall_mem_cons] at all
          exact ⟨parent, all.1, ih seen parent all.2⟩
      exact edges _ _ (by simp) fun j member => List.mem_append_left _ (child_mem_labels member)

/-- Every edge to a figure and in it comes after the labels of its ends. -/
theorem itemsEach_grounded {a : List Nat} {seen : List (List Nat)} (i : Nat) (fs : List Figure)
    (parent : a ∈ seen) : Line.Grounded seen (itemsEach a i fs) := by
  cases fs with
  | nil => trivial
  | cons f fs =>
    refine Line.Grounded.append (items_grounded _ f seen) ⟨?_, ?_, ?_⟩
    · exact List.mem_append_right _ parent
    · exact List.mem_append_left _ (root_mem_labels _ f)
    · exact itemsEach_grounded (i + 1) fs (List.mem_append_right _ parent)

/-- Every edge in figures comes after the labels of its ends. -/
theorem itemsAll_grounded (a : List Nat) (i : Nat) (fs : List Figure) (seen : List (List Nat)) :
    Line.Grounded seen (itemsAll a i fs) := by
  cases fs with
  | nil => trivial
  | cons f fs => exact Line.Grounded.append (items_grounded _ f seen) (itemsAll_grounded a (i + 1) fs _)

end

/-- An edge leads out of an address of the figure. -/
theorem exists_of_mem_edges {a : List Nat} {f : Figure} {e : List Nat × List Nat}
    (h : e ∈ Line.edges (f.items a)) : ∃ c g, e.1 = a ++ c ∧ f.at? c = some g := by
  obtain ⟨line, member, found⟩ := List.mem_filterMap.mp h
  cases line with
  | label => cases found
  | edge parent child =>
    cases found
    obtain ⟨before, after, split⟩ := List.append_of_mem member
    have grounded := items_grounded a f []
    rw [split] at grounded
    have labelled := grounded.ends_labelled.1
    rw [List.append_nil, List.mem_map] at labelled
    obtain ⟨⟨parent, t⟩, among, rfl⟩ := labelled
    have entry : (parent, t) ∈ f.entries a := by
      rw [← labels_items, split, Line.labels_append]
      exact List.mem_append_left _ among
    obtain ⟨c, g, below, found, _⟩ := mem_entries_iff.mp entry
    exact ⟨c, g, below, found⟩

/-- The edges out of an address among those of the figures below another one. -/
def edgesOut (p : List Nat) (lines : List (Line (List Nat))) : List (List Nat × List Nat) :=
  (Line.edges lines).filter (·.1 = p)

@[simp] theorem edgesOut_append (p : List Nat) (first second : List (Line (List Nat))) :
    edgesOut p (first ++ second) = edgesOut p first ++ edgesOut p second := by
  simp [edgesOut]

/-- No edge leads out of an address from within a figure elsewhere. -/
theorem edgesOut_items_of_ne {a p : List Nat} (h : ∀ c, p ≠ a ++ c) (f : Figure) :
    edgesOut p (f.items a) = [] := by
  rw [edgesOut, List.filter_eq_nil_iff]
  intro e member
  obtain ⟨c, _, below, _⟩ := exists_of_mem_edges member
  rw [decide_eq_true_eq, below]
  exact fun same => h c same.symm

/-- Edges to the children of an address lead out of that address alone. -/
theorem edgesOut_edgesTo (a p : List Nat) (i n : Nat) :
    edgesOut p (edgesTo a i n) =
      if p = a then (List.range' i n).map fun j => (a, a ++ [j]) else [] := by
  have edges : Line.edges (edgesTo a i n) = (List.range' i n).map fun j => (a, a ++ [j]) := by
    simp [Line.edges, edgesTo, Line.edge?, List.filterMap_map, Function.comp_def]
  rw [edgesOut, edges, List.filter_map]
  split
  · rename_i same
    rw [List.filter_eq_self.mpr]
    exact fun j _ => decide_eq_true same.symm
  · rename_i other
    rw [List.filter_eq_nil_iff.mpr, List.map_nil]
    exact fun j _ => by simpa using Ne.symm other

/-- From the figures below an address no edge leads out of it. -/
theorem edgesOut_itemsAll_self (a : List Nat) (i : Nat) (fs : List Figure) :
    edgesOut a (itemsAll a i fs) = [] := by
  induction fs generalizing i with
  | nil => rfl
  | cons f fs ih =>
    have apart : ∀ c, a ≠ a ++ [i] ++ c := by simp
    rw [itemsAll, edgesOut_append, edgesOut_items_of_ne apart, ih, List.append_nil]

/-- The edges out of an address do not depend on when the edges to the children are drawn. -/
theorem edgesOut_itemsEach (a p : List Nat) (i : Nat) (fs : List Figure) :
    edgesOut p (itemsEach a i fs) =
      edgesOut p (itemsAll a i fs) ++ edgesOut p (edgesTo a i fs.length) := by
  induction fs generalizing i with
  | nil => rfl
  | cons f fs ih =>
    have first : itemsEach a i (f :: fs) = f.items (a ++ [i]) ++ (edgesTo a i 1 ++ itemsEach a (i + 1) fs) := rfl
    have split : edgesTo a i (fs.length + 1) = edgesTo a i 1 ++ edgesTo a (i + 1) fs.length := rfl
    rw [first, itemsAll, List.length_cons, split]
    simp only [edgesOut_append, ih]
    by_cases same : p = a
    · subst same
      have apart : ∀ c, p ≠ p ++ [i] ++ c := by simp
      rw [edgesOut_items_of_ne apart, edgesOut_itemsAll_self]
      simp
    · rw [edgesOut_edgesTo a p i 1, if_neg same]
      simp

/-- The edges out of an address: those among the figures below, and those to the figures. -/
theorem edgesOut_items (a p : List Nat) (f : Figure) :
    edgesOut p (f.items a) =
      edgesOut p (itemsAll a 0 f.children) ++ edgesOut p (edgesTo a 0 f.children.length) := by
  cases f with
  | undrawable className => rfl
  | node label order children =>
    cases order with
    | afterEach => exact edgesOut_itemsEach a p 0 children
    | afterAll => exact edgesOut_append p (itemsAll a 0 children) (edgesTo a 0 children.length)

/-- Among figures below an address, edges out of one that lies in a certain figure are edges of that figure. -/
theorem edgesOut_itemsAll {a c : List Nat} {i j : Nat} {fs : List Figure} {f : Figure} (h : fs[j]? = some f) :
    edgesOut (a ++ (i + j) :: c) (itemsAll a i fs) =
      edgesOut (a ++ (i + j) :: c) (f.items (a ++ [i + j])) := by
  induction fs generalizing i j with
  | nil => simp at h
  | cons f' fs ih =>
    cases j with
    | zero =>
      cases h
      have later : ∀ (k : Nat) (fs : List Figure), i < k →
          edgesOut (a ++ (i + 0) :: c) (itemsAll a k fs) = [] := by
        intro k fs
        induction fs generalizing k with
        | nil => exact fun _ => rfl
        | cons g fs ih =>
          intro less
          have apart : ∀ d, a ++ (i + 0) :: c ≠ a ++ [k] ++ d := by
            intro d same
            simp at same
            omega
          rw [itemsAll, edgesOut_append, edgesOut_items_of_ne apart, ih (k + 1) (by omega), List.append_nil]
      rw [itemsAll, edgesOut_append, later (i + 1) fs (by omega), List.append_nil, Nat.add_zero]
    | succ j =>
      have apart : ∀ d, a ++ (i + (j + 1)) :: c ≠ a ++ [i] ++ d := by
        intro d same
        simp at same
      have shift : i + (j + 1) = i + 1 + j := by omega
      rw [itemsAll, edgesOut_append, edgesOut_items_of_ne apart, List.nil_append, shift]
      exact ih h

/-- The edges out of an address lead to its children, in order. -/
theorem edgesOut_at {c : List Nat} {f g : Figure} (h : f.at? c = some g) (a : List Nat) :
    edgesOut (a ++ c) (f.items a) =
      (List.range g.children.length).map fun i => (a ++ c, a ++ c ++ [i]) := by
  -- along the address: at its end stand the edges of the figure itself
  induction c generalizing f a with
  | nil =>
    cases h
    rw [List.append_nil, edgesOut_items, edgesOut_itemsAll_self, edgesOut_edgesTo, if_pos rfl,
      List.nil_append, List.range_eq_range']
  | cons j c ih =>
    obtain ⟨child, member, h⟩ := Option.bind_eq_some_iff.mp h
    have other : a ++ j :: c ≠ a := by simp
    have inside := edgesOut_itemsAll (a := a) (c := c) (i := 0) member
    rw [Nat.zero_add] at inside
    have deeper := ih h (a ++ [j])
    rw [List.append_assoc, List.singleton_append] at deeper
    rw [edgesOut_items, edgesOut_edgesTo, if_neg other, List.append_nil, inside, deeper]

/-- The edges of a figure are those from its addresses to their children. -/
theorem mem_edges_iff {a : List Nat} {f : Figure} {e : List Nat × List Nat} :
    e ∈ Line.edges (f.items a) ↔
      ∃ c g i, f.at? c = some g ∧ i < g.children.length ∧ e = (a ++ c, a ++ c ++ [i]) := by
  have out : ∀ {c g}, f.at? c = some g → (e ∈ edgesOut (a ++ c) (f.items a) ↔
      ∃ i < g.children.length, (a ++ c, a ++ c ++ [i]) = e) := by
    intro c g found
    rw [edgesOut_at found]
    simp
  constructor
  · intro member
    obtain ⟨c, g, below, found⟩ := exists_of_mem_edges member
    have among : e ∈ edgesOut (a ++ c) (f.items a) :=
      List.mem_filter.mpr ⟨member, decide_eq_true below⟩
    obtain ⟨i, less, same⟩ := (out found).mp among
    exact ⟨c, g, i, found, less, same.symm⟩
  · rintro ⟨c, g, i, found, less, same⟩
    exact (List.mem_filter.mp ((out found).mpr ⟨i, less, same.symm⟩)).1

mutual

/-- A figure has one edge less than labels. -/
theorem length_edges_items (a : List Nat) (f : Figure) :
    (Line.edges (f.items a)).length + 1 = (f.entries a).length := by
  cases f with
  | undrawable className => rfl
  | node label order children =>
    rw [entries, List.length_cons]
    cases order with
    | afterEach => rw [items, Line.edges_label, length_edges_itemsEach]
    | afterAll =>
      have edges : (Line.edges (edgesTo a 0 children.length)).length = children.length := by
        simp [Line.edges, edgesTo, Line.edge?, List.filterMap_map, Function.comp_def]
      rw [items, Line.edges_label, Line.edges_append, List.length_append, edges, length_edges_itemsAll]

/-- With the edges to them, figures have as many edges as labels. -/
theorem length_edges_itemsEach (a : List Nat) (i : Nat) (fs : List Figure) :
    (Line.edges (itemsEach a i fs)).length = (entriesAll a i fs).length := by
  cases fs with
  | nil => rfl
  | cons f fs =>
    rw [itemsEach, entriesAll, Line.edges_append, Line.edges_edge, List.length_append, List.length_cons,
      List.length_append, length_edges_itemsEach, ← length_edges_items]
    omega

/-- Without them, figures have each one edge less than labels. -/
theorem length_edges_itemsAll (a : List Nat) (i : Nat) (fs : List Figure) :
    (Line.edges (itemsAll a i fs)).length + fs.length = (entriesAll a i fs).length := by
  cases fs with
  | nil => rfl
  | cons f fs =>
    rw [itemsAll, entriesAll, Line.edges_append, List.length_append, List.length_append, List.length_cons,
      ← length_edges_itemsAll, ← length_edges_items]
    omega

end

end Figure

/-! ## Drawing -/

namespace Drawing

/-- More labels and lines. -/
def extend (d : Drawing) (n : Nat) (lines : List String) : Drawing :=
  { d with next := d.next + n, body := d.body ++ lines.toArray }

/-- More labels and lines in two parts. -/
theorem extend_extend (d : Drawing) (n m : Nat) (first second : List String) :
    (d.extend n first).extend m second = d.extend (n + m) (first ++ second) := by
  simp [extend, Nat.add_assoc]

/-- A label takes the next number. -/
theorem label_eq (text : String) (d : Drawing) :
    label text d = .ok d.next (d.extend 1 [labelLine d.next text]) := by
  simp [extend]
  rfl

/-- An edge is one line. -/
theorem edge_eq (parent child : Nat) (d : Drawing) :
    edge parent child d = .ok () (d.extend 0 [edgeLine parent child]) := by
  simp [extend]
  rfl

/-- Edges are one line each. -/
theorem edges_eq (parent : Nat) (children : List Nat) (d : Drawing) :
    edges parent children d = .ok () (d.extend 0 (children.map (edgeLine parent))) := by
  induction children generalizing d with
  | nil =>
    simp [extend]
    rfl
  | cons child children ih =>
    have step : edges parent (child :: children) = edge parent child >>= fun _ => edges parent children := rfl
    rw [step, Work.bind_of_ok (edge_eq parent child d), ih, extend_extend]
    rfl

end Drawing

/-- Labels are numbered one by one from a number on. -/
def Numbered (ν : List Nat → Nat) (n : Nat) (entries : List (List Nat × String)) : Prop :=
  entries.map (fun e => ν e.1) = List.range' n entries.length

/-- A first label is numbered, and then the rest. -/
theorem numbered_cons {ν : List Nat → Nat} {n : Nat} {e : List Nat × String}
    {entries : List (List Nat × String)} :
    Numbered ν n (e :: entries) ↔ ν e.1 = n ∧ Numbered ν (n + 1) entries := by
  rw [Numbered, Numbered, List.map_cons, List.length_cons, List.range'_succ, List.cons.injEq]

/-- Labels are numbered in two parts. -/
theorem numbered_append {ν : List Nat → Nat} {n : Nat} {first second : List (List Nat × String)} :
    Numbered ν n (first ++ second) ↔ Numbered ν n first ∧ Numbered ν (n + first.length) second := by
  rw [Numbered, Numbered, Numbered, List.map_append, List.length_append, ← List.range'_append_1]
  constructor
  · exact fun h => List.append_inj h (by simp)
  · rintro ⟨h, h'⟩
    rw [h, h']

namespace Figure

mutual

/-- All of a figure can be drawn. -/
def Drawable : Figure → Prop
  | .node _ _ children => AllDrawable children
  | .undrawable _ => False

/-- All of some figures can be drawn. -/
def AllDrawable : List Figure → Prop
  | [] => True
  | f :: fs => f.Drawable ∧ AllDrawable fs

end

mutual

/-- A figure can be drawn if what stands at its addresses can. -/
theorem drawable_of_at {f : Figure}
    (h : ∀ c g, f.at? c = some g → ∀ className, g ≠ .undrawable className) : f.Drawable := by
  cases f with
  | undrawable className => exact h [] _ rfl className rfl
  | node label order children =>
    refine allDrawable_of_at fun j child member c g found => h (j :: c) g ?_
    rw [at?, Figure.children, member, Option.bind_some, found]

/-- Figures can be drawn if what stands at their addresses can. -/
theorem allDrawable_of_at {fs : List Figure}
    (h : ∀ (j : Nat) (child : Figure), fs[j]? = some child → ∀ c g, child.at? c = some g →
      ∀ className, g ≠ .undrawable className) : AllDrawable fs := by
  cases fs with
  | nil => trivial
  | cons f fs =>
    exact ⟨drawable_of_at (h 0 f rfl), allDrawable_of_at fun j child member => h (j + 1) child member⟩

end

end Figure

/-- Lines as they are written where addresses have numbers. -/
def Line.texts (ν : List Nat → Nat) (lines : List (Line (List Nat))) : List String :=
  (lines.map (Line.map ν)).map Line.text

/-- Lines are written one by one. -/
@[simp] theorem Line.texts_cons (ν : List Nat → Nat) (line : Line (List Nat)) (lines : List (Line (List Nat))) :
    texts ν (line :: lines) = (line.map ν).text :: texts ν lines := rfl

@[simp] theorem Line.texts_append (ν : List Nat → Nat) (first second : List (Line (List Nat))) :
    texts ν (first ++ second) = texts ν first ++ texts ν second := by
  simp [texts]

/-- The edges to children as they are written. -/
theorem Line.texts_edgesTo (ν : List Nat → Nat) (a : List Nat) (i n : Nat) :
    texts ν (Figure.edgesTo a i n) =
      ((List.range' i n).map fun j => ν (a ++ [j])).map (Drawing.edgeLine (ν a)) := by
  simp [texts, Figure.edgesTo, Line.map, Line.text, Drawing.edgeLine]

namespace Drawing

open Figure

variable {ν : List Nat → Nat}

mutual

/-- A figure is drawn line by line, with the next numbers for its labels. -/
theorem figure_eq {f : Figure} {d : Drawing} {a : List Nat} (drawable : f.Drawable)
    (numbers : Numbered ν d.next (f.entries a)) :
    figure f d = .ok (ν a) (d.extend (f.entries a).length (Line.texts ν (f.items a))) := by
  cases f with
  | undrawable className => exact drawable.elim
  | node text order children =>
    obtain ⟨first, rest⟩ := numbered_cons.mp numbers
    have first : d.next = ν a := first.symm
    have rest : Numbered ν (d.extend 1 [labelLine (ν a) text]).next (entriesAll a 0 children) := rest
    rw [figure, Work.bind_of_ok (label_eq text d), first]
    cases order with
    | afterEach =>
      dsimp only
      rw [Work.bind_of_ok (figuresEach_eq drawable rest), extend_extend, items, Line.texts_cons, entries,
        List.length_cons, Nat.add_comm]
      rfl
    | afterAll =>
      dsimp only
      rw [Work.bind_of_ok (figuresAll_eq drawable rest), Work.bind_of_ok (edges_eq _ _ _),
        extend_extend, extend_extend, items, Line.texts_cons, Line.texts_append, Line.texts_edgesTo, entries,
        List.length_cons, Nat.add_comm]
      rfl

/-- Figures are drawn with the edges to them. -/
theorem figuresEach_eq {fs : List Figure} {d : Drawing} {a : List Nat} {i : Nat}
    (drawable : AllDrawable fs) (numbers : Numbered ν d.next (entriesAll a i fs)) :
    figuresEach (ν a) fs d =
      .ok () (d.extend (entriesAll a i fs).length (Line.texts ν (itemsEach a i fs))) := by
  cases fs with
  | nil =>
    simp [extend, entriesAll, itemsEach, Line.texts, figuresEach]
    rfl
  | cons f fs =>
    obtain ⟨first, rest⟩ := numbered_append.mp numbers
    rw [figuresEach, Work.bind_of_ok (figure_eq drawable.1 first), Work.bind_of_ok (edge_eq _ _ _),
      figuresEach_eq drawable.2 rest, extend_extend, extend_extend, itemsEach, entriesAll,
      Line.texts_append, List.length_append]
    simp [Line.map, Line.text, edgeLine]

/-- Figures are drawn; their numbers are those of their addresses. -/
theorem figuresAll_eq {fs : List Figure} {d : Drawing} {a : List Nat} {i : Nat}
    (drawable : AllDrawable fs) (numbers : Numbered ν d.next (entriesAll a i fs)) :
    figuresAll fs d =
      .ok ((List.range' i fs.length).map fun j => ν (a ++ [j]))
        (d.extend (entriesAll a i fs).length (Line.texts ν (itemsAll a i fs))) := by
  cases fs with
  | nil =>
    simp [extend, entriesAll, itemsAll, Line.texts, figuresAll]
    rfl
  | cons f fs =>
    obtain ⟨first, rest⟩ := numbered_append.mp numbers
    rw [figuresAll, Work.bind_of_ok (figure_eq drawable.1 first),
      Work.bind_of_ok (figuresAll_eq drawable.2 rest), extend_extend, itemsAll, entriesAll,
      Line.texts_append, List.length_append]
    rfl

end

end Drawing

end LittlePascal
