import LittlePascal.Proofs.Figures
import Mathlib.Algebra.Ring.Nat

/-! # Figures that are drawn twice

The first edition with trees draws each figure twice, and in each of the two passes it draws the children of the
figure twice. What comes of it are the lines of a figure in which every child stands twice, but without the edges
to first copies: a label is linked to the second copy of each child.

Main definitions:
* `Figure.doubled`: the figure with every child twice;
* `Figure.weight`: how many labels one pass over a figure draws;
* `Line.kept`: the lines of a doubled figure without the edges to first copies.

Main statements:
* `Figure.doubled_at?`: what stands at an address of a doubled figure;
* `Figure.sum_entries`, `Figure.length_edges_doubledAll`: how many labels and edges there are;
* `Drawing.pass_eq`, `Drawing.figureTwice_eq`: one pass over a figure, and a figure drawn twice. -/

namespace LittlePascal

/-! ## Doubled figures -/

namespace Figure

mutual

/-- The figure in which every child stands twice. -/
def doubled : Figure → Figure
  | .node label _ children => .node label .afterAll (doubledAll children)
  | .undrawable className => .undrawable className

/-- Figures in which every child stands twice, each of them twice. -/
def doubledAll : List Figure → List Figure
  | [] => []
  | f :: fs => f.doubled :: f.doubled :: doubledAll fs

end

mutual

/-- How many labels one pass over a figure draws. -/
def weight : Figure → Nat
  | .node _ _ children => 1 + 2 * weightAll children
  | .undrawable _ => 1

/-- How many labels one pass over each of some figures draws. -/
def weightAll : List Figure → Nat
  | [] => 0
  | f :: fs => f.weight + weightAll fs

end

theorem doubled_title (f : Figure) : f.doubled.title = f.title := by cases f <;> rfl

theorem doubled_children (f : Figure) : f.doubled.children = doubledAll f.children := by cases f <;> rfl

@[simp] theorem length_doubledAll (fs : List Figure) : (doubledAll fs).length = 2 * fs.length := by
  induction fs with
  | nil => rfl
  | cons f fs ih =>
    rw [doubledAll, List.length_cons, List.length_cons, ih, List.length_cons]
    omega

/-- The labels of two figures. -/
theorem entriesAll_pair (a : List Nat) (i : Nat) (f f' : Figure) :
    entriesAll a i [f, f'] = f.entries (a ++ [i]) ++ f'.entries (a ++ [i + 1]) := by
  simp [entriesAll]

/-- The lines of two figures. -/
theorem itemsAll_pair (a : List Nat) (i : Nat) (f f' : Figure) :
    itemsAll a i [f, f'] = f.items (a ++ [i]) ++ f'.items (a ++ [i + 1]) := by
  simp [itemsAll]

/-- Two figures in a row stand for one. -/
theorem getElem?_doubledAll (fs : List Figure) (j : Nat) :
    (doubledAll fs)[j]? = fs[j / 2]?.map doubled := by
  induction fs generalizing j with
  | nil => rfl
  | cons f fs ih =>
    match j with
    | 0 | 1 => rfl
    | j + 2 =>
      have half : (j + 2) / 2 = j / 2 + 1 := by omega
      rw [doubledAll, List.getElem?_cons_succ, List.getElem?_cons_succ, ih, half, List.getElem?_cons_succ]

/-- What stands at an address of the doubled figure is the double of what stands at the address with half the
indices. -/
theorem doubled_at? (f : Figure) (c : List Nat) : f.doubled.at? c = (f.at? (c.map (· / 2))).map doubled := by
  induction c generalizing f with
  | nil => rfl
  | cons j c ih =>
    rw [at?, doubled_children, getElem?_doubledAll, List.map_cons, at?]
    cases f.children[j / 2]? with
    | none => rfl
    | some child => exact ih child

mutual

/-- A doubled figure has as many labels as one pass draws. -/
theorem length_entries_doubled (a : List Nat) (f : Figure) : (f.doubled.entries a).length = f.weight := by
  cases f with
  | undrawable className => rfl
  | node label order children =>
    rw [doubled, entries, List.length_cons, length_entriesAll_doubled, weight, Nat.add_comm]

/-- Two passes over each of some figures draw the labels of their doubles. -/
theorem length_entriesAll_doubled (a : List Nat) (i : Nat) (fs : List Figure) :
    (entriesAll a i (doubledAll fs)).length = 2 * weightAll fs := by
  cases fs with
  | nil => rfl
  | cons f fs =>
    rw [doubledAll, entriesAll, entriesAll, List.length_append, List.length_append, length_entries_doubled,
      length_entries_doubled, length_entriesAll_doubled, weightAll]
    omega

end

mutual

/-- A node is drawn twice, and twice as often with each level. -/
theorem sum_entries (a : List Nat) (f : Figure) :
    ((f.entries a).map fun entry => 2 ^ (entry.1.length + 1)).sum = 2 ^ (a.length + 1) * f.weight := by
  cases f with
  | undrawable className => simp [entries, weight]
  | node label order children =>
    rw [entries, List.map_cons, List.sum_cons, sum_entriesAll, weight, Nat.mul_add, Nat.mul_one, ← Nat.mul_assoc,
      ← Nat.pow_succ]

/-- The nodes of figures below an address are drawn twice as often once more. -/
theorem sum_entriesAll (a : List Nat) (i : Nat) (fs : List Figure) :
    ((entriesAll a i fs).map fun entry => 2 ^ (entry.1.length + 1)).sum = 2 ^ (a.length + 2) * weightAll fs := by
  cases fs with
  | nil => simp [entriesAll, weightAll]
  | cons f fs =>
    rw [entriesAll, List.map_append, List.sum_append, sum_entries, sum_entriesAll, weightAll, List.length_append,
      List.length_singleton, Nat.mul_add]

end

end Figure

/-! ## Lines that are kept -/

/-- Whether a copy is the second one of its child. -/
def isSecond (b : List Nat) : Bool := b.getLast?.any (· % 2 = 1)

@[simp] theorem isSecond_concat (a : List Nat) (j : Nat) : isSecond (a ++ [j]) = decide (j % 2 = 1) := by
  simp [isSecond]

/-- Every other number is odd. -/
theorem filter_odd (n : Nat) :
    (List.range (2 * n)).filter (fun j => decide (j % 2 = 1)) = (List.range n).map fun k => 2 * k + 1 := by
  induction n with
  | zero => rfl
  | succ n ih =>
    have odd : (2 * n + 1) % 2 = 1 := by omega
    rw [Nat.mul_succ, List.range_succ, List.range_succ, List.filter_append, List.filter_append, ih, List.range_succ,
      List.map_append]
    simp [odd]

namespace Line

/-- Whether a line is drawn: edges to first copies are not. -/
def isKept : Line (List Nat) → Bool
  | .label _ _ => true
  | .edge _ child => isSecond child

/-- The lines that are drawn. -/
def kept (lines : List (Line (List Nat))) : List (Line (List Nat)) := lines.filter isKept

@[simp] theorem kept_append (first second : List (Line (List Nat))) :
    kept (first ++ second) = kept first ++ kept second := List.filter_append ..

@[simp] theorem kept_label (a : List Nat) (text : String) (lines : List (Line (List Nat))) :
    kept (.label a text :: lines) = .label a text :: kept lines := rfl

/-- All labels are drawn. -/
theorem labels_kept (lines : List (Line (List Nat))) : labels (kept lines) = labels lines := by
  induction lines with
  | nil => rfl
  | cons line lines ih =>
    cases line with
    | label => simp [ih]
    | edge parent child =>
      rw [labels_edge, ← ih, kept, List.filter_cons]
      split <;> rfl

/-- Edges to second copies are drawn. -/
theorem edges_kept (lines : List (Line (List Nat))) :
    edges (kept lines) = (edges lines).filter fun e => isSecond e.2 := by
  induction lines with
  | nil => rfl
  | cons line lines ih =>
    cases line with
    | label => exact ih
    | edge parent child =>
      rw [edges_edge, List.filter_cons, ← ih, kept, List.filter_cons, isKept]
      split <;> rfl

/-- The edges to the second copies of the children of an address. -/
theorem kept_edgesTo (a : List Nat) (n : Nat) :
    kept (Figure.edgesTo a 0 (2 * n)) = (List.range n).map fun k => .edge a (a ++ [2 * k + 1]) := by
  rw [kept, Figure.edgesTo, List.filter_map, ← List.range_eq_range']
  simp only [Function.comp_def, isKept, isSecond_concat]
  rw [filter_odd, List.map_map]
  rfl

end Line

namespace Figure

mutual

/-- One pass over a figure draws an edge to each child, and the edges of two passes over it. -/
theorem length_edges_doubled (a : List Nat) (f : Figure) :
    (Line.edges (Line.kept (f.doubled.items a))).length = weightAll f.children := by
  cases f with
  | undrawable className => rfl
  | node label order children =>
    have last : (Line.edges ((List.range children.length).map fun k => Line.edge a (a ++ [2 * k + 1]))).length =
        children.length := by
      simp [Line.edges, Line.edge?, List.filterMap_map, Function.comp_def]
    rw [doubled, items, length_doubledAll, Line.kept_label, Line.edges_label, Line.kept_append, Line.edges_append,
      Line.kept_edgesTo, List.length_append, last, length_edges_doubledAll, Figure.children]

/-- Two passes over each of some figures draw one edge less than labels for each of them. -/
theorem length_edges_doubledAll (a : List Nat) (i : Nat) (fs : List Figure) :
    (Line.edges (Line.kept (itemsAll a i (doubledAll fs)))).length + fs.length = weightAll fs := by
  cases fs with
  | nil => rfl
  | cons f fs =>
    have one : f.weight = 1 + 2 * weightAll f.children := by cases f <;> rfl
    have rest := length_edges_doubledAll a (i + 1 + 1) fs
    rw [doubledAll, itemsAll, itemsAll, Line.kept_append, Line.kept_append, Line.edges_append, Line.edges_append,
      List.length_append, List.length_append, length_edges_doubled, length_edges_doubled, List.length_cons, weightAll]
    omega

end

end Figure

/-! ## Drawing twice -/

namespace Drawing

open Figure

/-- More labels and lines, and more lines besides. -/
def extendTraced (d : Drawing) (n t : Nat) (lines : List String) : Drawing :=
  { d.extend n lines with trace := d.trace ++ (List.replicate t (traceLine "None")).toArray }

/-- More labels and lines in two parts. -/
theorem extendTraced_extendTraced (d : Drawing) (n m t u : Nat) (first second : List String) :
    (d.extendTraced n t first).extendTraced m u second = d.extendTraced (n + m) (t + u) (first ++ second) := by
  simp [extendTraced, extend, Nat.add_assoc]

/-- Nothing may be written besides. -/
theorem extend_eq_extendTraced (d : Drawing) (n : Nat) (lines : List String) :
    d.extend n lines = d.extendTraced n 0 lines := by
  simp [extendTraced, extend]

/-- A drawing done again, with a line in between. -/
theorem again_eq {once : Draw Nat} {d : Drawing} {n t first second : Nat} {lines lines' : List String}
    (before : once d = .ok first (d.extendTraced n t lines))
    (behind : once (d.extendTraced n (t + 1) lines) =
      .ok second ((d.extendTraced n (t + 1) lines).extendTraced n t lines')) :
    again once d = .ok second (d.extendTraced (2 * n) (2 * t + 1) (lines ++ lines')) := by
  have line : { d.extendTraced n t lines with
      trace := (d.extendTraced n t lines).trace.push (traceLine "None") } = d.extendTraced n (t + 1) lines := by
    simp [extendTraced, Array.replicate_succ]
  rw [again, Work.bind_of_ok before, Work.modify_bind, line, behind, extendTraced_extendTraced]
  congr 2 <;> omega

variable {ν : List Nat → Nat}

/-- One pass over a figure, if its children are drawn twice. -/
theorem pass_eq {text : String} {order : EdgeOrder} {children : List Figure} {d : Drawing} {b : List Nat}
    (numbers : Numbered ν d.next ((Figure.node text order children).doubled.entries b))
    (inside : ∀ {d : Drawing}, Numbered ν d.next (entriesAll b 0 (doubledAll children)) →
      figuresTwice children d = .ok ((List.range children.length).map fun k => ν (b ++ [0 + (2 * k + 1)]))
        (d.extendTraced (2 * weightAll children) (weightAll children)
          (Line.texts ν (Line.kept (itemsAll b 0 (doubledAll children)))))) :
    (do let number ← label text
        edges number (← figuresTwice children)
        return number : Draw Nat) d =
      .ok (ν b) (d.extendTraced (Figure.node text order children).weight (weightAll children)
        (Line.texts ν (Line.kept ((Figure.node text order children).doubled.items b)))) := by
  -- the label takes the next number, and the copies below are numbered from there on
  obtain ⟨first, rest⟩ := numbered_cons.mp numbers
  have first : d.next = ν b := first.symm
  have rest : Numbered ν (d.extend 1 [labelLine (ν b) text]).next (entriesAll b 0 (doubledAll children)) := rest
  rw [Work.bind_of_ok (label_eq text d), first, Work.bind_of_ok (inside rest), Work.bind_of_ok (edges_eq _ _ _)]
  simp only [extend_eq_extendTraced, extendTraced_extendTraced]
  rw [doubled, items, length_doubledAll, Line.kept_label, Line.kept_append, Line.kept_edgesTo, Line.texts_cons,
    Line.texts_append, weight, Nat.zero_add, Nat.add_zero, Nat.add_zero]
  simp [Line.texts, Line.map, Line.text]
  rfl

mutual

/-- A figure is drawn twice, and the number of the second copy is returned. -/
theorem figureTwice_eq {f : Figure} {d : Drawing} {a : List Nat} {i : Nat} (drawable : f.Drawable)
    (numbers : Numbered ν d.next (entriesAll a i [f.doubled, f.doubled])) :
    figureTwice f d = .ok (ν (a ++ [i + 1])) (d.extendTraced (2 * f.weight) f.weight
      (Line.texts ν (Line.kept (itemsAll a i [f.doubled, f.doubled])))) := by
  cases f with
  | undrawable className => exact drawable.elim
  | node text order children =>
    rw [entriesAll_pair, numbered_append, length_entries_doubled] at numbers
    -- the second pass starts with the number behind all labels of the first one
    have before := pass_eq numbers.1 (figuresTwice_eq drawable)
    have drawn := again_eq before (pass_eq numbers.2 (figuresTwice_eq drawable))
    rw [figureTwice, drawn, itemsAll_pair, Line.kept_append, Line.texts_append, weight, Nat.add_comm 1]

/-- Figures are drawn twice, and the numbers of the second copies are returned. -/
theorem figuresTwice_eq {fs : List Figure} {d : Drawing} {a : List Nat} {i : Nat} (drawable : AllDrawable fs)
    (numbers : Numbered ν d.next (entriesAll a i (doubledAll fs))) :
    figuresTwice fs d =
      .ok ((List.range fs.length).map fun k => ν (a ++ [i + (2 * k + 1)]))
        (d.extendTraced (2 * weightAll fs) (weightAll fs)
          (Line.texts ν (Line.kept (itemsAll a i (doubledAll fs))))) := by
  cases fs with
  | nil =>
    simp [extendTraced, extend, doubledAll, weightAll, itemsAll, Line.kept, Line.texts, figuresTwice]
    rfl
  | cons f fs =>
    have labels : entriesAll a i (doubledAll (f :: fs)) =
        entriesAll a i [f.doubled, f.doubled] ++ entriesAll a (i + 2) (doubledAll fs) := by
      simp [entriesAll, doubledAll]
    have lines : itemsAll a i (doubledAll (f :: fs)) =
        itemsAll a i [f.doubled, f.doubled] ++ itemsAll a (i + 2) (doubledAll fs) := by
      simp [itemsAll, doubledAll]
    have pair : (entriesAll a i [f.doubled, f.doubled]).length = 2 * f.weight := by
      rw [entriesAll_pair, List.length_append, length_entries_doubled, length_entries_doubled, Nat.two_mul]
    rw [labels, numbered_append, pair] at numbers
    have seconds : (List.range (f :: fs).length).map (fun k => ν (a ++ [i + (2 * k + 1)])) =
        ν (a ++ [i + 1]) :: (List.range fs.length).map fun k => ν (a ++ [i + 2 + (2 * k + 1)]) := by
      have shift : ∀ k, i + (2 * (k + 1) + 1) = i + 2 + (2 * k + 1) := by omega
      rw [List.length_cons, List.range_succ_eq_map, List.map_cons, List.map_map]
      simp [shift]
    rw [figuresTwice, Work.bind_of_ok (figureTwice_eq drawable.1 numbers.1),
      Work.bind_of_ok (figuresTwice_eq drawable.2 numbers.2), extendTraced_extendTraced, lines, Line.kept_append,
      Line.texts_append, weightAll, Nat.mul_add, seconds]
    rfl

end

end Drawing

end LittlePascal
