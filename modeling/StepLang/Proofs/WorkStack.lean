import Mathlib.Computability.StateTransition
import StepLang.Proofs.Rendering

/-!
# Writing from one stack

A tree can also be written piece by piece from one stack, on which trees wait among the spaces and brackets
that stand around them. A piece that comes to the top is written with all that it opens, and what waits
below stays as it is. So the stack runs empty, and the text is the one that the open lists give and the
structure of the tree tells.
-/

namespace StepLang.Datum

/-- A tree that is still to be written or, where no tree stands, a text. A gap in a list is a piece of no
text. -/
structure Piece where
  datum : Datum
  text : Text

namespace Piece

def tree (d : Datum) : Piece := ⟨d, []⟩

def mark (c : Char) : Piece := ⟨missing, [.char c]⟩

/-- Puts on an item with its place in the list. A space comes on top of it, unless it is the first. -/
def push (item : Datum × Nat) (pieces : List Piece) : List Piece :=
  if 0 < item.2 then mark ' ' :: tree item.1 :: pieces else tree item.1 :: pieces

/-- Puts on what stands behind the opening bracket of a list: the closing bracket first, then the items from
the last to the first. -/
def pushItems (items : List Datum) (pieces : List Piece) : List Piece :=
  items.zipIdx.foldr push (mark ')' :: pieces)

end Piece

/-- The text written so far, and the pieces that wait, the top of the stack first. -/
structure Work where
  written : Text
  pieces : List Piece

namespace Work

def start (d : Datum) : Work := ⟨[], [.tree d]⟩

/-- Takes the piece on top. Only a list puts something on the stack again. -/
def step : Work → Option Work
  | ⟨_, []⟩ => none
  | ⟨written, ⟨missing, text⟩ :: below⟩ => some ⟨written ++ text, below⟩
  | ⟨written, ⟨atom _ text _, _⟩ :: below⟩ => some ⟨written ++ text, below⟩
  | ⟨written, ⟨list items _, _⟩ :: below⟩ => some ⟨written ++ [.char '('], Piece.pushItems items below⟩

end Work

theorem render_list (items : List Datum) (pos : Position) :
    (list items pos).render =
    .char '(' :: ([Glyph.char ' '].intercalate (items.map render) ++ [.char ')']) := by
  rw [render_eq_written, written, funext render_eq_written]

theorem eq_render_of_equations {f : Datum → Text} (hmissing : f missing = [])
    (hatom : ∀ kind text pos, f (atom kind text pos) = text)
    (hlist : ∀ items pos, f (list items pos) =
      .char '(' :: ([Glyph.char ' '].intercalate (items.map f) ++ [.char ')'])) (d : Datum) :
    f d = d.render := by
  induction d using written.induct with
  | case1 => rw [hmissing, render]
  | case2 kind text pos => rw [hatom, render]
  | case3 items pos ih => rw [hlist, render_list, List.map_congr_left ih]

namespace Work

open StateTransition

/-- The tree on top is written with all that it opens, and what waits below stays. -/
def Takes (d : Datum) : Prop :=
  ∀ (out : Text) (below : List Piece), Reaches step ⟨out, .tree d :: below⟩ ⟨out ++ d.written, below⟩

theorem reaches_mark (c : Char) (out : Text) (below : List Piece) :
    Reaches step ⟨out, .mark c :: below⟩ ⟨out ++ [.char c], below⟩ :=
  .single rfl

theorem reaches_later {items : List Datum} (h : ∀ d ∈ items, Takes d) (n : Nat) (out : Text)
    (below : List Piece) :
    Reaches step ⟨out, (items.zipIdx (n + 1)).foldr Piece.push below⟩
      ⟨out ++ spaceBefore items (writtenItems items), below⟩ := by
  induction items generalizing n out with
  | nil =>
    rw [show spaceBefore [] (writtenItems []) = [] from rfl, List.append_nil]
    exact .refl
  | cons d items ih =>
    obtain ⟨hd, hitems⟩ := List.forall_mem_cons.mp h
    have hspace : spaceBefore (d :: items) (writtenItems (d :: items)) =
        [.char ' '] ++ d.written ++ spaceBefore items (writtenItems items) := by
      rw [writtenItems_cons, List.append_assoc]
      rfl
    rw [hspace, ← List.append_assoc, ← List.append_assoc]
    exact ((reaches_mark ' ' out _).trans (hd _ _)).trans (ih hitems (n + 1) _)

theorem reaches_items {items : List Datum} (h : ∀ d ∈ items, Takes d) (out : Text) (below : List Piece) :
    Reaches step ⟨out, Piece.pushItems items below⟩ ⟨out ++ (writtenItems items ++ [.char ')']), below⟩ := by
  rw [← List.append_assoc]
  refine Relation.ReflTransGen.trans ?_ (reaches_mark ')' _ below)
  cases items with
  | nil =>
    rw [show writtenItems [] = [] from rfl, List.append_nil]
    exact .refl
  | cons d items =>
    obtain ⟨hd, hitems⟩ := List.forall_mem_cons.mp h
    rw [writtenItems_cons, ← List.append_assoc]
    exact (hd out _).trans (reaches_later hitems 0 _ _)

theorem takes (d : Datum) : Takes d := by
  induction d using written.induct with
  | case1 =>
    intro out below
    rw [Datum.written]
    exact .single rfl
  | case2 kind text pos =>
    intro out below
    rw [Datum.written]
    exact .single rfl
  | case3 items pos ih =>
    intro out below
    rw [written_list, List.append_cons]
    exact .head rfl (reaches_items ih _ below)

theorem eval_step_start (d : Datum) : eval step (start d) = Part.some ⟨d.written, []⟩ :=
  Part.eq_some_iff.mpr (mem_eval.mpr ⟨takes d [] [], rfl⟩)

end Work

/-- Writing is the only function with the equations that the structure of a tree tells: nothing for a gap,
its text for an atom of whatever kind, and for a list its items in parentheses with one space between each
two. And taking piece after piece from one stack comes to an end at every tree, with the same text. -/
theorem render_recursive :
    (∀ f : Datum → Text, f = render ↔ f missing = [] ∧ (∀ kind text pos, f (atom kind text pos) = text) ∧
      ∀ items pos, f (list items pos) =
        .char '(' :: ([Glyph.char ' '].intercalate (items.map f) ++ [.char ')'])) ∧
    ∀ d : Datum, StateTransition.eval Work.step (.start d) = Part.some ⟨d.render, []⟩ := by
  refine ⟨?_, ?_⟩
  · intro f
    constructor
    · rintro rfl
      exact ⟨by rw [render], fun _ _ _ => by rw [render], render_list⟩
    · intro h
      obtain ⟨hmissing, hatom, hlist⟩ := h
      exact funext (eq_render_of_equations hmissing hatom hlist)
  · intro d
    rw [render_eq_written]
    exact Work.eval_step_start d

end StepLang.Datum
