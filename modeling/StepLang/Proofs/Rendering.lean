import StepLang.Datum.Render

/-!
# What data trees are written as

The writer keeps the items of open lists instead of recursing, and what it writes is the text that the
structure of the tree tells.
-/

namespace StepLang.Datum

/-- A list is its items, with a space between each two, in parentheses. -/
def written : Datum → Text
  | missing => []
  | atom _ text _ => text
  | list items _ => .char '(' :: ([Glyph.char ' '].intercalate (items.map written) ++ [.char ')'])

def writtenItems (items : List Datum) : Text := [Glyph.char ' '].intercalate (items.map written)

/-- What follows a finished item of the innermost list. -/
def writtenBehind : List (List Datum) → Text
  | [] => []
  | items :: outer => spaceBefore items (writtenItems items ++ .char ')' :: writtenBehind outer)

def writtenOpen : List (List Datum) → Text
  | [] => []
  | items :: outer => writtenItems items ++ .char ')' :: writtenBehind outer

theorem written_list (items : List Datum) (pos : Position) :
    (list items pos).written = .char '(' :: (writtenItems items ++ [.char ')']) := by
  rw [written, writtenItems]

theorem writtenItems_cons (d : Datum) (items : List Datum) :
    writtenItems (d :: items) = d.written ++ spaceBefore items (writtenItems items) := by
  unfold writtenItems spaceBefore
  cases items with
  | nil => simp
  | cons e items => simp [List.intercalate_cons_cons]

theorem reverse_spaceBefore_append (items : List Datum) (front back : Text) :
    (spaceBefore items front).reverse ++ back = front.reverse ++ spaceBefore items back := by
  unfold spaceBefore
  split <;> simp

theorem spaceBefore_append (items : List Datum) (front back : Text) :
    spaceBefore items front ++ back = spaceBefore items (front ++ back) := by
  unfold spaceBefore
  split <;> simp

theorem writtenOpen_cons (d : Datum) (items : List Datum) (outer : List (List Datum)) :
    writtenOpen ((d :: items) :: outer) = d.written ++ spaceBefore items (writtenOpen (items :: outer)) := by
  rw [writtenOpen, writtenItems_cons, List.append_assoc, spaceBefore_append, writtenOpen]

theorem renderOpen_eq (front : Text) (lists : List (List Datum)) :
    renderOpen front lists = front.reverse ++ writtenOpen lists := by
  fun_induction renderOpen front lists with
  | case1 front => simp [writtenOpen]
  | case2 front ih =>
    rw [ih]
    simp [writtenOpen, writtenItems, writtenBehind]
  | case3 front items outer ih =>
    rw [ih, reverse_spaceBefore_append]
    simp [writtenOpen, writtenItems, writtenBehind]
  | case4 front items outer ih =>
    rw [ih, reverse_spaceBefore_append, writtenOpen_cons, written, List.nil_append]
  | case5 front kind text pos items outer ih =>
    rw [List.unattach_reverse, List.unattach_attach] at ih
    rw [ih, reverse_spaceBefore_append, writtenOpen_cons, written, List.reverse_append, List.reverse_reverse,
      List.append_assoc]
  | case6 front inner pos items outer ih =>
    rw [ih, writtenOpen_cons, written_list]
    simp [writtenOpen, writtenBehind]

theorem render_eq_written (d : Datum) : d.render = d.written := by
  cases d with
  | missing => rw [render, written]
  | atom kind text pos => rw [render, written]
  | list items pos =>
    rw [render, renderOpen_eq, written_list]
    rfl

end StepLang.Datum
