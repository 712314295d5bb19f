import StepLang.Datum.Basic

/-!
# Writing data trees

A list is written in parentheses with single spaces between its items. A gap is written as nothing, and the
spaces around it stay. The writer keeps the items still to be written of every open list, so the depth of
the tree costs no stack.
-/

namespace StepLang.Datum

/-- The space before the next item, or nothing at the end of a list. -/
def spaceBefore (items : List Datum) (written : Text) : Text :=
  if items.isEmpty then written else .char ' ' :: written

/-- Writes the rest of the open lists, innermost first, behind `written`, which stands backwards. -/
def renderOpen (written : Text) : List (List Datum) → Text
  | [] => written.reverse
  | [] :: [] => renderOpen (.char ')' :: written) []
  | [] :: items :: outer => renderOpen (spaceBefore items (.char ')' :: written)) (items :: outer)
  | (missing :: items) :: outer => renderOpen (spaceBefore items written) (items :: outer)
  | (atom _ text _ :: items) :: outer =>
    renderOpen (spaceBefore items (text.reverse ++ written)) (items :: outer)
  | (list inner _ :: items) :: outer => renderOpen (.char '(' :: written) (inner :: items :: outer)
termination_by lists => lists

def render : Datum → Text
  | missing => []
  | atom _ text _ => text
  | list items _ => renderOpen [.char '('] [items]

end StepLang.Datum
