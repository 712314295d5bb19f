import StepLang.Datum.Read

/-!
# The grammar of data

A value is an integer, a symbol, or values between brackets of one shape. Reading the tokens of a value
delivers it whatever stands around it, so a token sequence derives at most one value.
-/

namespace StepLang

/-- The bracket `c` ends what `o` opened. -/
def Token.Closes (c o : Token) : Prop :=
  o.kind = .opening ∧ c.kind = .closing ∧
    ((o.lexeme = ("(" : Text) ∧ c.lexeme = (")" : Text)) ∨
      (o.lexeme = ("[" : Text) ∧ c.lexeme = ("]" : Text)))

theorem Token.Closes.lexeme_eq {c : Token} {o : OpenList} (h : c.Closes o.opener) : c.lexeme = o.closer := by
  obtain ⟨-, -, ⟨ho, hc⟩ | ⟨ho, hc⟩⟩ := h
  · have hne : ("(" : Text) ≠ "[" := by decide
    rw [hc, OpenList.closer, ho, if_neg hne]
  · rw [hc, OpenList.closer, ho, if_pos rfl]

namespace Datum

/-- The tokens spell the datum. Each part of a list is an item with its own tokens. -/
inductive Derives : List Token → Datum → Prop where
  | integer (t : Token) (h : t.kind = .integer) : Derives [t] (.atom .integer t.lexeme t.pos)
  | symbol (t : Token) (h : t.kind = .symbol) : Derives [t] (.atom .symbol t.lexeme t.pos)
  | list (o c : Token) (parts : List (List Token × Datum)) (h : c.Closes o)
      (items : ∀ p ∈ parts, Derives p.1 p.2) :
      Derives (o :: (parts.flatMap Prod.fst ++ [c])) (.list (parts.map Prod.snd) o.pos)

def DerivesAll (ts : List Token) (ds : List Datum) : Prop :=
  ∃ parts : List (List Token × Datum),
    (∀ p ∈ parts, Derives p.1 p.2) ∧ ts = parts.flatMap Prod.fst ∧ ds = parts.map Prod.snd

abbrev Node := DatumKind × Text × Position

/-- The nodes of a tree, every list before its items and these in order. -/
def nodes : Datum → List Node
  | missing => []
  | atom kind text pos => [(.atom kind, text, pos)]
  | list items pos => (.list, [], pos) :: items.flatMap nodes

end Datum

/-- The node that a token stands for; a closing bracket stands for none. -/
def Token.node? (t : Token) : Option Datum.Node :=
  match t.kind with
  | .opening => some (.list, [], t.pos)
  | .integer => some (.atom .integer, t.lexeme, t.pos)
  | .symbol => some (.atom .symbol, t.lexeme, t.pos)
  | _ => none

namespace TokenStream

variable (endPos : Position)

def resume (p : ReadProgress) (rest : List Token) : Except ReadError Datum × List Token :=
  match p with
  | .done result => (result, rest)
  | .reading lists => readInto endPos lists rest

@[simp] theorem resume_done (result : Except ReadError Datum) (rest : List Token) :
    resume endPos (.done result) rest = (result, rest) := rfl

@[simp] theorem resume_reading (lists : List OpenList) (rest : List Token) :
    resume endPos (.reading lists) rest = readInto endPos lists rest := rfl

theorem readInto_cons (lists : List OpenList) (t : Token) (rest : List Token) :
    readInto endPos lists (t :: rest) = resume endPos (.take lists t) rest := by
  rw [readInto]
  cases ReadProgress.take lists t <;> rfl

theorem close_closes {c : Token} {o : OpenList} (h : c.Closes o.opener) (outer : List OpenList) :
    ReadProgress.close c (o :: outer) = .deliver o.toDatum outer := by
  rw [ReadProgress.close, if_pos h.lexeme_eq]

theorem readInto_items {parts : List (List Token × Datum)}
    (h : ∀ p ∈ parts, ∀ lists rest,
      readInto endPos lists (p.1 ++ rest) = resume endPos (.deliver p.2 lists) rest)
    (o : Token) (items : List Datum) (outer : List OpenList) (rest : List Token) :
    readInto endPos (⟨o, items⟩ :: outer) (parts.flatMap Prod.fst ++ rest) =
      readInto endPos (⟨o, (parts.map Prod.snd).reverse ++ items⟩ :: outer) rest := by
  induction parts generalizing items with
  | nil => rfl
  | cons p parts ih =>
    have hp := h p List.mem_cons_self
    have hps := ih fun q hq => h q (List.mem_cons_of_mem p hq)
    rw [List.flatMap_cons, List.append_assoc, hp, ReadProgress.deliver, resume_reading, hps]
    simp

theorem readInto_derives {ts : List Token} {d : Datum} (h : Datum.Derives ts d) (lists : List OpenList)
    (rest : List Token) : readInto endPos lists (ts ++ rest) = resume endPos (.deliver d lists) rest := by
  induction h generalizing lists rest with
  | integer t ht => simp [readInto_cons, ReadProgress.take, ht]
  | symbol t ht => simp [readInto_cons, ReadProgress.take, ht]
  | list o c parts hc _ ih =>
    rw [List.cons_append, List.append_assoc, readInto_cons, ReadProgress.take, hc.1]
    simp only [resume_reading]
    rw [readInto_items endPos ih, List.singleton_append, readInto_cons, ReadProgress.take, hc.2.1]
    simp only
    rw [close_closes hc]
    simp [OpenList.toDatum]

theorem readInto_value {ts : List Token} {d : Datum} (h : Datum.Derives ts d) (rest : List Token) :
    readInto endPos [] (ts ++ rest) = (.ok d, rest) := by
  rw [readInto_derives endPos h]
  rfl

end TokenStream

namespace Datum

theorem derives_unique {ts : List Token} {d e : Datum} (hd : Derives ts d) (he : Derives ts e) : d = e := by
  have h := TokenStream.readInto_value .start hd []
  rw [TokenStream.readInto_value .start he] at h
  simpa using h.symm

theorem derives_ne_nil {ts : List Token} {d : Datum} (h : Derives ts d) : ts ≠ [] := by
  cases h <;> simp

theorem derives_append_eq {ts more : List Token} {d e : Datum} (hd : Derives ts d)
    (he : Derives (ts ++ more) e) :
    more = [] := by
  have h := TokenStream.readInto_value .start he []
  rw [List.append_nil, TokenStream.readInto_value .start hd] at h
  exact congrArg Prod.snd h

theorem nodes_eq_of_derives {ts : List Token} {d : Datum} (h : Derives ts d) :
    d.nodes = ts.filterMap Token.node? := by
  induction h with
  | integer t ht => simp [nodes, Token.node?, ht]
  | symbol t ht => simp [nodes, Token.node?, ht]
  | list o c parts hc items ih =>
    have hitems : (parts.map Prod.snd).flatMap nodes = (parts.flatMap Prod.fst).filterMap Token.node? := by
      clear hc items
      induction parts with
      | nil => rfl
      | cons p parts ihp =>
        rw [List.map_cons, List.flatMap_cons, List.flatMap_cons, List.filterMap_append,
          ih p List.mem_cons_self, ihp fun q hq => ih q (List.mem_cons_of_mem p hq)]
    rw [nodes, hitems]
    simp [Token.node?, hc.1, hc.2.1]

end Datum

end StepLang
