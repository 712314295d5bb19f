import Mathlib.Data.List.Induction
import StepLang.Proofs.Consistency

/-!
# Assemblers that are used again

A call puts down the labels and the exports of its text line by line, and what it had put down when it
failed stays. So an assembler that was given texts one after the other knows the labels and exports of the
extents to which they were surveyed. A call adds to them and changes none, and the code of an object is that
of its own text alone.
-/

namespace StepLang

/-- How far a text was surveyed: the lines that were taken, and the labels put down of the line behind
them. -/
structure Extent where
  lines : List SourceLine
  names : List Text

namespace Extent

def labelled (x : Extent) : List Text := SourceLine.labelled x.lines ++ x.names

def exported (x : Extent) : List Text := SourceLine.exported x.lines

/-- The labels with the addresses of their lines. -/
def symbols (x : Extent) : List (Text × Nat) :=
  SourceLine.along SourceLine.symbolsAt 0 x.lines ++
    x.names.map fun name => (name, (SourceLine.code x.lines).length)

theorem names_symbols (x : Extent) : x.symbols.map Prod.fst = x.labelled := by
  rw [symbols, List.map_append, SourceLine.labels_along, List.map_map, labelled]
  simp [Function.comp_def]

/-- Why a survey ends behind the extent, where the lines `rest` are left: there are none, or the next line
cannot be read, or its next label is taken, or what stands behind its labels is no content. -/
inductive Stops (x : Extent) (known : List Text) : (rest : List Text) → Option LineFault → Prop where
  | done (hnames : x.names = []) : Stops x known [] none
  | unread {t : Text} {rest : List Text} {fault : LineFault} (hline : Line.parse t = .error fault)
      (hnames : x.names = []) : Stops x known (t :: rest) (some fault)
  | taken {t : Text} {rest : List Text} {line : Line} {name : Text} {more : List Text}
      (hline : Line.parse t = .ok line) (hlabels : line.labels = x.names ++ name :: more)
      (hname : name ∈ known ∨ name ∈ x.labelled) : Stops x known (t :: rest) (some (.duplicateLabel name))
  | meaningless {t : Text} {rest : List Text} {line : Line} {fault : LineFault}
      (hline : Line.parse t = .ok line)
      (hlabels : line.labels = x.names) (hcontent : line.content = .error fault) :
      Stops x known (t :: rest) (some fault)

/-- The extent to which lines, the first of which has the number, are surveyed where the labels `known` are
taken. -/
structure Covers (x : Extent) (known : List Text) (number : Nat) (ts : List Text)
    (fault? : Option LineFault) :
    Prop where
  reads : ∃ front rest, ts = front ++ rest ∧ SourceLine.ofLines? number front = some x.lines ∧
    x.Stops known rest fault?
  distinct : x.labelled.Nodup
  fresh : ∀ name ∈ x.labelled, name ∉ known

theorem labelled_cons (l : SourceLine) (ls : List SourceLine) (names : List Text) :
    (Extent.mk (l :: ls) names).labelled = l.labels ++ (Extent.mk ls names).labelled := by
  simp [labelled, SourceLine.labelled]

theorem Stops.cons {l : SourceLine} {ls : List SourceLine} {names known after rest : List Text}
    {fault? : Option LineFault} (h : (Extent.mk ls names).Stops after rest fault?)
    (hafter : ∀ name, name ∈ after → name ∈ l.labels ∨ name ∈ known) :
    (Extent.mk (l :: ls) names).Stops known rest fault? := by
  cases h with
  | done hnames => exact .done hnames
  | unread hline hnames => exact .unread hline hnames
  | meaningless hline hlabels hcontent => exact .meaningless hline hlabels hcontent
  | taken hline hlabels hname =>
    refine .taken hline hlabels ?_
    rw [labelled_cons, List.mem_append]
    rcases hname with hname | hname
    · rcases hafter _ hname with hl | hknown
      · exact .inr (.inl hl)
      · exact .inl hknown
    · exact .inr (.inr hname)

end Extent

theorem lookup_eq_none {symbols : List (Text × Nat)} {name : Text} :
    symbols.lookup name = none ↔ name ∉ symbols.map Prod.fst := by
  rw [List.lookup_eq_none_iff, List.mem_map]
  constructor
  · rintro h ⟨p, hp, rfl⟩
    simpa using h p hp
  · intro h p hp
    rw [bne_iff_ne]
    rintro rfl
    exact h ⟨p, hp, rfl⟩

theorem lookup_of_mem {symbols : List (Text × Nat)} {name : Text} {offset : Nat}
    (h : (name, offset) ∈ symbols)
    (hdistinct : (symbols.map Prod.fst).Nodup) : symbols.lookup name = some offset := by
  obtain ⟨front, back, rfl⟩ := List.append_of_mem h
  have hfront : front.lookup name = none := by
    rw [lookup_eq_none]
    intro hmem
    rw [List.map_append, List.map_cons, List.nodup_append] at hdistinct
    exact hdistinct.2.2 name hmem name List.mem_cons_self rfl
  rw [List.lookup_append, hfront, List.lookup_cons_self]
  rfl

/-- The labels that are known, oldest first. -/
def Assembler.names (a : Assembler) : List Text := a.labels.reverse.map Prod.fst

theorem Assembler.lookup_eq_none {a : Assembler} {name : Text} :
    a.labels.lookup name = none ↔ name ∉ a.names := by
  rw [StepLang.lookup_eq_none, names, List.map_reverse, List.mem_reverse]

namespace Survey

theorem fresh_iff {s : Survey} {names : List Text} :
    s.Fresh names ↔ names.Nodup ∧ ∀ name ∈ names, name ∉ s.known.names := by
  simp only [Fresh, Assembler.lookup_eq_none]

theorem addLabels_nil (s : Survey) : s.addLabels [] = s := by
  simp [addLabels]

theorem mem_names_addLabels {s : Survey} {names : List Text} {name : Text} :
    name ∈ (s.addLabels names).known.names ↔ name ∈ names ∨ name ∈ s.known.names := by
  simp [addLabels, Assembler.names, or_comm]

theorem mem_names_add {s : Survey} {l : SourceLine} {name : Text} :
    name ∈ (s.add l).known.names ↔ name ∈ l.labels ∨ name ∈ s.known.names := by
  rw [← mem_names_addLabels]
  unfold add count
  cases l.content <;> rfl

theorem define_cases (s : Survey) (names : List Text) :
    (s.Fresh names ∧ s.define names = (s.addLabels names, .ok ())) ∨
      ∃ front name more, names = front ++ name :: more ∧ s.Fresh front ∧
      (name ∈ s.known.names ∨ name ∈ front) ∧
        s.define names = (s.addLabels front, .error (.duplicateLabel name)) := by
  induction names generalizing s with
  | nil => exact .inl ⟨fresh_nil s, by rw [define, addLabels_nil]⟩
  | cons name names ih =>
    rw [define_cons]
    by_cases hmem : name ∈ s.known.names
    · have hsome : (s.known.labels.lookup name).isSome = true := by
        rw [Option.isSome_iff_ne_none, ne_eq, Assembler.lookup_eq_none, Decidable.not_not]
        exact hmem
      exact .inr ⟨[], name, names, rfl, fresh_nil s, .inl hmem, by rw [if_pos hsome, addLabels_nil]⟩
    · have hnone := Assembler.lookup_eq_none.mpr hmem
      rw [if_neg (by simp [hnone])]
      rcases ih (s.addLabels [name]) with ⟨hf, hd⟩ | ⟨front, other, more, rfl, hf, hother, hd⟩
      · exact .inl ⟨(fresh_cons s name names).mpr ⟨hnone, hf⟩, by rw [hd, addLabels_cons s name names]⟩
      · refine .inr ⟨name :: front, other, more, rfl, (fresh_cons s name front).mpr ⟨hnone, hf⟩, ?_, ?_⟩
        · rw [mem_names_addLabels, List.mem_singleton] at hother
          rw [List.mem_cons]
          rcases hother with (hname | hknown) | hfront
          · exact .inr (.inl hname)
          · exact .inl hknown
          · exact .inr (.inr hfront)
        · rw [hd, addLabels_cons s name front]

/-- The survey behind an extent. -/
def cover (s : Survey) (x : Extent) : Survey := (x.lines.foldl add s).addLabels x.names

/-- How a survey ends that was stopped at the line with the number. -/
def verdict (number : Nat) : Option LineFault → Except AssemblyError Unit
  | none => .ok ()
  | some fault => .error (.line number fault)

/-- A line is taken whole, or the survey stops in it behind the labels that it could still put down. -/
theorem takeLine_cases (s : Survey) (number : Nat) (t : Text) :
    (∃ l, SourceLine.ofText? number t = some l ∧ s.Fresh l.labels ∧ s.takeLine t = (s.add l, .ok ())) ∨
      ∃ names fault, s.Fresh names ∧
      (∀ rest, (Extent.mk [] names).Stops s.known.names (t :: rest) (some fault)) ∧
        s.takeLine t = (s.addLabels names, .error fault) := by
  unfold takeLine
  cases hline : Line.parse t with
  | error fault => exact .inr ⟨[], fault, fresh_nil s, fun _ => .unread hline rfl, by rw [addLabels_nil]⟩
  | ok line =>
    rcases define_cases s line.labels with ⟨hf, hd⟩ | ⟨front, name, more, hlabels, hf, hname, hd⟩
    · cases hcontent : line.content with
      | error fault =>
        exact .inr ⟨line.labels, fault, hf,
          fun _ => .meaningless hline rfl hcontent, by simp only [hd, hcontent]⟩
      | ok content =>
        exact .inl ⟨_, SourceLine.ofText?_of_parse hline hcontent, hf, by simp only [hd, hcontent]; rfl⟩
    · exact .inr ⟨front, _, hf, fun _ => .taken hline hlabels hname, by simp only [hd]⟩

theorem takeLines_cover (s : Survey) (number : Nat) (ts : List Text) :
    ∃ x fault?, Extent.Covers x s.known.names number ts fault? ∧
      s.takeLines number ts = (s.cover x, verdict (number + x.lines.length) fault?) := by
  induction ts generalizing s number with
  | nil =>
    refine ⟨⟨[], []⟩, none,
      ⟨⟨[], [], rfl, rfl, .done rfl⟩, List.nodup_nil, fun _ h => absurd h List.not_mem_nil⟩, ?_⟩
    rw [cover, addLabels_nil]
    rfl
  | cons t ts ih =>
    rw [takeLines]
    rcases takeLine_cases s number t with ⟨l, hl, hf, ht⟩ | ⟨names, fault, hf, hstops, ht⟩
    · obtain ⟨⟨ls, names⟩, fault?, ⟨⟨front, rest, rfl, hfront, hstops⟩, hdistinct, hfresh⟩, hts⟩ :=
        ih (s.add l) (number + 1)
      have hall := fresh_iff.mp ((fresh_append s l _).mpr ⟨hf, fresh_iff.mpr ⟨hdistinct, hfresh⟩⟩)
      rw [← Extent.labelled_cons] at hall
      refine ⟨⟨l :: ls, names⟩, fault?, ⟨⟨t :: front, rest, rfl, ?_, ?_⟩, hall.1, hall.2⟩, ?_⟩
      · exact SourceLine.ofLines?_cons.mpr ⟨l, ls, hl, hfront, rfl⟩
      · exact hstops.cons fun _ => mem_names_add.mp
      · simp only [ht, hts, List.length_cons, Nat.add_assoc, Nat.add_comm 1]
        rfl
    · obtain ⟨hdistinct, hfresh⟩ := fresh_iff.mp hf
      refine ⟨⟨[], names⟩, some fault, ⟨⟨[], t :: ts, rfl, rfl, hstops ts⟩, hdistinct, hfresh⟩, ?_⟩
      simp only [ht]
      rfl

theorem labels_cover (s : Survey) (x : Extent) (haddress : s.address = 0) :
    (s.cover x).known.labels.reverse = s.known.labels.reverse ++ x.symbols := by
  have hlines := labels_foldl s x.lines
  have haddr := address_foldl s x.lines
  rw [haddress] at hlines haddr
  rw [cover, addLabels, List.reverse_append, List.reverse_reverse, hlines, haddr,
    Nat.zero_add, Extent.symbols, List.append_assoc]

theorem globals_cover (s : Survey) (x : Extent) :
    (s.cover x).known.globals.reverse = s.known.globals.reverse ++ x.exported := globals_foldl s x.lines

end Survey

namespace Assembler

/-- The assembler after it was given texts one after the other, whatever came of them. -/
def after (a : Assembler) (sources : List Text) : Assembler :=
  sources.foldl (fun a source => (a.assemble source).1) a

theorem assemble_cover (a : Assembler) (source : Text) :
    ∃ x fault?, Extent.Covers x a.names 1 source.lines fault? ∧
      (a.assemble source).1.labels.reverse = a.labels.reverse ++ x.symbols ∧
      (a.assemble source).1.globals.reverse = a.globals.reverse ++ x.exported := by
  obtain ⟨x, fault?, hcovers, htake⟩ := Survey.takeLines_cover (.start a) 1 source.lines
  refine ⟨x, fault?, hcovers, ?_, ?_⟩
  · rw [known_assemble, htake]
    exact Survey.labels_cover (.start a) x rfl
  · rw [known_assemble, htake]
    exact Survey.globals_cover (.start a) x

theorem lookup_after {a : Assembler} {name : Text} {offset : Nat} (h : a.labels.lookup name = some offset)
    (later : List Text) : (a.after later).labels.lookup name = some offset := by
  induction later generalizing a with
  | nil => exact h
  | cons source later ih =>
    apply ih
    obtain ⟨x, _, hcovers, hlabels, -⟩ := assemble_cover a source
    have hknown : name ∈ a.names := by
      by_contra hnot
      rw [lookup_eq_none.mpr hnot] at h
      cases h
    have hnew : x.symbols.reverse.lookup name = none := by
      rw [StepLang.lookup_eq_none, List.map_reverse, List.mem_reverse, Extent.names_symbols]
      intro hmem
      exact hcovers.fresh name hmem hknown
    rw [← List.reverse_reverse (a.assemble source).1.labels, hlabels, List.reverse_append,
      List.reverse_reverse, List.lookup_append, hnew, h]
    rfl

end Assembler

namespace Extent

/-- The extents to which texts are surveyed one after the other, where every text meets the labels of all
before. -/
inductive Surveyed : List Text → List Extent → Prop where
  | nil : Surveyed [] []
  | snoc {sources : List Text} {xs : List Extent} {source : Text} {x : Extent} {fault? : Option LineFault}
      (before : Surveyed sources xs) (hcovers : x.Covers (xs.flatMap labelled) 1 source.lines fault?) :
      Surveyed (sources ++ [source]) (xs ++ [x])

theorem names_flatMap (xs : List Extent) : (xs.flatMap symbols).map Prod.fst = xs.flatMap labelled := by
  simp only [List.map_flatMap, names_symbols]

end Extent

theorem Assembler.after_surveyed (sources : List Text) :
    ∃ xs, Extent.Surveyed sources xs ∧ (empty.after sources).labels.reverse = xs.flatMap Extent.symbols ∧
      (empty.after sources).globals.reverse = xs.flatMap Extent.exported := by
  induction sources using List.reverseRecOn with
  | nil => exact ⟨[], .nil, rfl, rfl⟩
  | append_singleton sources source ih =>
    obtain ⟨xs, hxs, hlabels, hglobals⟩ := ih
    obtain ⟨x, fault?, hcovers, hl, hg⟩ := assemble_cover (empty.after sources) source
    have hafter : empty.after (sources ++ [source]) = ((empty.after sources).assemble source).1 := by
      rw [after, List.foldl_append]
      rfl
    rw [names, hlabels, Extent.names_flatMap] at hcovers
    refine ⟨xs ++ [x], .snoc hxs hcovers, ?_, ?_⟩
    · rw [hafter, hl, hlabels, List.flatMap_append, List.flatMap_singleton]
    · rw [hafter, hg, hglobals, List.flatMap_append, List.flatMap_singleton]

/-- The object has the code of its own lines, and their labels and exports behind those that were known
before. -/
structure Object.Extends (o : Object) (known : Assembler) (own : Object) : Prop where
  code : o.code = own.code
  sourceMap : o.sourceMap = own.sourceMap
  symbols : ∀ name offset, o.symbols.lookup name = some offset ↔
    (name, offset) ∈ own.symbols ∨ known.labels.lookup name = some offset
  globals : o.globals = known.globals.reverse ++ own.globals

namespace Assembler

theorem symbols_draft (a : Assembler) (ls : List SourceLine) :
    (a.draft ls).toObject.symbols = (SourceLine.draft ls).toObject.symbols ++ a.labels := by
  rw [← List.reverse_inj, List.reverse_append, symbols_toObject]
  change (a.draft ls).known.labels.reverse = _
  rw [draft, Draft.known_foldl]
  exact Survey.labels_foldl (.start a) ls

theorem extends_draft {a : Assembler} {ls : List SourceLine}
    (h : (Survey.start a).Fresh (SourceLine.labelled ls)) :
    (a.draft ls).toObject.Extends a (SourceLine.draft ls).toObject := by
  obtain ⟨hdistinct, hnew⟩ := Survey.fresh_iff.mp h
  have hnames : ((SourceLine.draft ls).toObject.symbols.map Prod.fst).reverse = SourceLine.labelled ls := by
    rw [← List.map_reverse, symbols_toObject, SourceLine.labels_along]
  refine ⟨?_, ?_, ?_, ?_⟩
  · rw [code_toObject]
    exact Draft.code_foldl _ ls
  · rw [sourceMap_toObject]
    exact Draft.sourceMap_foldl _ ls
  · intro name offset
    rw [symbols_draft, List.lookup_append]
    constructor
    · intro hlookup
      cases hown : (SourceLine.draft ls).toObject.symbols.lookup name with
      | none => exact .inr (by simpa [hown] using hlookup)
      | some found =>
        rw [hown, Option.some_or] at hlookup
        cases hlookup
        obtain ⟨front, back, hsymbols, -⟩ := List.lookup_eq_some_iff.mp hown
        rw [hsymbols]
        exact .inl (List.mem_append_right front List.mem_cons_self)
    · rintro (hmem | hold)
      · rw [lookup_of_mem hmem (List.nodup_reverse.mp (hnames ▸ hdistinct)), Option.some_or]
      · have hown : (SourceLine.draft ls).toObject.symbols.lookup name = none := by
          rw [StepLang.lookup_eq_none, ← List.mem_reverse, hnames]
          intro hmem
          have hnone : a.labels.lookup name = none := lookup_eq_none.mpr (hnew name hmem)
          rw [hnone] at hold
          cases hold
        rw [hown, hold, Option.none_or]
  · rw [globals_toObject]
    change (a.draft ls).known.globals.reverse = _
    rw [draft, Draft.known_foldl]
    exact Survey.globals_foldl (.start a) ls

theorem names_survey (a : Assembler) (ls : List SourceLine) :
    (a.survey ls).known.names = a.names ++ SourceLine.labelled ls := by
  have hlabels := Survey.labels_foldl (.start a) ls
  rw [names, survey, hlabels, List.map_append]
  exact congrArg _ (SourceLine.labels_along ls)

theorem undefined?_survey {a : Assembler} {ls : List SourceLine} :
    (a.survey ls).known.undefined? = none ↔
      ∀ name ∈ a.globals.reverse ++ SourceLine.exported ls, name ∈ a.names ++ SourceLine.labelled ls := by
  have hglobals : (a.survey ls).known.globals.reverse = a.globals.reverse ++ SourceLine.exported ls :=
    Survey.globals_foldl (.start a) ls
  rw [undefined?_eq_none, ← hglobals, ← names_survey]
  simp only [List.mem_reverse, ne_eq, lookup_eq_none, Decidable.not_not]

theorem assemble_isOk_iff {a : Assembler} {source : Text} :
    (∃ object, (a.assemble source).2 = .ok object) ↔
      ∃ ls, SourceLine.ReadFrom source ls ∧ (SourceLine.labelled ls).Nodup ∧
        (∀ name ∈ SourceLine.labelled ls, name ∉ a.names) ∧
        ∀ name ∈ a.globals.reverse ++ SourceLine.exported ls, name ∈ a.names ++ SourceLine.labelled ls := by
  constructor
  · rintro ⟨object, h⟩
    obtain ⟨ls, hls, hf, hu, -⟩ := assemble_eq_ok_iff.mp h
    obtain ⟨hdistinct, hnew⟩ := Survey.fresh_iff.mp hf
    exact ⟨ls, SourceLine.ofLines?_eq_some_iff_readFrom.mp hls, hdistinct, hnew, undefined?_survey.mp hu⟩
  · rintro ⟨ls, hread, hdistinct, hnew, hu⟩
    exact ⟨_, assemble_eq_ok_iff.mpr ⟨ls, SourceLine.ofLines?_eq_some_iff_readFrom.mpr hread,
      Survey.fresh_iff.mpr ⟨hdistinct, hnew⟩, undefined?_survey.mpr hu, rfl⟩⟩

theorem extends_of_assemble {a : Assembler} {source : Text} {object : Object}
    (h : (a.assemble source).2 = .ok object) :
    ∃ ls own, SourceLine.ReadFrom source ls ∧ own.Consistent ls ∧ object.Extends a own := by
  obtain ⟨ls, hls, hf, -, rfl⟩ := assemble_eq_ok_iff.mp h
  have hread := SourceLine.ofLines?_eq_some_iff_readFrom.mp hls
  exact ⟨ls, _, hread, SourceLine.consistent_of_readFrom hread hf.1, extends_draft hf⟩

theorem code_of_assemble {a b : Assembler} {source : Text} {object other : Object}
    (h : (a.assemble source).2 = .ok object) (hother : (b.assemble source).2 = .ok other) :
    other.code = object.code ∧ other.sourceMap = object.sourceMap := by
  obtain ⟨ls, hls, hf, -, rfl⟩ := assemble_eq_ok_iff.mp h
  obtain ⟨ms, hms, hg, -, rfl⟩ := assemble_eq_ok_iff.mp hother
  rw [hls, Option.some.injEq] at hms
  subst hms
  have hobject := extends_draft hf
  have hsecond := extends_draft hg
  exact ⟨hsecond.code.trans hobject.code.symm, hsecond.sourceMap.trans hobject.sourceMap.symm⟩

end Assembler

/-- An assembler that was given texts knows the labels and exports of the extents to which they were
surveyed, each label at its address there, and keeps every label where it is. It takes a text exactly when
its lines can be read, its labels are new, and all exports so far are labels by then. The object has the
code of that text alone. -/
theorem assemble_after (earlier : List Text) :
    ∃ extents, Extent.Surveyed earlier extents ∧
      (Assembler.empty.after earlier).labels.reverse = extents.flatMap Extent.symbols ∧
      (Assembler.empty.after earlier).globals.reverse = extents.flatMap Extent.exported ∧
      (∀ later name offset, (Assembler.empty.after earlier).labels.lookup name = some offset →
        (Assembler.empty.after (earlier ++ later)).labels.lookup name = some offset) ∧
      ∀ source,
        ((∃ object, ((Assembler.empty.after earlier).assemble source).2 = .ok object) ↔
          ∃ ls, SourceLine.ReadFrom source ls ∧ (SourceLine.labelled ls).Nodup ∧
            (∀ name ∈ SourceLine.labelled ls, name ∉ extents.flatMap Extent.labelled) ∧
            ∀ name ∈ extents.flatMap Extent.exported ++ SourceLine.exported ls,
              name ∈ extents.flatMap Extent.labelled ++ SourceLine.labelled ls) ∧
        ∀ object, ((Assembler.empty.after earlier).assemble source).2 = .ok object →
          (∃ ls own, SourceLine.ReadFrom source ls ∧ own.Consistent ls ∧
            object.Extends (Assembler.empty.after earlier) own) ∧
          ∀ (known : Assembler) (other : Object), (known.assemble source).2 = .ok other →
            other.code = object.code ∧ other.sourceMap = object.sourceMap := by
  obtain ⟨extents, hsurveyed, hlabels, hglobals⟩ := Assembler.after_surveyed earlier
  have hnames : (Assembler.empty.after earlier).names = extents.flatMap Extent.labelled := by
    rw [Assembler.names, hlabels, Extent.names_flatMap]
  refine ⟨extents, hsurveyed, hlabels, hglobals, ?_, ?_⟩
  · intro later name offset h
    have hafter := Assembler.lookup_after h later
    rwa [Assembler.after, Assembler.after, ← List.foldl_append] at hafter
  · intro source
    rw [Assembler.assemble_isOk_iff, hnames, hglobals]
    refine ⟨Iff.rfl, ?_⟩
    intro object h
    exact ⟨Assembler.extends_of_assemble h, fun _ _ hother => Assembler.code_of_assemble h hother⟩

/-- What was put down before a label that stood twice is still there, and the export waits for its label. -/
theorem assemble_after_failed :
    ∃ object, ((Assembler.empty.after ["global f\nnop\na: b: a: ret"]).assemble "f: ret").2 = .ok object ∧
      object.code = [0xC3] ∧ object.entry? "f" = some 0 ∧ object.entry? "b" = some 1 ∧
      ¬ ∃ object, ((Assembler.empty.after ["global f\nnop\na: b: a: ret"]).assemble "c: ret").2 =
      .ok object := by
  have hglobal : Line.parse "global f" = .ok ⟨[], some ⟨"GLOBAL", ["f"]⟩⟩ :=
    Line.parse_of_notMem (by decide) (by decide)
  have hnop : Line.parse "nop" = .ok ⟨[], some ⟨"NOP", []⟩⟩ := Line.parse_of_notMem (by decide) (by decide)
  have htwice : Line.parse "a: b: a: ret" = .ok ⟨["a", "b", "a"], some ⟨"RET", []⟩⟩ := by
    have hline : Text.trim (Line.beforeComment "a: b: a: ret") = "a" ++ Line.colon :: " b: a: ret" := rfl
    have hsecond : Text.trim " b: a: ret" = "b" ++ Line.colon :: " a: ret" := rfl
    have hthird : Text.trim " a: ret" = "a" ++ Line.colon :: " ret" := rfl
    rw [Line.parse, hline, Line.takeLabels_label (by decide) (by decide), hsecond,
      Line.takeLabels_label (by decide) (by decide), hthird, Line.takeLabels_label (by decide) (by decide),
      Line.takeLabels_of_notMem (by decide)]
    rfl
  have hknown : Assembler.empty.after ["global f\nnop\na: b: a: ret"] = ⟨[("b", 1), ("a", 1)], ["f"]⟩ := by
    change (Assembler.empty.assemble "global f\nnop\na: b: a: ret").1 = _
    have hlines : Text.lines "global f\nnop\na: b: a: ret" =
        [("global f" : Text), ("nop" : Text), ("a: b: a: ret" : Text)] := rfl
    rw [Assembler.known_assemble, hlines]
    simp only [Survey.takeLines, Survey.takeLine, hglobal, hnop, htwice]
    rfl
  have hret : ∀ name : Text, Line.IsWord name → Line.isName name = true →
      SourceLine.ofText? 1 (name ++ (": ret" : Text)) = some ⟨1, [name], .code .ret [0xC3]⟩ := by
    intro name hword hname
    exact SourceLine.ofText?_of_parse (Line.parse_label name " ret" hword hname (by decide) (by decide)) rfl
  have hf : SourceLine.ofLines? 1 (Text.lines "f: ret") = some [⟨1, ["f"], .code .ret [0xC3]⟩] :=
    SourceLine.ofLines?_cons.mpr ⟨_, [], hret "f" (by decide) (by decide), rfl, rfl⟩
  have hc : SourceLine.ofLines? 1 (Text.lines "c: ret") = some [⟨1, ["c"], .code .ret [0xC3]⟩] :=
    SourceLine.ofLines?_cons.mpr ⟨_, [], hret "c" (by decide) (by decide), rfl, rfl⟩
  obtain ⟨extents, -, hlabels, hglobals, -, hsource⟩ := assemble_after ["global f\nnop\na: b: a: ret"]
  have hnames := Extent.names_flatMap extents
  rw [← hlabels, hknown] at hnames
  rw [hknown] at hglobals
  simp only [← hnames, ← hglobals] at hsource
  obtain ⟨hfirst, hobject⟩ := hsource "f: ret"
  obtain ⟨object, h⟩ := hfirst.mpr
    ⟨_, SourceLine.ofLines?_eq_some_iff_readFrom.mp hf, by decide, by decide, by decide⟩
  obtain ⟨⟨ls, own, hread, hown, hextends⟩, -⟩ := hobject object h
  have hls := SourceLine.ofLines?_eq_some_iff_readFrom.mpr hread
  rw [hf] at hls
  cases hls
  refine ⟨object, h, hextends.code.trans hown.code, ?_, ?_, ?_⟩
  · exact (hextends.symbols "f" 0).mpr (.inl ((hown.symbols "f" 0).mpr ⟨[], _, [], rfl, by decide, rfl⟩))
  · exact (hextends.symbols "b" 1).mpr (.inr (by rw [hknown]; decide))
  · intro hsecond
    obtain ⟨ls, hread, -, -, hexports⟩ := (hsource "c: ret").1.mp hsecond
    have hls := SourceLine.ofLines?_eq_some_iff_readFrom.mpr hread
    rw [hc] at hls
    cases hls
    exact absurd (hexports "f" (by decide)) (by decide)

end StepLang
