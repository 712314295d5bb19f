import StepLang.Assembly.Assembler
import StepLang.Proofs.Contents

/-!
# Where the assembler puts things

The lines of a text are read one by one and apart from each other. The survey takes a text exactly when all
of its lines can be read and their labels are new, and the second reading then takes it too. So assembling
succeeds exactly when moreover every export is a label, and its object is told by the lines alone: the bytes
of the lines in order, each instruction at the sum of the lengths before it, each label at the address of
its line.
-/

namespace StepLang

/-- A line as it was read, with its number. -/
structure SourceLine where
  number : Nat
  labels : List Text
  content : Content

namespace SourceLine

def ofText? (number : Nat) (t : Text) : Option SourceLine :=
  match Line.parse t with
  | .error _ => none
  | .ok line =>
    match line.content with
    | .error _ => none
    | .ok content => some ⟨number, line.labels, content⟩

theorem ofText?_of_parse {number : Nat} {t : Text} {line : Line} {content : Content}
    (hline : Line.parse t = .ok line)
    (hcontent : line.content = .ok content) : ofText? number t = some ⟨number, line.labels, content⟩ := by
  simp only [ofText?, hline, hcontent]

/-- The text is read as the line, whatever its number is. -/
def Reads (t : Text) (l : SourceLine) : Prop :=
  ∃ line, Line.parse t = .ok line ∧ line.labels = l.labels ∧ line.Means l.content

theorem ofText?_eq_some_iff {number : Nat} {t : Text} {l : SourceLine} :
    ofText? number t = some l ↔ l.number = number ∧ Reads t l := by
  constructor
  · intro h
    unfold ofText? at h
    split at h
    · cases h
    rename_i line hline
    split at h
    · cases h
    rename_i content hcontent
    cases h
    exact ⟨rfl, line, hline, rfl, Line.content_eq_ok_iff.mp hcontent⟩
  · rintro ⟨rfl, line, hline, hlabels, hmeans⟩
    rw [ofText?_of_parse hline (Line.content_eq_ok_iff.mpr hmeans), hlabels]

def ofLines? (number : Nat) : List Text → Option (List SourceLine)
  | [] => some []
  | t :: rest =>
    match ofText? number t, ofLines? (number + 1) rest with
    | some l, some ls => some (l :: ls)
    | _, _ => none

theorem ofLines?_cons {number : Nat} {t : Text} {ts : List Text} {ls : List SourceLine} :
    ofLines? number (t :: ts) = some ls ↔
      ∃ l rest, ofText? number t = some l ∧ ofLines? (number + 1) ts = some rest ∧ ls = l :: rest := by
  rw [ofLines?]
  cases ofText? number t with
  | none => simp
  | some l =>
    cases ofLines? (number + 1) ts with
    | none => simp
    | some rest => simp [eq_comm]

def size (l : SourceLine) : Nat := l.content.bytes.length

def code (ls : List SourceLine) : List UInt8 := ls.flatMap fun l => l.content.bytes

def labelled (ls : List SourceLine) : List Text := ls.flatMap labels

def offset? (label : Text) (address : Nat) : List SourceLine → Option Nat
  | [] => none
  | l :: rest => if label ∈ l.labels then some address else offset? label (address + l.size) rest

/-- The addresses of the instructions with the numbers of their lines. -/
def mapFrom (address : Nat) : List SourceLine → List (Nat × Nat)
  | [] => []
  | l :: rest =>
    match l.content with
    | .code _ _ => (address, l.number) :: mapFrom (address + l.size) rest
    | _ => mapFrom (address + l.size) rest

theorem mapFrom_cons (address : Nat) (l : SourceLine) (ls : List SourceLine) :
    mapFrom address (l :: ls) = mapFrom address [l] ++ mapFrom (address + l.size) ls := by
  simp only [mapFrom]
  cases l.content <;> simp

theorem code_append (before rest : List SourceLine) : code (before ++ rest) = code before ++ code rest := by
  simp [code]

theorem mapFrom_append (address : Nat) (before rest : List SourceLine) :
    mapFrom address (before ++ rest) = mapFrom address before ++
    mapFrom (address + (code before).length) rest := by
  induction before generalizing address with
  | nil => simp [mapFrom, code]
  | cons l before ih =>
    rw [List.cons_append, mapFrom_cons, ih, mapFrom_cons address l before, List.append_assoc]
    simp [code, size, Nat.add_assoc]

def Encoded (ls : List SourceLine) : Prop :=
  ∀ l ∈ ls, ∀ i bs, l.content = .code i bs → i.encode? = some bs

theorem ofLines?_encoded {number : Nat} {ts : List Text} {ls : List SourceLine}
    (h : ofLines? number ts = some ls) :
    Encoded ls := by
  induction ts generalizing number ls with
  | nil =>
    cases h
    simp [Encoded]
  | cons t ts ih =>
    obtain ⟨l, rest, hl, hrest, rfl⟩ := ofLines?_cons.mp h
    obtain ⟨-, line, -, -, hmeans⟩ := ofText?_eq_some_iff.mp hl
    refine List.forall_mem_cons.mpr ⟨?_, ih hrest⟩
    intro i bs hcontent
    rw [hcontent] at hmeans
    exact hmeans.encode

theorem offset?_eq_none {label : Text} {address : Nat} {ls : List SourceLine} :
    offset? label address ls = none ↔ label ∉ labelled ls := by
  induction ls generalizing address with
  | nil => simp [offset?, labelled]
  | cons l ls ih =>
    have hmem : label ∈ labelled (l :: ls) ↔ label ∈ l.labels ∨ label ∈ labelled ls := by simp [labelled]
    rw [offset?, hmem]
    by_cases h : label ∈ l.labels
    · simp [h]
    · simp [h, ih]

end SourceLine

namespace Survey

def addLabels (s : Survey) (names : List Text) : Survey :=
  { s with known.labels := (names.map fun name => (name, s.address)).reverse ++ s.known.labels }

def add (s : Survey) (l : SourceLine) : Survey := (s.addLabels l.labels).count l.content

/-- The names are new to the survey and to each other. -/
def Fresh (s : Survey) (names : List Text) : Prop :=
  names.Nodup ∧ ∀ name ∈ names, s.known.labels.lookup name = none

theorem lookup_map_same (names : List Text) (a : Nat) (name : Text) :
    (names.map fun n => (n, a)).lookup name = if name ∈ names then some a else none := by
  induction names with
  | nil => rfl
  | cons first rest ih =>
    rw [List.map_cons, List.lookup_cons, ih]
    by_cases h : name = first
    · simp [h]
    · simp [h, beq_false_of_ne h]

theorem lookup_addLabels (s : Survey) (names : List Text) (name : Text) :
    (s.addLabels names).known.labels.lookup name =
      if name ∈ names then some s.address else s.known.labels.lookup name := by
  rw [addLabels, List.lookup_append, ← List.map_reverse, lookup_map_same]
  by_cases h : name ∈ names
  · simp [h]
  · simp [h]

theorem addLabels_cons (s : Survey) (name : Text) (names : List Text) :
    s.addLabels (name :: names) = (s.addLabels [name]).addLabels names := by
  simp [addLabels]

theorem define_cons (s : Survey) (name : Text) (names : List Text) :
    s.define (name :: names) =
      if (s.known.labels.lookup name).isSome then (s, .error (.duplicateLabel name))
      else (s.addLabels [name]).define names := by
  rw [define]
  rfl

theorem fresh_cons (s : Survey) (name : Text) (names : List Text) :
    s.Fresh (name :: names) ↔ s.known.labels.lookup name = none ∧ (s.addLabels [name]).Fresh names := by
  simp only [Fresh, List.nodup_cons, List.forall_mem_cons, lookup_addLabels, List.mem_singleton]
  constructor
  · rintro ⟨⟨hnot, hnodup⟩, hname, hrest⟩
    refine ⟨hname, hnodup, ?_⟩
    intro other hother
    rw [if_neg (by rintro rfl; exact hnot hother)]
    exact hrest other hother
  · rintro ⟨hname, hnodup, hrest⟩
    have hne : ∀ other ∈ names, other ≠ name := by
      rintro other hother rfl
      simpa using hrest other hother
    refine ⟨⟨fun h => hne name h rfl, hnodup⟩, hname, ?_⟩
    intro other hother
    simpa [hne other hother] using hrest other hother

theorem define_eq_ok_iff {s s' : Survey} {names : List Text} :
    s.define names = (s', .ok ()) ↔ s.Fresh names ∧ s' = s.addLabels names := by
  induction names generalizing s with
  | nil =>
    simp only [define, Fresh, addLabels, Prod.mk.injEq, and_true, List.nodup_nil,
      List.not_mem_nil, false_implies, implies_true, true_and, List.map_nil, List.reverse_nil,
      List.nil_append]
    exact eq_comm
  | cons name names ih =>
    rw [define_cons, fresh_cons, addLabels_cons s name names]
    cases hl : s.known.labels.lookup name with
    | none => simpa using ih
    | some a => simp

theorem takeLine_eq_ok_iff {s s' : Survey} {number : Nat} {t : Text} :
    s.takeLine t = (s', .ok ()) ↔
      ∃ l, SourceLine.ofText? number t = some l ∧ s.Fresh l.labels ∧ s' = s.add l := by
  unfold takeLine SourceLine.ofText?
  cases Line.parse t with
  | error e => simp
  | ok line =>
    simp only
    cases hs : s.define line.labels with
    | mk next result =>
      cases result with
      | error e =>
        have hnot : ¬ s.Fresh line.labels := by
          intro hf
          rw [define_eq_ok_iff.mpr ⟨hf, rfl⟩] at hs
          simp at hs
        cases line.content with
        | error e => simp
        | ok content => simp [hnot]
      | ok u =>
        obtain ⟨hf, rfl⟩ := define_eq_ok_iff.mp hs
        cases line.content with
        | error e => simp
        | ok content => simp [hf, add, eq_comm]

theorem lookup_add (s : Survey) (l : SourceLine) (name : Text) :
    (s.add l).known.labels.lookup name =
      if name ∈ l.labels then some s.address else s.known.labels.lookup name := by
  rw [← lookup_addLabels]
  unfold add count
  cases l.content <;> rfl

theorem fresh_append (s : Survey) (l : SourceLine) (names : List Text) :
    s.Fresh (l.labels ++ names) ↔ s.Fresh l.labels ∧ (s.add l).Fresh names := by
  simp only [Fresh, List.nodup_append, List.forall_mem_append, lookup_add]
  constructor
  · rintro ⟨⟨hl, hn, hdis⟩, hlnew, hnnew⟩
    refine ⟨⟨hl, hlnew⟩, hn, ?_⟩
    intro name hname
    rw [if_neg fun hmem => hdis name hmem name hname rfl]
    exact hnnew name hname
  · rintro ⟨⟨hl, hlnew⟩, hn, hnew⟩
    have hdis : ∀ name ∈ names, name ∉ l.labels := by
      intro name hname hmem
      simpa [hmem] using hnew name hname
    refine ⟨⟨hl, hn, ?_⟩, hlnew, ?_⟩
    · rintro a ha b hb rfl
      exact hdis a hb ha
    · intro name hname
      simpa [hdis name hname] using hnew name hname

theorem fresh_nil (s : Survey) : s.Fresh [] := ⟨List.nodup_nil, by simp⟩

/-- A text is taken exactly when its lines can be read and bring new labels only. -/
theorem takeLines_eq_ok_iff {s s' : Survey} {number : Nat} {ts : List Text} :
    s.takeLines number ts = (s', .ok ()) ↔
      ∃ ls, SourceLine.ofLines? number ts = some ls ∧ s.Fresh (SourceLine.labelled ls) ∧
      s' = ls.foldl add s := by
  induction ts generalizing s number with
  | nil =>
    constructor
    · intro h
      cases h
      exact ⟨[], rfl, fresh_nil _, rfl⟩
    · rintro ⟨ls, hls, -, rfl⟩
      cases hls
      rfl
  | cons t ts ih =>
    constructor
    · intro h
      rw [takeLines] at h
      split at h
      · simp at h
      · rename_i next ht
        obtain ⟨l, hl, hf, rfl⟩ := takeLine_eq_ok_iff.mp ht
        obtain ⟨ls, hls, hfs, rfl⟩ := ih.mp h
        exact ⟨l :: ls, SourceLine.ofLines?_cons.mpr ⟨l, ls, hl, hls, rfl⟩,
          (fresh_append s l _).mpr ⟨hf, hfs⟩, rfl⟩
    · rintro ⟨ls, hls, hf, rfl⟩
      obtain ⟨l, rest, hl, hrest, rfl⟩ := SourceLine.ofLines?_cons.mp hls
      obtain ⟨hf, hfs⟩ := (fresh_append s l _).mp hf
      rw [takeLines, takeLine_eq_ok_iff.mpr ⟨l, hl, hf, rfl⟩]
      exact ih.mpr ⟨rest, hrest, hfs, rfl⟩

theorem address_add (s : Survey) (l : SourceLine) : (s.add l).address = s.address + l.size := by
  unfold add count SourceLine.size
  cases l.content <;> rfl

theorem globals_add (s : Survey) (l : SourceLine) :
    (s.add l).known.globals.reverse = s.known.globals.reverse ++ l.content.exported := by
  unfold add count
  cases l.content <;> simp [Content.exported, addLabels]

theorem globals_foldl (s : Survey) (ls : List SourceLine) :
    (ls.foldl add s).known.globals.reverse =
      s.known.globals.reverse ++ ls.flatMap fun l => l.content.exported := by
  induction ls generalizing s with
  | nil => simp
  | cons l ls ih =>
    rw [List.foldl_cons, ih, globals_add]
    simp

/-- Where all labels are new none hides another, so each is at the address of its line. -/
theorem lookup_foldl {s : Survey} {ls : List SourceLine}
    (h : s.Fresh (SourceLine.labelled ls)) (name : Text) :
    (ls.foldl add s).known.labels.lookup name =
      (s.known.labels.lookup name).or (SourceLine.offset? name s.address ls) := by
  induction ls generalizing s with
  | nil => simp [SourceLine.offset?]
  | cons l ls ih =>
    obtain ⟨hl, hls⟩ := (fresh_append s l _).mp h
    rw [List.foldl_cons, ih hls, lookup_add, address_add, SourceLine.offset?]
    by_cases hmem : name ∈ l.labels
    · simp [hmem, hl.2 name hmem]
    · simp [hmem]

theorem address_foldl (s : Survey) (ls : List SourceLine) :
    (ls.foldl add s).address = s.address + (SourceLine.code ls).length := by
  induction ls generalizing s with
  | nil => rfl
  | cons l ls ih =>
    rw [List.foldl_cons, ih, address_add]
    simp [SourceLine.code, SourceLine.size, Nat.add_assoc]

end Survey

namespace Draft

def emit (d : Draft) (l : SourceLine) : Draft := d.place l.number l.content

theorem takeLine_of_some {number : Nat} {t : Text} {l : SourceLine} (h : SourceLine.ofText? number t = some l)
    (d : Draft) : d.takeLine number t = .ok (d.emit l) := by
  obtain ⟨hnumber, line, hline, -, hmeans⟩ := SourceLine.ofText?_eq_some_iff.mp h
  simp only [takeLine, hline, emit, hnumber]
  unfold Line.Means at hmeans
  cases hc : line.command with
  | none =>
    simp only [hc] at hmeans
    rw [hmeans]
    rfl
  | some c =>
    simp only [hc] at hmeans ⊢
    generalize l.content = content at hmeans
    cases hmeans with
    | textSection => rfl
    | exports _ => rfl
    | code hi hbytes =>
      rw [Command.isDirective_of_spells hi, Command.instruction_of_spells hi hbytes]
      rfl

theorem takeLines_of_some {number : Nat} {ts : List Text} {ls : List SourceLine}
    (h : SourceLine.ofLines? number ts = some ls) (d : Draft) :
    d.takeLines number ts = .ok (ls.foldl emit d) := by
  induction ts generalizing d number ls with
  | nil =>
    cases h
    rfl
  | cons t ts ih =>
    obtain ⟨l, rest, hl, hrest, rfl⟩ := SourceLine.ofLines?_cons.mp h
    rw [takeLines, takeLine_of_some hl]
    exact ih hrest _

theorem known_emit (d : Draft) (l : SourceLine) : (d.emit l).known = d.known := by
  unfold emit place
  cases l.content <;> rfl

theorem address_emit (d : Draft) (l : SourceLine) : (d.emit l).address = d.address + l.size := by
  unfold emit place SourceLine.size
  cases l.content <;> rfl

theorem code_emit (d : Draft) (l : SourceLine) :
    (d.emit l).chunks.reverse.flatten = d.chunks.reverse.flatten ++ l.content.bytes := by
  unfold emit place
  cases l.content <;> simp [Content.bytes]

theorem sourceMap_emit (d : Draft) (l : SourceLine) :
    (d.emit l).sourceMap.reverse = d.sourceMap.reverse ++ SourceLine.mapFrom d.address [l] := by
  unfold emit place SourceLine.mapFrom
  cases l.content <;> simp [SourceLine.mapFrom]

theorem known_foldl (d : Draft) (ls : List SourceLine) : (ls.foldl emit d).known = d.known := by
  induction ls generalizing d with
  | nil => rfl
  | cons l ls ih => rw [List.foldl_cons, ih, known_emit]

theorem address_foldl (d : Draft) (ls : List SourceLine) :
    (ls.foldl emit d).address = d.address + (SourceLine.code ls).length := by
  induction ls generalizing d with
  | nil => rfl
  | cons l ls ih =>
    rw [List.foldl_cons, ih, address_emit]
    simp [SourceLine.code, SourceLine.size, Nat.add_assoc]

theorem code_foldl (d : Draft) (ls : List SourceLine) :
    (ls.foldl emit d).chunks.reverse.flatten = d.chunks.reverse.flatten ++ SourceLine.code ls := by
  induction ls generalizing d with
  | nil => simp [SourceLine.code]
  | cons l ls ih =>
    rw [List.foldl_cons, ih, code_emit]
    simp [SourceLine.code]

theorem sourceMap_foldl (d : Draft) (ls : List SourceLine) :
    (ls.foldl emit d).sourceMap.reverse = d.sourceMap.reverse ++ SourceLine.mapFrom d.address ls := by
  induction ls generalizing d with
  | nil => simp [SourceLine.mapFrom]
  | cons l ls ih =>
    rw [List.foldl_cons, ih, sourceMap_emit, address_emit, SourceLine.mapFrom_cons d.address l ls,
      List.append_assoc]

end Draft

namespace Assembler

def survey (a : Assembler) (ls : List SourceLine) : Survey := ls.foldl Survey.add (.start a)

def draft (a : Assembler) (ls : List SourceLine) : Draft := ls.foldl Draft.emit (.start (a.survey ls).known)

theorem undefined?_eq_none {a : Assembler} : a.undefined? = none ↔ ∀ name ∈ a.globals,
    a.labels.lookup name ≠ none := by
  rw [undefined?, List.find?_eq_none]
  simp only [List.mem_reverse, Option.isNone_iff_eq_none, ne_eq]

theorem known_assemble (a : Assembler) (source : Text) :
    (a.assemble source).1 = ((Survey.start a).takeLines 1 source.lines).1.known := by
  unfold assemble
  split
  · rename_i hs
    rw [hs]
  · rename_i hs
    rw [hs]
    split
    · rfl
    · split <;> rfl

/-- Whatever is known before, the second reading never fails behind the first. -/
theorem assemble_eq_ok_iff {a : Assembler} {source : Text} {object : Object} :
    (a.assemble source).2 = .ok object ↔ ∃ ls, SourceLine.ofLines? 1 source.lines = some ls ∧
      (Survey.start a).Fresh (SourceLine.labelled ls) ∧ (a.survey ls).known.undefined? = none ∧
      object = (a.draft ls).toObject := by
  unfold assemble
  constructor
  · intro h
    cases ht : (Survey.start a).takeLines 1 source.lines with
    | mk s result =>
      rw [ht] at h
      cases result with
      | error e => simp at h
      | ok u =>
        obtain ⟨ls, hls, hf, hs⟩ := Survey.takeLines_eq_ok_iff.mp ht
        change s = a.survey ls at hs
        subst hs
        cases hu : (a.survey ls).known.undefined? with
        | some name => simp [hu] at h
        | none =>
          simp only [hu, Draft.takeLines_of_some hls, Except.ok.injEq] at h
          exact ⟨ls, hls, hf, hu, h.symm⟩
  · rintro ⟨ls, hls, hf, hu, rfl⟩
    have ht : (Survey.start a).takeLines 1 source.lines = (a.survey ls, .ok ()) :=
      Survey.takeLines_eq_ok_iff.mpr ⟨ls, hls, hf, rfl⟩
    simp only [ht, hu, Draft.takeLines_of_some hls]
    rfl

end Assembler

namespace SourceLine

def exported (ls : List SourceLine) : List Text := ls.flatMap fun l => l.content.exported

/-- The labels are all different, and every export is one of them. -/
def Linked (ls : List SourceLine) : Prop := (labelled ls).Nodup ∧ ∀ name ∈ exported ls, name ∈ labelled ls

def survey (ls : List SourceLine) : Survey := ls.foldl Survey.add (.start .empty)

def draft (ls : List SourceLine) : Draft := ls.foldl Draft.emit (.start (survey ls).known)

theorem known_draft (ls : List SourceLine) : (draft ls).known = (survey ls).known := Draft.known_foldl _ ls

theorem fresh_start {names : List Text} : (Survey.start .empty).Fresh names ↔ names.Nodup := by
  simp [Survey.Fresh, Survey.start, Assembler.empty]

theorem lookup_survey {ls : List SourceLine} (h : (labelled ls).Nodup) (name : Text) :
    (survey ls).known.labels.lookup name = offset? name 0 ls := by
  rw [survey, Survey.lookup_foldl (fresh_start.mpr h)]
  rfl

theorem lookup_draft {ls : List SourceLine} (h : (labelled ls).Nodup) (name : Text) :
    (draft ls).known.labels.lookup name = offset? name 0 ls := by
  rw [known_draft, lookup_survey h]

theorem globals_survey (ls : List SourceLine) : (survey ls).known.globals.reverse = exported ls :=
  Survey.globals_foldl _ ls

theorem undefined?_survey {ls : List SourceLine} (h : (labelled ls).Nodup) :
    (survey ls).known.undefined? = none ↔ ∀ name ∈ exported ls, name ∈ labelled ls := by
  rw [Assembler.undefined?, globals_survey, List.find?_eq_none]
  simp only [lookup_survey h, Option.isNone_iff_eq_none, offset?_eq_none, Decidable.not_not]

end SourceLine

theorem assemble_eq_ok_iff {source : Text} {object : Object} :
    assemble source = .ok object ↔ ∃ ls, SourceLine.ofLines? 1 source.lines = some ls ∧ SourceLine.Linked ls ∧
      object = (SourceLine.draft ls).toObject := by
  rw [assemble, Assembler.assemble_eq_ok_iff]
  constructor
  · rintro ⟨ls, hls, hf, hu, hobject⟩
    have hnodup := SourceLine.fresh_start.mp hf
    exact ⟨ls, hls, ⟨hnodup, (SourceLine.undefined?_survey hnodup).mp hu⟩, hobject⟩
  · rintro ⟨ls, hls, hlinked, hobject⟩
    exact ⟨ls, hls, SourceLine.fresh_start.mpr hlinked.1,
      (SourceLine.undefined?_survey hlinked.1).mpr hlinked.2, hobject⟩

theorem code_toObject (ls : List SourceLine) : (SourceLine.draft ls).toObject.code = SourceLine.code ls :=
  Draft.code_foldl _ ls

theorem sourceMap_toObject (ls : List SourceLine) :
    (SourceLine.draft ls).toObject.sourceMap = SourceLine.mapFrom 0 ls := Draft.sourceMap_foldl _ ls

end StepLang
