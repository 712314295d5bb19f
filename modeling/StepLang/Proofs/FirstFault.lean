import StepLang.Proofs.Reuse

/-!
# The first line at fault

The error of a text names its first line that is at fault, and only that line and those before it decide
about it: the labels that they put down are all that a line is judged by. Exports are looked at behind the
last line, so an export that is no label is reported only where no line is at fault.
-/

namespace StepLang

namespace Text

/-- The text cut behind its first lines, without the line break there. -/
def firstLines (n : Nat) (t : Text) : Text := [newline].intercalate (t.lines.take n)

theorem lines_firstLines {n : Nat} {t : Text} (h : t.lines.take n ≠ []) :
    (firstLines n t).lines = t.lines.take n := by
  apply List.splitOn_intercalate newline
  · intro line hline
    exact newline_notMem_of_mem_lines (List.mem_of_mem_take hline)
  · exact h

end Text

namespace Line

/-- The labels that a text has as a line; none where it cannot be read. -/
def labelsOf (t : Text) : List Text :=
  match parse t with
  | .ok line => line.labels
  | .error _ => []

/-- What is wrong with a text as a line where the labels `known` stand before it: it cannot be read, or its
first label that is not new is taken, or its labels are new and what stands behind them is no content. -/
inductive Offends (known : List Text) (t : Text) : LineFault → Prop where
  | unread {fault : LineFault} (hline : parse t = .error fault) : Offends known t fault
  | taken {line : Line} {front more : List Text} {name : Text} (hline : parse t = .ok line)
      (hlabels : line.labels = front ++ name :: more) (hdistinct : front.Nodup)
      (hfresh : ∀ other ∈ front, other ∉ known) (hname : name ∈ known ∨ name ∈ front) :
      Offends known t (.duplicateLabel name)
  | meaningless {line : Line} {fault : LineFault} (hline : parse t = .ok line) (hdistinct : line.labels.Nodup)
      (hfresh : ∀ name ∈ line.labels, name ∉ known)
      (hcontent : line.content = .error fault) : Offends known t fault

/-- No line is at fault where the labels `known` and those of the lines before it stand. -/
def Clean (known : List Text) (ts : List Text) : Prop :=
  ∀ before t rest, ts = before ++ t :: rest → ∀ fault, ¬ Offends (known ++ before.flatMap labelsOf) t fault

theorem clean_nil (known : List Text) : Clean known [] := by
  intro before t rest h
  simp at h

theorem clean_cons {known : List Text} {t : Text} {ts : List Text} :
    Clean known (t :: ts) ↔ (∀ fault, ¬ Offends known t fault) ∧ Clean (known ++ labelsOf t) ts := by
  constructor
  · intro h
    constructor
    · have hfirst := h [] t ts rfl
      rwa [List.flatMap_nil, List.append_nil] at hfirst
    · intro before u rest hts
      have hlater := h (t :: before) u rest (by rw [hts, List.cons_append])
      rwa [List.flatMap_cons, ← List.append_assoc] at hlater
  · intro ⟨hfirst, hlater⟩ before u rest hts
    cases before with
    | nil =>
      cases hts
      rw [List.flatMap_nil, List.append_nil]
      exact hfirst
    | cons v before =>
      cases hts
      rw [List.flatMap_cons, ← List.append_assoc]
      exact hlater before u rest rfl

theorem not_offends_nil (known : List Text) (fault : LineFault) : ¬ Offends known [] fault := by
  have hblank : parse [] = .ok ⟨[], none⟩ := parse_of_notMem List.not_mem_nil List.not_mem_nil
  intro h
  cases h with
  | unread hline =>
    rw [hblank] at hline
    cases hline
  | taken hline hlabels =>
    rw [hblank] at hline
    cases hline
    simp at hlabels
  | meaningless hline _ _ hcontent =>
    rw [hblank] at hline
    cases hline
    cases hcontent

end Line

namespace Survey

theorem names_addLabels (s : Survey) (names : List Text) :
    (s.addLabels names).known.names = s.known.names ++ names := by
  simp [addLabels, Assembler.names, Function.comp_def]

theorem define_taken {s : Survey} {front : List Text} {name : Text} (hfront : s.Fresh front)
    (hname : name ∈ s.known.names ∨ name ∈ front) (more : List Text) :
    s.define (front ++ name :: more) = (s.addLabels front, .error (.duplicateLabel name)) := by
  induction front generalizing s with
  | nil =>
    have hknown : name ∈ s.known.names := hname.resolve_right List.not_mem_nil
    have hsome : (s.known.labels.lookup name).isSome = true := by
      rw [Option.isSome_iff_ne_none, ne_eq, Assembler.lookup_eq_none]
      exact not_not_intro hknown
    rw [List.nil_append, define_cons, if_pos hsome, addLabels_nil]
  | cons first front ih =>
    obtain ⟨hfirst, hrest⟩ := (fresh_cons s first front).mp hfront
    have hlater : name ∈ (s.addLabels [first]).known.names ∨ name ∈ front := by
      rw [names_addLabels, List.mem_append, List.mem_singleton]
      rcases hname with hknown | hmem
      · exact Or.inl (Or.inl hknown)
      · rcases List.mem_cons.mp hmem with heq | hmem
        · exact Or.inl (Or.inr heq)
        · exact Or.inr hmem
    rw [List.cons_append, define_cons, if_neg (by simp [hfirst]), ih hrest hlater,
      addLabels_cons s first front]

theorem takeLine_eq_error_iff {s : Survey} {t : Text} {fault : LineFault} :
    (∃ next, s.takeLine t = (next, .error fault)) ↔ Line.Offends s.known.names t fault := by
  constructor
  · intro ⟨next, h⟩
    rcases takeLine_cases s 0 t with ⟨l, -, -, htake⟩ | ⟨names, other, hfresh, hstops, htake⟩
    · rw [htake] at h
      cases h
    · rw [htake] at h
      cases h
      obtain ⟨hdistinct, hnew⟩ := fresh_iff.mp hfresh
      cases hstops [] with
      | unread hline hnames => exact .unread hline
      | taken hline hlabels hname => exact .taken hline hlabels hdistinct hnew hname
      | meaningless hline hlabels hcontent =>
        dsimp only at hlabels
        subst hlabels
        exact .meaningless hline hdistinct hnew hcontent
  · intro h
    unfold takeLine
    cases h with
    | unread hline =>
      rw [hline]
      exact ⟨s, rfl⟩
    | taken hline hlabels hdistinct hnew hname =>
      have hdefine := define_taken (fresh_iff.mpr ⟨hdistinct, hnew⟩) hname
      simp only [hline, hlabels, hdefine]
      exact ⟨_, rfl⟩
    | meaningless hline hdistinct hnew hcontent =>
      have hdefine := define_eq_ok_iff.mpr ⟨fresh_iff.mpr ⟨hdistinct, hnew⟩, rfl⟩
      simp only [hline, hdefine, hcontent]
      exact ⟨_, rfl⟩

theorem names_of_takeLine {s next : Survey} {t : Text} (h : s.takeLine t = (next, .ok ())) :
    next.known.names = s.known.names ++ Line.labelsOf t := by
  rcases takeLine_cases s 0 t with ⟨l, hl, -, htake⟩ | ⟨names, fault, -, -, htake⟩
  · rw [htake] at h
    cases h
    obtain ⟨-, line, hline, hlabels, -⟩ := SourceLine.ofText?_eq_some_iff.mp hl
    have hof : Line.labelsOf t = l.labels := by
      rw [Line.labelsOf, hline]
      exact hlabels
    rw [hof, ← names_addLabels, add]
    cases l.content <;> rfl
  · rw [htake] at h
    cases h

theorem not_offends_of_takeLine {s next : Survey} {t : Text} (h : s.takeLine t = (next, .ok ()))
    (fault : LineFault) :
    ¬ Line.Offends s.known.names t fault := by
  intro hfault
  obtain ⟨_, hrefused⟩ := takeLine_eq_error_iff.mpr hfault
  rw [h] at hrefused
  cases hrefused

theorem takeLines_append {s mid : Survey} {number : Nat} {front : List Text}
    (h : s.takeLines number front = (mid, .ok ())) (rest : List Text) :
    s.takeLines number (front ++ rest) = mid.takeLines (number + front.length) rest := by
  induction front generalizing s number with
  | nil =>
    cases h
    rfl
  | cons t front ih =>
    rw [takeLines] at h
    cases htake : s.takeLine t with
    | mk next result =>
      rw [htake] at h
      cases result with
      | error fault => cases h
      | ok u =>
        rw [List.cons_append, takeLines, htake, List.length_cons]
        simp only
        rw [ih h]
        congr 1
        omega

theorem clean_of_takeLines {s last : Survey} {number : Nat} {ts : List Text}
    (h : s.takeLines number ts = (last, .ok ())) : Line.Clean s.known.names ts := by
  induction ts generalizing s number with
  | nil => exact Line.clean_nil _
  | cons t ts ih =>
    rw [takeLines] at h
    cases htake : s.takeLine t with
    | mk next result =>
      rw [htake] at h
      cases result with
      | error fault => cases h
      | ok u =>
        have hlater := ih h
        rw [names_of_takeLine htake] at hlater
        exact Line.clean_cons.mpr ⟨not_offends_of_takeLine htake, hlater⟩

theorem takeLines_of_clean {s : Survey} {ts : List Text} (h : Line.Clean s.known.names ts) (number : Nat) :
    ∃ last, s.takeLines number ts = (last, .ok ()) ∧
    last.known.names = s.known.names ++ ts.flatMap Line.labelsOf := by
  induction ts generalizing s number with
  | nil => exact ⟨s, rfl, (List.append_nil _).symm⟩
  | cons t ts ih =>
    obtain ⟨hfirst, hlater⟩ := Line.clean_cons.mp h
    cases htake : s.takeLine t with
    | mk next result =>
      cases result with
      | error fault => exact absurd (takeLine_eq_error_iff.mp ⟨next, htake⟩) (hfirst fault)
      | ok u =>
        have hnames := names_of_takeLine htake
        rw [← hnames] at hlater
        obtain ⟨last, hlast, hall⟩ := ih hlater (number + 1)
        refine ⟨last, ?_, ?_⟩
        · rw [takeLines, htake]
          exact hlast
        · rw [hall, hnames, List.flatMap_cons, List.append_assoc]

/-- A survey that does not go through stops at the first line at fault, and at no other. -/
theorem takeLines_eq_error {s last : Survey} {number : Nat} {ts : List Text} {e : AssemblyError}
    (h : s.takeLines number ts = (last, .error e)) :
    ∃ before t rest fault, ts = before ++ t :: rest ∧ e = .line (number + before.length) fault ∧
      Line.Clean s.known.names before ∧
      Line.Offends (s.known.names ++ before.flatMap Line.labelsOf) t fault := by
  induction ts generalizing s number with
  | nil => cases h
  | cons t ts ih =>
    rw [takeLines] at h
    cases htake : s.takeLine t with
    | mk next result =>
      rw [htake] at h
      cases result with
      | error fault =>
        cases h
        refine ⟨[], t, ts, fault, rfl, rfl, Line.clean_nil _, ?_⟩
        rw [List.flatMap_nil, List.append_nil]
        exact takeLine_eq_error_iff.mp ⟨_, htake⟩
      | ok u =>
        obtain ⟨before, v, rest, fault, rfl, rfl, hclean, hoffends⟩ := ih h
        rw [names_of_takeLine htake] at hclean hoffends
        refine ⟨t :: before, v, rest, fault, rfl, ?_, ?_, ?_⟩
        · rw [List.length_cons, Nat.add_assoc, Nat.add_comm 1]
        · exact Line.clean_cons.mpr ⟨not_offends_of_takeLine htake, hclean⟩
        · rwa [List.flatMap_cons, ← List.append_assoc]

theorem takeLines_of_offends {s : Survey} {before : List Text} {t : Text} {fault : LineFault}
    (hclean : Line.Clean s.known.names before)
    (h : Line.Offends (s.known.names ++ before.flatMap Line.labelsOf) t fault) (number : Nat)
    (rest : List Text) :
    ∃ last, s.takeLines number (before ++ t :: rest) =
    (last, .error (.line (number + before.length) fault)) := by
  obtain ⟨mid, hmid, hnames⟩ := takeLines_of_clean hclean number
  rw [← hnames] at h
  obtain ⟨last, hlast⟩ := takeLine_eq_error_iff.mpr h
  refine ⟨last, ?_⟩
  rw [takeLines_append hmid, takeLines, hlast]

end Survey

namespace Text

/-- The line with the number is at fault, where the labels of the lines before it stand. -/
def FaultAt (source : Text) (k : Nat) (fault : LineFault) : Prop :=
  ∃ before t rest, source.lines = before ++ t :: rest ∧ k = before.length + 1 ∧
    Line.Offends (before.flatMap Line.labelsOf) t fault

structure FirstFault (source : Text) (k : Nat) (fault : LineFault) : Prop where
  atFault : source.FaultAt k fault
  least : ∀ j other, source.FaultAt j other → k ≤ j

theorem not_faultAt_of_clean {source : Text} (h : Line.Clean [] source.lines) (k : Nat) (fault : LineFault) :
    ¬ source.FaultAt k fault := by
  intro ⟨before, t, rest, hlines, _, hoffends⟩
  exact h before t rest hlines fault hoffends

theorem firstFault_iff {source : Text} {k : Nat} {fault : LineFault} :
    source.FirstFault k fault ↔ ∃ before t rest, source.lines = before ++ t :: rest ∧ k = before.length + 1 ∧
      Line.Clean [] before ∧ Line.Offends (before.flatMap Line.labelsOf) t fault := by
  constructor
  · intro ⟨⟨before, t, rest, hlines, hk, hoffends⟩, hleast⟩
    refine ⟨before, t, rest, hlines, hk, ?_, hoffends⟩
    intro front u back hbefore other hother
    have hle := hleast (front.length + 1) other
      ⟨front, u, back ++ t :: rest, by rw [hlines, hbefore, List.append_assoc, List.cons_append], rfl, hother⟩
    rw [hk, hbefore, List.length_append, List.length_cons] at hle
    omega
  · intro ⟨before, t, rest, hlines, hk, hclean, hoffends⟩
    refine ⟨⟨before, t, rest, hlines, hk, hoffends⟩, ?_⟩
    intro j other ⟨front, u, back, hsplit, hj, hother⟩
    apply Nat.le_of_not_lt
    intro hlt
    rw [hlines] at hsplit
    rcases List.append_eq_append_iff.mp hsplit with ⟨more, hfront, hmore⟩ | ⟨more, hbefore, hmore⟩
    · rw [hfront, List.length_append] at hj
      omega
    · cases more with
      | nil =>
        rw [hbefore, List.append_nil] at hk
        omega
      | cons v more =>
        cases hmore
        exact hclean front u more hbefore other hother

end Text

/-- The first of the exports that is none of the labels. -/
def FirstUndefined (exports labels : List Text) (name : Text) : Prop :=
  ∃ front more, exports = front ++ name :: more ∧ (∀ other ∈ front, other ∈ labels) ∧ name ∉ labels

theorem SourceLine.undefined?_survey_eq_some_iff {ls : List SourceLine}
    (h : (labelled ls).Nodup) {name : Text} :
    (survey ls).known.undefined? = some name ↔ FirstUndefined (exported ls) (labelled ls) name := by
  have hdefined : ∀ other, (offset? other 0 ls).isSome = true ↔ other ∈ labelled ls := by
    intro other
    rw [Option.isSome_iff_ne_none, ne_eq, offset?_eq_none, Decidable.not_not]
  rw [Assembler.undefined?, globals_survey, List.find?_eq_some_iff_append]
  simp only [lookup_survey h, Option.isNone_iff_eq_none, offset?_eq_none, Bool.not_eq_true',
    Option.isNone_eq_false_iff, hdefined]
  constructor
  · intro hfind
    obtain ⟨hname, front, more, hexports, hfront⟩ := hfind
    exact ⟨front, more, hexports, hfront, hname⟩
  · intro hfirst
    obtain ⟨front, more, hexports, hfront, hname⟩ := hfirst
    exact ⟨hname, front, more, hexports, hfront⟩

/-- Behind the last line nothing can go wrong but an export that is no label. -/
theorem assemble_of_lines {source : Text} {ls : List SourceLine}
    (h : SourceLine.ofLines? 1 source.lines = some ls) (hlabels : (SourceLine.labelled ls).Nodup) :
    assemble source =
      match (SourceLine.survey ls).known.undefined? with
      | some name => .error (.undefinedGlobal name)
      | none => .ok (SourceLine.draft ls).toObject := by
  have htake : (Survey.start .empty).takeLines 1 source.lines = (SourceLine.survey ls, .ok ()) :=
    Survey.takeLines_eq_ok_iff.mpr ⟨ls, h, SourceLine.fresh_start.mpr hlabels, rfl⟩
  simp only [assemble, Assembler.assemble, htake]
  cases (SourceLine.survey ls).known.undefined? with
  | some name => rfl
  | none =>
    simp only [Draft.takeLines_of_some h]
    rfl

/-- A line is at fault, and the first of them is named, or all lines are read. -/
theorem assemble_cases (source : Text) :
    (∃ k fault, source.FirstFault k fault ∧ assemble source = .error (.line k fault)) ∨
      ((∀ k fault, ¬ source.FaultAt k fault) ∧
        ∃ ls, SourceLine.ofLines? 1 source.lines = some ls ∧ (SourceLine.labelled ls).Nodup) := by
  cases htake : (Survey.start .empty).takeLines 1 source.lines with
  | mk last result =>
    cases result with
    | error e =>
      obtain ⟨before, t, rest, fault, hlines, rfl, hclean, hoffends⟩ := Survey.takeLines_eq_error htake
      have hfirst := Text.firstFault_iff.mpr ⟨before, t, rest, hlines, Nat.add_comm 1 _, hclean, hoffends⟩
      refine Or.inl ⟨_, fault, hfirst, ?_⟩
      rw [assemble, Assembler.assemble, htake]
    | ok u =>
      obtain ⟨ls, hls, hfresh, -⟩ := Survey.takeLines_eq_ok_iff.mp htake
      refine Or.inr ⟨?_, ls, hls, SourceLine.fresh_start.mp hfresh⟩
      exact Text.not_faultAt_of_clean (Survey.clean_of_takeLines htake)

theorem assemble_eq_line_iff {source : Text} {k : Nat} {fault : LineFault} :
    assemble source = .error (.line k fault) ↔ source.FirstFault k fault := by
  constructor
  · intro h
    rcases assemble_cases source with ⟨j, other, hfirst, hassemble⟩ | ⟨-, ls, hls, hlabels⟩
    · rw [hassemble] at h
      cases h
      exact hfirst
    · rw [assemble_of_lines hls hlabels] at h
      cases hundefined : (SourceLine.survey ls).known.undefined? with
      | none =>
        rw [hundefined] at h
        cases h
      | some name =>
        rw [hundefined] at h
        cases h
  · intro h
    obtain ⟨before, t, rest, hlines, rfl, hclean, hoffends⟩ := Text.firstFault_iff.mp h
    obtain ⟨last, htake⟩ := @Survey.takeLines_of_offends (.start .empty) _ _ _ hclean hoffends 1 rest
    rw [assemble, Assembler.assemble, hlines, htake, Nat.add_comm]

theorem assemble_eq_undefinedGlobal_iff {source name : Text} :
    assemble source = .error (.undefinedGlobal name) ↔
      (∀ k fault, ¬ source.FaultAt k fault) ∧ ∃ ls, SourceLine.ReadFrom source ls ∧
        FirstUndefined (SourceLine.exported ls) (SourceLine.labelled ls) name := by
  rcases assemble_cases source with ⟨j, other, hfirst, hassemble⟩ | ⟨hclean, ls, hls, hlabels⟩
  · constructor
    · intro h
      rw [hassemble] at h
      cases h
    · intro ⟨hclean, _⟩
      exact absurd hfirst.atFault (hclean j other)
  · have hname := @SourceLine.undefined?_survey_eq_some_iff ls hlabels name
    constructor
    · intro h
      refine ⟨hclean, ls, SourceLine.ofLines?_eq_some_iff_readFrom.mp hls, hname.mp ?_⟩
      rw [assemble_of_lines hls hlabels] at h
      cases hundefined : (SourceLine.survey ls).known.undefined? with
      | none =>
        rw [hundefined] at h
        cases h
      | some other =>
        rw [hundefined] at h
        cases h
        rfl
    · intro ⟨_, others, hread, hfirst⟩
      have hothers := SourceLine.ofLines?_eq_some_iff_readFrom.mpr hread
      rw [hls, Option.some.injEq] at hothers
      subst hothers
      rw [assemble_of_lines hls hlabels, hname.mpr hfirst]

theorem Text.not_faultAt_firstLines {source : Text} {before rest : List Text}
    (hlines : source.lines = before ++ rest) (hclean : Line.Clean [] before) (k : Nat) (fault : LineFault) :
    ¬ (source.firstLines before.length).FaultAt k fault := by
  have htake : source.lines.take before.length = before := by rw [hlines, List.take_left]
  cases before with
  | nil =>
    apply Text.not_faultAt_of_clean
    exact Line.clean_cons.mpr ⟨Line.not_offends_nil [], Line.clean_nil _⟩
  | cons first before =>
    apply Text.not_faultAt_of_clean
    rw [Text.lines_firstLines, htake]
    · exact hclean
    · rw [htake]
      exact List.cons_ne_nil _ _

theorem LineFault.exists_message_eq (k : Nat) (fault : LineFault) :
    ∃ front back : Text, fault.message k = front ++ (" on line " ++ Numeral.nat k) ++ back := by
  cases fault with
  | unknownInstruction mnemonic => exact ⟨_, _, List.append_assoc _ _ _⟩
  | immediateRange word => exact ⟨_, _, List.append_assoc _ _ _⟩
  | _ => exact ⟨_, [], (List.append_nil _).symm⟩

/-- A text has an error with a line exactly when a line of it is at fault, and then it is that of the first
one. The text before that line has no such error, and all texts that agree up to it have the same one. An
export that is no label is the error exactly when no line is at fault, and it is the first such export. -/
theorem assemble_first_fault :
    (∀ source k fault, assemble source = .error (.line k fault) ↔ source.FirstFault k fault) ∧
    (∀ source k fault, assemble source = .error (.line k fault) →
      (∀ j other, assemble (source.firstLines (k - 1)) ≠ .error (.line j other)) ∧
      ∀ text : Text, text.lines.take k = source.lines.take k → assemble text = .error (.line k fault)) ∧
    (∀ k fault, ∃ front back : Text,
      (AssemblyError.line k fault).message = front ++ (" on line " ++ Numeral.nat k) ++ back) ∧
    ∀ source name, assemble source = .error (.undefinedGlobal name) ↔
      (∀ k fault, ¬ source.FaultAt k fault) ∧ ∃ ls, SourceLine.ReadFrom source ls ∧
        FirstUndefined (SourceLine.exported ls) (SourceLine.labelled ls) name := by
  refine ⟨fun _ _ _ => assemble_eq_line_iff, ?_, fun k fault => fault.exists_message_eq k,
    fun _ _ => assemble_eq_undefinedGlobal_iff⟩
  intro source k fault h
  obtain ⟨before, t, rest, hlines, rfl, hclean, hoffends⟩ :=
    Text.firstFault_iff.mp (assemble_eq_line_iff.mp h)
  constructor
  · intro j other herror
    have hfirst := assemble_eq_line_iff.mp herror
    rw [Nat.add_sub_cancel] at hfirst
    exact Text.not_faultAt_firstLines hlines hclean j other hfirst.atFault
  · intro text htext
    apply assemble_eq_line_iff.mpr
    apply Text.firstFault_iff.mpr
    refine ⟨before, t, text.lines.drop (before.length + 1), ?_, rfl, hclean, hoffends⟩
    have htake : source.lines.take (before.length + 1) = before ++ [t] := by
      rw [hlines, List.append_cons]
      exact List.take_left' (by simp)
    rw [List.append_cons, ← htake, ← htext, List.take_append_drop]

/-- A label that stands twice is the error, whatever is wrong behind it in its line and below. -/
theorem assemble_first_fault_label :
    assemble "global f\na: nop\na: 7\nmov" = .error (.line 3 (.duplicateLabel "a")) ∧
      (∀ j other, assemble "global f\na: nop" ≠ .error (.line j other)) ∧
      assemble "global f\na: nop\na: 7\nf: ret" = .error (.line 3 (.duplicateLabel "a")) ∧
      assemble "global f\na: nop" = .error (.undefinedGlobal "f") ∧
      ∀ k fault, ¬ Text.FaultAt "global f\na: nop" k fault := by
  have hglobal : Line.parse "global f" = .ok ⟨[], some ⟨"GLOBAL", ["f"]⟩⟩ :=
    Line.parse_of_notMem (by decide) (by decide)
  have hnop : Line.parse "a: nop" = .ok ⟨["a"], some ⟨"NOP", []⟩⟩ :=
    Line.parse_label "a" " nop" (by decide) (by decide) (by decide) (by decide)
  have hseven : Line.parse "a: 7" = .ok ⟨["a"], some ⟨"7", []⟩⟩ :=
    Line.parse_label "a" " 7" (by decide) (by decide) (by decide) (by decide)
  have hlines : Text.lines "global f\na: nop\na: 7\nmov" =
      [("global f" : Text), ("a: nop" : Text), ("a: 7" : Text), ("mov" : Text)] := rfl
  have hfault : assemble "global f\na: nop\na: 7\nmov" = .error (.line 3 (.duplicateLabel "a")) := by
    simp only [assemble, Assembler.assemble, hlines, Survey.takeLines, Survey.takeLine, hglobal, hnop, hseven]
    rfl
  have hread : SourceLine.ofLines? 1 (Text.lines "global f\na: nop") =
      some [⟨1, [], .exports ["f"]⟩, ⟨2, ["a"], .code .nop [0x90]⟩] :=
    SourceLine.ofLines?_cons.mpr ⟨_, _, SourceLine.ofText?_of_parse hglobal rfl,
      SourceLine.ofLines?_cons.mpr ⟨_, [], SourceLine.ofText?_of_parse hnop rfl, rfl, rfl⟩, rfl⟩
  have hundefined : assemble "global f\na: nop" = .error (.undefinedGlobal "f") := by
    rw [assemble_of_lines hread (by decide)]
    rfl
  have hshared : (Text.lines "global f\na: nop\na: 7\nf: ret").take 3 =
      (Text.lines "global f\na: nop\na: 7\nmov").take 3 := by
    rw [hlines]
    rfl
  have hcut : Text.firstLines 2 "global f\na: nop\na: 7\nmov" = "global f\na: nop" := by
    rw [Text.firstLines, hlines]
    rfl
  obtain ⟨hbefore, hsame⟩ := assemble_first_fault.2.1 _ _ _ hfault
  rw [show 3 - 1 = 2 from rfl, hcut] at hbefore
  exact ⟨hfault, hbefore, hsame _ hshared, hundefined, ((assemble_first_fault.2.2.2 _ _).mp hundefined).1⟩

end StepLang
