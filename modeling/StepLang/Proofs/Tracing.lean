import Mathlib.Data.List.Chain
import StepLang.Proofs.Consistency
import StepLang.Proofs.Resuming
import StepLang.Proofs.TraceLines

/-!
# Traces of runs

A run records every instruction that it executes, and nothing of an instruction that faults. The records
adjoin each other: together they are the bytes from the entry to where the run stopped, and each shows the
accumulator as the next step finds it. Whether the records are written out or not makes no difference to the
run.
-/

namespace StepLang

namespace Machine

/-- The machine after a number of steps. A machine that has halted stays as it is. -/
def stepped (m : Machine) : Nat → Machine
  | 0 => m
  | n + 1 => (m.stepped n).step.1

theorem stepped_succ (m : Machine) (n : Nat) : m.stepped (n + 1) = m.step.1.stepped n := by
  induction n with
  | zero => rfl
  | succ n ih => rw [stepped, ih, stepped]

/-- Where the instructions end that a run has executed: at the instruction pointer, or where an instruction
that faulted starts. -/
def Ending.stop (e : Ending) : Int :=
  match e.result with
  | .error (.fault f) => f.start
  | _ => e.machine.rip

/-- A run that writes a line for every instruction behind what its trace holds, where it has one. -/
def runOnto (budget : Int64) (held : Option Text) (m : Machine) :
    Machine × Option Text × Except RunError Unit :=
  if m.halted then (m, held, .ok ())
  else if m.exhausted budget then (m, held, .error (.limit budget m.rip))
  else
    match _h : m.step with
    | (after, .error e) => (after, held, .error e)
    | (after, .ok x) => runOnto budget (held.map (· ++ (x.text ++ [Text.newline]))) after
termination_by m.memory.size - m.rip.toNat
decreasing_by
  have := step_ok _h
  rw [this.1]
  omega

theorem rax_of_step {m after : Machine} {x : Executed} (h : m.step = (after, .ok x)) : x.rax = after.rax := by
  by_cases hhalted : m.halted = true
  · rw [step_halted hhalted, Prod.mk.injEq] at h
    cases h.2
  rcases step_cases (Bool.eq_false_iff.mpr hhalted) with
    ⟨cause, consumed, -, hstep⟩ | ⟨i, bytes, back, -, -, hstep⟩
  · rw [hstep, Prod.mk.injEq] at h
    cases h.2
  · rw [hstep] at h
    cases h
    rfl

namespace Runs

variable {budget : Int64} {m last : Machine} {log : List Executed} {result : Except RunError Unit}

theorem runOnto_eq (h : Runs budget m log last result) (held : Option Text) :
    m.runOnto budget held = (last, held.map (· ++ Executed.trace log), result) := by
  have hnone : ∀ held : Option Text, held.map (· ++ Executed.trace []) = held := by
    intro held
    cases held with
    | none => rfl
    | some t => simp [Executed.trace, Text.unlines]
  induction h generalizing held with
  | halted hhalted => rw [runOnto, if_pos hhalted, hnone]
  | limit hrun hspent => rw [runOnto, if_neg (by simp [hrun]), if_pos hspent, hnone]
  | fault hrun hbudget hstep =>
    rw [runOnto, if_neg (by simp [hrun]), if_neg (by simp [hbudget]), hnone]
    split
    · rename_i heq
      rw [hstep] at heq
      cases heq
      rfl
    · rename_i heq
      rw [hstep] at heq
      cases heq
  | @next m after last x log result hrun hbudget hstep rest ih =>
    rw [runOnto, if_neg (by simp [hrun]), if_neg (by simp [hbudget])]
    split
    · rename_i heq
      rw [hstep] at heq
      cases heq
    · rename_i heq
      rw [hstep] at heq
      cases heq
      rw [ih]
      cases held with
      | none => rfl
      | some t => simp [Executed.trace, Text.unlines]

theorem steps_eq (h : Runs budget m log last result) : last.steps = m.steps + .ofNat log.length := by
  induction h with
  | halted _ => exact (Int64.add_zero _).symm
  | limit _ _ => exact (Int64.add_zero _).symm
  | fault hrun _ hstep =>
    obtain ⟨consumed, -, rfl⟩ := step_error hrun hstep
    exact (Int64.add_zero _).symm
  | next _ _ hstep _ ih =>
    rw [ih, steps_of_step hstep, List.length_cons, Nat.add_comm, Int64.ofNat_add, ← Int64.add_assoc]
    rfl

/-- A record starts where the one before it ends, and the first of them at the instruction pointer. -/
theorem adjoin (h : Runs budget m log last result) :
    (∀ x ∈ log.head?, x.offset = m.rip) ∧
      log.IsChain fun x y : Executed => y.offset = x.offset + x.code.length := by
  induction h with
  | halted _ => exact ⟨by simp, .nil⟩
  | limit _ _ => exact ⟨by simp, .nil⟩
  | fault _ _ _ => exact ⟨by simp, .nil⟩
  | @next m after last x log result _ _ hstep _ ih =>
    obtain ⟨hfirst, hchain⟩ := ih
    obtain ⟨i, back, -, -, hoffset, hafter⟩ := step_executed hstep
    have hrip : after.rip = m.rip + x.code.length := by rw [hafter, rip_execute]
    refine ⟨by simp [hoffset], List.isChain_cons.mpr ⟨?_, hchain⟩⟩
    intro y hy
    rw [hfirst y hy, hrip, hoffset]

theorem bytes_eq (h : Runs budget m log last result) (hstart : 0 ≤ m.rip) (hend : m.rip ≤ m.memory.size) :
    ∃ front back, m.memory.toList = front ++ (log.flatMap Executed.code ++ back) ∧ m.rip = front.length ∧
      Ending.stop ⟨last, log, result⟩ = front.length + (log.flatMap Executed.code).length := by
  have hnothing : ∀ {m : Machine}, 0 ≤ m.rip → m.rip ≤ m.memory.size → ∀ {stop : Int}, stop = m.rip →
      ∃ front back : List UInt8, m.memory.toList = front ++ ([] ++ back) ∧ m.rip = front.length ∧
        stop = front.length + ([] : List UInt8).length := by
    intro m hstart hend stop hstop
    refine ⟨m.memory.toList.take m.rip.toNat, m.memory.toList.drop m.rip.toNat, ?_, ?_, ?_⟩
    · rw [List.nil_append, List.take_append_drop]
    · rw [List.length_take, Array.length_toList]
      omega
    · rw [hstop, List.length_take, Array.length_toList, List.length_nil]
      omega
  induction h with
  | halted _ => exact hnothing hstart hend rfl
  | limit _ _ => exact hnothing hstart hend rfl
  | @fault m after e hrun _ hstep =>
    rcases step_cases hrun with ⟨cause, consumed, -, hfault⟩ | ⟨i, bytes, back, -, -, hok⟩
    · rw [hstep] at hfault
      cases hfault
      exact hnothing hstart hend rfl
    · rw [hstep] at hok
      cases hok
  | @next m after last x log result _ _ hstep _ ih =>
    obtain ⟨hmemory, -, -, hinside⟩ := step_ok hstep
    obtain ⟨i, rest, -, hat, -, hafter⟩ := step_executed hstep
    obtain ⟨before, hbytes, hrip⟩ := hat.inside
    have hmoved : after.rip = m.rip + x.code.length := by rw [hafter, rip_execute]
    obtain ⟨front, back, hsplit, hfront, hstop⟩ := ih (by omega) (by rw [hmemory]; exact hinside)
    rw [hmemory, hbytes, ← List.append_assoc] at hsplit
    obtain ⟨hleft, hright⟩ := List.append_inj hsplit (by rw [List.length_append]; omega)
    refine ⟨before, back, ?_, hrip, ?_⟩
    · rw [hbytes, hright, List.flatMap_cons, List.append_assoc]
    · change Ending.stop ⟨last, log, result⟩ = _
      rw [hstop, ← hleft, List.flatMap_cons, List.length_append, List.length_append]
      omega

theorem step_eq (h : Runs budget m log last result) {k : Nat} {x : Executed} (hx : log[k]? = some x) :
    (m.stepped k).step = (m.stepped (k + 1), .ok x) := by
  induction h generalizing k with
  | halted _ => simp at hx
  | limit _ _ => simp at hx
  | fault _ _ _ => simp at hx
  | @next m after last y log result _ _ hstep _ ih =>
    have hmoved : m.step.1 = after := by rw [hstep]
    cases k with
    | zero =>
      cases hx
      rw [stepped, stepped, stepped, hstep]
    | succ k =>
      rw [stepped_succ, stepped_succ, hmoved]
      exact ih hx

theorem startsAt (h : Runs budget m log last result) {is : List (Nat × Instruction)} {address : Nat}
    (henc : ∀ p ∈ is, ∃ bytes, p.2.encode? = some bytes)
    (hat : m.halted = false → m.At (Interpretation.code is))
    (hrip : m.rip = address) : ∀ x ∈ log, ∃ number, StartsAt (Interpretation.starts address is) x number := by
  induction h generalizing is address with
  | halted _ => simp
  | limit _ _ => simp
  | fault _ _ _ => simp
  | @next m after last x log result hrun _ hstep rest ih =>
    have hahead := hat hrun
    cases is with
    | nil =>
      rw [step_end hahead, Prod.mk.injEq] at hstep
      cases hstep.2
    | cons p is =>
      obtain ⟨number, i⟩ := p
      obtain ⟨⟨bytes, hbytes⟩, hothers⟩ := List.forall_mem_cons.mp henc
      simp only [Interpretation.code, List.flatMap_cons, hbytes, Option.getD_some] at hahead
      rw [step_encoded hahead hbytes] at hstep
      cases hstep
      have hlater :
          ∀ y ∈ log, ∃ number, StartsAt (Interpretation.starts (address + bytes.length) is) y number := by
        apply ih hothers
        · intro hstill
          apply hahead.execute
          rintro rfl
          rw [halted_execute] at hstill
          simp at hstill
        · rw [rip_execute, hrip]
          rfl
      refine List.forall_mem_cons.mpr ⟨⟨number, address, hrip, List.mem_cons_self⟩, ?_⟩
      intro y hy
      obtain ⟨line, offset, hoffset, hmem⟩ := hlater y hy
      refine ⟨line, offset, hoffset, List.mem_cons_of_mem _ ?_⟩
      rw [hbytes]
      exact hmem

end Runs

/-- What the trace of a run tells, from an entry of the code on: a line for every instruction that was
executed, counted by the steps, each with the accumulator that it left, and all of them together the code up
to where the run stopped. -/
structure Ending.Recorded (e : Ending) (loaded : Machine) (code : List UInt8) (entry : Int) : Prop where
  lines : (Executed.trace e.log).lines = e.log.map Executed.text ++ [[]]
  readable : ∀ log : List Executed, (∀ x ∈ log, 0 ≤ x.offset) →
    Executed.trace log = Executed.trace e.log → log = e.log
  steps : e.machine.steps = .ofNat e.log.length
  counted : code.length < 0x8000000000000000 → e.machine.steps.toInt = e.log.length
  first : ∀ x ∈ e.log.head?, x.offset = entry
  adjoins : e.log.IsChain fun x y : Executed => y.offset = x.offset + x.code.length
  within : entry ≤ e.stop ∧ e.stop ≤ code.length
  bytes : e.log.flatMap Executed.code = code.extract entry.toNat e.stop.toNat
  executed : ∀ (k : Nat) (x : Executed), e.log[k]? = some x →
    (loaded.stepped k).step = (loaded.stepped (k + 1), .ok x) ∧ x.rax = (loaded.stepped (k + 1)).rax

theorem Runs.offset_nonneg {budget : Int64} {m last : Machine} {log : List Executed}
    {result : Except RunError Unit} (h : Runs budget m log last result) : ∀ x ∈ log, 0 ≤ x.offset := by
  intro x hx
  obtain ⟨k, hk⟩ := List.mem_iff_getElem?.mp hx
  have hstep := h.step_eq hk
  obtain ⟨i, back, -, -, hoffset, -⟩ := step_executed hstep
  rw [hoffset]
  exact (step_ok hstep).2.1

theorem recorded_of_load {m loaded : Machine} {code : List UInt8} {entry : Int}
    (h : m.load code entry = .ok loaded)
    (budget : Int64) : (loaded.runUntil budget).Recorded loaded code entry := by
  obtain ⟨hentry, rfl⟩ := load_eq_ok_iff.mp h
  generalize hloaded :
    ({ m with memory := code.toArray, rip := entry, halted := false, steps := 0 } : Machine) = loaded
  have hmemory : loaded.memory = code.toArray := by rw [← hloaded]
  have hrip : loaded.rip = entry := by rw [← hloaded]
  have hzero : loaded.steps = 0 := by rw [← hloaded]
  have hruns := loaded.runs_runUntil budget
  have hsteps : (loaded.runUntil budget).machine.steps = .ofNat (loaded.runUntil budget).log.length := by
    rw [hruns.steps_eq, hzero, Int64.zero_add]
  have hsize : loaded.memory.size = code.length := by rw [hmemory, List.size_toArray]
  obtain ⟨hfirst, hchain⟩ := hruns.adjoin
  obtain ⟨front, back, hsplit, hfront, hstop⟩ := hruns.bytes_eq (by omega) (by omega)
  rw [hmemory] at hsplit
  change (loaded.runUntil budget).stop = _ at hstop
  change code = _ at hsplit
  have hlength := congrArg List.length hsplit
  rw [List.length_append, List.length_append] at hlength
  refine {
    lines := Executed.lines_trace _
    readable := fun log hlog htrace => Executed.trace_injective hlog hruns.offset_nonneg htrace
    steps := hsteps
    counted := ?_
    first := fun x hx => (hfirst x hx).trans hrip
    adjoins := hchain
    within := by omega
    bytes := ?_
    executed := fun k x hx => ⟨hruns.step_eq hx, rax_of_step (hruns.step_eq hx)⟩ }
  · intro hshort
    have hle := hruns.length_le
    rw [hsteps, Int64.toInt_ofNat_of_lt]
    omega
  · have hcut : entry.toNat = front.length := by omega
    have hcount : (loaded.runUntil budget).stop.toNat - front.length =
        ((loaded.runUntil budget).log.flatMap Executed.code).length := by omega
    rw [hcut, List.extract, hcount]
    conv => rhs; rw [hsplit]
    rw [List.drop_left, List.take_left]

end Machine

/-- In the code of an object a run that starts at a label, or at the front, executes whole instructions of
the text. -/
theorem Object.startsAt_of_load {source : Text} {object : Object}
    (hobject : assemble source = .ok object) {entry : Nat}
    (hentry : entry = 0 ∨ ∃ name, (name, entry) ∈ object.symbols) {m loaded : Machine}
    (hload : m.load object.code entry = .ok loaded) (budget : Int64) :
    ∀ x ∈ (loaded.runUntil budget).log, ∃ number, Machine.StartsAt object.sourceMap x number := by
  obtain ⟨ls, hls, hlinked, rfl⟩ := assemble_eq_ok_iff.mp hobject
  have hconsistent :=
    SourceLine.consistent_of_readFrom (SourceLine.ofLines?_eq_some_iff_readFrom.mp hls) hlinked.1
  obtain ⟨before, rest, rfl, rfl⟩ : ∃ before rest, ls = before ++ rest ∧
    entry = (SourceLine.code before).length := by
    rcases hentry with rfl | ⟨name, hname⟩
    · exact ⟨[], ls, rfl, rfl⟩
    · obtain ⟨before, l, rest, hsplit, -, hoffset⟩ := (hconsistent.symbols name entry).mp hname
      exact ⟨before, l :: rest, hsplit, hoffset⟩
  have hencoded : SourceLine.Encoded rest :=
    fun l hl => SourceLine.ofLines?_encoded hls l (List.mem_append_right before hl)
  have hcode : (SourceLine.draft (before ++ rest)).toObject.code =
      SourceLine.code before ++ Interpretation.code (SourceLine.program rest).instructions := by
    rw [code_toObject, SourceLine.code_append, SourceLine.code_instructions hencoded]
  obtain ⟨-, rfl⟩ := Machine.load_eq_ok_iff.mp hload
  intro x hx
  obtain ⟨number, offset, hoffset, hmem⟩ := (Machine.runs_runUntil _ budget).startsAt
    (SourceLine.instructions_encode hencoded)
    (fun hrun => ⟨hrun, SourceLine.code before, hcode, rfl⟩) rfl x hx
  refine ⟨number, offset, hoffset, ?_⟩
  rw [SourceLine.starts_instructions hencoded] at hmem
  rw [sourceMap_toObject, SourceLine.mapFrom_append, Nat.zero_add]
  exact List.mem_append_right _ hmem

/-- The trace of a run is a record of it without gaps, from every entry of every code and with every budget,
and the run ends in the same state and with the same result whether a trace is held or not. Where the code
was assembled from a text and the entry is one of its labels or its front, every recorded instruction starts
where the source map has a line. -/
theorem run_recorded :
    (∀ (m loaded : Machine) (code : List UInt8) (entry : Int), m.load code entry = .ok loaded →
      ∀ budget : Int64, (loaded.runUntil budget).Recorded loaded code entry ∧
      ∀ held : Option Text, loaded.runOnto budget held = ((loaded.runUntil budget).machine,
        held.map (· ++ Executed.trace (loaded.runUntil budget).log), (loaded.runUntil budget).result)) ∧
    ∀ (source : Text) (object : Object), assemble source = .ok object →
      ∀ entry : Nat, (entry = 0 ∨ ∃ name, (name, entry) ∈ object.symbols) →
        ∀ m loaded : Machine, m.load object.code entry = .ok loaded → ∀ budget : Int64,
          ∀ x ∈ (loaded.runUntil budget).log, ∃ offset number : Nat, x.offset = offset ∧
            (offset, number) ∈ object.sourceMap := by
  constructor
  · intro m loaded code entry hload budget
    exact ⟨Machine.recorded_of_load hload budget, (loaded.runs_runUntil budget).runOnto_eq⟩
  · intro source object hobject entry hentry m loaded hload budget x hx
    obtain ⟨number, offset, hoffset, hmem⟩ := Object.startsAt_of_load hobject hentry hload budget x hx
    exact ⟨offset, number, hoffset, hmem⟩

/-- The instruction that faults leaves no line, although the instruction pointer is behind its byte; and a
run from a label, behind an instruction that it does not execute. -/
theorem run_recorded_fault :
    (∃ loaded, Machine.initial.load [0x90, 0x48, 0x83, 0xC0, 0x01, 0x06] 0 = .ok loaded ∧
      loaded.run.Recorded loaded [0x90, 0x48, 0x83, 0xC0, 0x01, 0x06] 0 ∧ loaded.run.stop = 5 ∧
      loaded.run.machine.rip = 6 ∧ loaded.run.log.flatMap Executed.code = [0x90, 0x48, 0x83, 0xC0, 0x01] ∧
      loaded.run.machine.steps.toInt = 2 ∧
      loaded.runOnto 0 none = (loaded.run.machine, none, loaded.run.result)) ∧
    ∃ object loaded, assemble "nop\nf: ret" = .ok object ∧ (("f", 1) : Text × Nat) ∈ object.symbols ∧
      Machine.initial.load object.code 1 = .ok loaded ∧ ∃ x ∈ loaded.run.log, ∃ offset number : Nat,
        x.offset = offset ∧ (offset, number) ∈ object.sourceMap := by
  constructor
  · obtain ⟨loaded, hload⟩ :
      ∃ loaded, Machine.initial.load [0x90, 0x48, 0x83, 0xC0, 0x01, 0x06] 0 = .ok loaded :=
      ⟨_, rfl⟩
    obtain ⟨hrecorded, hwrites⟩ := run_recorded.1 _ loaded _ _ hload 0
    obtain ⟨hlog, hstop, hrip⟩ : loaded.run.log.length = 2 ∧ loaded.run.stop = 5 ∧
      loaded.run.machine.rip = 6 := by
      cases hload
      rw [Machine.run, (Machine.Runs.next rfl rfl rfl (.next rfl rfl rfl (.fault rfl rfl rfl))).runUntil_eq]
      exact ⟨rfl, rfl, rfl⟩
    have hbytes := hrecorded.bytes
    have hcounted := hrecorded.counted (by decide)
    change loaded.run.log.flatMap _ = List.extract _ _ loaded.run.stop.toNat at hbytes
    change loaded.run.machine.steps.toInt = loaded.run.log.length at hcounted
    rw [hstop] at hbytes
    rw [hlog] at hcounted
    exact ⟨loaded, hload, hrecorded, hstop, hrip, hbytes, hcounted, hwrites none⟩
  · have hnop : Line.parse "nop" = .ok ⟨[], some ⟨"NOP", []⟩⟩ := Line.parse_of_notMem (by decide) (by decide)
    have hret : Line.parse "f: ret" = .ok ⟨["f"], some ⟨"RET", []⟩⟩ :=
      Line.parse_label "f" " ret" (by decide) (by decide) (by decide) (by decide)
    have hlines : SourceLine.ofLines? 1 (Text.lines "nop\nf: ret") =
        some [⟨1, [], .code .nop [0x90]⟩, ⟨2, ["f"], .code .ret [0xC3]⟩] :=
      SourceLine.ofLines?_cons.mpr ⟨_, _, SourceLine.ofText?_of_parse hnop rfl,
        SourceLine.ofLines?_cons.mpr ⟨_, _, SourceLine.ofText?_of_parse hret rfl, rfl, rfl⟩, rfl⟩
    have hobject : assemble "nop\nf: ret" = .ok _ :=
      assemble_eq_ok_iff.mpr ⟨_, hlines, ⟨by decide, by decide⟩, rfl⟩
    obtain ⟨loaded, hload⟩ : ∃ loaded, Machine.initial.load [0x90, 0xC3] 1 = .ok loaded := ⟨_, rfl⟩
    obtain ⟨x, hx⟩ : ∃ x, x ∈ loaded.run.log := by
      cases hload
      rw [Machine.run, (Machine.Runs.next rfl rfl rfl (.halted rfl)).runUntil_eq]
      exact ⟨_, List.mem_cons_self⟩
    exact ⟨_, loaded, hobject, by decide, hload, x, hx,
      run_recorded.2 _ _ hobject 1 (.inr ⟨"f", by decide⟩) _ loaded hload 0 x hx⟩

end StepLang
