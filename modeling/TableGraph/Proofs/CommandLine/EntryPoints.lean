import Mathlib.Logic.Function.Basic
import TableGraph.CommandLine.Run
import TableGraph.Proofs.Diagram.Reference
import TableGraph.Proofs.Text

namespace TableGraph

namespace Direction

/-- What a direction may be called: its code in capital or small letters, and if it is the one to
take without a code, nothing. -/
def IsNamed (d : Direction) : Option String → Prop
  | none => d = .topDown
  | some text => text.toUpper = d.code

theorem ofText?_eq_some_iff {text : String} {d : Direction} :
    ofText? text = some d ↔ text.toUpper = d.code := by
  have ht : text.toList.map Char.toUpper = text.toUpper.toList := String.toList_map.symm
  rw [ofText?, ht]
  constructor
  · intro h
    have hd := List.find?_some h
    exact (String.toList_inj.mp (of_decide_eq_true hd)).symm
  · intro h
    rw [h]
    cases d <;> rfl

end Direction

theorem Diagram.ofTexts_of_isNamed [Text.Printing] {d : Direction} {code : Option String}
    (h : d.IsNamed code) (dump : String) :
    ofTexts dump code = (ofDump dump d).mapError Failure.message := by
  cases code with
  | none =>
    cases h
    rfl
  | some text => rw [ofTexts, Direction.ofText?_eq_some_iff.mpr h]

namespace CommandLine

theorem start_eq_run [Text.Printing] {m : Type → Type} [Monad m] (host : Host m)
    {interpreter : Option String} {arguments : List String} {o : Options}
    (ho : Request.ofArguments (interpreter.getD Interpreter.defaultProgram) arguments =
      .ok (.run o)) : start host interpreter arguments = run host o := by
  rw [start, ho]

structure Machine where
  input : List UInt8
  files : String → Except Fault (List UInt8)
  stdout : String
  stderr : String
  events : List Event

namespace Machine

def host (programs : String → List String → Except Fault Interpreter.Output)
    (filter? : Option (Event → Bool)) : Host (StateM Machine) where
  input := modifyGet fun m => (.ok m.input, { m with input := [] })
  load path := return (← get).files path
  save path text := do
    modify fun m =>
      { m with files := Function.update m.files path (.ok (Utf8.encode text.toList)) }
    return .ok ()
  execute program arguments := return programs program arguments
  putStdout text := modify fun m => { m with stdout := m.stdout ++ text }
  putStderr text := modify fun m => { m with stderr := m.stderr ++ text }
  log e := modify fun m => { m with events := m.events ++ [e] }
  filter? := filter?

def Holds (m : Machine) (input dump : String) : Prop :=
  if input = "-" then m.input = Utf8.encode dump.toList
  else Interpreter.isSource input = false ∧ m.files input = .ok (Utf8.encode dump.toList)

structure SameOutput (m after : Machine) : Prop where
  stdout : after.stdout = m.stdout
  stderr : after.stderr = m.stderr
  files : after.files = m.files

theorem SameOutput.trans {m₁ m₂ m₃ : Machine} (h : m₁.SameOutput m₂) (h' : m₂.SameOutput m₃) :
    m₁.SameOutput m₃ :=
  ⟨h'.stdout.trans h.stdout, h'.stderr.trans h.stderr, h'.files.trans h.files⟩

def deliver (m : Machine) (text : String) : Option String → Machine
  | none => { m with stdout := m.stdout ++ text }
  | some path =>
    { m with files := Function.update m.files path (.ok (Utf8.encode text.toList)) }

def complain (m : Machine) (text : String) : Machine :=
  { m with stderr := m.stderr ++ text }

theorem SameOutput.deliver {m after : Machine} (h : m.SameOutput after) (text : String)
    (output : Option String) : (m.deliver text output).SameOutput (after.deliver text output) := by
  cases output with
  | none => exact ⟨congrArg (· ++ text) h.stdout, h.stderr, h.files⟩
  | some path => exact ⟨h.stdout, h.stderr, by simp only [Machine.deliver, h.files]⟩

theorem SameOutput.complain {m after : Machine} (h : m.SameOutput after) (text : String) :
    (m.complain text).SameOutput (after.complain text) :=
  ⟨h.stdout, congrArg (· ++ text) h.stderr, h.files⟩

variable (programs : String → List String → Except Fault Interpreter.Output)
  (filter? : Option (Event → Bool)) {m : Machine} {o : Options} {dump : String}

theorem run_bind_of_run {α β : Type} {x : StateM Machine α} {a : α} {m' : Machine}
    (h : x.run m = (a, m')) (f : α → StateM Machine β) : (x >>= f).run m = (f a).run m' := by
  rw [StateT.run_bind, h]
  rfl

theorem run_report (e : Event) (m : Machine) : ∃ after, m.SameOutput after ∧
    ((host programs filter?).report o e).run m = ((), after) := by
  rw [Host.report]
  split
  · exact ⟨{ m with events := m.events ++ [e] }, ⟨rfl, rfl, rfl⟩, rfl⟩
  · exact ⟨m, ⟨rfl, rfl, rfl⟩, rfl⟩

theorem run_reports (events : List Extraction.Event) (m : Machine) :
    ∃ after, m.SameOutput after ∧
      (events.forM fun e => (host programs filter?).report o (.extraction e)).run m =
        ((), after) := by
  induction events generalizing m with
  | nil => exact ⟨m, ⟨rfl, rfl, rfl⟩, rfl⟩
  | cons e es ih =>
    obtain ⟨m₁, h₁, hr⟩ := run_report programs filter? (.extraction e) m
    obtain ⟨after, h₂, hrs⟩ := ih m₁
    exact ⟨after, h₁.trans h₂, (run_bind_of_run hr _).trans hrs⟩

theorem textOf_encode (path text : String) :
    textOf path (.ok (Utf8.encode text.toList)) = .ok text := by
  simp [textOf, Utf8.decode?_encode]

theorem readDump_of_holds (h : m.Holds o.input dump) : ∃ after, m.SameOutput after ∧
    (readDump (host programs filter?) o).run m = (.ok dump, after) := by
  rw [Holds] at h
  rw [readDump]
  split at h
  · next hi =>
    refine ⟨{ m with input := [] }, ⟨rfl, rfl, rfl⟩, ?_⟩
    rw [if_pos hi]
    have hr := textOf_encode "stdin" dump
    rw [← h] at hr
    exact congrArg (·, { m with input := [] }) hr
  · next hi =>
    refine ⟨m, ⟨rfl, rfl, rfl⟩, ?_⟩
    rw [if_neg hi, h.1, if_neg Bool.false_ne_true]
    have hr := textOf_encode o.input dump
    rw [← h.2] at hr
    exact congrArg (·, m) hr

theorem run_writeDiagram (diagram : String) (m : Machine) : ∃ after, m.SameOutput after ∧
    (writeDiagram (host programs filter?) o diagram).run m =
      (.ok (), after.deliver (diagram ++ "\n") o.output) := by
  rw [writeDiagram]
  cases o.output with
  | none => exact ⟨m, ⟨rfl, rfl, rfl⟩, rfl⟩
  | some path =>
    obtain ⟨after, h, hr⟩ := run_report programs filter? (.writing path) m
    exact ⟨after, h, run_bind_of_run hr _⟩

theorem draw_of_holds (h : m.Holds o.input dump) :
    ∃ after, m.SameOutput after ∧ (draw (host programs filter?) o).run m =
      match Diagram.ofDump dump o.direction with
      | .ok diagram => (.ok (), after.deliver (diagram ++ "\n") o.output)
      | .error e => (.error (.failure e), after) := by
  obtain ⟨m₁, h₁, hr⟩ := readDump_of_holds programs filter? h
  rw [draw, run_bind_of_run hr, Diagram.ofDump, Schema.ofDump, Extraction.Run.ofDump]
  dsimp only
  cases Tree.parse dump with
  | error e => exact ⟨m₁, h₁, rfl⟩
  | ok root =>
    obtain ⟨m₂, h₂, hrs⟩ := run_reports programs filter? (Extraction.Run.ofTree root).log m₁
    dsimp only
    rw [run_bind_of_run hrs]
    cases (Extraction.Run.ofTree root).result with
    | error e => exact ⟨m₂, h₁.trans h₂, rfl⟩
    | ok s =>
      obtain ⟨m₃, h₃, he⟩ := run_report programs filter? (.extracted s.size) m₂
      obtain ⟨m₄, h₄, hw⟩ := run_writeDiagram programs filter? (s.diagram o.direction) m₃
      exact ⟨m₄, ((h₁.trans h₂).trans h₃).trans h₄, (run_bind_of_run he _).trans hw⟩

section Messages

variable [Text.Printing]

theorem run_of_holds (h : m.Holds o.input dump) :
    ∃ after, m.SameOutput after ∧ (CommandLine.run (host programs filter?) o).run m =
      match Diagram.ofDump dump o.direction with
      | .ok diagram => (0, after.deliver (diagram ++ "\n") o.output)
      | .error e => (1, after.complain ("Error: " ++ e.message ++ "\n")) := by
  obtain ⟨after, ha, hd⟩ := draw_of_holds programs filter? h
  refine ⟨after, ha, ?_⟩
  rw [CommandLine.run, run_bind_of_run hd]
  cases Diagram.ofDump dump o.direction with
  | error e => rfl
  | ok diagram => rfl

/-- On the command line a dump gives the diagram, or the message, that it gives as a text, and
nothing else is written, whatever is logged. -/
theorem entryPoints_agree {code : Option String} (h : m.Holds o.input dump)
    (hc : o.direction.IsNamed code) :
    match Diagram.ofDump dump o.direction with
    | .ok diagram =>
      Diagram.ofTexts dump code = .ok diagram ∧
        ∃ after, (CommandLine.run (host programs filter?) o).run m = (0, after) ∧
          (m.deliver (diagram ++ "\n") o.output).SameOutput after
    | .error e =>
      Diagram.ofTexts dump code = .error e.message ∧
        ∃ after, (CommandLine.run (host programs filter?) o).run m = (1, after) ∧
          (m.complain ("Error: " ++ e.message ++ "\n")).SameOutput after := by
  obtain ⟨after, ha, hr⟩ := run_of_holds programs filter? h
  have ht := Diagram.ofTexts_of_isNamed hc dump
  cases hg : Diagram.ofDump dump o.direction with
  | ok diagram =>
    rw [hg] at hr ht
    exact ⟨ht, _, hr, ha.deliver (diagram ++ "\n") o.output⟩
  | error e =>
    rw [hg] at hr ht
    exact ⟨ht, _, hr, ha.complain ("Error: " ++ e.message ++ "\n")⟩

end Messages

theorem entryPoints_agree_file :
    let dump := (Source.program [Source.createTable { name := "a" },
      Source.createTable { name := "b" }, Source.foreignKey "a" "b"]).toText
    let m : Machine := {
      input := []
      files := Function.update (fun _ => .error .notFound) "dump" (.ok (Utf8.encode dump.toList))
      stdout := ""
      stderr := ""
      events := [] }
    let o : Options := {
      input := "dump"
      output := some "out"
      direction := .leftRight
      interpreter := "ruby"
      verbose := true }
    let o' : Options := { o with input := "-", direction := .topDown, verbose := false }
    let arguments := ["-vo", "out", "dump", "--direction=lr"]
    let diagram := "graph LR\n    a --> b\n    b"
    let message := "Syntax tree error: Unexpected end of input"
    let machine := host (fun _ _ => .error .notFound) none
    (Request.ofArguments "ruby" arguments = .ok (.run o) ∧ m.Holds o.input dump ∧
      o.direction.IsNamed (some "Lr") ∧ Diagram.ofDump dump o.direction = .ok diagram ∧
      Diagram.ofTexts dump (some "Lr") = .ok diagram ∧
      ∃ after, (start machine none arguments).run m = (0, after) ∧
        (m.deliver (diagram ++ "\n") o.output).SameOutput after) ∧
    m.Holds o'.input "" ∧ o'.direction.IsNamed none ∧
      Diagram.ofTexts "" none = .error message ∧
      ∃ after, (CommandLine.run machine o').run m = (1, after) ∧
        (m.complain ("Error: " ++ message ++ "\n")).SameOutput after := by
  intro dump m o o' arguments diagram message machine
  have hreadable : ∀ t ∈ [Source.createTable { name := "a" }, Source.createTable { name := "b" },
      Source.foreignKey "a" "b"], ¬t.IsSymbol ∧ t.Readable := by
    simp [Source.readable_createTable, Source.readable_foreignKey]
  have hg : Diagram.ofDump dump o.direction = .ok diagram := Diagram.ofDump_eq_ok.mpr
    ⟨_, _, Tree.parse_toText (Source.readable_program hreadable), rfl, by decide⟩
  have ho : Request.ofArguments "ruby" arguments = .ok (.run o) := by decide
  have h : m.Holds o.input dump := by
    rw [Holds, if_neg (by decide)]
    exact ⟨by decide, by simp only [m, o, Function.update_self]⟩
  have hc : o.direction.IsNamed (some "Lr") := Direction.ofText?_eq_some_iff.mp (by decide)
  have hs := entryPoints_agree (fun _ _ => .error .notFound) none h hc
  rw [hg] at hs
  have hstart : start machine none arguments = CommandLine.run machine o := start_eq_run machine ho
  have h' : m.Holds o'.input "" := rfl
  have hc' : o'.direction.IsNamed none := rfl
  have hp : Tree.parse "" = .error .unexpectedEnd := by
    rw [Tree.parse, String.toList_empty, Dump.tokens_nil]
    rfl
  have hg' : Diagram.ofDump "" o'.direction = .error (.dump .unexpectedEnd) := by
    rw [Diagram.ofDump, Schema.ofDump, Extraction.Run.ofDump, hp]
    rfl
  have hs' := entryPoints_agree (fun _ _ => .error .notFound) none h' hc'
  rw [hg'] at hs'
  rw [hstart]
  exact ⟨⟨ho, h, hc, hg, hs⟩, h', hc', hs'⟩

end Machine

end CommandLine

end TableGraph
