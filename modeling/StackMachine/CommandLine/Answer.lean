import StackMachine.Assembly.Assembler
import StackMachine.Bytecode.Program
import StackMachine.CommandLine.Arguments
import StackMachine.Machine.Execution
import StackMachine.Text.Utf8

set_option autoImplicit false

namespace StackMachine

/-- The system a command runs on, but for its files: it draws pictures, and it leaves the words of a
panic when a source or a drawing brings the program down. -/
structure Console where
  render : Bool → Picture → Except String String
  panic : String → String

inductive InputFault where
  | read (path : String) (fault : FileFault)
  | notText (path : String) (fault : Utf8.Fault)
  | write (path : String) (fault : FileFault)
  | load (fault : LoadFault)
  | assembly (path source : String) (diagnostics : List Diagnostic)
  | panic (source : String)
  deriving DecidableEq

namespace InputFault

def errorCount (diagnostics : List Diagnostic) : String :=
  if diagnostics.length = 1 then "1 error" else s!"{diagnostics.length} errors"

def summary (message : String) : String := "error: " ++ message ++ "\n"

def report (console : Console) (color : Bool) : InputFault → Except String String
  | .read path fault => .ok (summary s!"failed to read '{path}': {fault.message}")
  | .notText path fault =>
    .ok (summary s!"failed to read '{path}': not valid UTF-8 ({fault.message})")
  | .write path fault => .ok (summary s!"failed to write '{path}': {fault.message}")
  | .load fault => .ok (summary fault.message)
  | .assembly path source diagnostics =>
    (Report.snippets (console.render color) (some path) source diagnostics).map fun drawings =>
      drawings ++ "\n" ++ summary s!"could not assemble '{path}': {errorCount diagnostics}"
  | .panic source => .error (console.panic source)

end InputFault

structure Answer where
  status : Nat
  stdout : String
  stderr : String
  -- A file to write, and its content.
  file : Option (String × Array UInt8)
  deriving DecidableEq

namespace Answer

def usageStatus : Nat := 2

def panicStatus : Nat := 101

def failure (console : Console) (color : Bool) (fault : InputFault) : Answer :=
  match fault.report console color with
  | .ok report => ⟨1, "", report, none⟩
  | .error words => ⟨panicStatus, "", words, none⟩

end Answer

def bytesOf (path : String) (content : Content) : Except InputFault (Array UInt8) :=
  content.mapError (.read path)

namespace Program

def ofSource (path source : String) (version : Version) (pipeline : Pipeline) :
    Except InputFault Program :=
  match assemble? version pipeline source with
  | none => .error (.panic source)
  | some (.ok assembly) => .ok assembly.program
  | some (.error diagnostics) => .error (.assembly path source diagnostics)

def ofSourceFile (path : String) (content : Content) (version : Version) (pipeline : Pipeline) :
    Except InputFault Program := do
  let bytes ← bytesOf path content
  let source ← (Utf8.decode bytes.toList).mapError (.notText path)
  ofSource path source version pipeline

def ofBytecodeFile (path : String) (content : Content) : Except InputFault Program := do
  let bytes ← bytesOf path content
  (ofBytes bytes).mapError .load

def ofEitherFile (path : String) (content : Content) : Except InputFault Program := do
  let bytes ← bytesOf path content
  if bytes.toList.take 2 = [Header.mark.1, Header.mark.2] then (ofBytes bytes).mapError .load
  else match Utf8.decode bytes.toList with
    | .ok source => ofSource path source .two .twoPass
    -- Bytes that are neither fail with the fault of their header.
    | .error _ => (ofBytes bytes).mapError .load

end Program

namespace Command

def machine (options : RuntimeOptions) : Machine := .zeroed options.memory options.limits

def faultText (fault : RuntimeFault) : String := s!"runtime error: {fault.message}\n"

def executeAnswer (bound : Nat) (options : RuntimeOptions) (program : Program) : Option Answer :=
  ((machine options).run bound program .unlimited ignoreEvents ()).map fun outcome =>
    let output := joinLines outcome.sink.lines.toList
    match outcome.fault with
    | none => ⟨0, output ++ "OK\n", "", none⟩
    | some fault => ⟨1, output, faultText fault, none⟩

def traceAnswer (bound : Nat) (verbosity : Verbosity) (color : Bool) (options : RuntimeOptions)
    (program : Program) : Option Answer :=
  let style := TraceStyle.forLength verbosity color program.length
  ((machine options).run bound program .unlimited style.collect #[]).map fun outcome =>
    let lines := joinLines outcome.trace.toList
    match outcome.fault with
    | none =>
      let summary := joinLines [style.dimmed "---", s!"OK ({outcome.machine.steps} instructions)"]
      ⟨0, lines ++ summary, "", none⟩
    | some fault => ⟨1, lines, faultText fault, none⟩

def input : Command → String
  | .asm source _ _ _ _ => source
  | .check source _ _ _ => source
  | .dump file _ => file
  | .exec file _ => file
  | .run source _ _ _ => source
  | .trace file _ _ _ => file

def withProgram (console : Console) (color : Bool) (program : Except InputFault Program)
    (use : Program → Option Answer) : Option Answer :=
  match program with
  | .ok program => use program
  | .error fault => some (.failure console color fault)

/-- What a command answers to the content of its file. A run that takes more turns than the bound
has no answer. -/
def answer (console : Console) (bound : Nat) (content : Content) (command : Command) :
    Option Answer :=
  let path := command.input
  match command with
  | .asm _ output version pipeline color =>
    withProgram console color (Program.ofSourceFile path content version pipeline) fun program =>
      some ⟨0, "", "", some (output, program.bytes)⟩
  | .check _ version pipeline color =>
    withProgram console color (Program.ofSourceFile path content version pipeline) fun _ =>
      some ⟨0, "", "", none⟩
  | .dump _ color =>
    withProgram console color (Program.ofEitherFile path content) fun program =>
      some ⟨0, program.listing (.ofFlag color), "", none⟩
  | .exec _ options =>
    withProgram console false (Program.ofBytecodeFile path content) (executeAnswer bound options)
  | .run _ version color options =>
    withProgram console color (Program.ofSourceFile path content version .twoPass)
      (executeAnswer bound options)
  | .trace _ verbosity color options =>
    withProgram console color (Program.ofEitherFile path content)
      (traceAnswer bound verbosity color options)

def color : Command → Bool
  | .asm _ _ _ _ color | .check _ _ _ color | .dump _ color | .run _ _ color _
  | .trace _ _ color _ => color
  | .exec _ _ => false

end Command

/-- The system a command runs on. A write that fails may leave the files changed. -/
structure Host (Files : Type) extends Console where
  read : Files → String → Content
  write : Files → String → Array UInt8 → Files × Option FileFault

def Command.perform {Files : Type} (host : Host Files) (bound : Nat) (files : Files)
    (command : Command) : Option (Answer × Files) :=
  (command.answer host.toConsole bound (host.read files command.input)).map fun answer =>
    match answer.file with
    | none => (answer, files)
    | some (path, bytes) =>
      match host.write files path bytes with
      | (after, none) => (answer, after)
      | (after, some fault) => (.failure host.toConsole command.color (.write path fault), after)

end StackMachine
