import StackMachine.Assembly.Snippet
import StackMachine.CommandLine.Answer
import StackMachine.Proofs.Assembly.Sizes
import StackMachine.Proofs.Bytecode.Container
import StackMachine.Proofs.Text.Utf8

set_option autoImplicit false

namespace StackMachine

namespace Program

section

variable {path text : String} {content : Array UInt8} {version : Version} {pipeline : Pipeline}
  {program : Program} {assembly : Assembly}

theorem ofSource_eq_ok_iff :
    ofSource path text version pipeline = .ok program ↔
      ∃ assembly, assemble? version pipeline text = some (.ok assembly) ∧
        assembly.program = program := by
  unfold ofSource
  rcases assemble? version pipeline text with _ | _ | _ <;> simp

theorem ofSourceFile_eq_ok_iff :
    ofSourceFile path (.ok content) version pipeline = .ok program ↔
      ∃ text assembly, Utf8.decode content.toList = .ok text ∧
        assemble? version pipeline text = some (.ok assembly) ∧ assembly.program = program := by
  have unfolded : ofSourceFile path (.ok content) version pipeline =
      ((Utf8.decode content.toList).mapError (.notText path)).bind fun source =>
        ofSource path source version pipeline := rfl
  rw [unfolded]
  cases Utf8.decode content.toList with
  | error fault => simp [Except.mapError, Except.bind]
  | ok text => simp [Except.mapError, Except.bind, ofSource_eq_ok_iff]

theorem ofSourceFile_of_assemble? (path : String) (decoded : Utf8.decode content.toList = .ok text)
    (assembled : assemble? version pipeline text = some (.ok assembly)) :
    ofSourceFile path (.ok content) version pipeline = .ok assembly.program :=
  ofSourceFile_eq_ok_iff.mpr ⟨text, assembly, decoded, assembled, rfl⟩

theorem length_lt (small : content.size < 2 ^ 63) (decoded : Utf8.decode content.toList = .ok text)
    (assembled : assemble? version pipeline text = some (.ok assembly)) :
    assembly.program.length < UInt64.size := by
  have short := length_assemble?_le assembled
  rw [Utf8.length_of_decode decoded, Array.length_toList] at short
  have size : UInt64.size = 2 * 2 ^ 63 := by decide
  omega

theorem length_of_ofSourceFile (small : content.size < 2 ^ 63)
    (loaded : ofSourceFile path (.ok content) version pipeline = .ok program) :
    program.length < UInt64.size := by
  obtain ⟨text, assembly, decoded, assembled, rfl⟩ := ofSourceFile_eq_ok_iff.mp loaded
  exact length_lt small decoded assembled

theorem take_bytes (program : Program) :
    program.bytes.toList.take 2 = [Header.mark.1, Header.mark.2] := by
  simp [bytes, header, Header.ofBody, Header.bytes]

theorem ofBytecodeFile_bytes (fits : program.length < UInt64.size) :
    ofBytecodeFile path (.ok program.bytes) = .ok program := by
  have unfolded : ofBytecodeFile path (.ok program.bytes) =
      (ofBytes program.bytes).mapError .load := rfl
  rw [unfolded, ofBytes_bytes fits]
  rfl

theorem ofEitherFile_bytes (fits : program.length < UInt64.size) :
    ofEitherFile path (.ok program.bytes) = .ok program := by
  simp [ofEitherFile, bytesOf, take_bytes, ofBytes_bytes fits, Except.mapError, bind, Except.bind]

theorem ofEitherFile_of_unmarked (unmarked : content.toList.take 2 ≠ [0x47, 0x44])
    (decoded : Utf8.decode content.toList = .ok text)
    (assembled : assemble? .two .twoPass text = some (.ok assembly)) :
    ofEitherFile path (.ok content) = .ok assembly.program := by
  simp [ofEitherFile, bytesOf, Header.mark, unmarked, decoded, Except.mapError, bind, Except.bind,
    ofSource, assembled]

end

end Program

def Answer.shown (answer : Answer) : Nat × String × String :=
  (answer.status, answer.stdout, answer.stderr)

section

variable {Files : Type} {host : Host Files} {files after : Files} {bound : Nat}
  {source output : String} {content : Array UInt8} {version : Version} {pipeline : Pipeline}
  {color : Bool} {options : RuntimeOptions} {program : Program} {fault : InputFault}

/-- Whatever is written to the output is read back from it, and the source stays as it is. -/
def Host.Writes (host : Host Files) (files : Files) (source output : String) : Prop :=
  ∀ bytes, ∃ after, host.write files output bytes = (after, none) ∧
    host.read after output = .ok bytes ∧ host.read after source = host.read files source

namespace Command

def performBoth (host : Host Files) (bound : Nat) (files : Files) (first second : Command) :
    Option (Answer × Files) :=
  match first.perform host bound files with
  | none => none
  | some (done, between) =>
    if done.status ≠ 0 then some (done, between)
    else (second.perform host bound between).map fun (answer, after) =>
      (⟨answer.status, done.stdout ++ answer.stdout, done.stderr ++ answer.stderr, answer.file⟩,
        after)

theorem failure_status_ne_zero (console : Console) (color : Bool) (fault : InputFault) :
    (Answer.failure console color fault).status ≠ 0 := by
  unfold Answer.failure
  split
  next => exact Nat.one_ne_zero
  next => exact (by decide : Answer.panicStatus ≠ 0)

theorem file_failure (console : Console) (color : Bool) (fault : InputFault) :
    (Answer.failure console color fault).file = none := by
  unfold Answer.failure
  split <;> rfl

theorem perform_of_silent {command : Command} (result : Option Answer)
    (answered : command.answer host.toConsole bound (host.read files command.input) = result)
    (silent : ∀ answer ∈ result, answer.file = none) :
    command.perform host bound files = result.map fun answer => (answer, files) := by
  unfold perform
  rw [answered]
  cases result with
  | none => rfl
  | some answer => simp [silent answer rfl]

theorem perform_of_refused {command : Command}
    (refused : command.answer host.toConsole bound (host.read files command.input) =
      some (.failure host.toConsole color fault)) :
    command.perform host bound files = some (.failure host.toConsole color fault, files) :=
  perform_of_silent _ refused (by simp [file_failure])

theorem perform_asm (bound : Nat) (output : String) (color : Bool)
    (loaded : Program.ofSourceFile source (host.read files source) version pipeline =
      .ok program) :
    (asm source output version pipeline color).perform host bound files =
      some (match host.write files output program.bytes with
        | (after, none) => (⟨0, "", "", some (output, program.bytes)⟩, after)
        | (after, some fault) =>
          (.failure host.toConsole color (.write output fault), after)) := by
  have answered : (asm source output version pipeline color).answer host.toConsole bound
      (host.read files source) = some ⟨0, "", "", some (output, program.bytes)⟩ := by
    simp [answer, input, loaded, withProgram]
  unfold perform
  exact Option.map_eq_some_iff.mpr ⟨_, answered, rfl⟩

theorem asm_check (reads : host.read files source = .ok content) (bound : Nat) (output : String)
    (version : Version) (pipeline : Pipeline) (color : Bool) :
    ∃ verdict made after,
      (check source version pipeline color).perform host bound files = some (verdict, files) ∧
      (asm source output version pipeline color).perform host bound files = some (made, after) ∧
      (verdict.status = 0 ↔ ∃ text assembly, Utf8.decode content.toList = .ok text ∧
        assemble? version pipeline text = some (.ok assembly)) ∧
      (verdict.status ≠ 0 → made = verdict ∧ after = files) ∧
      (verdict.status = 0 → ∃ text assembly, Utf8.decode content.toList = .ok text ∧
        assemble? version pipeline text = some (.ok assembly) ∧
        (host.write files output assembly.program.bytes).1 = after ∧
        (made.status = 0 ↔ (host.write files output assembly.program.bytes).2 = none) ∧
        (made.status = 0 → made.shown = verdict.shown)) := by
  cases loaded : Program.ofSourceFile source (host.read files source) version pipeline with
  | error fault =>
    have verdict : (check source version pipeline color).perform host bound files =
        some (.failure host.toConsole color fault, files) :=
      perform_of_refused (by simp [answer, input, loaded, withProgram])
    have made : (asm source output version pipeline color).perform host bound files =
        some (.failure host.toConsole color fault, files) :=
      perform_of_refused (by simp [answer, input, loaded, withProgram])
    have failed := failure_status_ne_zero host.toConsole color fault
    refine ⟨_, _, _, verdict, made, ?_, fun _ => ⟨rfl, rfl⟩, fun success => absurd success failed⟩
    refine iff_of_false failed ?_
    rintro ⟨text, assembly, decoded, assembled⟩
    rw [reads, Program.ofSourceFile_of_assemble? source decoded assembled] at loaded
    cases loaded
  | ok program =>
    have verdict : (check source version pipeline color).perform host bound files =
        some (⟨0, "", "", none⟩, files) := by
      apply perform_of_silent (some ⟨0, "", "", none⟩)
      · simp [answer, input, loaded, withProgram]
      · simp
    have made := perform_asm bound output color loaded
    rw [reads] at loaded
    obtain ⟨text, assembly, decoded, assembled, rfl⟩ := Program.ofSourceFile_eq_ok_iff.mp loaded
    have assembles : ∃ text assembly, Utf8.decode content.toList = .ok text ∧
        assemble? version pipeline text = some (.ok assembly) :=
      ⟨text, assembly, decoded, assembled⟩
    rcases written : host.write files output assembly.program.bytes with ⟨after, _ | refusal⟩
    · rw [written] at made
      refine ⟨_, _, _, verdict, made, iff_of_true rfl assembles, fun other => absurd rfl other,
        fun _ => ⟨text, assembly, decoded, assembled, ?_, ?_, fun _ => rfl⟩⟩
      · rw [written]
      · rw [written]
        exact iff_of_true rfl rfl
    · rw [written] at made
      have failed := failure_status_ne_zero host.toConsole color (.write output refusal)
      refine ⟨_, _, _, verdict, made, iff_of_true rfl assembles, fun other => absurd rfl other,
        fun _ => ⟨text, assembly, decoded, assembled, ?_, ?_, fun success => absurd success failed⟩⟩
      · rw [written]
      · rw [written]
        exact iff_of_false failed nofun

theorem file_executeAnswer {answer : Answer}
    (ran : executeAnswer bound options program = some answer) : answer.file = none := by
  obtain ⟨outcome, -, rfl⟩ := Option.map_eq_some_iff.mp ran
  simp only
  split <;> rfl

theorem run_asm_exec (reads : host.read files source = .ok content)
    (small : content.size < 2 ^ 63) (writes : host.Writes files source output) (bound : Nat)
    (version : Version) (color : Bool) (options : RuntimeOptions) :
    ((run source version color options).perform host bound files).map (fun done => done.1.shown) =
      (performBoth host bound files (asm source output version .twoPass color)
        (exec output options)).map fun done => done.1.shown := by
  cases loaded : Program.ofSourceFile source (host.read files source) version .twoPass with
  | error fault =>
    have ran : (run source version color options).perform host bound files =
        some (.failure host.toConsole color fault, files) :=
      perform_of_refused (by simp [answer, input, loaded, withProgram])
    have made : (asm source output version .twoPass color).perform host bound files =
        some (.failure host.toConsole color fault, files) :=
      perform_of_refused (by simp [answer, input, loaded, withProgram])
    rw [ran, performBoth, made]
    simp [failure_status_ne_zero]
  | ok program =>
    obtain ⟨after, written, back, -⟩ := writes program.bytes
    have made := perform_asm bound output color loaded
    have ran : (run source version color options).perform host bound files =
        (executeAnswer bound options program).map fun answer => (answer, files) := by
      apply perform_of_silent
      · simp [answer, input, loaded, withProgram]
      · intro answer
        exact file_executeAnswer
    -- What was written is loaded as the program it was written from.
    have fits := Program.length_of_ofSourceFile small (reads ▸ loaded)
    have executed : (exec output options).perform host bound after =
        (executeAnswer bound options program).map fun answer => (answer, after) := by
      apply perform_of_silent
      · simp [answer, input, back, Program.ofBytecodeFile_bytes fits, withProgram]
      · intro answer
        exact file_executeAnswer
    rw [written] at made
    rw [ran, performBoth, made]
    simp only [executed, Option.map_map, ne_eq, not_true_eq_false, if_false]
    cases executeAnswer bound options program with
    | none => rfl
    | some answer => simp [Answer.shown]

theorem perform_congr {first second : Command}
    (same : first.answer host.toConsole bound (host.read files first.input) =
      second.answer host.toConsole bound (host.read files second.input))
    (tint : first.color = second.color) :
    first.perform host bound files = second.perform host bound files := by
  rw [perform, perform, same, tint]

theorem look_asm (small : content.size < 2 ^ 63) {text : String} {assembly : Assembly}
    (decoded : Utf8.decode content.toList = .ok text)
    (unmarked : content.toList.take 2 ≠ [0x47, 0x44])
    (assembled : assemble? .two .twoPass text = some (.ok assembly))
    (kept : host.read after source = .ok content)
    (written : host.read after output = .ok assembly.program.bytes) (bound : Nat) (color : Bool) :
    (dump source color).perform host bound after = (dump output color).perform host bound after ∧
      ∀ verbosity options,
        (trace source verbosity color options).perform host bound after =
          (trace output verbosity color options).perform host bound after := by
  have fits := Program.length_lt small decoded assembled
  have left : Program.ofEitherFile source (host.read after source) = .ok assembly.program := by
    rw [kept]
    exact Program.ofEitherFile_of_unmarked unmarked decoded assembled
  have right : Program.ofEitherFile output (host.read after output) = .ok assembly.program := by
    rw [written]
    exact Program.ofEitherFile_bytes fits
  constructor
  · apply perform_congr
    · simp [answer, input, left, right, withProgram]
    · rfl
  · intro verbosity options
    apply perform_congr
    · simp [answer, input, left, right, withProgram]
    · rfl

end Command

/-- To check is to assemble without writing, to run is to assemble and execute, and to look at a
source is to look at what it assembles to: on any system, whatever its paths lead to, whose writes
succeed and are read back. No file in memory has `2 ^ 63` bytes. -/
theorem commands_agree (reads : host.read files source = .ok content) (bound : Nat) :
    (∀ version pipeline color, ∃ verdict made after,
      (Command.check source version pipeline color).perform host bound files =
        some (verdict, files) ∧
      (Command.asm source output version pipeline color).perform host bound files =
        some (made, after) ∧
      (verdict.status = 0 ↔ ∃ text assembly, Utf8.decode content.toList = .ok text ∧
        assemble? version pipeline text = some (.ok assembly)) ∧
      (verdict.status ≠ 0 → made = verdict ∧ after = files) ∧
      (made.status = 0 → ∃ text assembly, Utf8.decode content.toList = .ok text ∧
        assemble? version pipeline text = some (.ok assembly) ∧
        host.write files output assembly.program.bytes = (after, none)) ∧
      (host.Writes files source output → made.shown = verdict.shown ∧
        (made.status ≠ 0 → after = files) ∧
        (made.status = 0 → ∃ text assembly, Utf8.decode content.toList = .ok text ∧
          assemble? version pipeline text = some (.ok assembly) ∧
          host.read after output = .ok assembly.program.bytes))) ∧
    (content.size < 2 ^ 63 → host.Writes files source output →
      (∀ version color options,
        ((Command.run source version color options).perform host bound files).map
            (fun done => done.1.shown) =
          (Command.performBoth host bound files (.asm source output version .twoPass color)
            (.exec output options)).map fun done => done.1.shown) ∧
      ∀ text assembly, Utf8.decode content.toList = .ok text →
        content.toList.take 2 ≠ [0x47, 0x44] →
        assemble? .two .twoPass text = some (.ok assembly) →
        ∀ color, ∃ made after,
          (Command.asm source output .two .twoPass color).perform host bound files =
            some (made, after) ∧ made.status = 0 ∧
          ∀ shade,
            (Command.dump source shade).perform host bound after =
              (Command.dump output shade).perform host bound after ∧
            ∀ verbosity options,
              (Command.trace source verbosity shade options).perform host bound after =
                (Command.trace output verbosity shade options).perform host bound after) := by
  constructor
  · intro version pipeline color
    obtain ⟨verdict, made, after, checked, asm, accepted, refused, done⟩ :=
      Command.asm_check reads bound output version pipeline color
    have success (built : made.status = 0) : verdict.status = 0 := by
      by_contra failed
      rw [(refused failed).1] at built
      exact failed built
    refine ⟨verdict, made, after, checked, asm, accepted, refused, fun built => ?_,
      fun writes => ?_⟩
    · obtain ⟨text, assembly, decoded, assembled, left, written, -⟩ := done (success built)
      exact ⟨text, assembly, decoded, assembled, Prod.ext left (written.mp built)⟩
    · by_cases valid : verdict.status = 0
      · obtain ⟨text, assembly, decoded, assembled, left, written, same⟩ := done valid
        obtain ⟨next, wrote, back, -⟩ := writes assembly.program.bytes
        rw [wrote] at left written
        subst left
        have built := written.mpr rfl
        exact ⟨same built, fun failed => absurd built failed,
          fun _ => ⟨text, assembly, decoded, assembled, back⟩⟩
      · obtain ⟨rfl, unchanged⟩ := refused valid
        exact ⟨rfl, fun _ => unchanged, fun built => absurd built valid⟩
  · intro small writes
    constructor
    · exact Command.run_asm_exec reads small writes bound
    · intro text assembly decoded unmarked assembled color
      obtain ⟨after, written, back, kept⟩ := writes assembly.program.bytes
      have loaded : Program.ofSourceFile source (host.read files source) .two .twoPass =
          .ok assembly.program := by
        rw [reads]
        exact Program.ofSourceFile_of_assemble? source decoded assembled
      have made := Command.perform_asm bound output color loaded
      rw [written] at made
      refine ⟨_, after, made, rfl, fun shade => ?_⟩
      exact Command.look_asm small decoded unmarked assembled (kept.trans reads) back bound shade

end

/-- Files by their paths, each path in a directory that is there and no two to one file. -/
def Host.ofPaths : Host (String → Option (Array UInt8)) where
  render color picture := Snippet.render color picture
  panic _ := ""
  read files path := (files path).elim (.error .notFound) .ok
  write files path bytes := (fun other => if other = path then some bytes else files other, none)

theorem commands_agree_hlt :
    let files := fun path => if path = "/src/a" then some #[0x68, 0x6c, 0x74] else none
    ∃ made after,
      (Command.asm "/src/a" "../out/b" .two .twoPass false).perform .ofPaths 10 files =
        some (made, after) ∧ made.status = 0 ∧
      (Command.dump "/src/a" true).perform .ofPaths 10 after =
        (Command.dump "../out/b" true).perform .ofPaths 10 after := by
  intro files
  have reads : Host.ofPaths.read files "/src/a" = .ok #[0x68, 0x6c, 0x74] := rfl
  have writes : Host.ofPaths.Writes files "/src/a" "../out/b" :=
    fun bytes => ⟨_, rfl, rfl, rfl⟩
  have decoded : Utf8.decode [0x68, 0x6c, 0x74] = .ok "hlt" := by decide +kernel
  have assembled : assemble? .two .twoPass "hlt" = some (.ok ⟨⟨.two, #[0]⟩, ⟨[]⟩⟩) := by
    decide +kernel
  obtain ⟨-, whole⟩ := commands_agree reads 10
  obtain ⟨-, looks⟩ := whole (by decide) writes
  obtain ⟨made, after, performed, success, same⟩ :=
    looks "hlt" _ decoded (by decide) assembled false
  exact ⟨made, after, performed, success, (same true).1⟩

end StackMachine
