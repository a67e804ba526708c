import StackMachine.Assembly.Snippet
import StackMachine.CommandLine.Answer

set_option autoImplicit false

namespace StackMachine

def unbounded : Nat := 0x4000000000000000

def faultOf : IO.Error → FileFault
  | .noFileOrDirectory .. => .notFound
  | .inappropriateType _ code _ => if code = 21 then .isDirectory else .notDirectory
  | error => .other (toString error)

def console : Console := ⟨Snippet.render, fun _ => "the source cannot be read\n"⟩

def readContent (path : String) : IO Content := do
  try
    let bytes ← IO.FS.readBinFile path
    return .ok bytes.data
  catch error => return .error (faultOf error)

def print (answer : Answer) : IO UInt32 := do
  IO.print answer.stdout
  IO.eprint answer.stderr
  return UInt32.ofNat answer.status

def write (command : Command) (answer : Answer) : IO Answer := do
  match answer.file with
  | none => return answer
  | some (path, bytes) =>
    try
      IO.FS.writeBinFile path ⟨bytes⟩
      return answer
    catch error => return .failure console command.color (.write path (faultOf error))

end StackMachine

open StackMachine in
def main (words : List String) : IO UInt32 := do
  match Command.ofWords? words with
  | none => return UInt32.ofNat Answer.usageStatus
  | some command =>
    match command.answer console unbounded (← readContent command.input) with
    | none => return 1
    | some answer => print (← write command answer)
