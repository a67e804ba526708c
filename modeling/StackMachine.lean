import StackMachine.Assembly.Diagnostic
import StackMachine.Main
import StackMachine.Proofs.Assembly.Appearance
import StackMachine.Proofs.Assembly.Labels
import StackMachine.Proofs.Assembly.OperandReading
import StackMachine.Proofs.Assembly.Outcome
import StackMachine.Proofs.Assembly.Pointing
import StackMachine.Proofs.Assembly.ReadBack
import StackMachine.Proofs.Assembly.Renaming
import StackMachine.Proofs.Bytecode.Container
import StackMachine.Proofs.Bytecode.Cursor
import StackMachine.Proofs.Bytecode.Locality
import StackMachine.Proofs.Bytecode.Markers
import StackMachine.Proofs.CommandLine.Agreement
import StackMachine.Proofs.Machine.Account
import StackMachine.Proofs.Machine.Blame
import StackMachine.Proofs.Machine.Cells
import StackMachine.Proofs.Machine.Failure
import StackMachine.Proofs.Machine.FirstFormat
import StackMachine.Proofs.Machine.Forward
import StackMachine.Proofs.Machine.Fuel
import StackMachine.Proofs.Machine.Headroom
import StackMachine.Proofs.Machine.Jumps
import StackMachine.Proofs.Machine.Offsets
import StackMachine.Proofs.Machine.Refusal
import StackMachine.Proofs.Machine.Registers
import StackMachine.Proofs.Machine.Verbosity
