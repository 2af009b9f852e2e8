import Intcode.Channel
import Intcode.Code
import Intcode.CommandLine
import Intcode.CommandLine.Invocation
import Intcode.CommandLine.Run
import Intcode.Directory
import Intcode.Effect
import Intcode.Fault
import Intcode.Instruction
import Intcode.Json
import Intcode.Json.Parse
import Intcode.Json.Print
import Intcode.Json.Token
import Intcode.Machine
import Intcode.Main
import Intcode.Memory
import Intcode.Network
import Intcode.Network.Pool
import Intcode.Network.Run
import Intcode.Program
import Intcode.Program.Json
import Intcode.Report
import Intcode.Report.Json
import Intcode.Setup
import Intcode.Text
import Intcode.Text.Unprintable
import Intcode.Proofs.Instruction.Plan
import Intcode.Proofs.Machine.Step
import Intcode.Proofs.Network.Step
import Intcode.Proofs.Network.Assembly
import Intcode.Proofs.Ideal
import Intcode.Proofs.Network.Schedule
import Intcode.Proofs.Network.Fault
import Intcode.Proofs.Network.Isolation
import Intcode.Proofs.Network.Reset
import Intcode.Proofs.Instruction.Contract
import Intcode.Proofs.Machine.Outcome
import Intcode.Proofs.Network.Journal
import Intcode.Proofs.Network.Conservation
import Intcode.Proofs.Network.Accounting
import Intcode.Proofs.Network.Locality
import Intcode.Proofs.Network.Listing
import Intcode.Proofs.Network.Timing
import Intcode.Proofs.Network.Rest
import Intcode.Proofs.Network.Pool
import Intcode.Proofs.Network.Loop
import Intcode.Proofs.Checks
import Intcode.Proofs.Instruction.Digits
import Intcode.Proofs.Machine.Precedence
import Intcode.Proofs.Network.Growth
import Intcode.Proofs.Json.Token
import Intcode.Proofs.Json.Parse
import Intcode.Proofs.Json.Record
import Intcode.Proofs.Report.Json
import Intcode.Proofs.Report.Sum
import Intcode.Proofs.Report.Table
import Intcode.Proofs.CommandLine.Run
import Intcode.Proofs.Instruction.Guarded
import Intcode.Proofs.Text.Blank
import Intcode.Proofs.Text.Lines
import Intcode.Proofs.Machine.Bounds
import Intcode.Proofs.Program.Text
import Intcode.Proofs.Program.Json
import Intcode.Proofs.Program.Samples
import Intcode.Proofs.Setup
