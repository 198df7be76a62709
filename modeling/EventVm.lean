import EventVm.Assembly.Draft
import EventVm.Assembly.Listing
import EventVm.Assembly.Statement
import EventVm.Bytes.Crc32
import EventVm.Bytes.LittleEndian
import EventVm.Bytes.LittleEndian.Lemmas
import EventVm.Bytes.Reader
import EventVm.Bytes.Sha256
import EventVm.CommandLine.Arguments
import EventVm.CommandLine.Commands
import EventVm.CommandLine.Help
import EventVm.CommandLine.Report
import EventVm.Config.Options
import EventVm.Config.Toml
import EventVm.Decimal.BinaryFloat
import EventVm.Decimal.Layout
import EventVm.Decimal.Reading
import EventVm.Decimal.Shortest
import EventVm.Event.Table
import EventVm.Event.Vocabulary
import EventVm.Files
import EventVm.Heap
import EventVm.Instruction
import EventVm.Json
import EventVm.Machine.Basic
import EventVm.Machine.Error
import EventVm.Machine.Stack
import EventVm.Main
import EventVm.Opcode
import EventVm.Path
import EventVm.Program.Basic
import EventVm.Program.Builder
import EventVm.Program.Container
import EventVm.Program.Summary
import EventVm.Program.Verification
import EventVm.Proofs.Assembly.Comments
import EventVm.Proofs.Assembly.Compilation
import EventVm.Proofs.Assembly.Drafting
import EventVm.Proofs.Assembly.Emission
import EventVm.Proofs.Assembly.InitialValues
import EventVm.Proofs.Assembly.Interning
import EventVm.Proofs.Assembly.Listing
import EventVm.Proofs.Assembly.Names
import EventVm.Proofs.Assembly.Numbers
import EventVm.Proofs.Assembly.Reading
import EventVm.Proofs.Assembly.Reassembly
import EventVm.Proofs.Assembly.Rereading
import EventVm.Proofs.Assembly.RoundTrip
import EventVm.Proofs.Assembly.ShownValues
import EventVm.Proofs.Assembly.Source
import EventVm.Proofs.Assembly.StringLiterals
import EventVm.Proofs.Assembly.Verification
import EventVm.Proofs.Bytes.Burst
import EventVm.Proofs.Bytes.Crc32
import EventVm.Proofs.Bytes.PrefixStable
import EventVm.Proofs.Bytes.Takes
import EventVm.Proofs.Bytes.Yields
import EventVm.Proofs.CommandLine.Settings
import EventVm.Proofs.Decimal.Layout
import EventVm.Proofs.Decimal.RoundTrip
import EventVm.Proofs.Decimal.Rounding
import EventVm.Proofs.Decimal.Shortest
import EventVm.Proofs.Failure
import EventVm.Proofs.Heap
import EventVm.Proofs.Machine.Effect
import EventVm.Proofs.Machine.InstructionSets
import EventVm.Proofs.Machine.Loaded
import EventVm.Proofs.Program.Building
import EventVm.Proofs.Program.Canonical
import EventVm.Proofs.Program.Container
import EventVm.Proofs.Program.Corruption
import EventVm.Proofs.Program.Forms
import EventVm.Proofs.Program.Header
import EventVm.Proofs.Program.Layout
import EventVm.Proofs.Program.Listings
import EventVm.Proofs.Program.Requests
import EventVm.Proofs.Program.Stream
import EventVm.Proofs.Program.Tables
import EventVm.Proofs.Program.Truncation
import EventVm.Proofs.Program.Verified
import EventVm.Proofs.PublicVariables.Reconciled
import EventVm.Proofs.PublicVariables.Stored
import EventVm.Proofs.SemVer.Display
import EventVm.Proofs.SymbolTable
import EventVm.Proofs.Text.Integer
import EventVm.Proofs.Text.Lines
import EventVm.Proofs.Text.Numerals
import EventVm.Proofs.Text.Quoted
import EventVm.Proofs.Value.Codec
import EventVm.Proofs.Value.Literal
import EventVm.Proofs.World.Accounts
import EventVm.Proofs.World.Activation
import EventVm.Proofs.World.Answers
import EventVm.Proofs.World.Balance
import EventVm.Proofs.World.Calls
import EventVm.Proofs.World.Chronicles
import EventVm.Proofs.World.Confinement
import EventVm.Proofs.World.Consistency
import EventVm.Proofs.World.Deeds
import EventVm.Proofs.World.Ends
import EventVm.Proofs.World.Executing
import EventVm.Proofs.World.Fetching
import EventVm.Proofs.World.FunctionCalls
import EventVm.Proofs.World.Grafts
import EventVm.Proofs.World.HaltFlag
import EventVm.Proofs.World.History
import EventVm.Proofs.World.Isolation
import EventVm.Proofs.World.Journals
import EventVm.Proofs.World.Lifecycle
import EventVm.Proofs.World.Loading
import EventVm.Proofs.World.Lookup
import EventVm.Proofs.World.Moments
import EventVm.Proofs.World.Relaying
import EventVm.Proofs.World.Reloading
import EventVm.Proofs.World.Replication
import EventVm.Proofs.World.Reports
import EventVm.Proofs.World.Respect
import EventVm.Proofs.World.Routing
import EventVm.Proofs.World.Rules
import EventVm.Proofs.World.Serving
import EventVm.Proofs.World.Setting
import EventVm.Proofs.World.SharedStack
import EventVm.Proofs.World.Soundness
import EventVm.Proofs.World.Steps
import EventVm.Proofs.World.Stopping
import EventVm.Proofs.World.TypedHeap
import EventVm.Proofs.World.UnknownVariables
import EventVm.PublicVariables
import EventVm.SemVer.Requirement
import EventVm.SemVer.Version
import EventVm.SymbolTable
import EventVm.SyncTable
import EventVm.Text.Blank
import EventVm.Text.Hex
import EventVm.Text.Integer
import EventVm.Text.Lines
import EventVm.Text.Quoted
import EventVm.Text.Utf8
import EventVm.Text.Visible
import EventVm.Value.Basic
import EventVm.Value.Literal
import EventVm.Value.TypeTag
import EventVm.World.Basic
import EventVm.World.Behaviour
import EventVm.World.Call
import EventVm.World.Execution
import EventVm.World.Function
import EventVm.World.Journal
import EventVm.World.Operation
