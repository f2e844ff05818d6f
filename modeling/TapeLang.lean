import TapeLang.Action
import TapeLang.Arguments
import TapeLang.Bracket
import TapeLang.Code.Assembler
import TapeLang.Code.Instruction
import TapeLang.Code.Label
import TapeLang.Code.Listing
import TapeLang.Code.Stride
import TapeLang.CommandLine
import TapeLang.Config
import TapeLang.Console
import TapeLang.Cruise
import TapeLang.Disk
import TapeLang.Engine
import TapeLang.Error
import TapeLang.Host
import TapeLang.Image
import TapeLang.Interpreter
import TapeLang.Interpreter.Run
import TapeLang.Json
import TapeLang.Machine
import TapeLang.Machine.Registers
import TapeLang.Machine.Run
import TapeLang.Machine.Stride
import TapeLang.Main
import TapeLang.Mode
import TapeLang.Path
import TapeLang.Program
import TapeLang.Proofs.Agreement
import TapeLang.Proofs.Block
import TapeLang.Proofs.Ensures
import TapeLang.Proofs.ImageText
import TapeLang.Proofs.JsonText
import TapeLang.Proofs.Layout
import TapeLang.Proofs.Lifecycle
import TapeLang.Proofs.Partner
import TapeLang.Proofs.Record
import TapeLang.Proofs.Resume
import TapeLang.Proofs.Safety
import TapeLang.Proofs.StackShape
import TapeLang.Proofs.Steps
import TapeLang.Proofs.Structured
import TapeLang.Proofs.Words
import TapeLang.Settings
import TapeLang.Shell.Command
import TapeLang.Shell.Editor
import TapeLang.Shell.Session
import TapeLang.Storage
import TapeLang.Tape
import TapeLang.Text.Blank
import TapeLang.Text.CaseData
import TapeLang.Text.CharClass
import TapeLang.Text.Cluster
import TapeLang.Text.ClusterData
import TapeLang.Text.Decimal
import TapeLang.Text.Duration
import TapeLang.Text.Lower
import TapeLang.Text.Style
import TapeLang.Toml.Document
import TapeLang.Toml.Scalar
import TapeLang.Toml.Value
import TapeLang.Proofs.History
import TapeLang.Proofs.Flushing
import TapeLang.Proofs.Tree
import TapeLang.Proofs.Stored
import TapeLang.Proofs.Together
import TapeLang.Proofs.CompiledFiles
import TapeLang.Proofs.Nesting
import TapeLang.Proofs.Lockstep
import TapeLang.Proofs.Streams
import TapeLang.Proofs.Lines
import TapeLang.Proofs.CommandPaths
import TapeLang.Proofs.FailingSinks
import TapeLang.Proofs.Scans
import TapeLang.Proofs.Operators
import TapeLang.Proofs.Waiting
import TapeLang.Proofs.Destinations
import TapeLang.Proofs.Reuse
import TapeLang.Proofs.Renderings
import TapeLang.Proofs.Listings
import TapeLang.Proofs.ShellCommands
import TapeLang.Proofs.Typing
import TapeLang.Proofs.Modular
