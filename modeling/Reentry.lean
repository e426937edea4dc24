import Reentry.Actor.Basic
import Reentry.Actor.Frame
import Reentry.Code.Assembly
import Reentry.Code.Dump
import Reentry.Code.Edit
import Reentry.Code.FrameShape
import Reentry.Code.Instr
import Reentry.Code.Label
import Reentry.Code.Operand
import Reentry.Code.Routine
import Reentry.Command
import Reentry.Execution.Continuation
import Reentry.Execution.Failure
import Reentry.Execution.Monad
import Reentry.Execution.Operand
import Reentry.Execution.Run
import Reentry.Execution.Step
import Reentry.Exploration.Branch
import Reentry.Exploration.Search
import Reentry.Json.Basic
import Reentry.Json.Parser
import Reentry.Json.Printer
import Reentry.Json.Record
import Reentry.Json.Token
import Reentry.Lowering.Body
import Reentry.Lowering.Error
import Reentry.Lowering.Fragment
import Reentry.Lowering.Options
import Reentry.Lowering.Program
import Reentry.Lowering.Template
import Reentry.Main
import Reentry.Program.Basic
import Reentry.Program.Name
import Reentry.Program.Node
import Reentry.Program.Reader
import Reentry.Program.Ty
import Reentry.Program.TypeTable
import Reentry.Program.Writer
import Reentry.Proofs.Calls.Lowered
import Reentry.Proofs.Calls.Returned
import Reentry.Proofs.Choices.Answered
import Reentry.Proofs.Choices.Asked
import Reentry.Proofs.Choices.Echoed
import Reentry.Proofs.Choices.Told
import Reentry.Proofs.Custody.Acyclic
import Reentry.Proofs.Custody.Aim
import Reentry.Proofs.Custody.Film
import Reentry.Proofs.Custody.Forest
import Reentry.Proofs.Custody.Loops
import Reentry.Proofs.Custody.Lowered
import Reentry.Proofs.Custody.Plain
import Reentry.Proofs.Custody.Run
import Reentry.Proofs.Custody.World
import Reentry.Proofs.Depth.Bounded
import Reentry.Proofs.Equality.Copies
import Reentry.Proofs.Equality.Search
import Reentry.Proofs.Equality.Trees
import Reentry.Proofs.Equality.Values
import Reentry.Proofs.Events.Guarded
import Reentry.Proofs.Events.Lowered
import Reentry.Proofs.Events.Once
import Reentry.Proofs.Events.Raised
import Reentry.Proofs.Execution.Monad
import Reentry.Proofs.Execution.Moves
import Reentry.Proofs.Execution.Parts
import Reentry.Proofs.Execution.Reads
import Reentry.Proofs.Execution.Watch
import Reentry.Proofs.Exploration.Complete
import Reentry.Proofs.Exploration.Ready
import Reentry.Proofs.Exploration.Search
import Reentry.Proofs.Exploration.Tree
import Reentry.Proofs.Forest.Copies
import Reentry.Proofs.Forest.Values
import Reentry.Proofs.Forks.Isolation
import Reentry.Proofs.Frames.Active
import Reentry.Proofs.Frames.Below
import Reentry.Proofs.Frames.Calm
import Reentry.Proofs.Frames.Deserted
import Reentry.Proofs.Frames.Discipline
import Reentry.Proofs.Frames.Run
import Reentry.Proofs.Frames.Scoped
import Reentry.Proofs.Frames.Sound
import Reentry.Proofs.Frames.Stack
import Reentry.Proofs.Frames.Step
import Reentry.Proofs.Frames.World
import Reentry.Proofs.Grammar.Accepted
import Reentry.Proofs.Grammar.Exact
import Reentry.Proofs.Inputs.Awaited
import Reentry.Proofs.Inputs.Landing
import Reentry.Proofs.Inputs.Once
import Reentry.Proofs.Inputs.Spent
import Reentry.Proofs.Keys.Operation
import Reentry.Proofs.Keys.Sealed
import Reentry.Proofs.Keys.Stage
import Reentry.Proofs.Keys.Turns
import Reentry.Proofs.Labels.Account
import Reentry.Proofs.Labels.Assembled
import Reentry.Proofs.Labels.Exact
import Reentry.Proofs.Labels.Lowered
import Reentry.Proofs.Labels.Verified
import Reentry.Proofs.Locations.Access
import Reentry.Proofs.Locations.Swap
import Reentry.Proofs.Locations.WriteBack
import Reentry.Proofs.Lowering.CallFree
import Reentry.Proofs.Lowering.Choices
import Reentry.Proofs.Lowering.Monad
import Reentry.Proofs.Lowering.Regular
import Reentry.Proofs.Mail.Conserved
import Reentry.Proofs.Mail.Letters
import Reentry.Proofs.Mail.Paired
import Reentry.Proofs.Mail.Single
import Reentry.Proofs.Messages.Pieces
import Reentry.Proofs.Ownership.Copies
import Reentry.Proofs.Ownership.Kept
import Reentry.Proofs.Ownership.Region
import Reentry.Proofs.Ownership.Run
import Reentry.Proofs.Ownership.Sends
import Reentry.Proofs.Ownership.Separate
import Reentry.Proofs.Ownership.Values
import Reentry.Proofs.Ownership.World
import Reentry.Proofs.Receive.Attends
import Reentry.Proofs.Receive.Journal
import Reentry.Proofs.Receive.Listens
import Reentry.Proofs.Receive.Mute
import Reentry.Proofs.Receive.Parked
import Reentry.Proofs.Receive.Run
import Reentry.Proofs.Receive.Session
import Reentry.Proofs.RoundTrip.Lexed
import Reentry.Proofs.RoundTrip.Nodes
import Reentry.Proofs.RoundTrip.Parsed
import Reentry.Proofs.RoundTrip.Programs
import Reentry.Proofs.RoundTrip.Records
import Reentry.Proofs.Stewardship.Code
import Reentry.Proofs.Stewardship.Run
import Reentry.Proofs.Stewardship.Stage
import Reentry.Proofs.Structure.Control
import Reentry.Proofs.Structure.Course
import Reentry.Proofs.Structure.Labels
import Reentry.Proofs.Structure.Layout
import Reentry.Proofs.Structure.Outline
import Reentry.Proofs.Structure.Simulation
import Reentry.Proofs.Structure.Spelling
import Reentry.Proofs.Structure.Statements
import Reentry.Proofs.Suspension.Direct
import Reentry.Proofs.Suspension.Forget
import Reentry.Proofs.Suspension.Fuel
import Reentry.Proofs.Suspension.Nested
import Reentry.Proofs.Suspension.Resume
import Reentry.Proofs.Suspension.Settled
import Reentry.Proofs.Suspension.Transparent
import Reentry.Proofs.Twins.Cells
import Reentry.Proofs.Twins.Depth
import Reentry.Proofs.Twins.Execution
import Reentry.Proofs.Twins.Mirror
import Reentry.Proofs.Twins.Run
import Reentry.Proofs.Twins.Values
import Reentry.Proofs.Verification.Control
import Reentry.Proofs.Verification.Sound
import Reentry.Settings.Basic
import Reentry.Settings.Reader
import Reentry.Text.Decimal
import Reentry.Text.GraphemeExtend
import Reentry.Text.Placeholder
import Reentry.Text.Quoted
import Reentry.Text.Unprintable
import Reentry.Toml.Basic
import Reentry.Toml.Document
import Reentry.Toml.Quoted
import Reentry.Toml.Scalar
import Reentry.Value.Container
import Reentry.Value.Equality
import Reentry.Value.Error
import Reentry.Value.Heap
import Reentry.Value.Membership
import Reentry.Value.Operator
import Reentry.Value.Reader
import Reentry.Value.Tree
import Reentry.Value.Writer
import Reentry.World.Basic
import Reentry.World.Drive
import Reentry.Proofs.Equality.Laws
import Reentry.Proofs.Types.Contract
import Reentry.Proofs.Ownership.Brought
import Reentry.Proofs.Ownership.Inserted
import Reentry.Proofs.Keys.Apart
