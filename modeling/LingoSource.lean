import LingoSource.Bytes.Basic
import LingoSource.Bytes.Cursor
import LingoSource.Chunk.Error
import LingoSource.Chunk.Handler
import LingoSource.Chunk.Literal
import LingoSource.Chunk.NameTable
import LingoSource.Chunk.Script
import LingoSource.Command.Action
import LingoSource.Command.Arguments
import LingoSource.Command.Directory
import LingoSource.Command.Environment
import LingoSource.Command.Log
import LingoSource.Command.Run
import LingoSource.Instruction.Opcode
import LingoSource.Instruction.Pair
import LingoSource.Instruction.Stream
import LingoSource.JavaScript.Expression
import LingoSource.JavaScript.Script
import LingoSource.Layout.Arguments
import LingoSource.Layout.Frame
import LingoSource.Layout.Writer
import LingoSource.Lingo.Expression
import LingoSource.Lingo.Script
import LingoSource.Number.Double
import LingoSource.Number.Extended
import LingoSource.Number.Layout
import LingoSource.Number.Shortest
import LingoSource.Pattern.Atom
import LingoSource.Pattern.Basic
import LingoSource.Pattern.Bracket
import LingoSource.Pattern.CharSet
import LingoSource.Pattern.Mode
import LingoSource.Pattern.Read
import LingoSource.Proofs.Condition.Scan
import LingoSource.Proofs.Condition.Unfolding
import LingoSource.Proofs.Expression.Code
import LingoSource.Proofs.Expression.Decoding
import LingoSource.Proofs.Flow.Lifting
import LingoSource.Proofs.Flow.Refinement
import LingoSource.Proofs.Flow.Trace
import LingoSource.Proofs.Instruction.Assembly
import LingoSource.Proofs.Instruction.Effect
import LingoSource.Proofs.Loop.Unfolding
import LingoSource.Proofs.Program.Block
import LingoSource.Proofs.Program.Layout
import LingoSource.Proofs.Program.Outcome
import LingoSource.Proofs.Program.Pass
import LingoSource.Proofs.Program.Placing
import LingoSource.Proofs.Program.RoundTrip
import LingoSource.Proofs.Program.Run
import LingoSource.Proofs.Program.State
import LingoSource.Proofs.Tree.Forget
import LingoSource.Recovery.Condition
import LingoSource.Recovery.Context
import LingoSource.Recovery.Error
import LingoSource.Recovery.Exit
import LingoSource.Recovery.Loop
import LingoSource.Recovery.Machine
import LingoSource.Recovery.Script
import LingoSource.Recovery.Step
import LingoSource.Recovery.Weight
import LingoSource.Settings.Basic
import LingoSource.Settings.Read
import LingoSource.Text.Blank
import LingoSource.Text.Case
import LingoSource.Text.CaseTable
import LingoSource.Text.Escaped
import LingoSource.Text.Hexadecimal
import LingoSource.Text.Letter
import LingoSource.Text.Search
import LingoSource.Toml.Document
import LingoSource.Toml.Line
import LingoSource.Toml.Number
import LingoSource.Toml.Text
import LingoSource.Toml.Value
import LingoSource.Tree.Basic
import LingoSource.Tree.Operator
import LingoSource.Tree.Script
import LingoSource.Vocabulary
import LingoSource.Main
import LingoSource.Proofs.Instruction.Emission
import LingoSource.Proofs.Instruction.Order
import LingoSource.Proofs.Flow.Kinds
import LingoSource.Proofs.Flow.Payload
import LingoSource.Proofs.Grammar.Basic
import LingoSource.Proofs.Grammar.Text
import LingoSource.Proofs.Grammar.Script
import LingoSource.Proofs.Meaning.StackMachine
import LingoSource.Proofs.Meaning.Value
import LingoSource.Proofs.Meaning.StraightLine
import LingoSource.Proofs.Bytes.Image
import LingoSource.Proofs.Number.Extended
import LingoSource.Proofs.Chunk.Image
import LingoSource.Proofs.Chunk.Reading
import LingoSource.Proofs.Instruction.Change
import LingoSource.Proofs.Instruction.Starts
import LingoSource.Proofs.Flow.Jumps
import LingoSource.Proofs.Recovery.Location
import LingoSource.Proofs.Tree.Globals
import LingoSource.Proofs.Recovery.Globals
import LingoSource.Proofs.JavaScript.Blocks
import LingoSource.Proofs.Instruction.Stability
import LingoSource.Proofs.Recovery.Independence
import LingoSource.Proofs.Lingo.Layout
import LingoSource.Proofs.Text.Search
import LingoSource.Proofs.JavaScript.Layout
import LingoSource.Proofs.Layout.Script
import LingoSource.Proofs.JavaScript.Literal
import LingoSource.Proofs.JavaScript.Within
import LingoSource.Proofs.JavaScript.Operand
import LingoSource.Proofs.Lingo.Phrase
import LingoSource.Proofs.Lingo.Reading
import LingoSource.Proofs.Recovery.Scale
import LingoSource.Proofs.Instruction.Scaling
import LingoSource.Proofs.Condition.Repetition
import LingoSource.Proofs.Recovery.Entries
import LingoSource.Proofs.Loop.Counting
import LingoSource.Proofs.Meaning.Rounds
import LingoSource.Proofs.Text.Parentheses
import LingoSource.Proofs.JavaScript.Header
import LingoSource.Proofs.JavaScript.Field
import LingoSource.Proofs.Instruction.Success
import LingoSource.Proofs.Property.Object
import LingoSource.Proofs.Property.Identifier
import LingoSource.Proofs.Property.Agreement
import LingoSource.Proofs.Loop.Taking
import LingoSource.Proofs.Loop.Elements
import LingoSource.Proofs.Loop.Rereading
import LingoSource.Proofs.Loop.Variable
import LingoSource.Proofs.Text.Case
import LingoSource.Proofs.JavaScript.Call
import LingoSource.Proofs.JavaScript.Variable
import LingoSource.Proofs.Text.Comment
import LingoSource.Proofs.Lingo.Comment
import LingoSource.Proofs.Tree.Operands
import LingoSource.Proofs.Lingo.FirstLine
import LingoSource.Proofs.Chunk.Constant
import LingoSource.Proofs.Instruction.Lexical
import LingoSource.Proofs.Recovery.Comment
import LingoSource.Proofs.Instruction.Depth
import LingoSource.Proofs.Tell.Brackets
import LingoSource.Proofs.Tell.Matching
import LingoSource.Proofs.Text.Escaped
import LingoSource.Proofs.Number.Magnitude
import LingoSource.Proofs.Number.Nearest
import LingoSource.Proofs.Number.Rounding
import LingoSource.Proofs.Number.Shortest
import LingoSource.Proofs.Number.Numeral
import LingoSource.Proofs.Number.Layout
import LingoSource.Proofs.Chunk.Names
import LingoSource.Proofs.Command.Directory
import LingoSource.Proofs.Command.Outcome
