import StepLang.Assembly.Assembler
import StepLang.Assembly.Content
import StepLang.Assembly.Dump
import StepLang.Assembly.Error
import StepLang.Assembly.Line
import StepLang.CommandLine.CompileCommand
import StepLang.CommandLine.Flags
import StepLang.CommandLine.InspectCommand
import StepLang.CommandLine.Options
import StepLang.CommandLine.Values
import StepLang.Compile
import StepLang.Datum.Basic
import StepLang.Datum.Read
import StepLang.Datum.Render
import StepLang.Execution
import StepLang.Expr.Basic
import StepLang.Expr.Code
import StepLang.Expr.OfDatum
import StepLang.Files.FileSystem
import StepLang.Files.Path
import StepLang.Instruction.Basic
import StepLang.Instruction.Decode
import StepLang.Instruction.Encode
import StepLang.Listing
import StepLang.Machine.Basic
import StepLang.Machine.Run
import StepLang.Main
import StepLang.Position
import StepLang.Proofs.Bytes
import StepLang.Proofs.Compilation
import StepLang.Proofs.Completion
import StepLang.Proofs.Consistency
import StepLang.Proofs.Contents
import StepLang.Proofs.Dumps
import StepLang.Proofs.Encoding
import StepLang.Proofs.Grammar
import StepLang.Proofs.Interpretation
import StepLang.Proofs.Layout
import StepLang.Proofs.LineJoin
import StepLang.Proofs.Lines
import StepLang.Proofs.NormalForm
import StepLang.Proofs.Numerals
import StepLang.Proofs.Reading
import StepLang.Proofs.Refinement
import StepLang.Proofs.Rendering
import StepLang.Proofs.RoundTrip
import StepLang.Proofs.Scanning
import StepLang.Proofs.Stepping
import StepLang.Proofs.Template
import StepLang.Proofs.ViablePrefix
import StepLang.ReadError
import StepLang.Register
import StepLang.Session.Basic
import StepLang.Session.Dialogue
import StepLang.Session.History
import StepLang.Text.Basic
import StepLang.Text.Blank
import StepLang.Text.Case
import StepLang.Text.Letter
import StepLang.Text.Literal
import StepLang.Text.Numeral
import StepLang.Text.Printable
import StepLang.Text.Quoted
import StepLang.Text.Ranges
import StepLang.Token.Basic
import StepLang.Token.Scan
import StepLang.Proofs.Reuse
import StepLang.Proofs.Listings
import StepLang.Proofs.Decoding
import StepLang.Proofs.Running
import StepLang.Proofs.Faults
import StepLang.Proofs.Fetching
import StepLang.Proofs.Frame
import StepLang.Proofs.Transcripts
import StepLang.Proofs.Files
import StepLang.Proofs.Extensions
import StepLang.Proofs.Commands
import StepLang.Proofs.Effects
import StepLang.Proofs.UniqueCode
import StepLang.Proofs.Expressible
import StepLang.Proofs.Resuming
import StepLang.Proofs.Arithmetic
import StepLang.Proofs.Partition
import StepLang.Proofs.Building
import StepLang.Proofs.Literals
import StepLang.Proofs.ReadBack
import StepLang.Proofs.FirstFault
import StepLang.Proofs.Placeless
import StepLang.Proofs.Recall
import StepLang.Proofs.Walking
import StepLang.Proofs.Streaming
import StepLang.Proofs.TraceLines
import StepLang.Proofs.Tracing
import StepLang.Proofs.WrittenLines
import StepLang.Proofs.WorkStack
