import DocPrologue.Access
import DocPrologue.AtomicWrite
import DocPrologue.Attribute
import DocPrologue.Block
import DocPrologue.Builtins
import DocPrologue.Bytes
import DocPrologue.Command.Basic
import DocPrologue.Command.Flags
import DocPrologue.Command.World
import DocPrologue.Comment
import DocPrologue.Cursor
import DocPrologue.Directories
import DocPrologue.DocComment
import DocPrologue.Failure
import DocPrologue.FileTree
import DocPrologue.Form
import DocPrologue.Format
import DocPrologue.Inclusion
import DocPrologue.Interpreter
import DocPrologue.Literal
import DocPrologue.Log
import DocPrologue.Main
import DocPrologue.Manifest
import DocPrologue.Once
import DocPrologue.Path
import DocPrologue.Position
import DocPrologue.Proofs.LineEndings
import DocPrologue.Proofs.Lines
import DocPrologue.Proofs.Lookahead
import DocPrologue.Proofs.Progress
import DocPrologue.Proofs.Readers
import DocPrologue.Proofs.Regions
import DocPrologue.Proofs.Returns
import DocPrologue.Proofs.RoundTrip
import DocPrologue.Proofs.Scan
import DocPrologue.Region
import DocPrologue.Script.Arguments
import DocPrologue.Script.Evaluation
import DocPrologue.Script.Interpreter
import DocPrologue.Script.Program
import DocPrologue.Script.Source
import DocPrologue.Script.Token
import DocPrologue.Script.Value
import DocPrologue.Target
import DocPrologue.Testing.Archive
import DocPrologue.Testing.Assertion
import DocPrologue.Testing.CaseName
import DocPrologue.Testing.CommandCase
import DocPrologue.Testing.Golden
import DocPrologue.Testing.Pattern
import DocPrologue.Testing.Report
import DocPrologue.Text.Blank
import DocPrologue.Text.Decimal
import DocPrologue.Text.Letter
import DocPrologue.Text.Printable
import DocPrologue.Text.Quoted
import DocPrologue.Text.Utf8
import DocPrologue.Tool.Plan
import DocPrologue.Tool.Session
import DocPrologue.Tool.Settings
import DocPrologue.Tool.Watch
import DocPrologue.Version
import DocPrologue.Proofs.AttributeGrammar
import DocPrologue.Proofs.Inclusions
import DocPrologue.Proofs.LineComments
import DocPrologue.Proofs.SortedTexts
import DocPrologue.Proofs.TargetCalls
import DocPrologue.Proofs.Courses
import DocPrologue.Proofs.SmallPrograms
import DocPrologue.Proofs.Dependencies
import DocPrologue.Proofs.WellFormedTargets
import DocPrologue.Proofs.Watching
import DocPrologue.Proofs.Registration
import DocPrologue.Proofs.Walks
import DocPrologue.Proofs.Denotations
import DocPrologue.Proofs.AtomicWrites
import DocPrologue.Proofs.Passes
import DocPrologue.Proofs.CommandRuns
import DocPrologue.Proofs.TargetPrograms
import DocPrologue.Proofs.Agreement
import DocPrologue.Proofs.Repetition
import DocPrologue.Proofs.Bundles
import DocPrologue.Proofs.Outputs
import DocPrologue.Proofs.Pieces
import DocPrologue.Proofs.Characters
import DocPrologue.Proofs.Verbatim
import DocPrologue.Proofs.GoFiles
import DocPrologue.Proofs.Nesting
import DocPrologue.Proofs.PlainLiterals
import DocPrologue.Proofs.RawLiterals
import DocPrologue.Proofs.LoneReturns
import DocPrologue.Proofs.Displacement
import DocPrologue.Proofs.Trivia
import DocPrologue.Proofs.Composition
import DocPrologue.Proofs.NormalForm
import DocPrologue.Proofs.Joining
import DocPrologue.Proofs.PackageComments
import DocPrologue.Proofs.Faults
import DocPrologue.Proofs.Positions
import DocPrologue.Proofs.ValidTexts
import DocPrologue.Proofs.ValidUtf8
import DocPrologue.Proofs.Resolution
import DocPrologue.Proofs.Configuration
import DocPrologue.Proofs.DocComments
import DocPrologue.Proofs.LinkFreePaths
import DocPrologue.Proofs.ResolvablePaths
import DocPrologue.Proofs.DirectoryLists
import DocPrologue.Proofs.Verdicts
import DocPrologue.Proofs.LiteralStarts
