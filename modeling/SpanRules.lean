import SpanRules.Command
import SpanRules.Document.Basic
import SpanRules.Document.Load
import SpanRules.Document.Token
import SpanRules.Evaluation
import SpanRules.Failure
import SpanRules.Files.Fault
import SpanRules.Files.FileSystem
import SpanRules.Files.Glob.ByteSet
import SpanRules.Files.Glob.Expansion
import SpanRules.Files.Glob.Matching
import SpanRules.Files.OpenFile
import SpanRules.Files.Resource
import SpanRules.Flag.Basic
import SpanRules.Flag.CommandLine
import SpanRules.Labeling
import SpanRules.Layer.Basic
import SpanRules.Layer.Capitals
import SpanRules.Layer.Operation
import SpanRules.Layer.Pseudotoken
import SpanRules.Log
import SpanRules.Main
import SpanRules.Order
import SpanRules.OrderedMap
import SpanRules.OrderedSet
import SpanRules.Pattern.Basic
import SpanRules.Pattern.Extraction
import SpanRules.Pattern.Fault
import SpanRules.Pattern.Reading
import SpanRules.Phrase.Trie
import SpanRules.Program
import SpanRules.Proofs.Canonical
import SpanRules.Proofs.Document.Alignment
import SpanRules.Proofs.Document.Tokens
import SpanRules.Proofs.Document.WellFormed
import SpanRules.Proofs.Document.Words
import SpanRules.Proofs.Files.Writing
import SpanRules.Proofs.Flag.Argument
import SpanRules.Proofs.Flag.CommandLine
import SpanRules.Proofs.Flag.Integer
import SpanRules.Proofs.Labeling.Effect
import SpanRules.Proofs.Labeling.Extraction
import SpanRules.Proofs.Labeling.Partition
import SpanRules.Proofs.Labeling.References
import SpanRules.Proofs.Labeling.Rejection
import SpanRules.Proofs.Labeling.TokenProperty
import SpanRules.Proofs.Labeling.WellFormed
import SpanRules.Proofs.Layer.ByteRange
import SpanRules.Proofs.Layer.Growth
import SpanRules.Proofs.Layer.Import
import SpanRules.Proofs.Layer.Instances
import SpanRules.Proofs.Layer.Labels
import SpanRules.Proofs.Layer.Operation
import SpanRules.Proofs.Layer.Pseudotoken
import SpanRules.Proofs.Layer.Selection
import SpanRules.Proofs.Layer.TypeEdits
import SpanRules.Proofs.Layer.WellFormed
import SpanRules.Proofs.Pattern.Acceptance
import SpanRules.Proofs.Pattern.Derivation
import SpanRules.Proofs.Pattern.Meaning
import SpanRules.Proofs.Pattern.Places
import SpanRules.Proofs.Pattern.Repeats
import SpanRules.Proofs.Pattern.Visibility
import SpanRules.Proofs.Phrase.Keys
import SpanRules.Proofs.Phrase.Search
import SpanRules.Proofs.Program.Acceptance
import SpanRules.Proofs.Program.Atomicity
import SpanRules.Proofs.Program.Concatenation
import SpanRules.Proofs.Program.Declaration
import SpanRules.Proofs.Program.Locality
import SpanRules.Proofs.Program.Phrases
import SpanRules.Proofs.Program.RoundTrip
import SpanRules.Proofs.Program.Statements
import SpanRules.Proofs.Program.Termination
import SpanRules.Proofs.Source.Joined
import SpanRules.Proofs.Source.Lexeme
import SpanRules.Proofs.Source.Lines
import SpanRules.Proofs.Source.Placement
import SpanRules.Proofs.Source.PlainWord
import SpanRules.Proofs.Source.Quoted
import SpanRules.Proofs.Source.Reading
import SpanRules.Proofs.Source.Scan
import SpanRules.Proofs.Source.Token
import SpanRules.Proofs.Statement.Acceptance
import SpanRules.Proofs.Statement.Acceptance.Dictionary
import SpanRules.Proofs.Statement.Acceptance.Labeling
import SpanRules.Proofs.Statement.Acceptance.Names
import SpanRules.Proofs.Statement.Grammar
import SpanRules.Proofs.Statement.Relisted
import SpanRules.Proofs.Statement.Reread
import SpanRules.Proofs.Statement.Reread.Backslash
import SpanRules.Proofs.Statement.Reread.Dictionary
import SpanRules.Proofs.Statement.Reread.Files
import SpanRules.Proofs.Statement.Reread.Labeling
import SpanRules.Proofs.Statement.Reread.Names
import SpanRules.Proofs.Statement.Reread.Phrases
import SpanRules.Proofs.Statement.Sourced
import SpanRules.Proofs.Store.Dictionary
import SpanRules.Proofs.Store.Growth
import SpanRules.Proofs.Store.Import
import SpanRules.Proofs.Store.Reachable
import SpanRules.Proofs.Store.Reload
import SpanRules.Proofs.Store.Requirement
import SpanRules.Proofs.Store.TypeNames
import SpanRules.Proofs.Store.WellFormed
import SpanRules.Proofs.Text.Bits
import SpanRules.Proofs.Text.Comment
import SpanRules.Proofs.Text.Glyphs
import SpanRules.Proofs.Text.Lines
import SpanRules.Proofs.Text.Lower
import SpanRules.Proofs.Text.Numeral
import SpanRules.Proofs.Text.Utf8
import SpanRules.Proofs.Text.Walk
import SpanRules.Proofs.Unicode.Lower
import SpanRules.Source.Comment
import SpanRules.Source.Lexeme
import SpanRules.Source.Quoted
import SpanRules.Source.Token
import SpanRules.Span
import SpanRules.Statement.Basic
import SpanRules.Statement.Fault
import SpanRules.Statement.Listing
import SpanRules.Statement.Reading
import SpanRules.Status
import SpanRules.Store.Basic
import SpanRules.Store.Level
import SpanRules.Text.Basic
import SpanRules.Text.Decimal
import SpanRules.Text.Lower
import SpanRules.Text.Utf8
import SpanRules.Unicode.Class
import SpanRules.Unicode.Letter
import SpanRules.Unicode.Lower
