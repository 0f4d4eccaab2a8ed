import ExtensionLint.Arguments
import ExtensionLint.Binary64
import ExtensionLint.Caching
import ExtensionLint.Caching.Bounded
import ExtensionLint.Data.Entries
import ExtensionLint.Data.Json
import ExtensionLint.Data.Magnitude
import ExtensionLint.Data.Toml
import ExtensionLint.Data.Toml.Scalar
import ExtensionLint.Data.Toml.Tables
import ExtensionLint.Data.Value
import ExtensionLint.Discovery.Filter
import ExtensionLint.Discovery.Head
import ExtensionLint.Discovery.Walk
import ExtensionLint.Engine
import ExtensionLint.Engine.Pool
import ExtensionLint.Fault
import ExtensionLint.FileSystem
import ExtensionLint.Glob
import ExtensionLint.Main
import ExtensionLint.Manifest.Check
import ExtensionLint.Manifest.ExtensionType
import ExtensionLint.Manifest.Finding
import ExtensionLint.Manifest.Grammar
import ExtensionLint.Manifest.Grammar.Bundled
import ExtensionLint.Manifest.Grammar.Cache
import ExtensionLint.Manifest.Grammar.Reader
import ExtensionLint.Manifest.Grammar.Store
import ExtensionLint.Manifest.Hooks
import ExtensionLint.Manifest.NodeCheck
import ExtensionLint.Manifest.TopLevel
import ExtensionLint.Manifest.Validation
import ExtensionLint.Markup.Character
import ExtensionLint.Markup.Document
import ExtensionLint.Markup.Element
import ExtensionLint.Markup.Prolog
import ExtensionLint.Markup.Reference
import ExtensionLint.Markup.Token
import ExtensionLint.Path
import ExtensionLint.Rendering
import ExtensionLint.Report
import ExtensionLint.Report.Document
import ExtensionLint.Reporter
import ExtensionLint.Results
import ExtensionLint.Results.Document
import ExtensionLint.Rule
import ExtensionLint.Run
import ExtensionLint.Script.Declarations
import ExtensionLint.Script.Encoding
import ExtensionLint.Script.Guard
import ExtensionLint.Script.Scan
import ExtensionLint.Settings
import ExtensionLint.Settings.Document
import ExtensionLint.Settings.Environment
import ExtensionLint.Settings.Layers
import ExtensionLint.Text.Blank
import ExtensionLint.Text.Casing
import ExtensionLint.Text.LetterCase
import ExtensionLint.Text.Lines
import ExtensionLint.Text.Pattern
import ExtensionLint.Text.Quoted
import ExtensionLint.Text.Ranges
import ExtensionLint.Text.Search
import ExtensionLint.Text.Typed
import ExtensionLint.Text.Unprintable
import ExtensionLint.Text.Utf8
import ExtensionLint.Text.WordCharacters
import ExtensionLint.Time
import ExtensionLint.Proofs.Manifest.Descent
import ExtensionLint.Proofs.Manifest.Conformance
import ExtensionLint.Proofs.Manifest.Coverage
import ExtensionLint.Proofs.Manifest.Blocks
import ExtensionLint.Proofs.Manifest.Likeness
import ExtensionLint.Proofs.Manifest.Verdict
import ExtensionLint.Proofs.Caching.Bounded
import ExtensionLint.Proofs.Manifest.Store
import ExtensionLint.Proofs.Manifest.Cache
import ExtensionLint.Proofs.Script.Heredoc
import ExtensionLint.Proofs.Script.Reading
import ExtensionLint.Proofs.Text.Utf8
import ExtensionLint.Proofs.Text.Blank
import ExtensionLint.Proofs.Text.PlainLines
import ExtensionLint.Proofs.Script.Braces
import ExtensionLint.Proofs.Script.Declarations
import ExtensionLint.Proofs.Script.Shape
import ExtensionLint.Proofs.Script.Lexing
import ExtensionLint.Proofs.Script.TopLevel
import ExtensionLint.Proofs.Script.Guard
import ExtensionLint.Proofs.Script.LineByLine
import ExtensionLint.Proofs.Path
import ExtensionLint.Proofs.FileSystem
import ExtensionLint.Proofs.FileSystem.Plain
import ExtensionLint.Proofs.Discovery.Ways
import ExtensionLint.Proofs.Discovery.Files
import ExtensionLint.Proofs.Engine.Pool
import ExtensionLint.Proofs.Engine.Rules
import ExtensionLint.Proofs.Settings.Validity
import ExtensionLint.Proofs.Settings.Layer
import ExtensionLint.Proofs.Settings.Precedence
import ExtensionLint.Proofs.Discovery.Readings
import ExtensionLint.Proofs.Discovery.Head
import ExtensionLint.Proofs.Manifest.Bucket
import ExtensionLint.Proofs.Manifest.Separation
import ExtensionLint.Proofs.Results
import ExtensionLint.Proofs.Engine.Course
import ExtensionLint.Proofs.Run
import ExtensionLint.Proofs.Data.Json
import ExtensionLint.Proofs.Report.Document
import ExtensionLint.Proofs.FirstPlaces
import ExtensionLint.Proofs.Text.Search
import ExtensionLint.Proofs.Script.GuardLine
import ExtensionLint.Proofs.Text.Pattern
import ExtensionLint.Proofs.Script.Encoding
import ExtensionLint.Proofs.Manifest.Multiplicity
import ExtensionLint.Proofs.Manifest.SiblingOrder
import ExtensionLint.Proofs.Text.LineEnds
import ExtensionLint.Proofs.Script.Progress
import ExtensionLint.Proofs.Script.LineEnds
import ExtensionLint.Proofs.Script.Guard.LineEnds
import ExtensionLint.Proofs.Script.BracePairs
import ExtensionLint.Proofs.Script.Statements
import ExtensionLint.Proofs.Script.Heads
import ExtensionLint.Proofs.Script.DeclarationGrammar
import ExtensionLint.Proofs.Script.Blanking
import ExtensionLint.Proofs.Script.Lookahead
import ExtensionLint.Proofs.Script.Recleaning
import ExtensionLint.Proofs.Discovery.Prolog
import ExtensionLint.Proofs.Data.Entries
import ExtensionLint.Proofs.Manifest.Ruleset
import ExtensionLint.Proofs.Manifest.GrammarDocument
import ExtensionLint.Proofs.Rendering
import ExtensionLint.Proofs.Results.Document
import ExtensionLint.Proofs.Rendering.Quiet
import ExtensionLint.Proofs.Engine.Progress
import ExtensionLint.Proofs.Settings.Acceptance
import ExtensionLint.Proofs.Text.Items
import ExtensionLint.Proofs.Text.JoinedLines
import ExtensionLint.Proofs.Script.BraceCounts
import ExtensionLint.Proofs.Text.LetterCase
import ExtensionLint.Proofs.Engine.Agreement
