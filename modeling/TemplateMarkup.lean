import TemplateMarkup.Assembly.Basic
import TemplateMarkup.Assembly.Destination
import TemplateMarkup.Assembly.Scope
import TemplateMarkup.Command.Arguments
import TemplateMarkup.Command.Discovery
import TemplateMarkup.Command.Report
import TemplateMarkup.Command.Run
import TemplateMarkup.Command.Settings
import TemplateMarkup.Document.Basic
import TemplateMarkup.Document.Decode
import TemplateMarkup.Document.Encode
import TemplateMarkup.Document.NameMap
import TemplateMarkup.Document.NameSet
import TemplateMarkup.Document.ParseError
import TemplateMarkup.Files.Path
import TemplateMarkup.Files.Tree
import TemplateMarkup.Glob.Basic
import TemplateMarkup.Glob.Nesting
import TemplateMarkup.Glob.Reader
import TemplateMarkup.Json.Basic
import TemplateMarkup.Json.Decode
import TemplateMarkup.Json.Outline
import TemplateMarkup.Json.Scan
import TemplateMarkup.Json.Token
import TemplateMarkup.Json.Writer
import TemplateMarkup.Main
import TemplateMarkup.Markup.Attribute
import TemplateMarkup.Markup.RawBody
import TemplateMarkup.Markup.TagReader
import TemplateMarkup.Markup.TextRun
import TemplateMarkup.Markup.Token
import TemplateMarkup.Proofs.Arena.Basic
import TemplateMarkup.Proofs.Arena.Forest
import TemplateMarkup.Proofs.Arena.Heads
import TemplateMarkup.Proofs.Arena.Record
import TemplateMarkup.Proofs.Arena.Representation
import TemplateMarkup.Proofs.Arena.Simulation
import TemplateMarkup.Proofs.Arena.Storage
import TemplateMarkup.Proofs.Assembly.Collection
import TemplateMarkup.Proofs.Assembly.Contents
import TemplateMarkup.Proofs.Assembly.Definition
import TemplateMarkup.Proofs.Assembly.Effects
import TemplateMarkup.Proofs.Assembly.Enclosure
import TemplateMarkup.Proofs.Assembly.FaultPlaces
import TemplateMarkup.Proofs.Assembly.Faults
import TemplateMarkup.Proofs.Assembly.FlatStack
import TemplateMarkup.Proofs.Assembly.Fragment
import TemplateMarkup.Proofs.Assembly.Growth
import TemplateMarkup.Proofs.Assembly.LineEndings
import TemplateMarkup.Proofs.Assembly.Lockstep
import TemplateMarkup.Proofs.Assembly.OpenNames
import TemplateMarkup.Proofs.Assembly.OpenTags
import TemplateMarkup.Proofs.Assembly.Progress
import TemplateMarkup.Proofs.Assembly.Recording
import TemplateMarkup.Proofs.Assembly.Resemblance
import TemplateMarkup.Proofs.Assembly.Rewording
import TemplateMarkup.Proofs.Assembly.Scopes
import TemplateMarkup.Proofs.Assembly.TurnOrder
import TemplateMarkup.Proofs.Assembly.Turns
import TemplateMarkup.Proofs.Canonical.Assembly
import TemplateMarkup.Proofs.Canonical.Scan
import TemplateMarkup.Proofs.Canonical.Spacing
import TemplateMarkup.Proofs.Canonical.Tokens
import TemplateMarkup.Proofs.Canonical.Writing
import TemplateMarkup.Proofs.Command.Descent
import TemplateMarkup.Proofs.Command.Discovery
import TemplateMarkup.Proofs.Command.Isolation
import TemplateMarkup.Proofs.Command.Listing
import TemplateMarkup.Proofs.Command.Reports
import TemplateMarkup.Proofs.Command.Stream
import TemplateMarkup.Proofs.Command.Targets
import TemplateMarkup.Proofs.Command.Workspaces
import TemplateMarkup.Proofs.Document.Bodies
import TemplateMarkup.Proofs.Document.DocumentOrder
import TemplateMarkup.Proofs.Document.Encoding
import TemplateMarkup.Proofs.Document.Families
import TemplateMarkup.Proofs.Document.Inventory
import TemplateMarkup.Proofs.Document.KeptText
import TemplateMarkup.Proofs.Document.Ledger
import TemplateMarkup.Proofs.Document.Lookup
import TemplateMarkup.Proofs.Document.Positions
import TemplateMarkup.Proofs.Document.Provenance
import TemplateMarkup.Proofs.Document.Remaining
import TemplateMarkup.Proofs.Document.Rewording
import TemplateMarkup.Proofs.Document.RoundTrip
import TemplateMarkup.Proofs.Document.ScriptPaths
import TemplateMarkup.Proofs.Document.SlotSummary
import TemplateMarkup.Proofs.Document.SortedReading
import TemplateMarkup.Proofs.Document.TextSpacing
import TemplateMarkup.Proofs.Document.Visible
import TemplateMarkup.Proofs.Document.WellFormed
import TemplateMarkup.Proofs.Edit.Comments
import TemplateMarkup.Proofs.Edit.Continuation
import TemplateMarkup.Proofs.Edit.ExplicitClosing
import TemplateMarkup.Proofs.Edit.Independence
import TemplateMarkup.Proofs.Edit.Insertion
import TemplateMarkup.Proofs.Edit.Respacing
import TemplateMarkup.Proofs.Edit.SelfClosing
import TemplateMarkup.Proofs.Files.Contents
import TemplateMarkup.Proofs.Files.Places
import TemplateMarkup.Proofs.Files.Steps
import TemplateMarkup.Proofs.Files.Writing
import TemplateMarkup.Proofs.Glob.Directories
import TemplateMarkup.Proofs.Glob.Meaning
import TemplateMarkup.Proofs.Json.Codec
import TemplateMarkup.Proofs.Json.Compact
import TemplateMarkup.Proofs.Json.Nesting
import TemplateMarkup.Proofs.Json.Outline
import TemplateMarkup.Proofs.Json.Prepending
import TemplateMarkup.Proofs.Json.Record
import TemplateMarkup.Proofs.Json.SortedReading
import TemplateMarkup.Proofs.Json.Sorting
import TemplateMarkup.Proofs.Json.Tokens
import TemplateMarkup.Proofs.Markup.Correspondence
import TemplateMarkup.Proofs.Markup.Course
import TemplateMarkup.Proofs.Markup.Fork
import TemplateMarkup.Proofs.Markup.LegalTags
import TemplateMarkup.Proofs.Markup.Literals
import TemplateMarkup.Proofs.Markup.Loops
import TemplateMarkup.Proofs.Markup.Movement
import TemplateMarkup.Proofs.Markup.NestedBodies
import TemplateMarkup.Proofs.Markup.PartedText
import TemplateMarkup.Proofs.Markup.Passage
import TemplateMarkup.Proofs.Markup.Relocation
import TemplateMarkup.Proofs.Markup.RunText
import TemplateMarkup.Proofs.Markup.TagOrder
import TemplateMarkup.Proofs.Markup.TagPass
import TemplateMarkup.Proofs.Markup.TagSpace
import TemplateMarkup.Proofs.Markup.Translation
import TemplateMarkup.Proofs.Markup.WholeTags
import TemplateMarkup.Proofs.Markup.WrittenTags
import TemplateMarkup.Proofs.Source.Correspondence
import TemplateMarkup.Proofs.Source.Fork
import TemplateMarkup.Proofs.Source.Order
import TemplateMarkup.Proofs.Source.Passage
import TemplateMarkup.Proofs.Source.Placement
import TemplateMarkup.Proofs.Source.PositionText
import TemplateMarkup.Proofs.Text.Chunks
import TemplateMarkup.Proofs.Text.Flattening
import TemplateMarkup.Proofs.Text.LineEndings
import TemplateMarkup.Proofs.Text.Mentions
import TemplateMarkup.Proofs.Text.Respacing
import TemplateMarkup.Proofs.Text.Trimming
import TemplateMarkup.Source.CharacterClass
import TemplateMarkup.Source.Cursor
import TemplateMarkup.Source.CursorProgress
import TemplateMarkup.Source.Position
import TemplateMarkup.Text.Expression
import TemplateMarkup.Text.Whitespace
import TemplateMarkup.Text.WordCharacter
