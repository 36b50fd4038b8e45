import Doctest.Main
import Doctest.Dict
import Doctest.Document.Parse
import Doctest.Json.Read
import Doctest.Number.Layout
import Doctest.Number.Reading
import Doctest.Text.Case
import Doctest.Text.Search
import Doctest.Proofs.Document.Fence
import Doctest.Proofs.Document.Reading
import Doctest.Proofs.Document.RoundTrip
import Doctest.Proofs.Document.MarkerLine
import Doctest.Proofs.Document.Insertion
import Doctest.Proofs.Document.Gap
import Doctest.Proofs.Check.Rereading
import Doctest.Proofs.Check.Annotation
import Doctest.Proofs.Check.Round
import Doctest.Proofs.Check.Repetition
import Doctest.Proofs.Check.Idempotence
import Doctest.Proofs.Check.Placement
import Doctest.Proofs.Check.Statements
import Doctest.Proofs.Check.Running
import Doctest.Proofs.Check.Calls
import Doctest.Proofs.Script.Keeping.Library
import Doctest.Proofs.Script.Keeping.Evaluation
import Doctest.Proofs.Script.Keeping.Sessions
import Doctest.Proofs.Check.Comparison
import Doctest.Proofs.Script.Settling.Lives
import Doctest.Proofs.Script.Settling.Requests
import Doctest.Proofs.Script.Pairing.Evaluation
import Doctest.Proofs.Script.Awaiting
import Doctest.Proofs.Script.Nesting
import Doctest.Proofs.Script.Settling.Flatness
import Doctest.Proofs.Script.Settling.Agreement
import Doctest.Proofs.Number.Comparison
import Doctest.Proofs.Script.AccessPaths
import Doctest.Proofs.Script.Pairing.Settling
import Doctest.Proofs.Script.Counting
import Doctest.Proofs.Script.Reaching
import Doctest.Proofs.Script.Returning
import Doctest.Proofs.Script.Parsing.Cursors
import Doctest.Proofs.Script.Parsing.Mirrors
import Doctest.Proofs.Script.Scanning
import Doctest.Proofs.Script.Parsing.Walk
import Doctest.Proofs.Script.Parsing.Joining
import Doctest.Proofs.Script.Pieces
import Doctest.Proofs.Script.JsonRoundTrip
import Doctest.Proofs.Script.Parsing.Printing
import Doctest.Proofs.Script.ShownBack
import Doctest.Proofs.Check.SelfEquality
import Doctest.Proofs.Check.LineEnds
import Doctest.Proofs.Check.Weaving
import Doctest.Proofs.Script.Settling.ErrorFields
import Doctest.Proofs.CommandLine.Program
import Doctest.Proofs.Script.Parsing.Grammar
import Doctest.Proofs.Script.Parsing.Outcomes
import Doctest.Proofs.Script.Parsing.Descent
import Doctest.Proofs.Script.Parsing.Programs
import Doctest.Proofs.Script.Parsing.Separation
import Doctest.Proofs.Script.Places
import Doctest.Proofs.Script.Parsing.Totality
import Doctest.Proofs.Script.Parsing.Precedence
import Doctest.Proofs.Script.Comments
import Doctest.Proofs.Script.Parsing.Objects
import Doctest.Proofs.Script.Parsing.Grouping
import Doctest.Proofs.Document.CodeSpan
import Doctest.Proofs.Check.Continuations
import Doctest.Proofs.Script.Tiling
import Doctest.Proofs.Script.Parsing.Extents
import Doctest.Proofs.Check.Diagnostics
import Doctest.Proofs.Script.Circles
import Doctest.Proofs.Script.Settling.Endings
import Doctest.Proofs.Script.Literals
import Doctest.Proofs.Script.NumberKeys
import Doctest.Proofs.Script.RelativePositions
import Doctest.Proofs.Number.Integers
import Doctest.Proofs.Text.Searching
import Doctest.Proofs.Script.TextPositions
import Doctest.Proofs.Script.Separators
import Doctest.Proofs.Script.ArrayWrites
import Doctest.Proofs.Script.Callbacks
import Doctest.Proofs.Check.ReadTwice
import Doctest.Proofs.Script.NestedScopes
import Doctest.Proofs.Text.Positions
