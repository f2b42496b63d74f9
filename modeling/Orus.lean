import Orus.CommandLine.Effect
import Orus.Editor.Highlight
import Orus.Editor.Reindent
import Orus.Editor.Samples
import Orus.Editor.Session
import Orus.Json.Reader
import Orus.Main
import Orus.Run.Report
import Orus.Scope.Tree
import Orus.Share.Link
import Orus.Syntax.Codec
import Orus.Proofs.Compositional
import Orus.Proofs.Effects
import Orus.Proofs.Failures
import Orus.Proofs.Budget
import Orus.Proofs.Growth
import Orus.Proofs.Termination
import Orus.Proofs.RaisedLimits
import Orus.Proofs.Literals
import Orus.Proofs.Safety
import Orus.Proofs.Escapes
import Orus.Proofs.Cancellation
import Orus.Proofs.Scanning.Lexemes
import Orus.Proofs.Scanning.Tiling
import Orus.Proofs.Derivations
import Orus.Proofs.Soundness
import Orus.Proofs.Subtrees
import Orus.Proofs.Codec
import Orus.Proofs.Scoping
import Orus.Proofs.Isolation
import Orus.Proofs.Places.Reports
import Orus.Proofs.EmptyScopes
import Orus.Proofs.Likeness.Trees
import Orus.Proofs.Likeness.Values
import Orus.Proofs.Likeness.Scopes
import Orus.Proofs.Likeness.Running
import Orus.Proofs.Likeness.Outcomes
import Orus.Proofs.NestedElse
import Orus.Proofs.Layout.Trees
import Orus.Proofs.Scanning.Respacing
import Orus.Proofs.Layout.Parsing
import Orus.Proofs.Layout.Behaviour
import Orus.Proofs.Rendering.Canonical
import Orus.Proofs.Rendering.Strings
import Orus.Proofs.Rendering.Expressions
import Orus.Proofs.Rendering.Programs
import Orus.Proofs.Bindings
import Orus.Proofs.ScopeTrees
import Orus.Proofs.SharedScopes
import Orus.Proofs.Hoisting
import Orus.Proofs.Logging
import Orus.Proofs.Visibility
import Orus.Proofs.Chains
import Orus.Proofs.Precedence
import Orus.Proofs.Interpolation
import Orus.Proofs.StringLiterals
import Orus.Proofs.Sharing.Letters
import Orus.Proofs.Sharing.Tokens
import Orus.Proofs.Sharing.Links
import Orus.Proofs.Annotations.Insertion
import Orus.Proofs.Ranges
import Orus.Proofs.Highlighting.Markup
import Orus.Proofs.Highlighting.Agreement
import Orus.Proofs.Reindenting.Depths
import Orus.Proofs.Reindenting.Tokens
import Orus.Proofs.Equality
import Orus.Proofs.Numbers.Display
