import StylusToScss.Main
import StylusToScss.Tree.Json
import StylusToScss.Proofs.Except
import StylusToScss.Proofs.Token.Runs
import StylusToScss.Proofs.Token.Spelling
import StylusToScss.Proofs.Token.Lossless
import StylusToScss.Proofs.Token.Levels
import StylusToScss.Proofs.Tree.Shape
import StylusToScss.Proofs.Value.Reading
import StylusToScss.Proofs.Interpolation
import StylusToScss.Proofs.Token.Slices
import StylusToScss.Proofs.Statement.Line
import StylusToScss.Proofs.Statement.Reading
import StylusToScss.Proofs.Scss.Obstacles
import StylusToScss.Proofs.Scss.Shape
import StylusToScss.Proofs.Conversion
import StylusToScss.Proofs.Value.Faithful
import StylusToScss.Proofs.Scss.Erasure
import StylusToScss.Proofs.Scss.Lenient
import StylusToScss.Proofs.Statement.Numbering
import StylusToScss.Proofs.Binary64.ReadBack
import StylusToScss.Proofs.Token.Cutting
import StylusToScss.Proofs.Scss.Formula
import StylusToScss.Proofs.Value.Regrouping
import StylusToScss.Proofs.Scss.RoundTrip
import StylusToScss.Proofs.Balanced
import StylusToScss.Proofs.Pieces
import StylusToScss.Proofs.WhiteSpace
import StylusToScss.Proofs.Tree.Strings
import StylusToScss.Proofs.Tree.Unnumbered
import StylusToScss.Proofs.Tree.Reloaded
import StylusToScss.Proofs.Scss.Inline
import StylusToScss.Proofs.Scss.Outline
import StylusToScss.Proofs.Scss.Marks
import StylusToScss.Proofs.Scss.Placement
import StylusToScss.Proofs.Scss.Braces
import StylusToScss.Proofs.Scss.VerticalLayout
import StylusToScss.Proofs.Scss.Renumbering
import StylusToScss.Proofs.Scss.Acceptance
import StylusToScss.Proofs.Token.Positions
import StylusToScss.Proofs.Token.LineEndings
import StylusToScss.Proofs.Statement.Comments
import StylusToScss.Proofs.Statement.Joined
import StylusToScss.Proofs.Statement.Rescaled
import StylusToScss.Proofs.CommandLine.Commands
import StylusToScss.Proofs.Scss.Emission
import StylusToScss.Proofs.Statement.Blocks
import StylusToScss.Proofs.Scss.Forms
import StylusToScss.Proofs.Scss.Variables
import StylusToScss.Proofs.Scss.Lookups
import StylusToScss.Proofs.Statement.Punctuation
import StylusToScss.Proofs.Statement.IdleLines
import StylusToScss.Proofs.Scss.LookedUp
import StylusToScss.Proofs.Selectors
import StylusToScss.Proofs.Scss.Interpolated
import StylusToScss.Proofs.Statement.Clauses
import StylusToScss.Proofs.Scss.Chains
import StylusToScss.Proofs.Token.Quotes
import StylusToScss.Proofs.Scss.Imports
import StylusToScss.Proofs.Token.Alone
import StylusToScss.Proofs.CommandLine.Beside
import StylusToScss.Proofs.Statement.Faults
