import Interlingua.Settings
import Interlingua.Json.Printer
import Interlingua.Registry
import Interlingua.Text.Word
import Interlingua.Tree.Json
import Interlingua.Tree.Similar
import Interlingua.Proofs.StandIn
import Interlingua.Proofs.LeavesKept
import Interlingua.Proofs.NormalForm
import Interlingua.Proofs.Template.Parts
import Interlingua.Proofs.Operators
import Interlingua.Proofs.OperatorsReported
import Interlingua.Proofs.Supported
import Interlingua.Proofs.Template.Literal
import Interlingua.Proofs.Template.Expandable
import Interlingua.Proofs.Template.Interpolated
import Interlingua.Proofs.Page.Composed
import Interlingua.Proofs.Page.Printers
import Interlingua.Proofs.Scripts
import Interlingua.Proofs.Mentions
import Interlingua.Proofs.Page.Marks
import Interlingua.Proofs.LeavesWritten
import Interlingua.Proofs.MentionsKept
import Interlingua.Proofs.Reached
import Interlingua.Proofs.ConstantsKept
import Interlingua.Proofs.ParametersKept
import Interlingua.Proofs.Declarations
import Interlingua.Proofs.DuplicatesSettled
import Interlingua.Proofs.Literals
import Interlingua.Proofs.ReadAlike
import Interlingua.Proofs.PositionsUnseen
import Interlingua.Proofs.Json.Expr
import Interlingua.Proofs.Json.Node
import Interlingua.Proofs.Json.Ast
import Interlingua.Proofs.HintsUnseen
import Interlingua.Proofs.ShapesRead
import Interlingua.Proofs.Json.ReadRearranged
import Interlingua.Proofs.ReferencesKept
import Interlingua.Proofs.ArgumentsSpelled
import Interlingua.Proofs.GroupingKept
import Interlingua.Proofs.Registry.Routes
import Interlingua.Proofs.Objects.Reordered
import Interlingua.Proofs.ValuesAttached
import Interlingua.Proofs.ChainsRead
import Interlingua.Proofs.ReportsPlaced
import Interlingua.Proofs.TokensUnseen
import Interlingua.Proofs.Wrapped
import Interlingua.Proofs.ArraysFlattened
import Interlingua.Proofs.Draft.Basic
import Interlingua.Proofs.Draft.CSharp
import Interlingua.Proofs.Draft.Joined
import Interlingua.Proofs.Draft.Cursor
import Interlingua.Proofs.Draft.Segments
import Interlingua.Proofs.Draft.Terminated
import Interlingua.Proofs.Strings.Contained
import Interlingua.Proofs.PrefixesWritten
import Interlingua.Proofs.ChainsLinked
import Interlingua.Proofs.VariablesTranslated
import Interlingua.Proofs.Page.Lines
