import Structura.FileName
import Structura.Main
import Structura.Number.Text
import Structura.Proofs.DisjointCases
import Structura.Proofs.Normalization
import Structura.Proofs.SameCases
import Structura.Proofs.Canonicity
import Structura.Proofs.SharedTypes
import Structura.Proofs.DeclarativeSubtyping
import Structura.Proofs.CanonicalRules
import Structura.Proofs.CanonicalJudgments
import Structura.Proofs.Values
import Structura.Proofs.LeastUpperBound
import Structura.Proofs.DisjointSubtypes
import Structura.Proofs.CompatibleParts
import Structura.Proofs.MeetLaws
import Structura.Proofs.CheckingSynthesis
import Structura.Proofs.RepeatedOperands
import Structura.Proofs.RuntimeOperators
import Structura.Proofs.MemberOrder
import Structura.Proofs.Lexing
import Structura.Proofs.TypeRuns
import Structura.Proofs.ExprRuns
import Structura.Proofs.OpenInput
import Structura.Proofs.Beginnings
import Structura.Proofs.ParserInvariant
import Structura.Proofs.ParserExact
import Structura.Proofs.FirstFault
import Structura.Proofs.RelativePlaces
import Structura.Proofs.SourceSlices
import Structura.Proofs.Locations
import Structura.Proofs.NumberText
import Structura.Proofs.PrintedText
import Structura.Proofs.PrintedTypes
import Structura.Proofs.FailureIsolation
import Structura.Proofs.JudgmentInvariants
import Structura.Proofs.FaultPlaces
import Structura.Proofs.PrintedAnnotations
import Structura.Proofs.ReboundOperators
import Structura.Proofs.ClosedArrows
import Structura.Proofs.PrintedExpressions
import Structura.Proofs.FreeNames
import Structura.Proofs.UnsupportedForms
import Structura.Proofs.LinePlaces
import Structura.Proofs.DrawnReports
import Structura.Proofs.LineFeeds
import Structura.Proofs.StatementRows
import Structura.Proofs.GreatestLowerBound
import Structura.Proofs.AdditiveOperators
import Structura.Proofs.NestedTraces
import Structura.Proofs.MemberAccess
import Structura.Proofs.NestingLimit
import Structura.Proofs.BranchBudget
import Structura.Proofs.ByteOffsets
