import Worksheet.ArrayValue
import Worksheet.Table.Recalculation
import Worksheet.Proofs.Graph.Registration
import Worksheet.Proofs.Graph.Order
import Worksheet.Proofs.Graph.Cycles
import Worksheet.Proofs.Graph.Arrangement
import Worksheet.Proofs.Graph.Enumeration
import Worksheet.Proofs.Graph.Reregistration
import Worksheet.Proofs.Table.Names
import Worksheet.Proofs.Table.Cells
import Worksheet.Proofs.Table.Evaluation
import Worksheet.Proofs.Table.History
import Worksheet.Proofs.Table.Recalculation
import Worksheet.Proofs.Table.Runs
import Worksheet.Proofs.Table.RowOrder
import Worksheet.Proofs.Expression.Soundness
import Worksheet.Proofs.Double.LowerCase
import Worksheet.Proofs.Expression.Enclosed
import Worksheet.Proofs.Table.Afresh
import Worksheet.Proofs.Table.Independence
import Worksheet.Proofs.Table.FailedCells
import Worksheet.Proofs.Table.Declaration
import Worksheet.Proofs.Reference.Filling
import Worksheet.Proofs.Reference.Formula
import Worksheet.Proofs.Reference.Pairing
import Worksheet.Proofs.Table.FailedReads
import Worksheet.Proofs.Table.ReportedCells
import Worksheet.Proofs.Double.Rounding
import Worksheet.Proofs.Double.Shortest
import Worksheet.Proofs.Expression.DecimalText
import Worksheet.Proofs.Expression.ReadBack
import Worksheet.Proofs.Table.NamedColumns
import Worksheet.Proofs.Table.Rearrangement
import Worksheet.Proofs.Table.Answers
import Worksheet.Proofs.Table.Extent
import Worksheet.Proofs.Summary.Stored
import Worksheet.Proofs.Summary.Recalculated
import Worksheet.Proofs.Reference.Reading
import Worksheet.Proofs.Column.NewestWrite
import Worksheet.Proofs.Expression.Overflow
import Worksheet.Proofs.Function.Power
import Worksheet.Proofs.Expression.Formed
import Worksheet.Proofs.Expression.Respaced
import Worksheet.Proofs.Expression.LetterCase
import Worksheet.Proofs.Double.Nearest
import Worksheet.Proofs.Number.Saturation
import Worksheet.Proofs.Expression.Arguments
import Worksheet.Proofs.Expression.Operands
