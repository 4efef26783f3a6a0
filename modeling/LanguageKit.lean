import LanguageKit.Execution
import LanguageKit.Grammar
import LanguageKit.RuleTable
import LanguageKit.Proofs.CursorOrder
import LanguageKit.Proofs.ListingRoundTrip
import LanguageKit.Proofs.InstructionBoundaries
import LanguageKit.Proofs.OperatorParsing
import LanguageKit.Proofs.SequenceEnd
import LanguageKit.Proofs.TextTiling
import LanguageKit.Proofs.Interleavings
import LanguageKit.Proofs.SourceLayout
import LanguageKit.Proofs.FailureSurfacing
import LanguageKit.Proofs.Transparency
import LanguageKit.Proofs.TableRefinement
import LanguageKit.Proofs.ResizeSpacing
import LanguageKit.Proofs.RelocatablePrograms
import LanguageKit.Proofs.LineByLine
import LanguageKit.Proofs.AcceptableLines
import LanguageKit.Proofs.FaultAftermath
import LanguageKit.Proofs.LabelMistakes
import LanguageKit.Proofs.AssemblyReports
import LanguageKit.Proofs.PatchResolution
import LanguageKit.Proofs.ForeignLabels
import LanguageKit.Proofs.FoldingLoop
import LanguageKit.Proofs.ClimbingComposes
import LanguageKit.Proofs.ExpressionsEnd
import LanguageKit.Proofs.LimitedOutput
import LanguageKit.Proofs.ListingReading
import LanguageKit.Proofs.MaximalMunch
import LanguageKit.Proofs.CountingLoop
import LanguageKit.Proofs.OperandWords
