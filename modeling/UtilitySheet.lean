import UtilitySheet.Assembly
import UtilitySheet.Markup
import UtilitySheet.Project.ChangeCache
import UtilitySheet.Project.CommandLine
import UtilitySheet.Project.Pass
import UtilitySheet.Project.Spinner
import UtilitySheet.Main
import UtilitySheet.Proofs.ClassName
import UtilitySheet.Proofs.ClassTable
import UtilitySheet.Proofs.DecimalPoint
import UtilitySheet.Proofs.Markup
import UtilitySheet.Proofs.Compilation
import UtilitySheet.Proofs.Concatenation
import UtilitySheet.Proofs.Conservation
import UtilitySheet.Proofs.Idempotence
import UtilitySheet.Proofs.Reuse
import UtilitySheet.Proofs.Spelling
import UtilitySheet.Proofs.KeptStrings
import UtilitySheet.Proofs.Continuation
import UtilitySheet.Proofs.Filling
import UtilitySheet.Proofs.Braces
import UtilitySheet.Proofs.Sources
import UtilitySheet.Proofs.Watching
import UtilitySheet.Proofs.Batches
import UtilitySheet.Proofs.Emission
import UtilitySheet.Proofs.Cascade
import UtilitySheet.Proofs.ReadBack
import UtilitySheet.Proofs.Renaming
import UtilitySheet.Proofs.Replay
import UtilitySheet.Proofs.TableCalls
import UtilitySheet.Proofs.PolicyOrder
import UtilitySheet.Proofs.MandatedOrder
import UtilitySheet.Proofs.NumericValue
import UtilitySheet.Proofs.AuthorStyles
import UtilitySheet.Proofs.HiddenMarkup
import UtilitySheet.Proofs.Attributes
import UtilitySheet.Proofs.Listing
import UtilitySheet.Proofs.Separation
import UtilitySheet.Proofs.Partition
import UtilitySheet.Proofs.Debouncing
import UtilitySheet.Proofs.Indicating
import UtilitySheet.Proofs.LastWrite
import UtilitySheet.Proofs.HeadForm
import UtilitySheet.Proofs.Comments
