import Collate.Main
import Collate.Proofs.Arguments.Accepted
import Collate.Proofs.Arguments.Spelled
import Collate.Proofs.Concatenation.Bounded
import Collate.Proofs.Concatenation.Calls
import Collate.Proofs.Console.Json
import Collate.Proofs.Job.Exclusion
import Collate.Proofs.Job.Frame
import Collate.Proofs.Job.Plan
import Collate.Proofs.Job.Report
import Collate.Proofs.Job.Rerun
import Collate.Proofs.Run.ErrorStream
import Collate.Proofs.Run.ExitCode
import Collate.Proofs.Run.Extension
import Collate.Proofs.Run.Presentation
import Collate.Proofs.Run.Stdout
import Collate.Proofs.Scan.Canonical
import Collate.Proofs.Scan.Display
import Collate.Proofs.Scan.Following
import Collate.Proofs.Scan.Hidden
import Collate.Proofs.Scan.Loops
import Collate.Proofs.Scan.Narrowed
import Collate.Proofs.Settings.Effective
import Collate.Proofs.Settings.Validation
import Collate.Proofs.Text.Size
