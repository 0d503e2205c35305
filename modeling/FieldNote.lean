import FieldNote.AppliedCopies
import FieldNote.AttemptBudget
import FieldNote.AudioUploader
import FieldNote.AuthGate
import FieldNote.BootWiring
import FieldNote.BracketedTrail
import FieldNote.CanonicalRuns
import FieldNote.CreateOnce
import FieldNote.CursorWalk
import FieldNote.DeletedJobs
import FieldNote.DeletedMedia
import FieldNote.DeletionFinality
import FieldNote.EditPreservation
import FieldNote.EditRoundTrip
import FieldNote.EditValidation
import FieldNote.EnvConfig
import FieldNote.FlowTrails
import FieldNote.FullSync
import FieldNote.HonestClient
import FieldNote.HtmlFidelity
import FieldNote.JobDrivers
import FieldNote.LocalEdits
import FieldNote.OwnerMismatch
import FieldNote.PatchFrame
import FieldNote.PdfRenderer
import FieldNote.ProblemDetails
import FieldNote.ProcessFaults
import FieldNote.PushAcknowledged
import FieldNote.QueueLiveness
import FieldNote.ReadyAbsorbing
import FieldNote.RecordedJobs
import FieldNote.RecordingCapture
import FieldNote.RecordingRecovery
import FieldNote.RefreshFlights
import FieldNote.RefreshWaiters
import FieldNote.ReportNormalisation
import FieldNote.ReportOrigin
import FieldNote.ReportPersistence
import FieldNote.ReportReplacement
import FieldNote.RetryAfterFailure
import FieldNote.ReviewScreen
import FieldNote.RotationChains
import FieldNote.SequentialOutcome
import FieldNote.ServedReports
import FieldNote.SessionIsolation
import FieldNote.SharedPdf
import FieldNote.SignInNonce
import FieldNote.SnapshotOrder
import FieldNote.StageFencing
import FieldNote.StageResume
import FieldNote.StoredEmail
import FieldNote.TheftResponse
import FieldNote.TokenStorage
import FieldNote.ToolSchema
import FieldNote.UserIsolation
import FieldNote.VerifiedAccess
import FieldNote.WireFormat
