import StructuredLog.Scenario.Run
import StructuredLog.Proofs.Context.Frames
import StructuredLog.Proofs.Context.Grouping
import StructuredLog.Proofs.Filters.Verdicts
import StructuredLog.Proofs.Records.Carried
import StructuredLog.Proofs.Records.ModuleNames
import StructuredLog.Proofs.Redaction.Coverage
import StructuredLog.Proofs.Redaction.Secrecy
import StructuredLog.Proofs.Redaction.Spelling
import StructuredLog.Proofs.Fields.Histories
import StructuredLog.Proofs.Building.Loggers
import StructuredLog.Proofs.Vocabulary.Tokens
import StructuredLog.Proofs.LogFiles.DailyBackups
import StructuredLog.Proofs.LogFiles.Restarts
import StructuredLog.Proofs.LogFiles.Closed
import StructuredLog.Proofs.LogFiles.ShiftRegister
import StructuredLog.Proofs.LogFiles.QuietDays
import StructuredLog.Proofs.LogFiles.NewestBackups
import StructuredLog.Proofs.Format.JsonRoundTrip
import StructuredLog.Proofs.Format.JsonTimestamps
import StructuredLog.Proofs.Format.JsonScans
import StructuredLog.Proofs.Format.PrintedValues
import StructuredLog.Proofs.Delivery.Runs
import StructuredLog.Proofs.Registry.Cache
import StructuredLog.Proofs.Registry.FailedBuilds
import StructuredLog.Proofs.Registry.UnusedMembers
import StructuredLog.Proofs.Measurement.Brackets
import StructuredLog.Proofs.Measurement.Crossings
import StructuredLog.Proofs.Presets.Apart
import StructuredLog.Proofs.Time.Midnights
