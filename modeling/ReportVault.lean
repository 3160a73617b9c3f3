import ReportVault.Engine.Native
import ReportVault.Engine.Persist
import ReportVault.FileSystem.Tree
import ReportVault.Main
import ReportVault.Proofs.Codec.Rearranged
import ReportVault.Proofs.Codec.Torn
import ReportVault.Proofs.Engine.History
import ReportVault.Proofs.Engine.ReadFailures
import ReportVault.Proofs.Engine.Survivors
import ReportVault.Proofs.Engine.Resume
import ReportVault.Proofs.Engine.NativeCrash
import ReportVault.Proofs.Engine.Leftovers
import ReportVault.Proofs.Engine.Interleaving
import ReportVault.Proofs.Engine.OpenFiles
import ReportVault.Proofs.Engine.Priority
import ReportVault.Proofs.Engine.Demotion
import ReportVault.Proofs.Engine.Current
import ReportVault.Proofs.Engine.Latest
import ReportVault.Proofs.Engine.Faults
import ReportVault.Proofs.Engine.Identity
import ReportVault.Proofs.Engine.Trimming
import ReportVault.Proofs.Engine.FailedWrites
import ReportVault.Proofs.Engine.NothingToReport
import ReportVault.Proofs.Engine.Undecodable
import ReportVault.Proofs.Engine.UnreadableEvents
import ReportVault.Proofs.Engine.EventFiles
import ReportVault.Proofs.Engine.AllOrNothing
import ReportVault.Proofs.Store.Records
import ReportVault.Proofs.Store.Answers
import ReportVault.Proofs.Retention.Selection
import ReportVault.Proofs.Engine.LocalFaults
import ReportVault.Proofs.Engine.StartTime
import ReportVault.Proofs.Engine.Confined
import ReportVault.Proofs.Store.Damage
import ReportVault.Proofs.Command.FindReport
import ReportVault.Proofs.Command.Purge
import ReportVault.Proofs.Command.Harmless
import ReportVault.Proofs.Retention.Settings
import ReportVault.Proofs.Engine.WrittenFiles
