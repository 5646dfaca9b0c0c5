import WinCommander.Operations.Journal.CrashConsistency
import WinCommander.Operations.Journal.History
import WinCommander.Operations.Planner.Delete
import WinCommander.Operations.Planner.TransferSound
import WinCommander.Operations.Center.CoordinatorTerminal
import WinCommander.Staging.XpcRoundTrip
import WinCommander.Staging.LeaseInvariant
import WinCommander.Staging.Ledger.RoundTrip
import WinCommander.Term.AttributeGroups
import WinCommander.Term.Bounds
import WinCommander.Term.CursorSaturation
import WinCommander.Term.RegionScroll
import WinCommander.Operations.Submission.CustodySafety
import WinCommander.Compare.BindSyncPlan
import WinCommander.Compare.MarkDifferences
import WinCommander.Git.DirectoryBadge
import WinCommander.Remote.ConnectionRegistry
import WinCommander.Commands.CommandPaletteTiers
import WinCommander.Operations.ArchiveExtractionManifest
import WinCommander.Compare.RecursiveAccounts
import WinCommander.Search.RunIsolation
import WinCommander.Shortcuts.LookupTables
import WinCommander.VFS.ListingCompose
import WinCommander.VFS.ArcLA.StatePool
import WinCommander.VFS.ReferenceAccounting
import WinCommander.VFS.SeqToRandomWrapper
import WinCommander.VFS.WholeFile
import WinCommander.Viewer.TextProcessing
import WinCommander.Pane.LateJoiner
import WinCommander.Operations.Journal.RetryPolicy
import WinCommander.Operations.Submission.TerminalEvidence
import WinCommander.Search.PlanningClosure
import WinCommander.Config.Persistence
import WinCommander.Operations.Pool.Lifecycle
import WinCommander.VFS.NetFTP.Coherence
import WinCommander.VFS.NetWebDAV.Coherence
import WinCommander.Term.RegionScroll
import WinCommander.VFS.ArcLA.SymlinkAgreement
import WinCommander.Panel.ReloadIdentity
import WinCommander.Panel.CursorBackup
import WinCommander.Panel.FuzzySearch
import WinCommander.Utility.VersionCompare
import WinCommander.Utility.ByteCountFormatter
import WinCommander.Utility.TagsSafety
import WinCommander.Utility.ItemTags
import WinCommander.Panel.ExternalToolsArguments
import WinCommander.Config.Lookup
import WinCommander.Config.Differences
import WinCommander.Operations.Copying.ComposedPaths
import WinCommander.VFS.AppleDoubleEA
import WinCommander.Viewer.Document
import WinCommander.Viewer.Highlighting
import WinCommander.Viewer.History
import WinCommander.Remote.HostKeyPolicy
