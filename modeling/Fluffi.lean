import Fluffi.Systems.Run
import Fluffi.Systems.Chunks
import Fluffi.Systems.Memory
import Fluffi.Systems.Thinning
import Fluffi.Systems.Table
import Fluffi.Systems.Shares
import Fluffi.Systems.Texts
import Fluffi.Systems.Erasure
import Fluffi.Systems.Records
import Fluffi.Shared.Identity
import Fluffi.Shared.Evaluation
import Fluffi.Shared.Strings
import Fluffi.Shared.Paths
import Fluffi.Shared.Files
import Fluffi.Shared.Transfer
import Fluffi.Shared.ReceivedFiles
import Fluffi.Shared.Lossless
import Fluffi.Shared.FaultyDisk
import Fluffi.Shared.RepeatedStore
import Fluffi.Shared.GarbageCollector
import Fluffi.Shared.PendingMarks
import Fluffi.Shared.OrderlyStores
import Fluffi.Shared.ExternalProcess
import Fluffi.Shared.RequestSockets
import Fluffi.Shared.Proxy
import Fluffi.Shared.ProxySteps
import Fluffi.Shared.Routing
import Fluffi.SharedMem.Mailbox
import Fluffi.SharedMem.RoundTrip
import Fluffi.SharedMem.RelayInStep
import Fluffi.Generator.Manager
import Fluffi.Generator.Ledger
import Fluffi.Generator.Cleaner
import Fluffi.Generator.CleanerRuns
import Fluffi.Generator.Delivery
import Fluffi.Generator.Producers
import Fluffi.Generator.NoResponse
import Fluffi.Generator.Honggfuzz
import Fluffi.LocalManager.Database
import Fluffi.LocalManager.InterestingTestcases
import Fluffi.LocalManager.NoResponse
import Fluffi.LocalManager.CompletedLog
import Fluffi.LocalManager.CompletedCache
import Fluffi.LocalManager.PutTestEvaluation
import Fluffi.LocalManager.RefusedEvaluations
import Fluffi.LocalManager.HandOut
import Fluffi.LocalManager.Scheduling
import Fluffi.LocalManager.Turns
import Fluffi.LocalManager.EvenRatings
import Fluffi.LocalManager.FleetReports
import Fluffi.LocalManager.FleetHistory
import Fluffi.LocalManager.Downloads
import Fluffi.LocalManager.DownloadRuns
import Fluffi.LocalManager.SeparateDownloads
import Fluffi.LocalManager.Welcome
import Fluffi.LocalManager.NeededSubtype
import Fluffi.LocalManager.WelcomeAgreement
import Fluffi.Generator.ReinsertionInterval
import Fluffi.LocalManager.Balance
import Fluffi.LocalManager.PopulationMinimization
import Fluffi.LocalManager.Billing
import Fluffi.LocalManager.LogMessages
import Fluffi.Evaluator.Coverage
import Fluffi.Runner.Feeder
import Fluffi.Runner.TestExecutor
import Fluffi.Runner.InStep
import Fluffi.Runner.ForcedRestart
import Fluffi.Runner.Drcov
import Fluffi.Runner.CoverageLog
import Fluffi.Runner.OwnCoverage
import Fluffi.Runner.GdbThread
import Fluffi.Runner.HardReset
import Fluffi.Runner.GdbText
import Fluffi.Runner.BreakpointHit
import Fluffi.Runner.LineReader
import Fluffi.Runner.Dialogue
import Fluffi.Runner.Responses
import Fluffi.Runner.Calls
import Fluffi.Runner.InfoFiles
import Fluffi.Runner.SectionLines
import Fluffi.Runner.ParsedFiles
import Fluffi.Runner.CrashLocation
import Fluffi.Runner.OriginalBytes
import Fluffi.Runner.QemuTrace
import Fluffi.Runner.QemuBlocks
import Fluffi.Runner.Fetch
import Fluffi.Runner.CommPartnerManager
import Fluffi.Fuzzcmp.Cascade
import Fluffi.Fuzzcmp.Strings
import Fluffi.Fuzzcmp.Memory
import Fluffi.GlobalManager.Database
import Fluffi.GlobalManager.RegisterAtGM
import Fluffi.GlobalManager.LocalManagers
import Fluffi.GlobalManager.Workers
import Fluffi.Shared.TestcasePaths
import Fluffi.Systems.Renames
import Fluffi.Generator.NumberedFiles
import Fluffi.Generator.ExternalFiles
import Fluffi.Shared.MarkedFiles
import Fluffi.Generator.ParentFiles
import Fluffi.Runner.TestcaseFiles
import Fluffi.Runner.TestcaseDelivery
import Fluffi.Runner.TestcaseTurns
import Fluffi.Runner.Timeouts
import Fluffi.Systems.Deadlines
import Fluffi.Runner.DrcovHeader
import Fluffi.Runner.DrcovBlocks
import Fluffi.Runner.DrcovFiles
import Fluffi.CaRRoT.ByteOrderMarks
import Fluffi.CaRRoT.Correlation
import Fluffi.CaRRoT.JenksGroups
import Fluffi.CaRRoT.Grouping
import Fluffi.CaRRoT.GroupCorrelation
import Fluffi.CaRRoT.Mutate
import Fluffi.CaRRoT.Mutants
import Fluffi.Oedipus.Merge
import Fluffi.Oedipus.Selection
import Fluffi.Oedipus.SecondParents
import Fluffi.Systems.Occurrences
import Fluffi.Shared.Splitting
import Fluffi.Oedipus.FileNames
import Fluffi.LocalManager.StatusStrings
import Fluffi.TCPFeeder.ContentLength
import Fluffi.TCPFeeder.Feeding
import Fluffi.Shared.Folders
import Fluffi.LocalManager.CrashFootprints
import Fluffi.LocalManager.CappedCrashes
import Fluffi.Shared.CollectingThreads
import Fluffi.Shared.CollectingRounds
import Fluffi.Kfuzz.MemoryCommands
import Fluffi.Evaluator.CoverageSystem
import Fluffi.Kfuzz.InfoFiles
import Fluffi.Kfuzz.Preparation
import Fluffi.Kfuzz.Prepared
import Fluffi.Kfuzz.PreparationRuns
