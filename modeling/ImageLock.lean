import ImageLock.Main
import ImageLock.Access.Table
import ImageLock.Proofs.AnyLockFile
import ImageLock.Proofs.AtomicWrite
import ImageLock.Proofs.History
import ImageLock.Proofs.PackageVersions
import ImageLock.Proofs.ResolvedPins
import ImageLock.Proofs.IndexLooks
import ImageLock.Proofs.OneIndex
import ImageLock.Proofs.UnusableIndex
import ImageLock.Proofs.Report
import ImageLock.Proofs.UpdatedAgain
import ImageLock.Proofs.LockRoundTrip
import ImageLock.Proofs.Embedding
import ImageLock.Proofs.ShownConfig
import ImageLock.Proofs.ChainWalk
import ImageLock.Proofs.StageGroups
import ImageLock.Proofs.HashedDefinitions
import ImageLock.Proofs.NothingIgnored
import ImageLock.Proofs.Inherited
import ImageLock.Proofs.Inferred
import ImageLock.Proofs.Integrated
import ImageLock.Proofs.Healthchecks
import ImageLock.Proofs.NumberedReleases
import ImageLock.Proofs.SettledExtensions
import ImageLock.Proofs.SelectedRanges
import ImageLock.Proofs.Spacing
import ImageLock.Proofs.NumberLimits
import ImageLock.Proofs.DescribedPackages
import ImageLock.Proofs.Stanzas
import ImageLock.Proofs.SuiteOrder
import ImageLock.Proofs.ShellScripts
import ImageLock.Proofs.ToolScripts
import ImageLock.Proofs.RepositoryScripts
import ImageLock.Proofs.UnreachableRepository
import ImageLock.Proofs.WrittenContexts
import ImageLock.Proofs.CheckedServers
import ImageLock.Proofs.ReleaseFiles
import ImageLock.Proofs.DefinitionKept
import ImageLock.Proofs.WrittenStages
import ImageLock.Proofs.KeyOrder
import ImageLock.Proofs.ListedReleases
import ImageLock.Proofs.Operations
