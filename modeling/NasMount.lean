import NasMount.Foundation.Prog
import NasMount.Foundation.Reactive
import NasMount.Core.MarkerGrammar
import NasMount.Core.MountpointRoots
import NasMount.Core.MountpointWalk
import NasMount.Core.Mountinfo
import NasMount.Core.MountStack
import NasMount.Core.Pairing
import NasMount.Core.UncGrammar
import NasMount.Core.UnitEncoding
import NasMount.Root.ArmingOutcome
import NasMount.Root.CredentialChecks
import NasMount.Root.DurableRemoveTree
import NasMount.Root.Inventory
import NasMount.Root.Nesting
import NasMount.Root.PackageState
import NasMount.Root.RootLock
import NasMount.Root.Secrets
import NasMount.Root.TriggerIdentity
import NasMount.Session.LookupController
import NasMount.Session.LookupMessages
import NasMount.Session.ProcessTransport
import NasMount.Session.ShareForm
import NasMount.Session.StoreHistory
import NasMount.Session.AddShare
import NasMount.Session.DeleteShare
import NasMount.Session.InstalledFiles
import NasMount.Session.OfferedRemovals
import NasMount.Session.MountPointChecks
