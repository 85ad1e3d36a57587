import Bvstk.Events.JournalAccounting
import Bvstk.Library.Wire
import Bvstk.Config.JsonValues
import Bvstk.Fs.TarTree
import Bvstk.Fat.AtomicReplacement
import Bvstk.Fat.CrashConsistency
import Bvstk.Fat.TarContainment
import Bvstk.Library.Machine
import Bvstk.Library.CallLog
import Bvstk.I2c.PolicySafety
import Bvstk.I2c.FrameAudit
import Bvstk.I2c.ConfigAtomicity
import Bvstk.I2c.MirrorCoherence
import Bvstk.Mdio.PolicySafety
import Bvstk.Mdio.ConfigAtomicity
import Bvstk.Dcp2.CacheWire
import Bvstk.Dcp2.FsSession
import Bvstk.Dcp2.FsHandles
import Bvstk.Dcp2.FsTransfers
import Bvstk.Dcp2.CacheEffect
import Bvstk.Dcp2.CacheInvariant
import Bvstk.Cache.RegistryHistory
import Bvstk.Dcp2.CacheClient
import Bvstk.Dcp2.CachePaging
import Bvstk.Dcp2.CacheSimulation
import Bvstk.Dcp2.CacheObserver
import Bvstk.Dcp2.CacheConvergence
import Bvstk.Cache.RegistryInvariant
import Bvstk.Cache.RegistryStructure
import Bvstk.Dcp2.CacheSession
import Bvstk.I2c.CacheCapture
import Bvstk.Library.RuleSets
import Bvstk.Console.EditorAgreement
import Bvstk.Surfaces.ControlSurfaces
import Bvstk.Surfaces.Linked
import Bvstk.Config.I2cJson
import Bvstk.Config.ProfileVersion
import Bvstk.Config.Printing
import Bvstk.Config.MdioJson
import Bvstk.Config.MdioReading
import Bvstk.Config.MdioRoundTrip
import Bvstk.Library.Utf8Text
import Bvstk.Config.I2cNames
import Bvstk.Config.I2cSearch
import Bvstk.Config.I2cReading
import Bvstk.Config.I2cRoundTrip
import Bvstk.Surfaces.Interleaving
import Bvstk.Surfaces.LiveConfig
import Bvstk.Surfaces.LostUpdates
import Bvstk.Sd.VolumeConfinement
import Bvstk.Sd.WriteSafety
import Bvstk.Dcp2.MemoryWrites
import Bvstk.Dcp2.MemoryConfinement
import Bvstk.Dcp2.PolicyBuses
import Bvstk.Dcp2.Control
import Bvstk.Pl.SdChunks
import Bvstk.Pl.SdMasterOutcome
import Bvstk.Pl.I2cMasterFraming
import Bvstk.Qspi.DiskExactness
import Bvstk.Web.HttpDecoding
import Bvstk.Surfaces.WholePut
import Bvstk.Console.FsPathExactness
import Bvstk.Web.JsonGateExactness
import Bvstk.Cli.LineDisplay
import Bvstk.Sd.CardCapacity
import Bvstk.Web.HttpInputExactness
import Bvstk.Config.NumberReaders
import Bvstk.Fs.PathExactness
import Bvstk.Fs.PaxLength
import Bvstk.Pl.SdChecksums
import Bvstk.I2c.ReadPointer
import Bvstk.Mdio.WorkerSchedule
import Bvstk.I2c.NeutrinoApply
import Bvstk.Fat.TarRoundTrip
import Bvstk.Surfaces.Resaving
import Bvstk.Dcp2.SubscriptionAccount
