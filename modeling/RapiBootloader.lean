import RapiBootloader.ArmedImage
import RapiBootloader.Announce
import RapiBootloader.CopyRegion
import RapiBootloader.KernelPush
import RapiBootloader.TftpInject
import RapiBootloader.TftpIdle
import RapiBootloader.PushPaths
import RapiBootloader.StampedWhole
import RapiBootloader.Restamp
import RapiBootloader.PatchScript
import RapiBootloader.IgnoredLines
import RapiBootloader.WrittenAddress
import RapiBootloader.SectionLines
import RapiBootloader.MenuScript
import RapiBootloader.MenuScreen
import RapiBootloader.Lib.CLibrary
import RapiBootloader.WebDavText
import RapiBootloader.WebDavServer
import RapiBootloader.WebDavRequest
import RapiBootloader.WebDavParse
import RapiBootloader.WebDavPut
import RapiBootloader.WebDavBatch
import RapiBootloader.WebDavUpload
import RapiBootloader.WebDavStored
import RapiBootloader.WebDavSegments
import RapiBootloader.WebDavListing
import RapiBootloader.WebDavHrefs
import RapiBootloader.WebDavShared
import RapiBootloader.TftpRefused
import RapiBootloader.SDWrite
import RapiBootloader.Batchers
import RapiBootloader.WebDavWalk
import RapiBootloader.WebDavHeaders
import RapiBootloader.WebDavLength
import RapiBootloader.WebDavTarget
import RapiBootloader.WebDavGet
import RapiBootloader.WebDavWorker
import RapiBootloader.WebDavHead
import RapiBootloader.WebDavMultistatus
import RapiBootloader.Lib.Directories
import RapiBootloader.UploadParents
import RapiBootloader.Lib.Pointers
import RapiBootloader.MenuTables
import RapiBootloader.KeyRace
import RapiBootloader.WholeKernel
import RapiBootloader.ReceivedImage
import RapiBootloader.AddressRange
import RapiBootloader.MenuWindow
import RapiBootloader.UrlBuffer
import RapiBootloader.Lib.Words
import RapiBootloader.HandOff
import RapiBootloader.HandOffRun
import RapiBootloader.Lib.Volumes
import RapiBootloader.WebDavVolume
import RapiBootloader.WebDavReadBack
import RapiBootloader.WebDavListener
import RapiBootloader.BootChain
import RapiBootloader.TftpVolume
import RapiBootloader.MenuLoader
import RapiBootloader.Lib.Ticks
import RapiBootloader.Waits
import RapiBootloader.Lib.Devices
import RapiBootloader.EEEProbe
import RapiBootloader.EEEWire
import RapiBootloader.NetworkSetup
import RapiBootloader.Riders
import RapiBootloader.NetworkBoot
import RapiBootloader.MenuBoot
