import Monios.Analysis.ChainOrder
import Monios.Analysis.ForkPrivilege
import Monios.Analysis.TlsAuthentication
import Monios.Analysis.SignedImage
import Monios.Analysis.MountSwitch
import Monios.Analysis.LaunchPrivilege
import Monios.Analysis.SyscallGates
import Monios.Analysis.StreamDelivery
import Monios.Analysis.SegmentDemux
import Monios.Analysis.AcceptedConnections
import Monios.Analysis.AckWindow
import Monios.Analysis.CaptureTransparency
import Monios.Analysis.UserPointers
import Monios.Analysis.IoTransparency
import Monios.Analysis.PipeReferences
import Monios.Analysis.SharedMemory
import Monios.Analysis.HeapIntegrity
import Monios.Analysis.CacheTransparency
import Monios.Analysis.PageStore
import Monios.Analysis.PngImage
import Monios.Analysis.ZipAccesses
import Monios.Analysis.PipeQueue
import Monios.Analysis.PortMessages
import Monios.Analysis.ExtSync
import Monios.Analysis.TlsRecords
import Monios.Analysis.DhcpLease
import Monios.Analysis.KernelEntry
import Monios.Analysis.CompleteMediation
import Monios.Analysis.SchedulerChoice
import Monios.Analysis.DnsNames
import Monios.Analysis.TcpChecksum
import Monios.Analysis.GeneralPower
import Monios.Analysis.AnswerPairing
import Monios.Analysis.ForkFailure
import Monios.Analysis.FirewallOrder
import Monios.Analysis.Ipv6Text
import Monios.Analysis.FutexWaiters
import Monios.Analysis.FormatSoundness
import Monios.Analysis.FatLinks
import Monios.Analysis.FilePermissions
import Monios.Analysis.RandomReads
import Monios.Analysis.CertificateAccesses
import Monios.Analysis.CertificateTimes
import Monios.Analysis.MountTables
import Monios.Analysis.CertificateNames
import Monios.Analysis.HostileLog
import Monios.Analysis.AccountLockout
import Monios.Analysis.FatGeometry
import Monios.Analysis.KeyDerivation
import Monios.Analysis.DirectoryIndex
import Monios.Analysis.HandshakeBounds
import Monios.Analysis.ResponseParsing
