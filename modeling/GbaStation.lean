import GbaStation.Aes.Arithmetic128
import GbaStation.Audio.FrameLoop
import GbaStation.Audio.PlayPosition
import GbaStation.Audio.Streaming
import GbaStation.Cheats.BlockRuns
import GbaStation.Cheats.CheatFile
import GbaStation.Core.AdvanceOrder
import GbaStation.Core.Conversions
import GbaStation.Core.Playback
import GbaStation.FileSys.BpsPatch
import GbaStation.FileSys.CiaAgreement
import GbaStation.FileSys.LayeredReads
import GbaStation.FileSys.LzssStreams
import GbaStation.FileSys.PathParser
import GbaStation.FileSys.RomfsReader
import GbaStation.FileSys.RomfsTraversal
import GbaStation.Gsp.CommandQueue
import GbaStation.Gsp.GpuRight
import GbaStation.Gsp.VramBackup
import GbaStation.Kernel.GuestArguments
import GbaStation.Kernel.HandleHistory
import GbaStation.Kernel.IpcBounds
import GbaStation.Kernel.MapUnmap
import GbaStation.Kernel.PeriodicTimers
import GbaStation.Kernel.RegionRuns
import GbaStation.Kernel.ResourceConservation
import GbaStation.Kernel.SemaphoreCounts
import GbaStation.Kernel.TlsOwnership
import GbaStation.Ldr.ExportTree
import GbaStation.Ldr.RegistryRuns
import GbaStation.Ldr.RelocationLoops
import GbaStation.Memory.ControlProcess
import GbaStation.Memory.FirstFit
import GbaStation.Memory.Queries
import GbaStation.Network.ArticProtocol
import GbaStation.Network.ArticResponse
import GbaStation.Network.RoomAuthority
import GbaStation.Nwm.Beacon
import GbaStation.Nwm.UdsMembership
import GbaStation.Paging.ScalarAccess
import GbaStation.Paging.Watchpoints
import GbaStation.Pica.CommandList
import GbaStation.Pica.GeometryPipeline
import GbaStation.Pica.InterpreterSimulation
import GbaStation.Pica.PrimitiveAssembly
import GbaStation.Pica.ProgramCache
import GbaStation.Queues.BoundedQueue
import GbaStation.Queues.RingBuffer
import GbaStation.Rasterizer.FillClear
import GbaStation.Rasterizer.FillCoherence
import GbaStation.Rasterizer.MortonCopy
import GbaStation.Rasterizer.TransferCoherence
import GbaStation.Y2R.StripPicture
