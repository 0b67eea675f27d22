import OpenGda.Ofi.HostBarrierArrival
import OpenGda.Ofi.FabricOvercount
import OpenGda.Mlx5.QuietMixed
import OpenGda.Mlx5.NvshmemSubmitDoorbell
import OpenGda.Mlx5.ShortMessageTorn
import OpenGda.Mlx5.GpuCommConnect
import OpenGda.Ofi.GpuBarrierSignals
import OpenGda.Ofi.ActiveMessageOrder
import OpenGda.Ofi.RuntimeTable
import OpenGda.Bootstrap.Pmi2Collectives
import OpenGda.Bootstrap.Pmi2PointToPoint
import OpenGda.Mlx5.FabricConnect
import OpenGda.Mlx5.RuntimeConnect
import OpenGda.Mlx5.GiccApiLookup
import OpenGda.Mlx5.PersistentStray
import OpenGda.Mlx5.MarkReady
import OpenGda.Ofi.HostBarrierOverflow
import OpenGda.Mlx5.MultiWqeExact
import OpenGda.Ofi.BarrierThreadsTangled
import OpenGda.Ofi.GpuBarrierHistory
import OpenGda.Ofi.FabricSignalOvertaken
import OpenGda.Ofi.CounterPoolMixed
import OpenGda.Ofi.ActiveMessageCheck
import OpenGda.Mlx5.InlineWqe
import OpenGda.Mlx5.BurstKernel
import OpenGda.Mlx5.BatchedDoorbell
import OpenGda.Mlx5.ConcurrentWriteBuilt
import OpenGda.Mlx5.PollCqCounts
import OpenGda.Mlx5.RingGeometry
import OpenGda.Mlx5.GiccDeviceBounds
import OpenGda.Bootstrap.Pmi2Keys
import OpenGda.Bootstrap.Pmi2Identity
import OpenGda.Examples.JacobiCompletes
import OpenGda.Lib.Supersteps
import OpenGda.Bootstrap.Coll
import OpenGda.Examples.MmMinimalResult
import OpenGda.Examples.MmBlocks
import OpenGda.Examples.OfiJacobiResult
