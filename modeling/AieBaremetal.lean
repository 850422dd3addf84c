import AieBaremetal.Cdo.ErrorExits
import AieBaremetal.Cdo.Translation
import AieBaremetal.Cdo.PollTimeout
import AieBaremetal.Gmio.InFlight
import AieBaremetal.Graph.EndSignal
import AieBaremetal.Graph.Running
import AieBaremetal.Graph.RunOrder
import AieBaremetal.Graph.DoubleBuffer
import AieBaremetal.Graph.UpdateHistory
import AieBaremetal.Graph.LockDiscipline
import AieBaremetal.Graph.Semaphore
import AieBaremetal.AieGraph.Order
import AieBaremetal.AieGraph.TransferStatus
import AieBaremetal.AieGraph.Malloc
import AieBaremetal.Dma.TaskOrder
import AieBaremetal.Ports.Sharing
import AieBaremetal.Metadata.SharedBuffers
import AieBaremetal.Metadata.BroadcastColumn
import AieBaremetal.Metadata.RtpNames
import AieBaremetal.Metadata.CArray
import AieBaremetal.Generator.Members
import AieBaremetal.Profiling.Accounting
import AieBaremetal.Process.Devices
import AieBaremetal.Net.ClientHeader
import AieBaremetal.Cert.HostArgs
import AieBaremetal.Ipc.HostMemory
import AieBaremetal.Ipc.DebugClient
import AieBaremetal.ExternalBuffer.Programming
import AieBaremetal.ExternalBuffer.CacheSync
import AieBaremetal.ExternalBuffer.CopyBack
import AieBaremetal.ExternalBuffer.DefaultPort
import AieBaremetal.Cert.AbiEncoding
import AieBaremetal.Cert.SectionBounds
import AieBaremetal.Cert.Reparse
