import NodeVmm.AcpiTables
import NodeVmm.BootMemory
import NodeVmm.BootParams
import NodeVmm.DockerfileCommand
import NodeVmm.DockerfilePaths
import NodeVmm.DockerfileRun
import NodeVmm.DockerfileVars
import NodeVmm.DockerfileWords
import NodeVmm.Dockerignore
import NodeVmm.ExplicitDisk
import NodeVmm.Fdt
import NodeVmm.GuestClock
import NodeVmm.GuestTree
import NodeVmm.HostNetwork
import NodeVmm.LayerLinks
import NodeVmm.Lib.BootProtocol
import NodeVmm.Lib.Fields
import NodeVmm.Lib.Glob
import NodeVmm.Lib.MpTable
import NodeVmm.Lib.Paging
import NodeVmm.Lib.Patch
import NodeVmm.Lib.PyPath
import NodeVmm.Lib.ShellScript
import NodeVmm.Lib.SystemTables
import NodeVmm.MpTable
import NodeVmm.PageTables
import NodeVmm.PrebuiltRootfs
import NodeVmm.RunClock
import NodeVmm.RunCommand
import NodeVmm.Theorems.Aml
import NodeVmm.Theorems.BlkConfined
import NodeVmm.Theorems.BlkRequest
import NodeVmm.Theorems.BlobCache
import NodeVmm.Theorems.BootMemory
import NodeVmm.Theorems.BootParams
import NodeVmm.Theorems.CachedRuns
import NodeVmm.Theorems.ContextSources
import NodeVmm.Theorems.DiskOverlay
import NodeVmm.Theorems.DiskView
import NodeVmm.Theorems.DockerfileCommand
import NodeVmm.Theorems.DockerfileExpand
import NodeVmm.Theorems.DockerfileRun
import NodeVmm.Theorems.DockerfileVars
import NodeVmm.Theorems.DockerfileWords
import NodeVmm.Theorems.Dockerignore
import NodeVmm.Theorems.ElfKernel
import NodeVmm.Theorems.ExplicitDisk
import NodeVmm.Theorems.ExtInt
import NodeVmm.Theorems.Fdt
import NodeVmm.Theorems.GuestClock
import NodeVmm.Theorems.GuestTree
import NodeVmm.Theorems.HostNetwork
import NodeVmm.Theorems.Hpet
import NodeVmm.Theorems.HpetTimers
import NodeVmm.Theorems.HvfMmio
import NodeVmm.Theorems.HvfQueues
import NodeVmm.Theorems.HvfRx
import NodeVmm.Theorems.ImageReference
import NodeVmm.Theorems.InstallPair
import NodeVmm.Theorems.IoApic
import NodeVmm.Theorems.KvmFraming
import NodeVmm.Theorems.KvmRx
import NodeVmm.Theorems.LayerLinks
import NodeVmm.Theorems.MpTable
import NodeVmm.Theorems.OciPull
import NodeVmm.Theorems.PageTables
import NodeVmm.Theorems.PathsConfined
import NodeVmm.Theorems.PauseAccount
import NodeVmm.Theorems.PauseProtocol
import NodeVmm.Theorems.PersistentDisk
import NodeVmm.Theorems.PrebuiltImages
import NodeVmm.Theorems.PrebuiltRootfs
import NodeVmm.Theorems.RamSnapshot
import NodeVmm.Theorems.RunCapture
import NodeVmm.Theorems.ShellQuoting
import NodeVmm.Theorems.Snapshot
import NodeVmm.Theorems.StopDelivery
import NodeVmm.Theorems.TreeKill
import NodeVmm.Theorems.Uart
import NodeVmm.Theorems.UartInput
import NodeVmm.Theorems.UartInterrupts
import NodeVmm.Theorems.UartTx
import NodeVmm.Theorems.VmHandle
import NodeVmm.Theorems.WatchdogTimeout
import NodeVmm.Theorems.Whiteouts
import NodeVmm.Theorems.WhpNetRegs
import NodeVmm.Theorems.WhpRng
import NodeVmm.Theorems.WhpRx
import NodeVmm.Theorems.WhpTx
import NodeVmm.UartInput
import NodeVmm.WhpNetRegs
import NodeVmm.WhpRng
import NodeVmm.WhpTx
