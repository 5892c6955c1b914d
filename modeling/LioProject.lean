import LioProject.Lib.Run
import LioProject.Lib.Circular
import LioProject.Lib.Bytes
import LioProject.Tcmu.Status
import LioProject.Tcmu.Cdb
import LioProject.Tcmu.Command
import LioProject.Tcmu.Ring
import LioProject.Tcmu.RingQueue
import LioProject.Tcmu.RingSafety
import LioProject.Tcmu.RingDrain
import LioProject.Lib.Disk
import LioProject.Tcmu.Device
import LioProject.Tcmu.Alloc
import LioProject.Lib.FileTree
import LioProject.Lib.Script
import LioProject.Scripts.CreateDevices
import LioProject.Scripts.StartTarget
import LioProject.Scripts.LunMap
import LioProject.Lib.Prog
import LioProject.Tcmu.Runner
import LioProject.Tcmu.Alua
import LioProject.Tcmu.AluaStates
import LioProject.Tcmu.Xcopy
import LioProject.Tcmu.Inquiry
import LioProject.Tcmu.CmdHandler
import LioProject.Tcmu.Life
import LioProject.Tcmu.ByteCount
import LioProject.Tcmu.Callouts
import LioProject.Tcmu.Equipped
import LioProject.Tcmu.Progress
import LioProject.Tcmu.Quiet
import LioProject.Tcmu.Completion
import LioProject.Tcmu.CawSystem
import LioProject.Tcmu.CawAtomic
import LioProject.Tcmu.IdleWait
import LioProject.Tcmu.Log
import LioProject.Tcmu.Config
import LioProject.Tcmu.Zbc
import LioProject.Tcmu.ZbcSteps
import LioProject.Lib.Rank
import LioProject.Tcmu.ZbcAccounts
import LioProject.Tcmu.DevSys
import LioProject.Tcmu.Backend
import LioProject.Tcmu.LockState
import LioProject.Tcmu.Drain
import LioProject.Lib.Linked
import LioProject.Tcmu.Recovery
import LioProject.Scripts.DeviceNames
import LioProject.Lib.Regex
import LioProject.Scripts.RunIo
import LioProject.Lib.Json
import LioProject.Scripts.ParseJson
import LioProject.Tcmu.ZbcPointers
import LioProject.Lib.Tiling
import LioProject.Tcmu.ZbcReopen
import LioProject.Tcmu.CawSeek
import LioProject.Tcmu.UnmapSplit
import LioProject.Tcmu.UnmapStatus
import LioProject.Tcmu.XcopyAccept
import LioProject.Lib.Watch
import LioProject.Tcmu.XcopyBounds
import LioProject.Tcmu.UnmapDecode
import LioProject.Tcmu.Transfer
import LioProject.Tcmu.WriteSame
import LioProject.Tcmu.WriteVerify
import LioProject.Tcmu.FormatUnit
import LioProject.Tcmu.FormatReports
import LioProject.Tcmu.SenseInfo
import LioProject.Tcmu.FileExample
import LioProject.Tcmu.VpdBounds
import LioProject.Tcmu.ModePages
import LioProject.Tcmu.ReportGroups
import LioProject.Tcmu.StpgDecode
import LioProject.Tcmu.PrintCdb
import LioProject.Tcmu.XcopyRun
import LioProject.Lib.CStr
import LioProject.Tcmu.AddDevice
import LioProject.Tcmu.SizeUpdate
import LioProject.Tcmu.BlockLimits
import LioProject.Lib.DropQueue
import LioProject.Tcmu.LogRing
import LioProject.Tcmu.ConfigEnds
import LioProject.Tcmu.ConfigConfined
import LioProject.Tcmu.ConfigString
import LioProject.Tcmu.ConfigWatch
import LioProject.Tcmu.Cfgfs
import LioProject.Tcmu.ZbcRead
import LioProject.Tcmu.XcopyCopies
import LioProject.Lib.Places
import LioProject.Tcmu.IovecCopy
import LioProject.Tcmu.IovecCompare
import LioProject.Tcmu.ReportZones
import LioProject.Tcmu.ZbcSplit
import LioProject.Lib.Cache
import LioProject.Lib.BitField
import LioProject.Tcmu.Qcow
import LioProject.Tcmu.QcowRefcount
import LioProject.Tcmu.QcowAreas
import LioProject.Tcmu.QcowSound
import LioProject.Tcmu.QcowAlloc
import LioProject.Tcmu.QcowCounts
import LioProject.Tcmu.QcowMap
import LioProject.Tcmu.QcowLocate
import LioProject.Tcmu.IovecSegment
import LioProject.Tcmu.QcowRead
import LioProject.Lib.Overlay
import LioProject.Tcmu.QcowWrite
import LioProject.Tcmu.QcowRuns
