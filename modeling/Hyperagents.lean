import Hyperagents.SyncState
import Hyperagents.Runs
import Hyperagents.DoSync
import Hyperagents.SyncRun
import Hyperagents.SyncInstall
import Hyperagents.SyncRestore
import Hyperagents.SyncTrampoline
import Hyperagents.SyncDetour
import Hyperagents.SyncRearm
import Hyperagents.SyncEffects
import Hyperagents.SyncPaused
import Hyperagents.SyncRepeat
import Hyperagents.SyncLookup
import Hyperagents.SyncForeign
import Hyperagents.Leases
import Hyperagents.Records
import Hyperagents.RequestMount
import Hyperagents.HAMain
import Hyperagents.HandleLeases
import Hyperagents.SlotAccounting
import Hyperagents.FrozenGuests
import Hyperagents.ReRegister
import Hyperagents.UnmatchedRelease
import Hyperagents.NbdHost
import Hyperagents.OwnDisk
import Hyperagents.CallTrace
import Hyperagents.VmiLock
import Hyperagents.MountFailure
import Hyperagents.CommandLength
import Hyperagents.Teardown
import Hyperagents.Threads
import Hyperagents.FirstMax
import Hyperagents.VictimSearch
import Hyperagents.SlotInUse
import Hyperagents.SlotMounted
import Hyperagents.OneSlot
import Hyperagents.SoloRun
import Hyperagents.PrintStatus
import Hyperagents.LockOrder
import Hyperagents.ThreadLocks
import Hyperagents.NoDeadlock
import Hyperagents.LocksRefine
import Hyperagents.ExePages
import Hyperagents.Loops
import Hyperagents.Pyvmi
import Hyperagents.DentryWalk
import Hyperagents.Paging
import Hyperagents.ArgsEnvs
import Hyperagents.IdleTimes
import Hyperagents.EnvBlock
import Hyperagents.ByteMemory
import Hyperagents.HexText
import Hyperagents.MacText
import Hyperagents.Rings
import Hyperagents.NetDevices
import Hyperagents.StackPages
import Hyperagents.Fallible
import Hyperagents.PyvmiRw
import Hyperagents.SigPending
import Hyperagents.SigHandlers
import Hyperagents.Flushes
import Hyperagents.FlushedOnce
import Hyperagents.OwnArguments
import Hyperagents.GuestMemory
import Hyperagents.Capacity
import Hyperagents.LeftAlone
import Hyperagents.TestMain
import Hyperagents.ShellWords
import Hyperagents.CommandWords
import Hyperagents.Sleds
import Hyperagents.BinarySlide
import Hyperagents.Splits
import Hyperagents.FlushEnds
import Hyperagents.WayOut
import Hyperagents.DeviceTurns
import Hyperagents.ArgBlock
import Hyperagents.HandleCalls
import Hyperagents.DiskTurns
import Hyperagents.ClearedTwice
import Hyperagents.ThawedThreads
import Hyperagents.PinnedCache
import Hyperagents.Linearized
import Hyperagents.MountCache
import Hyperagents.TaskReads
