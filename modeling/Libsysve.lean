import Libsysve.Library.ForLoop
import Libsysve.Library.ByteMemory
import Libsysve.AccIo.Basic
import Libsysve.AccIo.Transfer
import Libsysve.AccIo.Bodies
import Libsysve.AccIo.Log
import Libsysve.AccIo.Chunks
import Libsysve.AccIo.ReadInvariant
import Libsysve.AccIo.ReadPipeline
import Libsysve.AccIo.ReadDrain
import Libsysve.AccIo.Read
import Libsysve.AccIo.Pipeline
import Libsysve.AccIo.WriteInvariant
import Libsysve.AccIo.WritePipeline
import Libsysve.AccIo.WriteDrain
import Libsysve.AccIo.Write
import Libsysve.AccIo.CopyPlans
import Libsysve.AccIo.AccCall
import Libsysve.AccIo.Lockstep
import Libsysve.AccIo.Vector
import Libsysve.Library.Machine
import Libsysve.Vedma.Ring
import Libsysve.Vedma.Ledger
import Libsysve.Vedma.RingInvariant
import Libsysve.Vedma.Delivery
import Libsysve.Vedma.Turns
import Libsysve.Vedma.Polling
import Libsysve.Vedma.Init
import Libsysve.Vedma.InitLock
import Libsysve.Vedma.Success
import Libsysve.Library.LinkedList
import Libsysve.Vhcall.Args
import Libsysve.Vhcall.Invoke
import Libsysve.Library.SortedEntries
import Libsysve.Veaio.Context
import Libsysve.Veaio.OneInFlight
import Libsysve.Veaio.Results
import Libsysve.Vhcall.ArgsList
import Libsysve.Vhcall.ArgMap
import Libsysve.Vhcall.ArgOps
import Libsysve.Vhcall.Validate
import Libsysve.Vhcall.Marshal
import Libsysve.Vhcall.Sends
import Libsysve.Vhcall.LastSet
import Libsysve.Vhcall.Inserted
import Libsysve.AccIo.Owner
import Libsysve.AccIo.CountRange
import Libsysve.AccIo.PlainChecks
import Libsysve.AccIo.DmaOutcome
import Libsysve.AccIo.BusyRing
import Libsysve.Library.FlagBits
import Libsysve.AccIo.Rounds
import Libsysve.AccIo.SecondMark
import Libsysve.AccIo.Errno
import Libsysve.AccIo.ErrnoRead
import Libsysve.AccIo.ErrnoWrite
import Libsysve.VecMemcpy.Memcpy
import Libsysve.Library.DoublyLinked
import Libsysve.Library.Family
import Libsysve.AccIo.ResourceList
import Libsysve.AccIo.Resources
import Libsysve.AccIo.ResourceInvariant
import Libsysve.AccIo.ListExact
import Libsysve.AccIo.ForkRelease
import Libsysve.AccIo.ForkResume
import Libsysve.Library.Simulation
import Libsysve.Library.Atomic
import Libsysve.Vedma.Assembly
import Libsysve.Vedma.Section
import Libsysve.Vedma.Linked
import Libsysve.Vedma.Linearize
import Libsysve.Vedma.Linearizable
import Libsysve.Vedma.Progress
import Libsysve.Vedma.Outstanding
import Libsysve.Vedma.Reach
import Libsysve.AccIo.SharedRing
import Libsysve.Vhcall.Cells
import Libsysve.Vhcall.Programs
import Libsysve.AccIo.GivenBack
import Libsysve.AccIo.Hooks
import Libsysve.AccIo.FileCalls
import Libsysve.Veaio.Process
import Libsysve.Veaio.Setup
import Libsysve.Veaio.Lifetimes
import Libsysve.Library.FamilySimulation
import Libsysve.AccIo.ListLock
import Libsysve.AccIo.ListMutex
import Libsysve.AccIo.ListAtomic
import Libsysve.AccIo.ListReleases
import Libsysve.AccIo.ListProgress
import Libsysve.AccIo.ChkEnv
