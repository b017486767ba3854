import Gray386.Machine.Word
import Gray386.Machine.Memory
import Gray386.Machine.Ia32
import Gray386.Machine.Effect
import Gray386.Machine.Interleaving
import Gray386.Machine.WorkQueue
import Gray386.Machine.LinkedHeap
import Gray386.Machine.CInt
import Gray386.Machine.Buffer
import Gray386.Machine.Format
import Gray386.Machine.Simulation
import Gray386.Emu.Frame
import Gray386.Emu.Uaccess
import Gray386.Emu.Instruction
import Gray386.Emu.Access
import Gray386.Emu.Decode
import Gray386.Emu.Dispatch
import Gray386.Emu.Confinement
import Gray386.Emu.Refinement
import Gray386.Emu.Deviations
import Gray386.Emu.Faults
import Gray386.Emu.Encoding
import Gray386.Emu.Coupling
import Gray386.Emu.Lock
import Gray386.Emu.Trailing
import Gray386.Emu.Traps
import Gray386.Emu.Atomicity
import Gray386.Emu.Threads
import Gray386.Printk.Pending
import Gray386.Printk.Record
import Gray386.Printk.Ring
import Gray386.Printk.Retention
import Gray386.Printk.Cursor
import Gray386.Printk.Export
import Gray386.Printk.PrintText
import Gray386.Printk.Readers
import Gray386.Printk.Journal
import Gray386.Printk.Delivery
import Gray386.Printk.Console
import Gray386.Printk.Syslog
import Gray386.Printk.Emit
import Gray386.Printk.Fragments
import Gray386.Percpu.Exchange
import Gray386.Atomic.Cmpxchg
import Gray386.Floppy.Handlers
import Gray386.Floppy.CallGraph
import Gray386.Floppy.Watchdog
import Gray386.Floppy.Callers
import Gray386.Floppy.Quiescence
import Gray386.Floppy.Ownership
import Gray386.Floppy.RawCommand
import Gray386.Floppy.RawOwnership
import Gray386.Floppy.RawReply
import Gray386.Floppy.RawLength
import Gray386.Floppy.RoundRobin
import Gray386.Floppy.Geometry
import Gray386.Floppy.SetGeometry
import Gray386.Floppy.Formats
import Gray386.Floppy.Interleave
import Gray386.Floppy.SlotSearch
import Gray386.Floppy.Request
import Gray386.Floppy.TrackLayout
import Gray386.Floppy.Divisors
import Gray386.Floppy.Addressing
import Gray386.Floppy.Reach
import Gray386.Floppy.Window
import Gray386.Floppy.Overhang
import Gray386.Floppy.BlockDevice
