import NTux.Foundation.Runs
import NTux.Mem.PmmSoundness
import NTux.Mem.PmmAccounting
import NTux.Mem.PmmCompleteness
import NTux.Mem.VmmFailure
import NTux.Mem.KernelHeap
import NTux.Mem.HeapExpansion
import NTux.Mem.Umalloc
import NTux.Elf.Reads
import NTux.Cpu.Acknowledge
import NTux.Cpu.Scheduling
import NTux.Cpu.ThreadCreation
import NTux.Cpu.Starvation
import NTux.Console.Scrolling
import NTux.Console.MainLoop
import NTux.Console.Conversion
import NTux.Fat32.Geometry
import NTux.Fat32.Chains
import NTux.Fat32.File
import NTux.Fat32.Paths
import NTux.Fat32.Errors
import NTux.Fat32.OpenFiles
import NTux.Fat32.Listing
import NTux.Fat32.Links
import NTux.Fat32.ShortNames
import NTux.Fat32.Traversal
import NTux.Fat32.FreeSearch
import NTux.Fat32.MountTable
import NTux.Fat32.LongNames
import NTux.Fat32.Coherence
import NTux.Fat32.InfoSector
import NTux.Fat32.Reading
import NTux.Fat32.Accounting
import NTux.Fat32.Saving
import NTux.Fs.Creation
import NTux.Fs.Lookup
import NTux.Fs.Refinement
import NTux.Fs.Failure
import NTux.Kernel.RandomRange
import NTux.Kernel.Uptime
import NTux.Kernel.Vector
import NTux.Drivers.Keyboard
import NTux.Drivers.Mouse
import NTux.Drivers.Pci
import NTux.Drivers.AtaAddressing
import NTux.Drivers.VirtioGpu
