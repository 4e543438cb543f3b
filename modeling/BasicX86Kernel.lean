import BasicX86Kernel.Machine.Run
import BasicX86Kernel.Mmu.Paging
import BasicX86Kernel.Mmu.Tables
import BasicX86Kernel.Mmu.Step
import BasicX86Kernel.Mmu.Refinement
import BasicX86Kernel.Mmu.Alias
import BasicX86Kernel.Mmu.Init
import BasicX86Kernel.Mmu.GetPhyaddr
import BasicX86Kernel.Mmu.LargeSplit
import BasicX86Kernel.Mmu.Exhaustion
import BasicX86Kernel.Mmu.Coherence
import BasicX86Kernel.Mmu.Rights
import BasicX86Kernel.Klib.String
import BasicX86Kernel.Klib.Stdio
import BasicX86Kernel.Klib.Vsprintf
import BasicX86Kernel.Console
import BasicX86Kernel.Screen
import BasicX86Kernel.Printk
import BasicX86Kernel.Machine.Cpu
import BasicX86Kernel.Boot
import BasicX86Kernel.Idt
import BasicX86Kernel.IdtStub
import BasicX86Kernel.Drivers.I8042
import BasicX86Kernel.Drivers.Kbd
import BasicX86Kernel.Drivers.SelfTest
import BasicX86Kernel.Drivers.Mc146818
import BasicX86Kernel.Timer
import BasicX86Kernel.Interrupts
import BasicX86Kernel.Acpi
import BasicX86Kernel.Acpi.Mapped
import BasicX86Kernel.Acpi.Walk
import BasicX86Kernel.Drivers.Ioapic
import BasicX86Kernel.Drivers.Lapic
import BasicX86Kernel.Drivers.Mc146818.Updates
import BasicX86Kernel.Screen.Blank
import BasicX86Kernel.Klib.OldContents
import BasicX86Kernel.Mmu.Leak
import BasicX86Kernel.Klib.Numerals
import BasicX86Kernel.Gdt
import BasicX86Kernel.Idt.Gates
import BasicX86Kernel.Drivers.Polling
import BasicX86Kernel.Drivers.Setup
import BasicX86Kernel.Drivers.Agreement
import BasicX86Kernel.Acpi.Sci
import BasicX86Kernel.Machine.FirstDifference
import BasicX86Kernel.Klib.Memcmp
import BasicX86Kernel.Klib.Overlap
import BasicX86Kernel.Machine.Controller
import BasicX86Kernel.Drivers.Pic
import BasicX86Kernel.Drivers.Handlers
import BasicX86Kernel.Drivers.Delivery
import BasicX86Kernel.Printk.Scan
import BasicX86Kernel.Printk.Report
import BasicX86Kernel.Machine.Peripheral
import BasicX86Kernel.Machine.Clock
import BasicX86Kernel.Drivers.I8254
import BasicX86Kernel.Machine.Segment
import BasicX86Kernel.Gdt.Flat
import BasicX86Kernel.Idt.Processor
import BasicX86Kernel.Idt.Return
import BasicX86Kernel.Drivers.Ps2
import BasicX86Kernel.Drivers.BringUp
