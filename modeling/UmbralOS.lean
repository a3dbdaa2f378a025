import UmbralOS.Library.Program
import UmbralOS.Library.Erasure
import UmbralOS.Library.Reorder
import UmbralOS.Library.Memory
import UmbralOS.Library.Stack
import UmbralOS.Library.Records
import UmbralOS.Library.Strings
import UmbralOS.Library.Numerals
import UmbralOS.Library.PathTree
import UmbralOS.Library.Overlay
import UmbralOS.Library.Accounts
import UmbralOS.Library.Demand
import UmbralOS.Library.Queue
import UmbralOS.Kernel.Common
import UmbralOS.Kernel.Print
import UmbralOS.Kernel.Intel
import UmbralOS.Kernel.Mm
import UmbralOS.Kernel.Acpi
import UmbralOS.Kernel.Machine
import UmbralOS.Kernel.Ioapic
import UmbralOS.Kernel.Lapic
import UmbralOS.Kernel.Madt
import UmbralOS.Kernel.Sdt
import UmbralOS.Kernel.Cpu
import UmbralOS.Kernel.Interrupt
import UmbralOS.Kernel.Serial
import UmbralOS.Kernel.Ps2
import UmbralOS.Kernel.Dispatch
import UmbralOS.Kernel.Legacy
import UmbralOS.Kernel.Descriptors
import UmbralOS.Kernel.Main
import UmbralOS.Proof.Memory.Bitmap
import UmbralOS.Proof.Memory.Pool
import UmbralOS.Proof.Memory.Accounting
import UmbralOS.Proof.Memory.FirstFit
import UmbralOS.Proof.Memory.BitmapRoom
import UmbralOS.Proof.Memory.PageMap
import UmbralOS.Proof.Memory.Tables
import UmbralOS.Proof.Memory.Mapping
import UmbralOS.Proof.Memory.Refinement
import UmbralOS.Proof.Memory.Rights
import UmbralOS.Proof.Memory.Unaligned
import UmbralOS.Proof.Memory.Boot
import UmbralOS.Proof.Memory.WriteXorExecute
import UmbralOS.Proof.Memory.DirectMap
import UmbralOS.Proof.Memory.Stopping
import UmbralOS.Proof.Memory.Demand
import UmbralOS.Proof.Memory.BootDemand
import UmbralOS.Proof.Memory.Zeroing
import UmbralOS.Proof.Interrupts.Devices
import UmbralOS.Proof.Interrupts.Table
import UmbralOS.Proof.Interrupts.Run
import UmbralOS.Proof.Interrupts.Routing
import UmbralOS.Proof.Interrupts.Order
import UmbralOS.Proof.Interrupts.Masking
import UmbralOS.Proof.Interrupts.Confinement
import UmbralOS.Proof.Interrupts.Decoding
import UmbralOS.Proof.Interrupts.Windows
import UmbralOS.Proof.Interrupts.DriverRun
import UmbralOS.Proof.Interrupts.Transparency
import UmbralOS.Proof.Interrupts.Descriptors
import UmbralOS.Proof.Acpi.Termination
import UmbralOS.Proof.Acpi.Parsing
import UmbralOS.Proof.Acpi.Bounds
import UmbralOS.Proof.Acpi.RootTable
import UmbralOS.Proof.Acpi.Mappings
import UmbralOS.Proof.Acpi.Agreement
import UmbralOS.Proof.Acpi.LiveTranslations
import UmbralOS.Proof.Memory.System
import UmbralOS.Proof.Input.Controller
import UmbralOS.Proof.Input.Polling
import UmbralOS.Proof.Input.Handshake
import UmbralOS.Proof.Interrupts.Service
import UmbralOS.Proof.Console.Comparison
import UmbralOS.Proof.Console.Numerals
import UmbralOS.Proof.Console.Formats
import UmbralOS.Proof.Console.LineEndings
import UmbralOS.Proof.Console.Log
import UmbralOS.Proof.Console.Echo
import UmbralOS.Proof.Console.Dump
import UmbralOS.Proof.Interrupts.Legacy
import UmbralOS.Proof.Startup.Parts
import UmbralOS.Proof.Startup.Interrupts
import UmbralOS.Proof.Startup.Accounts
import UmbralOS.Proof.Startup.Firmware
