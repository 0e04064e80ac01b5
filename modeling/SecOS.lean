import SecOS.Base.Lts
import SecOS.Base.RoundRobin
import SecOS.Base.Buffer
import SecOS.Base.Numeral
import SecOS.Base.Chain
import SecOS.Base.Stride
import SecOS.Base.TimeSharing
import SecOS.X86.Memory
import SecOS.X86.Bitfield
import SecOS.X86.Descriptor
import SecOS.X86.Paging
import SecOS.X86.Tables
import SecOS.X86.Linear
import SecOS.X86.Pic
import SecOS.X86.Cpu
import SecOS.X86.Flat
import SecOS.Kernel.Print
import SecOS.Kernel.Digits
import SecOS.Kernel.Format
import SecOS.Kernel.Vsnprintf
import SecOS.Kernel.IsoPrintf
import SecOS.Kernel.Uart
import SecOS.Kernel.UartInit
import SecOS.Kernel.UartRx
import SecOS.Kernel.Segmem
import SecOS.Kernel.Intr
import SecOS.Kernel.Console
import SecOS.Kernel.Panic
import SecOS.Kernel.Debug
import SecOS.Kernel.Stack
import SecOS.Kernel.String
import SecOS.Kernel.Pagemem
import SecOS.Kernel.Linear
import SecOS.Exam.Pgds
import SecOS.Kernel.Pic
import SecOS.Exam.Text
import SecOS.Exam.Machine
import SecOS.Exam.Config
import SecOS.Exam.Gates
import SecOS.Exam.Exec
import SecOS.Exam.Trampoline
import SecOS.Exam.Isr
import SecOS.Exam.Clock
import SecOS.Exam.Syscall
import SecOS.Exam.Frame
import SecOS.Exam.Invariant
import SecOS.Exam.Steps
import SecOS.Exam.Boot
import SecOS.Exam.Sample
import SecOS.Exam.Isolation
import SecOS.Exam.SwitchFrame
import SecOS.Exam.Preemption
import SecOS.Exam.PortAccess
import SecOS.Exam.TimerDriven
import SecOS.Exam.Confidentiality
import SecOS.Exam.Service
import SecOS.Exam.RoundRobin
import SecOS.Exam.DefaultPath
import SecOS.Exam.Boundary
import SecOS.Exam.Launch
import SecOS.Exam.KernelContext
import SecOS.Exam.Atomicity
import SecOS.Exam.Sharing
import SecOS.Exam.Tasks
import SecOS.Exam.Record
import SecOS.Exam.TaskCode
import SecOS.Exam.Counter
import SecOS.Exam.Console
import SecOS.Exam.Fatal
import SecOS.Tp0.Mmap
import SecOS.Tp1.Gdt
import SecOS.Tp1.Window
import SecOS.Tp2.Breakpoint
import SecOS.Tp3.Userland
import SecOS.Tp3.Fault
import SecOS.Tp4.Tables
import SecOS.Tp5.Syscall
