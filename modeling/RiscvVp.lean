import RiscvVp.DbbCache.Equiv.Transfer
import RiscvVp.DbbCache.Equiv.Fetch
import RiscvVp.DbbCache.Equiv.Dummy
import RiscvVp.DbbCache.Equiv.Coherence
import RiscvVp.Iss.Csr
import RiscvVp.Iss.Equiv.TrapPc
import RiscvVp.DbbCache.Equiv.SlowPath
import RiscvVp.Iss.ExecSteps
import RiscvVp.Iss.Equiv.SlowPath
import RiscvVp.Mem.Basic
import RiscvVp.Mem.Mmu
import RiscvVp.Mem.Equiv.Walk
import RiscvVp.Mem.Equiv.Tlb
import RiscvVp.Mem.LsCache
import RiscvVp.Mem.Equiv.Ram
import RiscvVp.Mem.Equiv.LsCache
import RiscvVp.Mem.Equiv.Privilege
import RiscvVp.Mem.Amo
import RiscvVp.Mem.Equiv.Amo
import RiscvVp.Cheri.Capability
import RiscvVp.Lib.BitField
import RiscvVp.Cheri.Equiv.Encoding
import RiscvVp.Cheri.Equiv.Bounds
import RiscvVp.Cheri.Equiv.Canonical
import RiscvVp.Cheri.Equiv.Monotone
import RiscvVp.Cheri.Equiv.BuildCap
import RiscvVp.Cheri.Equiv.Seal
import RiscvVp.Cheri.Equiv.Tags
import RiscvVp.Cheri.Mmu
import RiscvVp.Cheri.RawMem
import RiscvVp.Cheri.Equiv.Tlb
import RiscvVp.Cheri.Equiv.Ram
import RiscvVp.Cheri.Mem
import RiscvVp.Cheri.MemInstr
import RiscvVp.Cheri.Equiv.CapLoad
import RiscvVp.Lib.Log
import RiscvVp.Cheri.Equiv.Mediation
import RiscvVp.Iss.Privileged
import RiscvVp.Iss.Equiv.Interrupts
import RiscvVp.Iss.Equiv.Privilege
import RiscvVp.Lib.Keeps
import RiscvVp.Cheri.ExecSteps
import RiscvVp.Cheri.Equiv.RegZero
import RiscvVp.Plic.Basic
import RiscvVp.Plic.Equiv.Signal
import RiscvVp.Iss.LrSc
import RiscvVp.Iss.Equiv.LrSc
import RiscvVp.Iss.CounterCsr
import RiscvVp.Iss.Equiv.CounterCsr
import RiscvVp.Iss.CsrTable
import RiscvVp.Iss.Equiv.CsrTable
import RiscvVp.Iss.DataInstr
import RiscvVp.Mem.Equiv.AdBits
import RiscvVp.Iss.Equiv.PreciseTrap
import RiscvVp.Lib.Select
import RiscvVp.Plic.Equiv.Claims
import RiscvVp.Plic.Fe310
import RiscvVp.Plic.Equiv.Fe310
import RiscvVp.Clint.Basic
import RiscvVp.Clint.Equiv.Time
import RiscvVp.Clint.Equiv.Lwrt
import RiscvVp.Mem.Sv
import RiscvVp.Mem.Equiv.Sv
import RiscvVp.SpiSdCard.Basic
import RiscvVp.SpiSdCard.Equiv.Rejected
import RiscvVp.SpiSdCard.Equiv.WellFormed
import RiscvVp.SpiSdCard.Equiv.Protocol
import RiscvVp.Lib.Parser
import RiscvVp.Gdb.Basic
import RiscvVp.Gdb.Equiv.Framing
import RiscvVp.Gdb.Equiv.RoundTrip
import RiscvVp.Gdb.Command
import RiscvVp.Gdb.Server
import RiscvVp.Gdb.Equiv.Grammar
import RiscvVp.Gdb.Equiv.Decode
import RiscvVp.Gdb.Equiv.Survive
import RiscvVp.Cheri.Equiv.Window
import RiscvVp.Cheri.Equiv.FastRepCheck
import RiscvVp.Cheri.CapCommon
import RiscvVp.Cheri.Equiv.SetBounds
import RiscvVp.Cheri.TrapVector
import RiscvVp.Cheri.Equiv.TrapVector
import RiscvVp.Lib.Throws
import RiscvVp.Cheri.Equiv.CapLoadFault
import RiscvVp.Cheri.Equiv.LrScWidth
import RiscvVp.Iss.Equiv.AmoTrap
import RiscvVp.Iss.Equiv.JumpTarget
import RiscvVp.Iss.VLoadStore
import RiscvVp.Iss.Equiv.FaultOnlyFirst
import RiscvVp.Mem.LoadInstr
import RiscvVp.Mem.Equiv.LoadInstr
import RiscvVp.Slip.Basic
import RiscvVp.Slip.Equiv.RoundTrip
import RiscvVp.Slip.Equiv.Invalid
import RiscvVp.Uart.Basic
import RiscvVp.Uart.Equiv.Registers
import RiscvVp.Clint.Real
import RiscvVp.Clint.Equiv.Real
import RiscvVp.Gdb.DebugMemory
import RiscvVp.Gdb.Equiv.Memory
import RiscvVp.Gdb.Equiv.ThreadId
import RiscvVp.Lib.Limbs
import RiscvVp.Lib.FixedPoint
import RiscvVp.Vec.Basic
import RiscvVp.Vec.Arith
import RiscvVp.Vec.Permute
import RiscvVp.Vec.Equiv.Loop
import RiscvVp.Vec.Equiv.Operands
import RiscvVp.Vec.Equiv.Division
import RiscvVp.Vec.Equiv.Carry
import RiscvVp.Vec.Equiv.Rounding
import RiscvVp.Vec.Equiv.Multiply
import RiscvVp.Vec.Equiv.FixedPoint
import RiscvVp.Vec.Equiv.Permute
import RiscvVp.Vec.Equiv.MulHigh
import RiscvVp.Lib.Cells
import RiscvVp.Mem.SimpleMemory
import RiscvVp.Mem.Equiv.SimpleMemory
import RiscvVp.Elf.Basic
import RiscvVp.Elf.Equiv.Loader
import RiscvVp.Channel.Basic
import RiscvVp.Channel.Equiv.Fifo
import RiscvVp.Channel.Equiv.Stop
import RiscvVp.Instr.Basic
import RiscvVp.Instr.Decode
import RiscvVp.Instr.Compressed
import RiscvVp.Instr.Rvc
import RiscvVp.Instr.Equiv.Decode
import RiscvVp.Instr.Equiv.Bits
import RiscvVp.Instr.Equiv.Formats
import RiscvVp.Instr.Equiv.Compressed
import RiscvVp.Instr.Equiv.RvcBits
import RiscvVp.Instr.Equiv.Rvc
import RiscvVp.Instr.Equiv.RvcComplete
import RiscvVp.Lib.Words
import RiscvVp.Rv64im.Basic
import RiscvVp.Iss.IntegerUnit
import RiscvVp.Iss.Equiv.IntegerValues
import RiscvVp.Iss.Equiv.IntegerUnit
