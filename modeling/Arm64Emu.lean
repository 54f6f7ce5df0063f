import Arm64Emu.Jit.BlockRun
import Arm64Emu.Seccomp.Install
import Arm64Emu.Jit.Chaining
import Arm64Emu.Jit.Safepoint
import Arm64Emu.Syscall.Charge
import Arm64Emu.Path.Posix
import Arm64Emu.Net.Ancillary
import Arm64Emu.Ipc.Calls
import Arm64Emu.Ipc.MsgList
import Arm64Emu.Exec.Image
import Arm64Emu.File.Listing
import Arm64Emu.Ipc.Owners
import Arm64Emu.Ptrace.Served
import Arm64Emu.Ptrace.Collected
import Arm64Emu.Signal.Pick
import Arm64Emu.Mount.Stack
import Arm64Emu.Mount.Snapped
import Arm64Emu.Userns.Parse
import Arm64Emu.Signal.Carried
import Arm64Emu.Cred.AsLinux
import Arm64Emu.Ipc.Registered
import Arm64Emu.Mem.VforkMerge
import Arm64Emu.Mem.VforkWait
import Arm64Emu.Signal.Generations
import Arm64Emu.Core.AtomicFaults
import Arm64Emu.Core.Crc
import Arm64Emu.Core.Sha
import Arm64Emu.Core.Aes
import Arm64Emu.Jit.MemRun
import Arm64Emu.Jit.BlockSize
import Arm64Emu.Futex.Robust
