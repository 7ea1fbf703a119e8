import Keow.Kernel.Context

/-!
# Constants of the emulated kernel

The numbers of `linux-abi` that the modelled functions use, and the few Win32 error
codes that are told apart.
-/

namespace Keow.Kernel

/-- `_NSIG`. -/
def nsig : Nat := 64

/-! Signal numbers. -/

def SIGHUP : Nat := 1
def SIGQUIT : Nat := 3
def SIGILL : Nat := 4
def SIGTRAP : Nat := 5
def SIGABRT : Nat := 6
def SIGBUS : Nat := 7
def SIGFPE : Nat := 8
def SIGKILL : Nat := 9
def SIGUSR1 : Nat := 10
def SIGSEGV : Nat := 11
def SIGUSR2 : Nat := 12
def SIGPIPE : Nat := 13
def SIGTERM : Nat := 15
def SIGCHLD : Nat := 17
def SIGCONT : Nat := 18
def SIGSTOP : Nat := 19
def SIGTSTP : Nat := 20
def SIGTTIN : Nat := 21
def SIGTTOU : Nat := 22
def SIGURG : Nat := 23
def SIGSYS : Nat := 31

/-- A signal that can be sent: `SendSignal` is never called with another number. -/
def Signal : Type := { n : Nat // 1 ≤ n ∧ n < nsig }

theorem SIGHUP_bounds : 1 ≤ SIGHUP ∧ SIGHUP < nsig := by decide

/-! Error numbers. -/

def EPERM : DWORD := 1#32
def ENOENT : DWORD := 2#32
def ESRCH : DWORD := 3#32
def EINTR : DWORD := 4#32
def EIO : DWORD := 5#32
def ENXIO : DWORD := 6#32
def ENOEXEC : DWORD := 8#32
def EBADF : DWORD := 9#32
def ECHILD : DWORD := 10#32
def ENOMEM : DWORD := 12#32
def EACCES : DWORD := 13#32
def EFAULT : DWORD := 14#32
def ENODEV : DWORD := 19#32
def ENOTDIR : DWORD := 20#32
def EINVAL : DWORD := 22#32
def EMFILE : DWORD := 24#32
def ENOSYS : DWORD := 38#32

/-! `open` flags. -/

def O_ACCMODE : DWORD := 0x003#32
def O_RDONLY : DWORD := 0x000#32
def O_WRONLY : DWORD := 0x001#32
def O_CREAT : DWORD := 0x040#32
def O_EXCL : DWORD := 0x080#32
def O_TRUNC : DWORD := 0x200#32
def O_APPEND : DWORD := 0x400#32
def O_NONBLOCK : DWORD := 0x800#32

/-! `fcntl` commands. -/

def F_DUPFD : DWORD := 0#32
def F_GETFD : DWORD := 1#32
def F_SETFD : DWORD := 2#32
def F_GETFL : DWORD := 3#32
def F_SETFL : DWORD := 4#32

/-! `lseek` origins, and their Win32 names, which have the same values. -/

def SEEK_SET : DWORD := 0#32
def SEEK_CUR : DWORD := 1#32
def SEEK_END : DWORD := 2#32
def FILE_BEGIN : DWORD := 0#32
def FILE_CURRENT : DWORD := 1#32
def FILE_END : DWORD := 2#32

/-! `mmap` flags. -/

def PROT_WRITE : DWORD := 0x2#32
def MAP_SHARED : DWORD := 0x01#32
def MAP_ANONYMOUS : DWORD := 0x20#32
def MAP_GROWSDOWN : DWORD := 0x0100#32

/-! `wait4` options. -/

def WNOHANG : DWORD := 0x00000001#32
def WUNTRACED : DWORD := 0x00000002#32

/-! `sa_flags`. -/

def SA_SIGINFO : DWORD := 0x00000004#32
def SA_NODEFER : DWORD := 0x40000000#32
def SA_NOMASK : DWORD := SA_NODEFER
def SA_RESETHAND : DWORD := 0x80000000#32
def SA_ONESHOT : DWORD := SA_RESETHAND

/-! Special handlers. -/

def SIG_DFL : DWORD := 0#32
def SIG_IGN : DWORD := 1#32

/-! `sigprocmask` requests. -/

def SIG_BLOCK : DWORD := 0#32
def SIG_UNBLOCK : DWORD := 1#32
def SIG_SETMASK : DWORD := 2#32

/-! `ptrace` requests. -/

def PTRACE_TRACEME : DWORD := 0#32
def PTRACE_PEEKTEXT : DWORD := 1#32
def PTRACE_PEEKDATA : DWORD := 2#32
def PTRACE_PEEKUSR : DWORD := 3#32
def PTRACE_CONT : DWORD := 7#32
def PTRACE_KILL : DWORD := 8#32
def PTRACE_SYSCALL : DWORD := 24#32

/-- `NR_syscalls`. -/
def NR_syscalls : Nat := 338

/-- `__NR_sigreturn`. -/
def NR_sigreturn : Nat := 119

/-! Win32 error codes that stand for a broken pipe. -/

def ERROR_BROKEN_PIPE : DWORD := 109#32
def ERROR_NO_DATA : DWORD := 232#32
def ERROR_PIPE_NOT_CONNECTED : DWORD := 233#32

/-- `Win32ErrToUnixError`, `ConstantMapping.cpp:66–109`; the cases are the values of
`winerror.h` for the names in the source. -/
def win32ErrToUnixError (err : DWORD) : DWORD :=
  match err.toNat with
  | 0 => 0#32
  | 2 | 3 => ENOENT
  | 4 => EMFILE
  | 5 => EACCES
  | 6 => EBADF
  | 7 | 9 => EFAULT
  | 8 | 14 => ENOMEM
  | 1 => ENOSYS
  | 109 | 232 | 233 => EIO
  | 11 => ENOEXEC
  | _ => EPERM

theorem neg_win32ErrToUnixError_neg (err : DWORD) :
    (-win32ErrToUnixError err).toInt < 0 ↔ err ≠ 0#32 := by
  by_cases h0 : err = 0#32
  · subst h0
    decide
  · refine iff_of_true ?_ h0
    unfold win32ErrToUnixError
    split
    · next h => exact absurd (BitVec.eq_of_toNat_eq h) h0
    all_goals decide

theorem neg_win32ErrToUnixError_le (err : DWORD) : (-win32ErrToUnixError err).toInt ≤ 0 := by
  by_cases h0 : err = 0#32
  · subst h0
    decide
  · exact Int.le_of_lt ((neg_win32ErrToUnixError_neg err).mpr h0)

/-- No error is told as 0. -/
theorem neg_win32ErrToUnixError_zero : -win32ErrToUnixError 0#32 = 0#32 := by decide

end Keow.Kernel
