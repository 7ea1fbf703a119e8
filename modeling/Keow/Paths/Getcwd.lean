import Keow.Base.Memory
import Keow.Kernel.Linux
import Keow.Paths.Mount

/-!
# `getcwd`

`SysCalls::sys_getcwd`, `sys_io.cpp:351–362`. The size is an `int`. A string object owns the
bytes of the path and their NUL; whatever lies behind them in the kernel's heap is a parameter.
-/

namespace Keow.Paths

open Keow.Base Keow.Kernel

/-- The first `n` bytes at `c_str()`. -/
def cStrBytes (s : Str) (behind : Nat → UInt8) (n : Nat) : List UInt8 :=
  (List.range n).map fun i ↦
    if i < s.length then s.getD i 0 else if i = s.length then 0 else behind i

/-- What a call leaves: Eax, the user's memory, and how many bytes went from the string to the
buffer. -/
structure GetcwdResult where
  eax : DWORD
  mem : Mem 32
  copied : Nat

variable (t : MountTable) (unixPwd : Path) (behind : Nat → UInt8) (buf size : DWORD) (mem : Mem 32)

/-- `SysCalls::sys_getcwd`, of a current directory. If the size is too small, the string loses its
last character and is copied without its NUL. -/
def sysGetcwd : GetcwdResult :=
  let cwd := unixPwd.getUnixPath t
  let fits := ¬size.toInt < 1 + cwd.length
  let cnt := if fits then size.toNat else cwd.length
  let cwd := if fits then cwd else cwd.set (cwd.length - 1) 0
  { eax := 0#32
    mem := mem.write buf (cStrBytes cwd behind cnt)
    copied := cnt }

/-- No byte is written outside the user's buffer, none is read outside the string, the path is
there with its NUL if the call succeeds, and a size that is too small is an error. -/
structure GetcwdRight (r : GetcwdResult) : Prop where
  written : (r.copied : Int) ≤ size.toInt
  read : r.copied ≤ (unixPwd.getUnixPath t).length + 1
  returned : 0 ≤ r.eax.toInt →
    r.mem.read buf ((unixPwd.getUnixPath t).length + 1) = unixPwd.getUnixPath t ++ [0]
  short : size.toInt < (unixPwd.getUnixPath t).length + 1 → r.eax.toInt < 0

/-- Inside the string. -/
theorem cStrBytes_of_le {s : Str} (behind : Nat → UInt8) {n : Nat} (h : n ≤ s.length) :
    cStrBytes s behind n = s.take n := by
  apply List.ext_getElem
  · simp [cStrBytes, h]
  · intro i hi _
    have hi : i < s.length := by
      have : i < n := by simpa [cStrBytes] using hi
      omega
    simp [cStrBytes, hi]

/-- The string with its NUL. -/
theorem cStrBytes_length (s : Str) (behind : Nat → UInt8) :
    cStrBytes s behind (s.length + 1) = s ++ [0] := by
  have hinside := cStrBytes_of_le behind (Nat.le_refl s.length)
  rw [List.take_length, cStrBytes] at hinside
  rw [cStrBytes, List.range_succ, List.map_append, hinside]
  simp

/-- A call is right exactly if the size is that of the path and its NUL. -/
theorem sysGetcwd_right_iff :
    GetcwdRight t unixPwd buf size (sysGetcwd t unixPwd behind buf size mem) ↔
      size.toInt = (unixPwd.getUnixPath t).length + 1 := by
  have hcond := BitVec.toInt_eq_toNat_cond size
  have hsize := size.isLt
  constructor
  · intro h
    by_cases hfits : ¬size.toInt < 1 + (unixPwd.getUnixPath t).length
    · have hread := h.read
      simp only [sysGetcwd, if_pos hfits] at hread
      split at hcond <;> omega
    · -- too small a size is no error
      have hshort := h.short (by omega)
      exact absurd hshort (by simp [sysGetcwd])
  · intro h
    have hfits : ¬size.toInt < 1 + (unixPwd.getUnixPath t).length := by omega
    have hnat : size.toNat = (unixPwd.getUnixPath t).length + 1 := by
      split at hcond <;> omega
    refine ⟨?_, ?_, ?_, ?_⟩
    · simp only [sysGetcwd, if_pos hfits]
      omega
    · simp only [sysGetcwd, if_pos hfits]
      omega
    · intro _
      simp only [sysGetcwd, if_pos hfits]
      rw [hnat, cStrBytes_length]
      have hread := Mem.read_write mem buf (unixPwd.getUnixPath t ++ [0])
        (by rw [List.length_append, List.length_singleton]; omega)
      rwa [List.length_append, List.length_singleton] at hread
    · intro hshort
      omega

/-- Only a root mount, and nothing stored in it. -/
def bareTable : MountTable where
  rootMountPoint := ⟨ElementList.nil, [], .keow⟩
  mountPoints := []
  host := { fileExists := fun _ ↦ false, shortcutTarget := fun _ ↦ [] }

def blankMem : Mem 32 := fun _ ↦ 0

/-- A buffer of a page for the path `/` gets a page of the kernel's heap. -/
theorem not_getcwdRight_page :
    ¬GetcwdRight bareTable {} 0x1000#32 4096#32
      (sysGetcwd bareTable {} (fun _ ↦ 0xCC) 0x1000#32 4096#32 blankMem) := by
  intro h
  exact absurd h.read (by decide)

end Keow.Paths
