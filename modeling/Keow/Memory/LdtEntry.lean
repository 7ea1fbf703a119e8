import Keow.Base.Align
import Keow.Base.BitField
import Keow.Memory.Ldt

/-!
# The descriptor given to Windows

What `SetLDTSelector` makes of a `user_desc`, `MemoryHelper.cpp:569–621`: an `LDT_ENTRY` of
`winnt.h`, whose second word is written through a union of bytes and bit fields. Windows takes
no segment that reaches past 0x7FFEFFFF, so a limit that is too large is clamped.
-/

namespace Keow.Memory

open Keow.Base Keow.Kernel

/-- `LDT_ENTRY`, with the union `HighWord` as the word that its views share. -/
structure LdtEntry where
  limitLow : BitVec 16 := 0#16
  baseLow : BitVec 16 := 0#16
  highWord : DWORD := 0#32
deriving DecidableEq

/-! ## Decoding, by the format of the i386 -/

namespace LdtEntry

/-- Base 31..24, 23..16 and 15..0. -/
def base (e : LdtEntry) : DWORD :=
  e.highWord.extractLsb' 24 8 ++ e.highWord.extractLsb' 0 8 ++ e.baseLow

/-- Limit 19..16 and 15..0. -/
def limit (e : LdtEntry) : BitVec 20 := e.highWord.extractLsb' 16 4 ++ e.limitLow

/-- The granularity bit: the limit counts pages. -/
def granularity (e : LdtEntry) : BitVec 1 := e.highWord.extractLsb' 23 1

end LdtEntry

/-- The last offset in a segment. -/
def lastOffset (granularity : BitVec 1) (limit : Nat) : Nat :=
  if granularity = 1#1 then limit * 4096 + 4095 else limit

/-! ## Encoding -/

/-- `max_limit`, `MemoryHelper.cpp:575–584`. -/
def maxLimit (userDesc : UserDesc) : DWORD :=
  if userDesc.limitInPages = 1#1 then
    (0x7FFEFFFF#32 - ((userDesc.baseAddr + 0xFFF#32) &&& 0xFFFFF000#32)) >>> 12
  else 0x7FFEFFFF#32 - userDesc.baseAddr

/-- `limit`, clamped, `MemoryHelper.cpp:573,585–587`. -/
def clampedLimit (userDesc : UserDesc) : DWORD :=
  if (maxLimit userDesc).toNat < userDesc.limit.toNat then maxLimit userDesc else userDesc.limit

/-- The assignments at `MemoryHelper.cpp:594–611`, in their order. -/
def toLdtEntry (userDesc : UserDesc) : LdtEntry where
  baseLow := (userDesc.baseAddr &&& 0xFFFF#32).setWidth 16
  limitLow := (clampedLimit userDesc &&& 0xFFFF#32).setWidth 16
  highWord :=
    let w := setField 0#32 0 ((userDesc.baseAddr >>> 16).setWidth 8)
    let w := setField w 24 ((userDesc.baseAddr >>> 24).setWidth 8)
    let w := setField w 16 ((clampedLimit userDesc >>> 16).setWidth 4)
    let w := setField w 23 userDesc.limitInPages
    let w := setField w 22 userDesc.seg32bit
    let w := setField w 8 (if userDesc.readExecOnly = 1#1 then 0x1B#5 else 0x13#5)
    let w := setField w 15 (~~~userDesc.segNotPresent)
    let w := setField w 13 3#2
    setField w 20 1#1

/-- `PROCESS_LDT_INFORMATION`, `LegacyWindows.h:75–79`. -/
structure ProcessLdtInformation where
  start : DWORD
  length : DWORD
  ldtEntry : LdtEntry
deriving DecidableEq

/-- What is passed for a slot of the table, `MemoryHelper.cpp:616–617`. -/
def ldtInformation (index : Nat) (userDesc : UserDesc) : ProcessLdtInformation :=
  ⟨BitVec.ofNat 32 (index * 8), 8#32, toLdtEntry userDesc⟩

/-- What `SetLDTSelector` passes to `NtSetInformationProcess`, if it gets there. -/
def LdtEntries.passed (l : LdtEntries) (t : DWORD) (userDesc : UserDesc) :
    Option ProcessLdtInformation :=
  match l.calculateLDTEntryForThread t userDesc.entryNumber with
  | (0, _) => none
  | (i, _) => some (ldtInformation i userDesc)

/-- The call succeeds if it gets there and Windows takes what it is passed. -/
theorem setLDTSelector_eq (l : LdtEntries) (t : DWORD) (userDesc : UserDesc)
    (isReallyLDT : Bool) (ntStatus : DWORD) :
    (l.setLDTSelector t userDesc isReallyLDT ntStatus).1 =
      ((l.passed t userDesc).isSome && decide (ntStatus = 0#32)) := by
  unfold LdtEntries.passed LdtEntries.setLDTSelector
  obtain ⟨i, l'⟩ := l.calculateLDTEntryForThread t userDesc.entryNumber
  cases i with
  | zero => rfl
  | succ i => by_cases h : ntStatus = 0#32 <;> simp [h]

theorem ldtEntry_of_passed {l : LdtEntries} {t : DWORD} {userDesc : UserDesc}
    {info : ProcessLdtInformation} (h : l.passed t userDesc = some info) :
    info.ldtEntry = toLdtEntry userDesc := by
  unfold LdtEntries.passed at h
  split at h
  · cases h
  · rw [← Option.some.inj h]
    rfl

/-! ## Round trip -/

theorem and_setWidth_sixteen (x : DWORD) : (x &&& 0xFFFF#32).setWidth 16 = x.setWidth 16 := by
  apply BitVec.eq_of_toNat_eq
  have hmask : x.toNat &&& 65535 = x.toNat % 65536 := Nat.and_two_pow_sub_one_eq_mod x.toNat 16
  rw [BitVec.toNat_setWidth, BitVec.toNat_setWidth, BitVec.toNat_and]
  show (x.toNat &&& 65535) % 65536 = x.toNat % 65536
  rw [hmask, Nat.mod_mod]

section Fields

variable (userDesc : UserDesc)

theorem base_toLdtEntry : (toLdtEntry userDesc).base = userDesc.baseAddr := by
  have hhigh : (toLdtEntry userDesc).highWord.extractLsb' 24 8 =
      (userDesc.baseAddr >>> 24).setWidth 8 := by
    simp (disch := omega) only [toLdtEntry, extractLsb'_setField_of_apart, extractLsb'_setField]
  have hmid : (toLdtEntry userDesc).highWord.extractLsb' 0 8 =
      (userDesc.baseAddr >>> 16).setWidth 8 := by
    simp (disch := omega) only [toLdtEntry, extractLsb'_setField_of_apart, extractLsb'_setField]
  have hlow : (toLdtEntry userDesc).baseLow = userDesc.baseAddr.setWidth 16 :=
    and_setWidth_sixteen _
  have hupper : (userDesc.baseAddr >>> 24).setWidth 8 ++ (userDesc.baseAddr >>> 16).setWidth 8 =
      (userDesc.baseAddr >>> 16).setWidth 16 := by
    rw [show userDesc.baseAddr >>> 24 = userDesc.baseAddr >>> 16 >>> 8 from
      BitVec.shiftRight_add _ 16 8, setWidth_ushiftRight_append]
  rw [LdtEntry.base, hhigh, hmid, hlow, hupper, setWidth_ushiftRight_append]
  exact BitVec.setWidth_eq _

theorem limit_toLdtEntry : (toLdtEntry userDesc).limit = (clampedLimit userDesc).setWidth 20 := by
  have hhigh : (toLdtEntry userDesc).highWord.extractLsb' 16 4 =
      (clampedLimit userDesc >>> 16).setWidth 4 := by
    simp (disch := omega) only [toLdtEntry, extractLsb'_setField_of_apart, extractLsb'_setField]
  have hlow : (toLdtEntry userDesc).limitLow = (clampedLimit userDesc).setWidth 16 :=
    and_setWidth_sixteen _
  rw [LdtEntry.limit, hhigh, hlow, setWidth_ushiftRight_append]

theorem granularity_toLdtEntry : (toLdtEntry userDesc).granularity = userDesc.limitInPages := by
  simp (disch := omega) only [LdtEntry.granularity, toLdtEntry, extractLsb'_setField_of_apart,
    extractLsb'_setField]

end Fields

/-! ## The limit -/

/-- The last address that Windows lets a segment reach. -/
def lastAddress : Nat := 0x7FFEFFFF

/-- What is passed stands for the segment asked for: its base, and its limit if that is within
bounds, else a smaller one that is. -/
structure Represents (userDesc : UserDesc) (e : LdtEntry) : Prop where
  base : e.base = userDesc.baseAddr
  granularity : e.granularity = userDesc.limitInPages
  kept : userDesc.baseAddr.toNat + lastOffset userDesc.limitInPages userDesc.limit.toNat ≤
    lastAddress → e.limit.toNat = userDesc.limit.toNat
  clamped : lastAddress <
      userDesc.baseAddr.toNat + lastOffset userDesc.limitInPages userDesc.limit.toNat →
    e.limit.toNat < userDesc.limit.toNat ∧
      userDesc.baseAddr.toNat + lastOffset userDesc.limitInPages e.limit.toNat ≤ lastAddress

section Limit

variable {userDesc : UserDesc}

theorem toNat_clampedLimit (userDesc : UserDesc) :
    (clampedLimit userDesc).toNat = min userDesc.limit.toNat (maxLimit userDesc).toNat := by
  unfold clampedLimit
  split <;> omega

/-- Of a limit of at most 20 bits nothing is lost. -/
theorem toNat_limit_toLdtEntry (hlimit : userDesc.limit.toNat < 2 ^ 20) :
    (toLdtEntry userDesc).limit.toNat =
      min userDesc.limit.toNat (maxLimit userDesc).toNat := by
  rw [limit_toLdtEntry, BitVec.toNat_setWidth, toNat_clampedLimit, Nat.mod_eq_of_lt]
  omega

theorem toNat_maxLimit_bytes (hpages : userDesc.limitInPages ≠ 1#1)
    (hbase : userDesc.baseAddr.toNat < 0x7FFF0000) :
    (maxLimit userDesc).toNat = 0x7FFEFFFF - userDesc.baseAddr.toNat := by
  rw [maxLimit, if_neg hpages, BitVec.toNat_sub_of_le]
  · rfl
  · exact BitVec.le_def.mpr (Nat.le_of_lt_succ hbase)

/-- The base rounded up to a page. -/
theorem toNat_base4k (hbase : userDesc.baseAddr.toNat < 0x7FFF0000) :
    ((userDesc.baseAddr + 0xFFF#32) &&& 0xFFFFF000#32).toNat =
      (userDesc.baseAddr.toNat + 0xFFF) / 4096 * 4096 := by
  have hmask : (0xFFFFF000#32 : DWORD) = ~~~(0x1000#32 - 1#32) := by decide
  rw [hmask, toNat_and_not_sub_one _ 0x1000#32 (k := 12) (by decide), BitVec.toNat_add]
  show (userDesc.baseAddr.toNat + 4095) % 4294967296 -
    (userDesc.baseAddr.toNat + 4095) % 4294967296 % 4096 = _
  omega

theorem toNat_maxLimit_pages (hpages : userDesc.limitInPages = 1#1)
    (hbase : userDesc.baseAddr.toNat ≤ 0x7FFEF000) :
    (maxLimit userDesc).toNat = 0x7FFEF - (userDesc.baseAddr.toNat + 0xFFF) / 4096 := by
  have hround : ((userDesc.baseAddr + 0xFFF#32) &&& 0xFFFFF000#32).toNat =
      (userDesc.baseAddr.toNat + 0xFFF) / 4096 * 4096 := toNat_base4k (by omega)
  rw [maxLimit, if_pos hpages, BitVec.toNat_ushiftRight, BitVec.toNat_sub_of_le, hround]
  · show (2147418111 - _) >>> 12 = _
    rw [Nat.shiftRight_eq_div_pow]
    omega
  · rw [BitVec.le_def, hround]
    show _ ≤ 2147418111
    omega

/-- Above the last page boundary the difference wraps around. -/
theorem toNat_maxLimit_wrapped (hpages : userDesc.limitInPages = 1#1)
    (hlow : 0x7FFEF000 < userDesc.baseAddr.toNat) (hbase : userDesc.baseAddr.toNat < 0x7FFF0000) :
    (maxLimit userDesc).toNat = 0xFFFFF := by
  have hround : (userDesc.baseAddr + 0xFFF#32) &&& 0xFFFFF000#32 = 0x7FFF0000#32 := by
    apply BitVec.eq_of_toNat_eq
    rw [toNat_base4k hbase]
    show _ = 2147418112
    omega
  rw [maxLimit, if_pos hpages, hround]
  rfl

/-- Otherwise the greatest limit is the last one within bounds. -/
theorem lastOffset_le_iff (hbase : userDesc.baseAddr.toNat < 0x7FFF0000)
    (hlow : userDesc.limitInPages = 1#1 → userDesc.baseAddr.toNat ≤ 0x7FFEF000) (n : Nat) :
    userDesc.baseAddr.toNat + lastOffset userDesc.limitInPages n ≤ lastAddress ↔
      n ≤ (maxLimit userDesc).toNat := by
  rw [lastOffset, lastAddress]
  by_cases hpages : userDesc.limitInPages = 1#1
  · have hlow := hlow hpages
    rw [if_pos hpages, toNat_maxLimit_pages hpages hlow]
    omega
  · rw [if_neg hpages, toNat_maxLimit_bytes hpages hbase]
    omega

/-- The descriptor stands for the segment unless its limit counts pages and its base is beyond the
last page boundary. -/
theorem represents_toLdtEntry_iff (hbase : userDesc.baseAddr.toNat < 0x7FFF0000)
    (hlimit : userDesc.limit.toNat < 2 ^ 20) :
    Represents userDesc (toLdtEntry userDesc) ↔
      (userDesc.limitInPages = 1#1 → userDesc.baseAddr.toNat ≤ 0x7FFEF000) := by
  have hentry := toNat_limit_toLdtEntry hlimit
  constructor
  · intro h hpages
    by_contra hlow
    -- the last page has room for no limit in pages, and none is made smaller
    have hwrap := toNat_maxLimit_wrapped hpages (by omega) hbase
    have hbad := h.clamped (by rw [lastOffset, if_pos hpages, lastAddress]; omega)
    omega
  · intro hlow
    have hfits := lastOffset_le_iff hbase hlow
    refine ⟨base_toLdtEntry userDesc, granularity_toLdtEntry userDesc, ?_, ?_⟩
    · intro hle
      have hmax := (hfits _).mp hle
      omega
    · intro hgt
      have hmax : (maxLimit userDesc).toNat < userDesc.limit.toNat := by
        by_contra hle
        have hin := (hfits userDesc.limit.toNat).mpr (by omega)
        omega
      have hmin : (toLdtEntry userDesc).limit.toNat = (maxLimit userDesc).toNat := by omega
      exact ⟨by omega, hmin ▸ (hfits _).mpr (Nat.le_refl _)⟩

/-- Whatever the table and the thread, what is passed to Windows stands for the segment asked
for exactly if the limit counts bytes or the base is at most 0x7FFEF000. -/
theorem passed_represents_iff {l : LdtEntries} {t : DWORD} {info : ProcessLdtInformation}
    (hpassed : l.passed t userDesc = some info) (hbase : userDesc.baseAddr.toNat < 0x7FFF0000)
    (hlimit : userDesc.limit.toNat < 2 ^ 20) :
    Represents userDesc info.ldtEntry ↔
      (userDesc.limitInPages = 1#1 → userDesc.baseAddr.toNat ≤ 0x7FFEF000) := by
  rw [ldtEntry_of_passed hpassed]
  exact represents_toLdtEntry_iff hbase hlimit

end Limit

/-- A segment of 4 GiB, as a thread asks for it under an entry of its own. -/
def wholeSegment : UserDesc :=
  { entryNumber := 16#32, baseAddr := 0x1000#32, limit := 0xFFFFF#32, limitInPages := 1#1 }

theorem passed_represents_iff_whole :
    Represents wholeSegment (ldtInformation 16 wholeSegment).ldtEntry :=
  (passed_represents_iff (l := fun _ ↦ { allocatingThreadId := 5#32 }) (t := 5#32)
    (by decide) (by decide) (by decide)).mpr fun _ ↦ by decide

/-- One page from the last address on: the limit is left at 0, and the segment reaches 4095
bytes too far. -/
theorem not_represents_lastPage :
    let userDesc : UserDesc :=
      { entryNumber := 16#32, baseAddr := 0x7FFEFFFF#32, limit := 0#32, limitInPages := 1#1 }
    (LdtEntries.passed (fun _ ↦ { allocatingThreadId := 5#32 }) 5#32 userDesc) =
        some (ldtInformation 16 userDesc) ∧
      ¬Represents userDesc (ldtInformation 16 userDesc).ldtEntry := by
  refine ⟨by decide, fun h ↦ ?_⟩
  have hbad := h.clamped (by decide)
  exact absurd hbad.1 (Nat.not_lt_zero _)

end Keow.Memory
