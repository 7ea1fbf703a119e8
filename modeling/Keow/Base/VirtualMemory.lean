import Mathlib.Data.Nat.Bitwise
import Mathlib.Tactic.Common

/-!
# Paged address spaces

What Windows documents of the virtual memory of a 32-bit process: pages of 4k that are free,
reserved or committed, reservations that start at multiples of 64k, and the calls that query
and change them. `Windows` holds what the documentation leaves to the system, with what it
promises of it.
-/

namespace Keow.Base

/-- The access that a committed page gives. `kind` stands for the attributes beside: they are
only ever compared. -/
structure Access where
  read : Bool
  write : Bool
  kind : Nat := 0
deriving DecidableEq

/-- A page. A page that is taken belongs to the reservation that starts at page `base`. -/
inductive Page where
  | free
  | reserved (base : Nat)
  | committed (base : Nat) (access : Access)
deriving DecidableEq

/-- `MEM_FREE`, `MEM_RESERVE` or `MEM_COMMIT`. -/
inductive PageState where
  | free
  | reserve
  | commit
deriving DecidableEq

namespace Page

def state : Page → PageState
  | free => .free
  | reserved _ => .reserve
  | committed _ _ => .commit

/-- The first page of the reservation. -/
def base : Page → Option Nat
  | free => none
  | reserved b => some b
  | committed b _ => some b

/-- A reservation takes free pages. -/
def reserve (b : Nat) : Page → Page
  | free => reserved b
  | p => p

/-- Committing gives full access, also to a page that was committed before. -/
def commit : Page → Page
  | free => free
  | reserved b => committed b { read := true, write := true }
  | committed b _ => committed b { read := true, write := true }

def decommit : Page → Page
  | committed b _ => reserved b
  | p => p

def Readable : Page → Prop
  | committed _ a => a.read = true
  | _ => False

def Writable : Page → Prop
  | committed _ a => a.write = true
  | _ => False

instance : DecidablePred Readable := fun p ↦ by
  cases p <;> simp only [Readable] <;> infer_instance

instance : DecidablePred Writable := fun p ↦ by
  cases p <;> simp only [Writable] <;> infer_instance

@[simp] theorem state_free : Page.state .free = .free := rfl

@[simp] theorem state_eq_free_iff {p : Page} : p.state = .free ↔ p = .free := by
  cases p <;> simp [state]

theorem ne_free_of_state_commit {p : Page} (h : p.state = .commit) : p ≠ .free := by
  cases p <;> simp_all [state]

theorem state_commit_of_writable {p : Page} (h : p.Writable) : p.state = .commit := by
  cases p <;> simp_all [state, Writable]

theorem state_commit_of_readable {p : Page} (h : p.Readable) : p.state = .commit := by
  cases p <;> simp_all [state, Readable]

end Page

/-- The number of pages below the end of the user address space, `0x7FFF0000`. -/
def userPages : Nat := 0x7FFF0

/-- The number of pages in a granule. -/
def granulePages : Nat := 16

/-- The pages of a process, by number. The first granule and what is above the user address
space cannot be taken. -/
structure Space where
  page : Nat → Page
  outside : ∀ n, n < granulePages ∨ userPages ≤ n → page n = .free

namespace Space

/-- Change the pages from `first` on and before `last`. -/
def update (s : Space) (first last : Nat) (f : Page → Page) : Space where
  page n :=
    if (first ≤ n ∧ n < last) ∧ granulePages ≤ n ∧ n < userPages then f (s.page n) else s.page n
  outside n h := by
    rw [if_neg (by omega)]
    exact s.outside n h

/-- All pages from `first` on and before `last` are free. -/
def AllFree (s : Space) (first last : Nat) : Prop :=
  ∀ i < last - first, s.page (first + i) = .free

/-- None of the pages is free. -/
def AllTaken (s : Space) (first last : Nat) : Prop :=
  ∀ i < last - first, s.page (first + i) ≠ .free

instance (s : Space) (first last : Nat) : Decidable (s.AllFree first last) :=
  inferInstanceAs (Decidable (∀ i < last - first, s.page (first + i) = .free))

instance (s : Space) (first last : Nat) : Decidable (s.AllTaken first last) :=
  inferInstanceAs (Decidable (∀ i < last - first, s.page (first + i) ≠ .free))

/-- The byte at this address lies on a committed page. -/
def Committed (s : Space) (a : Nat) : Prop := (s.page (a / 4096)).state = .commit

instance (s : Space) (a : Nat) : Decidable (s.Committed a) :=
  inferInstanceAs (Decidable (_ = _))

/-- Nothing is given up: what is committed, writable or taken stays so. -/
structure Grows (s s' : Space) : Prop where
  committed : ∀ n, (s.page n).state = .commit → (s'.page n).state = .commit
  writable : ∀ n, (s.page n).Writable → (s'.page n).Writable
  taken : ∀ n, s.page n ≠ .free → s'.page n ≠ .free

theorem Grows.refl (s : Space) : Grows s s := ⟨fun _ h ↦ h, fun _ h ↦ h, fun _ h ↦ h⟩

theorem Grows.trans {s s' s'' : Space} (h : Grows s s') (h' : Grows s' s'') : Grows s s'' :=
  ⟨fun n hn ↦ h'.committed n (h.committed n hn), fun n hn ↦ h'.writable n (h.writable n hn),
    fun n hn ↦ h'.taken n (h.taken n hn)⟩

theorem committed_of_grows {s s' : Space} {a : Nat} (h : Grows s s') (ha : s.Committed a) :
    s'.Committed a :=
  h.committed _ ha

/-- No byte below 64k is committed. -/
theorem le_of_committed {s : Space} {a : Nat} (h : s.Committed a) : 65536 ≤ a := by
  by_contra hlt
  apply Page.ne_free_of_state_commit h
  apply s.outside
  unfold granulePages
  omega

/-- Committed bytes are in the user address space. -/
theorem lt_of_committed {s : Space} {a : Nat} (h : s.Committed a) : a < userPages * 4096 := by
  by_contra hle
  apply Page.ne_free_of_state_commit h
  apply s.outside
  simp only [userPages] at hle ⊢
  omega

theorem page_update_of_mem {s : Space} {first last n : Nat} (f : Page → Page)
    (h : first ≤ n ∧ n < last) (hn : granulePages ≤ n ∧ n < userPages) :
    (s.update first last f).page n = f (s.page n) :=
  if_pos ⟨h, hn⟩

theorem page_update_of_not_mem {s : Space} {first last n : Nat} (f : Page → Page)
    (h : ¬(first ≤ n ∧ n < last)) : (s.update first last f).page n = s.page n :=
  if_neg fun hn ↦ h hn.1

/-- A page of an updated space is as before or changed. -/
theorem page_update_cases (s : Space) (first last n : Nat) (f : Page → Page) :
    (s.update first last f).page n = s.page n ∨
      first ≤ n ∧ n < last ∧ (s.update first last f).page n = f (s.page n) := by
  by_cases h : (first ≤ n ∧ n < last) ∧ granulePages ≤ n ∧ n < userPages
  · exact .inr ⟨h.1.1, h.1.2, if_pos h⟩
  · exact .inl (if_neg h)

/-- An update grows the space if it does so page by page. -/
theorem grows_update (s : Space) (first last : Nat) {f : Page → Page}
    (hc : ∀ p, p.state = .commit → (f p).state = .commit)
    (hw : ∀ p, p.Writable → (f p).Writable) (ht : ∀ p, p ≠ .free → f p ≠ .free) :
    Grows s (s.update first last f) := by
  constructor
  · intro n hn
    rcases page_update_cases s first last n f with h | ⟨_, _, h⟩
    · rwa [h]
    · rw [h]
      exact hc _ hn
  · intro n hn
    rcases page_update_cases s first last n f with h | ⟨_, _, h⟩
    · rwa [h]
    · rw [h]
      exact hw _ hn
  · intro n hn
    rcases page_update_cases s first last n f with h | ⟨_, _, h⟩
    · rwa [h]
    · rw [h]
      exact ht _ hn

theorem grows_reserve (s : Space) (first last b : Nat) :
    Grows s (s.update first last (Page.reserve b)) := by
  apply grows_update
  · intro p
    cases p <;> simp [Page.state, Page.reserve]
  · intro p
    cases p <;> simp [Page.Writable, Page.reserve]
  · intro p
    cases p <;> simp [Page.reserve]

theorem grows_commit (s : Space) (first last : Nat) :
    Grows s (s.update first last Page.commit) := by
  apply grows_update
  · intro p
    cases p <;> simp [Page.state, Page.commit]
  · intro p
    cases p <;> simp [Page.Writable, Page.commit]
  · intro p
    cases p <;> simp [Page.commit]

end Space

/-- The page past the end of a block of bytes. -/
def pageEnd (a size : Nat) : Nat := (a + size + 4095) / 4096

/-- What the documentation leaves to the system. -/
structure Windows where
  /-- The number of pages, from this one on, that `VirtualQueryEx` reports as alike. -/
  region : Space → Nat → Nat
  /-- Where a reservation goes that asks for no address, 0 when there is no room. -/
  place : Space → Nat → Nat
  /-- There are resources for the reservation, for the commitment; the release is accepted. -/
  grantsReserve : Space → Nat → Nat → Bool
  grantsCommit : Space → Nat → Nat → Bool
  grantsDecommit : Space → Nat → Nat → Bool
  region_pos : ∀ s n, 0 < region s n
  region_same : ∀ s n k, k < region s n → s.page (n + k) = s.page n
  region_max : ∀ s n, n + region s n < userPages → s.page (n + region s n) ≠ s.page n
  region_le : ∀ s n, n < userPages → n + region s n ≤ userPages
  place_aligned : ∀ s size, place s size % 65536 = 0
  place_free : ∀ s size, place s size ≠ 0 →
    s.AllFree (place s size / 4096) (pageEnd (place s size) size)
  place_le : ∀ s size, place s size ≠ 0 → size ≠ 0 ∧ place s size + size ≤ userPages * 4096

theorem Windows.region_state (w : Windows) {s : Space} {n k : Nat} (h : k < w.region s n) :
    (s.page (n + k)).state = (s.page n).state := by
  rw [w.region_same s n k h]

/-- `MEMORY_BASIC_INFORMATION`. -/
structure MemoryBasicInformation where
  baseAddress : BitVec 32
  regionSize : BitVec 32
  state : PageState

namespace Windows

/-- `VirtualQueryEx`. Above the user address space it fails and reports nothing. -/
def virtualQueryEx (w : Windows) (s : Space) (addr : BitVec 32) (mbi : MemoryBasicInformation) :
    MemoryBasicInformation :=
  if addr.toNat / 4096 < userPages then
    { baseAddress := addr &&& ~~~(0x1000#32 - 1#32)
      regionSize := BitVec.ofNat 32 (w.region s (addr.toNat / 4096) * 4096)
      state := (s.page (addr.toNat / 4096)).state }
  else mbi

/-- `VirtualAllocEx` with `MEM_RESERVE`. The address is rounded down to a granule; without an
address the system chooses. -/
def reserve (w : Windows) (s : Space) (addr size : BitVec 32) : BitVec 32 × Space :=
  let a := addr.toNat / 65536 * 65536
  let last := pageEnd addr.toNat size.toNat
  if addr = 0#32 then
    let p := w.place s size.toNat
    (BitVec.ofNat 32 p,
      if p = 0 then s
      else s.update (p / 4096) (pageEnd p size.toNat) (Page.reserve (p / 4096)))
  else if size ≠ 0#32 ∧ granulePages ≤ a / 4096 ∧ last ≤ userPages ∧ s.AllFree (a / 4096) last ∧
      w.grantsReserve s a size.toNat then
    (BitVec.ofNat 32 a, s.update (a / 4096) last (Page.reserve (a / 4096)))
  else (0#32, s)

/-- `VirtualAllocEx` with `MEM_COMMIT` and full access. The address is rounded down to a
page. -/
def commit (w : Windows) (s : Space) (addr size : BitVec 32) : BitVec 32 × Space :=
  let a := addr.toNat / 4096 * 4096
  let last := pageEnd addr.toNat size.toNat
  if size ≠ 0#32 ∧ last ≤ userPages ∧ s.AllTaken (a / 4096) last ∧
      w.grantsCommit s a size.toNat then
    (BitVec.ofNat 32 a, s.update (a / 4096) last Page.commit)
  else (0#32, s)

/-- The pages that `VirtualFreeEx` with `MEM_DECOMMIT` gives up: those that hold a byte of the
range, or with size 0 the whole reservation that starts at the address. -/
def Decommits (s : Space) (addr size : BitVec 32) (n : Nat) : Prop :=
  if size = 0#32 then addr.toNat % 4096 = 0 ∧ (s.page n).base = some (addr.toNat / 4096)
  else addr.toNat / 4096 ≤ n ∧ n < pageEnd addr.toNat size.toNat

/-- `VirtualFreeEx` with `MEM_DECOMMIT`. -/
def decommit (w : Windows) (s : Space) (addr size : BitVec 32) : Option Space :=
  if w.grantsDecommit s addr.toNat size.toNat then
    some (if size = 0#32 then
        s.update 0 userPages fun p ↦
          if addr.toNat % 4096 = 0 ∧ p.base = some (addr.toNat / 4096) then p.decommit else p
      else s.update (addr.toNat / 4096) (pageEnd addr.toNat size.toNat) Page.decommit)
  else none

/-! Neither reservation nor commitment gives anything up, successful or not. -/

theorem grows_reserve (w : Windows) (s : Space) (addr size : BitVec 32) :
    s.Grows (w.reserve s addr size).2 := by
  simp only [reserve]
  split
  · split
    · exact Space.Grows.refl s
    · exact Space.grows_reserve s _ _ _
  · split
    · exact Space.grows_reserve s _ _ _
    · exact Space.Grows.refl s

theorem grows_commit (w : Windows) (s : Space) (addr size : BitVec 32) :
    s.Grows (w.commit s addr size).2 := by
  simp only [commit]
  split
  · exact Space.grows_commit s _ _
  · exact Space.Grows.refl s

/-- A page that decommitting does not concern keeps its state. -/
theorem page_decommit {w : Windows} {s s' : Space} {addr size : BitVec 32}
    (h : w.decommit s addr size = some s') {n : Nat} (hn : ¬Decommits s addr size n) :
    s'.page n = s.page n := by
  unfold decommit at h
  split at h
  · cases h
    unfold Decommits at hn
    split
    · next hz =>
      rw [if_pos hz] at hn
      rcases Space.page_update_cases s 0 userPages n _ with hp | ⟨_, _, hp⟩
      · exact hp
      · rw [hp, if_neg hn]
    · next hz =>
      rw [if_neg hz] at hn
      exact Space.page_update_of_not_mem _ hn
  · cases h

/-- Decommitting frees no page. -/
theorem decommit_eq_free_iff {w : Windows} {s s' : Space} {addr size : BitVec 32}
    (h : w.decommit s addr size = some s') (n : Nat) :
    s'.page n = .free ↔ s.page n = .free := by
  have hpage : ∀ p : Page, p.decommit = .free ↔ p = .free := by
    intro p
    cases p <;> simp [Page.decommit]
  unfold decommit at h
  split at h
  · cases h
    split
    · rcases Space.page_update_cases s 0 userPages n _ with hp | ⟨_, _, hp⟩
      · rw [hp]
      · rw [hp]
        split
        · exact hpage _
        · exact Iff.rfl
    · rcases Space.page_update_cases s _ _ n Page.decommit with hp | ⟨_, _, hp⟩
      · rw [hp]
      · rw [hp]
        exact hpage _
  · cases h

/-! ## A system that refuses nothing -/

/-- The number of equal pages from `n` on, among the next `fuel` ones. -/
def alike (s : Space) (p : Page) : Nat → Nat → Nat
  | 0, _ => 0
  | fuel + 1, n => if s.page n = p then alike s p fuel (n + 1) + 1 else 0

theorem alike_le (s : Space) (p : Page) (fuel n : Nat) : alike s p fuel n ≤ fuel := by
  induction fuel generalizing n with
  | zero => exact Nat.le_refl 0
  | succ fuel ih =>
    rw [alike]
    split
    · exact Nat.succ_le_succ (ih (n + 1))
    · exact Nat.zero_le _

theorem page_of_lt_alike (s : Space) (p : Page) (fuel : Nat) {n k : Nat}
    (h : k < alike s p fuel n) : s.page (n + k) = p := by
  induction fuel generalizing n k with
  | zero => exact absurd h (Nat.not_lt_zero k)
  | succ fuel ih =>
    rw [alike] at h
    split at h
    · next hp =>
      cases k with
      | zero => exact hp
      | succ k =>
        have hk := ih (n := n + 1) (k := k) (by omega)
        rwa [Nat.add_right_comm] at hk
    · exact absurd h (Nat.not_lt_zero k)

theorem page_alike_ne (s : Space) (p : Page) (fuel n : Nat) (h : alike s p fuel n < fuel) :
    s.page (n + alike s p fuel n) ≠ p := by
  induction fuel generalizing n with
  | zero => exact absurd h (Nat.not_lt_zero _)
  | succ fuel ih =>
    rw [alike] at h ⊢
    split
    · next hp =>
      rw [if_pos hp] at h
      have hn := ih (n + 1) (by omega)
      rwa [Nat.add_right_comm] at hn
    · next hp => exact hp

/-- A block fits at the start of this granule. -/
def Fits (s : Space) (size g : Nat) : Prop :=
  size ≠ 0 ∧ g * 65536 + size ≤ userPages * 4096 ∧
    s.AllFree (g * 65536 / 4096) (pageEnd (g * 65536) size)

instance (s : Space) (size : Nat) : DecidablePred (Fits s size) :=
  fun _ ↦ inferInstanceAs (Decidable (_ ∧ _))

/-- The first granule where a block fits. -/
def firstFit (s : Space) (size : Nat) : Option Nat :=
  (List.range' 1 (userPages / granulePages)).find? fun g ↦ Fits s size g

theorem fits_of_firstFit {s : Space} {size g : Nat} (h : firstFit s size = some g) :
    Fits s size g := by
  unfold firstFit at h
  have hg := List.find?_some h
  exact of_decide_eq_true hg

/-- Windows as it is when nothing runs short: regions are as long as they can be, a block
without an address goes to the first granule where it fits. -/
def generous : Windows where
  region s n := if n < userPages then alike s (s.page n) (userPages - n) n else 1
  place s size := (firstFit s size).elim 0 (· * 65536)
  grantsReserve _ _ _ := true
  grantsCommit _ _ _ := true
  grantsDecommit _ _ _ := true
  region_pos s n := by
    split
    · next h =>
      obtain ⟨k, hk⟩ : ∃ k, userPages - n = k + 1 := ⟨userPages - n - 1, by omega⟩
      rw [hk, alike, if_pos rfl]
      exact Nat.succ_pos _
    · exact Nat.one_pos
  region_same s n k h := by
    split at h
    · exact page_of_lt_alike s _ _ h
    · rw [show k = 0 by omega, Nat.add_zero]
  region_max s n h := by
    split at h
    · next hn =>
      rw [if_pos hn]
      exact page_alike_ne s _ _ _ (by omega)
    · omega
  region_le s n h := by
    rw [if_pos h]
    have := alike_le s (s.page n) (userPages - n) n
    omega
  place_aligned s size := by
    cases firstFit s size with
    | none => rfl
    | some g => exact Nat.mul_mod_left g 65536
  place_free s size h := by
    cases hf : firstFit s size with
    | none => exact absurd (by rw [hf]; rfl) h
    | some g => exact (fits_of_firstFit hf).2.2
  place_le s size h := by
    cases hf : firstFit s size with
    | none => exact absurd (by rw [hf]; rfl) h
    | some g => exact ⟨(fits_of_firstFit hf).1, (fits_of_firstFit hf).2.1⟩

end Windows
end Keow.Base
