import Keow.Memory.Ldt

/-!
# When per-thread LDT entries are stable

A slot serves one thread only, whatever is called. That a descriptor can be read back, and that
a look-up is answered by the same slot each time, depends on two things: nobody looks an entry
of another thread up before setting it, and nobody sets a slot that holds its own copy of
another entry. The run theorem says that these are the only ways to go wrong.
-/

namespace Keow.Memory

open Keow.Base Keow.Kernel

namespace LdtEntries

/-- An entry number inside the table. -/
def Valid (n : DWORD) : Prop := 0 < n.toInt ∧ n.toInt < (MAX_LDT_ENTRIES : Int)

/-- The slot that serves `t` under `n` without a new allocation. -/
def served (l : LdtEntries) (t n : DWORD) : Option Nat :=
  if (MAX_LDT_ENTRIES : Int) ≤ n.toInt ∨ n.toInt ≤ 0 then none
  else if l.owner n.toNat = t then some n.toNat
  else if l.owner n.toNat = 0#32 then none
  else usable.find? fun i ↦ l.stored i = n ∧ l.owner i = t

/-- The entry belongs to another thread, `t` has no copy of it, and there is room for one. -/
def Unset (l : LdtEntries) (t n : DWORD) : Prop :=
  Valid n ∧ l.owner n.toNat ≠ 0#32 ∧ l.served t n = none ∧ ∃ i ∈ usable, l.owner i = 0#32

theorem mem_usable {i : Nat} : i ∈ usable ↔ 16 ≤ i ∧ i < 8192 := by
  rw [usable, List.mem_range'_1]
  exact Iff.rfl

theorem valid_iff {n : DWORD} :
    Valid n ↔ ¬((MAX_LDT_ENTRIES : Int) ≤ n.toInt ∨ n.toInt ≤ 0) := by
  rw [Valid]
  omega

theorem Valid.toNat {n : DWORD} (h : Valid n) : 0 < n.toNat ∧ n.toNat < 8192 := by
  have hcases := BitVec.toInt_eq_toNat_cond n
  have hlt := n.isLt
  obtain ⟨hpos, hmax⟩ := h
  rw [show (MAX_LDT_ENTRIES : Int) = 8192 from rfl] at hmax
  split at hcases <;> omega

theorem valid_ofNat {i : Nat} (h : 0 < i ∧ i < 8192) : Valid (BitVec.ofNat 32 i) := by
  have hnat : (BitVec.ofNat 32 i).toNat = i := by
    rw [BitVec.toNat_ofNat]
    omega
  have hint : (BitVec.ofNat 32 i).toInt = i := by
    rw [BitVec.toInt_eq_toNat_of_lt (by omega), hnat]
  rw [Valid, hint, show (MAX_LDT_ENTRIES : Int) = 8192 from rfl]
  omega

theorem toNat_ofNat {i : Nat} (h : i < 8192) : (BitVec.ofNat 32 i).toNat = i := by
  rw [BitVec.toNat_ofNat]
  omega

/-- A slot that serves a thread belongs to it, and is the entry itself or a copy of it. -/
theorem served_spec {l : LdtEntries} {t n : DWORD} {i : Nat} (h : l.served t n = some i) :
    Valid n ∧ l.owner i = t ∧ (i = n.toNat ∨
      (l.stored i = n ∧ l.owner n.toNat ≠ t ∧ l.owner n.toNat ≠ 0#32)) := by
  rw [served] at h
  split at h
  · cases h
  · next hvalid =>
    refine ⟨valid_iff.mpr hvalid, ?_⟩
    split at h
    · next howner =>
      cases h
      exact ⟨howner, .inl rfl⟩
    · next howner =>
      split at h
      · cases h
      · next hfree =>
        have hi := List.find?_some h
        simp only [decide_eq_true_eq] at hi
        exact ⟨hi.2, .inr ⟨hi.1, howner, hfree⟩⟩

theorem served_own {l : LdtEntries} {t n : DWORD} (hn : Valid n) (h : l.owner n.toNat = t) :
    l.served t n = some n.toNat := by
  rw [served, if_neg (valid_iff.mp hn), if_pos h]

theorem served_copy {l : LdtEntries} {t n : DWORD} (hn : Valid n) (h : l.owner n.toNat ≠ t)
    (h0 : l.owner n.toNat ≠ 0#32) :
    l.served t n = usable.find? fun i ↦ l.stored i = n ∧ l.owner i = t := by
  rw [served, if_neg (valid_iff.mp hn), if_neg h, if_neg h0]

/-- A look-up that is served changes nothing. -/
theorem calculate_of_served {l : LdtEntries} {t n : DWORD} {i : Nat} (h : l.served t n = some i) :
    l.calculateLDTEntryForThread t n = (i, l) := by
  unfold served at h
  unfold calculateLDTEntryForThread
  split at h
  · cases h
  · next hvalid =>
    rw [if_neg hvalid]
    split at h
    · next howner =>
      cases h
      rw [if_pos howner]
    · next howner =>
      rw [if_neg howner]
      split at h
      · cases h
      · next hfree => rw [if_neg hfree, h]

/-- Nor does one of a free entry or of a number outside the table. -/
theorem calculate_of_free {l : LdtEntries} {t n : DWORD} (ht : t ≠ 0#32)
    (h : ¬(Valid n ∧ l.owner n.toNat ≠ 0#32)) : l.calculateLDTEntryForThread t n = (0, l) := by
  unfold calculateLDTEntryForThread
  split
  · rfl
  · next hvalid =>
    have hfree : l.owner n.toNat = 0#32 := by
      by_contra hne
      exact h ⟨valid_iff.mpr hvalid, hne⟩
    rw [if_neg (by rw [hfree]; exact ht.symm), if_pos hfree]

/-- Any other look-up takes a new slot. -/
theorem calculate_of_unserved {l : LdtEntries} {t n : DWORD} (hn : Valid n)
    (howned : l.owner n.toNat ≠ 0#32) (h : l.served t n = none) :
    l.calculateLDTEntryForThread t n =
      (((l.allocateLDTSelector t (l n.toNat).isReallyLDT).1.getD 0),
        (l.allocateLDTSelector t (l n.toNat).isReallyLDT).2) := by
  unfold served at h
  unfold calculateLDTEntryForThread
  rw [if_neg (valid_iff.mp hn)] at h ⊢
  split at h
  · cases h
  · next howner =>
    rw [if_neg howner, if_neg howned, h]
    cases hal : l.allocateLDTSelector t (l n.toNat).isReallyLDT with
    | mk index l' => cases index <;> rfl

/-- A slot as `AllocateLDTSelector` leaves it. -/
def taken (l : LdtEntries) (i : Nat) (t : DWORD) : LdtEntries :=
  l.update i fun e ↦ { e with isReallyLDT := false, allocatingThreadId := t }

/-- A slot as `SetLDTSelector` leaves it. -/
def write (l : LdtEntries) (i : Nat) (t : DWORD) (userDesc : UserDesc) : LdtEntries :=
  l.update i fun _ ↦ ⟨t, false, userDesc⟩

theorem update_self (l : LdtEntries) (i : Nat) (f : LdtData → LdtData) :
    l.update i f i = f (l i) := if_pos rfl

theorem update_of_ne (l : LdtEntries) {i j : Nat} (f : LdtData → LdtData) (h : j ≠ i) :
    l.update i f j = l j := if_neg h

theorem update_update (l : LdtEntries) (i : Nat) (f g : LdtData → LdtData) :
    (l.update i f).update i g = l.update i fun e ↦ g (f e) := by
  funext j
  by_cases hj : j = i
  · subst hj
    simp only [update_self]
  · simp only [update_of_ne _ _ hj]

theorem write_eq (l : LdtEntries) (i : Nat) {t : DWORD} (d : UserDesc) (howner : l.owner i = t) :
    (l.update i fun e ↦ { e with userDesc := d, isReallyLDT := false }) = l.write i t d := by
  funext j
  by_cases hj : j = i
  · subst hj
    rw [write, update_self, update_self, ← howner]
    rfl
  · rw [write, update_of_ne _ _ hj, update_of_ne _ _ hj]

theorem write_allocated (l : LdtEntries) (i : Nat) (t : DWORD) (d : UserDesc) :
    ((l.taken i t).update i fun e ↦ { e with userDesc := d, isReallyLDT := false }) =
      l.write i t d := by
  rw [taken, update_update, write]

theorem taken_of_ne (l : LdtEntries) {i j : Nat} (t : DWORD) (h : j ≠ i) :
    l.taken i t j = l j := if_neg h

theorem owner_taken_self (l : LdtEntries) (i : Nat) (t : DWORD) : (l.taken i t).owner i = t :=
  congrArg LdtData.allocatingThreadId (update_self l i _)

theorem userDesc_taken (l : LdtEntries) (i : Nat) (t : DWORD) (j : Nat) :
    (l.taken i t j).userDesc = (l j).userDesc := by
  by_cases hj : j = i
  · rw [hj, taken, update_self]
  · rw [taken_of_ne l t hj]

/-- A slot taken for `t`: the first free one. -/
theorem allocate_cases (l : LdtEntries) (t : DWORD) :
    (l.allocateLDTSelector t false = (none, l) ∧ ∀ i ∈ usable, l.owner i ≠ 0#32) ∨
      ∃ i ∈ usable, l.owner i = 0#32 ∧
        l.allocateLDTSelector t false = (some i, l.taken i t) := by
  unfold allocateLDTSelector
  cases hfind : usable.find? fun i ↦ l.owner i = 0#32 with
  | none =>
    refine .inl ⟨rfl, fun i hi ↦ ?_⟩
    simpa using List.find?_eq_none.mp hfind i hi
  | some i =>
    have hi := List.find?_some hfind
    exact .inr ⟨i, List.mem_of_find?_eq_some hfind, by simpa using hi, rfl⟩

/-- Setting the slot just taken writes the descriptor there. -/
theorem setLDTSelector_allocated (l : LdtEntries) (t : ThreadId) (d : UserDesc) {i : Nat}
    (hmem : i ∈ usable) (hd : d.entryNumber = BitVec.ofNat 32 i) :
    ((l.taken i t).calculateLDTEntryForThread t d.entryNumber).1 = i ∧
      (l.taken i t).setLDTSelector t d false 0#32 = (true, l.write i t d) := by
  have hi := mem_usable.mp hmem
  have hserved : (l.taken i t).served t d.entryNumber = some i := by
    have hnat := toNat_ofNat hi.2
    rw [hd, served_own (valid_ofNat ⟨by omega, hi.2⟩) (by rw [hnat, owner, taken, update_self]),
      hnat]
  unfold setLDTSelector
  rw [calculate_of_served hserved]
  refine ⟨rfl, ?_⟩
  cases i with
  | zero => omega
  | succ i => exact Prod.ext rfl (write_allocated l (i + 1) t d)

/-- Nothing serves a thread under the number of a free entry. -/
theorem served_of_free {l : LdtEntries} {t n : DWORD} (ht : t ≠ 0#32)
    (h : l.owner n.toNat = 0#32) : l.served t n = none := by
  rw [served]
  split
  · rfl
  · simp only [h, if_neg ht.symm]

/-- A thread that sets a slot of its own directly overwrites it. -/
theorem setLDTSelector_own {l : LdtEntries} {t : DWORD} {d : UserDesc}
    (howner : l.owner d.entryNumber.toNat = t)
    (hpos : 16 ≤ d.entryNumber.toNat ∧ d.entryNumber.toNat < 8192) :
    (l.calculateLDTEntryForThread t d.entryNumber).1 = d.entryNumber.toNat ∧
      l.setLDTSelector t d false 0#32 = (true, l.write d.entryNumber.toNat t d) := by
  have hvalid : Valid d.entryNumber := by
    have hofNat : Valid (BitVec.ofNat 32 d.entryNumber.toNat) := valid_ofNat (by omega)
    rwa [BitVec.ofNat_toNat, BitVec.setWidth_eq] at hofNat
  unfold setLDTSelector
  rw [calculate_of_served (served_own hvalid howner)]
  refine ⟨rfl, ?_⟩
  have hwrite := write_eq l d.entryNumber.toNat d howner
  generalize d.entryNumber.toNat = i at hpos hwrite
  cases i with
  | zero => omega
  | succ i => exact Prod.ext rfl hwrite

/-- A look-up that is not served is answered by a slot that was free, or not at all. -/
theorem calculate_fresh {l : LdtEntries} {t n : DWORD} (hreal : (l n.toNat).isReallyLDT = false)
    (hn : Valid n) (howned : l.owner n.toNat ≠ 0#32) (h : l.served t n = none) :
    l.calculateLDTEntryForThread t n = (0, l) ∨ ∃ i ∈ usable, l.owner i = 0#32 ∧
      l.calculateLDTEntryForThread t n = (i, l.taken i t) := by
  rw [calculate_of_unserved hn howned h, hreal]
  rcases allocate_cases l t with ⟨hnone, -⟩ | ⟨i, hmem, hfree, hsome⟩
  · rw [hnone]
    exact .inl rfl
  · rw [hsome]
    exact .inr ⟨i, hmem, hfree, rfl⟩

/-- No slot holds a copy of the entry for the thread. -/
theorem served_eq_none {l : LdtEntries} {t n : DWORD} (hn : Valid n) (h : l.owner n.toNat ≠ t)
    (h0 : l.owner n.toNat ≠ 0#32) :
    l.served t n = none ↔ ∀ i ∈ usable, l.stored i = n → l.owner i ≠ t := by
  rw [served_copy hn h h0, List.find?_eq_none]
  simp

theorem Valid.ne_zero {n : DWORD} (h : Valid n) : n ≠ 0#32 := by
  rintro rfl
  exact absurd h.toNat.1 (by decide)

end LdtEntries

/-- The state of a run in which nothing has gone wrong: every slot that is in use holds the
descriptor its owner has last set under the number stored there, and each pair of an owner and
a number has one slot. -/
structure LdtState.Inv (w : LdtState) : Prop where
  usable : ∀ i, w.ldt.owner i ≠ 0#32 → i ∈ LdtEntries.usable
  real : ∀ i, (w.ldt i).isReallyLDT = false
  blank : ∀ i, w.ldt.owner i = 0#32 → w.ldt.stored i = 0#32
  number : ∀ i, w.ldt.owner i ≠ 0#32 → w.ldt.stored i = BitVec.ofNat 32 i ∨
    (LdtEntries.Valid (w.ldt.stored i) ∧ w.ldt.owner (w.ldt.stored i).toNat ≠ 0#32 ∧
      w.ldt.owner (w.ldt.stored i).toNat ≠ w.ldt.owner i)
  unique : ∀ i j, w.ldt.owner i ≠ 0#32 → w.ldt.owner i = w.ldt.owner j →
    w.ldt.stored i = w.ldt.stored j → i = j
  filled : ∀ i (t : ThreadId), w.ldt.owner i = t →
    w.lastSet t (w.ldt.stored i) = some (w.ldt i).userDesc
  found : ∀ (t : ThreadId) n d, w.lastSet t n = some d →
    ∃ i, w.ldt.served t n = some i ∧ (w.ldt i).userDesc = d ∧ d.entryNumber = n
  same : ∀ a ∈ w.lookups, a.2.2 ≠ 0 → w.ldt.served a.1 a.2.1 = some a.2.2

namespace LdtState.Inv

open LdtEntries

variable {w : LdtState}

/-- A slot in use is not slot 0. -/
theorem pos (h : w.Inv) {i : Nat} (hi : w.ldt.owner i ≠ 0#32) : 16 ≤ i ∧ i < 8192 :=
  mem_usable.mp (h.usable i hi)

theorem pos_of_owner (h : w.Inv) {i : Nat} {t : ThreadId} (howner : w.ldt.owner i = t) :
    16 ≤ i ∧ i < 8192 :=
  h.pos (by rw [howner]; exact t.2)

/-- The slot in use for a pair of an owner and a number serves it. -/
theorem served_of_stored (h : w.Inv) {i : Nat} {t : ThreadId} (howner : w.ldt.owner i = t) :
    w.ldt.served t (w.ldt.stored i) = some i := by
  have hne : w.ldt.owner i ≠ 0#32 := by
    rw [howner]
    exact t.2
  have hi := h.pos hne
  rcases h.number i hne with hn | ⟨hvalid, h0, hother⟩
  · have hnat := toNat_ofNat hi.2
    rw [hn, served_own (valid_ofNat ⟨by omega, hi.2⟩) (by rw [hnat, howner]), hnat]
  · rw [howner] at hother
    rw [served_copy hvalid hother h0]
    cases hfind : LdtEntries.usable.find? fun j ↦
        w.ldt.stored j = w.ldt.stored i ∧ w.ldt.owner j = t with
    | none =>
      have hnot := List.find?_eq_none.mp hfind i (h.usable i hne)
      simp [howner] at hnot
    | some j =>
      have hj := List.find?_some hfind
      simp only [decide_eq_true_eq] at hj
      have hj0 : w.ldt.owner j ≠ 0#32 := by
        rw [hj.2]
        exact t.2
      rw [h.unique j i hj0 (hj.2.trans howner.symm) hj.1]

end LdtState.Inv

/-- Slot `i` may take the descriptor `d` of thread `t`: it holds the thread's descriptor for the
same number, or it is free and the thread has none for that number. -/
inductive Fits (l : LdtEntries) (t : ThreadId) (i : Nat) (d : UserDesc) : Prop where
  | again (owner_eq : l.owner i = t) (stored_eq : l.stored i = d.entryNumber)
  | taken (mem : i ∈ LdtEntries.usable) (free : l.owner i = 0#32)
      (unserved : l.served t d.entryNumber = none)
      (number : d.entryNumber = BitVec.ofNat 32 i ∨
        (LdtEntries.Valid d.entryNumber ∧ l.owner d.entryNumber.toNat ≠ 0#32 ∧
          l.owner d.entryNumber.toNat ≠ t))

namespace Fits

open LdtEntries

variable {w : LdtState} {t : ThreadId} {i : Nat} {d : UserDesc}

theorem owner_write_self (l : LdtEntries) : (l.write i t d).owner i = t := by
  rw [owner, write, update_self]

theorem userDesc_write_self (l : LdtEntries) : (l.write i t d i).userDesc = d := by
  rw [write, update_self]

theorem stored_write_self (l : LdtEntries) : (l.write i t d).stored i = d.entryNumber := by
  rw [stored, write, update_self]

theorem write_of_ne (l : LdtEntries) {j : Nat} (h : j ≠ i) : l.write i t d j = l j :=
  update_of_ne l _ h

theorem owner_write_of_ne (l : LdtEntries) {j : Nat} (h : j ≠ i) :
    (l.write i t d).owner j = l.owner j := by
  rw [owner, write_of_ne l h, owner]

theorem stored_write_of_ne (l : LdtEntries) {j : Nat} (h : j ≠ i) :
    (l.write i t d).stored j = l.stored j := by
  rw [stored, write_of_ne l h, stored]

/-- Owners that are there stay. -/
theorem owner_write (hfit : Fits w.ldt t i d) {j : Nat} (h : w.ldt.owner j ≠ 0#32) :
    (w.ldt.write i t d).owner j = w.ldt.owner j := by
  by_cases hj : j = i
  · subst hj
    cases hfit with
    | again howner => rw [owner_write_self, howner]
    | taken _ hfree => exact absurd hfree h
  · exact owner_write_of_ne w.ldt hj

/-- No other slot holds the thread's descriptor for the number. -/
theorem eq_of_stored (hfit : Fits w.ldt t i d) (h : w.Inv) {j : Nat} (howner : w.ldt.owner j = t)
    (hstored : w.ldt.stored j = d.entryNumber) : j = i := by
  cases hfit with
  | again ho hs =>
    exact h.unique j i (by rw [howner]; exact t.2) (howner.trans ho.symm) (hstored.trans hs.symm)
  | taken _ _ hunserved =>
    have hserved := h.served_of_stored howner
    rw [hstored, hunserved] at hserved
    cases hserved

/-- The number is that of the slot, or of an entry of another thread. -/
theorem number (hfit : Fits w.ldt t i d) (h : w.Inv) :
    d.entryNumber = BitVec.ofNat 32 i ∨ (Valid d.entryNumber ∧
      w.ldt.owner d.entryNumber.toNat ≠ 0#32 ∧ w.ldt.owner d.entryNumber.toNat ≠ t) := by
  cases hfit with
  | again ho hs =>
    have hnumber := h.number i (by rw [ho]; exact t.2)
    rwa [hs, ho] at hnumber
  | taken _ _ _ hnumber => exact hnumber

theorem mem_usable (hfit : Fits w.ldt t i d) (h : w.Inv) : i ∈ LdtEntries.usable := by
  cases hfit with
  | again ho => exact h.usable i (by rw [ho]; exact t.2)
  | taken hmem => exact hmem

/-- The slot serves the thread under the number of the descriptor. -/
theorem served_self (hfit : Fits w.ldt t i d) (h : w.Inv) :
    (w.ldt.write i t d).served t d.entryNumber = some i := by
  have hmem := hfit.mem_usable h
  have hi := LdtEntries.mem_usable.mp hmem
  rcases hfit.number h with hnumber | ⟨hvalid, h0, hother⟩
  · have hnat := toNat_ofNat hi.2
    rw [hnumber, served_own (valid_ofNat ⟨by omega, hi.2⟩) (by rw [hnat, owner_write_self]), hnat]
  · have howner := hfit.owner_write h0
    rw [served_copy hvalid (by rw [howner]; exact hother) (by rw [howner]; exact h0)]
    cases hfind : LdtEntries.usable.find? fun j ↦
        (w.ldt.write i t d).stored j = d.entryNumber ∧ (w.ldt.write i t d).owner j = t with
    | none =>
      have hnot := List.find?_eq_none.mp hfind i hmem
      simp [stored_write_self, owner_write_self] at hnot
    | some j =>
      have hj := List.find?_some hfind
      simp only [decide_eq_true_eq] at hj
      by_cases hji : j = i
      · rw [hji]
      · rw [stored_write_of_ne _ hji, owner_write_of_ne _ hji] at hj
        rw [hfit.eq_of_stored h hj.2 hj.1]

/-- What was served under another number, or to another thread, still is. -/
theorem served_other (hfit : Fits w.ldt t i d) {t' : ThreadId} {n : DWORD} {j : Nat}
    (hserved : w.ldt.served t' n = some j) (hne : ¬(t' = t ∧ n = d.entryNumber)) :
    (w.ldt.write i t d).served t' n = some j := by
  obtain ⟨hvalid, howner, hj | ⟨hstored, hother, h0⟩⟩ := served_spec hserved
  · have hne0 : w.ldt.owner j ≠ 0#32 := by
      rw [howner]
      exact t'.2
    have howner' := hfit.owner_write hne0
    subst hj
    exact served_own hvalid (howner'.trans howner)
  · have howner' := hfit.owner_write h0
    rw [served_copy hvalid (by rw [howner']; exact hother) (by rw [howner']; exact h0)]
    rw [served_copy hvalid hother h0] at hserved
    rw [← hserved]
    congr 1
    funext k
    by_cases hk : k = i
    · subst hk
      have hnew : ¬(d.entryNumber = n ∧ t.1 = t'.1) :=
        fun hb ↦ hne ⟨Subtype.ext hb.2.symm, hb.1.symm⟩
      have hold : ¬(w.ldt.stored k = n ∧ w.ldt.owner k = t') := by
        cases hfit with
        | again ho hs =>
          rw [ho, hs]
          exact hnew
        | taken _ hfree =>
          rw [hfree]
          exact fun hb ↦ t'.2 hb.2.symm
      rw [stored_write_self, owner_write_self, decide_eq_false hnew, decide_eq_false hold]
    · rw [stored_write_of_ne _ hk, owner_write_of_ne _ hk]

end Fits

/-- A descriptor written, looked up and recorded. -/
def LdtState.afterWrite (w : LdtState) (t : ThreadId) (i : Nat) (d : UserDesc) : LdtState where
  ldt := w.ldt.write i t d
  lookups := (t, d.entryNumber, i) :: w.lookups
  lastSet := fun t' n ↦ if t' = t ∧ n = d.entryNumber then some d else w.lastSet t' n

theorem LdtState.lastSet_afterWrite_self (w : LdtState) (t : ThreadId) (i : Nat) (d : UserDesc) :
    (w.afterWrite t i d).lastSet t d.entryNumber = some d := if_pos ⟨rfl, rfl⟩

theorem LdtState.lastSet_afterWrite_of_ne (w : LdtState) {t t' : ThreadId} {n : DWORD} (i : Nat)
    {d : UserDesc} (h : ¬(t' = t ∧ n = d.entryNumber)) :
    (w.afterWrite t i d).lastSet t' n = w.lastSet t' n := if_neg h

/-! Writing a descriptor where it fits keeps the invariant. -/

section Write

variable {w : LdtState} {t : ThreadId} {i : Nat} {d : UserDesc}

theorem LdtState.Inv.number_write (h : w.Inv) (hfit : Fits w.ldt t i d) (j : Nat)
    (hj : (w.ldt.write i t d).owner j ≠ 0#32) :
    (w.ldt.write i t d).stored j = BitVec.ofNat 32 j ∨
      (LdtEntries.Valid ((w.ldt.write i t d).stored j) ∧
        (w.ldt.write i t d).owner ((w.ldt.write i t d).stored j).toNat ≠ 0#32 ∧
        (w.ldt.write i t d).owner ((w.ldt.write i t d).stored j).toNat ≠
          (w.ldt.write i t d).owner j) := by
  by_cases hji : j = i
  · subst hji
    rw [Fits.stored_write_self, Fits.owner_write_self]
    refine (hfit.number h).imp_right ?_
    rintro ⟨hvalid, h0, hother⟩
    rw [hfit.owner_write h0]
    exact ⟨hvalid, h0, hother⟩
  · rw [Fits.stored_write_of_ne _ hji, Fits.owner_write_of_ne _ hji] at *
    refine (h.number j hj).imp_right ?_
    rintro ⟨hvalid, h0, hother⟩
    rw [hfit.owner_write h0]
    exact ⟨hvalid, h0, hother⟩

theorem LdtState.Inv.unique_write (h : w.Inv) (hfit : Fits w.ldt t i d) (j k : Nat)
    (hj : (w.ldt.write i t d).owner j ≠ 0#32)
    (hjk : (w.ldt.write i t d).owner j = (w.ldt.write i t d).owner k)
    (hstored : (w.ldt.write i t d).stored j = (w.ldt.write i t d).stored k) : j = k := by
  by_cases hji : j = i
  · subst hji
    by_cases hkj : k = j
    · exact hkj.symm
    · rw [Fits.owner_write_self, Fits.owner_write_of_ne _ hkj] at hjk
      rw [Fits.stored_write_self, Fits.stored_write_of_ne _ hkj] at hstored
      exact (hfit.eq_of_stored h hjk.symm hstored.symm).symm
  · rw [Fits.owner_write_of_ne _ hji] at hj hjk
    rw [Fits.stored_write_of_ne _ hji] at hstored
    by_cases hki : k = i
    · subst hki
      rw [Fits.owner_write_self] at hjk
      rw [Fits.stored_write_self] at hstored
      exact hfit.eq_of_stored h hjk hstored
    · rw [Fits.owner_write_of_ne _ hki] at hjk
      rw [Fits.stored_write_of_ne _ hki] at hstored
      exact h.unique j k hj hjk hstored

theorem LdtState.Inv.filled_write (h : w.Inv) (hfit : Fits w.ldt t i d) (j : Nat)
    (t' : ThreadId) (hj : (w.ldt.write i t d).owner j = t') :
    (w.afterWrite t i d).lastSet t' ((w.ldt.write i t d).stored j) =
      some (w.ldt.write i t d j).userDesc := by
  by_cases hji : j = i
  · subst hji
    rw [Fits.owner_write_self] at hj
    have ht : t' = t := Subtype.ext hj.symm
    rw [Fits.stored_write_self, ht, lastSet_afterWrite_self, Fits.userDesc_write_self]
  · rw [Fits.owner_write_of_ne _ hji] at hj
    rw [Fits.stored_write_of_ne _ hji, Fits.write_of_ne _ hji, lastSet_afterWrite_of_ne]
    · exact h.filled j t' hj
    · rintro ⟨rfl, hstored⟩
      exact hji (hfit.eq_of_stored h hj hstored)

theorem LdtState.Inv.found_write (h : w.Inv) (hfit : Fits w.ldt t i d) {t' : ThreadId}
    {n : DWORD} {d' : UserDesc} (hlast : (w.afterWrite t i d).lastSet t' n = some d') :
    ∃ j, (w.ldt.write i t d).served t' n = some j ∧ (w.ldt.write i t d j).userDesc = d' ∧
      d'.entryNumber = n := by
  by_cases hpair : t' = t ∧ n = d.entryNumber
  · obtain ⟨rfl, rfl⟩ := hpair
    rw [lastSet_afterWrite_self] at hlast
    cases hlast
    exact ⟨i, hfit.served_self h, Fits.userDesc_write_self w.ldt, rfl⟩
  · rw [lastSet_afterWrite_of_ne w i hpair] at hlast
    obtain ⟨j, hserved, hdesc, hentry⟩ := h.found t' n d' hlast
    refine ⟨j, hfit.served_other hserved hpair, ?_, hentry⟩
    have hji : j ≠ i := by
      rintro rfl
      obtain ⟨-, howner, -⟩ := LdtEntries.served_spec hserved
      cases hfit with
      | again ho hs =>
        apply hpair
        refine ⟨Subtype.ext (howner.symm.trans ho), ?_⟩
        rw [← hentry, ← hs, ← hdesc, LdtEntries.stored]
      | taken _ hfree => exact t'.2 (howner.symm.trans hfree)
    rw [Fits.write_of_ne _ hji]
    exact hdesc

/-- Look-ups are still answered by the slots that answered them. -/
theorem LdtState.Inv.served_write (h : w.Inv) (hfit : Fits w.ldt t i d) {t' : ThreadId}
    {n : DWORD} {j : Nat} (hserved : w.ldt.served t' n = some j) :
    (w.ldt.write i t d).served t' n = some j := by
  by_cases hpair : t' = t ∧ n = d.entryNumber
  · obtain ⟨rfl, rfl⟩ := hpair
    have hself := hfit.served_self h
    cases hfit with
    | again ho hs =>
      have hi := h.served_of_stored ho
      rw [hs, hserved] at hi
      rw [Option.some.inj hi]
      exact hself
    | taken _ _ hunserved =>
      rw [hunserved] at hserved
      cases hserved
  · exact hfit.served_other hserved hpair

theorem LdtState.Inv.write (h : w.Inv) (hfit : Fits w.ldt t i d) : (w.afterWrite t i d).Inv where
  usable := by
    show ∀ j, (w.ldt.write i t d).owner j ≠ 0#32 → j ∈ LdtEntries.usable
    intro j hj
    by_cases hji : j = i
    · rw [hji]
      exact hfit.mem_usable h
    · exact h.usable j (by rwa [Fits.owner_write_of_ne _ hji] at hj)
  real := by
    show ∀ j, (w.ldt.write i t d j).isReallyLDT = false
    intro j
    by_cases hji : j = i
    · rw [hji, LdtEntries.write, LdtEntries.update_self]
    · rw [Fits.write_of_ne _ hji]
      exact h.real j
  blank := by
    show ∀ j, (w.ldt.write i t d).owner j = 0#32 → (w.ldt.write i t d).stored j = 0#32
    intro j hj
    by_cases hji : j = i
    · rw [hji, Fits.owner_write_self] at hj
      exact absurd hj t.2
    · rw [Fits.owner_write_of_ne _ hji] at hj
      rw [Fits.stored_write_of_ne _ hji]
      exact h.blank j hj
  number := h.number_write hfit
  unique := h.unique_write hfit
  filled := h.filled_write hfit
  found := fun _ _ _ ↦ h.found_write hfit
  same := by
    intro a ha hslot
    rcases List.mem_cons.mp ha with rfl | ha
    · exact hfit.served_self h
    · exact h.served_write hfit (h.same a ha hslot)

end Write

/-! ## Steps -/

/-- The call does not go wrong: a look-up takes no new slot, and a slot that is set directly
holds no copy of another entry. -/
def Settled (w : LdtState) : LdtCall → Prop
  | .setThreadArea t d =>
      w.ldt.owner d.entryNumber.toNat = t → w.ldt.stored d.entryNumber.toNat = d.entryNumber
  | .getThreadArea t n => ¬w.ldt.Unset t n
  | .loadGs t eax => ¬w.ldt.Unset t (eax >>> 3)

namespace LdtState.Inv

open LdtEntries

variable {w : LdtState}

/-- A look-up that takes no new slot changes nothing. -/
theorem calculate_settled (h : w.Inv) (t : ThreadId) {n : DWORD} (hn : ¬w.ldt.Unset t n) :
    ∃ i, w.ldt.calculateLDTEntryForThread t n = (i, w.ldt) ∧
      (i ≠ 0 → w.ldt.served t n = some i) := by
  cases hserved : w.ldt.served t n with
  | some i => exact ⟨i, calculate_of_served hserved, fun _ ↦ rfl⟩
  | none =>
    by_cases howned : Valid n ∧ w.ldt.owner n.toNat ≠ 0#32
    · rw [calculate_of_unserved howned.1 howned.2 hserved, h.real]
      rcases allocate_cases w.ldt t with ⟨hnone, -⟩ | ⟨i, hmem, hfree, -⟩
      · rw [hnone]
        exact ⟨0, rfl, fun h0 ↦ absurd rfl h0⟩
      · exact absurd ⟨howned.1, howned.2, hserved, i, hmem, hfree⟩ hn
    · exact ⟨0, calculate_of_free t.2 howned, fun h0 ↦ absurd rfl h0⟩

/-- A look-up that is answered as the table stands can be recorded. -/
theorem lookup (h : w.Inv) {a : ThreadId × DWORD × Nat}
    (ha : a.2.2 ≠ 0 → w.ldt.served a.1 a.2.1 = some a.2.2) :
    LdtState.Inv { w with lookups := a :: w.lookups } where
  usable := h.usable
  real := h.real
  blank := h.blank
  number := h.number
  unique := h.unique
  filled := h.filled
  found := h.found
  same := by
    intro b hb
    rcases List.mem_cons.mp hb with rfl | hb
    · exact ha
    · exact h.same b hb

/-- Setting a descriptor fails and changes nothing, or writes it where it fits. -/
theorem setLDTSelector_cases (h : w.Inv) (t : ThreadId) {d : UserDesc}
    (hok : w.ldt.owner d.entryNumber.toNat = t →
      w.ldt.stored d.entryNumber.toNat = d.entryNumber) :
    ((w.ldt.calculateLDTEntryForThread t d.entryNumber).1 = 0 ∧
        w.ldt.setLDTSelector t d false 0#32 = (false, w.ldt)) ∨
      ∃ i, Fits w.ldt t i d ∧ (w.ldt.calculateLDTEntryForThread t d.entryNumber).1 = i ∧
        w.ldt.setLDTSelector t d false 0#32 = (true, w.ldt.write i t d) := by
  unfold setLDTSelector
  cases hserved : w.ldt.served t d.entryNumber with
  | some i =>
    obtain ⟨-, howner, hi⟩ := served_spec hserved
    have hpos := h.pos_of_owner howner
    rw [calculate_of_served hserved]
    refine .inr ⟨i, .again howner ?_, rfl, ?_⟩
    · rcases hi with rfl | hi
      · exact hok howner
      · exact hi.1
    · cases i with
      | zero => omega
      | succ i => exact Prod.ext rfl (write_eq w.ldt (i + 1) d howner)
  | none =>
    by_cases howned : Valid d.entryNumber ∧ w.ldt.owner d.entryNumber.toNat ≠ 0#32
    · rw [calculate_of_unserved howned.1 howned.2 hserved, h.real]
      rcases allocate_cases w.ldt t with ⟨hnone, -⟩ | ⟨i, hmem, hfree, hsome⟩
      · rw [hnone]
        exact .inl ⟨rfl, rfl⟩
      · rw [hsome]
        have hother : w.ldt.owner d.entryNumber.toNat ≠ t := by
          intro howner
          rw [served_own howned.1 howner] at hserved
          cases hserved
        refine .inr ⟨i, .taken hmem hfree hserved (.inr ⟨howned.1, howned.2, hother⟩), rfl, ?_⟩
        have hpos := mem_usable.mp hmem
        cases i with
        | zero => omega
        | succ i => exact Prod.ext rfl (write_allocated w.ldt (i + 1) t d)
    · rw [calculate_of_free t.2 howned]
      exact .inl ⟨rfl, rfl⟩

/-- A settled call keeps the invariant. -/
theorem step (h : w.Inv) {c : LdtCall} (hok : Settled w c) : (w.step c).Inv := by
  cases c with
  | setThreadArea t d =>
    by_cases hnew : d.entryNumber = -1#32
    · rcases allocate_cases w.ldt t with ⟨hnone, -⟩ | ⟨i, hmem, hfree, hsome⟩
      · have hstep : w.step (.setThreadArea t d) = w := by
          simp only [LdtState.step, sysSetThreadArea, LdtEntries.lookup, if_pos hnew, hnone]
          rfl
        rw [hstep]
        exact h
      · have hset := setLDTSelector_allocated w.ldt t
          { d with entryNumber := BitVec.ofNat 32 i } hmem rfl
        have hstep : w.step (.setThreadArea t d) =
            w.afterWrite t i { d with entryNumber := BitVec.ofNat 32 i } := by
          simp only [LdtState.step, sysSetThreadArea, LdtEntries.lookup, if_pos hnew, hsome,
            hset.1, hset.2]
          rfl
        rw [hstep]
        apply h.write
        refine .taken hmem hfree ?_ (.inl rfl)
        apply served_of_free t.2
        rwa [toNat_ofNat (mem_usable.mp hmem).2]
    · rcases h.setLDTSelector_cases t hok with ⟨hslot, hset⟩ | ⟨i, hfit, hslot, hset⟩
      · have hstep : w.step (.setThreadArea t d) =
            { w with lookups := (t, d.entryNumber, 0) :: w.lookups } := by
          simp only [LdtState.step, sysSetThreadArea, LdtEntries.lookup, if_neg hnew, hset, hslot]
          rfl
        rw [hstep]
        exact h.lookup fun h0 ↦ absurd rfl h0
      · have hstep : w.step (.setThreadArea t d) = w.afterWrite t i d := by
          simp only [LdtState.step, sysSetThreadArea, LdtEntries.lookup, if_neg hnew, hset, hslot]
          rfl
        rw [hstep]
        exact h.write hfit
  | getThreadArea t n =>
    obtain ⟨i, hcalc, hserved⟩ := h.calculate_settled t hok
    have hldt : (w.ldt.sysGetThreadArea t n).2.2 = w.ldt := by
      unfold sysGetThreadArea getLDTSelector
      rw [hcalc]
      cases i <;> rfl
    have hstep : w.step (.getThreadArea t n) =
        { w with lookups := (t, n, i) :: w.lookups } := by
      simp only [LdtState.step, LdtEntries.lookup, hcalc, hldt]
      rfl
    rw [hstep]
    exact h.lookup hserved
  | loadGs t eax =>
    obtain ⟨i, hcalc, hserved⟩ := h.calculate_settled t hok
    have hstep : w.step (.loadGs t eax) =
        { w with lookups := (t, eax >>> 3, i) :: w.lookups } := by
      simp only [LdtState.step, handlePossibleLDTException, LdtEntries.lookup, hcalc]
      rfl
    rw [hstep]
    exact h.lookup hserved

end LdtState.Inv

/-! ## Stability -/

/-- No slot has served two threads; every thread reads back what it has last set under a
number; and every look-up that found a slot would find it again. -/
structure Stable (w : LdtState) : Prop where
  exclusive : ∀ a ∈ w.lookups, ∀ b ∈ w.lookups, a.2.2 = b.2.2 → a.2.2 ≠ 0 → a.1 = b.1
  returned : ∀ (t : ThreadId) n d, w.lastSet t n = some d →
    (w.ldt.getLDTSelector t n).1 = some d
  same : ∀ a ∈ w.lookups, a.2.2 ≠ 0 →
    (w.ldt.calculateLDTEntryForThread a.1 a.2.1).1 = a.2.2

namespace LdtState.Inv

open LdtEntries

variable {w : LdtState}

theorem stable (h : w.Inv) : Stable w where
  exclusive := by
    intro a ha b hb hslot h0
    obtain ⟨-, hownerA, -⟩ := served_spec (h.same a ha h0)
    obtain ⟨-, hownerB, -⟩ := served_spec (h.same b hb (hslot ▸ h0))
    rw [hslot, hownerB] at hownerA
    exact Subtype.ext hownerA.symm
  returned := by
    intro t n d hlast
    obtain ⟨i, hserved, hdesc, -⟩ := h.found t n d hlast
    have hpos := h.pos_of_owner (served_spec hserved).2.1
    rw [getLDTSelector, calculate_of_served hserved]
    cases i with
    | zero => omega
    | succ i => exact congrArg some hdesc
  same := by
    intro a ha h0
    rw [calculate_of_served (h.same a ha h0)]

/-- The slot that an early look-up takes is not found again. -/
theorem calculate_unset (h : w.Inv) {t : ThreadId} {n : DWORD} (hn : w.ldt.Unset t n) :
    ∃ i l, w.ldt.calculateLDTEntryForThread t n = (i, l) ∧ i ≠ 0 ∧
      (l.calculateLDTEntryForThread t n).1 ≠ i := by
  obtain ⟨hvalid, howned, hserved, j, hj, hjfree⟩ := hn
  have hother : w.ldt.owner n.toNat ≠ t := by
    intro howner
    rw [served_own hvalid howner] at hserved
    cases hserved
  rcases allocate_cases w.ldt t with ⟨-, hfull⟩ | ⟨i, hmem, hfree, hsome⟩
  · exact absurd hjfree (hfull j hj)
  · have hpos := mem_usable.mp hmem
    have hentry : w.ldt.taken i t n.toNat = w.ldt n.toNat :=
      taken_of_ne _ _ fun he ↦ howned (he ▸ hfree)
    have howner : (w.ldt.taken i t).owner n.toNat = w.ldt.owner n.toNat :=
      congrArg LdtData.allocatingThreadId hentry
    have hserved' : (w.ldt.taken i t).served t n = none := by
      apply (served_eq_none hvalid (by rwa [howner]) (by rwa [howner])).mpr
      intro k hk hstored
      rw [stored, userDesc_taken] at hstored
      by_cases hki : k = i
      · subst hki
        have hblank := h.blank k hfree
        rw [stored, hstored] at hblank
        exact absurd hblank hvalid.ne_zero
      · rw [owner, taken_of_ne _ _ hki]
        exact (served_eq_none hvalid hother howned).mp hserved k hk hstored
    refine ⟨i, w.ldt.taken i t, ?_, by omega, ?_⟩
    · rw [calculate_of_unserved hvalid howned hserved, h.real, hsome]
      rfl
    · have hreal : (w.ldt.taken i t n.toNat).isReallyLDT = false := by
        rw [hentry]
        exact h.real _
      rcases calculate_fresh hreal hvalid (by rwa [howner]) hserved' with hcalc | ⟨k, -, hk, hcalc⟩
      · rw [hcalc]
        show 0 ≠ i
        omega
      · rw [hcalc]
        intro hki
        rw [show k = i from hki, owner_taken_self] at hk
        exact t.2 hk

/-- A descriptor whose slot is set directly under its own number is lost. -/
theorem getLDTSelector_overwritten (h : w.Inv) {t : ThreadId} {d : UserDesc}
    (howner : w.ldt.owner d.entryNumber.toNat = t)
    (hstored : w.ldt.stored d.entryNumber.toNat ≠ d.entryNumber) :
    ((w.ldt.write d.entryNumber.toNat t d).getLDTSelector t
        (w.ldt.stored d.entryNumber.toNat)).1 ≠ some (w.ldt d.entryNumber.toNat).userDesc := by
  generalize hk : d.entryNumber.toNat = k at howner hstored
  have hk0 : w.ldt.owner k ≠ 0#32 := by
    rw [howner]
    exact t.2
  have hpos := h.pos hk0
  have hnumber : d.entryNumber = BitVec.ofNat 32 k := by
    rw [← hk, BitVec.ofNat_toNat, BitVec.setWidth_eq]
  rcases h.number k hk0 with hown | ⟨hvalid, h0, hother⟩
  · exact absurd (hown.trans hnumber.symm) hstored
  · have hne : (w.ldt.stored k).toNat ≠ k := fun he ↦ hother (by rw [he])
    have hentry : w.ldt.write k t d (w.ldt.stored k).toNat = w.ldt (w.ldt.stored k).toNat :=
      Fits.write_of_ne _ hne
    have howner' : (w.ldt.write k t d).owner (w.ldt.stored k).toNat =
        w.ldt.owner (w.ldt.stored k).toNat := congrArg LdtData.allocatingThreadId hentry
    rw [howner] at hother
    have hserved : (w.ldt.write k t d).served t (w.ldt.stored k) = none := by
      apply (served_eq_none hvalid (by rwa [howner']) (by rwa [howner'])).mpr
      intro j hj hj_stored hj_owner
      by_cases hjk : j = k
      · subst hjk
        rw [Fits.stored_write_self] at hj_stored
        exact hstored hj_stored.symm
      · rw [Fits.stored_write_of_ne _ hjk] at hj_stored
        rw [Fits.owner_write_of_ne _ hjk] at hj_owner
        have hj0 : w.ldt.owner j ≠ 0#32 := by
          rw [hj_owner]
          exact t.2
        exact hjk (h.unique j k hj0 (hj_owner.trans howner.symm) hj_stored)
    have hreal : (w.ldt.write k t d (w.ldt.stored k).toNat).isReallyLDT = false := by
      rw [hentry]
      exact h.real _
    unfold getLDTSelector
    rcases calculate_fresh hreal hvalid (by rwa [howner']) hserved with
      hcalc | ⟨i, hi, hfree, hcalc⟩
    · rw [hcalc]
      exact fun he ↦ absurd he (by simp)
    · rw [hcalc]
      have hik : i ≠ k := by
        rintro rfl
        rw [Fits.owner_write_self] at hfree
        exact t.2 hfree
      have hblank : w.ldt.stored i = 0#32 := by
        apply h.blank
        rwa [Fits.owner_write_of_ne _ hik] at hfree
      have hi := mem_usable.mp hi
      cases i with
      | zero => omega
      | succ i =>
        intro hsome
        have hdesc : ((w.ldt.write k t d).taken (i + 1) t (i + 1)).userDesc =
            (w.ldt k).userDesc := Option.some.inj hsome
        rw [userDesc_taken, Fits.write_of_ne _ hik] at hdesc
        rw [stored, hdesc] at hblank
        exact absurd hblank hvalid.ne_zero

/-- Any other call goes wrong at once. -/
theorem not_stable_step (h : w.Inv) {c : LdtCall} (hbad : ¬Settled w c) : ¬Stable (w.step c) := by
  cases c with
  | setThreadArea t d =>
    obtain ⟨howner, hstored⟩ := Classical.not_imp.mp hbad
    have hpos := h.pos_of_owner howner
    have hset := setLDTSelector_own howner hpos
    have hnew : d.entryNumber ≠ -1#32 := by
      intro he
      rw [he] at hpos
      exact absurd hpos.2 (by decide)
    have hstep : w.step (.setThreadArea t d) = w.afterWrite t d.entryNumber.toNat d := by
      simp only [LdtState.step, sysSetThreadArea, LdtEntries.lookup, if_neg hnew, hset.1, hset.2]
      rfl
    rw [hstep]
    intro hstable
    apply h.getLDTSelector_overwritten howner hstored
    apply hstable.returned
    rw [lastSet_afterWrite_of_ne w _ fun hpair ↦ hstored hpair.2]
    exact h.filled _ t howner
  | getThreadArea t n =>
    obtain ⟨i, l, hcalc, hi, hagain⟩ := h.calculate_unset (not_not.mp hbad)
    have hldt : (w.step (.getThreadArea t n)).ldt = l := by
      simp only [LdtState.step, sysGetThreadArea, getLDTSelector, hcalc]
    have hlookups : (t, n, i) ∈ (w.step (.getThreadArea t n)).lookups := by
      simp only [LdtState.step, LdtEntries.lookup, hcalc]
      exact List.mem_cons_self
    intro hstable
    apply hagain
    rw [← hldt]
    exact hstable.same _ hlookups hi
  | loadGs t eax =>
    obtain ⟨i, l, hcalc, hi, hagain⟩ := h.calculate_unset (not_not.mp hbad)
    have hldt : (w.step (.loadGs t eax)).ldt = l := by
      simp only [LdtState.step, handlePossibleLDTException, hcalc]
    have hlookups : (t, eax >>> 3, i) ∈ (w.step (.loadGs t eax)).lookups := by
      simp only [LdtState.step, LdtEntries.lookup, hcalc]
      exact List.mem_cons_self
    intro hstable
    apply hagain
    rw [← hldt]
    exact hstable.same _ hlookups hi

end LdtState.Inv

theorem inv_start : LdtState.start.Inv where
  usable := fun _ h ↦ absurd rfl h
  real := fun _ ↦ rfl
  blank := fun _ _ ↦ rfl
  number := fun _ h ↦ absurd rfl h
  unique := fun _ _ h ↦ absurd rfl h
  filled := fun _ t h ↦ absurd h.symm t.2
  found := fun _ _ _ h ↦ absurd h (by simp [LdtState.start])
  same := fun _ h ↦ absurd h (by simp [LdtState.start])

/-- In every interleaving of the calls of any threads, all states visited are stable exactly if
no call looks up an entry of another thread that its thread has not set, while there is room
for a copy, and none sets directly a slot that holds its thread's copy of another entry. -/
theorem trail_stable_iff (calls : List LdtCall) :
    (∀ w ∈ trail LdtState.step LdtState.start calls, Stable w) ↔
      Along LdtState.step Settled LdtState.start calls :=
  trail_iff_along (fun _ h ↦ h.stable) (fun _ _ h hok ↦ h.step hok)
    (fun _ _ h hbad ↦ h.not_stable_step hbad) inv_start calls

/-- Two threads. -/
def thread1 : ThreadId := ⟨0x11#32, by decide⟩

def thread2 : ThreadId := ⟨0x22#32, by decide⟩

/-- The descriptor of entry 16. -/
def firstArea : UserDesc := { entryNumber := 16#32, baseAddr := 0x1000#32 }

/-- One thread takes entry 16, and another one loads its selector twice. -/
def twoLoads : List LdtCall :=
  [.setThreadArea thread1 { firstArea with entryNumber := -1#32 },
    .loadGs thread2 0x83#32, .loadGs thread2 0x83#32]

theorem step_firstArea :
    LdtState.start.step (.setThreadArea thread1 { firstArea with entryNumber := -1#32 }) =
      LdtState.start.afterWrite thread1 16 firstArea := by
  have halloc : LdtState.start.ldt.allocateLDTSelector thread1 false =
      (some 16, LdtState.start.ldt.taken 16 thread1) := rfl
  have hset := LdtEntries.setLDTSelector_allocated LdtState.start.ldt thread1 firstArea
    (LdtEntries.mem_usable.mpr ⟨by decide, by decide⟩) rfl
  have hnumber : BitVec.ofNat 32 16 = firstArea.entryNumber := rfl
  simp only [LdtState.step, LdtEntries.sysSetThreadArea, LdtEntries.lookup, if_true, halloc,
    hnumber, hset.1, hset.2]
  rfl

/-- The other thread has no copy of the entry. -/
theorem unset_firstArea :
    (LdtState.start.ldt.write 16 thread1 firstArea).Unset thread2 (0x83#32 >>> 3) := by
  have hvalid : LdtEntries.Valid (0x83#32 >>> 3) := ⟨by decide, by decide⟩
  have howner : (LdtState.start.ldt.write 16 thread1 firstArea).owner (0x83#32 >>> 3).toNat =
      0x11#32 := rfl
  refine ⟨hvalid, by rw [howner]; decide, ?_, 17, LdtEntries.mem_usable.mpr ?_, rfl⟩
  · apply (LdtEntries.served_eq_none hvalid (by rw [howner]; decide) (by rw [howner]; decide)).mpr
    intro i _ hstored
    by_cases hi : i = 16
    · subst hi
      rw [Fits.owner_write_self]
      decide
    · rw [Fits.stored_write_of_ne _ hi] at hstored
      exact absurd hstored.symm hvalid.ne_zero
  · exact ⟨by decide, by decide⟩

/-- The second load does not find the slot that the first one took. -/
theorem twoLoads_unstable :
    ¬∀ w ∈ trail LdtState.step LdtState.start twoLoads, Stable w := by
  have hsettled : Settled LdtState.start
      (.setThreadArea thread1 { firstArea with entryNumber := -1#32 }) :=
    fun h ↦ absurd h (by decide)
  have hinv := inv_start.step hsettled
  rw [step_firstArea] at hinv
  have hunset : ¬Settled (LdtState.start.afterWrite thread1 16 firstArea)
      (.loadGs thread2 0x83#32) := not_not.mpr unset_firstArea
  intro hall
  apply hinv.not_stable_step hunset
  apply hall
  rw [← step_firstArea]
  simp [twoLoads, trail]

end Keow.Memory
