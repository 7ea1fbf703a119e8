import Keow.Memory.Transfer

/-!
# The pieces of a copy

Which calls of `ReadProcessMemory` or `WriteProcessMemory` a copy is cut into depends on its
addresses and its length only.
-/

namespace Keow.Memory

open Keow.Base Keow.Kernel

/-- One call of `ReadProcessMemory` or `WriteProcessMemory`. -/
structure Piece where
  pRemote : DWORD
  pLocal : DWORD
  len : DWORD
deriving DecidableEq

/-- The calls of one round: the piece of the local buffer up to its next page, in one or two
pieces of the remote one. -/
def round (pRemote pLocal amountLeft : DWORD) : List Piece :=
  let localToCopy := toBoundary pLocal amountLeft
  let remoteToCopy := toBoundary pRemote localToCopy
  let rest := localToCopy - remoteToCopy
  ⟨pRemote, pLocal, remoteToCopy⟩ ::
    if rest ≠ 0#32 then [⟨pRemote + remoteToCopy, pLocal + remoteToCopy, rest⟩] else []

/-- The calls of `MemoryHelper::ProcessReadWriteMemory`, `MemoryHelper.cpp:186–244`. -/
def pieces (pRemote pLocal amountLeft : DWORD) : List Piece :=
  if _h : amountLeft = 0#32 then []
  else
    let localToCopy := toBoundary pLocal amountLeft
    round pRemote pLocal amountLeft ++
      pieces (pRemote + localToCopy) (pLocal + localToCopy) (amountLeft - localToCopy)
termination_by amountLeft.toNat
decreasing_by exact toNat_sub_toBoundary_lt pLocal _h

/-- A call, and what it adds to `dwCopied`. -/
def Copier.call (c : Copier) (rw : ReadWrite) (x : Ends × DWORD) (p : Piece) : Ends × DWORD :=
  let r := c.move rw x.1 p.pRemote p.pLocal p.len
  (r.1, x.2 + r.2)

/-- Each of the calls reports its own length. -/
def Copier.Complete (c : Copier) (rw : ReadWrite) : Ends → List Piece → Prop
  | _, [] => True
  | m, p :: ps =>
      let r := c.move rw m p.pRemote p.pLocal p.len
      r.2 = p.len ∧ c.Complete rw r.1 ps

/-- The pieces lie one after the other from the two addresses on and make up the length. -/
def Tiles (pRemote pLocal len : Nat) : List Piece → Prop
  | [] => len = 0
  | p :: ps =>
      p.pRemote.toNat = pRemote ∧ p.pLocal.toNat = pLocal ∧ p.len.toNat ≤ len ∧
        Tiles (pRemote + p.len.toNat) (pLocal + p.len.toNat) (len - p.len.toNat) ps

/-- A piece is not empty and crosses no page on either side. -/
structure Piece.Inside (p : Piece) : Prop where
  len_ne_zero : p.len ≠ 0#32
  remote : p.pRemote.toNat % 4096 + p.len.toNat ≤ 4096
  within : p.pLocal.toNat % 4096 + p.len.toNat ≤ 4096

/-- The piece copies between these two bytes. -/
def Piece.Moves (a b : Nat) (p : Piece) : Prop :=
  (p.pRemote.toNat ≤ a ∧ a < p.pRemote.toNat + p.len.toNat) ∧
    p.pLocal.toNat ≤ b ∧ b < p.pLocal.toNat + p.len.toNat

instance (a b : Nat) : DecidablePred (Piece.Moves a b) :=
  fun _ ↦ inferInstanceAs (Decidable (_ ∧ _))

variable {c : Copier} {rw : ReadWrite}

/-- The copy makes these calls, in this order. -/
theorem processReadWriteMemory_eq_foldl (c : Copier) (rw : ReadWrite) (m : Ends)
    (pRemote pLocal copied amountLeft : DWORD) :
    processReadWriteMemory c rw m pRemote pLocal copied amountLeft =
      (pieces pRemote pLocal amountLeft).foldl (c.call rw) (m, copied) := by
  induction pRemote, pLocal, amountLeft using pieces.induct generalizing m copied with
  | case1 pRemote pLocal =>
    rw [processReadWriteMemory, pieces, dif_pos rfl, dif_pos rfl]
    rfl
  | case2 pRemote pLocal amountLeft h localToCopy ih =>
    rw [processReadWriteMemory, pieces, dif_neg h, dif_neg h]
    simp only
    rw [ih, List.foldl_append]
    refine congrArg (fun x ↦ List.foldl (c.call rw) x _) ?_
    simp only [round, List.foldl_cons]
    split
    · simp only [List.foldl_cons, List.foldl_nil, Copier.call]
    · simp only [List.foldl_nil, Copier.call]

/-! ## One round -/

variable {pRemote pLocal amountLeft : DWORD}

/-- What is left of the local piece after its first call. -/
theorem toNat_rest (pRemote pLocal amountLeft : DWORD) :
    (toBoundary pLocal amountLeft - toBoundary pRemote (toBoundary pLocal amountLeft)).toNat =
      (toBoundary pLocal amountLeft).toNat -
        (toBoundary pRemote (toBoundary pLocal amountLeft)).toNat := by
  rw [BitVec.toNat_sub_of_le]
  rw [BitVec.le_def, toNat_toBoundary pRemote]
  omega

theorem inside_round (h : amountLeft ≠ 0#32) {p : Piece}
    (hp : p ∈ round pRemote pLocal amountLeft) :
    p.Inside := by
  have hlocal := toBoundary_bounds pLocal h
  have hrest := toNat_rest pRemote pLocal amountLeft
  have htoCopy := toNat_toBoundary pRemote (toBoundary pLocal amountLeft)
  have hne : toBoundary pLocal amountLeft ≠ 0#32 := by
    intro hz
    rw [hz] at hlocal
    exact absurd hlocal.1 (by decide)
  have hremote := toBoundary_bounds pRemote hne
  simp only [round] at hp
  generalize toBoundary pLocal amountLeft = localToCopy at *
  generalize toBoundary pRemote localToCopy = remoteToCopy at *
  rw [List.mem_cons] at hp
  rcases hp with rfl | hp
  · refine ⟨fun hz ↦ ?_, hremote.2.2, ?_⟩
    · have hzero : remoteToCopy = 0#32 := hz
      rw [hzero] at hremote
      exact absurd hremote.1 (by decide)
    · show pLocal.toNat % 4096 + remoteToCopy.toNat ≤ 4096
      omega
  · split at hp
    · next hpos =>
      rw [List.mem_singleton] at hp
      subst hp
      have hsome : 0 < (localToCopy - remoteToCopy).toNat :=
        Nat.pos_of_ne_zero fun h ↦ hpos (BitVec.eq_of_toNat_eq h)
      have hr := BitVec.toNat_add pRemote remoteToCopy
      have hl := BitVec.toNat_add pLocal remoteToCopy
      refine ⟨hpos, ?_, ?_⟩
      · -- the first call went up to the end of the remote page
        show (pRemote + remoteToCopy).toNat % 4096 + (localToCopy - remoteToCopy).toNat ≤ 4096
        omega
      · show (pLocal + remoteToCopy).toNat % 4096 + (localToCopy - remoteToCopy).toNat ≤ 4096
        omega
    · cases hp

theorem tiles_append {r l n : Nat} {ps qs : List Piece}
    (h : Tiles r l n ps) {k : Nat} (hq : Tiles (r + n) (l + n) k qs) :
    Tiles r l (n + k) (ps ++ qs) := by
  induction ps generalizing r l n with
  | nil =>
    have hn : n = 0 := h
    subst hn
    rwa [Nat.zero_add]
  | cons p ps ih =>
    obtain ⟨hr, hl, hlen, hps⟩ := h
    refine ⟨hr, hl, by omega, ?_⟩
    have hrest := ih hps (by
      rwa [show r + p.len.toNat + (n - p.len.toNat) = r + n by omega,
        show l + p.len.toNat + (n - p.len.toNat) = l + n by omega])
    rwa [show n - p.len.toNat + k = n + k - p.len.toNat by omega] at hrest

theorem tiles_round (hr : pRemote.toNat + amountLeft.toNat ≤ 2 ^ 32)
    (hl : pLocal.toNat + amountLeft.toNat ≤ 2 ^ 32) :
    Tiles pRemote.toNat pLocal.toNat (toBoundary pLocal amountLeft).toNat
      (round pRemote pLocal amountLeft) := by
  have hlocal := toNat_toBoundary pLocal amountLeft
  have hrest := toNat_rest pRemote pLocal amountLeft
  have htoCopy := toNat_toBoundary pRemote (toBoundary pLocal amountLeft)
  simp only [round]
  generalize toBoundary pLocal amountLeft = localToCopy at *
  generalize toBoundary pRemote localToCopy = remoteToCopy at *
  refine ⟨rfl, rfl, by simp only; omega, ?_⟩
  split
  · next hpos =>
    have hsome : 0 < (localToCopy - remoteToCopy).toNat :=
      Nat.pos_of_ne_zero fun h ↦ hpos (BitVec.eq_of_toNat_eq h)
    refine ⟨?_, ?_, ?_, ?_⟩
    · show (pRemote + remoteToCopy).toNat = pRemote.toNat + remoteToCopy.toNat
      rw [BitVec.toNat_add, Nat.mod_eq_of_lt (by omega)]
    · show (pLocal + remoteToCopy).toNat = pLocal.toNat + remoteToCopy.toNat
      rw [BitVec.toNat_add, Nat.mod_eq_of_lt (by omega)]
    · show (localToCopy - remoteToCopy).toNat ≤ localToCopy.toNat - remoteToCopy.toNat
      omega
    · show localToCopy.toNat - remoteToCopy.toNat - (localToCopy - remoteToCopy).toNat = 0
      omega
  · next hzero =>
    have hz : localToCopy - remoteToCopy = 0#32 := not_not.mp hzero
    rw [hz] at hrest
    have hrest' : 0 = localToCopy.toNat - remoteToCopy.toNat := hrest
    show localToCopy.toNat - remoteToCopy.toNat = 0
    omega

/-! ## The whole copy -/

theorem inside_of_mem_pieces {p : Piece} (hp : p ∈ pieces pRemote pLocal amountLeft) :
    p.Inside := by
  induction pRemote, pLocal, amountLeft using pieces.induct with
  | case1 pRemote pLocal =>
    rw [pieces, dif_pos rfl] at hp
    cases hp
  | case2 pRemote pLocal amountLeft h localToCopy ih =>
    rw [pieces, dif_neg h] at hp
    simp only [List.mem_append] at hp
    rcases hp with hp | hp
    · exact inside_round h hp
    · exact ih hp

theorem tiles_pieces (hr : pRemote.toNat + amountLeft.toNat ≤ 2 ^ 32)
    (hl : pLocal.toNat + amountLeft.toNat ≤ 2 ^ 32) :
    Tiles pRemote.toNat pLocal.toNat amountLeft.toNat (pieces pRemote pLocal amountLeft) := by
  induction pRemote, pLocal, amountLeft using pieces.induct with
  | case1 pRemote pLocal =>
    rw [pieces, dif_pos rfl]
    rfl
  | case2 pRemote pLocal amountLeft h localToCopy ih =>
    have hbounds := toBoundary_bounds pLocal h
    have hround := tiles_round hr hl
    rw [pieces, dif_neg h]
    simp only
    change 0 < localToCopy.toNat ∧ localToCopy.toNat ≤ amountLeft.toNat ∧ _ at hbounds
    change Tiles _ _ localToCopy.toNat _ at hround
    have hleft : (amountLeft - localToCopy).toNat = amountLeft.toNat - localToCopy.toNat :=
      BitVec.toNat_sub_of_le (by rw [BitVec.le_def]; omega)
    have htotal : amountLeft.toNat = localToCopy.toNat + (amountLeft - localToCopy).toNat := by
      omega
    rw [htotal]
    apply tiles_append hround
    by_cases hz : amountLeft - localToCopy = 0#32
    · -- the range may end at the last byte of the address space
      rw [hz, pieces, dif_pos rfl]
      rfl
    · have hpos : 0 < (amountLeft - localToCopy).toNat :=
        Nat.pos_of_ne_zero fun h ↦ hz (BitVec.eq_of_toNat_eq h)
      have hr' : (pRemote + localToCopy).toNat = pRemote.toNat + localToCopy.toNat := by
        rw [BitVec.toNat_add, Nat.mod_eq_of_lt (by omega)]
      have hl' : (pLocal + localToCopy).toNat = pLocal.toNat + localToCopy.toNat := by
        rw [BitVec.toNat_add, Nat.mod_eq_of_lt (by omega)]
      rw [← hr', ← hl']
      exact ih (by omega) (by omega)

theorem Tiles.countP_eq_zero {r l n a : Nat} {ps : List Piece} (h : Tiles r l n ps)
    (hlt : a < r) (b : Nat) : ps.countP (fun p ↦ p.Moves a b) = 0 := by
  induction ps generalizing r l n with
  | nil => rfl
  | cons p ps ih =>
    obtain ⟨hr, -, -, hrest⟩ := h
    rw [List.countP_cons_of_neg]
    · exact ih hrest (by omega)
    · intro hp
      have hmoves := of_decide_eq_true hp
      unfold Piece.Moves at hmoves
      omega

/-- Every byte of the range is copied by exactly one piece, between bytes at the same distance
from the start. -/
theorem Tiles.countP {r l n i : Nat} {ps : List Piece} (h : Tiles r l n ps) (hi : i < n) :
    ps.countP (fun p ↦ p.Moves (r + i) (l + i)) = 1 := by
  induction ps generalizing r l n i with
  | nil =>
    have hn : n = 0 := h
    omega
  | cons p ps ih =>
    obtain ⟨hr, hl, hlen, hrest⟩ := h
    by_cases hin : i < p.len.toNat
    · rw [List.countP_cons_of_pos, hrest.countP_eq_zero (by omega)]
      apply decide_eq_true
      unfold Piece.Moves
      omega
    · rw [List.countP_cons_of_neg]
      · have hone := ih hrest (i := i - p.len.toNat) (by omega)
        rwa [show r + p.len.toNat + (i - p.len.toNat) = r + i by omega,
          show l + p.len.toNat + (i - p.len.toNat) = l + i by omega] at hone
      · intro hp
        have hmoves := of_decide_eq_true hp
        unfold Piece.Moves at hmoves
        omega

theorem foldl_call_of_complete {ps : List Piece} {m : Ends} (h : c.Complete rw m ps)
    (copied : DWORD) {r l : Nat} {n : DWORD} (ht : Tiles r l n.toNat ps) :
    (ps.foldl (c.call rw) (m, copied)).2 = copied + n := by
  induction ps generalizing m copied r l n with
  | nil =>
    have hn : n.toNat = 0 := ht
    have hzero : n = 0#32 := BitVec.eq_of_toNat_eq hn
    rw [hzero, BitVec.add_zero]
    rfl
  | cons p ps ih =>
    obtain ⟨hlen, hrest⟩ := h
    obtain ⟨-, -, hle, ht⟩ := ht
    rw [List.foldl_cons]
    rw [← BitVec.toNat_sub_of_le (by rw [BitVec.le_def]; exact hle)] at ht
    have hsum := ih hrest (copied + p.len) ht
    rw [BitVec.add_assoc, BitVec.add_comm p.len, BitVec.sub_add_cancel] at hsum
    rw [← hsum, Copier.call]
    simp only [hlen]

/-- The copy of a range that does not wrap around on either side makes calls that are not empty,
cross no page on either side, and together make up the range in order. When they all report their
length, so does the copy. -/
theorem processReadWriteMemory_tiles (c : Copier) (rw : ReadWrite) (m : Ends)
    (pRemote pLocal len : DWORD) (hr : pRemote.toNat + len.toNat ≤ 2 ^ 32)
    (hl : pLocal.toNat + len.toNat ≤ 2 ^ 32) :
    processReadWriteMemory c rw m pRemote pLocal 0#32 len =
        (pieces pRemote pLocal len).foldl (c.call rw) (m, 0#32) ∧
      (∀ p ∈ pieces pRemote pLocal len, p.Inside) ∧
      Tiles pRemote.toNat pLocal.toNat len.toNat (pieces pRemote pLocal len) ∧
      (∀ i < len.toNat, (pieces pRemote pLocal len).countP (fun p ↦
        p.Moves (pRemote.toNat + i) (pLocal.toNat + i)) = 1) ∧
      (c.Complete rw m (pieces pRemote pLocal len) →
        (processReadWriteMemory c rw m pRemote pLocal 0#32 len).2 = len) := by
  have htiles := tiles_pieces hr hl
  have heq := processReadWriteMemory_eq_foldl c rw m pRemote pLocal 0#32 len
  refine ⟨heq, fun p ↦ inside_of_mem_pieces, htiles, fun i hi ↦ htiles.countP hi, fun h ↦ ?_⟩
  rw [heq, foldl_call_of_complete h 0#32 htiles, BitVec.zero_add]

theorem processReadWriteMemory_tiles_unaligned :
    Tiles 0x10FF0 0x20800 0x1900 (pieces 0x10FF0#32 0x20800#32 0x1900#32) :=
  (processReadWriteMemory_tiles Copier.exact .read
    ⟨⟨⟨fun _ ↦ .free, fun _ _ ↦ rfl⟩, fun _ ↦ 0⟩, fun _ ↦ 0⟩ 0x10FF0#32 0x20800#32 0x1900#32
    (by decide) (by decide)).2.2.1

end Keow.Memory
