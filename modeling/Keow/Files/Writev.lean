import Keow.Base.Int32
import Keow.Base.Memory
import Keow.Files.FreeSlots

/-!
# Writes from several buffers

`sys_writev` on a file or a pipe, against `sys_write` of the buffers put together. A `Write` that
gives 0 bytes to `WriteFile`, or gets 0 back, has failed; the loop adds up what the others say.
-/

namespace Keow.Files

open Keow.Base Keow.Kernel

/-! ## How a `WriteFile` ends -/

/-- It takes this many bytes or all that there are, or it fails. -/
inductive WriteOutcome where
  | takes (n : Nat)
  | fails (err : DWORD) (h : err ≠ 0#32)

namespace WriteOutcome

/-- The bytes of a buffer that go out. -/
def taken : WriteOutcome → List UInt8 → List UInt8
  | .takes n, bytes => bytes.take n
  | .fails _ _, _ => []

/-- `GetLastError` afterwards, which is set to 0 before. -/
def error : WriteOutcome → DWORD
  | .takes _ => 0#32
  | .fails err _ => err

/-- All bytes of a buffer are taken. -/
def Complete (bytes : List UInt8) : WriteOutcome → Prop
  | .takes n => bytes.length ≤ n
  | .fails _ _ => False

theorem taken_of_complete {o : WriteOutcome} {bytes : List UInt8} (h : o.Complete bytes) :
    o.taken bytes = bytes := by
  cases o with
  | takes n => exact List.take_of_length_le h
  | fails err herr => cases h

theorem length_taken_le (o : WriteOutcome) (bytes : List UInt8) :
    (o.taken bytes).length ≤ bytes.length := by
  cases o with
  | takes n => exact List.length_take_le' n bytes
  | fails err herr => exact Nat.zero_le _

theorem error_of_complete {o : WriteOutcome} {bytes : List UInt8} (h : o.Complete bytes) :
    o.error = 0#32 := by
  cases o with
  | takes n => rfl
  | fails err herr => cases h

/-- What goes out is the front of the buffer. -/
theorem taken_append (o : WriteOutcome) (bytes : List UInt8) :
    o.taken bytes ++ bytes.drop (o.taken bytes).length = bytes := by
  cases o with
  | takes n => exact (List.prefix_iff_eq_append.mp (List.take_prefix n bytes))
  | fails err herr => rfl

end WriteOutcome

/-- The bytes that go out when no outcome stops a list of buffers. -/
def given : (Nat → WriteOutcome) → List (List UInt8) → List UInt8
  | _, [] => []
  | outcome, s :: ss => (outcome 0).taken s ++ given (fun i ↦ outcome (i + 1)) ss

/-- From every buffer something goes out. -/
def AllSome : (Nat → WriteOutcome) → List (List UInt8) → Prop
  | _, [] => True
  | outcome, s :: ss => (outcome 0).taken s ≠ [] ∧ AllSome (fun i ↦ outcome (i + 1)) ss

/-- Every buffer goes out whole. -/
def AllComplete : (Nat → WriteOutcome) → List (List UInt8) → Prop
  | _, [] => True
  | outcome, s :: ss => (outcome 0).Complete s ∧ AllComplete (fun i ↦ outcome (i + 1)) ss

/-- What goes out after a buffer that was cut short is what that buffer had left, as far as it
goes: nothing, unless the bytes repeat. -/
def InOrder : (Nat → WriteOutcome) → List (List UInt8) → Prop
  | _, [] => True
  | outcome, s :: ss =>
      if (outcome 0).taken s = s then InOrder (fun i ↦ outcome (i + 1)) ss
      else
        given (fun i ↦ outcome (i + 1)) ss <+:
          s.drop ((outcome 0).taken s).length ++ ss.flatten

/-- The outcomes with which `sys_writev` does what it should. Either nothing goes out from the
first buffer, and that is an error with something to send, or no error and no send that was
complete but for being stopped there. Or something goes out from every buffer, less than 2 GB and
in order. -/
def WritevFits (outcome : Nat → WriteOutcome) : List (List UInt8) → Prop
  | [] => True
  | s :: ss =>
      if (outcome 0).taken s = [] then
        if (outcome 0).error ≠ 0#32 then ∃ s' ∈ s :: ss, s' ≠ []
        else
          AllComplete outcome (s :: ss) →
            (s :: ss).flatten = [] ∨ 2 ^ 32 ≤ (s :: ss).flatten.length
      else
        AllSome outcome (s :: ss) ∧ (given outcome (s :: ss)).length < 2 ^ 31 ∧
          InOrder outcome (s :: ss)

theorem given_prefix_iff (outcome : Nat → WriteOutcome) (segments : List (List UInt8)) :
    given outcome segments <+: segments.flatten ↔ InOrder outcome segments := by
  induction segments generalizing outcome with
  | nil => exact iff_of_true (List.prefix_refl _) trivial
  | cons s ss ih =>
    have hsplit : (s :: ss).flatten = (outcome 0).taken s ++
        (s.drop ((outcome 0).taken s).length ++ ss.flatten) := by
      rw [← List.append_assoc, WriteOutcome.taken_append, List.flatten_cons]
    rw [given, hsplit, List.prefix_append_right_inj, InOrder]
    split
    · next hwhole =>
      rw [hwhole, List.drop_length, List.nil_append]
      exact ih _
    · rfl

theorem given_of_complete {outcome : Nat → WriteOutcome} {segments : List (List UInt8)}
    (h : AllComplete outcome segments) : given outcome segments = segments.flatten := by
  induction segments generalizing outcome with
  | nil => rfl
  | cons s ss ih =>
    rw [given, WriteOutcome.taken_of_complete h.1, ih h.2, List.flatten_cons]

/-! ## The calls -/

/-- The user memory of the processes, how their `WriteFile` calls are to end, what has been
taken, and their `g_LastError`. -/
structure WriteWorld where
  memory : Nat → Mem 32
  outcome : Nat → WriteOutcome
  sent : List UInt8
  error : Nat → DWORD

namespace WriteWorld

/-- After a `WriteFile` of these bytes. -/
def send (r : WriteWorld) (P : Nat) (bytes : List UInt8) : WriteWorld :=
  { r with
    outcome := fun i ↦ r.outcome (i + 1)
    sent := r.sent ++ (r.outcome 0).taken bytes
    error := fun q ↦ if q = P then (r.outcome 0).error else r.error q }

/-- `SysCallDll::WriteFile`, `SysCallDll_User.cpp:166–174`. -/
def writeFile (r : WriteWorld) (P : Nat) (address size : DWORD) : DWORD × WriteWorld :=
  let bytes := (r.memory P).read address size.toNat
  (BitVec.ofNat 32 ((r.outcome 0).taken bytes).length, r.send P bytes)

/-- `Write` of the classes that have a remote handle: the result and `*pWritten`. -/
def writeRemote (r : WriteWorld) (P : Nat) (address size : DWORD) : (Bool × DWORD) × WriteWorld :=
  let (written, r) := r.writeFile P address size
  ((written ≠ 0#32, written), r)

/-- `IOHFile::Write`, `IOHFile.cpp:333–337`. -/
def iohFileWrite : WriteWorld → Nat → DWORD → DWORD → (Bool × DWORD) × WriteWorld := writeRemote

/-- `IOHPipe::Write`, `IOHPipe.cpp:139–143`. -/
def iohPipeWrite : WriteWorld → Nat → DWORD → DWORD → (Bool × DWORD) × WriteWorld := writeRemote

end WriteWorld

variable (base : Environment WriteWorld)

/-- `Write` of files and pipes, which are among the objects of a table. -/
def writeEnvironment (t : Table) : Environment WriteWorld :=
  { base with
    write := fun P a address size r ↦
      match t.object a with
      | some { kind := .file, .. } => r.iohFileWrite P address size
      | some { kind := .pipe, .. } => r.iohPipeWrite P address size
      | _ => base.write P a address size r
    dllLastError := fun P r ↦ (r.error P, r)
    readMemory := fun P address n r ↦ (r.memory P).read address n
    sendSignal := fun _ _ r ↦ r }

/-- The buffers of an array of `iovec`s. -/
def segmentsAt (m : Mem 32) : DWORD → Nat → List (List UInt8)
  | _, 0 => []
  | pV, n + 1 =>
      m.read ((Codec.word 4).decode (m.read pV 4))
          ((Codec.word 4).decode (m.read (pV + 4#32) 4)).toNat ::
        segmentsAt m (pV + 8#32) n

/-- What `sys_writev` is to return where these bytes have gone out. -/
structure Agrees (w : FileWorld WriteWorld) (P : Nat) (fd : DWORD) (segments : List (List UInt8))
    (out : List UInt8) (eax : DWORD) : Prop where
  inOrder : out <+: segments.flatten
  count : out ≠ [] → eax.toInt = out.length
  error : eax.toInt < 0 → out = [] ∧ ∃ s ∈ segments, s ≠ []
  /-- Where all is complete, as one `sys_write` that is complete. -/
  asWrite : AllComplete w.rest.outcome segments → ∀ (m : Mem 32) (address size : DWORD),
    m.read address size.toNat = segments.flatten →
      ∀ o : WriteOutcome, o.Complete segments.flatten →
        ∃ w', sysWrite (writeEnvironment base w.table) P fd address size
            { w with rest := { w.rest with memory := fun _ ↦ m, outcome := fun _ ↦ o } } =
              .ok eax w' ∧
          w'.rest.sent = w.rest.sent ++ out

/-- `sys_writev` returns, and agrees with `sys_write`. -/
def WritevRight (w : FileWorld WriteWorld) (P : Nat) (fd pV count : DWORD) : Prop :=
  ∃ eax w', sysWritev (writeEnvironment base w.table) P fd pV count w = .ok eax w' ∧
    ∃ out, w'.rest.sent = w.rest.sent ++ out ∧
      Agrees base w P fd (segmentsAt (w.rest.memory P) pV count.toInt.toNat) out eax

/-! ## The loop -/

section Loop

variable {t : Table} {P a : Nat} {h : Handler}

/-- Both classes write alike. -/
theorem write_of_kind (hobject : t.object a = some h) (hkind : h.kind = .file ∨ h.kind = .pipe)
    (address size : DWORD) (r : WriteWorld) :
    (writeEnvironment base t).write P a address size r = r.writeRemote P address size := by
  obtain ⟨kind, inheritable, flags⟩ := h
  simp only [writeEnvironment, hobject]
  rcases hkind with rfl | rfl
  · rfl
  · rfl

/-- A `Write` reports success exactly if something goes out. -/
theorem writeRemote_eq (r : WriteWorld) (P : Nat) (address size : DWORD) :
    r.writeRemote P address size =
      let out := (r.outcome 0).taken ((r.memory P).read address size.toNat)
      ((decide (out ≠ []), BitVec.ofNat 32 out.length),
        r.send P ((r.memory P).read address size.toNat)) := by
  have hle := (r.outcome 0).length_taken_le ((r.memory P).read address size.toNat)
  rw [Mem.length_read] at hle
  have hzero : BitVec.ofNat 32
      ((r.outcome 0).taken ((r.memory P).read address size.toNat)).length ≠ 0#32 ↔
        (r.outcome 0).taken ((r.memory P).read address size.toNat) ≠ [] := by
    rw [ne_eq, ne_eq, not_iff_not, ← List.length_eq_zero_iff, ← BitVec.toNat_inj,
      BitVec.toNat_ofNat, Nat.mod_eq_of_lt (Nat.lt_of_le_of_lt hle size.isLt)]
    rfl
  simp only [WriteWorld.writeRemote, WriteWorld.writeFile, hzero]

theorem writeError_eq (w : FileWorld WriteWorld) :
    writeError (writeEnvironment base t) P w = .ok (-win32ErrToUnixError (w.rest.error P)) w := by
  have herr : (outside ((writeEnvironment base t).dllLastError P) : F WriteWorld DWORD) w =
      .ok (w.rest.error P) w := rfl
  rw [writeError, Comp.bind_of_ok herr, Comp.bind_of_ok (dllError_eq _ P w)]
  split
  · rfl
  · rfl

/-- One round of the loop. -/
theorem writevLoop_succ {w : FileWorld WriteWorld} (hobject : w.table.object a = some h)
    (hkind : h.kind = .file ∨ h.kind = .pipe) (n : Nat) (pV total : DWORD) :
    ∃ s, segmentsAt (w.rest.memory P) pV (n + 1) =
        s :: segmentsAt (w.rest.memory P) (pV + 8#32) n ∧
      writevLoop (writeEnvironment base w.table) P a (n + 1) pV total w =
        if (w.rest.outcome 0).taken s = [] then
          .ok (-win32ErrToUnixError (w.rest.outcome 0).error) { w with rest := w.rest.send P s }
        else
          writevLoop (writeEnvironment base w.table) P a n (pV + 8#32)
            (total + BitVec.ofNat 32 ((w.rest.outcome 0).taken s).length)
            { w with rest := w.rest.send P s } := by
  refine ⟨_, rfl, ?_⟩
  have hmemory : ∀ address n, (writeEnvironment base w.table).readMemory P address n w.rest =
      (w.rest.memory P).read address n := fun _ _ ↦ rfl
  rw [writevLoop, Comp.get_bind]
  dsimp only
  rw [Comp.bind_of_ok (method_eq hobject _), write_of_kind base hobject hkind, writeRemote_eq,
    hmemory, hmemory]
  generalize (w.rest.memory P).read ((Codec.word 4).decode ((w.rest.memory P).read pV 4))
    ((Codec.word 4).decode ((w.rest.memory P).read (pV + 4#32) 4)).toNat = s
  dsimp only
  by_cases hnone : (w.rest.outcome 0).taken s = []
  · rw [if_pos hnone, hnone]
    have herror : (w.rest.send P s).error P = (w.rest.outcome 0).error := if_pos rfl
    rw [← herror]
    exact writeError_eq base { w with rest := w.rest.send P s }
  · rw [if_neg hnone]
    exact congrFun (if_pos (decide_eq_true hnone)) _

/-- Where something goes out from every buffer, the loop reaches its end. -/
theorem writevLoop_of_allSome {w : FileWorld WriteWorld} (hobject : w.table.object a = some h)
    (hkind : h.kind = .file ∨ h.kind = .pipe) (n : Nat) (pV total : DWORD)
    (hsome : AllSome w.rest.outcome (segmentsAt (w.rest.memory P) pV n)) :
    ∃ w', writevLoop (writeEnvironment base w.table) P a n pV total w =
        .ok (total + BitVec.ofNat 32
          (given w.rest.outcome (segmentsAt (w.rest.memory P) pV n)).length) w' ∧
      w'.rest.sent = w.rest.sent ++
        given w.rest.outcome (segmentsAt (w.rest.memory P) pV n) := by
  induction n generalizing w pV total with
  | zero => exact ⟨w, by rw [writevLoop, segmentsAt, given, List.length_nil, BitVec.add_zero]; rfl,
      (List.append_nil _).symm⟩
  | succ n ih =>
    obtain ⟨s, hsegments, hround⟩ := writevLoop_succ (P := P) base hobject hkind n pV total
    rw [hsegments] at hsome ⊢
    rw [hround, if_neg hsome.1, given]
    have hobject' : ({ w with rest := w.rest.send P s } : FileWorld WriteWorld).table.object a =
        some h := hobject
    obtain ⟨w', hrun, hsent⟩ := ih hobject' (pV + 8#32)
      (total + BitVec.ofNat 32 ((w.rest.outcome 0).taken s).length) hsome.2
    refine ⟨w', ?_, ?_⟩
    · rw [List.length_append, BitVec.ofNat_add, ← BitVec.add_assoc]
      exact hrun
    · rw [← List.append_assoc]
      exact hsent

/-- Where nothing goes out from some buffer, the loop ends there with an error, or with 0. -/
theorem writevLoop_of_not_allSome {w : FileWorld WriteWorld}
    (hobject : w.table.object a = some h) (hkind : h.kind = .file ∨ h.kind = .pipe) (n : Nat)
    (pV total : DWORD)
    (hnone : ¬AllSome w.rest.outcome (segmentsAt (w.rest.memory P) pV n)) :
    ∃ s ss err out w', segmentsAt (w.rest.memory P) pV n = s :: ss ∧
      writevLoop (writeEnvironment base w.table) P a n pV total w =
        .ok (-win32ErrToUnixError err) w' ∧
      w'.rest.sent = w.rest.sent ++ out ∧
      (if (w.rest.outcome 0).taken s = [] then out = [] ∧ err = (w.rest.outcome 0).error
        else out ≠ []) := by
  induction n generalizing w pV total with
  | zero => exact absurd trivial hnone
  | succ n ih =>
    obtain ⟨s, hsegments, hround⟩ := writevLoop_succ (P := P) base hobject hkind n pV total
    rw [hsegments] at hnone ⊢
    by_cases htaken : (w.rest.outcome 0).taken s = []
    · refine ⟨s, _, (w.rest.outcome 0).error, [], _, rfl, hround.trans (if_pos htaken), ?_, ?_⟩
      · show w.rest.sent ++ (w.rest.outcome 0).taken s = _
        rw [htaken]
      · rw [if_pos htaken]
        exact ⟨rfl, rfl⟩
    · have hobject' : ({ w with rest := w.rest.send P s } : FileWorld WriteWorld).table.object a =
          some h := hobject
      obtain ⟨s', ss', err, out, w', -, hrun, hsent, -⟩ := ih hobject' (pV + 8#32)
        (total + BitVec.ofNat 32 ((w.rest.outcome 0).taken s).length)
        fun hsome ↦ hnone ⟨htaken, hsome⟩
      refine ⟨s, _, err, (w.rest.outcome 0).taken s ++ out, w', rfl,
        hround.trans ((if_neg htaken).trans hrun), ?_, ?_⟩
      · rw [hsent, ← List.append_assoc]
        rfl
      · rw [if_neg htaken]
        exact List.append_ne_nil_of_left_ne_nil htaken out

/-- A `sys_write` that is complete returns its size. -/
theorem sysWrite_of_complete {w : FileWorld WriteWorld} {fd : DWORD} (hopen : OpenAt w P fd a h)
    (hkind : h.kind = .file ∨ h.kind = .pipe) {address size : DWORD} {bytes : List UInt8}
    (hread : (w.rest.memory P).read address size.toNat = bytes)
    (hcomplete : (w.rest.outcome 0).Complete bytes) :
    ∃ w', sysWrite (writeEnvironment base w.table) P fd address size w = .ok size w' ∧
      w'.rest.sent = w.rest.sent ++ bytes := by
  subst hread
  have htaken := WriteOutcome.taken_of_complete hcomplete
  refine ⟨{ w with
    rest := w.rest.send P ((w.rest.memory P).read address size.toNat)
    indexed := (fd.toNat : Int) :: w.indexed }, ?_, congrArg (w.rest.sent ++ ·) htaken⟩
  rw [sysWrite, withHandler_of_open _ hopen.valid hopen.slot, method_of_openAt hopen,
    write_of_kind base hopen.object hkind, writeRemote_eq]
  dsimp only
  rw [htaken, Mem.length_read, BitVec.ofNat_toNat, BitVec.setWidth_eq]
  by_cases hempty : (w.rest.memory P).read address size.toNat = []
  · -- `Write` reports a failure, and the error of it is none
    have hzero : size = 0#32 := by
      have hlength := congrArg List.length hempty
      rw [Mem.length_read] at hlength
      exact BitVec.eq_of_toNat_eq hlength
    have herror : (w.rest.send P ((w.rest.memory P).read address size.toNat)).error P = 0#32 :=
      (if_pos rfl).trans (WriteOutcome.error_of_complete hcomplete)
    refine (congrFun (if_neg fun hne ↦ absurd hempty (of_decide_eq_true hne)) _).trans ?_
    rw [writeError_eq, herror, hzero]
    rfl
  · exact congrFun (if_pos (decide_eq_true hempty)) _

end Loop

/-! ## `sys_writev` -/

section Writev

variable {w : FileWorld WriteWorld} {P a : Nat} {fd : DWORD} {h : Handler}

theorem writevRight_iff_of_run {pV count eax : DWORD} {w' : FileWorld WriteWorld}
    (hrun : sysWritev (writeEnvironment base w.table) P fd pV count w = .ok eax w')
    {out : List UInt8} (hsent : w'.rest.sent = w.rest.sent ++ out) :
    WritevRight base w P fd pV count ↔
      Agrees base w P fd (segmentsAt (w.rest.memory P) pV count.toInt.toNat) out eax := by
  rw [WritevRight, Comp.exists_ok_iff hrun]
  constructor
  · rintro ⟨out', hsent', hagrees⟩
    obtain rfl := List.append_cancel_left (hsent.symm.trans hsent')
    exact hagrees
  · exact fun hagrees ↦ ⟨out, hsent, hagrees⟩

/-- Something goes out from every buffer. -/
theorem agrees_given_iff (hopen : OpenAt w P fd a h) (hkind : h.kind = .file ∨ h.kind = .pipe)
    (segments : List (List UInt8)) :
    Agrees base w P fd segments (given w.rest.outcome segments)
        (BitVec.ofNat 32 (given w.rest.outcome segments).length) ↔
      (given w.rest.outcome segments).length < 2 ^ 31 ∧ InOrder w.rest.outcome segments := by
  constructor
  · intro hagrees
    refine ⟨?_, (given_prefix_iff _ _).mp hagrees.inOrder⟩
    by_cases hnone : given w.rest.outcome segments = []
    · rw [hnone]
      decide
    · exact (toInt_ofNat_eq_iff _).mp (hagrees.count hnone)
  · rintro ⟨hlt, horder⟩
    have hcount := (toInt_ofNat_eq_iff _).mpr hlt
    refine ⟨(given_prefix_iff _ _).mpr horder, fun _ ↦ hcount, fun hneg ↦ ?_, ?_⟩
    · omega
    · intro hall m address size hread o ho
      have hopen' : OpenAt { w with
          rest := { w.rest with memory := fun _ ↦ m, outcome := fun _ ↦ o } } P fd a h :=
        ⟨hopen.valid, hopen.slot, hopen.object⟩
      have hgiven := given_of_complete hall
      have hsize : BitVec.ofNat 32 (given w.rest.outcome segments).length = size := by
        rw [hgiven, ← hread, Mem.length_read, BitVec.ofNat_toNat, BitVec.setWidth_eq]
      rw [hsize, hgiven]
      exact sysWrite_of_complete base hopen' hkind hread ho

/-- Nothing goes out from the first buffer. -/
theorem agrees_nothing_iff (hopen : OpenAt w P fd a h) (hkind : h.kind = .file ∨ h.kind = .pipe)
    {s : List UInt8} (ss : List (List UInt8)) :
    Agrees base w P fd (s :: ss) [] (-win32ErrToUnixError (w.rest.outcome 0).error) ↔
      if (w.rest.outcome 0).error ≠ 0#32 then ∃ s' ∈ s :: ss, s' ≠ []
      else
        AllComplete w.rest.outcome (s :: ss) →
          (s :: ss).flatten = [] ∨ 2 ^ 32 ≤ (s :: ss).flatten.length := by
  have hopen' : ∀ m o, OpenAt { w with
      rest := { w.rest with memory := fun _ ↦ m, outcome := fun _ ↦ o } } P fd a h :=
    fun _ _ ↦ ⟨hopen.valid, hopen.slot, hopen.object⟩
  by_cases herr : (w.rest.outcome 0).error = 0#32
  · rw [if_neg (not_not.mpr herr), herr, neg_win32ErrToUnixError_zero]
    constructor
    · -- the buffers put together somewhere, and written from there
      intro hagrees hall
      by_contra hnot
      obtain ⟨hne, hlt⟩ := not_or.mp hnot
      have hlt := Nat.not_le.mp hlt
      have hsize : (BitVec.ofNat 32 (s :: ss).flatten.length).toNat = (s :: ss).flatten.length := by
        rw [BitVec.toNat_ofNat, Nat.mod_eq_of_lt hlt]
      have hread := Mem.read_write (fun _ ↦ 0) 0#32 (s :: ss).flatten (Nat.le_of_lt hlt)
      rw [← hsize] at hread
      have ho : (WriteOutcome.takes (s :: ss).flatten.length).Complete (s :: ss).flatten :=
        Nat.le_refl _
      obtain ⟨w', hrun, -⟩ := hagrees.asWrite hall _ 0#32 _ hread _ ho
      obtain ⟨w'', hrun', -⟩ := sysWrite_of_complete base (hopen' _ _) hkind hread ho
      obtain ⟨hzero, -⟩ := Result.ok.inj (hrun.symm.trans hrun')
      rw [← hzero] at hsize
      exact hne (List.eq_nil_of_length_eq_zero hsize.symm)
    · intro hfits
      refine ⟨List.nil_prefix, fun hne ↦ absurd rfl hne, fun hneg ↦ absurd hneg (by decide), ?_⟩
      intro hall m address size hread o ho
      have hlength := congrArg List.length hread
      rw [Mem.length_read] at hlength
      have hsize := size.isLt
      have hempty := (hfits hall).resolve_right (by omega)
      have hzero : size = 0#32 := BitVec.eq_of_toNat_eq (by rw [hlength, hempty]; rfl)
      obtain ⟨w', hrun, hsent⟩ := sysWrite_of_complete base (hopen' m o) hkind hread ho
      rw [hempty] at hsent
      exact ⟨w', hzero ▸ hrun, hsent⟩
  · rw [if_pos herr]
    constructor
    · exact fun hagrees ↦ (hagrees.error ((neg_win32ErrToUnixError_neg _).mpr herr)).2
    · exact fun hsome ↦ ⟨List.nil_prefix, fun hne ↦ absurd rfl hne, fun _ ↦ ⟨rfl, hsome⟩,
        fun hall ↦ absurd (WriteOutcome.error_of_complete hall.1) herr⟩

/-- Bytes are gone when the loop stops, and the result is no count. -/
theorem not_writevRight_of_stopped (hopen : OpenAt w P fd a h)
    (hkind : h.kind = .file ∨ h.kind = .pipe) (pV count : DWORD) {s : List UInt8}
    {ss : List (List UInt8)}
    (hsegments : segmentsAt (w.rest.memory P) pV count.toInt.toNat = s :: ss)
    (htaken : (w.rest.outcome 0).taken s ≠ []) (hnone : ¬AllSome w.rest.outcome (s :: ss)) :
    ¬WritevRight base w P fd pV count := by
  have hobject : ({ w with indexed := (fd.toNat : Int) :: w.indexed } :
      FileWorld WriteWorld).table.object a = some h := hopen.object
  obtain ⟨s', ss', err, out, w', hsegments', hrun, hsent, hout⟩ :=
    writevLoop_of_not_allSome base hobject hkind _ pV 0#32 (hsegments ▸ hnone)
  obtain ⟨rfl, rfl⟩ := List.cons.inj (hsegments.symm.trans hsegments')
  rw [if_neg htaken] at hout
  have hloop : sysWritev (writeEnvironment base w.table) P fd pV count w = _ :=
    withHandler_of_open _ hopen.valid hopen.slot
  rw [writevRight_iff_of_run base (hloop.trans hrun) hsent]
  intro hagrees
  have hcount := hagrees.count hout
  have hle := neg_win32ErrToUnixError_le err
  have hpos := List.length_pos_of_ne_nil hout
  omega

/-- `sys_writev` agrees with `sys_write` exactly if the outcomes fit its buffers. -/
theorem writevRight_iff (hopen : OpenAt w P fd a h) (hkind : h.kind = .file ∨ h.kind = .pipe)
    (pV count : DWORD) :
    WritevRight base w P fd pV count ↔
      WritevFits w.rest.outcome (segmentsAt (w.rest.memory P) pV count.toInt.toNat) := by
  have hobject : ({ w with indexed := (fd.toNat : Int) :: w.indexed } :
      FileWorld WriteWorld).table.object a = some h := hopen.object
  have hloop : sysWritev (writeEnvironment base w.table) P fd pV count w =
      writevLoop (writeEnvironment base w.table) P a count.toInt.toNat pV 0#32
        { w with indexed := (fd.toNat : Int) :: w.indexed } :=
    withHandler_of_open _ hopen.valid hopen.slot
  by_cases hsome : AllSome w.rest.outcome
      (segmentsAt (w.rest.memory P) pV count.toInt.toNat)
  · obtain ⟨w', hrun, hsent⟩ := writevLoop_of_allSome base hobject hkind _ pV 0#32 hsome
    rw [BitVec.zero_add] at hrun
    rw [writevRight_iff_of_run base (hloop.trans hrun) hsent]
    show Agrees base w P fd _ (given w.rest.outcome _)
      (BitVec.ofNat 32 (given w.rest.outcome _).length) ↔ _
    rw [agrees_given_iff base hopen hkind]
    cases hsegments : segmentsAt (w.rest.memory P) pV count.toInt.toNat with
    | nil => exact iff_of_true ⟨Nat.two_pow_pos 31, trivial⟩ trivial
    | cons s ss =>
      rw [hsegments] at hsome
      rw [WritevFits, if_neg hsome.1, and_iff_right hsome]
  · obtain ⟨s, ss, err, out, w', hsegments, hrun, hsent, hout⟩ :=
      writevLoop_of_not_allSome base hobject hkind _ pV 0#32 hsome
    have hsegments : segmentsAt (w.rest.memory P) pV count.toInt.toNat = s :: ss := hsegments
    rw [hsegments] at hsome
    by_cases htaken : (w.rest.outcome 0).taken s = []
    · obtain ⟨rfl, rfl⟩ := (if_pos htaken).mp hout
      rw [writevRight_iff_of_run base (hloop.trans hrun) hsent, hsegments, WritevFits,
        if_pos htaken]
      exact agrees_nothing_iff base hopen hkind ss
    · rw [hsegments, WritevFits, if_neg htaken]
      exact iff_of_false
        (not_writevRight_of_stopped base hopen hkind pV count hsegments htaken hsome)
        fun hfits ↦ hsome hfits.1

/-- Two buffers, of which the second is empty. Every `WriteFile` is complete. -/
def twoBuffers : FileWorld WriteWorld where
  table := startTable.setObject 0 (some { kind := .pipe })
  rest :=
    { memory := fun _ ↦ Mem.write (fun _ ↦ 0x61) 0#32
        ((Codec.word 4).encode 0x100#32 ++ (Codec.word 4).encode 2#32 ++
          (Codec.word 4).encode 0x200#32 ++ (Codec.word 4).encode 0#32)
      outcome := fun _ ↦ .takes (2 ^ 32)
      sent := []
      error := fun _ ↦ 0#32 }

theorem openAt_twoBuffers : OpenAt twoBuffers 0 0#32 0 { kind := .pipe } where
  valid := by decide
  slot := rfl
  object := rfl

/-- The bytes of the first go out, and the result is 0. -/
theorem not_writevRight_twoBuffers :
    ¬WritevRight (Environment.idle WriteWorld) twoBuffers 0 0#32 0#32 2#32 := by
  have hsegments : segmentsAt (twoBuffers.rest.memory 0) 0#32 2 = [[0x61, 0x61], []] := by decide
  have htaken : (twoBuffers.rest.outcome 0).taken [0x61, 0x61] = [0x61, 0x61] :=
    List.take_of_length_le (by decide)
  apply not_writevRight_of_stopped (Environment.idle WriteWorld) openAt_twoBuffers (.inr rfl)
    0#32 2#32 hsegments
  · rw [htaken]
    exact List.cons_ne_nil _ _
  · exact fun hsome ↦ hsome.2.1 List.take_nil

/-- Three buffers. The first two go out whole, of the third one byte does. -/
def threeBuffers : FileWorld WriteWorld :=
  { twoBuffers with
    rest := { twoBuffers.rest with
      memory := fun _ ↦ Mem.write (fun _ ↦ 0x61) 0#32
        ((Codec.word 4).encode 0x100#32 ++ (Codec.word 4).encode 2#32 ++
          (Codec.word 4).encode 0x200#32 ++ (Codec.word 4).encode 3#32 ++
          (Codec.word 4).encode 0x300#32 ++ (Codec.word 4).encode 2#32)
      outcome := fun i ↦ if i = 2 then .takes 1 else .takes 3 } }

theorem openAt_threeBuffers : OpenAt threeBuffers 0 0#32 0 { kind := .pipe } where
  valid := by decide
  slot := rfl
  object := rfl

/-- The six bytes go out in order and are counted. -/
theorem writevRight_iff_threeBuffers :
    WritevRight (Environment.idle WriteWorld) threeBuffers 0 0#32 0#32 3#32 ∧
      given threeBuffers.rest.outcome (segmentsAt (threeBuffers.rest.memory 0) 0#32 3) =
        List.replicate 6 0x61 := by
  have hsegments : segmentsAt (threeBuffers.rest.memory 0) 0#32 3 =
      [[0x61, 0x61], [0x61, 0x61, 0x61], [0x61, 0x61]] := by decide
  have hfits : WritevFits threeBuffers.rest.outcome
      [[0x61, 0x61], [0x61, 0x61, 0x61], [0x61, 0x61]] := by
    have hsome : AllSome threeBuffers.rest.outcome
        [[0x61, 0x61], [0x61, 0x61, 0x61], [0x61, 0x61]] :=
      ⟨by decide, by decide, by decide, trivial⟩
    rw [WritevFits, if_neg hsome.1]
    refine ⟨hsome, by decide, ?_⟩
    exact List.nil_prefix
  constructor
  · apply (writevRight_iff (Environment.idle WriteWorld) openAt_threeBuffers (.inr rfl) 0#32
      3#32).mpr
    exact hsegments ▸ hfits
  · rw [hsegments]
    decide

end Writev

end Keow.Files
