import Keow.Files.Directory

/-!
# Duplicates of a directory

`IOHFile::Duplicate` cannot copy a search. It means to start another one and go on until the
counters agree, through a buffer of the size of one record: `GetDirEnts64` stores a record only in
a larger one.
-/

namespace Keow.Files

open Keow.Base Keow.Kernel

namespace Directory

variable (dir : Directory)

/-- The loop of `IOHFile::Duplicate`, for as many rounds. -/
def duplicateLoop (nFindCount : DWORD) : Nat → FindState → List UInt8 → Option FindState
  | 0, _, _ => none
  | rounds + 1, pF, tmp =>
      if pF.nFindCount.toInt < nFindCount.toInt then do
        let r ← dir.getDirEnts64 pF tmp
        duplicateLoop nFindCount rounds r.state r.buf
      else some pF

/-- `IOHFile::Duplicate`, `IOHFile.cpp:48–71`, as far as the search goes: the handler that it
returns, if its loop ends within these rounds. The constructor does not set `m_nFindCount`, and
`tmp` is the local record. -/
def duplicate (s : FindState) (uninitialised : DWORD) (tmp : List UInt8) (rounds : Nat) :
    Option FindState :=
  let pF : FindState := { hFindData := none, nFindCount := uninitialised }
  match s.hFindData with
  | none => some pF
  | some _ => do
      let r ← dir.getDirEnts64 pF tmp
      dir.duplicateLoop s.nFindCount rounds { r.state with nFindCount := 0#32 } r.buf

/-- `Duplicate` returns, and calls on the copy list what they would on the original. -/
def KeepsPlace (s : FindState) (uninitialised : DWORD) (tmp : List UInt8) : Prop :=
  ∃ rounds copy, dir.duplicate s uninitialised tmp rounds = some copy ∧
    ∀ bufs : List (List UInt8), (∀ buf ∈ bufs, sizeofDirent64 < buf.length) →
      listing (dirChunk dir.getDirEnts64) (dirAfter dir.getDirEnts64) copy bufs =
        listing (dirChunk dir.getDirEnts64) (dirAfter dir.getDirEnts64) s bufs

variable {dir : Directory}

/-! ## The loop -/

/-- In a buffer of the size of a record nothing is found. -/
theorem getDirEnts64_small {s : FindState} (hclosed : s.hFindData = none) {tmp : List UInt8}
    (htmp : tmp.length = sizeofDirent64) :
    dir.getDirEnts64 s tmp = some { filled := 0, buf := tmp, state := s } := by
  have hsmall : ¬sizeofDirent64 < tmp.length := htmp ▸ Nat.lt_irrefl _
  unfold getDirEnts64
  simp only [hclosed, if_neg hsmall]

/-- So the loop goes on for ever, if it starts. -/
theorem duplicateLoop_eq_none {nFindCount : DWORD} {pF : FindState}
    (hclosed : pF.hFindData = none) (hlt : pF.nFindCount.toInt < nFindCount.toInt)
    {tmp : List UInt8} (htmp : tmp.length = sizeofDirent64) (rounds : Nat) :
    dir.duplicateLoop nFindCount rounds pF tmp = none := by
  induction rounds with
  | zero => rfl
  | succ rounds ih =>
    rw [duplicateLoop, if_pos hlt, getDirEnts64_small hclosed htmp]
    exact ih

/-- Where a search is open, all that is left is the loop. -/
theorem duplicate_eq_loop {s : FindState} {found : List DirEntry} (hopen : s.hFindData = some found)
    (uninitialised : DWORD) {tmp : List UInt8} (htmp : tmp.length = sizeofDirent64) (rounds : Nat) :
    dir.duplicate s uninitialised tmp rounds =
      dir.duplicateLoop s.nFindCount rounds { hFindData := none, nFindCount := 0#32 } tmp := by
  have hsmall : dir.getDirEnts64 { hFindData := none, nFindCount := uninitialised } tmp =
      some { filled := 0, buf := tmp,
             state := { hFindData := none, nFindCount := uninitialised } } :=
    getDirEnts64_small rfl htmp
  simp only [duplicate, hopen, hsmall]
  rfl

/-- The loop starts whenever the search has counted an entry. -/
theorem restart_eq_none {nFindCount : DWORD} (hlt : (0#32 : DWORD).toInt < nFindCount.toInt)
    {tmp : List UInt8} (htmp : tmp.length = sizeofDirent64) (rounds : Nat) :
    dir.duplicateLoop nFindCount rounds { hFindData := none, nFindCount := 0#32 } tmp = none := by
  apply duplicateLoop_eq_none
  · rfl
  · exact hlt
  · exact htmp

/-- Where it returns although a search is open, the copy starts again. -/
theorem duplicate_of_open {s : FindState} {found : List DirEntry}
    (hopen : s.hFindData = some found) {uninitialised : DWORD} {tmp : List UInt8}
    (htmp : tmp.length = sizeofDirent64) {rounds : Nat} {copy : FindState}
    (h : dir.duplicate s uninitialised tmp rounds = some copy) : copy.hFindData = none := by
  rw [duplicate_eq_loop hopen uninitialised htmp] at h
  by_cases hlt : (0#32 : DWORD).toInt < s.nFindCount.toInt
  · rw [restart_eq_none hlt htmp] at h
    cases h
  · cases rounds with
    | zero => cases h
    | succ rounds =>
      rw [duplicateLoop, if_neg hlt] at h
      rw [← Option.some.inj h]

/-- It returns if and only if no search is open, or one that has counted nothing. -/
theorem exists_duplicate_iff (dir : Directory) (s : FindState) (uninitialised : DWORD)
    {tmp : List UInt8} (htmp : tmp.length = sizeofDirent64) :
    (∃ rounds copy, dir.duplicate s uninitialised tmp rounds = some copy) ↔
      s.hFindData = none ∨ s.nFindCount.toInt ≤ 0 := by
  cases hfind : s.hFindData with
  | none =>
    constructor
    · exact fun _ ↦ Or.inl rfl
    · intro _
      simp only [duplicate, hfind]
      exact ⟨0, _, rfl⟩
  | some found =>
    simp only [duplicate_eq_loop hfind uninitialised htmp]
    by_cases hlt : (0#32 : DWORD).toInt < s.nFindCount.toInt
    · constructor
      · rintro ⟨rounds, copy, h⟩
        rw [restart_eq_none hlt htmp] at h
        cases h
      · rintro (h | h)
        · cases h
        · exact absurd hlt (Int.not_lt.mpr h)
    · constructor
      · exact fun _ ↦ Or.inr (Int.not_lt.mp hlt)
      · intro _
        exact ⟨1, _, by rw [duplicateLoop, if_neg hlt]⟩

/-! ## What is listed -/

/-- A search that has been started has given an entry. -/
def Started (dir : Directory) (s : FindState) : Prop :=
  ∀ found, s.hFindData = some found → found.length < dir.entries.length

theorem started_of_closed {s : FindState} (hclosed : s.hFindData = none) : dir.Started s :=
  fun found hfound ↦ absurd (hclosed.symm.trans hfound) (Option.some_ne_none found).symm

theorem started_dirAfter (hend : dir.atEnd = ERROR_NO_MORE_FILES) {s : FindState}
    (hs : dir.Started s) (buf : List UInt8) : dir.Started (dirAfter dir.getDirEnts64 s buf) := by
  obtain ⟨r, hrun, ⟨-, hafter, -⟩ | ⟨out, es, rest, h, hfirst, hstate⟩⟩ :=
    getDirEnts64_cases hend s buf
  · rw [dirAfter_eq hrun]
    exact started_of_closed hafter
  · rw [dirAfter_eq hrun]
    rcases hstate with hopen | ⟨hclosed, -⟩
    · intro found hfound
      obtain rfl := Option.some.inj (hopen.symm.trans hfound)
      have hlength := congrArg List.length h.split
      rw [List.length_append] at hlength
      cases hbefore : s.hFindData with
      | none =>
        have hes := List.length_pos_of_ne_nil (hfirst hbefore)
        rw [left, hbefore, Option.getD_none] at hlength
        omega
      | some found =>
        have hlt := hs found hbefore
        rw [left, hbefore, Option.getD_some] at hlength
        omega
    · exact started_of_closed hclosed

/-- The first call that has room starts a search. -/
theorem exists_open_dirAfter (hend : dir.atEnd = ERROR_NO_MORE_FILES) {s : FindState}
    (hclosed : s.hFindData = none) (hentries : dir.entries ≠ []) {buf : List UInt8}
    (hroom : sizeofDirent64 < buf.length) :
    ∃ found, (dirAfter dir.getDirEnts64 s buf).hFindData = some found := by
  obtain ⟨r, hrun, ⟨-, -, -, ⟨-, hsmall⟩ | ⟨-, hempty⟩⟩ | ⟨out, es, rest, -, -, hstate⟩⟩ :=
    getDirEnts64_cases hend s buf
  · exact absurd hroom hsmall
  · exact absurd hempty hentries
  · rw [dirAfter_eq hrun]
    rcases hstate with hopen | ⟨-, hnone⟩
    · exact ⟨rest, hopen⟩
    · rw [left, hclosed, Option.getD_none] at hnone
      exact absurd hnone hentries

theorem started_foldl (hend : dir.atEnd = ERROR_NO_MORE_FILES) {s : FindState}
    (hs : dir.Started s) (bufs : List (List UInt8)) :
    dir.Started (bufs.foldl (dirAfter dir.getDirEnts64) s) := by
  induction bufs generalizing s with
  | nil => exact hs
  | cons buf bufs ih => exact ih (started_dirAfter hend hs buf)

theorem room_replicate (n : Nat) : ∀ buf ∈ List.replicate n (List.replicate 276 (0 : UInt8)),
    sizeofDirent64 < buf.length := by
  intro buf hbuf
  rw [(List.mem_replicate.mp hbuf).2, List.length_replicate]
  decide

/-- What many calls list are the names of all entries that are left. -/
theorem listing_many (hend : dir.atEnd = ERROR_NO_MORE_FILES) (hentries : dir.entries ≠ [])
    (s : FindState) {n : Nat} (hn : (dir.left s).length < n) :
    (listing (dirChunk dir.getDirEnts64) (dirAfter dir.getDirEnts64) s
      (List.replicate n (List.replicate 276 0))).1 = (dir.left s).map DirEntry.shownName := by
  have hbufs := room_replicate n
  have hreads := readsOff_getDirEnts64 hend
  apply hreads.listing_all trivial hbufs
  apply hreads.listing_ends (fun s buf _ hroom ↦ dirChunk_ne_nil hend hentries s hroom) trivial
    hbufs
  rwa [List.length_map, List.length_replicate]

/-- Where no search is open, the counter does not matter. -/
theorem listing_of_closed (hend : dir.atEnd = ERROR_NO_MORE_FILES) {s s' : FindState}
    (hs : s.hFindData = none) (hs' : s'.hFindData = none)
    {bufs : List (List UInt8)} (hbufs : ∀ buf ∈ bufs, sizeofDirent64 < buf.length) :
    listing (dirChunk dir.getDirEnts64) (dirAfter dir.getDirEnts64) s bufs =
      listing (dirChunk dir.getDirEnts64) (dirAfter dir.getDirEnts64) s' bufs := by
  cases bufs with
  | nil => rfl
  | cons buf bufs =>
    have hroom := (List.forall_mem_cons.mp hbufs).1
    have hcall : dir.getDirEnts64 s buf = dir.getDirEnts64 s' buf := by
      simp only [getDirEnts64, hs, hs', if_pos hroom]
    obtain ⟨r, hrun, -⟩ := getDirEnts64_fits hend s buf
    have hchunk : dirChunk dir.getDirEnts64 s buf = dirChunk dir.getDirEnts64 s' buf := by
      rw [dirChunk, dirChunk, hcall]
    rw [listing, listing, hchunk, dirAfter_eq hrun, dirAfter_eq (hcall.symm.trans hrun)]

/-- A search that is open is lost. -/
theorem not_keepsPlace_of_open (hend : dir.atEnd = ERROR_NO_MORE_FILES) {s : FindState}
    (hs : dir.Started s) {found : List DirEntry} (hopen : s.hFindData = some found)
    (uninitialised : DWORD) {tmp : List UInt8} (htmp : tmp.length = sizeofDirent64) :
    ¬dir.KeepsPlace s uninitialised tmp := by
  rintro ⟨rounds, copy, hcopy, hlists⟩
  have hlt := hs found hopen
  have hentries : dir.entries ≠ [] := List.ne_nil_of_length_pos (by omega)
  have hleft : dir.left s = found := by rw [left, hopen, Option.getD_some]
  have hleftCopy : dir.left copy = dir.entries := by
    rw [left, duplicate_of_open hopen htmp hcopy, Option.getD_none]
  have hmany := listing_many hend hentries copy
    (by rw [hleftCopy]; exact Nat.lt_succ_self _ : _ < dir.entries.length + 1)
  have hmany' := listing_many hend hentries s
    (by rw [hleft]; omega : _ < dir.entries.length + 1)
  rw [hlists _ (room_replicate _), hmany', hleft, hleftCopy] at hmany
  have hlength := congrArg List.length hmany
  rw [List.length_map, List.length_map] at hlength
  omega

/-- After any calls on a directory, a duplicate keeps the place exactly if no search is open. -/
theorem keepsPlace_iff (hend : dir.atEnd = ERROR_NO_MORE_FILES) (nFindCount uninitialised : DWORD)
    {tmp : List UInt8} (htmp : tmp.length = sizeofDirent64) (bufs : List (List UInt8)) :
    dir.KeepsPlace (bufs.foldl (dirAfter dir.getDirEnts64)
        { hFindData := none, nFindCount := nFindCount }) uninitialised tmp ↔
      (bufs.foldl (dirAfter dir.getDirEnts64)
        { hFindData := none, nFindCount := nFindCount }).hFindData = none := by
  have hstarted : dir.Started (bufs.foldl (dirAfter dir.getDirEnts64)
      { hFindData := none, nFindCount := nFindCount }) :=
    started_foldl hend (started_of_closed rfl) bufs
  constructor
  · intro hkeeps
    by_contra hopen
    obtain ⟨found, hfind⟩ := Option.ne_none_iff_exists'.mp hopen
    exact not_keepsPlace_of_open hend hstarted hfind uninitialised htmp hkeeps
  · intro hclosed
    refine ⟨0, { hFindData := none, nFindCount := uninitialised }, ?_, fun bufs hbufs ↦
      listing_of_closed hend rfl hclosed hbufs⟩
    simp only [duplicate, hclosed]

/-- The second call has found the end, and closed the search. -/
theorem keepsPlace_iff_oneEntry :
    oneEntry.KeepsPlace ([List.replicate 276 0, List.replicate 276 0].foldl
      (dirAfter oneEntry.getDirEnts64) { hFindData := none, nFindCount := 0#32 }) 0#32
      (List.replicate 275 0) := by
  apply (keepsPlace_iff rfl 0#32 0#32 List.length_replicate _).mpr
  exact Option.isNone_iff_eq_none.mp (by decide +kernel)

/-- The one entry has been listed, and the copy lists it again. -/
theorem not_keepsPlace_oneEntry :
    ¬oneEntry.KeepsPlace ([List.replicate 276 0].foldl (dirAfter oneEntry.getDirEnts64)
      { hFindData := none, nFindCount := 0#32 }) 0#32 (List.replicate 275 0) := by
  have hroom : sizeofDirent64 < (List.replicate 276 (0 : UInt8)).length := by
    rw [List.length_replicate]
    decide
  obtain ⟨found, hopen⟩ := exists_open_dirAfter (s := { hFindData := none, nFindCount := 0#32 })
    (rfl : oneEntry.atEnd = ERROR_NO_MORE_FILES) rfl (List.cons_ne_nil _ _) hroom
  have hstarted := started_dirAfter (rfl : oneEntry.atEnd = ERROR_NO_MORE_FILES)
    (started_of_closed (s := { hFindData := none, nFindCount := 0#32 }) rfl)
    (List.replicate 276 0)
  rw [List.foldl_cons, List.foldl_nil]
  exact not_keepsPlace_of_open rfl hstarted hopen 0#32 List.length_replicate

end Directory

end Keow.Files
