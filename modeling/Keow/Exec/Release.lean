import Keow.Exec.Image
import Keow.Kernel.LinkedList

/-!
# What exec releases

`FreeResourcesBeforeExec` erases from the list of allocations while it walks it. After each erasure
it starts again at the head, and the increment of the loop takes it past that.
-/

namespace Keow.Exec

open Keow.Base Keow.Kernel

/-- The record is not the stack's. -/
def Other (stackBase : DWORD) (r : MemoryAlloc) : Prop := r.addr ≠ stackBase

instance (stackBase : DWORD) : DecidablePred (Other stackBase) :=
  fun _ ↦ inferInstanceAs (Decidable (_ ≠ _))

/-- The loop of `FreeResourcesBeforeExec` over the allocations, `Process.cpp:2153–2174`, with the
records that it has passed to `VirtualFreeEx`. There is no result when it follows a freed node or
takes more than this many turns. -/
def releaseLoop (stackBase : DWORD) :
    Nat → LinkedList MemoryAlloc → Option Nat → List MemoryAlloc →
      Option (LinkedList MemoryAlloc × List MemoryAlloc)
  | _, l, none, freed => some (l, freed)
  | 0, _, some _, _ => none
  | fuel + 1, l, some n, freed =>
      match l.nodes n with
      | none => none
      | some node =>
          if node.value.addr = stackBase then
            (l.advance (some n)).bind fun it ↦ releaseLoop stackBase fuel l it freed
          else
            (l.erase (some n)).bind fun l ↦ (l.advance l.head).bind fun it ↦
              releaseLoop stackBase fuel l it (freed ++ [node.value])

/-- The loop ends with a list of these cells and has passed on these records. -/
def Releases (stackBase : DWORD) (l : LinkedList MemoryAlloc) (it : Option Nat)
    (freed : List MemoryAlloc) (cells : List (Nat × MemoryAlloc)) (freed' : List MemoryAlloc) :
    Prop :=
  ∃ fuel l', releaseLoop stackBase fuel l it freed = some (l', freed') ∧ l'.Represents cells

variable {stackBase : DWORD} {l : LinkedList MemoryAlloc} {freed freed' : List MemoryAlloc}
  {cells xs ys : List (Nat × MemoryAlloc)} {c : Nat × MemoryAlloc}

theorem releases_end (h : l.Represents cells) : Releases stackBase l none freed cells freed :=
  ⟨0, l, rfl, h⟩

/-- The loop goes past the stack. -/
theorem releases_stack (h : l.Represents (xs ++ c :: ys)) (hc : ¬Other stackBase c.2)
    (hrest : Releases stackBase l (firstOf ys none) freed cells freed') :
    Releases stackBase l (some c.1) freed cells freed' := by
  obtain ⟨fuel, l', hfuel, hl'⟩ := hrest
  refine ⟨fuel + 1, l', ?_, hl'⟩
  rw [releaseLoop, LinkedList.node_eq h]
  simp only [if_pos (not_not.mp hc), LinkedList.advance_eq h, Option.bind_some]
  exact hfuel

/-- Another record is passed on and erased, and the loop goes on behind the head. -/
theorem releases_other (h : l.Represents (xs ++ c :: ys)) (hc : Other stackBase c.2)
    (hrest : ∀ l' : LinkedList MemoryAlloc, l'.Represents (xs ++ ys) → ∃ it,
      l'.advance l'.head = some it ∧
        Releases stackBase l' it (freed ++ [c.2]) cells freed') :
    Releases stackBase l (some c.1) freed cells freed' := by
  obtain ⟨l₁, herase, hl₁⟩ := LinkedList.represents_erase h
  obtain ⟨it, hit, fuel, l', hfuel, hl'⟩ := hrest l₁ hl₁
  refine ⟨fuel + 1, l', ?_, hl'⟩
  rw [releaseLoop, LinkedList.node_eq h]
  simp only [if_neg hc, herase, Option.bind_some, hit]
  exact hfuel

/-- It goes past all records of the stack that follow each other. -/
theorem releases_stacks {zs : List (Nat × MemoryAlloc)} (h : l.Represents (xs ++ (zs ++ ys)))
    (hzs : ∀ z ∈ zs, ¬Other stackBase z.2)
    (hrest : Releases stackBase l (firstOf ys none) freed cells freed') :
    Releases stackBase l (firstOf (zs ++ ys) none) freed cells freed' := by
  induction zs generalizing xs with
  | nil => exact hrest
  | cons z zs ih =>
    rw [List.cons_append] at h
    apply releases_stack h (hzs z List.mem_cons_self)
    have hbehind : l.Represents (xs ++ [z] ++ (zs ++ ys)) := by rwa [List.append_assoc]
    exact ih hbehind fun z hz ↦ hzs z (List.mem_cons_of_mem _ hz)

/-- Behind the head all other records are passed on and erased. -/
theorem releases_behind {zs : List (Nat × MemoryAlloc)} (h : l.Represents (c :: zs ++ ys))
    (hzs : ∀ z ∈ zs, ¬Other stackBase z.2) :
    Releases stackBase l (firstOf ys none) freed
      (c :: zs ++ ys.filter fun y ↦ ¬Other stackBase y.2)
      (freed ++ (ys.map Prod.snd).filter fun r ↦ Other stackBase r) := by
  induction ys generalizing l freed zs with
  | nil =>
    rw [List.append_nil] at h
    simpa using releases_end h
  | cons y ys ih =>
    by_cases hy : Other stackBase y.2
    · apply releases_other h hy
      intro l' hl'
      rw [List.filter_cons_of_neg (by simpa using hy), List.map_cons,
        List.filter_cons_of_pos (by simpa using hy)]
      have hrest : Releases stackBase l' (firstOf ys none) (freed ++ [y.2])
          (c :: zs ++ ys.filter fun y ↦ ¬Other stackBase y.2)
          (freed ++ [y.2] ++ (ys.map Prod.snd).filter fun r ↦ Other stackBase r) := ih hl' hzs
      rw [List.append_assoc freed, List.singleton_append] at hrest
      have hhead : l'.head = some c.1 := by rw [hl'.head]; rfl
      refine ⟨firstOf (zs ++ ys) none, ?_, ?_⟩
      · rw [hhead]
        exact LinkedList.advance_eq (show l'.Represents ([] ++ c :: (zs ++ ys)) from hl')
      · exact releases_stacks (show l'.Represents ([c] ++ (zs ++ ys)) from hl') hzs hrest
    · apply releases_stack h hy
      rw [List.filter_cons_of_pos (by simpa using hy), List.map_cons,
        List.filter_cons_of_neg (by simpa using hy)]
      have hrest : Releases stackBase l (firstOf ys none) freed
          (c :: (zs ++ [y]) ++ ys.filter fun y ↦ ¬Other stackBase y.2)
          (freed ++ (ys.map Prod.snd).filter fun r ↦ Other stackBase r) := by
        apply ih
        · rwa [List.cons_append, List.append_assoc]
        · intro z hz
          rw [List.mem_append, List.mem_singleton] at hz
          rcases hz with hz | rfl
          · exact hzs z hz
          · exact hy
      rwa [List.cons_append, List.append_assoc] at hrest

/-- What the loop leaves and what it passes on, from the head of the list. -/
def releaseResult (stackBase : DWORD) : List MemoryAlloc → List MemoryAlloc × List MemoryAlloc
  | [] => ([], [])
  | r :: rs =>
      if Other stackBase r then
        -- the record that comes first then is stepped over, whatever it is
        match rs with
        | [] => ([], [r])
        | c :: rs =>
            (c :: rs.filter fun r ↦ ¬Other stackBase r,
              r :: rs.filter fun r ↦ Other stackBase r)
      else (r :: rs.filter fun r ↦ ¬Other stackBase r, rs.filter fun r ↦ Other stackBase r)

theorem releases_head (h : l.Represents cells) :
    ∃ cells',
      Releases stackBase l l.head [] cells' (releaseResult stackBase (cells.map Prod.snd)).2 ∧
      cells'.map Prod.snd = (releaseResult stackBase (cells.map Prod.snd)).1 := by
  rw [h.head]
  cases cells with
  | nil => exact ⟨[], releases_end h, rfl⟩
  | cons c cells =>
    simp only [List.map_cons, releaseResult]
    split
    · next hc =>
      cases cells with
      | nil =>
        have hhere : l.Represents ([] ++ c :: []) := h
        refine ⟨[], releases_other hhere hc fun l' hl' ↦ ⟨none, ?_, releases_end hl'⟩, rfl⟩
        rw [hl'.head]
        rfl
      | cons d ys =>
        have hhere : l.Represents ([] ++ c :: d :: ys) := h
        refine ⟨d :: ys.filter fun y ↦ ¬Other stackBase y.2,
          releases_other hhere hc fun l' hl' ↦ ⟨firstOf ys none, ?_, ?_⟩, ?_⟩
        · rw [show l'.head = some d.1 from hl'.head]
          exact LinkedList.advance_eq hl'
        · exact releases_behind (show l'.Represents (d :: [] ++ ys) from hl') (by simp)
        · simp [List.filter_map, Function.comp_def]
    · next hc =>
      have hhere : l.Represents ([] ++ c :: cells) := h
      have hbehind : l.Represents (c :: [] ++ cells) := h
      refine ⟨c :: cells.filter fun y ↦ ¬Other stackBase y.2,
        releases_stack hhere hc (releases_behind hbehind (by simp)), ?_⟩
      simp [List.filter_map, Function.comp_def]

/-! The loop of `FreeResourcesBeforeExec` over positions leaves what the loop over nodes does. -/

theorem releaseAllocations_stacks (host : Host) (mem : UserMem) (xs zs ys : List MemoryAlloc)
    (hzs : ∀ z ∈ zs, ¬Other stackBase z) :
    releaseAllocations host stackBase (xs ++ (zs ++ ys)) xs.length mem =
      releaseAllocations host stackBase (xs ++ (zs ++ ys)) (xs.length + zs.length) mem := by
  induction zs generalizing xs with
  | nil => rfl
  | cons z zs ih =>
    have hlt : xs.length < (xs ++ (z :: zs ++ ys)).length := by simp
    have hget : (xs ++ (z :: zs ++ ys)).get ⟨xs.length, hlt⟩ = z := by simp
    rw [releaseAllocations, dif_pos hlt, hget, if_pos (not_not.mp (hzs z List.mem_cons_self))]
    have hrest := ih (xs ++ [z]) fun z hz ↦ hzs z (List.mem_cons_of_mem _ hz)
    simp only [List.append_assoc, List.singleton_append, List.length_append,
      List.length_singleton] at hrest
    rw [List.cons_append, hrest, List.length_cons]
    congr 1
    omega

theorem releaseAllocations_behind (host : Host) (mem : UserMem) (c : MemoryAlloc)
    (zs ys : List MemoryAlloc) (hzs : ∀ z ∈ zs, ¬Other stackBase z) :
    (releaseAllocations host stackBase (c :: (zs ++ ys)) (1 + zs.length) mem).1 =
      c :: (zs ++ ys.filter fun r ↦ ¬Other stackBase r) := by
  induction ys generalizing zs mem with
  | nil =>
    have hge : ¬1 + zs.length < (c :: (zs ++ [])).length := by
      rw [List.append_nil, List.length_cons]
      omega
    rw [releaseAllocations, dif_neg hge]
    rfl
  | cons y ys ih =>
    have hlt : 1 + zs.length < (c :: (zs ++ y :: ys)).length := by simp; omega
    have hget : (c :: (zs ++ y :: ys)).get ⟨1 + zs.length, hlt⟩ = y := by
      simp [Nat.add_comm 1]
    rw [releaseAllocations, dif_pos hlt, hget]
    by_cases hy : Other stackBase y
    · have herase : (c :: (zs ++ y :: ys)).eraseIdx (1 + zs.length) = c :: (zs ++ ys) := by
        rw [Nat.add_comm, List.eraseIdx_cons_succ,
          List.eraseIdx_append_of_length_le (Nat.le_refl _), Nat.sub_self,
          List.eraseIdx_cons_zero]
      rw [if_neg hy, herase, List.filter_cons_of_neg (by simpa using hy)]
      have hskip := releaseAllocations_stacks host
        (host.virtualFree mem y.addr y.len) [c] zs ys hzs
      rw [List.singleton_append, List.length_singleton] at hskip
      rw [hskip]
      exact ih _ zs hzs
    · rw [if_pos (not_not.mp hy), List.filter_cons_of_pos (by simpa using hy)]
      have hrest := ih mem (zs ++ [y]) (by
        intro z hz
        rw [List.mem_append, List.mem_singleton] at hz
        rcases hz with hz | rfl
        · exact hzs z hz
        · exact hy)
      simp only [List.append_assoc, List.singleton_append, List.length_append,
        List.length_singleton] at hrest
      rwa [Nat.add_assoc]

theorem releaseAllocations_eq (host : Host) (stackBase : DWORD) (rs : List MemoryAlloc)
    (mem : UserMem) :
    (releaseAllocations host stackBase rs 0 mem).1 = (releaseResult stackBase rs).1 := by
  cases rs with
  | nil =>
    rw [releaseAllocations, dif_neg (by simp)]
    rfl
  | cons r rs =>
    have hbehind : ∀ (mem : UserMem) (c : MemoryAlloc) (ys : List MemoryAlloc),
        (releaseAllocations host stackBase (c :: ys) 1 mem).1 =
          c :: ys.filter fun r ↦ ¬Other stackBase r := fun mem c ys ↦
      releaseAllocations_behind host mem c [] ys (by simp)
    have hlt : 0 < (r :: rs).length := by simp
    have hget : (r :: rs).get ⟨0, hlt⟩ = r := rfl
    rw [releaseAllocations, dif_pos hlt, hget]
    by_cases hr : Other stackBase r
    · rw [if_neg hr, List.eraseIdx_cons_zero]
      cases rs with
      | nil =>
        rw [releaseAllocations, dif_neg (by simp)]
        simp only [releaseResult, if_pos hr]
      | cons c rs =>
        simp only [releaseResult, if_pos hr]
        exact hbehind _ c rs
    · rw [if_pos (not_not.mp hr)]
      simp only [releaseResult, if_neg hr]
      exact hbehind mem r rs

/-- More turns change nothing. -/
theorem releaseLoop_unique {fuel fuel' : Nat} {it : Option Nat}
    {r r' : LinkedList MemoryAlloc × List MemoryAlloc}
    (h : releaseLoop stackBase fuel l it freed = some r)
    (h' : releaseLoop stackBase fuel' l it freed = some r') : r = r' := by
  induction fuel generalizing fuel' l it freed with
  | zero =>
    cases it with
    | none =>
      rw [releaseLoop] at h h'
      exact Option.some.inj (h.symm.trans h')
    | some n => cases h
  | succ fuel ih =>
    cases it with
    | none =>
      rw [releaseLoop] at h h'
      exact Option.some.inj (h.symm.trans h')
    | some n =>
      cases fuel' with
      | zero => cases h'
      | succ fuel' =>
        rw [releaseLoop] at h h'
        cases hnode : l.nodes n with
        | none =>
          rw [hnode] at h
          cases h
        | some node =>
          rw [hnode] at h h'
          simp only at h h'
          split at h
          · next hs =>
            rw [if_pos hs] at h'
            obtain ⟨it, hit, hrest⟩ := Option.bind_eq_some_iff.mp h
            rw [hit, Option.bind_some] at h'
            exact ih hrest h'
          · next hs =>
            rw [if_neg hs] at h'
            obtain ⟨l₁, hl₁, hrest⟩ := Option.bind_eq_some_iff.mp h
            obtain ⟨it, hit, hrest⟩ := Option.bind_eq_some_iff.mp hrest
            rw [hl₁, Option.bind_some, hit, Option.bind_some] at h'
            exact ih hrest h'

theorem releaseResult_iff (stackBase : DWORD) (rs : List MemoryAlloc) :
    (releaseResult stackBase rs).1 = rs.filter (fun r ↦ ¬Other stackBase r) ∧
        (releaseResult stackBase rs).2.Perm (rs.filter fun r ↦ Other stackBase r) ↔
      ¬∃ r c rest, rs = r :: c :: rest ∧ Other stackBase r ∧ Other stackBase c := by
  cases rs with
  | nil => simp [releaseResult]
  | cons r rs =>
    by_cases hr : Other stackBase r
    · cases rs with
      | nil => simp [releaseResult, hr]
      | cons c rs =>
        by_cases hc : Other stackBase c
        · simp only [releaseResult, if_pos hr]
          constructor
          · rintro ⟨hleft, -⟩
            rw [List.filter_cons_of_neg (by simpa using hr),
              List.filter_cons_of_neg (by simpa using hc)] at hleft
            exact absurd (congrArg List.length hleft) (by simp)
          · exact fun h ↦ absurd ⟨r, c, rs, rfl, hr, hc⟩ h
        · simp [releaseResult, hr, hc]
    · simp [releaseResult, hr]

/-- The loop ends for every list, and keeps exactly the stack's records and passes each other one
on once unless the first two records are both others. -/
theorem releaseLoop_iff (h : l.Represents cells) :
    (∃ fuel, (releaseLoop stackBase fuel l l.head []).isSome) ∧
      ∀ fuel l' freed, releaseLoop stackBase fuel l l.head [] = some (l', freed) →
        (l'.toList = l.toList.filter (fun r ↦ ¬Other stackBase r) ∧
            freed.Perm (l.toList.filter fun r ↦ Other stackBase r) ↔
          ¬∃ r c rest, l.toList = r :: c :: rest ∧ Other stackBase r ∧ Other stackBase c) := by
  obtain ⟨cells', hhead, hcells'⟩ : ∃ cells', Releases stackBase l l.head [] cells' _ ∧ _ :=
    releases_head h
  obtain ⟨fuel, l', hloop, hl'⟩ := hhead
  refine ⟨⟨fuel, by rw [hloop]; rfl⟩, fun fuel' l'' freed'' hloop' ↦ ?_⟩
  cases releaseLoop_unique hloop hloop'
  rw [LinkedList.toList_eq hl', hcells', LinkedList.toList_eq h]
  exact releaseResult_iff stackBase _

/-- The list after its records have been pushed in this order. -/
def pushed (rs : List MemoryAlloc) : LinkedList MemoryAlloc :=
  rs.foldl LinkedList.pushBack LinkedList.empty

theorem represents_pushed (rs : List MemoryAlloc) : ∃ cells, (pushed rs).Represents cells := by
  have hfold : ∀ (rs : List MemoryAlloc) (l : LinkedList MemoryAlloc) cells, l.Represents cells →
      ∃ cells', (rs.foldl LinkedList.pushBack l).Represents cells' := by
    intro rs
    induction rs with
    | nil => exact fun l cells h ↦ ⟨cells, h⟩
    | cons r rs ih => exact fun l cells h ↦ ih _ _ (LinkedList.represents_pushBack h r)
  exact hfold rs _ _ LinkedList.represents_empty

/-- A process with a program, a library and a stack. -/
def stackLast : List MemoryAlloc :=
  [⟨0x08048000#32, 0x2000#32, PAGE_EXECUTE_READWRITE⟩,
    ⟨0x40000000#32, 0x1000#32, PAGE_EXECUTE_READWRITE⟩,
    ⟨0x6FF00000#32, 0x100000#32, PAGE_EXECUTE_READWRITE⟩]

/-- With the stack first in the list it alone is left, and the program and the library are
freed. -/
theorem releaseLoop_iff_stackFirst :
    ∃ fuel l' freed, releaseLoop 0x6FF00000#32 fuel (pushed stackLast.reverse)
        (pushed stackLast.reverse).head [] = some (l', freed) ∧
      l'.toList = stackLast.drop 2 ∧ freed.Perm (stackLast.take 2).reverse := by
  obtain ⟨cells, hcells⟩ := represents_pushed stackLast.reverse
  have hlist : (pushed stackLast.reverse).toList = stackLast.reverse := by decide
  obtain ⟨⟨fuel, hsome⟩, hexact⟩ := @releaseLoop_iff 0x6FF00000#32 _ _ hcells
  obtain ⟨⟨l', freed⟩, hloop⟩ := Option.isSome_iff_exists.mp hsome
  have hfirst : ¬∃ r c rest, (pushed stackLast.reverse).toList = r :: c :: rest ∧
      Other 0x6FF00000#32 r ∧ Other 0x6FF00000#32 c := by
    rintro ⟨r, c, rest, heq, hr, -⟩
    rw [hlist] at heq
    obtain ⟨rfl, -⟩ := List.cons.inj heq
    exact absurd hr (by decide)
  obtain ⟨hleft, hfreed⟩ := (hexact fuel l' freed hloop).mpr hfirst
  rw [hlist] at hleft hfreed
  exact ⟨fuel, l', freed, hloop, hleft, hfreed⟩

/-- The library stays when the program comes first in the list. -/
theorem stackLast_not_released :
    ¬∀ (stackBase : DWORD) (l : LinkedList MemoryAlloc) (cells : List (Nat × MemoryAlloc)),
      l.Represents cells → ∃ fuel l' freed, releaseLoop stackBase fuel l l.head [] =
          some (l', freed) ∧ l'.toList = l.toList.filter (fun r ↦ ¬Other stackBase r) ∧
        freed.Perm (l.toList.filter fun r ↦ Other stackBase r) := by
  intro h
  obtain ⟨cells, hcells⟩ := represents_pushed stackLast
  obtain ⟨fuel, l', freed, hloop, hleft, -⟩ := h 0x6FF00000#32 _ cells hcells
  have hrun : (releaseLoop 0x6FF00000#32 4 (pushed stackLast) (pushed stackLast).head []).map
      (fun r ↦ r.1.toList) = some stackLast.tail := by
    decide
  obtain ⟨r, hr, hlist⟩ := Option.map_eq_some_iff.mp hrun
  cases releaseLoop_unique hr hloop
  rw [hlist] at hleft
  exact absurd hleft (by decide)

end Keow.Exec
