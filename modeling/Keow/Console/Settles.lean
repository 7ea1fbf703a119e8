import Keow.Console.InStep

/-!
# What is under way on the channel comes to an end

From every point of a run, the thread inside and the console process get every request decoded
and every caller of `TIOCGWINSZ` answered, with nobody else entering: each turn of the two takes
some of the outstanding work away, and where there is none left the channel is drained.
-/

namespace Keow.Console

open Keow.Base Keow.Kernel

/-- What the thread inside and the console process find when each of them goes on once. -/
structure Turn where
  size : WinSize
  kernelStale : List UInt8
  width : BitVec 16
  top : BitVec 16
  bottom : BitVec 16
  consoleStale : List UInt8

/-- The thread inside goes on, and then the console process. -/
def Channel.turn (c : Channel) (t : Turn) : Channel :=
  (c.kernelStep t.size t.kernelStale).consoleStep t.width t.top t.bottom t.consoleStale

/-- Nobody is inside, every request has been decoded, and every `TIOCGWINSZ` caller has received
the reply to its own request. -/
structure Drained (c : Channel) : Prop where
  outside : c.inside = none
  toConsole : c.toConsole = []
  console : c.console = .idle
  decoded : c.decoded = c.issued.map Prod.snd
  served : ∀ p n, c.issued[n]? = some (p, getSize) →
    ∃ size, (n, size) ∈ c.replies ∧ ⟨p, n, size⟩ ∈ c.received

/-- The requests issued later include those of `c`, and that of a caller of `TIOCGWINSZ` which has
just entered. -/
structure Continues (c later : Channel) : Prop where
  issued : c.issued <+: later.issued
  entered : ∀ p data, c.inside = some ⟨p, .begun TIOCGWINSZ data⟩ →
    later.issued[c.issued.length]? = some (p, getSize)

/-- Once nobody else enters, so many turns drain the channel, whatever is found in them, and
forget no request. -/
def Settles (c : Channel) : Prop :=
  ∃ n, ∀ turns : List Turn, n ≤ turns.length →
    Continues c (turns.foldl Channel.turn c) ∧ Drained (turns.foldl Channel.turn c)

/-- How much a caller at this stage can still bring about. -/
def Stage.work : Stage → Nat
  | .begun _ _ => 27
  | .payload _ => 18
  | .reply _ => 2
  | .done _ => 1

def ConsolePhase.work : ConsolePhase → Nat
  | .replying => 1
  | _ => 0

/-- How many operations are outstanding, at most. -/
def Channel.work (c : Channel) : Nat :=
  (c.inside.map (fun i ↦ i.stage.work)).getD 0 + 2 * c.toConsole.length + c.console.work

theorem work_ioctl {c : Channel} {p : Nat} {request data : DWORD}
    (hinside : c.inside = some ⟨p, .begun request data⟩) (size : WinSize) :
    (c.ioctl p request data size).work < c.work := by
  have hdone : ∀ ret, (c.goTo p (.done ret)).work < c.work := by
    intro ret
    simp only [Channel.work, Channel.goTo, hinside, Option.map_some, Option.getD_some, Stage.work]
    omega
  have hforward : ∀ r stage, stage.work ≤ 18 → (c.forward p r stage).work < c.work := by
    intro r stage hstage
    have hbegun : (Stage.begun request data).work = 27 := rfl
    simp only [Channel.work, Channel.forward, Channel.goTo, hinside, Option.map_some,
      Option.getD_some, List.length_append, length_dword, hbegun]
    omega
  unfold Channel.ioctl
  split
  · exact hdone _
  split
  · exact hforward _ _ (Nat.le_add_right 1 17)
  split
  · exact hdone _
  split
  · exact hforward _ _ (Nat.le_add_right 2 16)
  split
  · exact hforward _ _ (Nat.le_refl 18)
  split
  · exact hdone _
  · exact hdone _

/-- The thread inside gets on with its work, unless nobody is inside or it waits for a reply. -/
theorem kernelStep_cases (c : Channel) (size : WinSize) (stale : List UInt8) :
    (c.kernelStep size stale).work < c.work ∨ c.kernelStep size stale = c ∧
      (c.inside = none ∨ ∃ p n, c.inside = some ⟨p, .reply n⟩ ∧ c.toKernel = []) := by
  unfold Channel.kernelStep
  split
  · next hinside => exact .inr ⟨rfl, .inl hinside⟩
  · next p request data hinside => exact .inl (work_ioctl hinside size)
  · next p size' hinside =>
    refine .inl ?_
    simp only [Channel.work, Channel.goTo, hinside, Option.map_some, Option.getD_some,
      List.length_append, length_winSize, Stage.work]
    omega
  · next p n hinside =>
    split
    · next hpipe => exact .inr ⟨rfl, .inr ⟨p, n, hinside, hpipe⟩⟩
    · refine .inl ?_
      simp only [Channel.work, Channel.readReply, Channel.goTo, hinside, Option.map_some,
        Option.getD_some, Stage.work]
      omega
  · next p ret hinside =>
    refine .inl ?_
    simp only [Channel.work, hinside, Option.map_none, Option.map_some, Option.getD_none,
      Option.getD_some, Stage.work]
    omega

theorem length_drop_lt {size : Nat} {pipe : List UInt8} (hsize : 0 < size) (h : pipe ≠ []) :
    (pipe.drop size).length < pipe.length := by
  have hlength := List.length_pos_of_ne_nil h
  rw [List.length_drop]
  omega

/-- The console process gets on with its work, unless it finds nothing to read. -/
theorem consoleStep_cases (c : Channel) (width top bottom : BitVec 16) (stale : List UInt8) :
    (c.consoleStep width top bottom stale).work < c.work ∨
      c.consoleStep width top bottom stale = c ∧ c.console ≠ .replying ∧ c.toConsole = [] := by
  unfold Channel.consoleStep
  split
  · next hphase =>
    split
    · next hpipe => exact .inr ⟨rfl, by simp [hphase], hpipe⟩
    · next hpipe =>
      refine .inl ?_
      have hlt : (c.toConsole.drop dword.size).length < c.toConsole.length :=
        length_drop_lt (by decide) hpipe
      unfold Channel.readRequest
      simp only [Channel.work, hphase]
      split_ifs <;> simp only [ConsolePhase.work] <;> omega
  · next hphase =>
    refine .inl ?_
    simp only [Channel.work, Channel.writeReply, hphase, ConsolePhase.work]
    omega
  · next hphase =>
    split
    · next hpipe => exact .inr ⟨rfl, by simp [hphase], hpipe⟩
    · next hpipe =>
      refine .inl ?_
      have hlt : (c.toConsole.drop WinSize.codec.size).length < c.toConsole.length :=
        length_drop_lt (by decide) hpipe
      simp only [Channel.work, Channel.readPayload, hphase, ConsolePhase.work]
      omega

/-- Where neither side has anything to do, there is nothing left to do. -/
theorem drained_of_sync {c : Channel} {rest : List Request} (h : Sync c rest)
    (hkernel : c.inside = none ∨ ∃ p n, c.inside = some ⟨p, .reply n⟩ ∧ c.toKernel = [])
    (hphase : c.console ≠ .replying) (hpipe : c.toConsole = []) : Drained c := by
  have hinside : c.inside = none := by
    rcases hkernel with hnone | ⟨p, n, hreply, hnone⟩
    · exact hnone
    · rcases (inStep_of_sync h).served p n hreply hnone with hreplying | hmore
      · exact absurd hreplying hphase
      · exact absurd hpipe hmore
  have howed : owed c.inside = [] := by rw [hinside]; rfl
  have hrest : rest = [] := by
    by_contra hne
    obtain ⟨r, rest', rfl⟩ := List.exists_cons_of_ne_nil hne
    exact h.aligned.toConsole_ne_nil howed hphase hpipe
  subst hrest
  refine ⟨hinside, hpipe, ?_, ?_, ?_⟩
  · cases hconsole : c.console with
    | idle => rfl
    | replying => exact absurd hconsole hphase
    | payload =>
      obtain ⟨_, _, hcons, _⟩ := h.aligned.payload hconsole
      cases hcons
  · rw [h.aligned.issued_eq, List.append_nil]
  · intro p n hissued
    obtain ⟨size, hreceived⟩ := h.logged.answered (by simp [hinside]) hissued
    exact ⟨size, (h.logged.received _ hreceived).1, hreceived⟩

theorem Drained.turn_eq {c : Channel} (h : Drained c) (t : Turn) : c.turn t = c := by
  have hkernel : c.kernelStep t.size t.kernelStale = c := by
    rw [Channel.kernelStep, h.outside]
  rw [Channel.turn, hkernel, Channel.consoleStep, h.console]
  exact if_pos h.toConsole

theorem issued_kernelStep (c : Channel) (size : WinSize) (stale : List UInt8) :
    c.issued <+: (c.kernelStep size stale).issued := by
  unfold Channel.kernelStep
  split
  · exact List.prefix_rfl
  · unfold Channel.ioctl
    split_ifs <;> first | exact List.prefix_rfl | exact List.prefix_append _ _
  · exact List.prefix_rfl
  · split <;> exact List.prefix_rfl
  · exact List.prefix_rfl

theorem issued_consoleStep (c : Channel) (width top bottom : BitVec 16) (stale : List UInt8) :
    (c.consoleStep width top bottom stale).issued = c.issued := by
  unfold Channel.consoleStep
  split
  · unfold Channel.readRequest
    dsimp only
    split_ifs <;> rfl
  · rfl
  · split <;> rfl

theorem issued_turn (c : Channel) (t : Turn) : c.issued <+: (c.turn t).issued := by
  rw [Channel.turn, issued_consoleStep]
  exact issued_kernelStep c t.size t.kernelStale

theorem issued_foldl_turn (c : Channel) (turns : List Turn) :
    c.issued <+: (turns.foldl Channel.turn c).issued := by
  induction turns generalizing c with
  | nil => exact List.prefix_rfl
  | cons t turns ih => exact (issued_turn c t).trans (ih (c.turn t))

/-- The thread that has just entered issues its request first. -/
theorem continues_foldl_turn (c : Channel) {turns : List Turn} (hturns : turns ≠ []) :
    Continues c (turns.foldl Channel.turn c) where
  issued := issued_foldl_turn c turns
  entered := by
    intro p data hinside
    obtain ⟨t, turns, rfl⟩ := List.exists_cons_of_ne_nil hturns
    have hfirst : (c.turn t).issued = c.issued ++ [(p, getSize)] := by
      rw [Channel.turn, issued_consoleStep, Channel.kernelStep, hinside]
      rfl
    obtain ⟨later, hlater⟩ := issued_foldl_turn (c.turn t) turns
    rw [List.foldl_cons, ← hlater, hfirst, List.append_assoc, List.getElem?_append_right
      (Nat.le_refl _), Nat.sub_self]
    rfl

theorem settles_of_sync {c : Channel} {rest : List Request} (h : Sync c rest) : Settles c := by
  refine ⟨c.work + 1, fun turns hlength ↦ ?_⟩
  have hstep : ∀ (d : Channel) (t : Turn), (∃ rest, Sync d rest) →
      ∃ rest, Sync (d.turn t) rest := by
    rintro d t ⟨rest, hd⟩
    obtain ⟨rest', hd'⟩ := sync_kernelStep hd t.size t.kernelStale
    exact sync_consoleStep hd' t.width t.top t.bottom t.consoleStale
  constructor
  · refine continues_foldl_turn c ?_
    rintro rfl
    cases hlength
  · refine foldl_done_of_measure Channel.work hstep ?_ ?_ ⟨rest, h⟩ hlength
    · rintro d t ⟨rest, hd⟩
      have hconsole := consoleStep_cases (d.kernelStep t.size t.kernelStale) t.width t.top t.bottom
        t.consoleStale
      rcases kernelStep_cases d t.size t.kernelStale with hlt | ⟨hsame, hkernel⟩
      · refine .inl ?_
        rcases hconsole with hlt' | ⟨hsame', _⟩
        · exact Nat.lt_trans hlt' hlt
        · rw [Channel.turn, hsame']
          exact hlt
      · rw [hsame] at hconsole
        rcases hconsole with hlt | ⟨_, hphase, hpipe⟩
        · refine .inl ?_
          rw [Channel.turn, hsame]
          exact hlt
        · exact .inr (drained_of_sync hd hkernel hphase hpipe)
    · intro d t hd
      rw [hd.turn_eq t]
      exact hd

/-! ## Runs -/

/-- Whatever processes call `ioctl` on the console, with whatever requests, and however the
kernel's and the console's pipe operations interleave, the two ends stay in step; and from every
point of it, what is under way comes to an end, with all requests decoded and all callers of
`TIOCGWINSZ` answered. -/
theorem trail_inStep (as : List Channel.Action) :
    ∀ c ∈ trail Channel.step Channel.start as, InStep c ∧ Settles c := by
  intro c hc
  obtain ⟨rest, h⟩ := @trail_invariant _ _ Channel.step (fun c ↦ ∃ rest, Sync c rest)
    (fun _ ↦ True) (fun c a h _ ↦ sync_step h a) Channel.start ⟨[], sync_start⟩ as
    (fun _ _ ↦ trivial) c hc
  exact ⟨inStep_of_sync h, settles_of_sync h⟩

/-- A process asks for the size, and the console has just found its request. -/
def requested : List Channel.Action :=
  [.enter 2 TIOCGWINSZ 0#32, .kernel ⟨0#16, 0#16, 0#16, 0#16⟩ [], .console 80#16 0#16 24#16 []]

theorem trail_inStep_requested :
    InStep (requested.foldl Channel.step Channel.start) ∧
      ∃ n, ∀ turns : List Turn, n ≤ turns.length →
        let c := turns.foldl Channel.turn (requested.foldl Channel.step Channel.start)
        c.decoded[0]? = some getSize ∧
          ∃ size, (0, size) ∈ c.replies ∧ ⟨2, 0, size⟩ ∈ c.received := by
  obtain ⟨hin, n, hsettles⟩ :=
    trail_inStep requested _ (foldl_mem_trail Channel.step Channel.start requested)
  refine ⟨hin, n, fun turns hturns ↦ ?_⟩
  obtain ⟨⟨⟨later, hissued⟩, _⟩, hdrained⟩ := hsettles turns hturns
  have hfirst : (turns.foldl Channel.turn (requested.foldl Channel.step Channel.start)).issued[0]? =
      some (2, getSize) := by
    rw [← hissued]
    rfl
  refine ⟨?_, hdrained.served 2 0 hfirst⟩
  show (turns.foldl Channel.turn _).decoded[0]? = _
  rw [hdrained.decoded, List.getElem?_map, hfirst]
  rfl

example :
    let size : WinSize := ⟨50#16, 132#16, 0#16, 0#16⟩
    let run : List Channel.Action :=
      [.enter 1 TIOCSWINSZ 0#32, .kernel size [], .console 80#16 0#16 24#16 [], .kernel size [],
        .kernel size [], .enter 2 TIOCGWINSZ 0#32, .kernel size [], .console 80#16 0#16 24#16 [],
        .console 80#16 0#16 24#16 [], .console 80#16 0#16 24#16 [], .kernel size []]
    (run.foldl Channel.step Channel.start).decoded = [setSize size, getSize] ∧
      (run.foldl Channel.step Channel.start).received.map Received.size =
        [⟨25#16, 80#16, 0#16, 0#16⟩] := by
  decide +kernel

end Keow.Console
