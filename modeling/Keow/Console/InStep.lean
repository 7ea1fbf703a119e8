import Keow.Base.Run
import Keow.Console.Ioctl
import Mathlib.Data.List.Nodup

/-!
# The two ends stay in step

Over every interleaving of the callers and the console process: what is in the pipe to the
console are the requests it has not decoded, cut off where the caller inside has still to write;
and the pipe back holds at most the one reply that the caller inside is waiting for.
-/

namespace Keow.Console

open Keow.Base Keow.Kernel

/-! ## Reading from a byte stream -/

/-- A read that finds a whole value takes exactly that value. -/
theorem decode_readInto {α : Type} (codec : Codec α) (a : α) (pipe stale : List UInt8) :
    codec.decode (readInto codec.size stale (codec.encode a ++ pipe)) = a := by
  have htake : (codec.encode a ++ pipe).take codec.size = codec.encode a := by
    rw [List.take_append_of_le_length (by simp), List.take_of_length_le (by simp)]
  rw [readInto, htake, codec.decode_encode]

theorem drop_encode {α : Type} (codec : Codec α) (a : α) (pipe : List UInt8) :
    (codec.encode a ++ pipe).drop codec.size = pipe := by
  rw [List.drop_append_of_le_length (by simp), List.drop_of_length_le (by simp), List.nil_append]

/-- What is missing at the end of a stream is not missing at its head. -/
theorem exists_of_append_eq {x y a b : List UInt8} (h : x ++ y = a ++ b)
    (hle : y.length ≤ b.length) : ∃ x', x = a ++ x' ∧ x' ++ y = b := by
  rcases List.append_eq_append_iff.mp h with ⟨a', rfl, hy⟩ | ⟨x', hx, hb⟩
  · have hlength := congrArg List.length hy
    rw [List.length_append] at hlength
    have hnil : a' = [] := List.length_eq_zero_iff.mp (by omega)
    subst hnil
    exact ⟨[], by simp, by simpa using hy⟩
  · exact ⟨x', hx, hb.symm⟩

theorem length_dword (code : DWORD) : (dword.encode code).length = 4 := dword.length_encode code

theorem length_winSize (size : WinSize) : (WinSize.codec.encode size).length = 8 :=
  WinSize.codec.length_encode size

/-- The bytes of several requests. -/
def stream (rs : List Request) : List UInt8 := rs.flatMap Request.bytes

@[simp] theorem stream_nil : stream [] = [] := rfl

@[simp] theorem stream_cons (r : Request) (rs : List Request) :
    stream (r :: rs) = dword.encode r.code ++ (r.tail ++ stream rs) := by
  simp [stream, Request.bytes]

@[simp] theorem stream_append (rs rs' : List Request) :
    stream (rs ++ rs') = stream rs ++ stream rs' := List.flatMap_append

/-- `TIOCSWINSZ` is the request with a window size behind it. -/
def Request.Formed (r : Request) : Prop := r.payload.isSome ↔ r.code = TIOCSWINSZ

/-- The `TIOCGWINSZ` request. -/
def getSize : Request := ⟨TIOCGWINSZ, none⟩

/-- The `TIOCSWINSZ` request. -/
def setSize (size : WinSize) : Request := ⟨TIOCSWINSZ, some size⟩

/-- A stream that ends in a window size is at least that long. -/
theorem length_le_stream (before : List Request) (size : WinSize) :
    (WinSize.codec.encode size).length ≤ (stream (before ++ [setSize size])).length := by
  rw [stream_append, List.length_append, stream_cons]
  simp [setSize, Request.tail]
  omega

theorem formed_bare {code : DWORD} (h : code ≠ TIOCSWINSZ) : Request.Formed ⟨code, none⟩ := by
  simp [Request.Formed, h]

theorem formed_setSize (size : WinSize) : (setSize size).Formed := by
  simp [Request.Formed, setSize]

/-- A request without the code of `TIOCSWINSZ` is its code. -/
theorem Request.Formed.bare {r : Request} (h : r.Formed) (hcode : r.code ≠ TIOCSWINSZ) :
    r = ⟨r.code, none⟩ := by
  cases r with
  | mk code payload =>
    cases payload with
    | none => rfl
    | some size => exact absurd (h.mp rfl) hcode

theorem Request.Formed.eq_setSize {r : Request} (h : r.Formed) (hcode : r.code = TIOCSWINSZ) :
    ∃ size, r = setSize size := by
  cases r with
  | mk code payload =>
    obtain rfl : code = TIOCSWINSZ := hcode
    obtain ⟨size, rfl⟩ := Option.isSome_iff_exists.mp (h.mpr rfl)
    exact ⟨size, rfl⟩

/-! ## The pipe to the console -/

/-- The bytes of the last request that the caller inside has still to write. -/
def owed : Option Inside → List UInt8
  | some ⟨_, .payload size⟩ => WinSize.codec.encode size
  | _ => []

/-- The bytes that the console has taken of a request it has not decoded in full. -/
def taken : ConsolePhase → List UInt8
  | .payload => dword.encode TIOCSWINSZ
  | _ => []

/-- The pipe to the console stands at the requests `rest`, those issued but not decoded. -/
structure Aligned (c : Channel) (rest : List Request) : Prop where
  issued_eq : c.issued.map Prod.snd = c.decoded ++ rest
  bytes_eq : taken c.console ++ c.toConsole ++ owed c.inside = stream rest
  formed : ∀ r ∈ rest, r.Formed
  last : ∀ p size, c.inside = some ⟨p, .payload size⟩ → ∃ before, rest = before ++ [setSize size]

/-- Either nothing is owed, or the payload of the last request. -/
theorem Aligned.owed_cases {c : Channel} {rest : List Request} (h : Aligned c rest) :
    owed c.inside = [] ∨
      ∃ before size, rest = before ++ [setSize size] ∧
        owed c.inside = WinSize.codec.encode size := by
  unfold owed
  split
  · next p size hinside =>
    obtain ⟨before, hbefore⟩ := h.last p size hinside
    exact .inr ⟨before, size, hbefore, rfl⟩
  · exact .inl rfl

/-- What is owed lies past the code of the next request. -/
theorem Aligned.owed_le {c : Channel} {r : Request} {rest : List Request}
    (h : Aligned c (r :: rest)) : (owed c.inside).length ≤ (r.tail ++ stream rest).length := by
  rcases h.owed_cases with hnone | ⟨before, size, hbefore, hsome⟩
  · rw [hnone]
    exact Nat.zero_le _
  · rw [hsome, List.length_append]
    cases before with
    | nil =>
      obtain ⟨rfl, _⟩ := List.cons_eq_cons.mp hbefore
      exact Nat.le_add_right _ _
    | cons b before =>
      rw [List.cons_append] at hbefore
      obtain ⟨_, rfl⟩ := List.cons_eq_cons.mp hbefore
      exact Nat.le_trans (length_le_stream before size) (Nat.le_add_left _ _)

/-- The console in its main loop starts at the code of the next request. -/
theorem Aligned.header {c : Channel} {rest : List Request} (h : Aligned c rest)
    (hidle : taken c.console = []) (hpipe : c.toConsole ≠ []) :
    ∃ r rest' pipe, rest = r :: rest' ∧ c.toConsole = dword.encode r.code ++ pipe ∧
      pipe ++ owed c.inside = r.tail ++ stream rest' := by
  have hbytes := h.bytes_eq
  rw [hidle, List.nil_append] at hbytes
  cases rest with
  | nil => exact absurd (List.append_eq_nil_iff.mp hbytes).1 hpipe
  | cons r rest' =>
    rw [stream_cons] at hbytes
    obtain ⟨pipe, hpipe, htail⟩ := exists_of_append_eq hbytes h.owed_le
    exact ⟨r, rest', pipe, rfl, hpipe, htail⟩

/-- The console past the code of `TIOCSWINSZ` stands before a window size. -/
theorem Aligned.payload {c : Channel} {rest : List Request} (h : Aligned c rest)
    (hphase : c.console = .payload) :
    ∃ size rest', rest = setSize size :: rest' ∧
      c.toConsole ++ owed c.inside = WinSize.codec.encode size ++ stream rest' := by
  have hbytes := h.bytes_eq
  rw [hphase, taken] at hbytes
  cases rest with
  | nil =>
    have hlength := congrArg List.length hbytes
    simp only [List.length_append, length_dword, stream_nil, List.length_nil] at hlength
    omega
  | cons r rest' =>
    rw [stream_cons, List.append_assoc] at hbytes
    obtain ⟨hcode, htail⟩ := List.append_inj hbytes (by rw [length_dword, length_dword])
    have hcode' := congrArg dword.decode hcode
    rw [Codec.decode_encode_nil, Codec.decode_encode_nil] at hcode'
    obtain ⟨size, rfl⟩ := (h.formed r List.mem_cons_self).eq_setSize hcode'.symm
    exact ⟨size, rest', rfl, htail⟩

/-- The window size is in the pipe as a whole once anything is. -/
theorem Aligned.payload_whole {c : Channel} {rest : List Request} (h : Aligned c rest)
    (hphase : c.console = .payload) (hpipe : c.toConsole ≠ []) :
    ∃ size rest' pipe, rest = setSize size :: rest' ∧
      c.toConsole = WinSize.codec.encode size ++ pipe ∧
      pipe ++ owed c.inside = stream rest' := by
  obtain ⟨size, rest', rfl, hbytes⟩ := h.payload hphase
  have hle : (owed c.inside).length ≤ (stream rest').length := by
    rcases h.owed_cases with hnone | ⟨before, size', hbefore, hsome⟩
    · rw [hnone]
      exact Nat.zero_le _
    · rw [hsome]
      cases before with
      | nil =>
        -- then the pipe would be empty
        obtain ⟨_, rfl⟩ := List.cons_eq_cons.mp hbefore
        have hlength := congrArg List.length hbytes
        rw [hsome] at hlength
        simp only [List.length_append, length_winSize, stream_nil, List.length_nil] at hlength
        exact absurd (List.length_eq_zero_iff.mp (by omega)) hpipe
      | cons b before =>
        rw [List.cons_append] at hbefore
        obtain ⟨_, rfl⟩ := List.cons_eq_cons.mp hbefore
        exact length_le_stream before size'
  obtain ⟨pipe, hpipe, hrest⟩ := exists_of_append_eq hbytes hle
  exact ⟨size, rest', pipe, rfl, hpipe, hrest⟩

/-! ## The pipe back -/

/-- The exchange of a `TIOCGWINSZ` with its reply: none is under way, or one has been issued as
the last request, is being handled, or has been replied to. -/
inductive Exchange (c : Channel) (rest : List Request) : Prop where
  | quiet (inside : ∀ p n, c.inside ≠ some ⟨p, .reply n⟩) (others : ∀ r ∈ rest, r.code ≠ TIOCGWINSZ)
      (pipe : c.toKernel = []) (console : c.console ≠ .replying)
  | asked (p : Nat) (before : List Request)
      (inside : c.inside = some ⟨p, .reply (c.decoded.length + before.length)⟩)
      (rest_eq : rest = before ++ [getSize]) (others : ∀ r ∈ before, r.code ≠ TIOCGWINSZ)
      (pipe : c.toKernel = []) (console : c.console ≠ .replying)
  | handled (p n : Nat) (inside : c.inside = some ⟨p, .reply n⟩) (rest_eq : rest = [])
      (number : c.decoded.length = n + 1) (pipe : c.toKernel = []) (console : c.console = .replying)
  | replied (p n : Nat) (size : WinSize) (inside : c.inside = some ⟨p, .reply n⟩)
      (rest_eq : rest = []) (pipe : c.toKernel = WinSize.codec.encode size)
      (logged : (n, size) ∈ c.replies) (console : c.console = .idle)

/-- The logs agree: a reply for each request at most, a caller has received what was replied to
its own request, and one that has not received its reply waits for it. -/
structure Logged (c : Channel) : Prop where
  number_lt : ∀ x ∈ c.replies, x.1 < c.decoded.length
  replying : c.console = .replying → ∀ x ∈ c.replies, x.1 + 1 < c.decoded.length
  nodup : (c.replies.map Prod.fst).Nodup
  owner : ∀ p n, c.inside = some ⟨p, .reply n⟩ → c.issued[n]? = some (p, getSize)
  received : ∀ x ∈ c.received,
    (x.number, x.size) ∈ c.replies ∧ c.issued[x.number]? = some (x.caller, getSize)
  waiting : ∀ p n, c.issued[n]? = some (p, getSize) →
    (∃ size, ⟨p, n, size⟩ ∈ c.received) ∨ c.inside = some ⟨p, .reply n⟩

/-- The channel with `rest` still to be decoded. -/
structure Sync (c : Channel) (rest : List Request) : Prop where
  aligned : Aligned c rest
  exchange : Exchange c rest
  logged : Logged c

theorem sync_start : Sync Channel.start [] where
  aligned := ⟨rfl, rfl, by simp, by simp [Channel.start]⟩
  exchange := .quiet (by simp [Channel.start]) (by simp) rfl (by simp [Channel.start])
  logged := ⟨by simp [Channel.start], by simp [Channel.start], List.nodup_nil,
    by simp [Channel.start], by simp [Channel.start], by simp [Channel.start]⟩

/-! ## Steps of the kernel -/

/-- The caller owes nothing and waits for nothing. -/
def Silent : Option Inside → Prop
  | some ⟨_, .payload _⟩ => False
  | some ⟨_, .reply _⟩ => False
  | _ => True

theorem Silent.owed {i : Option Inside} (h : Silent i) : owed i = [] := by
  cases i with
  | none => rfl
  | some inside =>
    obtain ⟨p, stage⟩ := inside
    cases stage with
    | payload size => exact h.elim
    | reply n => rfl
    | begun request data => rfl
    | done ret => rfl

theorem Silent.ne_payload {i : Option Inside} (h : Silent i) (p : Nat) (size : WinSize) :
    i ≠ some ⟨p, .payload size⟩ := by
  rintro rfl
  exact h

theorem Silent.ne_reply {i : Option Inside} (h : Silent i) (p n : Nat) :
    i ≠ some ⟨p, .reply n⟩ := by
  rintro rfl
  exact h

/-- While no caller waits for a reply, no `TIOCGWINSZ` is under way. -/
theorem Exchange.of_ne_reply {c : Channel} {rest : List Request} (h : Exchange c rest)
    (hs : ∀ p n, c.inside ≠ some ⟨p, .reply n⟩) :
    (∀ r ∈ rest, r.code ≠ TIOCGWINSZ) ∧ c.toKernel = [] ∧ c.console ≠ .replying := by
  cases h with
  | quiet _ hothers hpipe hconsole => exact ⟨hothers, hpipe, hconsole⟩
  | asked p _ hinside => exact absurd hinside (hs p _)
  | handled p _ hinside => exact absurd hinside (hs p _)
  | replied p _ _ hinside => exact absurd hinside (hs p _)

/-- While no caller waits for a reply, every `TIOCGWINSZ` has been answered. -/
theorem Logged.answered {c : Channel} (h : Logged c) (hs : ∀ p n, c.inside ≠ some ⟨p, .reply n⟩)
    {p n : Nat} (hissued : c.issued[n]? = some (p, getSize)) :
    ∃ size, ⟨p, n, size⟩ ∈ c.received :=
  (h.waiting p n hissued).resolve_right (hs p n)

/-- A caller that is silent before and after touches no pipe. -/
theorem sync_move {c : Channel} {rest : List Request} (h : Sync c rest) (hs : Silent c.inside)
    {i : Option Inside} (hi : Silent i) : Sync { c with inside := i } rest where
  aligned := by
    have hbytes := h.aligned.bytes_eq
    rw [hs.owed] at hbytes
    refine ⟨h.aligned.issued_eq, ?_, h.aligned.formed, ?_⟩
    · rw [hi.owed]
      exact hbytes
    · exact fun p size hinside ↦ absurd hinside (hi.ne_payload p size)
  exchange := by
    obtain ⟨hothers, hpipe, hconsole⟩ := h.exchange.of_ne_reply hs.ne_reply
    exact .quiet (hi.ne_reply) hothers hpipe hconsole
  logged := ⟨h.logged.number_lt, h.logged.replying, h.logged.nodup,
    fun p n hinside ↦ absurd hinside (hi.ne_reply p n), h.logged.received,
    fun _ _ hissued ↦ .inl (h.logged.answered hs.ne_reply hissued)⟩

theorem aligned_forward {c : Channel} {rest : List Request} (h : Aligned c rest)
    (hs : Silent c.inside) (p : Nat) {r : Request} (hr : r.Formed) {stage : Stage}
    (howed : owed (some ⟨p, stage⟩) = r.tail)
    (hlast : ∀ size, stage = .payload size → r = setSize size) :
    Aligned (c.forward p r stage) (rest ++ [r]) where
  issued_eq := by
    show (c.issued ++ [(p, r)]).map Prod.snd = c.decoded ++ (rest ++ [r])
    rw [List.map_append, h.issued_eq, List.append_assoc]
    rfl
  bytes_eq := by
    show taken c.console ++ (c.toConsole ++ dword.encode r.code) ++ owed (some ⟨p, stage⟩) = _
    have hbytes := h.bytes_eq
    rw [hs.owed, List.append_nil] at hbytes
    rw [howed, stream_append, ← hbytes]
    simp
  formed := by
    intro r' hr'
    rcases List.mem_append.mp hr' with hr' | hr'
    · exact h.formed r' hr'
    · obtain rfl := List.mem_singleton.mp hr'
      exact hr
  last := by
    intro p' size hinside
    have hstage : stage = .payload size := by
      cases hinside
      rfl
    exact ⟨rest, by rw [hlast size hstage]⟩

/-- The logs when a request is issued. -/
theorem logged_forward {c : Channel} (h : Logged c) (hs : Silent c.inside) (p : Nat) {r : Request}
    {stage : Stage} (howner : ∀ n, stage = .reply n → n = c.issued.length ∧ r = getSize)
    (hwaits : r = getSize → stage = .reply c.issued.length) :
    Logged (c.forward p r stage) := by
  refine ⟨h.number_lt, h.replying, h.nodup, ?_, ?_, ?_⟩
  · intro p' n hinside
    obtain ⟨rfl, hstage⟩ : p = p' ∧ stage = .reply n := by
      cases hinside
      exact ⟨rfl, rfl⟩
    obtain ⟨rfl, rfl⟩ := howner n hstage
    exact List.getElem?_concat_length
  · intro x hx
    obtain ⟨hreply, hissued⟩ := h.received x hx
    refine ⟨hreply, ?_⟩
    show (c.issued ++ [(p, r)])[x.number]? = _
    rw [List.getElem?_append_left (List.getElem?_eq_some_iff.mp hissued).1, hissued]
  · intro p' n hissued
    change (c.issued ++ [(p, r)])[n]? = some (p', getSize) at hissued
    rcases Nat.lt_or_ge n c.issued.length with hlt | hge
    · rw [List.getElem?_append_left hlt] at hissued
      exact .inl (h.answered hs.ne_reply hissued)
    · -- the request issued here
      rw [List.getElem?_append_right hge, List.getElem?_singleton] at hissued
      split at hissued
      · next hzero =>
        obtain ⟨rfl, rfl⟩ : p = p' ∧ r = getSize := by simpa using hissued
        obtain rfl : n = c.issued.length := by omega
        exact .inr (by rw [hwaits rfl]; rfl)
      · cases hissued

/-- A request after which the caller does not wait leaves the exchange quiet. -/
theorem exchange_forward {c : Channel} {rest : List Request} (h : Exchange c rest)
    (hs : Silent c.inside) (p : Nat) {r : Request} (hget : r.code ≠ TIOCGWINSZ) {stage : Stage}
    (hstage : ∀ n, stage ≠ .reply n) : Exchange (c.forward p r stage) (rest ++ [r]) := by
  obtain ⟨hothers, hpipe, hconsole⟩ := h.of_ne_reply hs.ne_reply
  refine .quiet ?_ ?_ hpipe hconsole
  · intro p' n hinside
    cases hinside
    exact hstage n rfl
  · intro r' hr
    rcases List.mem_append.mp hr with hr | hr
    · exact hothers r' hr
    · obtain rfl := List.mem_singleton.mp hr
      exact hget

/-- A request that expects no answer. -/
theorem sync_forward_bare {c : Channel} {rest : List Request} (h : Sync c rest)
    (hs : Silent c.inside) (p : Nat) {code : DWORD} (hset : code ≠ TIOCSWINSZ)
    (hget : code ≠ TIOCGWINSZ) (ret : DWORD) :
    Sync (c.forward p ⟨code, none⟩ (.done ret)) (rest ++ [⟨code, none⟩]) where
  aligned := aligned_forward h.aligned hs p (formed_bare hset) rfl (by simp)
  exchange := exchange_forward h.exchange hs p hget (by simp)
  logged := logged_forward h.logged hs p (by simp) fun hr ↦ absurd (congrArg Request.code hr) hget

/-- `TIOCGWINSZ` begins an exchange. -/
theorem sync_forward_getSize {c : Channel} {rest : List Request} (h : Sync c rest)
    (hs : Silent c.inside) (p : Nat) :
    Sync (c.forward p getSize (.reply c.issued.length)) (rest ++ [getSize]) where
  aligned := aligned_forward h.aligned hs p (formed_bare (by decide)) rfl (by simp)
  exchange := by
    obtain ⟨hothers, hpipe, hconsole⟩ := h.exchange.of_ne_reply hs.ne_reply
    have hnumber : c.issued.length = c.decoded.length + rest.length := by
      rw [← List.length_append, ← h.aligned.issued_eq, List.length_map]
    refine .asked p rest ?_ rfl hothers hpipe hconsole
    show some _ = some _
    rw [hnumber]
    rfl
  logged := by
    refine logged_forward h.logged hs p ?_ fun _ ↦ rfl
    intro n hn
    cases hn
    exact ⟨rfl, rfl⟩

/-- `TIOCSWINSZ` leaves its payload owed. -/
theorem sync_forward_setSize {c : Channel} {rest : List Request} (h : Sync c rest)
    (hs : Silent c.inside) (p : Nat) (size : WinSize) :
    Sync (c.forward p (setSize size) (.payload size)) (rest ++ [setSize size]) where
  aligned := by
    apply aligned_forward h.aligned hs p (formed_setSize size) rfl
    intro size' hsize
    cases hsize
    rfl
  exchange := exchange_forward h.exchange hs p (by change TIOCSWINSZ ≠ TIOCGWINSZ; decide) (by simp)
  logged := logged_forward h.logged hs p (by simp) fun hr ↦ by cases congrArg Request.payload hr

/-- The `switch` of `DevConsole::ioctl`, case by case. -/
theorem sync_ioctl {c : Channel} {rest : List Request} (h : Sync c rest) (hs : Silent c.inside)
    (p : Nat) (request data : DWORD) (size : WinSize) :
    ∃ rest', Sync (c.ioctl p request data size) rest' := by
  have hdone : ∀ ret, ∃ rest', Sync (c.goTo p (.done ret)) rest' :=
    fun ret ↦ ⟨rest, sync_move h hs trivial⟩
  unfold Channel.ioctl
  split
  · exact hdone _
  split
  · next hset =>
    refine ⟨_, sync_forward_bare h hs p ?_ ?_ _⟩
    · rcases hset with rfl | rfl | rfl <;> decide
    · rcases hset with rfl | rfl | rfl <;> decide
  split
  · exact hdone _
  split
  · next hget =>
    subst hget
    exact ⟨_, sync_forward_getSize h hs p⟩
  split
  · next hset =>
    subst hset
    exact ⟨_, sync_forward_setSize h hs p size⟩
  split
  · exact hdone _
  · exact hdone _

/-- The second `WriteFile` of `TIOCSWINSZ`. -/
theorem sync_writePayload {c : Channel} {rest : List Request} (h : Sync c rest) {p : Nat}
    {size : WinSize} (hinside : c.inside = some ⟨p, .payload size⟩) :
    Sync { c.goTo p (.done 0#32) with toConsole := c.toConsole ++ WinSize.codec.encode size }
      rest where
  aligned := by
    have hbytes := h.aligned.bytes_eq
    rw [hinside] at hbytes
    refine ⟨h.aligned.issued_eq, ?_, h.aligned.formed, by simp [Channel.goTo]⟩
    rw [← hbytes]
    simp [owed, Channel.goTo]
  exchange := by
    obtain ⟨hothers, hpipe, hconsole⟩ := h.exchange.of_ne_reply (by simp [hinside])
    exact .quiet (by simp [Channel.goTo]) hothers hpipe hconsole
  logged := ⟨h.logged.number_lt, h.logged.replying, h.logged.nodup, by simp [Channel.goTo],
    h.logged.received, fun _ _ hissued ↦ .inl (h.logged.answered (by simp [hinside]) hissued)⟩

/-- The `ReadFile` of `TIOCGWINSZ` takes the reply to its own request. -/
theorem sync_readReply {c : Channel} {rest : List Request} (h : Sync c rest) {p n : Nat}
    (hinside : c.inside = some ⟨p, .reply n⟩) (hpipe : c.toKernel ≠ []) (stale : List UInt8) :
    Sync (c.readReply p n stale) rest := by
  cases h.exchange with
  | quiet hquiet => exact absurd hinside (hquiet p n)
  | asked _ _ _ _ _ hnone => exact absurd hnone hpipe
  | handled _ _ _ _ _ hnone => exact absurd hnone hpipe
  | replied p' n' size hinside' hrest hreply hlogged hconsole =>
    obtain ⟨rfl, rfl⟩ : p = p' ∧ n = n' := by
      rw [hinside] at hinside'
      cases hinside'
      exact ⟨rfl, rfl⟩
    have hread : c.readReply p n stale =
        { c.goTo p (.done 0#32) with
          toKernel := []
          received := c.received ++ [⟨p, n, size⟩] } := by
      have hdecode := decode_readInto WinSize.codec size [] stale
      have hdrop := drop_encode WinSize.codec size []
      rw [List.append_nil] at hdecode hdrop
      unfold Channel.readReply
      rw [hreply, hdecode, hdrop]
    rw [hread]
    refine ⟨?_, ?_, ?_⟩
    · have hbytes := h.aligned.bytes_eq
      rw [hinside] at hbytes
      exact ⟨h.aligned.issued_eq, hbytes, h.aligned.formed, by simp [Channel.goTo]⟩
    · subst hrest
      refine .quiet (by simp [Channel.goTo]) (by simp) rfl ?_
      show c.console ≠ .replying
      rw [hconsole]
      decide
    · refine ⟨h.logged.number_lt, h.logged.replying, h.logged.nodup, by simp [Channel.goTo], ?_, ?_⟩
      · intro x hx
        rcases List.mem_append.mp hx with hx | hx
        · exact h.logged.received x hx
        · obtain rfl := List.mem_singleton.mp hx
          exact ⟨hlogged, h.logged.owner p n hinside⟩
      · intro p' n' hissued
        rcases h.logged.waiting p' n' hissued with ⟨size', hreceived⟩ | hwaits
        · exact .inl ⟨size', List.mem_append_left _ hreceived⟩
        · rw [hinside] at hwaits
          cases hwaits
          exact .inl ⟨size, List.mem_append_right _ (List.mem_singleton.mpr rfl)⟩

theorem sync_kernelStep {c : Channel} {rest : List Request} (h : Sync c rest) (size : WinSize)
    (stale : List UInt8) : ∃ rest', Sync (c.kernelStep size stale) rest' := by
  unfold Channel.kernelStep
  split
  · exact ⟨rest, h⟩
  · next p request data hinside =>
    exact sync_ioctl h (by simp [hinside, Silent]) p request data size
  · next p size' hinside => exact ⟨rest, sync_writePayload h hinside⟩
  · next p n hinside =>
    split
    · exact ⟨rest, h⟩
    · next hpipe => exact ⟨rest, sync_readReply h hinside hpipe stale⟩
  · next p ret hinside => exact ⟨rest, sync_move h (by simp [hinside, Silent]) trivial⟩

/-! ## Steps of the console process -/

/-- What `ProcessIoctlRequest` reads first is the code of the oldest request. -/
theorem readRequest_eq {c : Channel} {r : Request} {pipe : List UInt8} (stale : List UInt8)
    (hpipe : c.toConsole = dword.encode r.code ++ pipe) :
    c.readRequest stale =
      if r.code = TIOCGWINSZ then
        { c with
          toConsole := pipe, console := .replying, decoded := c.decoded ++ [⟨r.code, none⟩] }
      else if r.code = TIOCSWINSZ then { c with toConsole := pipe, console := .payload }
      else { c with toConsole := pipe, decoded := c.decoded ++ [⟨r.code, none⟩] } := by
  unfold Channel.readRequest
  rw [hpipe, decode_readInto, drop_encode]

/-- The oldest request decoded, with nothing behind its code. -/
theorem aligned_decode {c : Channel} {r : Request} {rest : List Request} {pipe : List UInt8}
    (h : Aligned c (r :: rest)) (phase : ConsolePhase) (hphase : taken phase = [])
    (hpipe : pipe ++ owed c.inside = stream rest) :
    Aligned { c with toConsole := pipe, console := phase, decoded := c.decoded ++ [r] } rest where
  issued_eq := by
    rw [h.issued_eq, List.append_assoc]
    rfl
  bytes_eq := by
    rw [hphase, ← hpipe]
    rfl
  formed := fun r' hr' ↦ h.formed r' (List.mem_cons_of_mem r hr')
  last := by
    intro p size hinside
    obtain ⟨before, hbefore⟩ := h.last p size hinside
    cases before with
    | nil =>
      -- the caller would owe bytes of `r`, which has been read as a whole
      obtain ⟨_, rfl⟩ := List.cons_eq_cons.mp hbefore
      have hlength := congrArg List.length hpipe
      rw [hinside, owed, List.length_append, length_winSize] at hlength
      simp at hlength
    | cons b before =>
      rw [List.cons_append] at hbefore
      obtain ⟨_, rfl⟩ := List.cons_eq_cons.mp hbefore
      exact ⟨before, rfl⟩

/-- Past the oldest request, if it expects no answer. -/
theorem exchange_decode {c : Channel} {r : Request} {rest : List Request} {pipe : List UInt8}
    (h : Exchange c (r :: rest)) (hr : r.code ≠ TIOCGWINSZ) (phase : ConsolePhase)
    (hphase : phase ≠ .replying) :
    Exchange { c with toConsole := pipe, console := phase, decoded := c.decoded ++ [r] } rest := by
  cases h with
  | quiet hinside hothers hpipe =>
    exact .quiet hinside (fun r' hr' ↦ hothers r' (List.mem_cons_of_mem r hr')) hpipe hphase
  | asked p before hinside hrest hothers hpipe =>
    cases before with
    | nil =>
      obtain ⟨rfl, _⟩ := List.cons_eq_cons.mp hrest
      exact absurd rfl hr
    | cons b before =>
      rw [List.cons_append] at hrest
      obtain ⟨_, hrest⟩ := List.cons_eq_cons.mp hrest
      refine .asked p before ?_ hrest (fun r' hr' ↦ hothers r' (List.mem_cons_of_mem b hr')) hpipe
        hphase
      rw [hinside, List.length_append, List.length_cons, List.length_singleton]
      congr 3
      omega
  | handled _ _ _ hrest => cases hrest
  | replied _ _ _ _ hrest => cases hrest

/-- The logs when a request has been decoded. -/
theorem logged_decode {c : Channel} (h : Logged c) (r : Request) (pipe : List UInt8)
    (phase : ConsolePhase) :
    Logged { c with toConsole := pipe, console := phase, decoded := c.decoded ++ [r] } := by
  have hlength : (c.decoded ++ [r]).length = c.decoded.length + 1 := by simp
  refine ⟨?_, ?_, h.nodup, h.owner, h.received, h.waiting⟩
  · intro x hx
    show x.1 < (c.decoded ++ [r]).length
    rw [hlength]
    exact Nat.lt_succ_of_lt (h.number_lt x hx)
  · intro _ x hx
    show x.1 + 1 < (c.decoded ++ [r]).length
    rw [hlength]
    exact Nat.succ_lt_succ (h.number_lt x hx)

/-- The code of `TIOCGWINSZ` is read where a caller waits for this very request. -/
theorem exchange_getSize {c : Channel} {rest : List Request} {pipe : List UInt8}
    (h : Exchange c (getSize :: rest)) :
    Exchange
      { c with toConsole := pipe, console := .replying, decoded := c.decoded ++ [getSize] }
      rest := by
  cases h with
  | quiet _ hothers => exact absurd rfl (hothers getSize List.mem_cons_self)
  | asked p before hinside hrest hothers hpipe =>
    cases before with
    | nil =>
      obtain ⟨_, rfl⟩ := List.cons_eq_cons.mp hrest
      exact .handled p c.decoded.length hinside rfl (by simp) hpipe rfl
    | cons b before =>
      rw [List.cons_append] at hrest
      obtain ⟨rfl, _⟩ := List.cons_eq_cons.mp hrest
      exact absurd rfl (hothers getSize List.mem_cons_self)
  | handled _ _ _ hrest => cases hrest
  | replied _ _ _ _ hrest => cases hrest

theorem sync_readRequest {c : Channel} {rest : List Request} (h : Sync c rest)
    (hidle : c.console = .idle) (hpipe : c.toConsole ≠ []) (stale : List UInt8) :
    ∃ rest', Sync (c.readRequest stale) rest' := by
  have htaken : taken c.console = [] := by
    rw [hidle]
    rfl
  obtain ⟨r, rest', pipe, rfl, hread, htail⟩ := h.aligned.header htaken hpipe
  have hformed := h.aligned.formed r List.mem_cons_self
  rw [readRequest_eq stale hread]
  by_cases hset : r.code = TIOCSWINSZ
  · -- its payload is still to be read
    rw [if_neg (by rw [hset]; decide), if_pos hset]
    refine ⟨r :: rest', ⟨h.aligned.issued_eq, ?_, h.aligned.formed, h.aligned.last⟩, ?_, ?_⟩
    · show dword.encode TIOCSWINSZ ++ pipe ++ owed c.inside = stream (r :: rest')
      rw [stream_cons, List.append_assoc, htail, hset]
    · cases h.exchange with
      | quiet hinside hothers hnone => exact .quiet hinside hothers hnone (by simp)
      | asked p before hinside hrest hothers hnone =>
        exact .asked p before hinside hrest hothers hnone (by simp)
      | handled _ _ _ hrest => cases hrest
      | replied _ _ _ _ hrest => cases hrest
    · exact ⟨h.logged.number_lt, by simp, h.logged.nodup, h.logged.owner, h.logged.received,
        h.logged.waiting⟩
  · have hbare := hformed.bare hset
    have hpipe' : pipe ++ owed c.inside = stream rest' := by
      rw [htail, hbare]
      rfl
    rw [← hbare]
    refine ⟨rest', ?_⟩
    split
    · next hget =>
      have hr : r = getSize := by rw [hbare, hget, getSize]
      subst hr
      exact ⟨aligned_decode h.aligned .replying rfl hpipe', exchange_getSize h.exchange,
        logged_decode h.logged _ _ _⟩
    · next hget =>
      exact ⟨aligned_decode h.aligned c.console htaken hpipe',
        exchange_decode h.exchange hget c.console (by simp [hidle]),
        logged_decode h.logged r pipe c.console⟩

/-- The second read of `TIOCSWINSZ` finds the window size that was issued. -/
theorem sync_readPayload {c : Channel} {rest : List Request} (h : Sync c rest)
    (hphase : c.console = .payload) (hpipe : c.toConsole ≠ []) (stale : List UInt8) :
    ∃ rest', Sync (c.readPayload stale) rest' := by
  obtain ⟨size, rest', pipe, rfl, hread, htail⟩ := h.aligned.payload_whole hphase hpipe
  have hstep : c.readPayload stale =
      { c with
        toConsole := pipe, console := .idle, decoded := c.decoded ++ [setSize size] } := by
    unfold Channel.readPayload
    rw [hread, decode_readInto, drop_encode]
    rfl
  rw [hstep]
  have hcode : (setSize size).code ≠ TIOCGWINSZ := by
    show TIOCSWINSZ ≠ TIOCGWINSZ
    decide
  exact ⟨rest', aligned_decode h.aligned .idle rfl htail,
    exchange_decode h.exchange hcode .idle (by simp), logged_decode h.logged _ _ _⟩

/-- The answer to `TIOCGWINSZ` goes to the caller that waits for it. -/
theorem sync_writeReply {c : Channel} {rest : List Request} (h : Sync c rest)
    (hphase : c.console = .replying) (width top bottom : BitVec 16) :
    Sync (c.writeReply width top bottom) rest := by
  cases h.exchange with
  | quiet _ _ _ hconsole => exact absurd hphase hconsole
  | asked _ _ _ _ _ _ hconsole => exact absurd hphase hconsole
  | replied _ _ _ _ _ _ _ hconsole =>
    rw [hphase] at hconsole
    cases hconsole
  | handled p n hinside hrest hnumber hpipe =>
    have hstep : c.writeReply width top bottom =
        { c with
          toKernel := WinSize.codec.encode ⟨bottom - top + 1#16, width, 0#16, 0#16⟩
          console := .idle
          replies := c.replies ++ [(n, ⟨bottom - top + 1#16, width, 0#16, 0#16⟩)] } := by
      unfold Channel.writeReply
      rw [hpipe, hnumber]
      rfl
    rw [hstep]
    have hfresh := h.logged.replying hphase
    refine ⟨?_, .replied p n _ hinside hrest rfl (by simp) rfl, ?_⟩
    · have hbytes := h.aligned.bytes_eq
      rw [hphase] at hbytes
      exact ⟨h.aligned.issued_eq, hbytes, h.aligned.formed, h.aligned.last⟩
    · refine ⟨?_, by simp, ?_, h.logged.owner, ?_, h.logged.waiting⟩
      · intro x hx
        rcases List.mem_append.mp hx with hx | hx
        · exact h.logged.number_lt x hx
        · obtain rfl := List.mem_singleton.mp hx
          show n < c.decoded.length
          omega
      · rw [List.map_append]
        apply List.nodup_append.mpr
        refine ⟨h.logged.nodup, by simp, ?_⟩
        intro a ha b hb
        obtain ⟨x, hx, rfl⟩ := List.mem_map.mp ha
        have hb : b = n := List.mem_singleton.mp hb
        have hlt := hfresh x hx
        omega
      · intro x hx
        obtain ⟨hreply, hissued⟩ := h.logged.received x hx
        exact ⟨List.mem_append_left _ hreply, hissued⟩

theorem sync_consoleStep {c : Channel} {rest : List Request} (h : Sync c rest)
    (width top bottom : BitVec 16) (stale : List UInt8) :
    ∃ rest', Sync (c.consoleStep width top bottom stale) rest' := by
  unfold Channel.consoleStep
  split
  · next hphase =>
    split
    · exact ⟨rest, h⟩
    · next hpipe => exact sync_readRequest h hphase hpipe stale
  · next hphase => exact ⟨rest, sync_writeReply h hphase width top bottom⟩
  · next hphase =>
    split
    · exact ⟨rest, h⟩
    · next hpipe => exact sync_readPayload h hphase hpipe stale

/-! ## What the two ends may rely on -/

/-- The two ends are at the same request. -/
structure InStep (c : Channel) : Prop where
  /-- `ProcessIoctlRequest` starts at the beginning of the oldest request. -/
  starts : c.console = .idle → c.toConsole ≠ [] →
    ∃ p r, c.issued[c.decoded.length]? = some (p, r) ∧ dword.encode r.code <+: c.toConsole
  /-- Its second read is at the payload of that request. -/
  payload : c.console = .payload →
    ∃ p size, c.issued[c.decoded.length]? = some (p, setSize size) ∧
      (c.toConsole ≠ [] → WinSize.codec.encode size <+: c.toConsole)
  /-- It decodes what was issued, in that order. -/
  decoded : c.decoded <+: c.issued.map Prod.snd
  /-- What a caller is about to read is the reply to its own request. -/
  answered : ∀ p n, c.inside = some ⟨p, .reply n⟩ → c.issued[n]? = some (p, getSize) ∧
    (c.toKernel ≠ [] → ∃ size, c.toKernel = WinSize.codec.encode size ∧ (n, size) ∈ c.replies)
  /-- What a caller has read is the one reply to its own request. -/
  received : ∀ x ∈ c.received, c.issued[x.number]? = some (x.caller, getSize) ∧
    ∀ size, (x.number, size) ∈ c.replies ↔ size = x.size
  /-- A caller that waits for its reply is not forgotten: the console process has work to do. -/
  served : ∀ p n, c.inside = some ⟨p, .reply n⟩ → c.toKernel = [] →
    c.console = .replying ∨ c.toConsole ≠ []

theorem Aligned.next {c : Channel} {r : Request} {rest : List Request}
    (h : Aligned c (r :: rest)) : ∃ p, c.issued[c.decoded.length]? = some (p, r) := by
  have hnext : (c.issued.map Prod.snd)[c.decoded.length]? = some r := by
    rw [h.issued_eq, List.getElem?_append_right (Nat.le_refl _), Nat.sub_self]
    rfl
  rw [List.getElem?_map, Option.map_eq_some_iff] at hnext
  obtain ⟨⟨p, r'⟩, hissued, rfl⟩ := hnext
  exact ⟨p, hissued⟩

/-- Requests still to be decoded are in the pipe, unless the caller has yet to write. -/
theorem Aligned.toConsole_ne_nil {c : Channel} {r : Request} {rest : List Request}
    (h : Aligned c (r :: rest)) (howed : owed c.inside = []) (hphase : c.console ≠ .replying) :
    c.toConsole ≠ [] := by
  intro hnil
  cases hconsole : c.console with
  | replying => exact hphase hconsole
  | idle =>
    have hbytes := h.bytes_eq
    rw [hconsole, howed, hnil, stream_cons] at hbytes
    have hlength := congrArg List.length hbytes
    simp only [taken, List.length_append, length_dword, List.length_nil] at hlength
    omega
  | payload =>
    obtain ⟨size, rest', _, hbytes⟩ := h.payload hconsole
    rw [hnil, howed] at hbytes
    have hlength := congrArg List.length hbytes
    simp only [List.length_append, length_winSize, List.length_nil] at hlength
    omega

theorem inStep_of_sync {c : Channel} {rest : List Request} (h : Sync c rest) : InStep c where
  starts := by
    intro hidle hpipe
    have htaken : taken c.console = [] := by
      rw [hidle]
      rfl
    obtain ⟨r, rest', pipe, rfl, hread, _⟩ := h.aligned.header htaken hpipe
    obtain ⟨p, hissued⟩ := h.aligned.next
    exact ⟨p, r, hissued, ⟨pipe, hread.symm⟩⟩
  payload := by
    intro hphase
    obtain ⟨size, rest', rfl, _⟩ := h.aligned.payload hphase
    obtain ⟨p, hissued⟩ := h.aligned.next
    refine ⟨p, size, hissued, fun hpipe ↦ ?_⟩
    obtain ⟨size', _, pipe, hrest, hread, _⟩ := h.aligned.payload_whole hphase hpipe
    obtain rfl : size = size' := by
      cases hrest
      rfl
    exact ⟨pipe, hread.symm⟩
  decoded := ⟨rest, h.aligned.issued_eq.symm⟩
  answered := by
    intro p n hinside
    refine ⟨h.logged.owner p n hinside, fun hpipe ↦ ?_⟩
    cases h.exchange with
    | quiet hquiet => exact absurd hinside (hquiet p n)
    | asked _ _ _ _ _ hnone => exact absurd hnone hpipe
    | handled _ _ _ _ _ hnone => exact absurd hnone hpipe
    | replied _ _ size hinside' _ hreply hlogged =>
      rw [hinside] at hinside'
      cases hinside'
      exact ⟨size, hreply, hlogged⟩
  received := by
    intro x hx
    obtain ⟨hreply, hissued⟩ := h.logged.received x hx
    refine ⟨hissued, fun size ↦ ⟨fun hsize ↦ ?_, fun hsize ↦ hsize ▸ hreply⟩⟩
    have hsame := List.inj_on_of_nodup_map h.logged.nodup hsize hreply rfl
    exact congrArg Prod.snd hsame
  served := by
    intro p n hinside hnone
    cases h.exchange with
    | quiet hquiet => exact absurd hinside (hquiet p n)
    | asked _ before _ hrest _ _ hconsole =>
      refine .inr ?_
      have howed : owed c.inside = [] := by
        rw [hinside]
        rfl
      obtain ⟨r, rest', hcons⟩ := List.exists_cons_of_ne_nil (l := rest) (by simp [hrest])
      have haligned := h.aligned
      rw [hcons] at haligned
      exact haligned.toConsole_ne_nil howed hconsole
    | handled _ _ _ _ _ _ hconsole => exact .inl hconsole
    | replied _ _ size _ _ hreply =>
      have hlength := length_winSize size
      rw [← hreply, hnone] at hlength
      cases hlength

theorem sync_step {c : Channel} (h : ∃ rest, Sync c rest) (a : Channel.Action) :
    ∃ rest, Sync (c.step a) rest := by
  obtain ⟨rest, h⟩ := h
  cases a with
  | enter p request data =>
    rw [Channel.step]
    split
    · next hinside => exact ⟨rest, sync_move h (by rw [hinside]; trivial) trivial⟩
    · exact ⟨rest, h⟩
  | kernel size stale => exact sync_kernelStep h size stale
  | console width top bottom stale => exact sync_consoleStep h width top bottom stale

end Keow.Console
