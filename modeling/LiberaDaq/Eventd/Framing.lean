import LiberaDaq.Interaction.Path
import LiberaDaq.Memory.Messages
import Mathlib.Data.BitVec

/-!
# How the daemon reads its messages

The loop of `run` waits for the event device and for the FIFO of the requests, and reads from them
what there is. `readsome` counts the bytes that are missing of a message, so that a message may come
in parts. But the buffers are declared in the body of the loop: each turn has new ones, and what a
turn before stored is lost.

So the daemon handles the complete messages, each once and in order and made of its own bytes, for
every contents that the buffers may come up with, if and only if no message that becomes complete
came in parts (`framed_iff`).
-/

namespace LiberaDaq.Eventd

open LiberaDaq.Interaction LiberaDaq.Memory

/-- A byte. -/
abbrev Byte := BitVec 8

instance : Nontrivial Byte := ⟨0, 1, by decide⟩

/-- The sizes of `libera_event_t` and `Request`. -/
def eventBytes : ℕ := 8

def requestBytes : ℕ := 12

/-! ## What the system answers -/

/-- What `read` gives: bytes, none of them at the end of the file, or an error, which may be
`EINTR`. -/
inductive ReadAnswer
  | data (bs : List Byte)
  | failed (eintr : Bool)
  deriving DecidableEq, Repr

/-- The bytes that were read. -/
def ReadAnswer.bytes : ReadAnswer → List Byte
  | .data bs => bs
  | .failed _ => []

/-- What `select` gives: an error, which may be `EINTR`, or the descriptors that are ready. -/
inductive Select
  | failed (eintr : Bool)
  | ready (event request : Bool)
  deriving DecidableEq, Repr

/-- What the system answers in one turn of the loop: to `select`, to the reads of the event device
and of the request FIFO, and whether it can close and open the FIFO. -/
structure Turn where
  select : Select
  event : ReadAnswer
  request : ReadAnswer
  closes : Bool
  opens : Bool
  deriving DecidableEq, Repr

/-- The contents that the buffers of a turn come up with. -/
structure Garbage where
  event : Fin eventBytes → Byte
  request : Fin requestBytes → Byte

/-! ## The loop -/

/-- The state of `run`: the bytes that are missing of a message, and whether the daemon still runs;
with the books of what was read, of which the requests are in one list for each time that the FIFO
had a writer, and of what was handled. -/
structure Loop where
  nleft1 : ℕ
  nleft2 : ℕ
  alive : Bool
  eventsRead : List Byte
  closed : List (List Byte)
  requestsRead : List Byte
  events : List (Fin eventBytes → Byte)
  requests : List (Fin requestBytes → Byte)

/-- `readsome`: what it returns, the buffer and the bytes that are missing. -/
def readsome {n : ℕ} (answer : ReadAnswer) (buf : Fin n → Byte) (nleft : ℕ) :
    ℤ × (Fin n → Byte) × ℕ :=
  let nleft := if nleft = 0 then n else nleft
  match answer with
  | .data bs =>
      (bs.length, store buf (n - nleft) bs, if 0 < bs.length then nleft - bs.length else nleft)
  | .failed _ => (-1, buf, nleft)

namespace Loop

/-- The loop starts with no message begun. -/
def start : Loop := ⟨0, 0, true, [], [], [], [], []⟩

/-- The part of a turn that reads the event device. -/
def readEvent (s : Loop) (answer : ReadAnswer) (event : Fin eventBytes → Byte) : Loop :=
  let (nread, event, nleft1) := readsome answer event s.nleft1
  let s := { s with nleft1 := nleft1, eventsRead := s.eventsRead ++ answer.bytes }
  if nread = -1 ∧ answer ≠ .failed true then { s with alive := false }
  else if nleft1 = 0 then { s with events := s.events ++ [event] }
  else s

/-- The part of a turn that reads the request FIFO. At its end, which comes when the last writer has
closed it, the FIFO is opened again. -/
def readRequest (s : Loop) (answer : ReadAnswer) (closes opens : Bool)
    (req : Fin requestBytes → Byte) : Loop :=
  let (nread, req, nleft2) := readsome answer req s.nleft2
  let s := { s with nleft2 := nleft2, requestsRead := s.requestsRead ++ answer.bytes }
  if nread = -1 ∧ answer ≠ .failed true then { s with alive := false }
  else
    let s := if nleft2 = 0 then { s with requests := s.requests ++ [req] } else s
    if nread = 0 then
      -- an incomplete request is discarded
      let s := { s with nleft2 := 0, closed := s.closed ++ [s.requestsRead], requestsRead := [] }
      if closes ∧ opens then s else { s with alive := false }
    else s

/-- One turn of the loop. -/
def turn (s : Loop) (t : Turn) (g : Garbage) : Loop :=
  match t.select with
  | .failed eintr => if eintr then s else { s with alive := false }
  | .ready event request =>
    let s := if event then s.readEvent t.event g.event else s
    if s.alive ∧ request then s.readRequest t.request t.closes t.opens g.request else s

/-- A turn, with the contents that its buffers come up with. -/
def step (s : Loop) (m : Turn × Garbage) : Loop := s.turn m.1 m.2

/-- The daemon handled the complete messages, each once, in order and made of its own bytes, and
dropped a request that was not complete when its writer closed the FIFO. -/
structure Framed (s : Loop) : Prop where
  events : s.events = messages eventBytes s.eventsRead
  requests : s.requests = (s.closed ++ [s.requestsRead]).flatMap (messages requestBytes)

end Loop

/-! ## The turns that can happen -/

/-- What was read of messages that are not complete, and whether the daemon still runs. -/
structure Pending where
  event : ℕ
  request : ℕ
  alive : Bool

namespace Turn

/-- The event device is read, and what is read from it. -/
def eventRead (t : Turn) : Option ReadAnswer :=
  match t.select with
  | .ready true _ => some t.event
  | _ => none

/-- The request FIFO is read, unless the daemon ended at the event device. -/
def requestRead (t : Turn) : Option ReadAnswer :=
  match t.select with
  | .ready event true => if event ∧ t.event = .failed false then none else some t.request
  | _ => none

/-- The daemon still runs after the turn. -/
def survives (t : Turn) : Bool :=
  t.select ≠ .failed false && t.eventRead ≠ some (.failed false) &&
    t.requestRead ≠ some (.failed false) &&
    (t.requestRead ≠ some (.data []) || t.closes && t.opens)

end Turn

namespace Pending

def start : Pending := ⟨0, 0, true⟩

/-- The count of a message, after a read. -/
def count (n pending : ℕ) : Option ReadAnswer → ℕ
  | none => pending
  | some answer => (pending + answer.bytes.length) % n

/-- What is pending after a turn. -/
def step (p : Pending) (t : Turn) : Pending where
  event := count eventBytes p.event t.eventRead
  request := if t.requestRead = some (.data []) then 0
    else count requestBytes p.request t.requestRead
  alive := t.survives

/-- A read gives no more than what is missing of the message. -/
def Fits (n pending : ℕ) (answer : Option ReadAnswer) : Prop :=
  ∀ a ∈ answer, pending + a.bytes.length ≤ n

/-- A turn that can happen. -/
structure Possible (p : Pending) (t : Turn) : Prop where
  alive : p.alive = true
  event : Fits eventBytes p.event t.eventRead
  request : Fits requestBytes p.request t.requestRead

/-- A read that completes a message gives all of it. -/
def Unsplit (n pending : ℕ) (answer : Option ReadAnswer) : Prop :=
  ∀ a ∈ answer, pending + a.bytes.length = n → pending = 0

/-- A turn that completes no message which came in parts. -/
structure Whole (p : Pending) (t : Turn) : Prop where
  event : Unsplit eventBytes p.event t.eventRead
  request : Unsplit requestBytes p.request t.requestRead

end Pending

/-! ## One read -/

variable {n nleft : ℕ} {answer : ReadAnswer} {read : Option ReadAnswer} {bytes : List Byte}

/-- What `nleft` says of the bytes of a message that were read. -/
def Missing (n nleft pending : ℕ) : Prop :=
  nleft ≤ n ∧ (if nleft = 0 then n else nleft) + pending = n

/-- The messages that a read completes, in a buffer. -/
def handled (n pending : ℕ) (read : Option ReadAnswer) (buf : Fin n → Byte) : List (Fin n → Byte) :=
  match read with
  | none => []
  | some answer =>
    if pending + answer.bytes.length = n then [store buf pending answer.bytes] else []

theorem handled_full {pending : ℕ} {buf : Fin n → Byte} (h : pending + answer.bytes.length = n) :
    handled n pending (some answer) buf = [store buf pending answer.bytes] := if_pos h

theorem handled_part {pending : ℕ} {buf : Fin n → Byte} (h : pending + answer.bytes.length ≠ n) :
    handled n pending (some answer) buf = [] := if_neg h

/-- `readsome` resumes the message. -/
theorem readsome_spec {pending : ℕ} (hm : Missing n nleft pending) (hn : pending < n)
    (buf : Fin n → Byte) (hfits : pending + answer.bytes.length ≤ n) :
    Missing n (readsome answer buf nleft).2.2 ((pending + answer.bytes.length) % n) ∧
    handled n pending (some answer) buf =
      (if (readsome answer buf nleft).2.2 = 0 then [(readsome answer buf nleft).2.1] else []) ∧
    ((readsome answer buf nleft).1 = -1 ↔ ∃ eintr, answer = .failed eintr) ∧
    ((readsome answer buf nleft).1 = 0 ↔ answer = .data []) := by
  obtain ⟨hle, hsum⟩ := hm
  obtain ⟨k, hk⟩ : ∃ k, (if nleft = 0 then n else nleft) = k := ⟨_, rfl⟩
  rw [hk] at hsum
  have hoff : n - k = pending := by omega
  have hpos : ¬k = 0 := by omega
  have hmissing : Missing n k pending := ⟨by omega, by rwa [if_neg hpos]⟩
  cases answer with
  | failed eintr =>
    have hread : readsome (.failed eintr) buf nleft = (-1, buf, k) := by rw [readsome, hk]
    have hpart : pending + (ReadAnswer.failed eintr).bytes.length ≠ n := by
      simp only [ReadAnswer.bytes, List.length_nil]
      omega
    rw [hread, handled_part hpart, if_neg hpos]
    refine ⟨?_, rfl, ⟨fun _ => ⟨eintr, rfl⟩, fun _ => rfl⟩, ⟨nofun, nofun⟩⟩
    simpa [ReadAnswer.bytes, Nat.mod_eq_of_lt hn] using hmissing
  | data bs =>
    have hread : readsome (.data bs) buf nleft = ((bs.length : ℤ), store buf pending bs,
        if 0 < bs.length then k - bs.length else k) := by rw [readsome, hk, hoff]
    have herror : ((bs.length : ℕ) : ℤ) = -1 ↔ ∃ eintr, ReadAnswer.data bs = .failed eintr := by
      refine ⟨fun h => ?_, fun ⟨_, h⟩ => nomatch h⟩
      omega
    have hend : ((bs.length : ℕ) : ℤ) = 0 ↔ ReadAnswer.data bs = .data [] := by simp
    rw [hread]
    refine ⟨?_, ?_, herror, hend⟩
    · dsimp only [ReadAnswer.bytes] at hfits ⊢
      split
      · by_cases hfull : pending + bs.length = n
        · have hzero : k - bs.length = 0 := by omega
          rw [hfull, hzero, Nat.mod_self]
          exact ⟨Nat.zero_le _, rfl⟩
        · have hleft : ¬k - bs.length = 0 := by omega
          rw [Nat.mod_eq_of_lt (by omega)]
          refine ⟨by omega, ?_⟩
          rw [if_neg hleft]
          omega
      · have hempty : bs.length = 0 := by omega
        rw [hempty, Nat.add_zero, Nat.mod_eq_of_lt hn]
        exact hmissing
    · dsimp only [ReadAnswer.bytes] at hfits ⊢
      by_cases hfull : pending + bs.length = n
      · have hzero : (if 0 < bs.length then k - bs.length else k) = 0 := by
          rw [if_pos (by omega)]
          omega
        rw [handled_full hfull, if_pos hzero]
        rfl
      · have hleft : ¬(if 0 < bs.length then k - bs.length else k) = 0 := by
          split <;> omega
        rw [handled_part hfull, if_neg hleft]

/-! ## One turn -/

variable {s : Loop} {p : Pending} {t : Turn} {g : Garbage} {ts : List Turn}

/-- The bytes of a read, if there was one. -/
def readBytes (read : Option ReadAnswer) : List Byte := (read.map ReadAnswer.bytes).getD []

namespace Loop

/-- The loop has read what is pending. -/
structure Reads (s : Loop) (p : Pending) : Prop where
  alive : s.alive = p.alive
  event : s.eventsRead.length % eventBytes = p.event
  request : s.requestsRead.length % requestBytes = p.request
  nleft1 : Missing eventBytes s.nleft1 p.event
  nleft2 : Missing requestBytes s.nleft2 p.request

theorem Reads.event_lt (h : s.Reads p) : p.event < eventBytes :=
  h.event ▸ Nat.mod_lt _ (by decide)

theorem Reads.request_lt (h : s.Reads p) : p.request < requestBytes :=
  h.request ▸ Nat.mod_lt _ (by decide)

/-- What reading the event device does. -/
theorem readEvent_eq {buf : Fin eventBytes → Byte} {pending : ℕ}
    (hm : Missing eventBytes s.nleft1 pending) (hn : pending < eventBytes)
    (hfits : pending + answer.bytes.length ≤ eventBytes) (ha : s.alive = true) :
    s.readEvent answer buf = { s with
      nleft1 := (readsome answer buf s.nleft1).2.2
      eventsRead := s.eventsRead ++ answer.bytes
      events := s.events ++ handled eventBytes pending (some answer) buf
      alive := decide (answer ≠ .failed false) } := by
  obtain ⟨-, hhandled, herror, -⟩ := readsome_spec hm hn buf hfits
  rw [hhandled]
  unfold readEvent
  dsimp only
  by_cases hexit : answer = .failed false
  · have hpart : pending + (ReadAnswer.failed false).bytes.length ≠ eventBytes := Nat.ne_of_lt hn
    subst hexit
    rw [handled_part hpart] at hhandled
    rw [if_pos ⟨herror.2 ⟨_, rfl⟩, by decide⟩, ← hhandled, List.append_nil]
    rfl
  · have hnot : ¬((readsome answer buf s.nleft1).1 = -1 ∧ answer ≠ .failed true) := by
      rintro ⟨hret, hne⟩
      obtain ⟨eintr, rfl⟩ := herror.1 hret
      cases eintr
      · exact hexit rfl
      · exact hne rfl
    rw [if_neg hnot, decide_eq_true hexit, ← ha]
    split
    · rfl
    · rw [List.append_nil]

/-- What reading the request FIFO does. -/
theorem readRequest_eq {closes opens : Bool} {buf : Fin requestBytes → Byte} {pending : ℕ}
    (hm : Missing requestBytes s.nleft2 pending) (hn : pending < requestBytes)
    (hfits : pending + answer.bytes.length ≤ requestBytes) (ha : s.alive = true) :
    s.readRequest answer closes opens buf = { s with
      nleft2 := if answer = .data [] then 0 else (readsome answer buf s.nleft2).2.2
      requestsRead := if answer = .data [] then [] else s.requestsRead ++ answer.bytes
      closed := if answer = .data [] then s.closed ++ [s.requestsRead] else s.closed
      requests := s.requests ++ handled requestBytes pending (some answer) buf
      alive := decide (answer ≠ .failed false) && (decide (answer ≠ .data []) || closes && opens)
        } := by
  obtain ⟨-, hhandled, herror, hend⟩ := readsome_spec hm hn buf hfits
  rw [hhandled]
  unfold readRequest
  dsimp only
  by_cases hexit : answer = .failed false
  · have hpart : pending + (ReadAnswer.failed false).bytes.length ≠ requestBytes := Nat.ne_of_lt hn
    subst hexit
    rw [handled_part hpart] at hhandled
    rw [if_pos ⟨herror.2 ⟨_, rfl⟩, by decide⟩, ← hhandled, List.append_nil]
    rfl
  · have hnot : ¬((readsome answer buf s.nleft2).1 = -1 ∧ answer ≠ .failed true) := by
      rintro ⟨hret, hne⟩
      obtain ⟨eintr, rfl⟩ := herror.1 hret
      cases eintr
      · exact hexit rfl
      · exact hne rfl
    rw [if_neg hnot, decide_eq_true hexit]
    by_cases hdata : answer = .data []
    · have hpart : pending + answer.bytes.length ≠ requestBytes := by
        rw [hdata]
        exact Nat.ne_of_lt hn
      rw [handled_part hpart] at hhandled
      have hleft : ¬(readsome answer buf s.nleft2).2.2 = 0 := by
        intro hzero
        rw [if_pos hzero] at hhandled
        cases hhandled
      rw [if_neg hleft, if_pos (hend.2 hdata), if_neg hleft, List.append_nil]
      subst hdata
      cases closes <;> cases opens <;> simp [ReadAnswer.bytes, ha]
    · rw [if_neg (mt hend.1 hdata)]
      split
      · simp [hdata, ha]
      · simp [hdata, ha]

/-- What a turn does. -/
structure Turned (s : Loop) (p : Pending) (t : Turn) (g : Garbage) (s' : Loop) : Prop where
  alive : s'.alive = t.survives
  eventsRead : s'.eventsRead = s.eventsRead ++ readBytes t.eventRead
  events : s'.events = s.events ++ handled eventBytes p.event t.eventRead g.event
  nleft1 : Missing eventBytes s'.nleft1 (p.step t).event
  nleft2 : Missing requestBytes s'.nleft2 (p.step t).request
  requests : s'.requests = s.requests ++ handled requestBytes p.request t.requestRead g.request
  requestsRead : s'.requestsRead =
    if t.requestRead = some (.data []) then [] else s.requestsRead ++ readBytes t.requestRead
  closed : s'.closed =
    if t.requestRead = some (.data []) then s.closed ++ [s.requestsRead] else s.closed

/-- What the part of a turn does that reads the event device. -/
theorem turned_event (hr : s.Reads p) (ha : s.alive = true) (event : Bool)
    (hfits : event = true → p.event + answer.bytes.length ≤ eventBytes)
    (buf : Fin eventBytes → Byte) :
    ∃ nleft1, Missing eventBytes nleft1
        (Pending.count eventBytes p.event (if event then some answer else none)) ∧
      (if event then s.readEvent answer buf else s) = { s with
        nleft1 := nleft1
        eventsRead := s.eventsRead ++ readBytes (if event then some answer else none)
        events := s.events ++ handled eventBytes p.event (if event then some answer else none) buf
        alive := !event || decide (answer ≠ .failed false) } := by
  cases event with
  | false =>
    refine ⟨s.nleft1, hr.nleft1, ?_⟩
    change s = { s with
      eventsRead := s.eventsRead ++ [], events := s.events ++ [], alive := true }
    rw [List.append_nil, List.append_nil, ← ha]
  | true =>
    obtain ⟨hmissing, -, -, -⟩ := readsome_spec hr.nleft1 hr.event_lt buf (hfits rfl)
    exact ⟨_, hmissing, readEvent_eq hr.nleft1 hr.event_lt (hfits rfl) ha⟩

section

variable {event request : Bool} {ev rq : ReadAnswer} {closes opens : Bool}

theorem eventRead_ready : (⟨.ready event request, ev, rq, closes, opens⟩ : Turn).eventRead =
    if event then some ev else none := by
  cases event <;> rfl

/-- A turn in which the FIFO is read. -/
theorem turned_request (hr : s.Reads p) (ha : s.alive = true)
    (ht : p.Possible ⟨.ready event true, ev, rq, closes, opens⟩)
    (hlive : event = true → ev ≠ .failed false) (g : Garbage) :
    Turned s p ⟨.ready event true, ev, rq, closes, opens⟩ g
      (s.turn ⟨.ready event true, ev, rq, closes, opens⟩ g) := by
  obtain ⟨-, hev, hrq⟩ := ht
  have hread : (⟨.ready event true, ev, rq, closes, opens⟩ : Turn).eventRead =
      if event then some ev else none := eventRead_ready
  have hread' : (⟨.ready event true, ev, rq, closes, opens⟩ : Turn).requestRead = some rq :=
    if_neg fun h => hlive h.1 h.2
  have halive : (!event || decide (ev ≠ .failed false)) = true := by
    cases event with
    | false => rfl
    | true => exact decide_eq_true (hlive rfl)
  have hfits : event = true → p.event + ev.bytes.length ≤ eventBytes := by
    rintro rfl
    exact hev ev rfl
  obtain ⟨nleft1, hmissing, hs₁⟩ := turned_event hr ha event hfits g.event
  have hfits' : p.request + rq.bytes.length ≤ requestBytes := hrq rq hread'
  obtain ⟨hmissing', -, -, -⟩ := readsome_spec hr.nleft2 hr.request_lt g.request hfits'
  have heq : some rq = some (.data []) ↔ rq = .data [] := Option.some_inj
  unfold turn
  dsimp only
  rw [hs₁, if_pos ⟨halive, rfl⟩]
  obtain ⟨s₁, hs₁⟩ : ∃ s₁ : Loop, s₁ = { s with
    nleft1 := nleft1
    eventsRead := s.eventsRead ++ readBytes (if event then some ev else none)
    events := s.events ++ handled eventBytes p.event (if event then some ev else none) g.event
    alive := !event || decide (ev ≠ .failed false) } := ⟨_, rfl⟩
  rw [← hs₁, readRequest_eq (s := s₁) (hs₁ ▸ hr.nleft2) hr.request_lt hfits' (hs₁ ▸ halive), hs₁]
  refine ⟨?_, ?_, ?_, ?_, ?_, ?_, ?_, ?_⟩
  · have hev' : (⟨.ready event true, ev, rq, closes, opens⟩ : Turn).eventRead ≠
        some (.failed false) := by
      rw [hread]
      cases event with
      | false => nofun
      | true => exact fun h => hlive rfl (Option.some.inj h)
    simp [Turn.survives, hread', hev']
  · rw [hread]
  · rw [hread]
  · simpa [Pending.step, hread] using hmissing
  · simp only [Pending.step, hread', heq]
    split
    · exact ⟨Nat.zero_le _, rfl⟩
    · exact hmissing'
  · rw [hread']
  · simp only [hread', heq]
    rfl
  · simp only [hread', heq]

/-- A turn in which the FIFO is not read: it is not ready, or the loop has come to its end. -/
theorem turned_no_request (hr : s.Reads p) (ha : s.alive = true)
    (ht : p.Possible ⟨.ready event request, ev, rq, closes, opens⟩)
    (hno : ¬((event = true → ev ≠ .failed false) ∧ request = true)) (g : Garbage) :
    Turned s p ⟨.ready event request, ev, rq, closes, opens⟩ g
      (s.turn ⟨.ready event request, ev, rq, closes, opens⟩ g) := by
  obtain ⟨-, hev, -⟩ := ht
  have hread : (⟨.ready event request, ev, rq, closes, opens⟩ : Turn).eventRead =
      if event then some ev else none := eventRead_ready
  have hfits : event = true → p.event + ev.bytes.length ≤ eventBytes := by
    rintro rfl
    exact hev ev rfl
  obtain ⟨nleft1, hmissing, hs₁⟩ := turned_event hr ha event hfits g.event
  have hread' : (⟨.ready event request, ev, rq, closes, opens⟩ : Turn).requestRead = none := by
    cases request with
    | false => rfl
    | true =>
      refine if_pos ?_
      by_contra hne
      exact hno ⟨fun he hfail => hne ⟨he, hfail⟩, rfl⟩
  have hnot : ¬((!event || decide (ev ≠ .failed false)) = true ∧ request = true) := by
    rintro ⟨hlive, rfl⟩
    refine hno ⟨?_, rfl⟩
    rintro rfl hfail
    subst hfail
    cases hlive
  unfold turn
  dsimp only
  rw [hs₁, if_neg hnot]
  refine ⟨?_, ?_, ?_, ?_, ?_, ?_, ?_, ?_⟩
  · cases event <;> simp [Turn.survives, hread', hread]
  · rw [hread]
  · rw [hread]
  · simpa [Pending.step, hread] using hmissing
  · simpa [Pending.step, hread', Pending.count] using hr.nleft2
  · rw [hread']
    exact (List.append_nil _).symm
  · rw [hread']
    exact (List.append_nil _).symm
  · rw [hread']
    rfl

end

theorem turned (hr : s.Reads p) (ht : p.Possible t) (g : Garbage) :
    Turned s p t g (s.turn t g) := by
  have ha : s.alive = true := hr.alive.trans ht.alive
  obtain ⟨sel, ev, rq, closes, opens⟩ := t
  cases sel with
  | failed eintr =>
    cases eintr with
    | false =>
      exact ⟨rfl, (List.append_nil _).symm, (List.append_nil _).symm, hr.nleft1, hr.nleft2,
        (List.append_nil _).symm, (List.append_nil _).symm, rfl⟩
    | true =>
      exact ⟨ha, (List.append_nil _).symm, (List.append_nil _).symm, hr.nleft1, hr.nleft2,
        (List.append_nil _).symm, (List.append_nil _).symm, rfl⟩
  | ready event request =>
    by_cases hgo : (event = true → ev ≠ .failed false) ∧ request = true
    · obtain ⟨hlive, rfl⟩ := hgo
      exact turned_request hr ha ht hlive g
    · exact turned_no_request hr ha ht hgo g

theorem Turned.reads {s' : Loop} (h : Turned s p t g s') (hr : s.Reads p) :
    s'.Reads (p.step t) where
  alive := h.alive
  event := by
    rw [h.eventsRead, List.length_append, Nat.add_mod, hr.event]
    cases hread : t.eventRead with
    | none => simp [readBytes, Pending.step, Pending.count, hread, Nat.mod_eq_of_lt hr.event_lt]
    | some a => simp [readBytes, Pending.step, Pending.count, hread]
  request := by
    rw [h.requestsRead]
    simp only [Pending.step]
    split
    · rfl
    · rw [List.length_append, Nat.add_mod, hr.request]
      cases hread : t.requestRead with
      | none => simp [readBytes, Pending.count, Nat.mod_eq_of_lt hr.request_lt]
      | some a => simp [readBytes, Pending.count]
  nleft1 := h.nleft1
  nleft2 := h.nleft2

end Loop

/-! ## The messages of a turn -/

/-- The messages that become complete with a read. -/
def completed (n : ℕ) (bytes : List Byte) (read : Option ReadAnswer) : List (Fin n → Byte) :=
  match read with
  | none => []
  | some answer =>
    if bytes.length % n + answer.bytes.length = n then
      [message n (bytes ++ answer.bytes) (bytes.length / n)]
    else []

theorem messages_read (hn : 0 < n) (hfits : Pending.Fits n (bytes.length % n) read) :
    messages n (bytes ++ readBytes read) = messages n bytes ++ completed n bytes read := by
  cases read with
  | none => simp [readBytes, completed]
  | some answer =>
    have hle : bytes.length % n + answer.bytes.length ≤ n := hfits answer rfl
    change messages n (bytes ++ answer.bytes) = _
    rw [completed]
    split
    · next hfull => exact messages_append_of_eq hn hfull
    · next hpart =>
      rw [messages_append_of_lt (by omega), List.append_nil]

/-- Whatever a buffer comes up with, it holds the messages that become complete, if and only if they
are read as a whole. -/
theorem handled_eq_iff : (∀ buf, handled n (bytes.length % n) read buf = completed n bytes read) ↔
    Pending.Unsplit n (bytes.length % n) read := by
  cases read with
  | none => exact ⟨fun _ => nofun, fun _ _ => rfl⟩
  | some answer =>
    by_cases hfull : bytes.length % n + answer.bytes.length = n
    · have hcompleted : completed n bytes (some answer) =
          [message n (bytes ++ answer.bytes) (bytes.length / n)] := if_pos hfull
      rw [hcompleted]
      constructor
      · intro h a ha _
        refine (store_eq_message_iff hfull).1 fun buf => ?_
        have hbuf := h buf
        rw [handled_full hfull] at hbuf
        exact List.head_eq_of_cons_eq hbuf
      · intro h buf
        rw [handled_full hfull, (store_eq_message_iff hfull).2 (h answer rfl hfull) buf]
    · have hcompleted : completed n bytes (some answer) = [] := if_neg hfull
      rw [hcompleted]
      refine ⟨fun _ a ha hlen => ?_, fun _ buf => handled_part hfull⟩
      cases ha
      exact absurd hlen hfull

namespace Loop

/-- A turn leaves the daemon in order if and only if it handles what becomes complete. -/
theorem Turned.framed_step_iff {s' : Loop} (h : Turned s p t g s') (hr : s.Reads p)
    (ht : p.Possible t)
    (hs : s.Framed) : s'.Framed ↔
      handled eventBytes p.event t.eventRead g.event =
        completed eventBytes s.eventsRead t.eventRead ∧
      handled requestBytes p.request t.requestRead g.request =
        completed requestBytes s.requestsRead t.requestRead := by
  have hevents : messages eventBytes s'.eventsRead =
      s.events ++ completed eventBytes s.eventsRead t.eventRead := by
    rw [h.eventsRead, hs.events]
    exact messages_read (by decide) (hr.event ▸ ht.event)
  have hrequests : (s'.closed ++ [s'.requestsRead]).flatMap (messages requestBytes) =
      s.requests ++ completed requestBytes s.requestsRead t.requestRead := by
    have hmessages : messages requestBytes (s.requestsRead ++ readBytes t.requestRead) =
        messages requestBytes s.requestsRead ++
          completed requestBytes s.requestsRead t.requestRead :=
      messages_read (by decide) (hr.request ▸ ht.request)
    rw [h.closed, h.requestsRead, hs.requests]
    split
    · next hend =>
      -- the writer has gone, and nothing was read
      have hnone : completed requestBytes s.requestsRead t.requestRead = [] := by
        rw [hend]
        refine if_neg ?_
        rw [hr.request]
        exact Nat.ne_of_lt hr.request_lt
      simp [hnone]
    · simp [hmessages]
  constructor
  · rintro ⟨he, hq⟩
    rw [h.events, hevents] at he
    rw [h.requests, hrequests] at hq
    exact ⟨List.append_cancel_left he, List.append_cancel_left hq⟩
  · rintro ⟨he, hq⟩
    exact ⟨by rw [h.events, hevents, he], by rw [h.requests, hrequests, hq]⟩

/-- **One turn.** The daemon is in order after a turn, whatever its buffers come up with, if and
only if the turn completes no message that came in parts. -/
theorem framed_turn_iff (hr : s.Reads p) (ht : p.Possible t) (hs : s.Framed) :
    (∀ g, (s.turn t g).Framed) ↔ p.Whole t := by
  have hiff := fun g => (turned hr ht g).framed_step_iff hr ht hs
  constructor
  · intro h
    constructor
    · rw [← hr.event]
      refine handled_eq_iff.1 fun buf => ?_
      rw [hr.event]
      exact ((hiff ⟨buf, fun _ => 0⟩).1 (h _)).1
    · rw [← hr.request]
      refine handled_eq_iff.1 fun buf => ?_
      rw [hr.request]
      exact ((hiff ⟨fun _ => 0, buf⟩).1 (h _)).2
  · rintro ⟨he, hq⟩ g
    rw [← hr.event] at he
    rw [← hr.request] at hq
    refine (hiff g).2 ⟨?_, ?_⟩
    · rw [← hr.event]
      exact handled_eq_iff.2 he g.event
    · rw [← hr.request]
      exact handled_eq_iff.2 hq g.request

/-- Any turns, from a state that is in order. -/
theorem framed_run_iff (hr : s.Reads p) (hs : s.Framed)
    (ht : Along Pending.step Pending.Possible p ts) :
    (∀ gs : List Garbage, gs.length = ts.length →
      Along step (fun s m => (s.step m).Framed) s (ts.zip gs)) ↔
      Along Pending.step Pending.Whole p ts := by
  induction ts generalizing s p with
  | nil => exact ⟨fun _ => trivial, fun _ gs _ => trivial⟩
  | cons t ts ih =>
    obtain ⟨hpossible, hrest⟩ := ht
    have hnext := fun g => (turned hr hpossible g).reads hr
    constructor
    · intro h
      have hframed : ∀ g, (s.turn t g).Framed := fun g =>
        (h (g :: List.replicate ts.length g) (by simp)).1
      refine ⟨(framed_turn_iff hr hpossible hs).1 hframed, ?_⟩
      let g : Garbage := ⟨fun _ => 0, fun _ => 0⟩
      exact (ih (hnext g) (hframed g) hrest).1 fun gs hgs => (h (g :: gs) (by simp [hgs])).2
    · rintro ⟨hwhole, hafter⟩ gs hgs
      cases gs with
      | nil => cases hgs
      | cons g gs =>
        have hframed := (framed_turn_iff hr hpossible hs).2 hwhole g
        exact ⟨hframed, (ih (hnext g) hframed hrest).2 hafter gs (Nat.succ.inj hgs)⟩

theorem reads_start : start.Reads .start := ⟨rfl, rfl, rfl, ⟨by decide, rfl⟩, ⟨by decide, rfl⟩⟩

theorem framed_start : start.Framed := ⟨rfl, rfl⟩

/-- **The framing of the messages.** Whatever its buffers come up with, the daemon has in every
state handled the complete messages, each once, in order and made of its own bytes, if and only if
no message that became complete came in parts. -/
theorem framed_iff (ht : Along Pending.step Pending.Possible .start ts) :
    (start.Framed ∧ ∀ gs : List Garbage, gs.length = ts.length →
      Along step (fun s m => (s.step m).Framed) start (ts.zip gs)) ↔
      Along Pending.step Pending.Whole .start ts := by
  rw [framed_run_iff reads_start framed_start ht]
  exact and_iff_right framed_start

/-- A read of the event device. -/
def eventTurn (bs : List Byte) : Turn := ⟨.ready true false, .data bs, .data [], true, true⟩

/-- An event that is read as a whole. -/
theorem framed_whole_event :
    let ts := [eventTurn [1, 2, 3, 4, 5, 6, 7, 8]]
    (start.Framed ∧ ∀ gs : List Garbage, gs.length = ts.length →
      Along step (fun s m => (s.step m).Framed) start (ts.zip gs)) ↔
      Along Pending.step Pending.Whole .start ts := by
  refine framed_iff ⟨⟨rfl, ?_, nofun⟩, trivial⟩
  rintro _ ⟨⟩
  decide

/-- An event that is read in two halves. -/
theorem first_half_lost : ¬∀ ts : List Turn, Along Pending.step Pending.Possible .start ts →
    start.Framed ∧ ∀ gs : List Garbage, gs.length = ts.length →
      Along step (fun s m => (s.step m).Framed) start (ts.zip gs) := by
  intro h
  have hpossible : Along Pending.step Pending.Possible .start
      [eventTurn [1, 2, 3, 4], eventTurn [5, 6, 7, 8]] := by
    refine ⟨⟨rfl, ?_, nofun⟩, ⟨rfl, ?_, nofun⟩, trivial⟩
    · rintro _ ⟨⟩
      decide
    · rintro _ ⟨⟩
      decide
  have hframed := ((h _ hpossible).2 [⟨fun _ => 0, fun _ => 0⟩, ⟨fun _ => 0, fun _ => 0⟩] rfl).2.1
  exact absurd hframed.events (by decide)

end Loop

end LiberaDaq.Eventd
