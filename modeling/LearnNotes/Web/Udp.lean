import Mathlib.Data.List.Range
import Mathlib.Data.UInt
import LearnNotes.Lib.CString
import LearnNotes.Lib.Termination

/-!
# `udp_client.cpp` and `udp_server.cpp`

Any number of clients and the server, with a network between them that may reorder the datagrams
and, with `loses` and `repeats`, lose or repeat them. A client sends a numbered request and waits
for a datagram; the server answers one request after the other with the time, as many bytes of it
as the request had. No call fails. A client is followed on its own, with what is under way for it:
each step of all is a step of that (`view_step`). `answers_in_step` is what comes of it.
-/

namespace LearnNotes.Web.Udp

open Lib Relation

abbrev Bytes := List UInt8

def ascii (c : Char) : UInt8 := UInt8.ofNat c.toNat

/-- What `sprintf(buf, "hello, udp %d....\n", num)` leaves in `buf`, up to its NUL. -/
def hello (num : Nat) : Bytes :=
  ("hello, udp ".toList ++ Nat.toDigits 10 num ++ "....\n".toList).map ascii

/-- The `strlen(buf) + 1` bytes sent. -/
def request (num : Nat) : Bytes := hello num ++ [0]

/-- `MAXBUF` of the server, and the `buf[1024]` of the client. -/
def MAXBUF : Nat := 1024

/-- What `ctime` gives: `"Thu Jan  1 00:00:00 1970\n"`. -/
structure Time where
  text : Bytes
  length_text : text.length = 25
  notMem_text : 0 ∉ text

instance : Inhabited Time where
  default :=
    { text := "Thu Jan  1 00:00:00 1970\n".toList.map ascii
      length_text := rfl
      notMem_text := by decide }

/-- The `sbuf` of the server, not initialised. -/
structure Buffer where
  bytes : Bytes
  length_bytes : bytes.length = MAXBUF

/-- `strcpy(sbuf, ctime(&tp))`. -/
def Buffer.strcpy (sbuf : Buffer) (time : Time) : Buffer where
  bytes := time.text ++ 0 :: sbuf.bytes.drop (time.text.length + 1)
  length_bytes := by
    rw [List.length_append, List.length_cons, List.length_drop, sbuf.length_bytes,
      time.length_text]
    rfl

theorem Buffer.strcpy_eq (sbuf : Buffer) (time : Time) :
    CString.strcpy sbuf.bytes time.text = some (sbuf.strcpy time).bytes :=
  CString.strcpy_eq (by rw [time.length_text, sbuf.length_bytes]; decide)

/-- What the client prints of a datagram: it receives it into a cleared buffer. -/
def shown (bytes : Bytes) : Option Bytes :=
  (CString.put (List.replicate MAXBUF 0) 0 (bytes.take MAXBUF)).bind fun buf =>
    (CString.strlen buf).map fun n => buf.take n

/-- What the server has answered: the bytes received and the time. -/
structure Answer where
  request : Bytes
  time : Time

/-- A client, what is under way for it, and what the server has answered it. `lost` counts its
datagrams that were lost. -/
structure Peer where
  num : Nat := 0
  /-- It is in `recvfrom`. -/
  waiting : Bool := false
  printed : List Bytes := []
  requests : List Bytes := []
  replies : List Bytes := []
  answers : List Answer := []
  lost : Nat := 0

namespace Peer

def send (p : Peer) : Peer :=
  { p with num := p.num + 1, waiting := true, requests := p.requests ++ [request p.num] }

/-- A request is gone from the network. -/
def takeRequest (b : Bytes) (p : Peer) : Peer := { p with requests := p.requests.erase b }

def takeReply (b : Bytes) (p : Peer) : Peer := { p with replies := p.replies.erase b }

/-- `sendto(lfd, sbuf, rlen, ...)` -/
def answer (buf : Bytes) (time : Time) (sbuf : Buffer) (p : Peer) : Peer :=
  { p with
    replies := p.replies ++ [(sbuf.strcpy time).bytes.take buf.length]
    answers := p.answers ++ [⟨buf, time⟩] }

def print (text : Bytes) (p : Peer) : Peer :=
  { p with waiting := false, printed := p.printed ++ [text] }

def lose (p : Peer) : Peer := { p with lost := p.lost + 1 }

def repeatRequest (b : Bytes) (p : Peer) : Peer := { p with requests := p.requests ++ [b] }

def repeatReply (b : Bytes) (p : Peer) : Peer := { p with replies := p.replies ++ [b] }

end Peer

structure State (κ : Type) where
  peer : κ → Peer := fun _ => {}
  /-- `cliaddr` and what is in `buf`, between `recvfrom` and `sendto`. -/
  serving : Option (κ × Bytes) := none
  sbuf : Buffer

variable {κ : Type} [DecidableEq κ]

def State.set (c : κ) (p : Peer) (s : State κ) : State κ :=
  { s with peer := Function.update s.peer c p }

/-- The steps. `num` is an `int`: a client counts no further than that. -/
inductive Step (sends loses repeats : Prop) (s : State κ) : State κ → Prop where
  | send {c : κ} : sends → (s.peer c).waiting = false → (s.peer c).num + 1 < 2 ^ 31 →
      Step sends loses repeats s (s.set c (s.peer c).send)
  | recv {c : κ} {b : Bytes} : s.serving = none → b ∈ (s.peer c).requests →
      Step sends loses repeats s
        { s.set c ((s.peer c).takeRequest b) with serving := some (c, b.take MAXBUF) }
  | reply {c : κ} {buf : Bytes} (time : Time) : s.serving = some (c, buf) →
      Step sends loses repeats s
        { s.set c ((s.peer c).answer buf time s.sbuf) with
          serving := none, sbuf := s.sbuf.strcpy time }
  | receive {c : κ} {b text : Bytes} : (s.peer c).waiting = true → b ∈ (s.peer c).replies →
      shown b = some text →
      Step sends loses repeats s (s.set c (((s.peer c).takeReply b).print text))
  | loseRequest {c : κ} {b : Bytes} : loses → b ∈ (s.peer c).requests →
      Step sends loses repeats s (s.set c ((s.peer c).takeRequest b).lose)
  | loseReply {c : κ} {b : Bytes} : loses → b ∈ (s.peer c).replies →
      Step sends loses repeats s (s.set c ((s.peer c).takeReply b).lose)
  | repeatRequest {c : κ} {b : Bytes} : repeats → b ∈ (s.peer c).requests →
      Step sends loses repeats s (s.set c ((s.peer c).repeatRequest b))
  | repeatReply {c : κ} {b : Bytes} : repeats → b ∈ (s.peer c).replies →
      Step sends loses repeats s (s.set c ((s.peer c).repeatReply b))

/-! ## One client -/

/-- What the server holds for a client. -/
def State.held (s : State κ) (c : κ) : Option Bytes :=
  s.serving.bind fun q => if q.1 = c then some q.2 else none

def State.view (s : State κ) (c : κ) : Peer × Option Bytes := (s.peer c, s.held c)

/-- The steps of one client and of the server for it. -/
inductive Peer.Step (sends loses repeats : Prop) :
    Peer × Option Bytes → Peer × Option Bytes → Prop where
  | send {p : Peer} {held : Option Bytes} : sends → p.waiting = false → p.num + 1 < 2 ^ 31 →
      Step sends loses repeats (p, held) (p.send, held)
  | recv {p : Peer} {b : Bytes} : b ∈ p.requests →
      Step sends loses repeats (p, none) (p.takeRequest b, some (b.take MAXBUF))
  | reply {p : Peer} {buf : Bytes} (time : Time) (sbuf : Buffer) :
      Step sends loses repeats (p, some buf) (p.answer buf time sbuf, none)
  | receive {p : Peer} {held : Option Bytes} {b text : Bytes} : p.waiting = true →
      b ∈ p.replies → shown b = some text →
      Step sends loses repeats (p, held) ((p.takeReply b).print text, held)
  | loseRequest {p : Peer} {held : Option Bytes} {b : Bytes} : loses → b ∈ p.requests →
      Step sends loses repeats (p, held) ((p.takeRequest b).lose, held)
  | loseReply {p : Peer} {held : Option Bytes} {b : Bytes} : loses → b ∈ p.replies →
      Step sends loses repeats (p, held) ((p.takeReply b).lose, held)
  | repeatRequest {p : Peer} {held : Option Bytes} {b : Bytes} : repeats → b ∈ p.requests →
      Step sends loses repeats (p, held) (p.repeatRequest b, held)
  | repeatReply {p : Peer} {held : Option Bytes} {b : Bytes} : repeats → b ∈ p.replies →
      Step sends loses repeats (p, held) (p.repeatReply b, held)

variable {sends loses repeats : Prop} {s t : State κ} {c d : κ} {p : Peer}

theorem held_none (h : s.serving = none) : s.held c = none := by
  rw [State.held, h]
  rfl

theorem held_self {buf : Bytes} (h : s.serving = some (c, buf)) : s.held c = some buf := by
  rw [State.held, h, Option.bind_some, if_pos rfl]

theorem held_of_ne {buf : Bytes} (h : s.serving = some (c, buf)) (hne : d ≠ c) :
    s.held d = none := by
  rw [State.held, h, Option.bind_some, if_neg (Ne.symm hne)]

/-- What a step for a client is for each of them. -/
theorem view_of_set {held : Option Bytes} (hpeer : t.peer = Function.update s.peer c p)
    (hheld : t.held c = held) (hother : ∀ d, d ≠ c → t.held d = s.held d)
    (hstep : Peer.Step sends loses repeats (s.view c) (p, held)) (d : κ) :
    ReflTransGen (Peer.Step sends loses repeats) (s.view d) (t.view d) := by
  by_cases hd : d = c
  · subst hd
    have hview : t.view d = (p, held) := by
      rw [State.view, hpeer, hheld, Function.update_self]
    rw [hview]
    exact .single hstep
  · have hview : t.view d = s.view d := by
      rw [State.view, hpeer, hother d hd, Function.update_of_ne hd]
      rfl
    rw [hview]

/-- **Each step is one of a client alone**, and none for the others. -/
theorem view_step (h : Step sends loses repeats s t) (d : κ) :
    ReflTransGen (Peer.Step sends loses repeats) (s.view d) (t.view d) := by
  have hsame : ∀ {c : κ} {p : Peer}, Peer.Step sends loses repeats (s.view c) (p, s.held c) →
      ReflTransGen (Peer.Step sends loses repeats) (s.view d) ((s.set c p).view d) :=
    fun {c p} hstep => view_of_set (t := s.set c p) rfl rfl (fun _ _ => rfl) hstep d
  cases h with
  | send hsends hidle hnum => exact hsame (.send hsends hidle hnum)
  | @recv c b hserving hb =>
    apply view_of_set (c := c) rfl
    · exact held_self rfl
    · intro d hd
      rw [held_none hserving]
      exact held_of_ne rfl hd
    · rw [State.view, held_none hserving]
      exact .recv hb
  | @reply c buf time hserving =>
    apply view_of_set (c := c) rfl
    · exact held_none rfl
    · intro d hd
      rw [held_of_ne hserving hd]
      exact held_none rfl
    · rw [State.view, held_self hserving]
      exact .reply time s.sbuf
  | receive hwait hb htext => exact hsame (.receive hwait hb htext)
  | loseRequest hloses hb => exact hsame (.loseRequest hloses hb)
  | loseReply hloses hb => exact hsame (.loseReply hloses hb)
  | repeatRequest hrepeats hb => exact hsame (.repeatRequest hrepeats hb)
  | repeatReply hrepeats hb => exact hsame (.repeatReply hrepeats hb)

theorem view_run (h : ReflTransGen (Step sends loses repeats) s t) (d : κ) :
    ReflTransGen (Peer.Step sends loses repeats) (s.view d) (t.view d) :=
  h.lift' (fun s => s.view d) fun _ _ hst => view_step hst d

/-! ## Texts -/

/-- What is shown of the answer to request `num`. -/
def cut (num : Nat) (time : Time) : Bytes :=
  time.text.take (17 + (Nat.toDigits 10 num).length)

theorem length_request (num : Nat) :
    (request num).length = 17 + (Nat.toDigits 10 num).length := by
  unfold request hello
  simp only [List.length_append, List.length_map, List.length_singleton]
  rw [show "hello, udp ".toList.length = 11 from rfl, show "....\n".toList.length = 5 from rfl]
  omega

/-- The request names its number. -/
theorem request_injective : Function.Injective request := by
  intro k j h
  have hdigit : ∀ c : Char, c.isDigit = true → Char.ofNat (ascii c).toNat = c := by
    intro c hc
    have hlt : c.toNat < 2 ^ 8 := by
      simp only [Char.isDigit, Bool.and_eq_true, decide_eq_true_eq, ge_iff_le,
        UInt32.le_iff_toNat_le] at hc
      exact lt_of_le_of_lt hc.2 (by decide)
    rw [ascii, UInt8.toNat_ofNat', Nat.mod_eq_of_lt hlt, Char.ofNat_toNat]
  have hback : ∀ n, ((Nat.toDigits 10 n).map ascii).map (fun b => Char.ofNat b.toNat) =
      Nat.toDigits 10 n := by
    intro n
    rw [List.map_map]
    exact (List.map_congr_left fun c hc =>
      hdigit c (Nat.isDigit_of_mem_toDigits (by decide) (by decide) hc)).trans (List.map_id _)
  have hmap : (Nat.toDigits 10 k).map ascii = (Nat.toDigits 10 j).map ascii := by
    unfold request hello at h
    simpa only [List.map_append, List.append_assoc, List.append_cancel_left_eq,
      List.append_cancel_right_eq] using h
  have hdigits : Nat.toDigits 10 k = Nat.toDigits 10 j := by rw [← hback k, ← hback j, hmap]
  rw [← Nat.ofDigitChars_ten_toDigits (n := k), hdigits, Nat.ofDigitChars_ten_toDigits]

/-- The request of an `int` is far from filling the buffers. -/
theorem length_request_lt {num : Nat} (h : num < 2 ^ 31) : (request num).length < MAXBUF := by
  have hdigits : (Nat.toDigits 10 num).length ≤ 10 :=
    (Nat.length_toDigits_le_iff (by decide) (by decide)).mpr (h.trans (by decide))
  rw [length_request, MAXBUF]
  omega

theorem take_request {num : Nat} (h : num < 2 ^ 31) : (request num).take MAXBUF = request num :=
  List.take_of_length_le (length_request_lt h).le

/-- **What is shown of a reply**: the time, cut at the length of the request. What else was in
`sbuf` is behind its NUL. -/
theorem shown_reply {num : Nat} (h : num < 2 ^ 31) (sbuf : Buffer) (time : Time) :
    shown ((sbuf.strcpy time).bytes.take (request num).length) = some (cut num time) := by
  have hlt := length_request_lt h
  have hlen : ((sbuf.strcpy time).bytes.take (request num).length).length =
      (request num).length := by
    rw [List.length_take, (sbuf.strcpy time).length_bytes]
    omega
  unfold shown
  rw [List.take_of_length_le (hlen.trans_le hlt.le), CString.put_cleared (hlen.trans_le hlt.le),
    Option.bind_some, hlen, cut, ← length_request]
  exact (CString.holds_take_padded (Nat.sub_pos_of_lt hlt) time.notMem_text _).take_strlen

/-! ## Any network -/

/-- What holds of a client whatever becomes of the datagrams. -/
structure Sound (v : Peer × Option Bytes) : Prop where
  num : v.1.num < 2 ^ 31
  requests : ∀ b ∈ v.1.requests, ∃ k < v.1.num, b = request k
  held : ∀ b ∈ v.2, ∃ k < v.1.num, b = request k
  answers : ∀ a ∈ v.1.answers, ∃ k < v.1.num, a.request = request k
  replies : ∀ b ∈ v.1.replies, ∃ k time,
    ⟨request k, time⟩ ∈ v.1.answers ∧ shown b = some (cut k time)
  printed : ∀ text ∈ v.1.printed, ∃ k time,
    ⟨request k, time⟩ ∈ v.1.answers ∧ text = cut k time

theorem sound_init : Sound ({}, none) := ⟨by decide, nofun, nofun, nofun, nofun, nofun⟩

theorem erase_sub {P : Bytes → Prop} {bs : List Bytes} {b : Bytes} (h : ∀ b ∈ bs, P b) :
    ∀ b' ∈ bs.erase b, P b' := fun b' hb' => h b' (List.mem_of_mem_erase hb')

theorem forall_concat {α : Type} {P : α → Prop} {l : List α} {a : α} (h : ∀ a ∈ l, P a)
    (ha : P a) : ∀ a' ∈ l ++ [a], P a' := by
  intro a' ha'
  rcases List.mem_append.mp ha' with ha' | ha'
  · exact h a' ha'
  · rw [List.mem_singleton.mp ha']
    exact ha

/-- A request sent before is one sent now. -/
theorem sent_succ {bs : List Bytes} {n : Nat} (h : ∀ b ∈ bs, ∃ k < n, b = request k) :
    ∀ b ∈ bs, ∃ k < n + 1, b = request k := fun b hb =>
  let ⟨k, hk, heq⟩ := h b hb
  ⟨k, Nat.lt_succ_of_lt hk, heq⟩

theorem Sound.reply {p : Peer} {buf : Bytes} (h : Sound (p, some buf)) (time : Time)
    (sbuf : Buffer) : Sound (p.answer buf time sbuf, none) := by
  obtain ⟨k, hk, rfl⟩ := h.held buf rfl
  have hkept : ∀ {Q : Nat → Time → Prop},
      (∃ k time, ⟨request k, time⟩ ∈ p.answers ∧ Q k time) →
      ∃ k' time', ⟨request k', time'⟩ ∈ p.answers ++ [⟨request k, time⟩] ∧ Q k' time' :=
    fun ⟨k', time', hmem, hQ⟩ => ⟨k', time', List.mem_append_left _ hmem, hQ⟩
  have hnew : ⟨request k, time⟩ ∈ p.answers ++ [⟨request k, time⟩] :=
    List.mem_append_right _ List.mem_cons_self
  refine ⟨h.num, h.requests, nofun, forall_concat h.answers ⟨k, hk, rfl⟩, ?_, ?_⟩
  · exact forall_concat (fun b hb => hkept (h.replies b hb))
      ⟨k, time, hnew, shown_reply (hk.trans h.num) sbuf time⟩
  · exact fun text htext => hkept (h.printed text htext)

theorem sound_step {v w : Peer × Option Bytes} (h : Sound v)
    (hst : Peer.Step sends loses repeats v w) : Sound w := by
  cases hst with
  | send hsends hidle hnum =>
    refine ⟨hnum, ?_, fun b hb => ?_, fun a ha => ?_, h.replies, h.printed⟩
    · exact forall_concat (sent_succ h.requests) ⟨_, Nat.lt_succ_self _, rfl⟩
    · obtain ⟨k, hk, heq⟩ := h.held b hb
      exact ⟨k, Nat.lt_succ_of_lt hk, heq⟩
    · obtain ⟨k, hk, heq⟩ := h.answers a ha
      exact ⟨k, Nat.lt_succ_of_lt hk, heq⟩
  | recv hb =>
    obtain ⟨k, hk, rfl⟩ := h.requests _ hb
    refine ⟨h.num, erase_sub h.requests, fun b hb => ?_, h.answers, h.replies, h.printed⟩
    rw [take_request (hk.trans h.num)] at hb
    exact ⟨k, hk, (Option.some.inj hb).symm⟩
  | reply time sbuf => exact h.reply time sbuf
  | receive hwait hb htext =>
    obtain ⟨k, time, hmem, hshown⟩ := h.replies _ hb
    rw [htext] at hshown
    exact ⟨h.num, h.requests, h.held, h.answers, erase_sub h.replies,
      forall_concat h.printed ⟨k, time, hmem, Option.some.inj hshown⟩⟩
  | loseRequest hloses hb =>
    exact ⟨h.num, erase_sub h.requests, h.held, h.answers, h.replies, h.printed⟩
  | loseReply hloses hb =>
    exact ⟨h.num, h.requests, h.held, h.answers, erase_sub h.replies, h.printed⟩
  | repeatRequest hrepeats hb =>
    exact ⟨h.num, forall_concat h.requests (h.requests _ hb), h.held, h.answers, h.replies,
      h.printed⟩
  | repeatReply hrepeats hb =>
    exact ⟨h.num, h.requests, h.held, h.answers, forall_concat h.replies (h.replies _ hb),
      h.printed⟩

/-! ## A network that repeats nothing -/

/-- The answers to the first requests, given at these times. -/
def numbered (times : List Time) : List Answer := times.mapIdx fun k time => ⟨request k, time⟩

/-- What is shown of them. -/
def texts (times : List Time) : List Bytes := times.mapIdx cut

/-- A client that has read all answers. -/
def Peer.idle (times : List Time) : Peer :=
  { num := times.length, printed := texts times, answers := numbered times }

/-- A client that waits for one more, with nothing under way. -/
def Peer.between (times answered : List Time) : Peer :=
  { num := times.length + 1
    waiting := true
    printed := texts times
    answers := numbered answered }

/-- Where a client and its one datagram are. -/
inductive InStep : Peer × Option Bytes → Prop where
  | idle (times : List Time) : InStep (.idle times, none)
  | asked (times : List Time) :
      InStep ({ Peer.between times times with requests := [request times.length] }, none)
  | held (times : List Time) : InStep (.between times times, some (request times.length))
  | replied (times : List Time) (time : Time) {b : Bytes} :
      shown b = some (cut times.length time) →
      InStep ({ Peer.between times (times ++ [time]) with replies := [b] }, none)
  | lost (times : List Time) {answered : List Time} :
      answered = times ∨ (∃ time, answered = times ++ [time]) →
      InStep ((Peer.between times answered).lose, none)

variable {held : Option Bytes} {b : Bytes} {times answered : List Time} {time : Time}

theorem numbered_concat :
    numbered (times ++ [time]) = numbered times ++ [⟨request times.length, time⟩] :=
  List.mapIdx_concat

theorem texts_concat : texts (times ++ [time]) = texts times ++ [cut times.length time] :=
  List.mapIdx_concat

theorem takeRequest_asked :
    ({ Peer.between times times with requests := [b] } : Peer).takeRequest b =
      .between times times := by
  unfold Peer.takeRequest
  rw [List.erase_cons_head]
  rfl

theorem answer_between (sbuf : Buffer) :
    (Peer.between times times).answer (request times.length) time sbuf =
      { Peer.between times (times ++ [time]) with
        replies := [(sbuf.strcpy time).bytes.take (request times.length).length] } := by
  unfold Peer.answer Peer.between
  rw [numbered_concat]
  rfl

theorem takeReply_replied :
    ({ Peer.between times answered with replies := [b] } : Peer).takeReply b =
      .between times answered := by
  unfold Peer.takeReply
  rw [List.erase_cons_head]
  rfl

theorem print_between :
    (Peer.between times (times ++ [time])).print (cut times.length time) =
      .idle (times ++ [time]) := by
  unfold Peer.print Peer.idle Peer.between
  rw [texts_concat, List.length_append]
  rfl

theorem InStep.of_idle (h : InStep (p, held)) (hidle : p.waiting = false) :
    ∃ times, p = .idle times ∧ held = none := by
  cases h with
  | idle times => exact ⟨times, rfl, rfl⟩
  | _ => cases hidle

theorem InStep.of_request (h : InStep (p, held)) (hb : b ∈ p.requests) :
    ∃ times, p = { Peer.between times times with requests := [request times.length] } ∧
      held = none ∧ b = request times.length := by
  cases h with
  | asked times => exact ⟨times, rfl, rfl, List.mem_singleton.mp hb⟩
  | _ => cases hb

theorem InStep.of_held (h : InStep (p, some b)) :
    ∃ times, p = .between times times ∧ b = request times.length := by
  cases h with
  | held times => exact ⟨times, rfl, rfl⟩

theorem InStep.of_reply (h : InStep (p, held)) (hb : b ∈ p.replies) :
    ∃ times time, p = { Peer.between times (times ++ [time]) with replies := [b] } ∧
      held = none ∧ shown b = some (cut times.length time) := by
  cases h with
  | replied times time hshown =>
    obtain rfl := List.mem_singleton.mp hb
    exact ⟨times, time, rfl, rfl, hshown⟩
  | _ => cases hb

theorem inStep_step {v w : Peer × Option Bytes} (h : InStep v) (hs : Sound v)
    (hst : Peer.Step sends loses False v w) : InStep w := by
  cases hst with
  | send hsends hidle hnum =>
    obtain ⟨times, rfl, rfl⟩ := h.of_idle hidle
    exact .asked times
  | recv hb =>
    obtain ⟨k, hk, heq⟩ := hs.requests _ hb
    obtain ⟨times, rfl, -, rfl⟩ := h.of_request hb
    rw [heq, take_request (hk.trans hs.num), ← heq]
    rw [takeRequest_asked]
    exact .held times
  | reply time sbuf =>
    obtain ⟨times, rfl, rfl⟩ := h.of_held
    have hnum : times.length < 2 ^ 31 := (Nat.lt_succ_self _).trans hs.num
    rw [answer_between]
    exact .replied times time (shown_reply hnum sbuf time)
  | receive hwait hb htext =>
    obtain ⟨times, time, rfl, rfl, hshown⟩ := h.of_reply hb
    obtain rfl := Option.some.inj (htext.symm.trans hshown)
    rw [takeReply_replied, print_between]
    exact .idle (times ++ [time])
  | loseRequest hloses hb =>
    obtain ⟨times, rfl, rfl, rfl⟩ := h.of_request hb
    rw [takeRequest_asked]
    exact .lost times (.inl rfl)
  | loseReply hloses hb =>
    obtain ⟨times, time, rfl, rfl, hshown⟩ := h.of_reply hb
    rw [takeReply_replied]
    exact .lost times (.inr ⟨time, rfl⟩)
  | repeatRequest hrepeats hb => exact absurd hrepeats id
  | repeatReply hrepeats hb => exact absurd hrepeats id

theorem InStep.waiting_of_lost (h : InStep (p, held)) (hlost : p.lost ≠ 0) :
    p.waiting = true := by
  cases h with
  | lost times hanswered => rfl
  | _ => exact absurd rfl hlost

/-- A client whose datagram was lost takes no step. -/
theorem not_step_of_lost {v w : Peer × Option Bytes} (h : InStep v) (hlost : v.1.lost ≠ 0) :
    ¬ Peer.Step sends loses False v w := by
  intro hst
  cases h with
  | lost times hanswered =>
    cases hst with
    | send hsends hidle hnum => cases hidle
    | recv hb => cases hb
    | receive hwait hb htext => cases hb
    | loseRequest hloses hb => cases hb
    | loseReply hloses hb => cases hb
    | repeatRequest hrepeats hb => exact hrepeats
    | repeatReply hrepeats hb => exact hrepeats
  | _ => exact hlost rfl

/-! ## All of them -/

variable {sbuf : Buffer}

theorem sound_run (h : ReflTransGen (Step sends loses repeats) { sbuf := sbuf } s) (c : κ) :
    Sound (s.view c) :=
  invariant_of_step (fun _ _ => sound_step) sound_init (view_run h c)

theorem inStep_run (h : ReflTransGen (Step sends loses False) { sbuf := sbuf } s) (c : κ) :
    InStep (s.view c) :=
  (invariant_of_step (P := fun v => Sound v ∧ InStep v)
    (fun _ _ h hst => ⟨sound_step h.1 hst, inStep_step h.2 h.1 hst⟩)
    ⟨sound_init, .idle []⟩ (view_run h c)).2

/-- What is under way for a client, each datagram as often as it has steps ahead. -/
def Peer.ahead (p : Peer) : Nat := 3 * p.requests.length + p.replies.length

/-- The steps left where no client sends. -/
def ahead [Fintype κ] (s : State κ) : Nat :=
  ∑ c, (s.peer c).ahead + if s.serving.isSome then 2 else 0

theorem ahead_takeRequest {b : Bytes} (hb : b ∈ p.requests) :
    (p.takeRequest b).ahead + 3 = p.ahead := by
  have hlen := List.length_erase_add_one hb
  show 3 * (p.requests.erase b).length + p.replies.length + 3 = p.ahead
  unfold Peer.ahead
  omega

theorem ahead_takeReply {b : Bytes} (hb : b ∈ p.replies) :
    (p.takeReply b).ahead + 1 = p.ahead := by
  have hlen := List.length_erase_add_one hb
  show 3 * p.requests.length + (p.replies.erase b).length + 1 = p.ahead
  unfold Peer.ahead
  omega

theorem ahead_step [Fintype κ] (h : Step False loses False s t) : ahead t < ahead s := by
  have hsum : ∀ c p, ∑ d, ((s.set c p).peer d).ahead + (s.peer c).ahead =
      ∑ d, (s.peer d).ahead + p.ahead := fun c p => sum_update Peer.ahead s.peer c p
  have hset : ∀ {c p}, p.ahead < (s.peer c).ahead → ahead (s.set c p) < ahead s := by
    intro c p hlt
    have := hsum c p
    show ∑ d, ((s.set c p).peer d).ahead + (if s.serving.isSome then 2 else 0) < ahead s
    unfold ahead
    omega
  cases h with
  | send hsends hidle hnum => exact absurd hsends id
  | @recv c b hserving hb =>
    have := hsum c ((s.peer c).takeRequest b)
    have := ahead_takeRequest hb
    unfold ahead
    rw [hserving]
    show ∑ d, ((s.set c ((s.peer c).takeRequest b)).peer d).ahead + 2 <
      ∑ d, (s.peer d).ahead + 0
    omega
  | @reply c buf time hserving =>
    have hone : ((s.peer c).answer buf time s.sbuf).ahead = (s.peer c).ahead + 1 := by
      show 3 * (s.peer c).requests.length + ((s.peer c).replies ++ [_]).length = _
      rw [List.length_append]
      rfl
    have := hsum c ((s.peer c).answer buf time s.sbuf)
    unfold ahead
    rw [hserving]
    show ∑ d, ((s.set c ((s.peer c).answer buf time s.sbuf)).peer d).ahead + 0 <
      ∑ d, (s.peer d).ahead + 2
    omega
  | receive hwait hb htext => exact hset (Nat.lt_of_succ_le (ahead_takeReply hb).le)
  | loseRequest hloses hb =>
    have := ahead_takeRequest hb
    exact hset (show ((s.peer _).takeRequest _).ahead < _ by omega)
  | loseReply hloses hb => exact hset (Nat.lt_of_succ_le (ahead_takeReply hb).le)
  | repeatRequest hrepeats hb => exact absurd hrepeats id
  | repeatReply hrepeats hb => exact absurd hrepeats id

/-- Where nothing is left to do but to send, a client has read all answers or lost a datagram. -/
theorem idle_of_final (hfinal : Final (Step False False False) s) (h : InStep (s.view c))
    (hlost : (s.peer c).lost = 0) : ∃ times, s.peer c = .idle times := by
  have hserving : s.serving = none := by
    cases hserving : s.serving with
    | none => rfl
    | some q => exact absurd (.reply default hserving) (hfinal _)
  have hheld : s.held c = none := held_none hserving
  generalize hview : s.view c = v at h
  obtain ⟨hpeer, hnone⟩ := Prod.ext_iff.mp hview
  cases h with
  | idle times => exact ⟨times, hpeer⟩
  | asked times =>
    have hb : request times.length ∈ (s.peer c).requests := by
      rw [show s.peer c = _ from hpeer]
      exact List.mem_cons_self
    exact absurd (.recv hserving hb) (hfinal _)
  | held times =>
    rw [show s.view c = (_, s.held c) from rfl, hheld] at hnone
    cases hnone
  | @replied times time b hshown =>
    have hb : b ∈ (s.peer c).replies := by
      rw [show s.peer c = _ from hpeer]
      exact List.mem_cons_self
    have hwait : (s.peer c).waiting = true := by
      rw [show s.peer c = _ from hpeer]
      rfl
    exact absurd (.receive hwait hb hshown) (hfinal _)
  | lost times hanswered =>
    rw [show s.peer c = _ from hpeer] at hlost
    cases hlost

/-- What a client has read, of what the server has answered it. -/
theorem InStep.read (h : InStep (p, held)) :
    ∃ times : List Time, p.answers = numbered times ∧ p.printed.length ≤ times.length ∧
      p.printed = texts (times.take p.printed.length) ∧
      p.num = p.printed.length + if p.waiting then 1 else 0 := by
  have hlen : ∀ times : List Time, (texts times).length = times.length :=
    fun _ => List.length_mapIdx
  have hread : ∀ {times answered : List Time} {p : Peer}, times <+: answered →
      p.answers = numbered answered → p.printed = texts times →
      p.num = times.length + (if p.waiting then 1 else 0) →
      ∃ times : List Time, p.answers = numbered times ∧ p.printed.length ≤ times.length ∧
        p.printed = texts (times.take p.printed.length) ∧
        p.num = p.printed.length + if p.waiting then 1 else 0 := by
    intro times answered p hpre hanswers hprinted hnum
    refine ⟨answered, hanswers, ?_, ?_, ?_⟩
    · rw [hprinted, hlen]
      exact hpre.length_le
    · rw [hprinted, hlen, ← List.prefix_iff_eq_take.mp hpre]
    · rw [hprinted, hlen]
      exact hnum
  cases h with
  | idle times => exact hread (List.prefix_refl times) rfl rfl rfl
  | asked times => exact hread (List.prefix_refl times) rfl rfl rfl
  | held times => exact hread (List.prefix_refl times) rfl rfl rfl
  | replied times time hshown => exact hread (List.prefix_append times [time]) rfl rfl rfl
  | lost times hanswered =>
    rcases hanswered with rfl | ⟨time, rfl⟩
    · exact hread (List.prefix_refl _) rfl rfl rfl
    · exact hread (List.prefix_append times [time]) rfl rfl rfl

/-- **The answers.** Whatever becomes of the datagrams, a client prints the answers the server gave
to its own requests, each cut at the length of the request. Where nothing is repeated, the server
answers the requests of a client one after the other, and the client prints the answers in that
order, none left out. A client that has lost a datagram stays where it is for ever, and once no
client sends any more all the others have read the answer to their last request. -/
theorem answers_in_step [Fintype κ] {sends loses repeats : Prop} {sbuf : Buffer} {s : State κ}
    (hrun : ReflTransGen (Step sends loses repeats) { sbuf := sbuf } s) :
    (∀ c, ∀ text ∈ (s.peer c).printed, ∃ k < (s.peer c).num, ∃ time,
      ⟨request k, time⟩ ∈ (s.peer c).answers ∧ text = cut k time) ∧
    (¬ repeats →
      (∀ c, ∃ times : List Time, (s.peer c).answers = numbered times ∧
        (s.peer c).printed.length ≤ times.length ∧
        (s.peer c).printed = texts (times.take (s.peer c).printed.length) ∧
        (s.peer c).num = (s.peer c).printed.length + if (s.peer c).waiting then 1 else 0) ∧
      (∀ c, (s.peer c).lost ≠ 0 → (s.peer c).waiting = true ∧
        ∀ t, ReflTransGen (Step sends loses repeats) s t → t.peer c = s.peer c) ∧
      Terminates (Step False loses False) s ∧
      (Final (Step False False False) s → ∀ c, (s.peer c).lost = 0 →
        (s.peer c).waiting = false ∧ (s.peer c).printed.length = (s.peer c).num)) := by
  refine ⟨fun c text htext => ?_, fun hrepeats => ?_⟩
  · have hsound := sound_run hrun c
    obtain ⟨k, time, hmem, heq⟩ := hsound.printed text htext
    obtain ⟨j, hj, hjk⟩ := hsound.answers _ hmem
    obtain rfl : k = j := request_injective hjk
    exact ⟨k, hj, time, hmem, heq⟩
  · obtain rfl : repeats = False := eq_false hrepeats
    refine ⟨fun c => (inStep_run hrun c).read, fun c hlost => ⟨?_, fun t ht => ?_⟩, ?_, ?_⟩
    · exact (inStep_run hrun c).waiting_of_lost hlost
    · have hstuck : ∀ w, ¬ Peer.Step sends loses False (s.view c) w :=
        fun w => not_step_of_lost (inStep_run hrun c) hlost
      exact congrArg Prod.fst ((reflTransGen_iff_eq hstuck).mp (view_run ht c))
    · exact terminates_of_measure ahead (fun _ _ _ hst => ⟨trivial, ahead_step hst⟩)
        (P := fun _ => True) trivial
    · intro hfinal c hlost
      obtain ⟨times, heq⟩ := idle_of_final hfinal (inStep_run hrun c) hlost
      rw [heq]
      exact ⟨rfl, List.length_mapIdx⟩

/-- One client, whose first request is lost. -/
def lostFirst : State Unit :=
  let start : State Unit := { sbuf := ⟨List.replicate MAXBUF 0, List.length_replicate⟩ }
  let sent := start.set () (start.peer ()).send
  sent.set () ((sent.peer ()).takeRequest (request 0)).lose

theorem answers_in_step_lostFirst :
    (lostFirst.peer ()).waiting = true ∧ Terminates (Step False True False) lostFirst := by
  have hrun : ReflTransGen (Step True True False)
      { sbuf := ⟨List.replicate MAXBUF 0, List.length_replicate⟩ } lostFirst :=
    (ReflTransGen.refl.tail (.send (c := ()) trivial rfl (by decide))).tail
      (.loseRequest trivial List.mem_cons_self)
  have h := (answers_in_step hrun).2 id
  exact ⟨(h.2.1 () (by decide)).1, h.2.2.1⟩

end LearnNotes.Web.Udp
