import LearnNotes.Net.Link

/-!
# The conversation of `tcp_client` and `tcp_server`

With 10 bytes to spare behind `recvbuff`, while no call fails, packets arrive as they were sent,
there is never more than one under way, the sequence number counts through both directions, and the
server leaves its loop only behind a client that has gone. With fewer the first packet damages the
server. `Link.Inv` holds until then, `Link.Held` says when: `conversation_delivered`.
-/

namespace LearnNotes.Net

open Lib

/-- The packet under way, if there is one. -/
inductive Underway (e : Endian) (s : Link) : Prop
  | idle (received : s.received = s.sent) (answers : s.answers.length = s.sent.length)
      (returned : s.returned = s.answers) (up : s.up = []) (down : s.down = [])
  | request (p : Packet) (sent : s.sent = s.received ++ [p])
      (answers : s.answers.length = s.received.length) (returned : s.returned = s.answers)
      (up : s.up = packet e p.1 p.2) (down : s.down = [])
  | answer (p : Packet) (received : s.received = s.sent)
      (length : s.answers.length = s.sent.length) (answers : s.answers = s.returned ++ [p])
      (up : s.up = []) (down : s.down = packet e p.1 p.2)

/-- The invariant; `first` is the sequence number the client's header starts with. -/
structure Link.Inv (e : Endian) (first : UInt16) (s : Link) : Prop where
  underway : Underway e s
  sent : Numbered .tcp_client (first + 1) s.sent
  answers : Numbered .tcp_server (first + 2) s.answers
  typing : ∀ hpt, s.client = .typing hpt → s.returned.length = s.sent.length ∧
    hpt.packet_seq = first + UInt16.ofNat (2 * s.sent.length)
  waiting : ∀ hpt, s.client = .waiting hpt → s.returned.length < s.sent.length
  left : s.server = .left → s.closed = true ∧ s.up = []
  server : ∀ hpt, s.server = .serving hpt → ¬ Phantom e hpt ∧ ¬ Phantom e (stale e hpt) ∧
    (s.answers ≠ [] → ∃ p : Packet, Made .tcp_server p ∧
      hpt = { p.1 with packet_size := htonl e p.1.packet_size })
  sound : s.server ≠ .damaged

/-- There is nothing on the way to the server. -/
theorem Underway.ended {e : Endian} {s : Link} (h : Underway e s) (hup : s.up = [])
    (server : Server) : Underway e { s with server := server, up := [] } := by
  cases h with
  | idle received answers returned up down => exact .idle received answers returned rfl down
  | request p sent answers returned up down => exact absurd (up.symm.trans hup) (packet_ne_nil p)
  | answer p received length answers up down => exact .answer p received length answers rfl down

namespace Link

variable {e : Endian} {slack : Nat} {first : UInt16} {s : Link}

theorem Inv.init (client : hpack_t) {server : hpack_t} (h : ¬ Phantom e server)
    (h' : ¬ Phantom e (stale e server)) :
    (conversation e slack client server).init.Inv e client.packet_seq := by
  refine ⟨.idle rfl rfl rfl rfl rfl, fun k p hp => (by cases hp), fun k p hp => (by cases hp),
    fun hpt hhpt => ?_, fun hpt hhpt => (by cases hhpt), fun hnone => (by cases hnone),
    fun hpt hhpt => ?_, nofun⟩
  · cases hhpt
    exact ⟨rfl, (UInt16.add_zero _).symm⟩
  · cases hhpt
    exact ⟨h, h', fun hne => absurd rfl hne⟩

/-- A client at its prompt has its answers. -/
theorem Inv.idle (h : s.Inv e first) {hpt : hpack_t} (hc : s.client = .typing hpt) :
    s.received = s.sent ∧ s.answers.length = s.sent.length ∧ s.returned = s.answers ∧
      s.up = [] ∧ s.down = [] := by
  obtain ⟨hlen, -⟩ := h.typing hpt hc
  cases h.underway with
  | idle received answers returned up down => exact ⟨received, answers, returned, up, down⟩
  | request p sent answers returned up down =>
    rw [sent, List.length_append, List.length_singleton, returned] at hlen
    omega
  | answer p received length answers up down =>
    rw [answers, List.length_append, List.length_singleton] at length
    omega

/-- With a packet on the way to the server there is no answer on the way back. -/
theorem Inv.requested (h : s.Inv e first) {p : Packet} (hsent : s.sent = s.received ++ [p]) :
    s.answers.length = s.received.length ∧ s.returned = s.answers := by
  have hlen := congrArg List.length hsent
  rw [List.length_append, List.length_singleton] at hlen
  cases h.underway with
  | idle received answers returned up down =>
    rw [received] at hlen
    omega
  | request p sent answers returned up down => exact ⟨answers, returned⟩
  | answer p received length answers up down =>
    rw [received] at hlen
    omega

/-- **A line.** -/
theorem Inv.line (h : s.Inv e first) (msg : Vector UInt8 MAXSBUF) (timepoint : Int64)
    {σ : Schedule} (hσ : NoErrors σ) (fuel : Nat) :
    (s.line e msg timepoint σ fuel).Inv e first := by
  unfold Link.line
  cases hc : s.client with
  | waiting hpt => exact h
  | gone => exact h
  | typing hpt =>
    obtain ⟨hreceived, hanswers, hreturned, hup, hdown⟩ := h.idle hc
    obtain ⟨-, hseq⟩ := h.typing hpt hc
    have hmade := made_header .tcp_client msg timepoint hpt
    dsimp only
    cases hsend : hsend e σ fuel msg.toList (Endpoint.tcp_client.header msg timepoint hpt)
        ⟨0, s.up⟩ with
    | none => exact h
    | some r =>
      obtain ⟨ret, hpt', out⟩ := r
      obtain ⟨hret, -, hwire⟩ := hsend_returned hσ hmade.sendable hsend
      rw [hup, List.nil_append] at hwire
      dsimp only
      rw [if_neg hret]
      refine ⟨.request _ (by rw [hreceived]) (by rw [hanswers, hreceived]) hreturned hwire hdown,
        numbered_snoc h.sent hmade ?_, h.answers, fun hpt'' hc'' => (by cases hc''),
        fun hpt'' _ => ?_, fun hnone => ?_, h.server, h.sound⟩
      · show hpt.packet_seq + 1 = _
        rw [hseq]
        ac_rfl
      · show s.returned.length < (s.sent ++ [_]).length
        rw [hreturned, hanswers, List.length_append, List.length_singleton]
        omega
      · have hgone := (h.left hnone).1
        unfold closed at hgone
        rw [hc] at hgone
        cases hgone

/-- **An answer read.** -/
theorem Inv.reply (h : s.Inv e first) {ρ : Schedule} (hρ : NoErrors ρ) :
    (s.reply e ρ).Inv e first := by
  unfold Link.reply
  cases hc : s.client with
  | typing hpt => exact h
  | gone => exact h
  | waiting hpt =>
    have hlt := h.waiting hpt hc
    have hopen : s.hungUp = false := by
      refine decide_eq_false fun hs => ?_
      have hgone := (h.left hs).1
      unfold closed at hgone
      rw [hc] at hgone
      cases hgone
    dsimp only
    cases h.underway with
    | idle received answers returned up down => rw [returned, answers] at hlt; omega
    | request p sent answers returned up down =>
      rw [down, returns_nil, hopen]
      exact h
    | answer p received length answers up down =>
      have hnum := h.answers
      rw [answers] at hnum
      obtain ⟨hmade, hseq⟩ := hnum.last
      obtain ⟨calls, hrecv⟩ := hrecv_sendable (e := e) hρ hmade.sendable hpt
      have hpos : ¬ ((p.1.packet_size.toNat : Int) ≤ 0) := by
        rw [hmade.toNat_size]
        decide
      rw [down, returns_packet hmade.sendable, if_pos rfl, hrecv]
      dsimp only
      rw [if_neg hpos]
      refine ⟨.idle received length answers.symm up rfl, h.sent, h.answers,
        fun hpt' hc' => ?_, fun hpt' hc' => (by cases hc'), fun hnone => ?_, h.server, h.sound⟩
      · cases hc'
        have hlen : (s.returned ++ [p]).length = s.sent.length := by rw [← answers, length]
        refine ⟨hlen, ?_⟩
        have htwo : UInt16.ofNat (2 * (s.returned.length + 1)) =
            UInt16.ofNat (2 * s.returned.length) + 2 := UInt16.ofNat_add ..
        rw [hseq, ← hlen, List.length_append, List.length_singleton, htwo]
        ac_rfl
      · exact absurd hnone (of_decide_eq_false hopen)

/-- **SIGINT.** -/
theorem Inv.sigint (h : s.Inv e first) : s.sigint.Inv e first := by
  refine ⟨?_, h.sent, h.answers, fun hpt hc => (by cases hc), fun hpt hc => (by cases hc),
    fun hnone => ⟨rfl, (h.left hnone).2⟩, h.server, h.sound⟩
  cases h.underway with
  | idle received answers returned up down => exact .idle received answers returned up down
  | request p sent answers returned up down => exact .request p sent answers returned up down
  | answer p received length answers up down => exact .answer p received length answers up down

/-- `hrecv` at the end of the stream: it fails, or it returns 0 and the header was accepted. -/
theorem hrecv_ended_cases {ρ : Schedule} (hρ : NoErrors ρ) {hpt : hpack_t} (h : ¬ Phantom e hpt) :
    ∃ calls, hrecv e ρ dencrypt_fn hpt ⟨0, []⟩ = ⟨-1, [], stale e hpt, ⟨calls, []⟩⟩ ∨
      hrecv e ρ dencrypt_fn hpt ⟨0, []⟩ = ⟨0, [], stale e hpt, ⟨calls, []⟩⟩ := by
  obtain ⟨calls, hrecv⟩ := hrecv_ended (e := e) hρ hpt
  refine ⟨calls, ?_⟩
  rw [hrecv]
  cases hfn : dencrypt_fn (stale e hpt) with
  | false => exact .inl rfl
  | true =>
    rw [if_pos rfl]
    have hsize : ¬ toInt (stale e hpt).packet_size.toNat < -1 := fun hneg => h ⟨hfn, hneg⟩
    rcases lt_or_ge (toInt (stale e hpt).packet_size.toNat) 0 with hneg | hpos
    · rw [min_eq_left (by omega), show toInt (stale e hpt).packet_size.toNat = -1 by omega]
      exact .inl rfl
    · rw [min_eq_right hpos]
      exact .inr rfl

/-- Behind an answered line the server's header is accepted once more. -/
theorem hrecv_ended_sent {ρ : Schedule} (hρ : NoErrors ρ) {ep : Endpoint} {p : Packet}
    (h : Made ep p) :
    ∃ calls, hrecv e ρ dencrypt_fn { p.1 with packet_size := htonl e p.1.packet_size } ⟨0, []⟩ =
      ⟨0, [], p.1, ⟨calls, []⟩⟩ := by
  obtain ⟨calls, hrecv⟩ := hrecv_ended (e := e) hρ
    { p.1 with packet_size := htonl e p.1.packet_size }
  refine ⟨calls, ?_⟩
  have hfn : dencrypt_fn p.1 = true := beq_iff_eq.mpr h.sendable.version.symm
  rw [hrecv, stale_sent, hfn, if_pos rfl, h.toNat_size]
  rfl

section Serve

variable {hpt hd : hpack_t} {calls : Nat} {ρ σ : Schedule}

/-- The server goes on when `hrecv` fails at the end of the stream. -/
theorem serve_rejected (hs : s.server = .serving hpt) (hover : s.closed = true ∧ s.up = [])
    (hrecv : hrecv e ρ dencrypt_fn hpt ⟨0, []⟩ = ⟨-1, [], hd, ⟨calls, []⟩⟩)
    (text : Vector UInt8 MAXSBUF) (timepoint : Int64) (fuel : Nat) :
    s.serve e slack ρ text timepoint σ fuel = { s with server := .serving hd, up := [] } := by
  unfold Link.serve
  rw [hs]
  dsimp only
  rw [hover.2, returns_nil, hover.1, if_pos rfl, hrecv]
  dsimp only
  rw [if_neg (by exact Nat.not_lt_zero _), if_pos rfl]

/-- It leaves when `hrecv` returns 0. -/
theorem serve_left (hs : s.server = .serving hpt) (hover : s.closed = true ∧ s.up = [])
    (hrecv : hrecv e ρ dencrypt_fn hpt ⟨0, []⟩ = ⟨0, [], hd, ⟨calls, []⟩⟩)
    (text : Vector UInt8 MAXSBUF) (timepoint : Int64) (fuel : Nat) :
    s.serve e slack ρ text timepoint σ fuel = { s with server := .left, up := [] } := by
  unfold Link.serve
  rw [hs]
  dsimp only
  rw [hover.2, returns_nil, hover.1, if_pos rfl, hrecv]
  dsimp only
  rw [if_neg (by exact Nat.not_lt_zero _), if_neg (by decide), if_pos rfl]

/-- Out of its loop it does nothing. -/
theorem serve_out (hs : ∀ hpt, s.server ≠ .serving hpt) (text : Vector UInt8 MAXSBUF)
    (timepoint : Int64) (fuel : Nat) : s.serve e slack ρ text timepoint σ fuel = s := by
  unfold Link.serve
  cases hc : s.server with
  | serving hpt => exact absurd hc (hs hpt)
  | left => rfl
  | damaged => rfl

/-- What `hrecv` of the packet under way returns. -/
theorem Inv.hrecv_request (h : s.Inv e first) {p : Packet} (hsent : s.sent = s.received ++ [p])
    (hρ : NoErrors ρ) (hpt : hpack_t) :
    Made .tcp_client p ∧ ∃ calls, hrecv e ρ dencrypt_fn hpt ⟨0, packet e p.1 p.2⟩ =
      ⟨MAXSBUF, p.2, p.1, ⟨calls, []⟩⟩ := by
  have hnum := h.sent
  rw [hsent] at hnum
  obtain ⟨hmade, -⟩ := hnum.last
  obtain ⟨calls, hrecv⟩ := hrecv_sendable (e := e) hρ hmade.sendable hpt
  rw [hmade.toNat_size] at hrecv
  exact ⟨hmade, calls, hrecv⟩

/-- A packet there, and too little room behind `recvbuff`. -/
theorem Inv.serve_overrun (h : s.Inv e first) (hroom : MAXRBUF + slack < MAXSBUF) {p : Packet}
    (hsent : s.sent = s.received ++ [p]) (hup : s.up = packet e p.1 p.2)
    (hs : s.server = .serving hpt) (hρ : NoErrors ρ) (text : Vector UInt8 MAXSBUF)
    (timepoint : Int64) (fuel : Nat) :
    s.serve e slack ρ text timepoint σ fuel = { s with server := .damaged, up := [] } := by
  obtain ⟨hmade, calls, hrecv⟩ := h.hrecv_request hsent hρ hpt
  have hlong : MAXRBUF + slack < p.2.length := by
    rw [hmade.sendable.length, hmade.toNat_size]
    exact hroom
  unfold Link.serve
  rw [hs]
  dsimp only
  rw [hup, returns_packet hmade.sendable, if_pos rfl, hrecv]
  dsimp only
  rw [if_pos hlong]

/-- The link behind the server's answer to `p`. -/
def answered (e : Endian) (s : Link) (p : Packet) (hd : hpack_t) (text : Vector UInt8 MAXSBUF) :
    Link :=
  { s with
    server := .serving { hd with packet_size := htonl e hd.packet_size }, up := []
    down := packet e hd text.toList, received := s.received ++ [p]
    answers := s.answers ++ [(hd, text.toList)] }

/-- What the server's call can do. -/
inductive Served (e : Endian) (slack : Nat) (s : Link) (text : Vector UInt8 MAXSBUF)
    (timepoint : Int64) : Link → Prop
  | waits : Served e slack s text timepoint s
  | rejects (hpt : hpack_t) (ended : s.closed = true ∧ s.up = []) (hs : s.server = .serving hpt)
      (answers : s.answers = []) :
      Served e slack s text timepoint { s with server := .serving (stale e hpt), up := [] }
  | leaves (ended : s.closed = true ∧ s.up = []) :
      Served e slack s text timepoint { s with server := .left, up := [] }
  | overruns (up : s.up ≠ []) (room : MAXRBUF + slack < MAXSBUF) :
      Served e slack s text timepoint { s with server := .damaged, up := [] }
  | answers (p : Packet) (sent : s.sent = s.received ++ [p]) (room : MAXSBUF ≤ MAXRBUF + slack) :
      Served e slack s text timepoint
        (s.answered e p (Endpoint.tcp_server.header text timepoint p.1) text)

/-- With nothing on the way to it. -/
theorem Inv.served_ended (h : s.Inv e first) (hs : s.server = .serving hpt) (hup : s.up = [])
    (hρ : NoErrors ρ) (text : Vector UInt8 MAXSBUF) (timepoint : Int64) (fuel : Nat) :
    Served e slack s text timepoint (s.serve e slack ρ text timepoint σ fuel) := by
  cases hclosed : s.closed with
  | false =>
    have hwaits : s.serve e slack ρ text timepoint σ fuel = s := by
      unfold Link.serve
      rw [hs]
      dsimp only
      rw [hup, returns_nil, hclosed]
      rfl
    rw [hwaits]
    exact .waits
  | true =>
    obtain ⟨hphantom, -, hsent⟩ := h.server hpt hs
    by_cases hne : s.answers = []
    · obtain ⟨calls, hrecv | hrecv⟩ := hrecv_ended_cases (e := e) hρ hphantom
      · rw [serve_rejected hs ⟨hclosed, hup⟩ hrecv]
        exact .rejects hpt ⟨hclosed, hup⟩ hs hne
      · rw [serve_left hs ⟨hclosed, hup⟩ hrecv]
        exact .leaves ⟨hclosed, hup⟩
    · obtain ⟨p, hp, rfl⟩ := hsent hne
      obtain ⟨calls, hrecv⟩ := hrecv_ended_sent (e := e) hρ hp
      rw [serve_left hs ⟨hclosed, hup⟩ hrecv]
      exact .leaves ⟨hclosed, hup⟩

/-- With a packet there, and room for it. -/
theorem Inv.served_request (h : s.Inv e first) (hs : s.server = .serving hpt)
    (hroom : MAXSBUF ≤ MAXRBUF + slack) {p : Packet} (hsent : s.sent = s.received ++ [p])
    (hup : s.up = packet e p.1 p.2) (hdown : s.down = []) (hρ : NoErrors ρ) (hσ : NoErrors σ)
    (text : Vector UInt8 MAXSBUF) (timepoint : Int64) (fuel : Nat) :
    Served e slack s text timepoint (s.serve e slack ρ text timepoint σ fuel) := by
  obtain ⟨hmade, calls, hrecv⟩ := h.hrecv_request hsent hρ hpt
  have hanswer := made_header .tcp_server text timepoint p.1
  have hfits : ¬ MAXRBUF + slack < p.2.length := by
    rw [hmade.sendable.length, hmade.toNat_size]
    exact not_lt.mpr hroom
  unfold Link.serve
  rw [hs]
  dsimp only
  rw [hup, returns_packet hmade.sendable, if_pos rfl, hrecv]
  dsimp only
  rw [if_neg hfits, if_neg (by decide), if_neg (by decide)]
  cases hsend : hsend e σ fuel text.toList (Endpoint.tcp_server.header text timepoint p.1)
      ⟨0, s.down⟩ with
  | none => exact .waits
  | some r =>
    obtain ⟨ret, hpt', out⟩ := r
    obtain ⟨hret, hhpt, hwire⟩ := hsend_returned hσ hanswer.sendable hsend
    rw [hdown, List.nil_append] at hwire
    dsimp only
    rw [if_neg hret, hhpt, hwire]
    exact .answers p hsent hroom

theorem Inv.served (h : s.Inv e first) (hρ : NoErrors ρ) (hσ : NoErrors σ)
    (text : Vector UInt8 MAXSBUF) (timepoint : Int64) (fuel : Nat) :
    Served e slack s text timepoint (s.serve e slack ρ text timepoint σ fuel) := by
  cases hs : s.server with
  | left =>
    rw [serve_out fun hpt => by rw [hs]; nofun]
    exact .waits
  | damaged => exact absurd hs h.sound
  | serving hpt =>
    cases h.underway with
    | idle received answers returned up down => exact h.served_ended hs up hρ text timepoint fuel
    | answer p received length answers up down =>
      exact h.served_ended hs up hρ text timepoint fuel
    | request p sent answers returned up down =>
      rcases le_or_gt MAXSBUF (MAXRBUF + slack) with hroom | hroom
      · exact h.served_request hs hroom sent up down hρ hσ text timepoint fuel
      · rw [h.serve_overrun hroom sent up hs hρ text timepoint fuel]
        exact .overruns (up ▸ packet_ne_nil p) hroom

end Serve

/-- **A call of the server**, where it does not overrun its buffer. -/
theorem Inv.serve (h : s.Inv e first) {text : Vector UInt8 MAXSBUF} {timepoint : Int64}
    {s' : Link} (hserved : Served e slack s text timepoint s') (hsound : s'.server ≠ .damaged) :
    s'.Inv e first := by
  cases hserved with
  | waits => exact h
  | overruns up room => exact absurd rfl hsound
  | rejects hpt ended hs answers =>
    obtain ⟨hphantom, hstale, -⟩ := h.server hpt hs
    refine ⟨h.underway.ended ended.2 _, h.sent, h.answers, h.typing, h.waiting,
      fun hnone => (by cases hnone), fun hpt' hs' => ?_, hsound⟩
    cases hs'
    exact ⟨hstale, by rw [stale_stale]; exact hphantom, fun hans => absurd answers hans⟩
  | leaves ended =>
    exact ⟨h.underway.ended ended.2 _, h.sent, h.answers, h.typing, h.waiting,
      fun _ => ⟨ended.1, rfl⟩, fun hpt' hs' => (by cases hs'), hsound⟩
  | answers p sent room =>
    have hmade := made_header .tcp_server text timepoint p.1
    have hnum := h.sent
    rw [sent] at hnum
    obtain ⟨-, hseq⟩ := hnum.last
    obtain ⟨hlen, hreturned⟩ := h.requested sent
    refine ⟨.answer (Endpoint.tcp_server.header text timepoint p.1, text.toList) sent.symm ?_
      (congrArg (· ++ [_]) hreturned.symm) rfl rfl, h.sent, numbered_snoc h.answers hmade ?_,
      h.typing, h.waiting, fun hnone => (by cases hnone), fun hpt hs => ?_, hsound⟩
    · show (s.answers ++ [_]).length = s.sent.length
      rw [sent, List.length_append, List.length_append, hlen]
      rfl
    · show p.1.packet_seq + 1 = _
      rw [hseq, hlen]
      ac_rfl
    · cases hs
      obtain ⟨hp, hp'⟩ := hmade.not_phantom (e := e)
      rw [stale_sent]
      exact ⟨hp', hp, fun _ => ⟨_, hmade, rfl⟩⟩

/-- What is on the way to the server is a packet, and the server in its loop. -/
theorem Inv.request (h : s.Inv e first) (hup : s.up ≠ []) :
    ∃ p hpt, s.sent = s.received ++ [p] ∧ s.up = packet e p.1 p.2 ∧ s.server = .serving hpt := by
  obtain ⟨hpt, hs⟩ : ∃ hpt, s.server = .serving hpt := by
    cases hs : s.server with
    | serving hpt => exact ⟨hpt, rfl⟩
    | left => exact absurd (h.left hs).2 hup
    | damaged => exact absurd hs h.sound
  cases h.underway with
  | idle received answers returned up down => exact absurd up hup
  | answer p received length answers up down => exact absurd up hup
  | request p sent answers returned up down => exact ⟨p, hpt, sent, up, hs⟩

/-- A call is the server's, or it leaves the server and what it has done. -/
theorem call_cases (e : Endian) (slack : Nat) (s : Link) (c : Call) :
    (∃ ρ text timepoint σ fuel, c = .serve ρ text timepoint σ fuel) ∨
      (s.call e slack c).server = s.server ∧ (s.call e slack c).received = s.received ∧
        (s.call e slack c).answers = s.answers := by
  cases c with
  | serve ρ text timepoint σ fuel => exact .inl ⟨ρ, text, timepoint, σ, fuel, rfl⟩
  | sigint => exact .inr ⟨rfl, rfl, rfl⟩
  | line msg timepoint σ fuel =>
    refine .inr ?_
    show (s.line e msg timepoint σ fuel).server = _ ∧ (s.line e msg timepoint σ fuel).received = _ ∧
      (s.line e msg timepoint σ fuel).answers = _
    unfold Link.line
    split
    · dsimp only
      split
      · exact ⟨rfl, rfl, rfl⟩
      · split <;> exact ⟨rfl, rfl, rfl⟩
    · exact ⟨rfl, rfl, rfl⟩
  | reply ρ =>
    refine .inr ?_
    show (s.reply e ρ).server = _ ∧ (s.reply e ρ).received = _ ∧ (s.reply e ρ).answers = _
    unfold Link.reply
    split
    · split
      · dsimp only
        split <;> exact ⟨rfl, rfl, rfl⟩
      · exact ⟨rfl, rfl, rfl⟩
    · exact ⟨rfl, rfl, rfl⟩

/-- A server that is damaged stays so. -/
theorem call_damaged (hs : s.server = .damaged) (c : Call) :
    (s.call e slack c).server = .damaged ∧ (s.call e slack c).received = s.received := by
  rcases call_cases e slack s c with ⟨ρ, text, timepoint, σ, fuel, rfl⟩ | ⟨hserver, hreceived, -⟩
  · show (s.serve e slack ρ text timepoint σ fuel).server = .damaged ∧
      (s.serve e slack ρ text timepoint σ fuel).received = _
    rw [serve_out fun hpt => by rw [hs]; nofun]
    exact ⟨hs, rfl⟩
  · exact ⟨hserver.trans hs, hreceived⟩

/-- **One step**, where it does not overrun the buffer. -/
theorem Inv.call (h : s.Inv e first) {c : Call} (hc : c.NoError)
    (hsound : (s.call e slack c).server ≠ .damaged) : (s.call e slack c).Inv e first := by
  cases c with
  | line msg timepoint σ fuel => exact h.line msg timepoint hc.2 fuel
  | reply ρ => exact h.reply hc
  | sigint => exact h.sigint
  | serve ρ text timepoint σ fuel =>
    exact h.serve (h.served hc.1 hc.2 text timepoint fuel) hsound

/-- With 10 bytes to spare it overruns nothing. -/
theorem Served.sound {text : Vector UInt8 MAXSBUF} {timepoint : Int64} {s' : Link}
    (h : Served e slack s text timepoint s') (hroom : MAXSBUF ≤ MAXRBUF + slack)
    (hs : s.server ≠ .damaged) : s'.server ≠ .damaged := by
  cases h with
  | waits => exact hs
  | overruns up room => exact absurd room (not_lt.mpr hroom)
  | rejects hpt ended hs answers => nofun
  | leaves ended => nofun
  | answers p sent room => nofun

/-- With fewer it receives nothing. -/
theorem Served.received {text : Vector UInt8 MAXSBUF} {timepoint : Int64} {s' : Link}
    (h : Served e slack s text timepoint s') (hroom : MAXRBUF + slack < MAXSBUF) :
    s'.received = s.received := by
  cases h with
  | answers p sent room => exact absurd hroom (not_lt.mpr room)
  | _ => rfl

/-- What holds along a run, as much room as there is behind `recvbuff`. -/
structure Held (e : Endian) (slack : Nat) (first : UInt16) (s : Link) : Prop where
  inv : s.server ≠ .damaged → s.Inv e first
  roomy : MAXSBUF ≤ MAXRBUF + slack → s.server ≠ .damaged
  short : MAXRBUF + slack < MAXSBUF → s.received = []

theorem Held.init (client : hpack_t) {server : hpack_t} (h : ¬ Phantom e server)
    (h' : ¬ Phantom e (stale e server)) :
    (conversation e slack client server).init.Held e slack client.packet_seq :=
  ⟨fun _ => Inv.init client h h', fun _ => nofun, fun _ => rfl⟩

/-- **One step.** -/
theorem Held.call (h : s.Held e slack first) {c : Call} (hc : c.NoError) :
    (s.call e slack c).Held e slack first := by
  by_cases hs : s.server = .damaged
  · obtain ⟨hserver, hreceived⟩ : (s.call e slack c).server = .damaged ∧
        (s.call e slack c).received = s.received := call_damaged hs c
    exact ⟨fun hsound => absurd hserver hsound, fun hroom => absurd hs (h.roomy hroom),
      fun hroom => hreceived.trans (h.short hroom)⟩
  · have hinv := h.inv hs
    suffices hroom : (MAXSBUF ≤ MAXRBUF + slack → (s.call e slack c).server ≠ .damaged) ∧
        (MAXRBUF + slack < MAXSBUF → (s.call e slack c).received = []) from
      ⟨hinv.call hc, hroom.1, hroom.2⟩
    rcases call_cases e slack s c with
      ⟨ρ, text, timepoint, σ, fuel, rfl⟩ | ⟨hserver, hreceived, -⟩
    · have hserved : Served e slack s text timepoint (s.serve e slack ρ text timepoint σ fuel) :=
        hinv.served hc.1 hc.2 text timepoint fuel
      exact ⟨fun hroom => hserved.sound hroom hs,
        fun hroom => (hserved.received hroom).trans (h.short hroom)⟩
    · exact ⟨fun _ => hserver ▸ hs, fun hroom => hreceived.trans (h.short hroom)⟩

/-- A packet there, and too little room. -/
theorem Held.serve_damaged (h : s.Held e slack first) (hroom : MAXRBUF + slack < MAXSBUF)
    (hup : s.up ≠ []) {ρ : Schedule} (hρ : NoErrors ρ) (text : Vector UInt8 MAXSBUF)
    (timepoint : Int64) (σ : Schedule) (fuel : Nat) :
    (s.serve e slack ρ text timepoint σ fuel).server = .damaged := by
  by_cases hs : s.server = .damaged
  · rw [serve_out fun hpt => by rw [hs]; nofun]
    exact hs
  · have hinv := h.inv hs
    obtain ⟨p, hpt, hsent, hup, hserving⟩ := hinv.request hup
    rw [hinv.serve_overrun hroom hsent hup hserving hρ]

/-- What the users see: packets received as sent, one under way at most, numbered through. -/
structure Delivered (first : UInt16) (s : Link) : Prop where
  received : s.received <+: s.sent
  returned : s.returned <+: s.answers
  underway : s.sent.length + s.answers.length ≤ s.received.length + s.returned.length + 1
  turns : s.answers.length = s.received.length
  sent : Numbered .tcp_client (first + 1) s.sent
  answers : Numbered .tcp_server (first + 2) s.answers
  /-- The server has left its loop behind a client that has gone, with all it sent received. -/
  left : s.server = .left → s.closed = true ∧ s.received = s.sent

theorem Inv.delivered (h : s.Inv e first) : s.Delivered first := by
  have hreceived : s.up = [] → s.received = s.sent := by
    intro hup
    cases h.underway with
    | idle received => exact received
    | answer p received => exact received
    | request p sent answers returned up down => exact absurd (up.symm.trans hup) (packet_ne_nil p)
  cases h.underway with
  | idle received answers returned up down =>
    exact ⟨received ▸ List.prefix_refl _, returned ▸ List.prefix_refl _,
      by rw [received, returned]; omega, by rw [answers, received], h.sent, h.answers,
      fun hnone => ⟨(h.left hnone).1, received⟩⟩
  | request p sent answers returned up down =>
    exact ⟨sent ▸ List.prefix_append _ _, returned ▸ List.prefix_refl _,
      by rw [sent, returned, List.length_append, List.length_singleton]; omega, answers, h.sent,
      h.answers, fun hnone => ⟨(h.left hnone).1, hreceived (h.left hnone).2⟩⟩
  | answer p received length answers up down =>
    exact ⟨received ▸ List.prefix_refl _, answers ▸ List.prefix_append _ _,
      by rw [received, answers, List.length_append, List.length_singleton]; omega,
      by rw [length, received], h.sent, h.answers, fun hnone => ⟨(h.left hnone).1, received⟩⟩

end Link

/-! ## Whole runs -/

section Runs

variable {e : Endian} {slack : Nat} {client server : hpack_t} {cs : List Call}

theorem everyState_held (h : ¬ Phantom e server) (h' : ¬ Phantom e (stale e server))
    (hcs : ∀ c ∈ cs, c.NoError) :
    (conversation e slack client server).EveryState cs (Link.Held e slack client.packet_seq) :=
  Machine.everyState_of_guard (Link.Held.init client h h') (fun _ _ hs hc => hs.call hc)
    (Machine.everyStep_of_inputs hcs)

end Runs

end LearnNotes.Net
