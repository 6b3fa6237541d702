import LearnNotes.Net.Integrity

/-!
# A header that does not arrive

`hrecv` drops what the first `sread` returns. Where the peer closes or `recv` fails inside the
header, `fn` is asked about the bytes that came and, behind them, those of the caller's last
header, and what it accepts is read on as a packet: `short_header_examined`.
-/

namespace LearnNotes.Net

open Lib

/-- The peer closes or `recv` fails before the header is there. -/
def ShortHeader (ρ : Schedule) (io : Incoming) : Prop :=
  (sread ρ HPACK_SIZE io).2.1.length < HPACK_SIZE

instance (ρ : Schedule) (io : Incoming) : Decidable (ShortHeader ρ io) :=
  inferInstanceAs (Decidable (_ < _))

/-- `hrecv`, and the headers it calls `fn` on. -/
def hrecvExamined (e : Endian) (ρ : Schedule) (fn : hpack_t → Bool) (hd : hpack_t)
    (io : Incoming) : Received × List hpack_t :=
  let (hd, io) := recvHeader e ρ hd io
  if !fn hd then (⟨-1, [], hd, io⟩, [hd])
  else
    let (ret, msg, io) := sread ρ (toInt hd.packet_size.toNat) io
    (⟨ret, msg, hd, io⟩, [hd])

/-- The call comes to nothing: no header is examined and no payload read. -/
structure Ignored (r : Received × List hpack_t) : Prop where
  ret : r.1.ret ≤ 0
  unexamined : r.2 = []
  unread : r.1.msg = []

variable {e : Endian} {ρ : Schedule} {fn : hpack_t → Bool} {hd : hpack_t} {io : Incoming}

theorem hrecvExamined_eq {hd' : hpack_t} {io' : Incoming} (h : recvHeader e ρ hd io = (hd', io')) :
    hrecvExamined e ρ fn hd io = (hrecv e ρ fn hd io, [hd']) := by
  have heq : hrecvExamined e ρ fn hd io =
      if !fn hd' then (⟨-1, [], hd', io'⟩, [hd'])
      else
        let (ret, msg, io) := sread ρ (toInt hd'.packet_size.toNat) io'
        (⟨ret, msg, hd', io⟩, [hd']) := by
    unfold hrecvExamined
    rw [h]
  rw [heq]
  cases hfn : fn hd' with
  | false =>
    rw [hrecv_of_rejected h hfn]
    rfl
  | true =>
    rcases hs : sread ρ (toInt hd'.packet_size.toNat) io' with ⟨ret, msg, io''⟩
    rw [hrecv_of_accepted h hfn hs]
    rfl

theorem hrecvExamined_fst : (hrecvExamined e ρ fn hd io).1 = hrecv e ρ fn hd io := by
  rcases h : recvHeader e ρ hd io with ⟨hd', io'⟩
  rw [hrecvExamined_eq h]

/-- `fn` is called once, whatever the first `sread` returned. -/
theorem hrecvExamined_snd :
    (hrecvExamined e ρ fn hd io).2 = [mixed e (headerBytes ρ io) hd] := by
  rw [← recvHeader_fst]
  rcases h : recvHeader e ρ hd io with ⟨hd', io'⟩
  rw [hrecvExamined_eq h]

/-- A peer that closes early, with no `recv` failing. -/
theorem shortHeader_iff (hρ : NoErrors ρ) : ShortHeader ρ io ↔ io.rest.length < HPACK_SIZE := by
  unfold ShortHeader
  constructor
  · contrapose!
    intro h
    obtain ⟨calls, hread⟩ := sread_available hρ io h
    rw [hread, List.length_take_of_le h]
  · intro h
    obtain ⟨ret, k, calls, hk, hread⟩ := sread_swap ρ HPACK_SIZE io.calls io.rest.length
    have hio : sread ρ HPACK_SIZE io = _ := hread io.rest rfl
    rw [hio, List.length_take_of_le hk]
    omega

/-- The peer closes at once, and the caller's header is examined. -/
theorem closed_examined :
    ShortHeader (fun _ => some 1) ⟨0, []⟩ ∧
      ¬ Ignored (hrecvExamined .little (fun _ => some 1) dencrypt_fn hello ⟨0, []⟩) :=
  ⟨by decide, fun h => absurd h.unexamined (by decide)⟩

/-- **A header that did not arrive is examined**, made up of the bytes that came and the caller's
last header. -/
theorem short_header_examined (e : Endian) (ρ : Schedule) (fn : hpack_t → Bool) (hd : hpack_t)
    (io : Incoming) (h : ShortHeader ρ io) :
    (∃ bytes, bytes.length < HPACK_SIZE ∧ bytes <+: io.rest ∧
        (hrecvExamined e ρ fn hd io).2 = [mixed e bytes hd]) ∧
      ¬ Ignored (hrecvExamined e ρ fn hd io) := by
  refine ⟨⟨_, h, ?_, hrecvExamined_snd⟩, fun hi => ?_⟩
  · obtain ⟨ret, k, calls, -, hread⟩ := sread_swap ρ HPACK_SIZE io.calls io.rest.length
    have hio : sread ρ HPACK_SIZE io = _ := hread io.rest rfl
    rw [hio]
    exact List.take_prefix k io.rest
  · have hcall : (hrecvExamined e ρ fn hd io).2 = _ := hrecvExamined_snd
    rw [hi.unexamined] at hcall
    cases hcall

/-- The peer sends two bytes and closes. -/
theorem short_header_examined_hello :
    (∃ bytes, bytes.length < HPACK_SIZE ∧ bytes <+: [0x21, 0x07] ∧
        (hrecvExamined .little (fun _ => some 1) dencrypt_fn hello ⟨0, [0x21, 0x07]⟩).2 =
          [mixed .little bytes hello]) ∧
      ¬ Ignored (hrecvExamined .little (fun _ => some 1) dencrypt_fn hello ⟨0, [0x21, 0x07]⟩) :=
  short_header_examined .little (fun _ => some 1) dencrypt_fn hello ⟨0, [0x21, 0x07]⟩ (by decide)

end LearnNotes.Net
