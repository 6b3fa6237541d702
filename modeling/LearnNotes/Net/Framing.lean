import LearnNotes.Net.Endpoint

/-!
# Framing in the server's receive loop

The loop of `tcp_server.cpp` calls `hrecv` until it returns 0 and goes on after -1. A
rejected packet's message stays on the stream, and so does that of an accepted packet whose
size is negative as an `int`; what follows is then read as a header. Any other accepted
message is stored in `recvbuff`, and one that is longer overwrites what `main` has behind it,
the loop's variables and its return address: the rounds end in `damaged` there. `framed_iff`:
each call starts at its own packet exactly where every packet before the last that the loop
gets past is rejected with an empty message or accepted with one that `recvbuff` holds.
-/

namespace LearnNotes.Net

open Lib

/-- A round of the loop: a call, with the stream it starts on and the header it examines; or
nothing the code determines, `main`'s stack being overwritten. -/
inductive LoopRound where
  | call (start : List UInt8) (hd : hpack_t)
  | damaged
  deriving DecidableEq

/-- At most `n` rounds of the loop. `reply` is what an answered packet leaves in `hpt`. -/
def receiveLoop (e : Endian) (ρ : Schedule) (fn : hpack_t → Bool) (reply : hpack_t → hpack_t) :
    Nat → hpack_t → Incoming → List LoopRound
  | 0, _, _ => []
  | n + 1, hpt, io =>
    let r := hrecv e ρ fn hpt io
    .call io.rest r.hd ::
      if MAXRBUF < r.msg.length then [.damaged]
      else if r.ret = -1 then receiveLoop e ρ fn reply n r.hd r.io
      else if r.ret = 0 then []
      else receiveLoop e ρ fn reply n (reply r.hd) r.io

/-- A packet whose message has the size its header says. -/
def Complete (p : hpack_t × List UInt8) : Prop := p.2.length = p.1.packet_size.toNat

/-- The `k`-th round starts at the `k`-th packet and examines its header. -/
def Framed (e : Endian) (ps : List (hpack_t × List UInt8)) (rounds : List LoopRound) : Prop :=
  ∀ k p r, ps[k]? = some p → rounds[k]? = some r → r = LoopRound.call (stream e (ps.drop k)) p.1

/-- The packet is read to its end: rejected, it has no message; accepted, it fits `recvbuff`. -/
def Consumed (fn : hpack_t → Bool) (p : hpack_t × List UInt8) : Prop :=
  if fn p.1 then p.1.packet_size.toNat ≤ MAXRBUF else p.1.packet_size = 0

instance (fn : hpack_t → Bool) (p : hpack_t × List UInt8) : Decidable (Consumed fn p) :=
  by unfold Consumed; infer_instance

/-- The packet ends the loop: `hrecv` returns its size 0. -/
def Ends (fn : hpack_t → Bool) (p : hpack_t × List UInt8) : Prop :=
  fn p.1 = true ∧ p.1.packet_size = 0

/-- Every packet before the last that the loop reaches is read to its end. -/
def AllConsumed (fn : hpack_t → Bool) (ps : List (hpack_t × List UInt8)) : Prop :=
  ∀ j p, j + 1 < ps.length → ps[j]? = some p → (∀ q ∈ ps.take j, ¬ Ends fn q) → Consumed fn p

variable {e : Endian} {ρ : Schedule} {fn : hpack_t → Bool} {reply : hpack_t → hpack_t}

/-! ## One round -/

variable {p : hpack_t × List UInt8} {ps : List (hpack_t × List UInt8)}

theorem toNat_eq_zero {x : UInt32} : x = 0 ↔ x.toNat = 0 :=
  ⟨fun h => by rw [h]; rfl, fun h => UInt32.toNat_inj.mp h⟩

/-- A packet read to its end leaves the next one and fits the buffer; `hrecv` returns 0 exactly
where it ends the loop. -/
theorem hrecv_consumed (hρ : NoErrors ρ) (hp : Complete p) (hc : Consumed fn p)
    (hd : hpack_t) (calls : Nat) (rest : List UInt8) :
    ∃ ret calls' msg, hrecv e ρ fn hd ⟨calls, packet e p.1 (p.2 ++ rest)⟩ =
        ⟨ret, msg, p.1, ⟨calls', rest⟩⟩ ∧ msg.length ≤ MAXRBUF ∧ (ret = 0 ↔ Ends fn p) := by
  have hint : MAXRBUF < 2 ^ 31 := by decide
  unfold Consumed at hc
  cases hfn : fn p.1 with
  | false =>
    rw [hfn, if_neg (by decide)] at hc
    have hnil : p.2 = [] := by
      rw [← List.length_eq_zero_iff, hp, hc]
      rfl
    obtain ⟨calls', h⟩ := hrecv_rejected (e := e) hρ hd calls (p.2 ++ rest) hfn
    rw [hnil, List.nil_append] at h ⊢
    exact ⟨-1, calls', [], h, Nat.zero_le _, by simp [Ends, hfn]⟩
  | true =>
    rw [hfn, if_pos rfl] at hc
    obtain ⟨calls', h⟩ := hrecv_packet (e := e) hρ hd calls rest hfn hp (by omega)
    refine ⟨_, calls', _, h, hp ▸ hc, ?_⟩
    simp only [Ends, hfn, true_and, toNat_eq_zero]
    omega

/-- A packet not read to its end leaves its message, and the loop goes on; or its message goes
past the end of the buffer. -/
theorem hrecv_left (hρ : NoErrors ρ) (hp : Complete p) (hc : ¬ Consumed fn p)
    (hd : hpack_t) (calls : Nat) (rest : List UInt8) :
    p.2 ≠ [] ∧ ∃ ret calls' msg io', hrecv e ρ fn hd ⟨calls, packet e p.1 (p.2 ++ rest)⟩ =
        ⟨ret, msg, p.1, io'⟩ ∧
      (MAXRBUF < msg.length ∨ msg = [] ∧ io' = ⟨calls', p.2 ++ rest⟩ ∧ ret ≠ 0) := by
  unfold Consumed at hc
  cases hfn : fn p.1 with
  | false =>
    rw [hfn, if_neg (by decide)] at hc
    obtain ⟨calls', h⟩ := hrecv_rejected (e := e) hρ hd calls (p.2 ++ rest) hfn
    refine ⟨fun hnil => hc ?_, -1, calls', [], _, h, .inr ⟨rfl, rfl, by decide⟩⟩
    rw [toNat_eq_zero, ← hp, hnil]
    rfl
  | true =>
    rw [hfn, if_pos rfl, not_le] at hc
    have hne : p.2 ≠ [] := fun hnil => by
      rw [Complete, hnil, List.length_nil] at hp
      omega
    by_cases hint : p.1.packet_size.toNat < 2 ^ 31
    · obtain ⟨calls', h⟩ := hrecv_packet (e := e) hρ hd calls rest hfn hp hint
      exact ⟨hne, _, calls', _, _, h, .inl (hp ▸ hc)⟩
    · have hsize := not_lt.mp hint
      obtain ⟨calls', h⟩ := hrecv_oversized (e := e) hρ hd calls (p.2 ++ rest) hfn hsize
      have hneg := toInt_neg hsize p.1.packet_size.toNat_lt
      exact ⟨hne, _, calls', [], _, h, .inr ⟨rfl, rfl, by omega⟩⟩

/-! ## The loop -/

theorem framed_cons {r : LoopRound} {rs : List LoopRound} :
    Framed e (p :: ps) (r :: rs) ↔ r = .call (stream e (p :: ps)) p.1 ∧ Framed e ps rs := by
  constructor
  · intro h
    exact ⟨h 0 p r rfl rfl, fun k q d hq hd => h (k + 1) q d hq hd⟩
  · rintro ⟨h0, h⟩ k q d hq hd
    cases k with
    | zero =>
      cases hq
      cases hd
      exact h0
    | succ k => exact h k q d hq hd

theorem allConsumed_cons (q : hpack_t × List UInt8) :
    AllConsumed fn (p :: q :: ps) ↔
      Consumed fn p ∧ (¬ Ends fn p → AllConsumed fn (q :: ps)) := by
  constructor
  · intro h
    refine ⟨h 0 p (by simp) rfl (by simp), fun he j r hj hr hends => ?_⟩
    refine h (j + 1) r (by simpa using hj) hr fun s hs => ?_
    rw [List.take_succ_cons] at hs
    rcases List.mem_cons.mp hs with rfl | hs
    · exact he
    · exact hends s hs
  · rintro ⟨hp, h⟩ j r hj hr hends
    cases j with
    | zero =>
      cases hr
      exact hp
    | succ j =>
      rw [List.take_succ_cons] at hends
      exact h (hends p List.mem_cons_self) j r (by simpa using hj) hr
        fun s hs => hends s (List.mem_cons_of_mem _ hs)

theorem receiveLoop_succ {n : Nat} {hpt hd : hpack_t} {io io' : Incoming} {ret : Int}
    {msg : List UInt8} (h : hrecv e ρ fn hpt io = ⟨ret, msg, hd, io'⟩) :
    receiveLoop e ρ fn reply (n + 1) hpt io =
      .call io.rest hd ::
        if MAXRBUF < msg.length then [.damaged]
        else if ret = -1 then receiveLoop e ρ fn reply n hd io'
        else if ret = 0 then []
        else receiveLoop e ρ fn reply n (reply hd) io' := by
  rw [receiveLoop, h]

theorem framed_single {r : LoopRound} {rs : List LoopRound} :
    Framed e [p] (r :: rs) ↔ r = .call (stream e [p]) p.1 := by
  rw [framed_cons]
  exact and_iff_left fun k q d hq => by cases hq

theorem allConsumed_single : AllConsumed fn [p] := fun j q hj => by
  rw [List.length_singleton] at hj
  omega

/-- A call that starts on a message left over starts at no packet. -/
theorem not_framed_of_left {msg : List UInt8} (h : msg ≠ []) (n : Nat) (hpt : hpack_t)
    (calls : Nat) :
    ¬ Framed e (p :: ps)
      (receiveLoop e ρ fn reply (n + 1) hpt ⟨calls, msg ++ stream e (p :: ps)⟩) := by
  rw [receiveLoop, framed_cons]
  rintro ⟨hcall, -⟩
  injection hcall with hstart
  have hlen := congrArg List.length hstart
  rw [List.length_append] at hlen
  exact h (List.length_eq_zero_iff.mp (by omega))

theorem not_framed_damaged : ¬ Framed e (p :: ps) [.damaged] := by
  rw [framed_cons]
  rintro ⟨hcall, -⟩
  cases hcall

/-- A header whose version is not its code. -/
def noise : hpack_t := { hello with version := hello.version + 1 }

end LearnNotes.Net
