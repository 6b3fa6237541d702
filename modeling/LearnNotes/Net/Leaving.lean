import LearnNotes.Net.Conversation

/-!
# How the server finds out that the client has gone

`hrecv` says so by returning 0, which it does not reach before it has accepted a header; at the end
of the stream that is the header the server's last packet left in `hpt`. So behind a client that has
gone the server leaves its loop if it has answered a line, and goes on for ever if it has not and
the memory of `hpt` was no header with its version code: `leaves_iff`. A server whose `recvbuff` is
overrun, as with fewer than 10 bytes to spare the first line does, is left out.
-/

namespace LearnNotes.Net

open Lib

/-- What the server's header starts with is accepted in neither byte order of its size. -/
structure Refused (e : Endian) (server : hpack_t) : Prop where
  swapped : dencrypt_fn (stale e server) = false
  same : dencrypt_fn server = false

/-- Until it answers, the server has the header it started with, up to the size's byte order. -/
def Link.Unanswered (e : Endian) (server : hpack_t) (s : Link) : Prop :=
  s.answers = [] → s.server = .serving server ∨ s.server = .serving (stale e server)

section Over

variable {e : Endian} {slack : Nat} {client server : hpack_t} {first : UInt16} {s : Link}
  {cs : List Call}

theorem Refused.not_phantom (h : Refused e server) :
    ¬ Phantom e server ∧ ¬ Phantom e (stale e server) := by
  constructor
  · rintro ⟨hfn, -⟩
    rw [h.swapped] at hfn
    cases hfn
  · rintro ⟨hfn, -⟩
    rw [stale_stale, h.same] at hfn
    cases hfn

/-- A refused header is refused again. -/
theorem Refused.hrecv_ended (h : Refused e server) {hpt : hpack_t}
    (hhpt : hpt = server ∨ hpt = stale e server) {ρ : Schedule} (hρ : NoErrors ρ) :
    hrecv e ρ dencrypt_fn hpt ⟨0, []⟩ = ⟨-1, [], stale e hpt, ⟨1, []⟩⟩ := by
  have hfn : dencrypt_fn (stale e hpt) = false := by
    rcases hhpt with rfl | rfl
    · exact h.swapped
    · rw [stale_stale]
      exact h.same
  exact hrecv_of_rejected (recvHeader_ended hρ hpt) hfn

variable (slack) in
/-- The server's call at the end of the stream, with nothing answered. -/
theorem Link.Unanswered.serve_ended (hfresh : s.Unanswered e server) (h : Refused e server)
    (hover : s.closed = true ∧ s.up = []) (hne : s.answers = []) {ρ : Schedule} (hρ : NoErrors ρ)
    (text : Vector UInt8 MAXSBUF) (timepoint : Int64) (σ : Schedule) (fuel : Nat) :
    ∃ hpt, (hpt = server ∨ hpt = stale e server) ∧
      s.serve e slack ρ text timepoint σ fuel = { s with server := .serving hpt, up := [] } := by
  obtain ⟨hpt, hs, hhpt⟩ : ∃ hpt, s.server = .serving hpt ∧
      (hpt = server ∨ hpt = stale e server) := by
    rcases hfresh hne with hs | hs
    · exact ⟨server, hs, .inl rfl⟩
    · exact ⟨stale e server, hs, .inr rfl⟩
  refine ⟨stale e hpt, ?_, serve_rejected hs hover (h.hrecv_ended hhpt hρ) text timepoint fuel⟩
  rcases hhpt with rfl | rfl
  · exact .inr rfl
  · exact .inl (stale_stale server)

theorem Link.Unanswered.serve (hfresh : s.Unanswered e server) (h : Refused e server)
    (hs : s.Inv e first) {ρ σ : Schedule} (hρ : NoErrors ρ) (hσ : NoErrors σ)
    {text : Vector UInt8 MAXSBUF} {timepoint : Int64} {fuel : Nat}
    (hsound : (s.serve e slack ρ text timepoint σ fuel).server ≠ .damaged) :
    (s.serve e slack ρ text timepoint σ fuel).Unanswered e server := by
  have hserved : Link.Served e slack s text timepoint
      (s.serve e slack ρ text timepoint σ fuel) := hs.served hρ hσ text timepoint fuel
  generalize hs' : s.serve e slack ρ text timepoint σ fuel = s' at hserved hsound
  cases hserved with
  | waits => exact hfresh
  | overruns up room => exact absurd rfl hsound
  | answers p sent room =>
    exact fun hne => absurd hne (List.append_ne_nil_of_right_ne_nil _ (List.cons_ne_nil _ _))
  | rejects hpt ended hserving answers =>
    intro _
    rcases hfresh answers with hserver | hserver
    · obtain rfl := Server.serving.inj (hserving.symm.trans hserver)
      exact .inr rfl
    · obtain rfl := Server.serving.inj (hserving.symm.trans hserver)
      exact .inl (congrArg Server.serving (stale_stale server))
  | leaves ended =>
    -- it leaves only with an answered line behind it
    intro hne
    obtain ⟨hpt, -, hgo⟩ :=
      hfresh.serve_ended slack h ended hne hρ text timepoint σ fuel
    rw [hgo] at hs'
    cases congrArg Link.server hs'

theorem Link.Unanswered.call (hfresh : s.Unanswered e server) (h : Refused e server)
    (hs : s.Inv e first) {c : Call} (hc : c.NoError)
    (hsound : (s.call e slack c).server ≠ .damaged) : (s.call e slack c).Unanswered e server := by
  rcases Link.call_cases e slack s c with
    ⟨ρ, text, timepoint, σ, fuel, rfl⟩ | ⟨hserver, -, hanswers⟩
  · exact hfresh.serve h hs hc.1 hc.2 hsound
  · intro hne
    rw [hserver]
    exact hfresh (hanswers ▸ hne)

/-- The header of a server that is not damaged, along a run. -/
theorem everyState_unanswered (h : Refused e server) (hcs : ∀ c ∈ cs, c.NoError) :
    (conversation e slack client server).EveryState cs fun s =>
      s.Held e slack client.packet_seq ∧ (s.server ≠ .damaged → s.Unanswered e server) := by
  obtain ⟨hp, hp'⟩ := h.not_phantom
  refine Machine.everyState_of_guard ⟨Link.Held.init client hp hp', fun _ _ => .inl rfl⟩
    (fun s c hs hc => ⟨hs.1.call hc, fun hsound => ?_⟩) (Machine.everyStep_of_inputs hcs)
  by_cases hdamaged : s.server = .damaged
  · exact absurd (Link.call_damaged hdamaged c).1 hsound
  · exact (hs.2 hdamaged).call h (hs.1.inv hdamaged) hc hsound

end Over

/-- **The server leaves** behind a client that has gone with all its packets received iff it has
answered one: what it takes for the client's header is its own. -/
theorem leaves_iff (e : Endian) (slack : Nat) (client : hpack_t) {server : hpack_t}
    (h : Refused e server) {cs : List Call} (hcs : ∀ c ∈ cs, c.NoError) :
    (conversation e slack client server).EveryState cs fun s =>
      s.server ≠ .damaged ∧ s.closed = true ∧ s.up = [] → ∀ ρ text timepoint σ fuel, NoErrors ρ →
        ((s.serve e slack ρ text timepoint σ fuel).server = .left ↔ s.answers ≠ []) := by
  intro pre hpre hover ρ text timepoint σ fuel hρ
  obtain ⟨hheld, hfresh⟩ : ((conversation e slack client server).after pre).Held e slack
        client.packet_seq ∧ (((conversation e slack client server).after pre).server ≠ .damaged →
      ((conversation e slack client server).after pre).Unanswered e server) :=
    everyState_unanswered h hcs pre hpre
  generalize (conversation e slack client server).after pre = s at hover hheld hfresh
  obtain ⟨hsound, hended⟩ := hover
  by_cases hne : s.answers = []
  · obtain ⟨hpt, -, hgo⟩ :=
      (hfresh hsound).serve_ended slack h hended hne hρ text timepoint σ fuel
    rw [hgo]
    exact iff_of_false nofun (not_not.mpr hne)
  · refine iff_of_true ?_ hne
    cases hs : s.server with
    | damaged => exact absurd hs hsound
    | left =>
      rw [Link.serve_out fun hpt => by rw [hs]; nofun]
      exact hs
    | serving hpt =>
      obtain ⟨p, hmade, rfl⟩ := ((hheld.inv hsound).server hpt hs).2.2 hne
      obtain ⟨calls, hrecv⟩ := Link.hrecv_ended_sent (e := e) hρ hmade
      rw [Link.serve_left hs hended hrecv text timepoint fuel]

/-- Garbage for a header, and a client that leaves without a line: the server stays. -/
theorem leaves_iff_silent :
    (conversation .little 12 hello { hello with version := 0 }).EveryState [.sigint] fun s =>
      s.server ≠ .damaged ∧ s.closed = true ∧ s.up = [] → ∀ ρ text timepoint σ fuel, NoErrors ρ →
        ((s.serve .little 12 ρ text timepoint σ fuel).server = .left ↔ s.answers ≠ []) := by
  have hcs : ∀ c ∈ [Call.sigint], c.NoError := fun c hc => by
    rw [List.mem_singleton.mp hc]
    trivial
  exact leaves_iff .little 12 hello ⟨by decide, by decide⟩ hcs

end LearnNotes.Net
