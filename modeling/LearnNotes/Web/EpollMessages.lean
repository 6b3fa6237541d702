import LearnNotes.Web.EpollDelivery

/-!
# What `epoll_server` prints

The loop never clears its buffer between two `recv`s, and a chunk that fills it leaves no room for a
NUL. `legible`: a chunk is printed as it was received exactly where it is neither shorter than an
earlier one of the same event nor as long as the array; where a chunk has filled the array, it does
not say where the printed text ends. An event with input is answered by one `send`, however many
chunks it comes in.
-/

namespace LearnNotes.Web.EpollServer

open Lib

/-- What the chunks of a round leave in the buffer. -/
def fill (chunks : List (List UInt8)) : List UInt8 :=
  chunks.foldl (fun buf chunk => chunk ++ buf.drop chunk.length) (List.replicate MAXBUFF 0)

/-- Chunks as `recv` stores them, of a text. -/
def Chunks (chunks : List (List UInt8)) : Prop :=
  ∀ chunk ∈ chunks, 0 < chunk.length ∧ chunk.length ≤ MAXBUFF ∧ 0 ∉ chunk

section Buffer

variable {chunks : List (List UInt8)} {chunk : List UInt8}

theorem fill_snoc (chunks : List (List UInt8)) (chunk : List UInt8) :
    fill (chunks ++ [chunk]) = chunk ++ (fill chunks).drop chunk.length := by
  rw [fill, List.foldl_append, List.foldl_cons, List.foldl_nil, ← fill]

theorem Chunks.init (h : Chunks (chunks ++ [chunk])) : Chunks chunks :=
  fun c hc => h c (List.mem_append_left _ hc)

theorem Chunks.last (h : Chunks (chunks ++ [chunk])) :
    0 < chunk.length ∧ chunk.length ≤ MAXBUFF ∧ 0 ∉ chunk :=
  h chunk (List.mem_append_right _ List.mem_cons_self)

theorem length_fill (h : Chunks chunks) : (fill chunks).length = MAXBUFF := by
  induction chunks using List.reverseRecOn with
  | nil => exact List.length_replicate ..
  | append_singleton chunks chunk ih =>
    have hle := h.last.2.1
    rw [fill_snoc, List.length_append, List.length_drop, ih h.init]
    omega

/-- A cell is still 0 where no chunk has reached it. -/
theorem fill_zero_iff {i : Nat} (h : Chunks chunks) (hi : i < MAXBUFF) :
    (fill chunks)[i]? = some 0 ↔ ∀ chunk ∈ chunks, chunk.length ≤ i := by
  induction chunks using List.reverseRecOn with
  | nil =>
    have hzero : (fill [])[i]? = some 0 := List.getElem?_replicate_of_lt hi
    exact iff_of_true hzero fun chunk hc => absurd hc List.not_mem_nil
  | append_singleton chunks chunk ih =>
    have hall : (∀ c ∈ chunks ++ [chunk], c.length ≤ i) ↔
        (∀ c ∈ chunks, c.length ≤ i) ∧ chunk.length ≤ i := by
      rw [List.forall_mem_append, List.forall_mem_singleton]
    rw [hall, ← ih h.init, fill_snoc]
    by_cases hlt : i < chunk.length
    · have hne : chunk[i] ≠ 0 := fun heq => h.last.2.2 (heq ▸ List.getElem_mem hlt)
      rw [List.getElem?_append_left hlt, List.getElem?_eq_getElem hlt, Option.some.injEq]
      exact iff_of_false hne fun hle => Nat.not_le.mpr hlt hle.2
    · have hle := Nat.le_of_not_lt hlt
      rw [List.getElem?_append_right hle, List.getElem?_drop, Nat.add_sub_cancel' hle]
      exact (and_iff_left hle).symm

/-- The array has no NUL where a chunk has filled it. -/
theorem zero_mem_fill_iff (h : Chunks chunks) :
    0 ∈ fill chunks ↔ ∀ chunk ∈ chunks, chunk.length < MAXBUFF := by
  have hlen := length_fill h
  constructor
  · intro hmem
    obtain ⟨i, hi⟩ := List.mem_iff_getElem?.mp hmem
    obtain ⟨hlt, -⟩ := List.getElem?_eq_some_iff.mp hi
    rw [hlen] at hlt
    exact fun chunk hc => Nat.lt_of_le_of_lt ((fill_zero_iff h hlt).mp hi chunk hc) hlt
  · intro hall
    have hlast : MAXBUFF - 1 < MAXBUFF := by decide
    refine List.mem_of_getElem? ((fill_zero_iff h hlast).mpr fun chunk hc => ?_)
    exact Nat.le_sub_one_of_lt (hall chunk hc)

/-- **Where the printed text ends** the array does not say iff a chunk has filled it. -/
theorem text_eq_none_iff (h : Chunks chunks) :
    text (fill chunks) = none ↔ ∃ chunk ∈ chunks, chunk.length = MAXBUFF := by
  have hfills : (∃ chunk ∈ chunks, chunk.length = MAXBUFF) ↔
      ¬ ∀ chunk ∈ chunks, chunk.length < MAXBUFF := by
    push Not
    exact exists_congr fun chunk => and_congr_right fun hc =>
      ⟨fun heq => Nat.le_of_eq heq.symm, fun hle => Nat.le_antisymm (h chunk hc).2.1 hle⟩
  rw [hfills, ← zero_mem_fill_iff h, text]
  split
  · next hmem => exact iff_of_false (Option.some_ne_none _) (not_not.mpr hmem)
  · next hmem => exact iff_of_true rfl hmem

/-- **A chunk is printed as it is** iff it leaves room for a NUL and no earlier one of the wake-up
was longer. -/
theorem text_eq_iff (h : Chunks (chunks ++ [chunk])) :
    text (fill (chunks ++ [chunk])) = some chunk ↔
      chunk.length < MAXBUFF ∧ ∀ c ∈ chunks, c.length ≤ chunk.length := by
  by_cases hfull : chunk.length < MAXBUFF
  · have hchunk : ∀ b ∈ chunk, decide (b ≠ 0) = true := fun b hb =>
      decide_eq_true fun heq => h.last.2.2 (heq ▸ hb)
    have hin : chunk.length < (fill chunks).length := by rwa [length_fill h.init]
    rw [and_iff_right hfull, ← fill_zero_iff h.init hfull, List.getElem?_eq_getElem hin, text,
      fill_snoc, List.takeWhile_append_of_pos hchunk, List.drop_eq_getElem_cons hin,
      List.takeWhile_cons, Option.some.injEq]
    by_cases hzero : (fill chunks)[chunk.length] = 0
    · rw [hzero, if_pos (List.mem_append_right _ List.mem_cons_self)]
      exact iff_of_true (congrArg some (List.append_nil chunk)) rfl
    · refine iff_of_false (fun heq => ?_) hzero
      split at heq
      · rw [if_pos (decide_eq_true hzero), Option.some.injEq, List.append_right_eq_self] at heq
        exact List.cons_ne_nil _ _ heq
      · cases heq
  · have hlen := h.last.2.1
    have hnone : text (fill (chunks ++ [chunk])) = none := (text_eq_none_iff h).mpr
      ⟨chunk, List.mem_append_right _ List.mem_cons_self, by omega⟩
    rw [hnone]
    exact iff_of_false (Option.some_ne_none _).symm fun hlt => hfull hlt.1

end Buffer

/-- A round as its chunks determine it. -/
structure Round.Ok (r : Round) : Prop where
  chunks : Chunks r.chunks
  buf : r.buf = fill r.chunks
  texts : r.texts = (List.range r.chunks.length).map fun i => text (fill (r.chunks.take (i + 1)))
  sends : r.sends = min 1 r.chunks.length

/-- The same in the middle of the loop. -/
structure Round.Live (r : Round) : Prop extends r.Ok where
  status : r.status = .Send ↔ r.chunks ≠ []

theorem Round.Live.new : ({} : Round).Live where
  chunks _ := by rintro ⟨⟩
  buf := rfl
  texts := rfl
  sends := rfl
  status := iff_of_false ConnStatus.noConfusion fun h => h rfl

theorem Round.Live.message {r : Round} (h : r.Live) {chunk : List UInt8}
    (hchunk : Chunks [chunk]) : (r.message chunk).Live := by
  have hfields : (r.message chunk).chunks = r.chunks ++ [chunk] ∧
      (r.message chunk).buf = chunk ++ r.buf.drop chunk.length ∧
      (r.message chunk).texts = r.texts ++ [text (chunk ++ r.buf.drop chunk.length)] := by
    unfold Round.message
    dsimp only
    split <;> exact ⟨rfl, rfl, rfl⟩
  obtain ⟨hchunks, hbuf, htexts⟩ := hfields
  exact
    { chunks := by
        rw [hchunks]
        intro c hc
        rcases List.mem_append.mp hc with hc | hc
        · exact h.chunks c hc
        · exact hchunk c hc
      buf := by rw [hbuf, hchunks, fill_snoc, h.buf]
      texts := by
        have hlen : (r.chunks ++ [chunk]).length = r.chunks.length + 1 := List.length_append
        rw [htexts, hchunks, hlen, List.range_succ, List.map_append, List.map_singleton, h.buf,
          List.take_of_length_le (Nat.le_of_eq hlen), fill_snoc, h.texts]
        congr 1
        refine List.map_congr_left fun i hi => ?_
        rw [List.take_append_of_le_length (List.mem_range.mp hi)]
      sends := by
        have hlen : (r.chunks ++ [chunk]).length = r.chunks.length + 1 := List.length_append
        rw [hchunks, hlen]
        unfold Round.message
        dsimp only
        by_cases hsend : r.status = .Send
        · have hpos := List.length_pos_iff.mpr (h.status.mp hsend)
          rw [if_neg (not_not.mpr hsend)]
          dsimp only
          rw [h.sends]
          omega
        · have hnil : r.chunks = [] := not_not.mp (mt h.status.mpr hsend)
          rw [if_pos hsend]
          dsimp only
          rw [h.sends, hnil]
          rfl
      status := by
        rw [Server.message_status, hchunks]
        exact iff_of_true rfl (List.append_ne_nil_of_right_ne_nil _ (List.cons_ne_nil _ _)) }

namespace Server

/-- Only texts are sent, and every round is the one its chunks determine. -/
structure Printed (s : Server) : Prop where
  sent : ∀ c, 0 ∉ (s.kernel.socks c).sent
  past : ∀ r ∈ s.rounds, r.Ok
  live : ∀ fd r rest, s.pc = .reading fd r rest → r.Live

/-- A client that sends a text. -/
def IsText : Input → Prop
  | .peer (.send _ bs) => 0 ∉ bs
  | _ => True

instance : (i : Input) → Decidable (IsText i)
  | .peer (.send _ bs) => inferInstanceAs (Decidable (0 ∉ bs))
  | .peer .connect => inferInstanceAs (Decidable True)
  | .peer (.finish _ _) => inferInstanceAs (Decidable True)
  | .wait _ => inferInstanceAs (Decidable True)
  | .call _ _ _ => inferInstanceAs (Decidable True)

variable {s : Server} {c n fd : Nat} {evs rest : List Nat} {r : Round} {answer : Option Nat}

theorem live_resume {lfd : Nat} (h : resume lfd evs = .reading fd r rest) : r.Live := by
  cases evs with
  | nil => cases h
  | cons fd' rest' =>
    rw [resume] at h
    split at h
    · cases h
    · cases h
      exact Round.Live.new

theorem sent_setSock (h : ∀ c, 0 ∉ (s.kernel.socks c).sent) {k : Sock} (hk : 0 ∉ k.sent)
    (c c' : Nat) : 0 ∉ ((s.kernel.setSock c k).socks c').sent := by
  by_cases hcc : c' = c
  · rw [hcc, Kernel.setSock_self]
    exact hk
  · rw [Kernel.setSock_of_ne hcc]
    exact h c'

theorem Printed.peer (h : s.Printed) {e : PeerEvent} (hi : IsText (.peer e)) :
    (s.peer e).Printed := by
  obtain ⟨hkernel, hpc, -, -, hrounds, -⟩ := peer_fields e s
  refine ⟨fun c' => ?_, by rw [hrounds]; exact h.past, by rw [hpc]; exact h.live⟩
  rw [hkernel]
  cases e with
  | connect => exact h.sent c'
  | send c bs =>
    have hk : 0 ∉ ((s.kernel.socks c).send bs).sent := by
      unfold Sock.send
      split
      · exact h.sent c
      · exact fun hmem => (List.mem_append.mp hmem).elim (h.sent c) hi
    unfold Kernel.peer
    dsimp only
    split
    · exact sent_setSock h.sent hk c c'
    · exact h.sent c'
  | finish c e =>
    have hk : 0 ∉ ((s.kernel.socks c).finish e).sent := by
      unfold Sock.finish
      split <;> exact h.sent c
    unfold Kernel.peer
    dsimp only
    split
    · exact sent_setSock h.sent hk c c'
    · exact h.sent c'

theorem Printed.accept (h : s.Printed) (answer : Option Nat) (rest : List Nat) :
    (s.accept answer rest).Printed := by
  unfold Server.accept
  split
  · exact h
  · split
    · exact ⟨h.sent, h.past, fun _ _ _ => by rintro ⟨⟩⟩
    · exact ⟨h.sent, h.past, fun fd r rest heq => live_resume heq⟩

theorem Printed.leave (h : s.Printed) {r' : Round} (hr : r'.Ok) (fd : Nat) (rest : List Nat) :
    (s.leave fd r' rest).Printed := by
  have hover : ∀ r ∈ r' :: s.rounds, r.Ok := List.forall_mem_cons.mpr ⟨hr, h.past⟩
  unfold Server.leave
  dsimp only
  split
  · exact ⟨h.sent, hover, fun fd r rest heq => live_resume heq⟩
  · exact ⟨h.sent, hover, fun fd r rest heq => live_resume heq⟩

/-- A read changes what a connection has been sent as little as its number. -/
theorem Printed.setSock (h : s.Printed) {k : Sock} (hk : 0 ∉ k.sent) {r' : Round} (hr : r'.Live)
    (c fd : Nat) (rest : List Nat) :
    ({ s with kernel := s.kernel.setSock c k, pc := .reading fd r' rest } : Server).Printed where
  sent := sent_setSock h.sent hk c
  past := h.past
  live fd r rest hpc := by
    cases hpc
    exact hr

theorem Printed.read (h : s.Printed) (hinv : s.Inv) (hpc : s.pc = .reading fd r rest) (n : Nat)
    (pipe : Bool) : (s.read n pipe fd r rest).Printed := by
  obtain ⟨c, hfd⟩ := hinv.opened hpc
  have hlive := h.live fd r rest hpc
  rcases read_cases hfd (hinv.kernel.whole c) n pipe r rest with
    ⟨chunk, k, hchunk, hpos, hle, -, hk, heq⟩ | ⟨-, -, heq⟩ | ⟨k, -, -, -, hsent, -, heq⟩
  · have hzero : 0 ∉ (s.kernel.socks c).unread := fun hmem => by
      refine h.sent c ?_
      rw [← hinv.kernel.whole c]
      exact List.mem_append_right _ hmem
    rw [hchunk] at hzero
    have hsent : 0 ∉ k.sent := by
      rw [hk]
      unfold Sock.recv
      split <;> exact h.sent c
    rcases heq with heq | ⟨-, heq⟩
    · rw [heq]
      refine h.setSock hsent (hlive.message fun c' hc' => ?_) c fd rest
      rw [List.mem_singleton.mp hc']
      exact ⟨hpos, hle, fun hmem => hzero (List.mem_append_left _ hmem)⟩
    · rw [heq]
      exact ⟨sent_setSock h.sent hsent c, h.past, fun fd r rest => by rintro ⟨⟩⟩
  · rw [heq]
    exact h.leave hlive.toOk fd rest
  · have hover : ({ r with status := .Close } : Round).Ok :=
      ⟨hlive.chunks, hlive.buf, hlive.texts, hlive.sends⟩
    rw [heq]
    have hzero : 0 ∉ k.sent := by
      rw [hsent]
      exact h.sent c
    exact (h.setSock hzero hlive c fd rest).leave hover fd rest

theorem Printed.turn (h : s.Printed) (hinv : s.Inv) {i : Input} (hi : IsText i) :
    (s.turn i).Printed := by
  cases i with
  | peer e => exact h.peer hi
  | wait evs =>
    unfold Server.turn
    dsimp only
    split
    · split
      · exact ⟨h.sent, h.past, fun fd r rest heq => live_resume heq⟩
      · exact h
    · exact h
  | call answer n pipe =>
    unfold Server.turn
    dsimp only
    split
    · next rest hpc => exact h.accept answer rest
    · next fd r rest hpc => exact h.read hinv hpc n pipe
    · exact h

end Server

/-- The rounds that are over: as many texts as chunks, a `send` where there was a chunk, a text is
its chunk iff the chunk leaves room for a NUL and no chunk before it was longer, and the array does
not say where it ends iff a chunk so far has filled it. -/
structure Round.Legible (r : Round) : Prop where
  texts : r.texts.length = r.chunks.length
  sends : r.sends = min 1 r.chunks.length
  intact : ∀ i chunk, r.chunks[i]? = some chunk →
    (r.texts[i]? = some (some chunk) ↔
      chunk.length < MAXBUFF ∧ ∀ c ∈ r.chunks.take i, c.length ≤ chunk.length)
  unbounded : ∀ i < r.chunks.length,
    (r.texts[i]? = some none ↔ ∃ c ∈ r.chunks.take (i + 1), c.length = MAXBUFF)

theorem Round.Ok.printed {r : Round} (h : r.Ok) : r.Legible := by
  have htaken : ∀ i, Chunks (r.chunks.take i) := fun i c hc =>
    h.chunks c (List.mem_of_mem_take hc)
  have htext : ∀ i < r.chunks.length,
      r.texts[i]? = some (text (fill (r.chunks.take (i + 1)))) := fun i hi => by
    rw [h.texts, List.getElem?_map, List.getElem?_range hi, Option.map_some]
  refine ⟨by rw [h.texts, List.length_map, List.length_range], h.sends, fun i chunk hchunk => ?_,
    fun i hi => ?_⟩
  · obtain ⟨hi, -⟩ := List.getElem?_eq_some_iff.mp hchunk
    have htake : r.chunks.take (i + 1) = r.chunks.take i ++ [chunk] := by
      rw [List.take_add_one, hchunk]
      rfl
    rw [htext i hi, Option.some.injEq, htake]
    exact text_eq_iff (htake ▸ htaken (i + 1))
  · rw [htext i hi, Option.some.injEq]
    exact text_eq_none_iff (htaken (i + 1))

/-- **The messages**, along every run in which the clients send texts. -/
theorem legible (lfd epfd : Nat) (is : List Input) (htext : ∀ i ∈ is, Server.IsText i) :
    (epollServer lfd epfd).EveryState is fun s => ∀ r ∈ s.rounds, r.Legible := by
  have hprinted : (epollServer lfd epfd).EveryState is fun s => s.Inv ∧ s.Printed := by
    refine Machine.everyState_of_guard (G := fun _ => Server.IsText) ?_ ?_
      (Machine.everyStep_of_inputs htext)
    · exact ⟨Server.Inv.init lfd epfd, fun _ => List.not_mem_nil, fun _ h => (nomatch h),
        fun _ _ _ => by rintro ⟨⟩⟩
    · exact fun s i h hi => ⟨h.1.turn i, h.2.turn h.1 hi⟩
  exact fun pre hpre r hr => ((hprinted pre hpre).2.past r hr).printed

/-- The seven bytes of `visit` come in two chunks. -/
theorem visit_legible :
    (epollServer 3 4).EveryState (visit ++ .wait [5] :: List.replicate 3 (.call none 5 false))
      fun s => ∀ r ∈ s.rounds, r.Legible :=
  legible 3 4 _ (by decide)

end LearnNotes.Web.EpollServer
