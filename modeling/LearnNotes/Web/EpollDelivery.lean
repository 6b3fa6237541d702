import Mathlib.Algebra.Order.BigOperators.Group.List
import LearnNotes.Web.EpollServer

/-!
# What a wake-up of `epoll_server` achieves

`batch_handled`: where the clients keep still, the events of one `epoll_wait` are handled within
as many system calls as there are events and bytes unread, and then each connection among them has
been read to the end, and closed if its stream has ended; unless an `accept` fails, or SIGPIPE ends
the server at a connection that had ended with something unread.
-/

namespace LearnNotes.Web.EpollServer

open Lib

namespace Server

variable {s : Server} {c n fd : Nat} {evs rest : List Nat} {r : Round} {answer : Option Nat}
  {pipe : Bool}

/-! ## The calls of a batch -/

/-- The system calls an event takes at most. -/
def cost (s : Server) (fd : Nat) : Nat :=
  match s.kernel.fds fd with
  | none => 1
  | some c => (s.kernel.socks c).unread.length + 1

def work (s : Server) : Nat := (s.events.map s.cost).sum

theorem cost_of_open (h : s.kernel.fds fd = some c) :
    s.cost fd = (s.kernel.socks c).unread.length + 1 := by
  rw [cost, h]

theorem cost_pos (s : Server) (fd : Nat) : 0 < s.cost fd := by
  unfold cost
  split <;> omega

/-- Whose connection has as much to be read as before. -/
theorem cost_congr {t : Server} (hfds : t.kernel.fds fd = s.kernel.fds fd)
    (hsocks : ∀ c, s.kernel.fds fd = some c → t.kernel.socks c = s.kernel.socks c) :
    t.cost fd = s.cost fd := by
  cases hfd : s.kernel.fds fd with
  | none => rw [cost, cost, hfds, hfd]
  | some c => rw [cost_of_open (hfds.trans hfd), cost_of_open hfd, hsocks c hfd]

theorem work_pos (hev : s.events ≠ []) : 0 < s.work := by
  obtain ⟨fd, rest, hcons⟩ := List.exists_cons_of_ne_nil hev
  have hpos := s.cost_pos fd
  rw [work, hcons, List.map_cons, List.sum_cons]
  omega

theorem work_of_cons {t : Server} (hold : s.events = fd :: rest) (hnew : t.events = rest)
    (hcost : ∀ fd' ∈ rest, t.cost fd' = s.cost fd') : t.work < s.work := by
  have hrest : rest.map t.cost = rest.map s.cost := List.map_congr_left hcost
  have hpos := s.cost_pos fd
  rw [work, work, hold, hnew, hrest, List.map_cons, List.sum_cons]
  omega

theorem work_accept (h : s.Inv) (hpc : s.pc = .accepting rest) (answer : Option Nat) :
    (s.accept answer rest).work < s.work := by
  have hold : s.events = s.lfd :: rest := by rw [events, hpc]; rfl
  have hback : s.kernel.backlog ≠ [] := h.queue (by rw [hold]; exact List.mem_cons_self)
  unfold Server.accept
  rw [if_neg hback]
  rcases hacc : s.kernel.acceptfd [s.lfd, s.epfd] answer with _ | ⟨cfd, c⟩
  · exact work_pos (by rw [hold]; exact List.cons_ne_nil _ _)
  · refine work_of_cons hold (events_resume s.lfd rest) fun fd' hfd' => ?_
    have hne := h.event_ne hacc (hold ▸ List.mem_cons_of_mem _ hfd')
    exact cost_congr (Kernel.fds_install_of_ne hne) fun c hc => rfl

theorem work_leave (h : s.Inv) (hpc : s.pc = .reading fd r rest) (r' : Round) :
    (s.leave fd r' rest).work < s.work := by
  have hold : s.events = fd :: rest := by rw [events, hpc]; rfl
  have hnodup := h.once
  rw [hold, List.nodup_cons] at hnodup
  by_cases hr : r'.status = .Close
  · rw [leave_of_Close hr]
    refine work_of_cons hold (events_resume s.lfd rest) fun fd' hfd' => ?_
    refine cost_congr (Kernel.fds_close_of_ne fun heq => ?_) fun c hc => rfl
    exact hnodup.1 (heq ▸ hfd')
  · rw [leave_of_open hr]
    exact work_of_cons hold (events_resume s.lfd rest) fun fd' _ => rfl

/-- Reading the connection at hand changes the work by what it reads. -/
theorem work_setSock (h : s.Inv) (hpc : s.pc = .reading fd r rest) (hfd : s.kernel.fds fd = some c)
    (k : Sock) (r' : Round) :
    ({ s with kernel := s.kernel.setSock c k, pc := .reading fd r' rest } : Server).work +
      (s.kernel.socks c).unread.length = s.work + k.unread.length := by
  have hold : s.events = fd :: rest := by rw [events, hpc]; rfl
  have hnodup := h.once
  rw [hold, List.nodup_cons] at hnodup
  set t : Server := { s with kernel := s.kernel.setSock c k, pc := .reading fd r' rest }
  have hrest : rest.map t.cost = rest.map s.cost := by
    refine List.map_congr_left fun fd' hfd' => cost_congr rfl fun c' hc' => ?_
    refine Kernel.setSock_of_ne (fun heq => ?_) k
    exact hnodup.1 (h.kernel.inj fd' fd c (heq ▸ hc') hfd ▸ hfd')
  have hself : t.cost fd = k.unread.length + 1 := by
    rw [cost_of_open (s := t) hfd]
    exact congrArg (fun k : Sock => k.unread.length + 1) (Kernel.setSock_self k)
  have hnew : t.events = fd :: rest := rfl
  rw [work, work, hold, hnew, List.map_cons, List.map_cons, List.sum_cons, List.sum_cons, hrest,
    hself, cost_of_open hfd]
  omega

/-- **Progress**: every call comes nearer to the end of the batch. -/
theorem work_call (h : s.Inv) (hev : s.events ≠ []) (answer : Option Nat) (n : Nat) (pipe : Bool) :
    (s.turn (.call answer n pipe)).work < s.work := by
  cases hpc : s.pc with
  | waiting => exact absurd (by rw [events, hpc]; rfl) hev
  | exited => exact absurd (by rw [events, hpc]; rfl) hev
  | killed => exact absurd (by rw [events, hpc]; rfl) hev
  | accepting rest =>
    unfold turn
    rw [hpc]
    exact work_accept h hpc answer
  | reading fd r rest =>
    unfold turn
    rw [hpc]
    dsimp only
    obtain ⟨c, hfd⟩ := h.opened hpc
    rcases read_cases hfd (h.kernel.whole _) n pipe r rest with
      ⟨chunk, k, hchunk, hpos, -, -, -, heq | ⟨-, heq⟩⟩ | ⟨-, -, heq⟩ |
        ⟨k, hk, hread, -, -, hold, heq⟩
    · have hwork := work_setSock h hpc hfd k (r.message chunk)
      rw [hchunk, List.length_append] at hwork
      rw [heq]
      omega
    · rw [heq]
      exact work_pos hev
    · rw [heq]
      exact work_leave h hpc _
    · have hmid := h.chunk hpc hfd hk (h.reads fd r rest hpc).2
      have hless := work_leave hmid rfl { r with status := .Close }
      have hwork := work_setSock h hpc hfd k r
      rw [hread, hold] at hwork
      rw [heq]
      exact Nat.lt_of_lt_of_eq hless (Nat.add_right_cancel hwork)

theorem turn_call_of_done (hev : s.events = []) (answer : Option Nat) (n : Nat) (pipe : Bool) :
    s.turn (.call answer n pipe) = s := by
  unfold turn
  cases hpc : s.pc with
  | waiting => rfl
  | exited => rfl
  | killed => rfl
  | accepting rest => rw [events, hpc] at hev; cases hev
  | reading fd r rest => rw [events, hpc] at hev; cases hev

/-! ## A connection of the batch -/

/-- The loop has not come to the connection, or is at it. -/
def Pending (c : Nat) (s : Server) : Prop := ∃ fd ∈ s.events, s.kernel.fds fd = some c

/-- It is read to the end, and closed if it has ended. -/
def Settled (c : Nat) (s : Server) : Prop :=
  (s.kernel.socks c).unread = [] ∧ c ∉ s.kernel.backlog ∧
    ((s.kernel.socks c).ended ≠ none → ∀ fd, s.kernel.fds fd ≠ some c)

theorem pending_of_rest {t : Server} (hold : s.events = fd :: rest) (hnew : t.events = rest)
    (hfd : ∀ c, s.kernel.fds fd = some c → c ≠ n)
    (hfds : ∀ fd' ∈ rest, t.kernel.fds fd' = s.kernel.fds fd') (h : Pending n s) : Pending n t := by
  obtain ⟨fd', hmem, hopen⟩ := h
  rw [hold] at hmem
  rcases List.mem_cons.mp hmem with rfl | hmem
  · exact absurd rfl (hfd n hopen)
  · exact ⟨fd', by rwa [hnew], (hfds fd' hmem).trans hopen⟩

theorem settles_accept (h : s.Inv) (hpc : s.pc = .accepting rest)
    (hx : (s.accept answer rest).pc.Runs) (hc : Pending c s ∨ Settled c s) :
    Pending c (s.accept answer rest) ∨ Settled c (s.accept answer rest) := by
  have hold : s.events = s.lfd :: rest := by rw [events, hpc]; rfl
  unfold Server.accept at hx ⊢
  by_cases hback : s.kernel.backlog = []
  · rw [if_pos hback]
    exact hc
  rw [if_neg hback] at hx ⊢
  rcases hacc : s.kernel.acceptfd [s.lfd, s.epfd] answer with _ | ⟨cfd, c'⟩
  · rw [hacc] at hx
    exact absurd hx id
  obtain ⟨-, hqueue, -, -⟩ := Kernel.acceptfd_eq_some hacc
  rcases hc with hpend | ⟨hread, hwait, hclosed⟩
  · refine .inl (pending_of_rest hold (events_resume s.lfd rest) (fun c hfd => ?_)
      (fun fd' hfd' => ?_) hpend)
    · rw [h.kernel.unused s.lfd List.mem_cons_self] at hfd
      cases hfd
    · exact Kernel.fds_install_of_ne (h.event_ne hacc (hold ▸ List.mem_cons_of_mem _ hfd'))
  · refine .inr ⟨hread, fun hmem => hwait (List.mem_of_mem_tail hmem), fun hend fd hfd => ?_⟩
    rcases Kernel.fds_install_eq_some hfd with ⟨-, rfl⟩ | ⟨-, hfd⟩
    · exact hwait (hqueue ▸ List.mem_cons_self)
    · exact hclosed hend fd hfd

theorem settles_read (h : s.Inv) (hpc : s.pc = .reading fd r rest)
    (hx : (s.read n pipe fd r rest).pc.Runs) (hc : Pending c s ∨ Settled c s) :
    Pending c (s.read n pipe fd r rest) ∨ Settled c (s.read n pipe fd r rest) := by
  have hold : s.events = fd :: rest := by rw [events, hpc]; rfl
  have hnodup := h.once
  rw [hold, List.nodup_cons] at hnodup
  obtain ⟨c', hfd⟩ := h.opened hpc
  rcases read_cases hfd (h.kernel.whole _) n pipe r rest with
    ⟨chunk, k, hchunk, hpos, -, -, -, heq | ⟨-, heq⟩⟩ | ⟨hread, hend, heq⟩ |
      ⟨k, -, hread, -, -, -, heq⟩
  · rw [heq]
    rcases hc with ⟨fd', hmem, hopen⟩ | ⟨hunread, hwait, hclosed⟩
    · rw [hold] at hmem
      exact .inl ⟨fd', hmem, hopen⟩
    · have hne : c ≠ c' := by
        rintro rfl
        rw [hunread] at hchunk
        rw [(List.append_eq_nil_iff.mp hchunk.symm).1] at hpos
        exact Nat.lt_irrefl 0 hpos
      have hsame := Kernel.setSock_of_ne (k := s.kernel) hne k
      exact .inr ⟨(congrArg Sock.unread hsame).trans hunread, hwait, fun hend => hclosed
        ((congrArg Sock.ended hsame).symm.trans_ne hend)⟩
  · rw [heq] at hx
    exact absurd hx id
  · rw [heq, leave_of_open (h.reads fd r rest hpc).2]
    by_cases hcc : c' = c
    · subst hcc
      exact .inr ⟨hread, (h.kernel.opened fd c' hfd).2, fun hne => absurd hend hne⟩
    · refine hc.imp (pending_of_rest hold (events_resume s.lfd rest) (fun c₁ hc₁ => ?_)
        fun fd' _ => rfl) id
      rwa [← Option.some.inj (hfd.symm.trans hc₁)]
  · rw [heq, leave_of_Close rfl]
    by_cases hcc : c' = c
    · subst hcc
      refine .inr ⟨?_, (h.kernel.opened fd c' hfd).2, fun _ fd' hfd' => ?_⟩
      · exact (congrArg Sock.unread (Kernel.setSock_self k)).trans hread
      · obtain ⟨hne, hopen⟩ := Kernel.fds_close_eq_some.mp hfd'
        exact hne (h.kernel.inj fd' fd c' hopen hfd)
    · refine hc.imp (pending_of_rest hold (events_resume s.lfd rest) (fun c₁ hc₁ => ?_)
        fun fd' hfd' => Kernel.fds_close_of_ne fun heq => hnodup.1 (heq ▸ hfd')) ?_
      · rwa [← Option.some.inj (hfd.symm.trans hc₁)]
      · rintro ⟨hunread, hwait, hclosed⟩
        have hsame := Kernel.setSock_of_ne (k := s.kernel) (Ne.symm hcc) k
        refine ⟨(congrArg Sock.unread hsame).trans hunread, hwait, fun hne fd' hfd' => ?_⟩
        exact hclosed ((congrArg Sock.ended hsame).symm.trans_ne hne) fd'
          (Kernel.fds_close_eq_some.mp hfd').2

theorem settles_call (h : s.Inv) (hx : (s.turn (.call answer n pipe)).pc.Runs)
    (hc : Pending c s ∨ Settled c s) :
    Pending c (s.turn (.call answer n pipe)) ∨ Settled c (s.turn (.call answer n pipe)) := by
  unfold turn at hx ⊢
  cases hpc : s.pc with
  | waiting => exact hc
  | exited => exact hc
  | killed => exact hc
  | accepting rest =>
    rw [hpc] at hx
    exact settles_accept h hpc hx hc
  | reading fd r rest =>
    rw [hpc] at hx
    exact settles_read h hpc hx hc

/-! ## SIGPIPE -/

/-- One of the connections has ended with something unread: answering it may raise SIGPIPE. -/
def Hazard (fds : List Nat) (s : Server) : Prop :=
  ∃ fd ∈ fds, ∃ c, s.kernel.fds fd = some c ∧ (s.kernel.socks c).ended ≠ none ∧
    (s.kernel.socks c).unread ≠ []

/-- Behind an event there is no hazard that was not there before. -/
theorem hazard_of_rest {t : Server} (hold : s.events = fd :: rest) (hnew : t.events = rest)
    (hfds : ∀ fd' ∈ rest, t.kernel.fds fd' = s.kernel.fds fd')
    (hsocks : ∀ c, t.kernel.socks c = s.kernel.socks c ∨ (t.kernel.socks c).unread = [])
    (h : t.Hazard t.events) : s.Hazard s.events := by
  obtain ⟨fd', hmem, c, hopen, hend, hread⟩ := h
  rw [hnew] at hmem
  have hsame := (hsocks c).resolve_right hread
  rw [hsame] at hend hread
  exact ⟨fd', hold ▸ List.mem_cons_of_mem _ hmem, c, (hfds fd' hmem).symm.trans hopen, hend, hread⟩

theorem resume_ne_killed {lfd : Nat} (h : resume lfd evs = .killed) : False := by
  cases evs with
  | nil => cases h
  | cons fd rest =>
    rw [resume] at h
    split at h <;> cases h

theorem accept_ne_killed (hpc : s.pc ≠ .killed) : (s.accept answer rest).pc ≠ .killed := by
  unfold Server.accept
  split
  · exact hpc
  · split
    · exact Pc.noConfusion
    · exact resume_ne_killed

theorem hazard_accept (h : s.Inv) (hpc : s.pc = .accepting rest)
    (hz : (s.accept answer rest).Hazard (s.accept answer rest).events) : s.Hazard s.events := by
  have hold : s.events = s.lfd :: rest := by rw [events, hpc]; rfl
  unfold Server.accept at hz
  by_cases hback : s.kernel.backlog = []
  · rwa [if_pos hback] at hz
  rw [if_neg hback] at hz
  rcases hacc : s.kernel.acceptfd [s.lfd, s.epfd] answer with _ | ⟨cfd, c⟩
  · rw [hacc] at hz
    obtain ⟨fd, hmem, -⟩ := hz
    cases hmem
  · rw [hacc] at hz
    refine hazard_of_rest hold ?_ (fun fd' hfd' => ?_) (fun c => ?_) hz
    · exact events_resume s.lfd rest
    · exact Kernel.fds_install_of_ne (h.event_ne hacc (hold ▸ List.mem_cons_of_mem _ hfd'))
    · exact .inl rfl

theorem hazard_read (h : s.Inv) (hpc : s.pc = .reading fd r rest)
    (hz : (s.read n pipe fd r rest).pc = .killed ∨
      (s.read n pipe fd r rest).Hazard (s.read n pipe fd r rest).events) : s.Hazard s.events := by
  have hold : s.events = fd :: rest := by rw [events, hpc]; rfl
  have hnodup := h.once
  rw [hold, List.nodup_cons] at hnodup
  obtain ⟨c, hfd⟩ := h.opened hpc
  have hhere : (s.kernel.socks c).ended ≠ none → (s.kernel.socks c).unread ≠ [] →
      s.Hazard s.events := fun hend hread => ⟨fd, hold ▸ List.mem_cons_self, c, hfd, hend, hread⟩
  rcases read_cases hfd (h.kernel.whole _) n pipe r rest with
    ⟨chunk, k, hchunk, hpos, -, hended, -, heq⟩ | ⟨-, -, heq⟩ | ⟨k, -, hread, -, -, -, heq⟩
  · have hne : (s.kernel.socks c).unread ≠ [] := by
      rw [hchunk]
      exact List.append_ne_nil_of_left_ne_nil (List.length_pos_iff.mp hpos) _
    rcases heq with heq | ⟨hend, -⟩
    · rw [heq] at hz
      obtain ⟨fd', hmem, c', hopen, hend, hread⟩ := hz.resolve_left Pc.noConfusion
      by_cases hcc : c' = c
      · have hself : (s.kernel.setSock c k).socks c' = k := by rw [hcc, Kernel.setSock_self]
        refine hhere (fun hnone => hend ?_) hne
        exact (congrArg Sock.ended hself).trans (hended.trans hnone)
      · have hsame := Kernel.setSock_of_ne (k := s.kernel) hcc k
        refine ⟨fd', hold ▸ hmem, c', hopen, ?_, ?_⟩
        · exact (congrArg Sock.ended hsame).symm.trans_ne hend
        · exact (congrArg Sock.unread hsame).symm.trans_ne hread
    · exact hhere (hended ▸ hend) hne
  · rw [heq, leave_of_open (h.reads fd r rest hpc).2] at hz
    refine hazard_of_rest hold ?_ (fun _ _ => ?_) (fun c => ?_) (hz.resolve_left fun hkilled => ?_)
    · exact events_resume s.lfd rest
    · rfl
    · exact .inl rfl
    · exact resume_ne_killed hkilled
  · rw [heq, leave_of_Close rfl] at hz
    refine hazard_of_rest hold ?_ (fun fd' hfd' => ?_) (fun c' => ?_)
      (hz.resolve_left fun hkilled => ?_)
    · exact events_resume s.lfd rest
    · exact Kernel.fds_close_of_ne fun heq => hnodup.1 (heq ▸ hfd')
    · by_cases hcc : c' = c
      · right
        rw [hcc]
        exact (congrArg Sock.unread (Kernel.setSock_self k)).trans hread
      · exact .inl (Kernel.setSock_of_ne hcc k)
    · exact resume_ne_killed hkilled

theorem hazard_call (h : s.Inv) (hpc : s.pc ≠ .killed)
    (hz : (s.turn (.call answer n pipe)).pc = .killed ∨
      (s.turn (.call answer n pipe)).Hazard (s.turn (.call answer n pipe)).events) :
    s.Hazard s.events := by
  unfold turn at hz
  cases hs : s.pc with
  | killed => exact absurd hs hpc
  | waiting =>
    rw [hs] at hz
    exact hz.resolve_left hpc
  | exited =>
    rw [hs] at hz
    exact hz.resolve_left hpc
  | accepting rest =>
    rw [hs] at hz
    exact hazard_accept h hs (hz.resolve_left (accept_ne_killed hpc))
  | reading fd r rest =>
    rw [hs] at hz
    exact hazard_read h hs hz

end Server

open LearnNotes.Web.EpollServer.Server

/-- The calls of a batch that the clients do not disturb. -/
def Calls (js : List Input) : Prop := ∀ j ∈ js, ∃ answer n pipe, j = .call answer n pipe

variable {lfd epfd : Nat} {s : Server} {js : List Input}

theorem calls_done (h : s.Inv) (hjs : Calls js) (hlen : s.work ≤ js.length) :
    ((epollServer lfd epfd).afterFrom s js).events = [] := by
  induction js generalizing s with
  | nil =>
    by_contra hev
    exact absurd hlen (Nat.not_le.mpr (work_pos hev))
  | cons j js ih =>
    obtain ⟨answer, n, pipe, rfl⟩ := hjs j List.mem_cons_self
    have hrest : Calls js := fun j hj => hjs j (List.mem_cons_of_mem _ hj)
    rw [Machine.afterFrom_cons, next_epollServer]
    rw [List.length_cons] at hlen
    by_cases hev : s.events = []
    · rw [turn_call_of_done hev]
      refine ih h hrest ?_
      rw [work, hev, List.map_nil, List.sum_nil]
      exact Nat.zero_le _
    · have hless := work_call h hev answer n pipe
      exact ih (h.turn _) hrest (by omega)

/-- A server that has ended does nothing any more. -/
theorem calls_stopped (hjs : Calls js) (hpc : ¬ s.pc.Runs) :
    (epollServer lfd epfd).afterFrom s js = s := by
  induction js with
  | nil => rfl
  | cons j js ih =>
    obtain ⟨answer, n, pipe, rfl⟩ := hjs j List.mem_cons_self
    have hstay : s.turn (.call answer n pipe) = s :=
      turn_call_of_done (events_of_stopped hpc s.lfd) answer n pipe
    rw [Machine.afterFrom_cons, next_epollServer, hstay]
    exact ih fun j hj => hjs j (List.mem_cons_of_mem _ hj)

theorem calls_settle (lfd epfd : Nat) {c : Nat} (h : s.Inv) (hjs : Calls js)
    (hc : Pending c s ∨ Settled c s) (hruns : ((epollServer lfd epfd).afterFrom s js).pc.Runs) :
    Pending c ((epollServer lfd epfd).afterFrom s js) ∨
      Settled c ((epollServer lfd epfd).afterFrom s js) := by
  induction js generalizing s with
  | nil => exact hc
  | cons j js ih =>
    obtain ⟨answer, n, pipe, rfl⟩ := hjs j List.mem_cons_self
    have hrest : Calls js := fun j hj => hjs j (List.mem_cons_of_mem _ hj)
    rw [Machine.afterFrom_cons, next_epollServer] at hruns ⊢
    by_cases hx : (s.turn (.call answer n pipe)).pc.Runs
    · exact ih (h.turn _) hrest (settles_call h hx hc) hruns
    · rw [calls_stopped hrest hx] at hruns
      exact absurd hruns hx

/-- Where SIGPIPE ends the server, there was a connection of the batch to raise it. -/
theorem calls_killed (lfd epfd : Nat) (h : s.Inv) (hjs : Calls js) (hpc : s.pc ≠ .killed)
    (hkilled : ((epollServer lfd epfd).afterFrom s js).pc = .killed) : s.Hazard s.events := by
  induction js generalizing s with
  | nil => exact absurd hkilled hpc
  | cons j js ih =>
    obtain ⟨answer, n, pipe, rfl⟩ := hjs j List.mem_cons_self
    have hrest : Calls js := fun j hj => hjs j (List.mem_cons_of_mem _ hj)
    rw [Machine.afterFrom_cons, next_epollServer] at hkilled
    by_cases hx : (s.turn (.call answer n pipe)).pc = .killed
    · exact hazard_call h hpc (.inl hx)
    · exact hazard_call h hpc (.inr (ih (h.turn _) hrest hx hkilled))

/-- **A batch is handled.** From any state a run leads to, while the clients keep still: within as
many calls as the reported connections have bytes unread and there are events, the server waits
again, and has received all that the reported connections sent and closed those that ended; or an
`accept` has failed and it has exited; or SIGPIPE has ended it, for which one of the connections had
ended with something unread. -/
theorem batch_handled (lfd epfd : Nat) (is : List Input) (evs : List Nat) (js : List Input)
    (hpc : ((epollServer lfd epfd).after is).pc = .waiting)
    (hevs : ((epollServer lfd epfd).after is).Reports evs) (hjs : Calls js)
    (hlen : (evs.map ((epollServer lfd epfd).after is).cost).sum ≤ js.length) :
    let before := (epollServer lfd epfd).after is
    let after := (epollServer lfd epfd).after (is ++ .wait evs :: js)
    after.pc = .exited ∨ after.pc = .killed ∧ before.Hazard evs ∨ after.pc = .waiting ∧
      ∀ fd ∈ evs, ∀ c, before.kernel.fds fd = some c →
        (after.kernel.socks c).received = (after.kernel.socks c).sent ∧
          ((after.kernel.socks c).ended ≠ none → ∀ fd', after.kernel.fds fd' ≠ some c) := by
  intro before after
  have hbefore : before.Inv := (inv_after lfd epfd is).last
  have hturn : before.turn (.wait evs) = before.deliver evs := by
    unfold turn
    rw [hpc]
    exact if_pos hevs
  have hmid : (before.deliver evs).Inv := hbefore.deliver hpc hevs
  have hafter : after = (epollServer lfd epfd).afterFrom (before.deliver evs) js := by
    change (epollServer lfd epfd).after (is ++ .wait evs :: js) = _
    rw [Machine.after_append, Machine.afterFrom_cons, next_epollServer, ← hturn]
  have hevents : (before.deliver evs).events = evs := events_resume before.lfd evs
  have hwork : (before.deliver evs).work ≤ js.length := by
    rw [work, hevents]
    exact hlen
  have hdone : after.events = [] := by
    rw [hafter]
    exact calls_done hmid hjs hwork
  have hinv : after.Inv := (inv_after lfd epfd _).last
  cases hend : after.pc with
  | exited => exact .inl rfl
  | killed =>
    refine .inr (.inl ⟨rfl, ?_⟩)
    have hz := calls_killed lfd epfd hmid hjs resume_ne_killed (hafter ▸ hend)
    rwa [hevents] at hz
  | accepting rest => rw [events, hend] at hdone; cases hdone
  | reading fd r rest => rw [events, hend] at hdone; cases hdone
  | waiting =>
    refine .inr (.inr ⟨rfl, fun fd hfd c hopen => ?_⟩)
    rw [← hevents] at hfd
    have hpend : Pending c (before.deliver evs) := ⟨fd, hfd, hopen⟩
    have hruns : ((epollServer lfd epfd).afterFrom (before.deliver evs) js).pc.Runs := by
      rw [← hafter, hend]
      trivial
    have hsettled := calls_settle lfd epfd hmid hjs (.inl hpend) hruns
    rw [← hafter] at hsettled
    rcases hsettled with ⟨fd', hmem, -⟩ | ⟨hread, -, hclosed⟩
    · rw [hdone] at hmem
      cases hmem
    · have hwhole := hinv.kernel.whole c
      rw [Sock.Whole, hread, List.append_nil] at hwhole
      exact ⟨hwhole, hclosed⟩

/-- A client connects, sends seven bytes and leaves. -/
def visit : List Input :=
  [.peer .connect, .wait [3], .call (some 5) 0 false,
    .peer (.send 0 [104, 101, 108, 108, 111, 33, 10]), .peer (.finish 0 .closed)]

theorem visit_handled :
    let before := (epollServer 3 4).after visit
    let after :=
      (epollServer 3 4).after (visit ++ .wait [5] :: List.replicate 8 (.call none 5 false))
    after.pc = .exited ∨ after.pc = .killed ∧ before.Hazard [5] ∨ after.pc = .waiting ∧
      ∀ fd ∈ [5], ∀ c, before.kernel.fds fd = some c →
        (after.kernel.socks c).received = (after.kernel.socks c).sent ∧
          ((after.kernel.socks c).ended ≠ none → ∀ fd', after.kernel.fds fd' ≠ some c) :=
  batch_handled 3 4 visit [5] (List.replicate 8 (.call none 5 false)) rfl (by decide)
    (fun j hj => ⟨none, 5, false, List.eq_of_mem_replicate hj⟩) (by decide)

end LearnNotes.Web.EpollServer
