import Mathlib.Data.Finset.Card
import Mathlib.Data.Finset.Range
import LearnNotes.Lib.Machine
import LearnNotes.Web.Sockets
import LearnNotes.Web.ThreadServer

/-!
# The threads of `thread_server`

The slot search, the `accept` behind it and the workers of `web/thread_server.cpp`, each of which
shares its `SockInfo` with the main thread, and the clients, a step at a time in any order.
`isolated`: a slot is given to one connection and one worker at a time, and no two workers read
the same descriptor. A worker that is done gives its slot back and does not close its descriptor:
`lifetime`, no connection is ever closed, so a server that may have `limit` descriptors lets no
more than that many clients in before `accept` fails and it exits.

A step of main is one iteration of the search, or `accept` with the code up to the next search; one
of a worker is a `read` and what follows it. The answers and what is printed are left out.
-/

namespace LearnNotes.Web.ThreadServer

open Lib

def MAXBUFF : Nat := 1024

/-- What the main thread is at; `pinfo` is the slot it has found. -/
inductive Main where
  | searching (s : Search)
  | accepting (pinfo : Nat)
  | exited

/-- `running` are the slots whose workers are in their loop. -/
structure Server where
  listenfd : Nat
  limit : Nat
  kernel : Kernel := {}
  infos : Infos
  running : Nat → Bool := fun _ => false
  main : Main := .searching (.at 0)

/-- A client, an iteration of the search, an `accept` and whether `pthread_create` then succeeds,
or the `read` of the worker of a slot. -/
inductive Input where
  | peer (e : PeerEvent)
  | look
  | accept (answer : Option Nat) (created : Bool)
  | work (slot : Nat) (n : Nat)

namespace Server

/-- The search, which goes on to `accept` once it has a slot. -/
def look (s : Search) (t : Server) : Server :=
  match s.turn t.infos with
  | .found pinfo => { t with main := .accepting pinfo }
  | s' => { t with main := .searching s' }

/-- `accept` gives descriptors below the limit of the process. -/
def acceptfd (answer : Option Nat) (t : Server) : Option (Nat × Nat) :=
  match t.kernel.acceptfd [t.listenfd] answer with
  | some (fd, c) => if fd < t.limit then some (fd, c) else none
  | none => none

/-- A connection request, its slot and its worker. The result of `pthread_create` is not looked
at. -/
def accept (answer : Option Nat) (created : Bool) (pinfo : Nat) (t : Server) : Server :=
  if t.kernel.backlog = [] then t
  else
    match t.acceptfd answer with
    | none => { t with main := .exited }
    | some (connfd, c) =>
      { t with
        kernel := t.kernel.install connfd c
        infos := Function.update t.infos pinfo connfd
        running := if created then Function.update t.running pinfo true else t.running
        main := .searching (.at 0) }

/-- One turn of the loop of a worker; with nothing to read it waits. -/
def work (slot n : Nat) (t : Server) : Server :=
  let t' := { t with kernel := (t.kernel.recv MAXBUFF n (t.infos slot).toNat).2 }
  match (t.kernel.recv MAXBUFF n (t.infos slot).toNat).1 with
  | .ok (b :: bs) => { t' with infos := working slot (b :: bs).length t.infos }
  | .ok [] =>
    { t' with
      infos := working slot 0 t.infos
      running := Function.update t.running slot false }
  | .error .EAGAIN => t
  | .error _ =>
    { t' with
      infos := working slot (-1) t.infos
      running := Function.update t.running slot false }

def turn (t : Server) : Input → Server
  | .peer e => { t with kernel := t.kernel.peer e }
  | .look =>
    match t.main with
    | .searching s => t.look s
    | _ => t
  | .accept answer created =>
    match t.main with
    | .accepting pinfo => t.accept answer created pinfo
    | _ => t
  | .work slot n =>
    match t.main with
    | .exited => t
    | _ => if t.running slot then t.work slot n else t

end Server

/-- `main` after its socket is set up; `mem` is what the stack holds. -/
def threadServer (listenfd limit : Nat) (mem : Infos) : Machine Server Input Unit where
  init := { listenfd := listenfd, limit := limit, infos := clear mem }
  step t i := ((), t.turn i)

namespace Server

/-- The slots that hold a descriptor hold different ones, all of them open, and a worker has the
descriptor of its slot; the slot main has found is free. -/
structure Isolated (t : Server) : Prop where
  held : ∀ i, i < MAXLINK → t.infos i ≠ -1 →
    ∃ fd c : Nat, t.infos i = fd ∧ t.kernel.fds fd = some c
  apart : ∀ i j, i < MAXLINK → j < MAXLINK → t.infos i ≠ -1 → t.infos i = t.infos j → i = j
  works : ∀ i, t.running i = true → i < MAXLINK ∧ t.infos i ≠ -1
  found : ∀ pinfo, t.main = .accepting pinfo →
    pinfo < MAXLINK ∧ t.infos pinfo = -1 ∧ t.running pinfo = false
  looks : ∀ s, t.main = .searching s → ∃ u, s = .at (cursor u)

/-- Every connection that was let in is open. -/
def Kept (t : Server) : Prop :=
  ∀ c, t.kernel.Admitted c → ∃ fd < t.limit, t.kernel.fds fd = some c

/-- How many clients have been let in. -/
def admitted (t : Server) : Nat := t.kernel.made - t.kernel.backlog.length

structure Inv (t : Server) : Prop extends t.Isolated where
  kernel : t.kernel.Ok [t.listenfd]
  kept : t.Kept

variable {t : Server} {slot n c fd pinfo : Nat} {answer : Option Nat} {created : Bool}

theorem Inv.init (listenfd limit : Nat) (mem : Infos) :
    ({ listenfd := listenfd, limit := limit, infos := clear mem } : Server).Inv where
  held i hi hbusy := absurd (clear_free mem hi) hbusy
  apart i j hi _ hbusy := absurd (clear_free mem hi) hbusy
  works i := by rintro ⟨⟩
  found pinfo := by rintro ⟨⟩
  looks s hs := by
    cases hs
    exact ⟨0, rfl⟩
  kernel := Kernel.Ok.init _
  kept c hc := absurd hc Kernel.not_admitted_init

/-! ## The clients -/

theorem Inv.peer (h : t.Inv) (e : PeerEvent) :
    ({ t with kernel := t.kernel.peer e } : Server).Inv where
  held i hi hbusy := by
    dsimp only
    rw [Kernel.fds_peer]
    exact h.held i hi hbusy
  apart := h.apart
  works := h.works
  found := h.found
  looks := h.looks
  kernel := h.kernel.peer e
  kept c hin := by
    dsimp only at hin ⊢
    rw [Kernel.admitted_peer] at hin
    rw [Kernel.fds_peer]
    exact h.kept c hin

/-! ## The main thread -/

theorem Inv.look (h : t.Inv) {s : Search} (hs : t.main = .searching s) : (t.look s).Inv := by
  obtain ⟨u, rfl⟩ := h.looks s hs
  unfold Server.look
  by_cases hfree : t.infos (cursor u) = -1
  · rw [turn_of_free (cursor_lt u) hfree]
    refine
      { held := h.held
        apart := h.apart
        works := h.works
        found := fun pinfo hfound => ?_
        looks := fun _ => by rintro ⟨⟩
        kernel := h.kernel
        kept := h.kept }
    cases hfound
    refine ⟨cursor_lt u, hfree, ?_⟩
    rw [← Bool.not_eq_true]
    exact fun hrun => (h.works _ hrun).2 hfree
  · rw [turn_of_busy hfree]
    exact
      { held := h.held
        apart := h.apart
        works := h.works
        found := fun _ => by rintro ⟨⟩
        looks := fun s hs => by
          cases hs
          exact ⟨u + 1, rfl⟩
        kernel := h.kernel
        kept := h.kept }

theorem acceptfd_eq_some (h : t.acceptfd answer = some (fd, c)) :
    t.kernel.acceptfd [t.listenfd] answer = some (fd, c) ∧ fd < t.limit := by
  unfold acceptfd at h
  split at h
  · next fd' c' hacc =>
    split at h
    · next hlt =>
      cases h
      exact ⟨hacc, hlt⟩
    · cases h
  · cases h

/-- No slot has a descriptor that is not open. -/
theorem Inv.infos_ne (h : t.Inv) (hnew : t.kernel.fds fd = none) {i : Nat} (hi : i < MAXLINK) :
    t.infos i ≠ fd := by
  intro heq
  have hbusy : t.infos i ≠ -1 := by omega
  obtain ⟨fd', c', hfd, hopen⟩ := h.held i hi hbusy
  have hsame : fd' = fd := by omega
  rw [hsame, hnew] at hopen
  cases hopen

theorem Inv.accept (h : t.Inv) (hpc : t.main = .accepting pinfo) (answer : Option Nat)
    (created : Bool) : (t.accept answer created pinfo).Inv := by
  obtain ⟨hslot, hfree, -⟩ := h.found pinfo hpc
  unfold Server.accept
  by_cases hback : t.kernel.backlog = []
  · rw [if_pos hback]
    exact h
  rw [if_neg hback]
  rcases hacc : t.acceptfd answer with _ | ⟨connfd, c⟩
  · exact
      { h with
        found := fun _ => by rintro ⟨⟩
        looks := fun _ => by rintro ⟨⟩ }
  obtain ⟨hacc, hlimit⟩ := acceptfd_eq_some hacc
  obtain ⟨-, hqueue, -, hnew⟩ := Kernel.acceptfd_eq_some hacc
  have hother : ∀ i, i ≠ pinfo → Function.update t.infos pinfo (connfd : Int) i = t.infos i :=
    fun i hi => Function.update_of_ne hi ..
  have hself : Function.update t.infos pinfo (connfd : Int) pinfo = connfd :=
    Function.update_self ..
  exact
    { held := fun i hi hbusy => by
        dsimp only at hbusy ⊢
        by_cases heq : i = pinfo
        · rw [heq, hself]
          exact ⟨connfd, c, rfl, Kernel.fds_install_self⟩
        · rw [hother i heq] at hbusy ⊢
          obtain ⟨fd, c', hfd, hopen⟩ := h.held i hi hbusy
          exact ⟨fd, c', hfd, Kernel.fds_install_of_open hnew hopen⟩
      apart := fun i j hi hj hbusy hsame => by
        dsimp only at hbusy hsame
        by_cases heqi : i = pinfo <;> by_cases heqj : j = pinfo
        · rw [heqi, heqj]
        · rw [heqi, hself, hother j heqj] at hsame
          exact absurd hsame.symm (h.infos_ne hnew hj)
        · rw [heqj, hself, hother i heqi] at hsame
          exact absurd hsame (h.infos_ne hnew hi)
        · rw [hother i heqi] at hbusy hsame
          rw [hother j heqj] at hsame
          exact h.apart i j hi hj hbusy hsame
      works := fun i hrun => by
        dsimp only at hrun ⊢
        by_cases heq : i = pinfo
        · rw [heq, hself]
          exact ⟨hslot, by omega⟩
        · rw [hother i heq]
          cases created with
          | false => exact h.works i hrun
          | true =>
            rw [if_pos rfl, Function.update_of_ne heq] at hrun
            exact h.works i hrun
      found := fun _ => by rintro ⟨⟩
      looks := fun s hs => by
        cases hs
        exact ⟨0, rfl⟩
      kernel := h.kernel.install hacc
      kept := fun c' hin => by
        rcases (Kernel.admitted_install h.kernel hacc c').mp hin with rfl | hin
        · exact ⟨connfd, hlimit, Kernel.fds_install_self⟩
        · obtain ⟨fd, hlt, hopen⟩ := h.kept c' hin
          exact ⟨fd, hlt, Kernel.fds_install_of_open hnew hopen⟩ }

/-! ## The workers -/

/-- A worker reads from its connection. -/
theorem Inv.recv (h : t.Inv) (n fd : Nat) :
    ({ t with kernel := (t.kernel.recv MAXBUFF n fd).2 } : Server).Inv :=
  { h with
    held := fun i hi hbusy => by
      dsimp only
      rw [Kernel.fds_recv]
      exact h.held i hi hbusy
    kernel := h.kernel.recv MAXBUFF n fd
    kept := fun c hin => by
      dsimp only at hin ⊢
      rw [Kernel.admitted_recv] at hin
      rw [Kernel.fds_recv]
      exact h.kept c hin }

theorem working_of_le_zero {ret : Int} (h : ret = 0 ∨ ret = -1) (i : Nat) (infos : Infos) :
    working i ret infos = Function.update infos i (-1) := by
  unfold working
  rcases h with rfl | rfl
  · rw [if_pos rfl]
  · rw [if_neg (by decide), if_pos rfl]

/-- A worker gives its slot back. -/
theorem Inv.leave (h : t.Inv) (slot : Nat) :
    ({ t with
      infos := Function.update t.infos slot (-1)
      running := Function.update t.running slot false } : Server).Inv := by
  have hself : Function.update t.infos slot (-1 : Int) slot = -1 := Function.update_self ..
  have hother : ∀ i, i ≠ slot → Function.update t.infos slot (-1 : Int) i = t.infos i :=
    fun i hi => Function.update_of_ne hi ..
  have hbusy : ∀ i, Function.update t.infos slot (-1 : Int) i ≠ -1 → i ≠ slot := by
    rintro i hbusy rfl
    exact hbusy hself
  exact
    { held := fun i hi hb => by
        have hne := hbusy i hb
        dsimp only at hb ⊢
        rw [hother i hne] at hb ⊢
        exact h.held i hi hb
      apart := fun i j hi hj hb hsame => by
        have hi' := hbusy i hb
        dsimp only at hb hsame
        have hj' : j ≠ slot := fun heq => by
          rw [heq, hself] at hsame
          exact hb hsame
        rw [hother i hi'] at hb hsame
        rw [hother j hj'] at hsame
        exact h.apart i j hi hj hb hsame
      works := fun i hrun => by
        dsimp only at hrun ⊢
        have hne : i ≠ slot := by
          rintro rfl
          rw [Function.update_self] at hrun
          cases hrun
        rw [Function.update_of_ne hne] at hrun
        rw [hother i hne]
        exact h.works i hrun
      found := fun pinfo hpc => by
        obtain ⟨hlt, hfree, hrun⟩ := h.found pinfo hpc
        dsimp only
        by_cases heq : pinfo = slot
        · rw [heq, hself, Function.update_self]
          exact ⟨heq ▸ hlt, rfl, rfl⟩
        · rw [hother pinfo heq, Function.update_of_ne heq]
          exact ⟨hlt, hfree, hrun⟩
      looks := h.looks
      kernel := h.kernel
      kept := h.kept }

theorem Inv.work (h : t.Inv) (slot n : Nat) : (t.work slot n).Inv := by
  unfold Server.work
  have hread := h.recv n (t.infos slot).toNat
  dsimp only
  split
  · next b bs _ =>
    have hstay : working slot ((b :: bs).length : Nat) t.infos = t.infos := by
      unfold working
      rw [List.length_cons, if_neg (by omega), if_neg (by omega)]
    rw [hstay]
    exact hread
  · rw [working_of_le_zero (.inl rfl)]
    exact hread.leave slot
  · exact h
  · rw [working_of_le_zero (.inr rfl)]
    exact hread.leave slot

theorem Inv.turn (h : t.Inv) (i : Input) : (t.turn i).Inv := by
  unfold Server.turn
  cases i with
  | peer e => exact h.peer e
  | look =>
    dsimp only
    split
    · next s hs => exact h.look hs
    · exact h
  | accept answer created =>
    dsimp only
    split
    · next pinfo hpc => exact h.accept hpc answer created
    · exact h
  | work slot n =>
    dsimp only
    split
    · exact h
    · split
      · exact h.work slot n
      · exact h

end Server

theorem inv_after (listenfd limit : Nat) (mem : Infos) (is : List Input) :
    (threadServer listenfd limit mem).EveryState is Server.Inv :=
  Machine.everyState_of_step (Server.Inv.init listenfd limit mem) fun _ i h => h.turn i

/-- **Slots and workers**, along every run. -/
theorem isolated (listenfd limit : Nat) (mem : Infos) (is : List Input) :
    (threadServer listenfd limit mem).EveryState is Server.Isolated :=
  fun pre hpre => (inv_after listenfd limit mem is pre hpre).toIsolated

/-! ## Descriptors -/

/-- The clients that were let in hold as many descriptors. -/
theorem Server.Inv.admitted_le {t : Server} (h : t.Inv) : t.admitted ≤ t.limit := by
  have hsub : t.kernel.backlog.toFinset ⊆ Finset.range t.kernel.made := fun c hc =>
    Finset.mem_range.mpr (h.kernel.waits c (List.mem_toFinset.mp hc))
  have hcard : (Finset.range t.kernel.made \ t.kernel.backlog.toFinset).card = t.admitted := by
    rw [Finset.card_sdiff_of_subset hsub, Finset.card_range,
      List.toFinset_card_of_nodup h.kernel.once, admitted]
  have hfd : ∀ c ∈ Finset.range t.kernel.made \ t.kernel.backlog.toFinset,
      ∃ fd < t.limit, t.kernel.fds fd = some c := fun c hc => by
    obtain ⟨hmade, hwait⟩ := Finset.mem_sdiff.mp hc
    exact h.kept c ⟨Finset.mem_range.mp hmade, fun hmem => hwait (List.mem_toFinset.mpr hmem)⟩
  choose! f hlt hopen using hfd
  rw [← hcard, ← Finset.card_range t.limit]
  refine Finset.card_le_card_of_injOn f (fun c hc => Finset.mem_range.mpr (hlt c hc)) ?_
  intro c hc c' hc' heq
  have hsame : t.kernel.fds (f c) = t.kernel.fds (f c') := congrArg t.kernel.fds heq
  rw [hopen c hc, hopen c' hc'] at hsame
  exact Option.some.inj hsame

theorem Server.limit_turn (t : Server) (i : Input) : (t.turn i).limit = t.limit := by
  unfold turn
  cases i with
  | peer e => rfl
  | look =>
    dsimp only
    split
    · unfold look
      split <;> rfl
    · rfl
  | accept answer created =>
    dsimp only
    split
    · unfold accept
      split
      · rfl
      · split <;> rfl
    · rfl
  | work slot n =>
    dsimp only
    split
    · rfl
    · split
      · unfold work
        dsimp only
        split <;> rfl
      · rfl

/-- **No connection is closed**: each keeps its descriptor when its client is gone and its worker
done, so no more clients are ever let in than the process may have descriptors. -/
theorem lifetime (listenfd limit : Nat) (mem : Infos) (is : List Input) :
    (threadServer listenfd limit mem).EveryState is fun t =>
      t.limit = limit ∧ t.Kept ∧ t.admitted ≤ limit := by
  have hlimit : (threadServer listenfd limit mem).EveryState is fun t => t.limit = limit :=
    Machine.everyState_of_step rfl fun t i h => (t.limit_turn i).trans h
  intro pre hpre
  have h := inv_after listenfd limit mem is pre hpre
  have hle := h.admitted_le
  rw [hlimit pre hpre] at hle
  exact ⟨hlimit pre hpre, h.kept, hle⟩

end LearnNotes.Web.ThreadServer
