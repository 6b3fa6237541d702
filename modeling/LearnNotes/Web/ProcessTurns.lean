import LearnNotes.Web.ProcessChildren

/-!
# The end of a child of `process_server`

`let_go`: a client that has ended its stream is let go within as many turns of its child as it has
bytes unread, and one, whatever the parent, the other children and the other clients do in between.
Each turn takes something of the stream or ends the child, and nobody else touches either. A turn
whose `write` waits, for a client that does not read its answers, is not over.
-/

namespace LearnNotes.Web.ProcessServer

open Lib

/-- A turn of the child. -/
def Input.isTurn (pid : Nat) : Input → Bool
  | .childWork pid' _ _ => pid' = pid
  | _ => false

namespace System

variable {s : System} {c n pid acceptfd : Nat} {i : Input} {child : Child} {pipe : Bool}

/-! ## Connections that nobody has -/

/-- Let in and let go: nobody has the connection any more. -/
def Over (s : System) (c : Nat) : Prop := s.kernel.Admitted c ∧ s.Free c

theorem Inv.over_accept (h : s.Inv) (hover : s.Over c) (answer : Accepted) :
    (s.accept answer).Over c := by
  unfold System.accept
  split
  · exact hover
  · cases answer with
    | interrupted => exact hover
    | failed => exact hover
    | fd acceptfd =>
      dsimp only
      split
      · exact hover
      · next acceptfd' c' hacc =>
        obtain ⟨hin, hnone, hothers⟩ := hover
        obtain ⟨-, hqueue, -, -⟩ := Kernel.acceptfd_eq_some hacc
        refine ⟨(Kernel.admitted_install h.kernel hacc c).mpr (.inr hin), fun fd hfd => ?_, hothers⟩
        rcases Kernel.fds_install_eq_some hfd with ⟨-, rfl⟩ | ⟨-, hfd⟩
        · exact hin.2 (hqueue ▸ List.mem_cons_self)
        · exact hnone fd hfd

theorem over_fork (hover : s.Over c) (answer : Option Nat) (acceptfd : Nat) :
    (s.fork answer acceptfd).Over c := by
  obtain ⟨hin, hnone, hothers⟩ := hover
  unfold System.fork
  split
  · refine ⟨hin, fun fd hfd => hnone fd (Kernel.fds_close_eq_some.mp hfd).2, fun pid' hhas => ?_⟩
    rcases childHas_fork hhas with ⟨-, fd, hfd⟩ | ⟨-, hhas⟩
    · exact hnone fd hfd
    · exact hothers pid' hhas
  · exact ⟨hin, hnone, hothers⟩

theorem Inv.over_childWork (h : s.Inv) (hchild : s.children pid = some child) (hover : s.Over c)
    (n : Nat) (pipe : Bool) : (s.childWork pid n pipe child).Over c := by
  obtain ⟨hin, hnone, hothers⟩ := hover
  obtain ⟨c', hfd, -⟩ := h.works pid child hchild
  rcases childWork_cases hfd (h.kernel.whole c') pid n pipe with
    ⟨-, heq⟩ | ⟨k, -, -, ⟨-, heq⟩ | ⟨-, -, heq⟩ | ⟨-, heq⟩⟩
  · rw [heq]
    exact ⟨hin, hnone, hothers⟩
  · rw [heq]
    exact ⟨hin, hnone, hothers⟩
  all_goals
    rw [heq]
    exact ⟨hin, hnone, fun pid' hhas => hothers pid' (childHas_exit.mp hhas).2⟩

/-- Whom nobody has, nobody gets. -/
theorem Inv.over_turn (h : s.Inv) (hover : s.Over c) (i : Input) : (s.turn i).Over c := by
  unfold System.turn
  cases i with
  | peer e =>
    obtain ⟨hin, hnone, hothers⟩ := hover
    refine ⟨(Kernel.admitted_peer s.kernel e c).mpr hin, fun fd => ?_, hothers⟩
    dsimp only
    rw [Kernel.fds_peer]
    exact hnone fd
  | accept answer =>
    dsimp only
    split
    · exact h.over_accept hover answer
    · exact hover
  | fork answer =>
    dsimp only
    split
    · exact over_fork hover answer _
    · exact hover
  | childWork pid n pipe =>
    dsimp only
    split
    · next child hchild => exact h.over_childWork hchild hover n pipe
    · exact hover
  | sigchld =>
    dsimp only
    split <;> exact hover

/-! ## Connections whose client has gone -/

/-- The child has the connection of a client that has gone, with `left` bytes unread at most. -/
structure Ending (s : System) (pid c left : Nat) : Prop where
  has : s.ChildHas pid c
  ended : (s.kernel.socks c).ended ≠ none
  left : (s.kernel.socks c).unread.length ≤ left

/-- A turn of the child. -/
theorem Inv.ending_childWork (h : s.Inv) (hchild : s.children pid = some child) {left : Nat}
    (hc : s.Ending pid c left) (n : Nat) (pipe : Bool) :
    (s.childWork pid n pipe child).Over c ∨
      0 < left ∧ (s.childWork pid n pipe child).Ending pid c (left - 1) := by
  obtain ⟨hhas, hend, hleft⟩ := hc
  have hin := h.admitted pid c hhas
  obtain ⟨c', hfd, -⟩ := h.works pid child hchild
  obtain rfl : c = c' := (h.childHas_iff hchild hfd).mp hhas
  rcases childWork_cases hfd (h.kernel.whole c) pid n pipe with
    ⟨hopen, -⟩ | ⟨k, hk, hsame, ⟨hless, heq⟩ | ⟨-, -, heq⟩ | ⟨-, heq⟩⟩
  · exact absurd hopen hend
  · rw [heq]
    have hself : (s.kernel.setSock c k).socks c = k := Kernel.setSock_self k
    refine .inr ⟨by omega, hhas, ?_, ?_⟩
    · exact (congrArg Sock.ended hself).trans_ne (hsame.mpr hend)
    · have hread := congrArg (fun k : Sock => k.unread.length) hself
      exact hread.trans_le (by omega)
  all_goals
    rw [heq]
    exact .inl ⟨hin, ((h.setSock hhas hk).free_exit hchild hfd).mpr (.inl rfl)⟩

/-- A turn of another child. -/
theorem Inv.ending_other (h : s.Inv) {pid' : Nat} (hchild : s.children pid' = some child)
    (hne : pid ≠ pid') {left : Nat} (hc : s.Ending pid c left) (n : Nat) (pipe : Bool) :
    (s.childWork pid' n pipe child).Ending pid c left := by
  obtain ⟨hhas, hend, hleft⟩ := hc
  obtain ⟨c', hfd, -⟩ := h.works pid' child hchild
  have hcc : c ≠ c' := fun heq =>
    hne (h.apart pid pid' c hhas ((h.childHas_iff hchild hfd).mpr heq))
  have hsame : ∀ k : Sock, (s.kernel.setSock c' k).socks c = s.kernel.socks c := fun k =>
    Kernel.setSock_of_ne hcc k
  have hkeep : ∀ k : Sock, ((s.kernel.setSock c' k).socks c).ended ≠ none ∧
      ((s.kernel.setSock c' k).socks c).unread.length ≤ left := fun k => by
    rw [hsame k]
    exact ⟨hend, hleft⟩
  rcases childWork_cases hfd (h.kernel.whole c') pid' n pipe with
    ⟨-, heq⟩ | ⟨k, -, -, ⟨-, heq⟩ | ⟨-, -, heq⟩ | ⟨-, heq⟩⟩
  · rw [heq]
    exact ⟨hhas, hend, hleft⟩
  · rw [heq]
    exact ⟨hhas, (hkeep k).1, (hkeep k).2⟩
  all_goals
    rw [heq]
    exact ⟨childHas_exit.mpr ⟨hne, hhas⟩, (hkeep k).1, (hkeep k).2⟩

theorem Ending.fork (h : s.Ending pid c n) (answer : Option Nat) (acceptfd : Nat) :
    (s.fork answer acceptfd).Ending pid c n := by
  obtain ⟨⟨child, hchild, hfd⟩, hend, hleft⟩ := h
  unfold System.fork
  split
  · next pid' hforked =>
    have hne : pid ≠ pid' := by
      rintro rfl
      rw [forked_eq_some hforked] at hchild
      cases hchild
    exact ⟨⟨child, (Function.update_of_ne hne ..).trans hchild, hfd⟩, hend, hleft⟩
  · exact ⟨⟨child, hchild, hfd⟩, hend, hleft⟩

theorem Ending.accept (h : s.Ending pid c n) (answer : Accepted) :
    (s.accept answer).Ending pid c n := by
  unfold System.accept
  split
  · exact h
  · cases answer with
    | interrupted => exact h
    | failed => exact ⟨h.has, h.ended, h.left⟩
    | fd acceptfd =>
      dsimp only
      split <;> exact ⟨h.has, h.ended, h.left⟩

/-- **One step**: the child's turn takes something of the stream, or ends the child. -/
theorem Inv.ending_turn (h : s.Inv) {left : Nat} (hc : s.Ending pid c left) (i : Input) :
    (s.turn i).Over c ∨
      (i.isTurn pid).toNat ≤ left ∧ (s.turn i).Ending pid c (left - (i.isTurn pid).toNat) := by
  unfold System.turn
  cases i with
  | peer e =>
    have hsame := Kernel.socks_peer_of_ended e hc.ended
    refine .inr ⟨Nat.zero_le _, hc.has, ?_, ?_⟩
    · exact (congrArg Sock.ended hsame).trans_ne hc.ended
    · exact (congrArg (fun k : Sock => k.unread.length) hsame).trans_le hc.left
  | accept answer =>
    right
    dsimp only
    split
    · exact ⟨Nat.zero_le _, hc.accept answer⟩
    · exact ⟨Nat.zero_le _, hc⟩
  | fork answer =>
    right
    dsimp only
    split
    · exact ⟨Nat.zero_le _, hc.fork answer _⟩
    · exact ⟨Nat.zero_le _, hc⟩
  | sigchld =>
    right
    dsimp only
    split
    · exact ⟨Nat.zero_le _, hc⟩
    · exact ⟨Nat.zero_le _, hc.has, hc.ended, hc.left⟩
  | childWork pid' n pipe =>
    dsimp only
    by_cases hpid : pid' = pid
    · subst hpid
      obtain ⟨child, hchild, -⟩ := hc.has
      have hturn : (Input.childWork pid' n pipe).isTurn pid' = true := decide_eq_true rfl
      rw [hturn, hchild]
      exact h.ending_childWork hchild hc n pipe
    · have hturn : (Input.childWork pid' n pipe).isTurn pid = false := decide_eq_false hpid
      rw [hturn]
      right
      split
      · next child hchild => exact ⟨Nat.zero_le _, h.ending_other hchild (Ne.symm hpid) hc n pipe⟩
      · exact ⟨Nat.zero_le _, hc⟩

end System

/-! ## Whole runs -/

variable {listenfd pid c : Nat} {is js : List Input}

theorem inv_after (hforks : (processServer listenfd).EveryStep is System.Forks) :
    ((processServer listenfd).after is).Inv :=
  (Machine.everyState_of_guard (System.Inv.init listenfd) (fun _ _ h hforks => h.turn hforks)
    hforks).last

/-- Along a run, until the client is let go. -/
theorem ending_after {left : Nat}
    (hforks : (processServer listenfd).EveryStep (is ++ js) System.Forks)
    (hc : ((processServer listenfd).after is).Ending pid c left) :
    ((processServer listenfd).after (is ++ js)).Over c ∨
      js.countP (Input.isTurn pid) ≤ left ∧ ((processServer listenfd).after (is ++ js)).Ending pid c
        (left - js.countP (Input.isTurn pid)) := by
  induction js using List.reverseRecOn with
  | nil =>
    rw [List.append_nil]
    exact .inr ⟨Nat.zero_le _, hc⟩
  | append_singleton js i ih =>
    rw [← List.append_assoc] at hforks ⊢
    obtain ⟨hforks, -⟩ := Machine.everyStep_snoc.mp hforks
    have hinv := inv_after hforks
    have hnext : (processServer listenfd).after (is ++ js ++ [i]) =
        ((processServer listenfd).after (is ++ js)).turn i := Machine.after_snoc
    have hcount : (js ++ [i]).countP (Input.isTurn pid) =
        js.countP (Input.isTurn pid) + (i.isTurn pid).toNat := by
      rw [List.countP_append, List.countP_singleton]
      cases i.isTurn pid <;> rfl
    rw [hnext, hcount]
    rcases ih hforks with hover | ⟨hle, hc⟩
    · exact .inl (hinv.over_turn hover i)
    · refine (hinv.ending_turn hc i).imp_right fun ⟨hle', hc'⟩ => ⟨by omega, ?_⟩
      rwa [Nat.sub_sub] at hc'

/-- **A client that has gone is let go** within as many turns of its child as it has bytes unread,
and one, whatever happens in between: no process has it then, and it has been read to the end unless
SIGPIPE has ended the child. -/
theorem let_go (pid : Nat)
    (hforks : (processServer listenfd).EveryStep (is ++ js) System.Forks)
    (hhas : ((processServer listenfd).after is).ChildHas pid c)
    (hend : (((processServer listenfd).after is).kernel.socks c).ended ≠ none)
    (hturns : (((processServer listenfd).after is).kernel.socks c).unread.length <
      js.countP (Input.isTurn pid)) :
    let after := (processServer listenfd).after (is ++ js)
    after.Free c ∧ (after.ReadToEnd c ∨ c ∈ after.dropped) := by
  intro after
  rcases ending_after hforks ⟨hhas, hend, le_rfl⟩ with ⟨hin, hfree⟩ | ⟨hle, -⟩
  · exact ⟨hfree, (inv_after hforks).readToEnd hin hfree⟩
  · exact absurd hle (Nat.not_le.mpr hturns)

/-- A client leaves with two bytes sent, and another one comes while child 7 reads them. -/
theorem let_go_visit :
    let is : List Input := [.peer .connect, .accept (.fd 4), .fork (some 7),
      .peer (.send 0 [104, 105]), .peer (.finish 0 .closed)]
    let after := (processServer 3).after
      (is ++ [.childWork 7 1 false, .peer .connect, .childWork 7 1 false, .accept (.fd 4),
        .childWork 7 1 false])
    after.Free 0 ∧ (after.ReadToEnd 0 ∨ 0 ∈ after.dropped) :=
  let_go 7 (by decide) ⟨_, rfl, 4, rfl⟩ (by decide) (by decide)

end LearnNotes.Web.ProcessServer
