/-
# LinuxNet.Multiplexing — accepted connections of the three multiplexing servers

The select server, the poll server and the TLS server were written separately, with three different
tables. All three accept a client before they look for a free slot, and none of them does anything with a
client that finds no slot.
-/
import LinuxNet.Tutorials.SelectServer.Tracked
import LinuxNet.Tutorials.PollServer.Tracked
import LinuxNet.Openssl.SslServer.Tracked

namespace LinuxNet.Multiplexing

open LinuxNet.Lib LinuxNet.Lib.FdLedger LinuxNet.Tutorials LinuxNet.Openssl LinuxNet.Posix

/-- **No accepted connection goes untracked** in a run in which `accept` returns a descriptor only while
there is a free slot (and, for the select server and the TLS server, never 0; and for the select server the
descriptors are below `FD_SETSIZE`): whatever else the calls answer, every accepted descriptor that has not
been closed is one the loop monitors. -/
theorem tracked_of_reach (sock_server : Int) (ssl : SslServer.Ssl)
    (frame : SelectServer.State → SelectServer.Event → Option SelectServer.State) :
    (sock_server < SelectServer.fdSetSize →
      ∀ s, Reach (SelectServer.stepInFrame frame)
        (fun s e => SelectServer.AcceptsWithRoom s e ∧ SelectServer.BelowSetSize s e)
        (SelectServer.init sock_server) s → SelectServer.Tracked s) ∧
    (∀ s, Reach PollServer.step PollServer.AcceptsWithRoom (PollServer.init sock_server) s →
      PollServer.Tracked s) ∧
    ∀ s, Reach SslServer.step SslServer.AcceptsWithRoom (SslServer.init sock_server ssl) s →
      s.phase ≠ .exited → SslServer.Tracked s :=
  ⟨fun hsock _ h => SelectServer.tracked_of_room hsock h, fun _ h => PollServer.tracked_of_room h,
    fun _ h hrun => SslServer.tracked_of_room h hrun⟩

/-- The listener being 3, the clients 4 and 5 are accepted by the select server, and 4 hangs up; client 4 is
accepted by the poll server. -/
theorem tracked_of_reach_few_clients :
    (∃ s, Reach (SelectServer.stepInFrame SelectServer.debugFrame)
      (fun s e => SelectServer.AcceptsWithRoom s e ∧ SelectServer.BelowSetSize s e) (SelectServer.init 3) s ∧
        s.clients = [5] ∧ SelectServer.Tracked s) ∧
    ∃ s, Reach PollServer.step PollServer.AcceptsWithRoom (PollServer.init 3) s ∧
      4 ∈ openFds ∅ s.history ∧ PollServer.Tracked s := by
  have hselect : (execOk (SelectServer.stepInFrame SelectServer.debugFrame)
      (fun s e => SelectServer.AcceptsWithRoom s e ∧ SelectServer.BelowSetSize s e) (SelectServer.init 3)
      [.select 1 {3}, .tau, .tau, .tau, .accept 4, .tau, .tau,
        .select 1 {3}, .tau, .tau, .tau, .accept 5, .tau, .tau, .tau,
        .select 1 {4}, .tau, .tau, .tau, .tau, .serve (.data []) 0 0]).any
        (fun s => s.clients = [5]) = true := by decide
  have hpoll : (execOk PollServer.step PollServer.AcceptsWithRoom (PollServer.init 3)
      [.poll 1 fun i => if i = 0 then pollIn else 0, .accept 4]).any
        (fun s => 4 ∈ openFds ∅ s.history) = true := by decide
  obtain ⟨s, hs, hclients⟩ := exists_reach_of_exec hselect
  obtain ⟨t, ht, hopen⟩ := exists_reach_of_exec hpoll
  exact ⟨⟨s, hs, of_decide_eq_true hclients, (tracked_of_reach 3 100 _).1 (by decide) s hs⟩,
    t, ht, of_decide_eq_true hopen, (tracked_of_reach 3 100 SelectServer.debugFrame).2.1 t ht⟩

/-- **Every one of the three servers loses a client**: the one that is accepted when the table is full. -/
theorem untracked :
    (∃ s, Reach (SelectServer.stepInFrame SelectServer.debugFrame) (SelectServer.FreshAccept {0, 1, 2, 3})
      (SelectServer.init 3) s ∧ ¬ SelectServer.Tracked s) ∧
    (∃ s, Reach PollServer.step (PollServer.FreshAccept {0, 1, 2, 3}) (PollServer.init 3) s ∧
      ¬ PollServer.Tracked s) ∧
    ∃ s, Reach SslServer.step (SslServer.Fresh {0, 1, 2, 3}) (SslServer.init 3 100) s ∧
      s.phase ≠ .exited ∧ ¬ SslServer.Tracked s := by
  have hinsert : ({0, 1, 2, 3} : Finset Int) = insert 3 {0, 1, 2} := by decide
  have hbelow : ({0, 1, 2, 3} : Finset Int) = Finset.Icc 0 3 := by decide
  have hsock : (0 : Int) ≤ 3 := by decide
  obtain ⟨s, hs, hlost⟩ := SelectServer.exists_untracked hsock
  refine ⟨⟨s, ?_, hlost⟩, ?_, ?_⟩
  · rw [hbelow]
    apply (SelectServer.reach_stepInFrame_iff (fun _ _ hfresh => hfresh.2) (by decide)).mpr
    exact SelectServer.reach_freshAccept hsock (by decide) hs
  · rw [hinsert]
    exact PollServer.exists_untracked _ _
  · rw [hinsert]
    exact SslServer.exists_untracked _ _ hsock

end LinuxNet.Multiplexing
