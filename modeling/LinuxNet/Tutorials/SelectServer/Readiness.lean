/-
# LinuxNet.Tutorials.SelectServer.Readiness — does the select server read only what select reported?

The client sockets block, so a `recv` on a client that has sent nothing stops the whole server. The scan
reads the descriptors in `read_set`. Within a round that is never a stale descriptor: the scan is at each
descriptor once, and closes none that it has still ahead, so one that is closed and handed out again is
behind it (`ScanInv`).

But when `select` fails, the loop reports the error and makes the scan all the same, over the copy of
`master_set` that `select` was to thin out: it reads every client (`recv_after_failure`). And beyond
`FD_SETSIZE` the test of a descriptor reads what lies behind `read_set`. `recv_reported_of_reach` says that
these are the only ways: as long as `select` does not fail while there is a client, and the descriptors have
their bits in the sets, every `recv` is on a descriptor that the round's `select` has reported.
-/
import LinuxNet.Tutorials.SelectServer.Loop

namespace LinuxNet.Tutorials.SelectServer

open LinuxNet.Lib LinuxNet.Posix
open LinuxNet.Tutorials.PollServer (responseText)

/-- The answer of a `select`: what it reported, if it succeeded. -/
def Call.select? : Call → Option (Option (Finset Int))
  | .select reported => some reported
  | .fdIsset _ | .fdSet _ | .fdClr _ | .accept _ | .recv _ | .send _ _ | .close _ => none

/-- **A `recv` on `d` is on a reported descriptor**: the last `select` has succeeded and reported `d`, and
`d` has not been closed since. -/
def Reported (c : Call) (earlier : List Call) : Prop :=
  ∀ d, c = .recv d →
    (∃ reported, lastMark Call.select? earlier = some (some reported) ∧ d ∈ reported) ∧
      .close d ∉ currentRound Call.select? earlier

/-- **The condition on a step**: `select` fails only while no client is monitored. -/
def FailsAlone (s : State) : Event → Prop
  | .select activity _ => activity < 0 → s.master_set = {s.sock_server}
  | .accept _ | .serve _ _ _ | .tau => True

instance (s : State) : (e : Event) → Decidable (FailsAlone s e)
  | .select activity _ => inferInstanceAs (Decidable (activity < 0 → s.master_set = {s.sock_server}))
  | .accept _ | .serve _ _ _ | .tau => isTrue trivial

/-! ## The trace of a step -/

/-- Calls that are no `recv`. -/
theorem eachCall_append (calls : List Call) {trace : List Call} (hcalls : ∀ c ∈ calls, ∀ d, c ≠ .recv d)
    (htrace : EachCall Reported trace) : EachCall Reported (calls ++ trace) := by
  induction calls with
  | nil => exact htrace
  | cons c calls ih =>
      obtain ⟨hc, hcalls⟩ := List.forall_mem_cons.mp hcalls
      exact eachCall_cons.mpr ⟨fun d hd => absurd hd (hc d), ih hcalls⟩

/-- The `recv` on a descriptor that has passed `FD_ISSET`. -/
theorem eachCall_recv {trace : List Call} (htrace : EachCall Reported trace) {i : Int}
    {reported : Finset Int} (hmark : lastMark Call.select? trace = some (some reported))
    (hmem : i ∈ reported) (hopen : .close i ∉ currentRound Call.select? trace) :
    EachCall Reported (.recv i :: .fdIsset i :: trace) := by
  have htest : ∀ c ∈ [Call.fdIsset i], c.select? = none := by simp [Call.select?]
  refine eachCall_cons.mpr ⟨?_, eachCall_append [.fdIsset i] (by simp) htrace⟩
  intro d hd
  cases hd
  refine ⟨⟨reported, ?_, hmem⟩, ?_⟩
  · show lastMark Call.select? ([.fdIsset i] ++ trace) = _
    rw [lastMark_append htest, hmark]
  · show Call.close i ∉ currentRound Call.select? ([.fdIsset i] ++ trace)
    rw [currentRound_append htest]
    simpa using hopen

/-! ## The invariant of a round -/

/-- **The scan invariant.** `read_set` is what the last `select` has reported, or `select` has failed and
there is no client in it; and what the round has closed is behind the scan. -/
structure ScanInv (s : State) : Prop where
  read : ∀ i, s.phase = .scan i → lastMark Call.select? s.trace = some (some s.read_set) ∨
    lastMark Call.select? s.trace = some none ∧ s.read_set ⊆ {s.sock_server}
  behind : ∀ i, s.phase = .scan i → ∀ d, .close d ∈ currentRound Call.select? s.trace → d < i
  recvs : EachCall Reported s.trace

namespace ScanInv

variable {s t : State}

/-- The scan goes on by one descriptor, with calls none of which is a `select`, and closes at most the one
it is at. -/
theorem scan (hs : ScanInv s) {i : Int} (hphase : s.phase = .scan i) (hnext : t.phase = .scan (i + 1))
    (hread : t.read_set = s.read_set) (hsock : t.sock_server = s.sock_server) (calls : List Call)
    (hcalls : ∀ c ∈ calls, c.select? = none) (hcloses : ∀ d, .close d ∈ calls → d = i)
    (ht : t.trace = calls ++ s.trace) (hrecvs : EachCall Reported t.trace) : ScanInv t := by
  refine ⟨?_, ?_, hrecvs⟩
  · intro j _
    rw [ht, lastMark_append hcalls, hread, hsock]
    exact hs.read i hphase
  · intro j hj d hd
    rw [hnext] at hj
    cases hj
    rw [ht, currentRound_append hcalls, List.mem_append] at hd
    rcases hd with hd | hd
    · have heq := hcloses d hd
      omega
    · have hlt := hs.behind i hphase d hd
      omega

/-- A client the scan reads was reported by a `select` that succeeded. -/
theorem mem_reported (hs : ScanInv s) {i : Int} (hphase : s.phase = .scan i) (hmem : i ∈ s.read_set)
    (hsock : i ≠ s.sock_server) : lastMark Call.select? s.trace = some (some s.read_set) := by
  rcases hs.read i hphase with hmark | ⟨-, hsub⟩
  · exact hmark
  · exact absurd (Finset.mem_singleton.mp (hsub hmem)) hsock

theorem recv (hs : ScanInv s) {i : Int} (hphase : s.phase = .scan i) (hmem : i ∈ s.read_set)
    (hsock : i ≠ s.sock_server) : EachCall Reported (.recv i :: .fdIsset i :: s.trace) :=
  eachCall_recv hs.recvs (hs.mem_reported hphase hmem hsock) hmem fun hclose =>
    lt_irrefl i (hs.behind i hphase i hclose)

/-! ## The step lemma and the run lemma -/

theorem of_step {e : Event} (hs : ScanInv s) (hok : FailsAlone s e) (h : step s e = some t) :
    ScanInv t := by
  rcases Step.of_step h with @⟨activity, ready, hphase, hact⟩ | ⟨hphase, hact⟩ |
    @⟨i, sock_client, hphase, hmem, -, -⟩ | @⟨i, sock_client, hphase, hmem, -, -, -⟩ |
    @⟨i, sock_client, hphase, hmem, -, -, -⟩ | @⟨i, received, time, sent_bytes, hphase, hmem, hsock, -⟩ |
    @⟨i, received, time, sent_bytes, sends, hphase, hmem, hsock, -, hsends⟩ | @⟨i, hphase, -, -⟩ |
    ⟨hphase, -⟩
  · -- a failed `select` leaves the copy of `master_set` as it is
    have hmark : (Call.select none).select? = some none := rfl
    refine ⟨fun i _ => .inr ⟨lastMark_cons_some hmark _, (hok hact).subset⟩, ?_, ?_⟩
    · intro i _ d hd
      rw [currentRound_cons_some hmark] at hd
      cases hd
    · exact eachCall_append [.select none] (by simp) hs.recvs
  · have hmark {reported : Finset Int} : (Call.select (some reported)).select? = some (some reported) :=
      rfl
    refine ⟨fun i _ => .inl (lastMark_cons_some hmark _), ?_, ?_⟩
    · intro i _ d hd
      rw [currentRound_cons_some hmark] at hd
      cases hd
    · exact eachCall_append [.select _] (by simp) hs.recvs
  · exact hs.scan hphase rfl rfl rfl [.accept sock_client, .fdIsset i] (by simp [Call.select?])
      (by simp) rfl (eachCall_append [_, _] (by simp) hs.recvs)
  · exact hs.scan hphase rfl rfl rfl [.fdSet sock_client, .accept sock_client, .fdIsset i]
      (by simp [Call.select?]) (by simp) rfl (eachCall_append [_, _, _] (by simp) hs.recvs)
  · exact hs.scan hphase rfl rfl rfl [.accept sock_client, .fdIsset i] (by simp [Call.select?])
      (by simp) rfl (eachCall_append [_, _] (by simp) hs.recvs)
  · exact hs.scan hphase rfl rfl rfl [.send i (responseText time), .recv i, .fdIsset i]
      (by simp [Call.select?]) (by simp) rfl
      (eachCall_append [_] (by simp) (hs.recv hphase hmem hsock))
  · refine hs.scan hphase rfl rfl rfl (.fdClr i :: .close i :: (sends ++ [.recv i, .fdIsset i])) ?_ ?_
      rfl ?_
    · rw [hsends]
      split
      · simp [Call.select?]
      · simp [Call.select?]
    · rw [hsends]
      split
      · simp
      · simp
    · show EachCall Reported (.fdClr i :: .close i :: (sends ++ [.recv i, .fdIsset i]) ++ s.trace)
      rw [List.cons_append, List.cons_append, List.append_assoc]
      refine eachCall_append (.fdClr i :: .close i :: sends) ?_ (hs.recv hphase hmem hsock)
      rw [hsends]
      split
      · simp
      · simp
  · exact hs.scan hphase rfl rfl rfl [.fdIsset i] (by simp [Call.select?]) (by simp) rfl
      (eachCall_append [_] (by simp) hs.recvs)
  · refine ⟨?_, ?_, hs.recvs⟩
    · intro j hj
      cases hj
    · intro j hj
      cases hj

theorem init (sock_server : Int) : ScanInv (init sock_server) := by
  refine ⟨?_, ?_, ?_⟩
  · intro i hi
    cases hi
  · intro i hi
    cases hi
  · exact eachCall_append [.fdSet sock_server] (by simp) trivial

end ScanInv

/-! ## What the server reads -/

/-- **The server reads reported clients only**, whatever lies behind the sets, as long as `select` does not fail
while there is a client and the descriptors that get into the sets have their bit there. -/
theorem recv_reported_of_reach (frame : State → Event → Option State) {sock_server : Int}
    (hsock : sock_server < fdSetSize) {s : State}
    (h : Reach (stepInFrame frame) (fun s e => FailsAlone s e ∧ BelowSetSize s e) (init sock_server) s) :
    EachCall Reported s.trace := by
  rw [reach_stepInFrame_iff (fun _ _ hok => hok.2) hsock] at h
  exact (h.invariant (fun _ _ _ hs hok hstep => hs.of_step hok.1 hstep) (ScanInv.init sock_server)).recvs

/-- The clients 1 and 2 of the listener 0 are accepted, reported and read; 1 hangs up, and the next client gets
its descriptor. -/
theorem recv_reported_of_reach_two_clients :
    ∃ s, Reach (stepInFrame debugFrame) (fun s e => FailsAlone s e ∧ BelowSetSize s e) (init 0) s ∧
      s.clients = [1, 2] ∧ Call.recv 2 ∈ s.trace ∧ Call.close 1 ∈ s.trace ∧ EachCall Reported s.trace := by
  have hrun : (execOk (stepInFrame debugFrame) (fun s e => FailsAlone s e ∧ BelowSetSize s e) (init 0)
      [.select (-1) ∅, .accept 1, .tau, .tau, .select 1 {0}, .accept 2, .tau, .tau, .tau,
        .select 2 {1, 2}, .tau, .serve (.data []) 0 0, .serve (.data [104, 105]) 0 14, .tau,
        .select 1 {0}, .accept 1]).any
        (fun s => s.clients = [1, 2] ∧ .recv 2 ∈ s.trace ∧ .close 1 ∈ s.trace) = true := by decide
  obtain ⟨s, hreach, hs⟩ := exists_reach_of_exec hrun
  obtain ⟨hclients, hrecv, hclose⟩ := of_decide_eq_true hs
  exact ⟨s, hreach, hclients, hrecv, hclose, recv_reported_of_reach _ (by decide) hreach⟩

/-- Listener 3; client 4 connects, and then `select` fails. -/
def failedRun : List Event :=
  [.select 1 {3}, .tau, .tau, .tau, .accept 4, .tau, .tau, .select (-1) ∅, .tau, .tau, .tau,
    .accept (-1), .serve (.data [104, 105]) 0 14]

/-- **The server reads a client after a failed `select`**, which has reported nothing. -/
theorem recv_after_failure :
    ¬ ∀ (others : Finset Int) (sock_server : Int) (s : State),
      Reach (stepInFrame debugFrame) (FreshAccept (insert sock_server others)) (init sock_server) s →
        EachCall Reported s.trace := by
  intro hall
  have hrun : (execOk (stepInFrame debugFrame) (FreshAccept (insert 3 {0, 1, 2})) (init 3) failedRun).any
      (fun s => s.trace.tail.head? = some (.recv 4) ∧
        lastMark Call.select? s.trace.tail.tail = some none) = true := by decide
  obtain ⟨s, hreach, hs⟩ := exists_reach_of_exec hrun
  obtain ⟨hrecv, hmark⟩ := of_decide_eq_true hs
  have heach := hall {0, 1, 2} 3 s hreach
  obtain ⟨last, trace, htrace⟩ : ∃ last trace, s.trace = last :: .recv 4 :: trace := by
    rcases htail : s.trace with _ | ⟨last, _ | ⟨c, trace⟩⟩
    · rw [htail] at hrecv
      cases hrecv
    · rw [htail] at hrecv
      cases hrecv
    · rw [htail] at hrecv
      cases hrecv
      exact ⟨last, trace, rfl⟩
  rw [htrace] at heach hmark
  obtain ⟨⟨reported, hreported, -⟩, -⟩ := heach.2.1 4 rfl
  have hfailed : lastMark Call.select? trace = some none := hmark
  rw [hfailed] at hreported
  cases hreported

end LinuxNet.Tutorials.SelectServer
