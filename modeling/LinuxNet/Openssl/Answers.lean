/-
# LinuxNet.Openssl.Answers — the TLS server with all its clients

Any number of clients of `ssl_client_server.c` and its server, in any order of what they do, however the
records arrive, and whichever calls fail. The server finds the TLS object of a client by the place of its
descriptor in another array, and both change places when a connection is closed; no client ever gets to see an
answer to another one (`shows_in_order`).

What can go wrong with a connection is that the server closes it for a record that is not complete, or because
`poll` fails (`why_closed`), or that a client waits for an answer that `SSL_write` has failed to send, or from
a server that has closed its connection (`awaits`).
-/
import LinuxNet.Openssl.SslServer.Served

namespace LinuxNet.Openssl

open LinuxNet.Lib LinuxNet.Lib.Clients LinuxNet.Posix
open LinuxNet.Openssl.SslClient
open LinuxNet.Openssl.SslServer (Ssl TlsEvent held newCalls server)
open LinuxNet.Tutorials.PollServer (responseText)

variable {ι : Type} [DecidableEq ι]

/-- The states of the server and its clients. -/
abbrev System (ι : Type) := Clients.State SslServer.State Int ι SslClient.State

/-- What is assumed of a session. -/
abbrev Assumption := SslClient.State → Move SslClient.Event Exchange → Prop

/-- **`Reaches others sock_server ssl G s`** — the server and its clients can get to `s` while everything that
happens in the session of client `i` meets `G i`. -/
def Reaches (others : Finset Int) (sock_server : Int) (ssl : Ssl) (G : ι → Assumption) (s : System ι) : Prop :=
  Reach (Clients.step (server others sock_server ssl) session) (Guard (server others sock_server ssl) G)
    (Clients.init (server others sock_server ssl) session) s

/-- Whatever happens. -/
def Anything : Assumption := fun _ _ => True

/-- Every answer is sent. -/
def AnswersSent : Assumption
  | _, .client _ | _, .quit => True
  | _, .iterate x => 0 < x.sent_bytes

instance (c : SslClient.State) (m : Move SslClient.Event Exchange) : Decidable (Anything c m) := isTrue trivial

instance (c : SslClient.State) : (m : Move SslClient.Event Exchange) → Decidable (AnswersSent c m)
  | .client _ | .quit => isTrue trivial
  | .iterate x => inferInstanceAs (Decidable (0 < x.sent_bytes))

/-! ## One session -/

/-- What a session keeps, for itself. -/
theorem inTurn_of_step {lossy : Prop} {P : Assumption} (hP : ∀ c x, P c (.iterate x) → x.sent_bytes ≤ 0 → lossy)
    {may : Exchange → Prop} (s : SslClient.State × Bool) (m : Move SslClient.Event Exchange)
    (t : SslClient.State × Bool) (hs : InTurn lossy s.1) (hok : Session.Guard may P s m)
    (h : session.step Exchange.ends s m = some t) : InTurn lossy t.1 := by
  rcases m with e | x | _
  · obtain ⟨c, hc, rfl⟩ := Option.map_eq_some_iff.mp h
    exact hs.of_step hc
  · simp only [Session.step] at h
    split at h
    next =>
      obtain ⟨c, hc, rfl⟩ := Option.map_eq_some_iff.mp h
      exact hs.of_exchanged (hP _ x hok.1) (.of_exchange hc)
    next => cases h
  · simp only [Session.step] at h
    split at h
    next =>
      cases h
      exact hs.closes
    next => cases h

/-- The server closes the socket when it gives the client up. -/
theorem open_of_step {P : Assumption} {may : Exchange → Prop} (s : SslClient.State × Bool)
    (m : Move SslClient.Event Exchange) (t : SslClient.State × Bool) (hs : s.2 = true → s.1.closed = false)
    (_ : Session.Guard may P s m) (h : session.step Exchange.ends s m = some t) :
    t.2 = true → t.1.closed = false := by
  rcases m with e | x | _
  · obtain ⟨c, hc, rfl⟩ := Option.map_eq_some_iff.mp h
    exact fun hgiven => (Step.of_step hc).closed.trans (hs hgiven)
  · simp only [Session.step] at h
    split at h
    next hgiven =>
      obtain ⟨c, hc, rfl⟩ := Option.map_eq_some_iff.mp h
      intro hstays
      rw [(Exchanged.of_exchange hc).closed, hs hgiven, Bool.false_or]
      simpa using hstays
    next => cases h
  · simp only [Session.step] at h
    split at h
    next =>
      cases h
      intro hno
      cases hno
    next => cases h

/-! ## Two clients -/

/-- `poll` reports these slots. -/
def polls (slots : List ℕ) : TlsEvent := .poll 1 fun j => if j ∈ slots then pollIn else 0

/-- Clients 4 and 5 are accepted, and each of them sends a request. -/
def connects : List (Clients.Event TlsEvent SslClient.Event Bool) :=
  [.server (polls [0]) true, .server (.accept 4 101 1) true, .server .tau true, .server .tau true,
    .server (polls [0]) false, .server (.accept 5 102 1) false, .server .tau true, .server .tau true,
    .server .tau true,
    .client true (.types (ofText "time\n")), .client true .writes,
    .client false (.types (ofText "date\n")), .client false .writes,
    .server (polls [1, 2]) true, .server .tau true]

/-- The first of them is answered, the record of the other one is not complete. -/
def answersFirst : List (Clients.Event TlsEvent SslClient.Event Bool) :=
  [.server (.serve (.record (ofText "time") 4 4) 0 14) true, .client true .reads]

/-- The record of the second client is read before it is complete. -/
def readsTooEarly : Clients.Event TlsEvent SslClient.Event Bool :=
  .server (.serve (.record (ofText "date") 4 2) 0 0) true

/-- A run of two clients, for a test of the state it ends in. -/
theorem exists_reaches {G : Bool → Assumption} [∀ i c m, Decidable (G i c m)]
    {l : List (Clients.Event TlsEvent SslClient.Event Bool)} {p : System Bool → Bool}
    (h : (execOk (Clients.step (server ∅ 3 100) session) (Guard (server ∅ 3 100) G)
      (Clients.init (server ∅ 3 100) session) l).any p = true) :
    ∃ s, Reaches ∅ 3 100 G s ∧ p s = true :=
  exists_reach_of_exec h

/-! ## What holds with any number of clients -/

section Reaches

variable {others : Finset Int} {sock_server : Int} {ssl : Ssl} {G : ι → Assumption} {s t : System ι}

/-- A client does not close the socket of the server. -/
theorem closed_update {j : ι} {e : SslClient.Event} {c : SslClient.State}
    (hc : session.client (s.session j) e = some c) (i : ι) :
    (Function.update s.session j c i).closed = (s.session i).closed := by
  by_cases hij : i = j
  · subst hij
    rw [Function.update_self]
    exact (Step.of_step hc).closed
  · rw [Function.update_of_ne hij]

/-- **What a step of the system does to a client the server has**: it is one of the client, or one of the server
that does not end this connection, or an iteration for it, or the end of the server. -/
theorem session_cases (h : Reaches others sock_server ssl G s) {e : Clients.Event TlsEvent SslClient.Event ι}
    (hok : Guard (server others sock_server ssl) G s e)
    (hstep : Clients.step (server others sock_server ssl) session s e = some t) {d : Int} {i : ι}
    (hheld : d ∈ held s.server) (howner : s.owner d = some i) :
    ((t.session i).closed = (s.session i).closed ∧ .close d ∉ newCalls s.server t.server) ∨
      ∃ answer j, e = .server answer j ∧ (.close d ∈ newCalls s.server t.server ↔
          SslServer.Ends d (SslServer.turn s.server answer)) ∧
        ((∃ x, SslServer.turn s.server answer = some (.iterates d x) ∧
            Exchanged (s.session i) x (t.session i)) ∨
          SslServer.turn s.server answer = some .quits ∧ (t.session i).closed = true) := by
  have hs := Clients.Inv.of_reach h
  rcases e with ⟨j, e⟩ | ⟨e, j⟩
  · obtain ⟨c, hc, rfl⟩ := Option.map_eq_some_iff.mp hstep
    refine .inl ⟨closed_update hc i, ?_⟩
    rw [SslServer.newCalls_eq [] rfl]
    exact List.not_mem_nil
  · obtain ⟨loop, hloop, hdone⟩ := Option.bind_eq_some_iff.mp hstep
    obtain ⟨hrun, htable, hpos⟩ := hs.loop.of_step hloop
    have hclose := (SslServer.calls_of_step htable hrun hpos hok.1 hloop).close_mem_iff hheld
    have hobeys := (server others sock_server ssl).obeys hs.loop hok.1 hloop
    replace hdone := Done.of_turnDone hdone
    change Done _ _ _ _ _ (SslServer.turn s.server e) _ at hdone
    change Obeys _ _ _ (SslServer.turn s.server e) _ at hobeys
    generalize hturn : SslServer.turn s.server e = turn at hdone hclose hobeys
    cases hdone with
    | quiet | accepts => exact .inl ⟨rfl, hclose.not.mpr id⟩
    | @iterates d' x j' c howner' hc =>
        obtain _ | _ | ⟨hin, -, -⟩ | _ := hobeys
        by_cases hij : i = j'
        · subst hij
          -- the client has one connection
          obtain rfl := hs.distinct d hheld d' hin (howner.trans howner'.symm)
          refine .inr ⟨e, j, rfl, hturn ▸ hclose, .inl ⟨x, hturn, ?_⟩⟩
          show Exchanged _ _ (Function.update s.session i c i)
          rw [Function.update_self]
          exact .of_exchange hc
        · refine .inl ⟨congrArg SslClient.State.closed (Function.update_of_ne hij _ _), hclose.not.mpr ?_⟩
          rintro ⟨rfl, -⟩
          exact hij (Option.some.inj (howner.symm.trans howner'))
    | quits =>
        refine .inr ⟨e, j, rfl, hturn ▸ hclose, .inr ⟨hturn, ?_⟩⟩
        have hhas : HasConnection (server others sock_server ssl) s i := ⟨d, hheld, howner⟩
        show (if _ then _ else _ : SslClient.State).closed = true
        rw [if_pos hhas]
        rfl

/-- **A session is closed when the server calls `close` on its descriptor.** -/
theorem closed_iff_close (h : Reaches others sock_server ssl G s)
    {e : Clients.Event TlsEvent SslClient.Event ι} (hok : Guard (server others sock_server ssl) G s e)
    (hstep : Clients.step (server others sock_server ssl) session s e = some t) {d : Int} {i : ι}
    (hheld : d ∈ held s.server) (howner : s.owner d = some i) :
    (t.session i).closed = true ↔ .close d ∈ newCalls s.server t.server := by
  have hopen : (s.session i).closed = false := by
    obtain ⟨i', howner', halone⟩ := (Clients.Inv.of_reach h).owned d hheld
    obtain rfl := Option.some.inj (howner.symm.trans howner')
    exact halone.invariant (I := fun c => c.2 = true → c.1.closed = false) open_of_step (fun _ => rfl) rfl
  rcases session_cases h hok hstep hheld howner with ⟨hsame, hno⟩ |
    ⟨answer, j, -, hclose, ⟨x, hturn, hexchange⟩ | ⟨hturn, hclosed⟩⟩
  · rw [hsame, hopen]
    exact iff_of_false Bool.false_ne_true hno
  · rw [hclose, hturn, hexchange.closed, hopen, Bool.false_or]
    exact (and_iff_right rfl).symm
  · rw [hclose, hturn]
    exact iff_of_true hclosed trivial

/-- Every client is in turn with its answers. -/
theorem inTurn_of_reaches (h : Reaches others sock_server ssl (fun _ => Anything) s) (i : ι) :
    InTurn True (s.session i) := by
  obtain ⟨given, halone⟩ := alone_of_reach h i
  exact halone.invariant (I := fun c => InTurn True c.1) (inTurn_of_step fun _ _ _ _ => trivial) inTurn_init

/-- **No answer gets to another client or to another request**: whatever the clients of the TLS server type,
however their records arrive, whichever connections come and go, and whatever fails, the `k`-th text a client
shows is the answer to the `k`-th request it has sent. -/
theorem shows_in_order (h : Reaches others sock_server ssl (fun _ => Anything) s) (i : ι) :
    InOrder (s.session i) :=
  (inTurn_of_reaches h i).inOrder

theorem shows_in_order_two : ∃ s, Reaches ∅ 3 100 (fun _ : Bool => Anything) s ∧
    (s.session true).displayed = [ofText "Server time: 0"] ∧ (s.session false).closed = true ∧
      InOrder (s.session true) ∧ InOrder (s.session false) := by
  obtain ⟨s, hreach, hs⟩ := exists_reaches (G := fun _ => Anything)
    (l := connects ++ answersFirst ++ [readsTooEarly])
    (p := fun s => (s.session true).displayed = [ofText "Server time: 0"] ∧ (s.session false).closed = true)
    (by decide +kernel)
  obtain ⟨hdisplayed, hclosed⟩ := of_decide_eq_true hs
  exact ⟨s, hreach, hdisplayed, hclosed, shows_in_order hreach true, shows_in_order hreach false⟩

/-- **Why a connection is closed**: `poll` has failed, or the client has left, TLS has failed, or the server
called `SSL_read` before a whole record with something in it was there. -/
def ClosedFor (c : SslClient.State) : TlsEvent → Prop
  | .poll activity _ => activity ≤ 0
  | .serve incoming _ _ =>
    incoming = .closed ∧ c.client = .left ∨ incoming = .fatal ∨
      ∃ payload size arrived, incoming = .record payload size arrived ∧ (payload = [] ∨ arrived < size)
  | .accept _ _ _ | .tau => False

/-- **Why the server closes a socket**: it is its own one, after `poll` has failed; or the handshake of a client
that was just accepted has failed; or it is that of a client the server has, for one of the reasons of
`ClosedFor`. It never closes one for a request to quit, because the clients do not send them. -/
theorem why_closed (h : Reaches others sock_server ssl (fun _ => Anything) s)
    {e : Clients.Event TlsEvent SslClient.Event ι}
    (hok : Guard (server others sock_server ssl) (fun _ => Anything) s e)
    (hstep : Clients.step (server others sock_server ssl) session s e = some t) {d : Int}
    (hclose : .close d ∈ newCalls s.server t.server) :
    (∃ activity revents j, e = .server (.poll activity revents) j ∧ activity ≤ 0 ∧ d = s.server.sock_server) ∨
      (∃ object rc j, e = .server (.accept d object rc) j ∧ rc ≤ 0) ∨
        ∃ i answer j, s.owner d = some i ∧ (t.session i).closed = true ∧ e = .server answer j ∧
          ClosedFor (s.session i) answer := by
  have hs := Clients.Inv.of_reach h
  by_cases hheld : d ∈ held s.server
  · obtain ⟨i, howner, -⟩ := hs.owned d hheld
    have hclosed := (closed_iff_close h hok hstep hheld howner).mpr hclose
    rcases session_cases h hok hstep hheld howner with ⟨-, hno⟩ |
      ⟨answer, j, rfl, hends, ⟨x, hturn, hexchange⟩ | ⟨hturn, -⟩⟩
    · exact absurd hclose hno
    · rw [hturn] at hends
      obtain ⟨incoming, time, sent_bytes, rfl, rfl⟩ := SslServer.eq_serve_of_turn hturn
      exact .inr (.inr ⟨i, _, j, howner, hclosed, rfl,
        (inTurn_of_reaches h i).reason hexchange (hends.mp hclose).2⟩)
    · obtain ⟨activity, revents, rfl, hact⟩ := SslServer.eq_poll_of_turn hturn
      exact .inr (.inr ⟨i, _, j, howner, hclosed, rfl, hact⟩)
  · rcases e with ⟨j, e⟩ | ⟨e, j⟩
    · obtain ⟨c, hc, rfl⟩ := Option.map_eq_some_iff.mp hstep
      rw [SslServer.newCalls_eq [] rfl] at hclose
      cases hclose
    · obtain ⟨loop, hloop, hdone⟩ := Option.bind_eq_some_iff.mp hstep
      obtain rfl := (Done.of_turnDone hdone).server_eq
      obtain ⟨hrun, htable, hpos⟩ := hs.loop.of_step hloop
      have hcalls := SslServer.calls_of_step htable hrun hpos hok.1 hloop
      rcases (hcalls.close_cases hclose).resolve_left hheld with ⟨hturn, hsock⟩ |
        ⟨object, rc, rfl, hrc⟩
      · obtain ⟨activity, revents, rfl, hact⟩ := SslServer.eq_poll_of_turn hturn
        exact .inl ⟨activity, revents, j, rfl, hact, hsock⟩
      · exact .inr (.inl ⟨object, rc, j, rfl, hrc⟩)

theorem why_closed_too_early : ∃ s t, Reaches ∅ 3 100 (fun _ : Bool => Anything) s ∧
    Clients.step (server ∅ 3 100) session s readsTooEarly = some t ∧ .close 5 ∈ newCalls s.server t.server ∧
      ((∃ activity revents j, readsTooEarly = .server (.poll activity revents) j ∧ activity ≤ 0 ∧
          5 = s.server.sock_server) ∨
        (∃ object rc j, readsTooEarly = .server (.accept 5 object rc) j ∧ rc ≤ 0) ∨
          ∃ i answer j, s.owner 5 = some i ∧ (t.session i).closed = true ∧ readsTooEarly = .server answer j ∧
            ClosedFor (s.session i) answer) := by
  obtain ⟨s, hreach, hs⟩ := exists_reaches (G := fun _ => Anything) (l := connects ++ answersFirst)
    (p := fun s => Guard (server ∅ 3 100) (fun _ => Anything) s readsTooEarly ∧
      ((Clients.step (server ∅ 3 100) session s readsTooEarly).any fun t =>
        decide (.close 5 ∈ newCalls s.server t.server)) = true)
    (by decide +kernel)
  obtain ⟨hok, hnext⟩ := of_decide_eq_true hs
  obtain ⟨t, hstep, hclose⟩ := (Option.any_eq_true _ _).mp hnext
  have hclose := of_decide_eq_true hclose
  exact ⟨s, t, hreach, hstep, hclose, why_closed hreach hok hstep hclose⟩

/-- **A client that was accepted has its connection until it is closed.** -/
def Kept (others : Finset Int) (sock_server : Int) (ssl : Ssl) (s : System ι) : Prop :=
  ∀ i ∈ s.accepted, HasConnection (server others sock_server ssl) s i ∨ (s.session i).closed = true

/-- **The step lemma.** -/
theorem Kept.of_step (hkept : Kept others sock_server ssl s)
    (hs : Clients.Inv (server others sock_server ssl) session G s)
    {e : Clients.Event TlsEvent SslClient.Event ι} (hok : Guard (server others sock_server ssl) G s e)
    (hstep : Clients.step (server others sock_server ssl) session s e = some t) :
    Kept others sock_server ssl t := by
  intro i hi
  rcases e with ⟨j, e⟩ | ⟨e, j⟩
  · obtain ⟨c, hc, rfl⟩ := Option.map_eq_some_iff.mp hstep
    exact (hkept i hi).imp_right (closed_update hc i).trans
  · obtain ⟨loop, hloop, hdone⟩ := Option.bind_eq_some_iff.mp hstep
    obtain ⟨hrun, htable, -⟩ := hs.loop.of_step hloop
    have hheld := SslServer.held_of_step htable hrun hok.1 hloop
    replace hdone := Done.of_turnDone hdone
    change Done _ _ _ _ _ (SslServer.turn s.server e) _ at hdone
    generalize hturn : SslServer.turn s.server e = turn at hdone hheld
    cases hdone with
    | quiet => exact (hkept i hi).imp_left fun ⟨d, hd, howner⟩ => ⟨d, hheld.symm.subset hd, howner⟩
    | @accepts d' hnew =>
        rcases List.mem_cons.mp hi with rfl | hi
        · exact .inl ⟨d', hheld.symm.subset (Finset.mem_insert_self _ _), Function.update_self ..⟩
        · refine (hkept i hi).imp_left fun ⟨d, hd, howner⟩ =>
            ⟨d, hheld.symm.subset (Finset.mem_insert_of_mem hd), ?_⟩
          have hne : d ≠ d' :=
            ne_of_mem_of_not_mem hd (SslServer.notMem_held_of_accepts htable hrun hok.1 hturn)
          exact (Function.update_of_ne hne _ _).trans howner
    | @iterates d' x j' c howner' hc =>
        have hexchange := (Exchanged.of_exchange hc).closed
        rcases hkept i hi with ⟨d, hd, howner⟩ | hclosed
        · by_cases hends : x.ends = true ∧ d = d'
          · obtain ⟨hends, rfl⟩ := hends
            obtain rfl := Option.some.inj (howner.symm.trans howner')
            refine .inr ?_
            show (Function.update s.session i c i).closed = true
            rw [Function.update_self, hexchange, hends, Bool.or_true]
          · refine .inl ⟨d, ?_, howner⟩
            show d ∈ held loop
            rw [hheld, SslServer.heldAfter]
            split
            next hx => exact Finset.mem_erase.mpr ⟨fun heq => hends ⟨hx, heq⟩, hd⟩
            next => exact hd
        · refine .inr ?_
          show (Function.update s.session j' c i).closed = true
          by_cases hij : i = j'
          · subst hij
            rw [Function.update_self, hexchange, hclosed, Bool.true_or]
          · rw [Function.update_of_ne hij, hclosed]
    | quits =>
        refine .inr ?_
        show (if _ then _ else _ : SslClient.State).closed = true
        split
        next => rfl
        next hnot => exact (hkept i hi).resolve_left hnot

theorem kept_of_reaches (h : Reaches others sock_server ssl G s) : Kept others sock_server ssl s := by
  have hall : Clients.Inv (server others sock_server ssl) session G s ∧ Kept others sock_server ssl s := by
    refine h.invariant (I := fun s => Clients.Inv (server others sock_server ssl) session G s ∧
      Kept others sock_server ssl s) ?_ ⟨Clients.inv_init _ _ _, fun i hi => ?_⟩
    · rintro s e t ⟨hs, hkept⟩ hok hstep
      exact ⟨hs.of_step hok hstep, hkept.of_step hs hok hstep⟩
    · cases hi
  exact hall.2

/-- **A client that waits has something to wait for**, as long as every answer to it is sent and the server has
not closed its connection: the answer is on the way back, or the request is still on the way to the server, and
the server has the connection or has not accepted it yet. -/
theorem awaits {i : ι} (h : Reaches others sock_server ssl (Only i AnswersSent) s) {request : Bytes}
    (hclient : (s.session i).client = .waiting request) :
    (s.session i).closed = true ∨ (∃ time, (s.session i).toClient = [responseText time]) ∨
      (s.session i).toServer = [request] ∧
        (i ∉ s.accepted ∨ HasConnection (server others sock_server ssl) s i) := by
  obtain ⟨given, hturn⟩ := session_invariant (J := fun c => InTurn False c.1)
    (inTurn_of_step fun c x hsent hno => absurd hsent (Int.not_lt.mpr hno)) inTurn_init h
  rcases hturn.exists_pending hclient with hrequest | hanswer
  · by_cases hi : i ∈ s.accepted
    · exact (kept_of_reaches h i hi).elim (fun hhas => .inr (.inr ⟨hrequest, .inr hhas⟩)) .inl
    · exact .inr (.inr ⟨hrequest, .inl hi⟩)
  · exact .inr (.inl hanswer)

theorem awaits_two : ∃ s, Reaches ∅ 3 100 (Only false AnswersSent) s ∧
    (s.session false).client = .waiting (ofText "date") ∧
      ((s.session false).closed = true ∨ (∃ time, (s.session false).toClient = [responseText time]) ∨
        (s.session false).toServer = [ofText "date"] ∧
          (false ∉ s.accepted ∨ HasConnection (server ∅ 3 100) s false)) := by
  obtain ⟨s, hreach, hs⟩ := exists_reaches (G := Only false AnswersSent) (l := connects ++ answersFirst)
    (p := fun s => (s.session false).client = .waiting (ofText "date")) (by decide +kernel)
  have hclient := of_decide_eq_true hs
  exact ⟨s, hreach, hclient, awaits hreach hclient⟩

end Reaches

end LinuxNet.Openssl
