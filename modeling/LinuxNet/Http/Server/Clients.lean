/-
# LinuxNet.Http.Server.Clients — the HTTP server with all its clients

`HTTPServer::start` with the real `handle_client`, any number of clients, and a byte stream in each direction
between the server and each of them. What a client does is up to it: it sends bytes, takes bytes, leaves.

A connection is used for one call of `handle_client`, whose activity is never `WAITING`: after it the
connection is closed, or an exception has ended the server. So whatever the clients do and in whatever order
they are accepted and handled, there is at most one such call for a client, and it is told nothing but a
beginning of the response which that call gives to what it has received from this client (`one_answer`).
-/
import LinuxNet.Http.Exchange
import LinuxNet.Http.Server.Table
import LinuxNet.Lib.Clients

namespace LinuxNet.Http.Server

open LinuxNet.Lib LinuxNet.Lib.Clients LinuxNet.Lib.FdLedger LinuxNet.Posix LinuxNet.Cpp
open LinuxNet.Http.ConnectionHandler (handleClient rawRequest_eq respond_eq_ok sent)
open LinuxNet.Http.Exchange (activity_ne_waiting)

/-! ## The loop with the real `handle_client` -/

/-- What a call of `handle_client` depends on: its environment, and what `recv` gives. -/
structure Handled where
  env : Env
  rc_recv : Received

/-- What it returns or throws. -/
def Handled.result (x : Handled) : Except Exn (ClientActivity × Bytes) := handleClient x.env x.rc_recv

/-- The answers of the environment; the other ones are those of the loop. -/
inductive HttpEvent where
  | poll (rc_poll : Int) (revents : ℕ → BitVec 16)
  | accept (sock_client : Int)
  | handled (x : Handled)
  | tau

/-- What the loop gets to see of it. -/
def HttpEvent.answer : HttpEvent → Event
  | .poll rc_poll revents => .poll rc_poll revents
  | .accept sock_client => .accept sock_client
  | .handled x => .handled (x.result.map Prod.fst)
  | .tau => .tau

/-- One step of the server. -/
def httpStep (s : State) (e : HttpEvent) : Option State := step s e.answer

/-- The descriptor under the scan. -/
def scannedFd (s : State) : Option Int :=
  match s.phase with
  | .scan i => (s.fds.get? i).map PollFd.fd
  | .polling | .stopped | .fault _ => none

/-- What a step does with the connections. A call on the listening socket is for none of them. -/
def turn (s : State) : HttpEvent → Option (Turn Int Handled)
  | .accept sock_client => if sock_client < 0 then none else some (.accepts sock_client)
  | .handled x => (scannedFd s).bind fun fd => if fd = s.sock_server then none else some (.iterates fd x)
  | .poll _ _ | .tau => none

/-- The connections of a running loop. -/
def held (s : State) : Finset Int :=
  match s.phase with
  | .polling | .scan _ => s.slots.toFinset.erase s.sock_server
  | .stopped | .fault _ => ∅

/-! ## The loop obeys the rules -/

section Obeys

variable {base : Finset Int} {s t : State}

theorem held_of_scan {i : ℕ} (hphase : s.phase = .scan i) : held s = s.slots.toFinset.erase s.sock_server := by
  simp only [held, hphase]

theorem held_of_polling (hphase : s.phase = .polling) : held s = s.slots.toFinset.erase s.sock_server := by
  simp only [held, hphase]

theorem held_subset (s : State) : held s ⊆ s.slots.toFinset.erase s.sock_server := by
  unfold held
  split
  · exact Finset.Subset.refl _
  · exact Finset.Subset.refl _
  · exact Finset.empty_subset _
  · exact Finset.empty_subset _

theorem turn_of_handled {i : ℕ} {p : PollFd} (hphase : s.phase = .scan i) (hp : s.fds.get? i = some p)
    (x : Handled) :
    turn s (.handled x) = if p.fd = s.sock_server then none else some (.iterates p.fd x) := by
  simp only [turn, scannedFd, hphase, hp, Option.map_some, Option.bind_some]

/-- `handle_client` never asks to be called again. -/
theorem result_ne_waiting (x : Handled) : x.result.map Prod.fst ≠ .ok .waiting := by
  rcases hr : x.result with exn | r
  · intro h
    cases h
  · intro h
    exact activity_ne_waiting hr (Except.ok.inj h)

/-- The connection of a slot that is handled and then given up. -/
theorem obeys_handled {i : ℕ} {p : PollFd} (hphase : s.phase = .scan i)
    (hlt : i < s.nfds) (hp : s.fds.get? i = some p) {after : Finset Int}
    (hafter : after ⊆ (held s).erase p.fd) (x : Handled) :
    Obeys (fun _ => True) (fun _ => true) (held s) (turn s (.handled x)) after := by
  rw [turn_of_handled hphase hp]
  split
  next => exact .quiet (hafter.trans (Finset.erase_subset _ _))
  next hclient =>
    refine .iterates ?_ trivial hafter
    rw [held_of_scan hphase, Finset.mem_erase, List.mem_toFinset]
    exact ⟨hclient, TableInv.mem_slots hlt hp⟩

theorem obeys_of_step {e : HttpEvent} (htable : TableInv base s) (hfresh : FreshAccept base s e.answer)
    (h : httpStep s e = some t) :
    Obeys (fun _ => True) (fun _ => true) (held s) (turn s e) (held t) := by
  have hstep := Step.of_step htable.le h
  rcases e with ⟨rc_poll, revents⟩ | sock_client | x | _
  · refine .quiet ?_
    rcases hstep with _ | ⟨hphase, _⟩
    · exact Finset.empty_subset _
    · rw [held_of_polling hphase]
      refine (held_subset _).trans ?_
      rw [State.slots, PollArray.slots_report]
      exact Finset.Subset.refl _
  · rcases hstep with _ | _ | ⟨hphase, -, -, -, -, hneg⟩ | ⟨hphase, hlt, hp, -, hsock, hpos, hroom⟩ |
      ⟨hphase, -, -, -, hsock, hpos, -⟩
    · rw [turn, if_pos hneg]
      refine .quiet ?_
      rw [held_of_scan hphase]
      exact held_subset _
    · rw [turn, if_neg (Int.not_lt.mpr hpos)]
      have hnew : sock_client ∉ s.slots := fun hin => hfresh hpos (htable.isOpen _ hin)
      refine .accepts (fun hin => ?_) fun d hd => ?_
      · exact hnew (List.mem_toFinset.mp (Finset.mem_of_mem_erase (held_subset s hin)))
      · obtain ⟨hne, hmem⟩ := Finset.mem_erase.mp (held_subset _ hd)
        rw [List.mem_toFinset, slots_store s _ sock_client hroom, List.mem_append, List.mem_singleton] at hmem
        rcases hmem with hmem | rfl
        · refine Finset.mem_insert_of_mem ?_
          rw [held_of_scan hphase, Finset.mem_erase, List.mem_toFinset]
          exact ⟨hne, hmem⟩
        · exact Finset.mem_insert_self _ _
    · rw [turn, if_neg (Int.not_lt.mpr hpos)]
      have hnew : sock_client ∉ s.slots := fun hin => hfresh hpos (htable.isOpen _ hin)
      refine .accepts (fun hin => ?_) ?_
      · exact hnew (List.mem_toFinset.mp (Finset.mem_of_mem_erase (held_subset s hin)))
      · refine Finset.Subset.trans ?_ (Finset.subset_insert _ _)
        rw [held_of_scan hphase]
        exact held_subset _
  · have hanswer : HttpEvent.answer (.handled x) = .handled (x.result.map Prod.fst) := rfl
    have hwaits := result_ne_waiting x
    rw [hanswer] at hstep
    generalize x.result.map Prod.fst = outcome at hstep hwaits
    rcases hstep with _ | _ | _ | _ | _ | _ | ⟨hphase, hlt, hp, -⟩ | _ |
      @⟨i, p, q, activity, hphase, hlt, hp, -, -, hq⟩ | _
    · exact obeys_handled hphase hlt hp (Finset.empty_subset _) x
    · exact absurd rfl hwaits
    · refine obeys_handled hphase hlt hp (fun d hd => ?_) x
      obtain ⟨hne, hmem⟩ := Finset.mem_erase.mp (held_subset _ hd)
      obtain ⟨hmem, hother⟩ := (htable.mem_slots_refill hlt hp hq d).mp (List.mem_toFinset.mp hmem)
      rw [held_of_scan hphase, Finset.mem_erase, Finset.mem_erase, List.mem_toFinset]
      exact ⟨hother, hne, hmem⟩
  · refine .quiet ?_
    rcases hstep with _ | _ | _ | _ | _ | ⟨hphase, -⟩ | _ | _ | _ | ⟨hphase, -⟩
    · rw [held_of_scan hphase]
      exact held_subset _
    · rw [held_of_scan hphase]
      exact held_subset _

end Obeys

/-- **The HTTP server**: `accept` returns descriptors that are not open. -/
def server (others : Finset Int) (garbage : PollArray maxConnection) (sock_server : Int) :
    Server State HttpEvent Int Handled (fun _ => True) (fun _ => true) where
  step := httpStep
  ok s e := FreshAccept (insert sock_server others) s e.answer
  start := init garbage sock_server
  turn := turn
  held := held
  Inv := TableInv (insert sock_server others)
  inv_start := tableInv_init others garbage sock_server
  held_start := by
    rw [held_of_polling rfl, slots_init]
    show (List.toFinset [sock_server]).erase sock_server = ∅
    simp
  inv_step hs hok hstep := hs.of_step hok hstep
  obeys hs hok hstep := obeys_of_step hs hok hstep

instance (others : Finset Int) (garbage : PollArray maxConnection) (sock_server : Int) (s : State)
    (e : HttpEvent) :
    Decidable ((server others garbage sock_server).ok s e) :=
  inferInstanceAs (Decidable (FreshAccept (insert sock_server others) s e.answer))

/-! ## A client and its streams -/

/-- The bytes under way in each direction, all that the client has sent and all that it has got, and the calls
of `handle_client` that were made for it, oldest first. -/
structure Connection where
  toServer : Bytes
  toClient : Bytes
  sent : Bytes
  got : Bytes
  calls : List Handled

/-- What a client does. -/
inductive ClientEvent where
  | sends (bytes : Bytes)
  | receives (n : ℕ)

/-- A client may send and take what it likes. -/
def clientStep (c : Connection) : ClientEvent → Option Connection
  | .sends bytes => some { c with toServer := c.toServer ++ bytes, sent := c.sent ++ bytes }
  | .receives n => some { c with toClient := c.toClient.drop n, got := c.got ++ c.toClient.take n }

/-- What a call of `handle_client` does to the streams: `recv` fails, finds the end, or takes some of the
bytes that are pending, and `send` adds what it has accepted. -/
def exchange (c : Connection) (x : Handled) : Option Connection :=
  if x.rc_recv.bytes <+: c.toServer ∧ x.rc_recv.bytes.length ≤ messageSize then
    some { c with
      toServer := c.toServer.drop x.rc_recv.bytes.length
      toClient := c.toClient ++ x.result.toOption.elim [] Prod.snd
      calls := c.calls ++ [x] }
  else none

/-- **The session** of a client. -/
def session : Session Connection ClientEvent Handled where
  start := ⟨[], [], [], [], []⟩
  client := clientStep
  iterate := exchange
  -- after a failing `poll` the clients stay as they are
  quit c := c

/-! ## One answer -/

/-- What this call of `handle_client` parses: what `recv` has written into `buffer`, up to the first NUL. When
all `MESSAGE_SIZE` bytes were written and none is NUL, what stands behind `buffer` follows. -/
def Handled.text (x : Handled) : Bytes :=
  if x.rc_recv.bytes.length < messageSize ∨ (0 : UInt8) ∈ x.rc_recv.bytes then cString x.rc_recv.bytes
  else x.rc_recv.bytes ++ cString x.env.after

/-- **`Responds x told`** — this is a beginning of what the call has to send: the response of the router, with
the file system of this call, to the request of which it has received the text. -/
def Responds (x : Handled) (told : Bytes) : Prop :=
  x.rc_recv.bytes ≠ [] ∧ ∃ (request : HTTPRequest) (response : HTTPResponse),
    Parser.parse x.env.lim x.text = .ok request ∧
      Router.route x.env.lim x.env.fs x.env.uninitialised request = .ok response ∧
        told <+: response.toString (x.env.order response.mHeaders)

/-- **What a client is told**: nothing before `handle_client` was called for it, and then nothing or a beginning
of what the one call has to send. What that has received is a beginning of what the client has sent. -/
def Told (c : Connection) : Prop :=
  c.calls = [] ∧ c.got ++ c.toClient = [] ∨
    ∃ x, c.calls = [x] ∧ x.rc_recv.bytes <+: c.sent ∧ x.rc_recv.bytes.length ≤ messageSize ∧
      (c.got ++ c.toClient = [] ∨ Responds x (c.got ++ c.toClient))

/-- As long as the server has not given it up, nothing has been read from it or written to it. -/
structure OneAnswer (s : Connection × Bool) : Prop where
  fresh : s.2 = true → s.1.calls = [] ∧ s.1.got ++ s.1.toClient = [] ∧ s.1.toServer = s.1.sent
  told : Told s.1

theorem Told.sends {c : Connection} (hc : Told c) (bytes : Bytes) :
    Told { c with toServer := c.toServer ++ bytes, sent := c.sent ++ bytes } := by
  rcases hc with hnone | ⟨x, hcalls, hsent, hrest⟩
  · exact .inl hnone
  · exact .inr ⟨x, hcalls, hsent.trans (List.prefix_append _ _), hrest⟩

/-- What `send` has accepted is a beginning of the response. -/
theorem responds_of_result {x : Handled} (hlen : x.rc_recv.bytes.length ≤ messageSize)
    {activity : ClientActivity} {accepted : Bytes} (hresult : x.result = .ok (activity, accepted)) :
    accepted = [] ∨ Responds x accepted := by
  unfold Handled.result handleClient at hresult
  split at hresult
  next =>
    cases hresult
    exact .inl rfl
  next hmore =>
    obtain ⟨request, response, hparse, hroute, heq⟩ := respond_eq_ok.mp hresult
    rw [rawRequest_eq hlen] at hparse
    have hsnd : accepted = (sent x.env response).2 := congrArg Prod.snd heq
    have hne : x.rc_recv.bytes ≠ [] :=
      List.ne_nil_of_length_pos (length_pos_of_received_pos (Int.not_le.mp hmore))
    refine .inr ⟨hne, request, response, hparse, hroute, ?_⟩
    rw [hsnd]
    simp only [sent]
    split
    · exact List.nil_prefix
    · exact List.take_prefix _ _

/-- The first call for a client. -/
theorem told_of_handled {c : Connection} {x : Handled} (hcalls : c.calls = [])
    (hfresh : c.got ++ c.toClient = []) (hbytes : x.rc_recv.bytes <+: c.sent)
    (hlen : x.rc_recv.bytes.length ≤ messageSize) :
    Told { c with
      toServer := c.toServer.drop x.rc_recv.bytes.length
      toClient := c.toClient ++ x.result.toOption.elim [] Prod.snd
      calls := c.calls ++ [x] } := by
  refine .inr ⟨x, congrArg (· ++ [x]) hcalls, hbytes, hlen, ?_⟩
  have htold : c.got ++ (c.toClient ++ x.result.toOption.elim [] Prod.snd) =
      x.result.toOption.elim [] Prod.snd := by
    rw [← List.append_assoc, hfresh, List.nil_append]
  simp only [htold]
  rcases hresult : x.result with exn | ⟨activity, accepted⟩
  · exact .inl rfl
  · exact responds_of_result hlen hresult

/-- **The step lemma.** -/
theorem OneAnswer.of_step {P : Connection → Move ClientEvent Handled → Prop} {may : Handled → Prop}
    (s : Connection × Bool) (m : Move ClientEvent Handled) (t : Connection × Bool) (hs : OneAnswer s)
    (_ : Session.Guard may P s m) (h : session.step (fun _ => true) s m = some t) : OneAnswer t := by
  rcases m with (bytes | n) | x | _
  · cases h
    refine ⟨fun hgiven => ?_, hs.told.sends bytes⟩
    obtain ⟨hcalls, hnone, hunread⟩ := hs.fresh hgiven
    exact ⟨hcalls, hnone, congrArg (· ++ bytes) hunread⟩
  · cases h
    have hsame : s.1.got ++ s.1.toClient.take n ++ s.1.toClient.drop n = s.1.got ++ s.1.toClient := by
      rw [List.append_assoc, List.take_append_drop]
    refine ⟨fun hgiven => ?_, ?_⟩
    · obtain ⟨hcalls, hnone, hunread⟩ := hs.fresh hgiven
      exact ⟨hcalls, hsame.trans hnone, hunread⟩
    · show Told ⟨s.1.toServer, s.1.toClient.drop n, s.1.sent, s.1.got ++ s.1.toClient.take n, s.1.calls⟩
      unfold Told
      rw [hsame]
      exact hs.told
  · simp only [Session.step] at h
    split at h
    next hgiven =>
      obtain ⟨c, hc, rfl⟩ := Option.map_eq_some_iff.mp h
      simp only [session, exchange] at hc
      split at hc
      next hstreams =>
        cases hc
        obtain ⟨hcalls, hnone, hunread⟩ := hs.fresh hgiven
        refine ⟨fun hnotyet => ?_, told_of_handled hcalls hnone (hunread ▸ hstreams.1) hstreams.2⟩
        cases hnotyet
      next => cases hc
    next => cases h
  · simp only [Session.step] at h
    split at h
    next =>
      cases h
      refine ⟨fun hgiven => ?_, hs.told⟩
      cases hgiven
    next => cases h

/-- **One answer**: with any number of clients, whatever they send and in whatever order they are accepted and
handled, `handle_client` is called at most once for each of them, for at most `MESSAGE_SIZE` bytes of what it
has sent itself, and it is told nothing but a beginning of the response of that call. -/
theorem one_answer {ι : Type} [DecidableEq ι] (others : Finset Int) (garbage : PollArray maxConnection)
    (sock_server : Int) {s : Clients.State State Int ι Connection}
    (h : Reach (Clients.step (server others garbage sock_server) session)
      (Guard (server others garbage sock_server) fun _ _ _ => True)
      (Clients.init (server others garbage sock_server) session) s) (i : ι) : Told (s.session i) := by
  obtain ⟨given, halone⟩ := alone_of_reach h i
  exact (halone.invariant (I := OneAnswer) OneAnswer.of_step ⟨fun _ => ⟨rfl, rfl, rfl⟩, .inl ⟨rfl, rfl⟩⟩).told

/-- A request for `/`. -/
def get : Bytes := ofText "GET / HTTP/1.1\r\n\r\n"

/-- Client 4 is accepted and asks for `/`, and so does another one that is not accepted yet; the scan comes to
the slot of the first, which happens not to hold `POLLIN`. -/
def asks : List (Clients.Event HttpEvent ClientEvent Bool) :=
  [.client false (.sends get), .server (.poll 1 fun i => if i = 0 then pollIn else 0) true,
    .server (.accept 4) true, .client true (.sends get)]

theorem one_answer_get :
    ∃ s, Reach (Clients.step (server ∅ (.filled ⟨0, 0, 0⟩) 3) session)
        (Guard (server ∅ (.filled ⟨0, 0, 0⟩) 3) fun (_ : Bool) _ _ => True)
        (Clients.init (server ∅ (.filled ⟨0, 0, 0⟩) 3) session) s ∧
      (s.session true).sent = get ∧ (s.session true).toServer = [] ∧ (s.session false).toServer = get ∧
        Told (s.session true) ∧ Told (s.session false) := by
  let L := server ∅ (.filled ⟨0, 0, 0⟩) 3
  have hrun : (execOk (Clients.step L session) (Guard L fun (_ : Bool) _ _ => True) (Clients.init L session)
      asks).any (fun s => s.server.phase = .scan 1 ∧ s.server.nfds = 2 ∧ s.server.sock_server = 3 ∧
        s.server.fds.get? 1 = some ⟨4, pollIn, 0⟩ ∧ s.owner 4 = some true ∧
          (s.session true).toServer = get ∧ (s.session true).sent = get ∧ (s.session false).toServer = get) =
            true := by
    decide
  obtain ⟨s, hreach, hs⟩ := exists_reach_of_exec hrun
  obtain ⟨hphase, hnfds, hsock, hslot, howner, hpending, hsent, hother⟩ := of_decide_eq_true hs
  obtain ⟨order⟩ : Nonempty (∀ headers : Headers, IterationOrder headers) := IterationOrder.nonempty_forall
  let x : Handled := ⟨ConnectionHandler.sampleEnv order, .data get⟩
  have hturn : L.turn s.server (.handled x) = some (.iterates 4 x) := by
    show turn s.server (.handled x) = _
    rw [turn_of_handled hphase hslot, hsock]
    rfl
  obtain ⟨t, hstep⟩ : ∃ t, L.step s.server (.handled x) = some t := by
    refine ⟨clientHandled (s.server.log (.handleClient 4)) 1 (x.result.map Prod.fst), ?_⟩
    show step s.server (.handled (x.result.map Prod.fst)) = _
    have hlt : 1 < s.server.nfds := by
      rw [hnfds]
      decide
    have hready : (PollFd.mk 4 pollIn 0).readable = false := by decide
    simp only [step, hphase, if_pos hlt, hslot, hready]
    rfl
  have hlen : get.length ≤ messageSize := by decide
  have hstreams : x.rc_recv.bytes <+: (s.session true).toServer ∧ x.rc_recv.bytes.length ≤ messageSize := by
    rw [hpending]
    exact ⟨List.prefix_refl _, hlen⟩
  obtain ⟨c, hexchange, hread, hkept⟩ : ∃ c, session.iterate (s.session true) x = some c ∧
      c.toServer = (s.session true).toServer.drop get.length ∧ c.sent = (s.session true).sent :=
    ⟨_, if_pos hstreams, rfl, rfl⟩
  have hnext : Clients.step L session s (.server (.handled x) true) =
      some { s with server := t, session := Function.update s.session true c } := by
    simp only [Clients.step, hstep, Option.bind_some, hturn, turnDone, howner, hexchange, Option.map_some]
  have hguard : Guard L (fun (_ : Bool) _ (_ : Move ClientEvent Handled) => True) s
      (.server (.handled x) true) := by
    refine ⟨trivial, ?_⟩
    rw [hturn]
    exact fun _ _ => trivial
  have hafter := hreach.trans (.single hguard hnext)
  refine ⟨_, hafter, ?_, ?_, ?_, one_answer ∅ _ 3 hafter true, one_answer ∅ _ 3 hafter false⟩
  · show (Function.update s.session true c true).sent = get
    rw [Function.update_self, hkept, hsent]
  · show (Function.update s.session true c true).toServer = []
    rw [Function.update_self, hread, hpending]
    exact List.drop_length
  · show (Function.update s.session true c false).toServer = get
    rw [Function.update_of_ne Bool.false_ne_true, hother]

end LinuxNet.Http.Server
