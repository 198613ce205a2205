/-
# LinuxNet.Openssl.SslServer.Records — when a client is dropped for the way its records arrive

A client's socket is made non-blocking after the handshake, and `SSL_read` gives nothing back before a
whole TLS record has arrived: it returns -1 then, the value it also returns after a fatal error. `poll`
reports the socket as soon as a part of the record is there. The loop takes every value that is not positive
for the end of the connection.

The events of the loop are made finer here: instead of what `SSL_read` gave, they say what was on the
connection (`Incoming`). A request is what is in one record. `SSL_read` takes `MESSAGE_SIZE` bytes of it at
most, and what it leaves is taken for another request later.

A step of the loop shows the calls it makes, and it is `Healthy` if these close only clients that have gone,
failed or asked to leave, and answer every other request, the whole of it. `healthy_run_iff` says that all
steps of a run are healthy exactly when no client is read before a record with a request in it has arrived as
a whole, no request is longer than `MESSAGE_SIZE`, `SSL_write` takes every answer, and `poll` does not fail
while a client is connected.
-/
import LinuxNet.Openssl.SslServer.Shutdown

namespace LinuxNet.Openssl.SslServer

open LinuxNet.Lib LinuxNet.Lib.FdLedger LinuxNet.Posix
open LinuxNet.Tutorials.PollServer (responseText requestIs)

/-- `MESSAGE_SIZE`. -/
def messageSize : ℕ := 1024

/-! ## What is on a connection -/

/-- What is on a client's connection when the loop reads it. -/
inductive Incoming where
  /-- the client has closed the connection -/
  | closed
  /-- a fatal TLS error -/
  | fatal
  /-- the client's next TLS record has `size` bytes, of which `arrived` are here; `payload` is what is in it
  for the application (what is left of it, if a part has been read before) -/
  | record (payload : Bytes) (size arrived : ℕ)
  deriving DecidableEq, Repr

/-- A request to quit. -/
def asksToLeave (request : Bytes) : Bool := requestIs "quit" request || requestIs "exit" request

/-- What one `SSL_read` takes of the request that is here as a whole, if there is one. A record may carry
nothing for the application. -/
def Incoming.request? : Incoming → Option Bytes
  | .record payload size arrived =>
    if size ≤ arrived ∧ payload ≠ [] then some (payload.take messageSize) else none
  | .closed | .fatal => none

/-- One `SSL_read` takes all that is in the record. -/
def Incoming.InOnePiece : Incoming → Prop
  | .record payload _ _ => payload.length ≤ messageSize
  | .closed | .fatal => True

instance : (incoming : Incoming) → Decidable incoming.InOnePiece
  | .record payload _ _ => inferInstanceAs (Decidable (payload.length ≤ messageSize))
  | .closed | .fatal => isTrue trivial

/-- What `SSL_read` gives: 0 at the end of the connection, -1 after an error, and -1 as well (with
`SSL_ERROR_WANT_READ`) when it would have to wait for more bytes. -/
def Incoming.received : Incoming → Received
  | .closed => .data []
  | .fatal => .failed
  | .record payload size arrived =>
    (Incoming.record payload size arrived).request?.elim .failed .data

/-- The connection is at its end: the client has closed it, TLS has failed, or the client asks to leave. -/
def Incoming.Ends : Incoming → Prop
  | .closed | .fatal => True
  | .record payload size arrived =>
    (Incoming.record payload size arrived).request?.any asksToLeave = true

/-- The answers of the environment; the other ones are those of the loop. -/
inductive TlsEvent where
  | poll (activity : Int) (revents : ℕ → BitVec 16)
  | accept (sock_client : Int) (ssl : Ssl) (rc : Int)
  | serve (incoming : Incoming) (time : Int) (sent_bytes : Int)
  | tau

/-- What the loop gets to see of it. -/
def TlsEvent.answer : TlsEvent → Event
  | .poll activity revents => .poll activity revents
  | .accept sock_client ssl rc => .accept sock_client ssl rc
  | .serve incoming time sent_bytes => .serve incoming.received time sent_bytes
  | .tau => .tau

/-- One step of the server loop. -/
def tlsStep (s : State) (e : TlsEvent) : Option State := step s e.answer

/-- A request is not empty. -/
theorem request?_ne_nil {incoming : Incoming} {request : Bytes} (h : incoming.request? = some request) :
    request ≠ [] := by
  rcases incoming with _ | _ | ⟨payload, size, arrived⟩
  · cases h
  · cases h
  · rw [Incoming.request?] at h
    split at h
    next hwhole =>
      cases h
      rcases payload with _ | ⟨b, payload⟩
      · exact absurd rfl hwhole.2
      · exact List.cons_ne_nil _ _
    next => cases h

/-- **When the loop drops a client**: unless there is a request, and it is another one. -/
theorem shouldDisconnect_received (incoming : Incoming) :
    shouldDisconnect incoming.received = incoming.request?.all asksToLeave := by
  rcases hrequest : incoming.request? with _ | request
  · rcases incoming with _ | _ | ⟨payload, size, arrived⟩
    · rfl
    · rfl
    · rw [Incoming.received, hrequest]
      rfl
  · rcases incoming with _ | _ | ⟨payload, size, arrived⟩
    · cases hrequest
    · cases hrequest
    · have hpos := not_received_nonpos (request?_ne_nil hrequest)
      rw [Incoming.received, hrequest]
      show shouldDisconnect (.data request) = asksToLeave request
      simp [shouldDisconnect, hpos, asksToLeave, Received.bytes]

/-! ## Healthy steps -/

/-- **`Iteration`** — what a step shows: its event, the calls made before it and the calls it makes. -/
structure Iteration where
  event : TlsEvent
  before : List Call
  calls : List Call

/-- The calls a step has added to the trace. -/
def newCalls (s t : State) : List Call := t.trace.take (t.trace.length - s.trace.length)

/-- A step shows itself. -/
def iteration (s : State) (e : TlsEvent) (t : State) : List Iteration := [⟨e, s.trace, newCalls s t⟩]

/-- There is a reason for closing the client `fd`: its handshake failed, or its connection is at its end. -/
def Iteration.MayClose (o : Iteration) (fd : Int) : Prop :=
  match o.event with
  | .accept sock_client _ rc => sock_client = fd ∧ rc ≤ 0
  | .serve incoming _ _ =>
    incoming.Ends ∧ ∃ ssl, .sslRead ssl ∈ o.calls ∧ boundFd o.before ssl = some fd
  | .poll _ _ | .tau => False

/-- A request other than to leave is read in one piece and answered on the connection it came from. -/
def Iteration.Answers (o : Iteration) : Prop :=
  match o.event with
  | .serve incoming time sent_bytes =>
    ∀ request, incoming.request? = some request → asksToLeave request = false →
      incoming.InOnePiece ∧ 0 < sent_bytes ∧
        ∃ ssl, .sslRead ssl ∈ o.calls ∧ .sslWrite ssl (responseText time) ∈ o.calls
  | .poll _ _ | .accept _ _ _ | .tau => True

/-- **A healthy step** closes clients for a reason only, and answers every request. -/
structure Healthy (sock_server : Int) (o : Iteration) : Prop where
  closes : ∀ fd, .close fd ∈ o.calls → fd ≠ sock_server → o.MayClose fd
  answers : o.Answers

/-- What is read is the end of the connection, or a record with a request in it that has arrived as a whole
and that asks to leave, or else is not too long and whose answer is taken by `SSL_write`. -/
def Incoming.Deliverable : Incoming → Int → Prop
  | .closed, _ | .fatal, _ => True
  | .record payload size arrived, sent_bytes =>
    (Incoming.record payload size arrived).request?.any
      (fun request => asksToLeave request || decide (payload.length ≤ messageSize ∧ 0 < sent_bytes)) = true

/-- **The condition on a step**: `poll` does not fail while a client is connected, and what is read is
deliverable. -/
def ArrivesWhole (s : State) : TlsEvent → Prop
  | .poll activity _ => activity ≤ 0 → s.nfds = 1
  | .serve incoming _ sent_bytes => incoming.Deliverable sent_bytes
  | .accept _ _ _ | .tau => True

instance (incoming : Incoming) (sent_bytes : Int) : Decidable (incoming.Deliverable sent_bytes) :=
  match incoming with
  | .closed | .fatal => isTrue trivial
  | .record payload size arrived =>
    inferInstanceAs (Decidable ((Incoming.record payload size arrived).request?.any _ = true))

instance (s : State) : (e : TlsEvent) → Decidable (ArrivesWhole s e)
  | .poll activity _ => inferInstanceAs (Decidable (activity ≤ 0 → s.nfds = 1))
  | .serve incoming _ sent_bytes => inferInstanceAs (Decidable (incoming.Deliverable sent_bytes))
  | .accept _ _ _ | .tau => isTrue trivial

/-! ## One step -/

theorem newCalls_eq {s t : State} (calls : List Call) (ht : t.trace = calls ++ s.trace) :
    newCalls s t = calls := by
  rw [newCalls, ht, List.length_append, Nat.add_sub_cancel, List.take_left]

/-- A step that closes nothing and has no request to answer. -/
theorem healthy_of_quiet {sock_server : Int} {o : Iteration} (hcalls : ∀ fd, .close fd ∉ o.calls)
    (hanswers : o.Answers) : Healthy sock_server o :=
  ⟨fun fd hfd => absurd hfd (hcalls fd), hanswers⟩

/-- What the clean-up closes besides the listening socket is the descriptor of a slot. -/
theorem mem_cleanUp_close {s : State} {fd : Int} :
    .close fd ∈ newCalls s (cleanUp s) ↔ fd = s.sock_server ∨ ∃ p ∈ s.fds.cells, 0 < p.fd ∧ p.fd = fd := by
  have hcalls : newCalls s (cleanUp s) =
      ((s.fds.cells.zip s.arr_ssl.cells).flatMap shutdownCalls).reverse ++ [.close s.sock_server] :=
    newCalls_eq _ (by rw [List.append_assoc]; rfl)
  have hslot (p : PollFd) (o : Option Ssl) :
      .close fd ∈ shutdownCalls (p, o) ↔ 0 < p.fd ∧ p.fd = fd := by
    rw [shutdownCalls, List.mem_append]
    by_cases hpos : 0 < p.fd
    · rw [if_pos hpos]
      rcases o with _ | ssl <;> simp [hpos, eq_comm]
    · rw [if_neg hpos]
      rcases o with _ | ssl <;> simp [hpos]
  rw [hcalls, List.mem_append, List.mem_reverse, List.mem_flatMap, List.mem_singleton, Call.close.injEq,
    or_comm]
  apply or_congr_right
  constructor
  · rintro ⟨⟨p, o⟩, hmem, hclose⟩
    exact ⟨p, (List.of_mem_zip hmem).1, (hslot p o).mp hclose⟩
  · rintro ⟨p, hmem, hclose⟩
    obtain ⟨i, hi, rfl⟩ := List.getElem_of_mem hmem
    have hssl : i < s.arr_ssl.cells.length := by
      rw [← length_cells s]
      exact hi
    refine ⟨(s.fds.cells[i], s.arr_ssl.cells[i]), ?_, (hslot _ _).mpr hclose⟩
    apply List.mem_of_getElem? (i := i)
    rw [List.getElem?_zip_eq_some]
    exact ⟨List.getElem?_eq_getElem hi, List.getElem?_eq_getElem hssl⟩

namespace LedgerInv

variable {s : State} (hs : LedgerInv s)

include hs

/-- **A failing `poll`** drops every client, without a reason. -/
theorem healthy_cleanUp_iff (activity : Int) (revents : ℕ → BitVec 16) :
    Healthy s.sock_server ⟨.poll activity revents, s.trace, newCalls s (cleanUp s)⟩ ↔ s.nfds = 1 := by
  have hpos := hs.table.pos
  constructor
  · intro hhealthy
    by_contra hmore
    -- slot 1 is a client, and the clean-up closes it
    obtain ⟨p, ssl, hp, -, -, -⟩ := hs.table.connected 1 (by omega)
    have hslot : p.fd ∈ s.slots := PollArray.mem_slots.mpr ⟨1, p, by omega, hp, rfl⟩
    have hclient : p.fd ≠ s.sock_server := by
      intro hsock
      exact absurd (hs.table.index_eq_zero (by omega) hp hsock) (by decide)
    have hfd : 0 < p.fd := (hs.positive _ hslot).resolve_left hclient
    exact hhealthy.closes p.fd
      (mem_cleanUp_close.mpr (.inr ⟨p, List.mem_of_getElem? hp, hfd, rfl⟩)) hclient
  · intro hone
    refine ⟨fun fd hfd hclient => ?_, trivial⟩
    obtain ⟨p, hmem, hfdpos, rfl⟩ := (mem_cleanUp_close.mp hfd).resolve_left hclient
    obtain ⟨i, hi⟩ := List.getElem?_of_mem hmem
    have hlt : i < maxConnection := by
      rw [← s.fds.size_eq]
      exact (List.getElem?_eq_some_iff.mp hi).1
    have hp : s.fds.get? i = some p := hi
    rcases Nat.lt_or_ge i s.nfds with huse | hfree
    · obtain rfl : i = 0 := by omega
      obtain ⟨q, hq, hsock⟩ := hs.table.get?_zero
      rw [hp] at hq
      cases hq
      exact absurd hsock hclient
    · obtain ⟨q, hq, hneg, -⟩ := hs.table.vacant i hfree hlt
      rw [hp] at hq
      cases hq
      omega

end LedgerInv

/-- **A client is dropped** for a reason exactly when what was read is deliverable. -/
theorem healthy_drops_iff {sock_server fd : Int} {ssl : Ssl} {incoming : Incoming} {time sent_bytes : Int}
    {before : List Call} (hclient : fd ≠ sock_server) (hbound : boundFd before ssl = some fd)
    (hdrop : shouldDisconnect incoming.received = true) :
    Healthy sock_server ⟨.serve incoming time sent_bytes, before, [.sslFree ssl, .close fd, .sslRead ssl]⟩ ↔
      incoming.Deliverable sent_bytes := by
  -- of a record that is dropped for, both say that it is a request to quit
  have hiff : incoming.Ends ↔ incoming.Deliverable sent_bytes := by
    rw [shouldDisconnect_received] at hdrop
    rcases incoming with _ | _ | ⟨payload, size, arrived⟩
    · exact .rfl
    · exact .rfl
    · rw [Incoming.Ends, Incoming.Deliverable]
      rcases hrequest : (Incoming.record payload size arrived).request? with _ | request
      · exact .rfl
      · rw [hrequest] at hdrop
        have hleave : asksToLeave request = true := hdrop
        show asksToLeave request = true ↔
          (asksToLeave request || decide (payload.length ≤ messageSize ∧ 0 < sent_bytes)) = true
        rw [hleave, Bool.true_or]
  rw [← hiff]
  constructor
  · intro hhealthy
    exact (hhealthy.closes fd (by simp) hclient).1
  · intro hends
    refine ⟨fun fd' hfd' _ => ?_, fun request hrequest hstay => ?_⟩
    · obtain rfl : fd' = fd := by simpa using hfd'
      exact ⟨hends, ssl, by simp, hbound⟩
    · rw [shouldDisconnect_received, hrequest] at hdrop
      have hleave : asksToLeave request = true := hdrop
      rw [hstay] at hleave
      cases hleave

/-- **A client is kept**: its request is answered exactly when it is not too long and `SSL_write` takes the
answer. -/
theorem healthy_keeps_iff {sock_server : Int} {ssl : Ssl} {incoming : Incoming} {time sent_bytes : Int}
    {before : List Call} (hkeep : shouldDisconnect incoming.received = false) :
    Healthy sock_server
      ⟨.serve incoming time sent_bytes, before, [.sslWrite ssl (responseText time), .sslRead ssl]⟩ ↔
      incoming.Deliverable sent_bytes := by
  rw [shouldDisconnect_received] at hkeep
  rcases hrequest : incoming.request? with _ | request
  · rw [hrequest] at hkeep
    cases hkeep
  · rw [hrequest] at hkeep
    have hstay : asksToLeave request = false := hkeep
    -- a client is kept only for a request, and this one does not ask to leave
    have hdeliver : incoming.Deliverable sent_bytes ↔ incoming.InOnePiece ∧ 0 < sent_bytes := by
      rcases incoming with _ | _ | ⟨payload, size, arrived⟩
      · cases hrequest
      · cases hrequest
      · rw [Incoming.Deliverable, hrequest, Incoming.InOnePiece]
        simp [hstay]
    rw [hdeliver]
    constructor
    · intro hhealthy
      obtain ⟨hpiece, hsent, -⟩ := hhealthy.answers request hrequest hstay
      exact ⟨hpiece, hsent⟩
    · rintro ⟨hpiece, hsent⟩
      refine ⟨fun fd hfd => ?_, fun request' _ _ => ⟨hpiece, hsent, ssl, by simp, by simp⟩⟩
      simp at hfd

/-- **The step lemma**: a step is healthy exactly when it meets the condition. -/
theorem healthy_step_iff {s t : State} {e : TlsEvent} (hs : LedgerInv s) (h : tlsStep s e = some t) :
    (∀ o ∈ iteration s e t, Healthy s.sock_server o) ↔ ArrivesWhole s e := by
  rw [iteration, List.forall_mem_singleton]
  have hstep := Step.of_step hs.table.inRange h
  -- one case per event: only `poll` and reading a client can be unhealthy
  rcases e with ⟨activity, revents⟩ | ⟨sock_client, ssl, rc⟩ | ⟨incoming, time, sent_bytes⟩ | _
  · rcases hstep with ⟨-, hact⟩ | ⟨-, hact⟩
    · rw [hs.healthy_cleanUp_iff]
      exact ⟨fun hone _ => hone, fun hcond => hcond hact⟩
    · refine iff_of_true (healthy_of_quiet ?_ trivial) fun hneg => by omega
      intro fd
      rw [newCalls_eq [_] rfl]
      simp
  · refine iff_of_true ?_ trivial
    rcases hstep with _ | _ | ⟨-, -, -, -, -, -⟩ | ⟨-, -, -, -, -, -, -, hrc⟩ | ⟨-, -, -, -, -, -, -, -⟩
    · refine healthy_of_quiet (fun fd => ?_) trivial
      rw [newCalls_eq [_] rfl]
      simp
    · refine ⟨fun fd hfd _ => ?_, trivial⟩
      rw [newCalls_eq [_, _, _, _, _, _] rfl] at hfd
      obtain rfl : fd = sock_client := by simpa using hfd
      exact ⟨rfl, hrc⟩
    · refine healthy_of_quiet (fun fd => ?_) trivial
      rw [newCalls_eq [_, _, _, _] rfl]
      simp
  · rcases hstep with _ | _ | _ | _ | _ | ⟨-, -, -, -, -, -, hkeep⟩ | ⟨-, hlt, hp, -, hsock, hssl, hdrop, -, -⟩
    · rw [newCalls_eq [_, _] rfl]
      exact healthy_keeps_iff hkeep
    · obtain ⟨ssl', hssl', -, hbound⟩ := hs.table.exists_ssl hlt hp
      rw [hssl] at hssl'
      cases hssl'
      rw [newCalls_eq [_, _, _] rfl]
      exact healthy_drops_iff hsock hbound hdrop
  · refine iff_of_true (healthy_of_quiet (fun fd => ?_) trivial) trivial
    have hcalls : newCalls s t = [] := by
      rcases hstep with _ | _ | _ | _ | _ | _ | _ | ⟨-, -, -, -⟩ | ⟨-, -⟩
      · exact newCalls_eq [] rfl
      · exact newCalls_eq [] rfl
    rw [hcalls]
    exact List.not_mem_nil

/-! ## The run -/

/-- The assumptions on the kernel and the TLS library. -/
def FreshTls (base : Finset Int) (s : State) (e : TlsEvent) : Prop := Fresh base s e.answer

instance (base : Finset Int) (s : State) (e : TlsEvent) : Decidable (FreshTls base s e) :=
  inferInstanceAs (Decidable (Fresh base s e.answer))

/-- What holds of every state of a run. -/
def Accounted (sock_server : Int) (s : State) : Prop :=
  s.phase = .exited ∨ LedgerInv s ∧ s.sock_server = sock_server

theorem accounted_init (sock_server : Int) (ssl : Ssl) : Accounted sock_server (init sock_server ssl) :=
  .inr ⟨LedgerInv.init sock_server ssl, rfl⟩

theorem Accounted.of_step {others : Finset Int} {sock_server : Int} {s t : State} {e : TlsEvent}
    (hs : Accounted sock_server s) (hfresh : FreshTls (insert sock_server others) s e)
    (hstep : tlsStep s e = some t) : Accounted sock_server t := by
  rcases hs with hexit | ⟨hs, rfl⟩
  · simp [tlsStep, step, hexit] at hstep
  · rcases hs.of_step (Fresh.of_insert hfresh) hstep with hexit | ht
    · exact .inl hexit
    · exact .inr ⟨ht, (Step.of_step hs.table.inRange hstep).sock_server⟩

theorem healthy_of_accounted {others : Finset Int} {sock_server : Int} (s : State) (e : TlsEvent) (t : State)
    (hs : Accounted sock_server s) (hfresh : FreshTls (insert sock_server others) s e)
    (hstep : tlsStep s e = some t) :
    ((∀ o ∈ iteration s e t, Healthy sock_server o) ↔ ArrivesWhole s e) ∧
      (ArrivesWhole s e → Accounted sock_server t) := by
  refine ⟨?_, fun _ => hs.of_step hfresh hstep⟩
  rcases hs with hexit | ⟨hs, rfl⟩
  · simp [tlsStep, step, hexit] at hstep
  · exact healthy_step_iff hs hstep

/-- **When a run is healthy.** In every run of the loop, however the records of the clients arrive: clients
are closed for a reason only and every other request is answered, if and only if every step meets the
condition. -/
theorem healthy_run_iff (others : Finset Int) (sock_server : Int) (ssl : Ssl) {es : List TlsEvent} {t : State}
    (h : Run tlsStep (FreshTls (insert sock_server others)) (init sock_server ssl) es t) :
    (∀ o ∈ observations tlsStep iteration (init sock_server ssl) es, Healthy sock_server o) ↔
      Run tlsStep ArrivesWhole (init sock_server ssl) es t :=
  h.forall_observations_iff healthy_of_accounted (accounted_init sock_server ssl)

end LinuxNet.Openssl.SslServer
