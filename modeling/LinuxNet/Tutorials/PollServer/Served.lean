/-
# LinuxNet.Tutorials.PollServer.Served — the poll server obeys its service

The poll loop as a `ServerLoop`: its clients are the stored descriptors that were not closed, and what it does
with a readable one is one iteration for that client.
-/
import LinuxNet.Tutorials.PollServer.Table
import LinuxNet.Tutorials.Turns

namespace LinuxNet.Tutorials.PollServer

open LinuxNet.Lib LinuxNet.Lib.Clients LinuxNet.Lib.FdLedger LinuxNet.Posix
open LinuxNet.Tutorials.Turns

/-! ## Turns and calls -/

/-- What the answers of the kernel make of a step. -/
def turn (s : State) : Event → Option (Turn Int Iteration)
  | .poll _ _ | .tau => none
  | .accept sock_client => if sock_client < 0 then none else some (.accepts sock_client)
  | .serve received time sent_bytes =>
    match s.phase with
    | .clients i => (s.fds.get? i).map fun p => .iterates p.fd (iteration received time sent_bytes)
    | .polling | .listener | .exited | .fault _ => none

/-- The calls on the sockets of clients. -/
def Call.client? (sock_server : Int) : Call → Option ClientCall
  | .accept sock_client => if sock_client < 0 then none else some (.accept sock_client)
  | .recv fd => some (.recv fd)
  | .send fd response => some (.send fd response)
  | .close fd => if fd = sock_server then none else some (.close fd)
  | .poll _ | .stored _ => none

/-- The calls on the sockets of clients so far, newest first. -/
def State.clientCalls (s : State) : List ClientCall := s.trace.filterMap (Call.client? s.sock_server)

theorem clientCalls_append {s t : State} {calls : List Call} (hsock : t.sock_server = s.sock_server)
    (ht : t.trace = calls ++ s.trace) :
    t.clientCalls = calls.filterMap (Call.client? s.sock_server) ++ s.clientCalls := by
  rw [State.clientCalls, ht, hsock, List.filterMap_append]
  rfl

/-! ## The loop obeys its service -/

section Obeys

variable {base : Finset Int} {s t : State} {e : Event}

/-- A readable client slot holds a client. -/
theorem mem_storedFds_of_get? (hs : TableInv base s) {i : ℕ} {p : PollFd} (hi : 1 ≤ i) (hlt : i < s.nfds)
    (hp : s.fds.get? i = some p) : p.fd ∈ storedFds s.history ∧ p.fd ≠ s.sock_server := by
  have hslot : s.slots[i]? = some p.fd := by
    have hlen : i < s.slots.length := by rwa [hs.length_slots]
    rw [List.getElem?_eq_getElem hlen]
    exact congrArg some (PollArray.slots_getElem hlt hp hlen)
  have hne : p.fd ≠ s.sock_server := by
    intro heq
    have hzero : 0 < s.slots.length := by
      rw [hs.length_slots]
      omega
    have hsame : s.slots[0]? = s.slots[i]? := by rw [hs.head, hslot, heq]
    exact absurd ((List.getElem?_inj hzero hs.nodup).mp hsame) (by omega)
  exact ⟨(hs.stored p.fd).mpr ⟨List.mem_of_getElem? hslot, hne⟩, hne⟩

theorem turn_of_serve {i : ℕ} {p : PollFd} (hphase : s.phase = .clients i) (hp : s.fds.get? i = some p)
    (received : Received) (time sent_bytes : Int) :
    turn s (.serve received time sent_bytes) = some (.iterates p.fd (iteration received time sent_bytes)) := by
  simp only [turn, hphase, hp, Option.map_some]

theorem turn_of_accept {sock_client : Int} (hpos : 0 ≤ sock_client) :
    turn s (.accept sock_client) = some (.accepts sock_client) := if_neg (Int.not_lt.mpr hpos)

/-- **A turn is all that a step does with clients.** -/
theorem clientCalls_of_step (hs : TableInv base s) (h : step s e = some t) :
    t.clientCalls = callsOf (turn s e) ++ s.clientCalls := by
  have hstep := Step.of_step hs.range h
  have happend {c : List Call} {kept : List ClientCall} (ht : t.trace = c ++ s.trace)
      (hkept : c.filterMap (Call.client? s.sock_server) = kept) : t.clientCalls = kept ++ s.clientCalls :=
    hkept ▸ clientCalls_append hstep.sock_server ht
  cases hstep with
  | pollFails => exact happend (c := [.close s.sock_server]) rfl (List.filterMap_cons_none (if_pos rfl))
  | polls => exact happend (c := [.poll _]) rfl rfl
  | @acceptFails sock_client _ hneg =>
      have hturn : turn s (.accept sock_client) = none := if_pos hneg
      rw [hturn]
      exact happend (c := [.accept sock_client]) rfl (List.filterMap_cons_none (if_pos hneg))
  | @stores sock_client _ hpos _ =>
      rw [turn_of_accept hpos]
      refine happend (c := [.stored sock_client, .accept sock_client]) rfl ?_
      exact (List.filterMap_cons_none rfl).trans (List.filterMap_cons_some (if_neg (Int.not_lt.mpr hpos)))
  | @full sock_client _ hpos _ =>
      rw [turn_of_accept hpos]
      exact happend (c := [.accept sock_client]) rfl (List.filterMap_cons_some (if_neg (Int.not_lt.mpr hpos)))
  | noListener => exact happend (c := []) rfl rfl
  | @keeps i p received time sent_bytes hphase _ _ hp _ hkeep =>
      rw [turn_of_serve hphase hp, callsOf_iteration_keeps hkeep]
      exact happend (c := [.send p.fd (responseText time), .recv p.fd]) rfl rfl
  | @drops i p q received time sent_bytes sends hphase hi hlt hp _ hdrop _ hsends =>
      have hne := (mem_storedFds_of_get? hs hi hlt hp).2
      rw [turn_of_serve hphase hp, callsOf_iteration_drops hdrop]
      refine happend (c := .close p.fd :: (sends ++ [.recv p.fd])) rfl ?_
      have hclose : Call.client? s.sock_server (.close p.fd) = some (.close p.fd) := if_neg hne
      rw [List.filterMap_cons_some hclose, List.filterMap_append, hsends]
      split
      · rfl
      · rfl
  | skips => exact happend (c := []) rfl rfl
  | endRound => exact happend (c := []) rfl rfl

/-- **The poll server obeys its service.** -/
theorem obeys_of_step (hs : TableInv base s) (hfresh : FreshAccept base s e) (h : step s e = some t) :
    Obeys (Legal Conversation.multiplexed true) Iteration.ends (storedFds s.history) (turn s e)
      (storedFds t.history) := by
  have hnew {sock_client : Int} (hphase : s.phase = .listener) (hopen : sock_client ∉ openFds base s.history) :
      sock_client ∉ storedFds s.history := by
    intro hstored
    exact hopen (hs.isOpen (by rw [hphase]; exact Phase.noConfusion) _ ((hs.stored _).mp hstored).1)
  cases Step.of_step hs.range h with
  | pollFails => exact .quiet (Finset.erase_subset _ _)
  | polls => exact .quiet (Finset.Subset.refl _)
  | @acceptFails sock_client _ hneg =>
      have hturn : turn s (.accept sock_client) = none := if_pos hneg
      rw [hturn]
      exact .quiet (congrArg storedFds (State.history_acceptFails (s := s) hneg rfl)).subset
  | stores hphase hpos _ =>
      rw [turn_of_accept hpos]
      exact .accepts (hnew hphase (hfresh hpos))
        (congrArg storedFds (State.history_stores (s := s) hpos rfl)).subset
  | full hphase hpos _ =>
      rw [turn_of_accept hpos]
      exact .accepts (hnew hphase (hfresh hpos))
        ((congrArg storedFds (State.history_full (s := s) hpos rfl)).subset.trans (Finset.subset_insert _ _))
  | noListener => exact .quiet (Finset.Subset.refl _)
  | @keeps i p received time sent_bytes hphase hi hlt hp _ hkeep =>
      rw [turn_of_serve hphase hp]
      refine obeys_iteration (mem_storedFds_of_get? hs hi hlt hp).1 ?_ time
      rw [hkeep]
      exact Finset.Subset.refl _
  | @drops i p q received time sent_bytes sends hphase hi hlt hp _ hdrop _ hsends =>
      rw [turn_of_serve hphase hp, State.history_refill (fdOps_drops hsends)]
      refine obeys_iteration (mem_storedFds_of_get? hs hi hlt hp).1 ?_ time
      rw [hdrop]
      exact Finset.Subset.refl _
  | skips => exact .quiet (Finset.Subset.refl _)
  | endRound => exact .quiet (Finset.Subset.refl _)

end Obeys

/-- **The poll server** as a server loop: `accept` returns descriptors that are not open. -/
def serverLoop (others : Finset Int) (sock_server : Int) :
    ServerLoop State Event Conversation.multiplexed true where
  step := step
  ok := FreshAccept (insert sock_server others)
  start := init sock_server
  turn := turn
  held s := storedFds s.history
  calls := State.clientCalls
  Inv := TableInv (insert sock_server others)
  inv_start := TableInv.init others sock_server
  held_start := rfl
  inv_step := TableInv.of_step
  calls_step hs _ hstep := clientCalls_of_step hs hstep
  obeys := obeys_of_step

instance (others : Finset Int) (sock_server : Int) (s : State) (e : Event) :
    Decidable ((serverLoop others sock_server).ok s e) :=
  inferInstanceAs (Decidable (FreshAccept (insert sock_server others) s e))

end LinuxNet.Tutorials.PollServer
