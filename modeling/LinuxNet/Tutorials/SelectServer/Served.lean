/-
# LinuxNet.Tutorials.SelectServer.Served — the select server obeys its service

The select loop as a `ServerLoop`: its clients are the non-zero entries of `fds_client`, and what the scan
does with a readable one is one iteration for that client.
-/
import LinuxNet.Tutorials.SelectServer.Table
import LinuxNet.Tutorials.Turns

namespace LinuxNet.Tutorials.SelectServer

open LinuxNet.Lib LinuxNet.Lib.Clients LinuxNet.Lib.FdLedger LinuxNet.Posix
open LinuxNet.Tutorials.PollServer (responseText)
open LinuxNet.Tutorials.Turns

/-! ## Turns and calls -/

/-- What the answers of the kernel make of a step. -/
def turn (s : State) : Event → Option (Turn Int Iteration)
  | .select _ _ | .tau => none
  | .accept sock_client => if sock_client < 0 then none else some (.accepts sock_client)
  | .serve received time sent_bytes =>
    match s.phase with
    | .scan i => some (.iterates i (iteration received time sent_bytes))
    | .selecting => none

/-- The calls on the sockets of clients. -/
def Call.client? : Call → Option ClientCall
  | .accept sock_client => if sock_client < 0 then none else some (.accept sock_client)
  | .recv fd => some (.recv fd)
  | .send fd response => some (.send fd response)
  | .close fd => some (.close fd)
  | .select _ | .fdIsset _ | .fdSet _ | .fdClr _ => none

/-- The calls on the sockets of clients so far, newest first. -/
def State.clientCalls (s : State) : List ClientCall := s.trace.filterMap Call.client?

theorem clientCalls_append {s t : State} {c : List Call} {kept : List ClientCall}
    (ht : t.trace = c ++ s.trace) (hkept : c.filterMap Call.client? = kept) :
    t.clientCalls = kept ++ s.clientCalls := by
  rw [State.clientCalls, ht, List.filterMap_append, hkept]
  rfl

/-! ## The loop obeys its service -/

section Obeys

variable {base : Finset Int} {s t : State} {e : Event}

theorem turn_of_serve {i : Int} (hphase : s.phase = .scan i) (received : Received) (time sent_bytes : Int) :
    turn s (.serve received time sent_bytes) = some (.iterates i (iteration received time sent_bytes)) := by
  simp only [turn, hphase]

theorem turn_of_accept {sock_client : Int} (hpos : 0 ≤ sock_client) :
    turn s (.accept sock_client) = some (.accepts sock_client) := if_neg (Int.not_lt.mpr hpos)

/-- **A turn is all that a step does with clients.** -/
theorem clientCalls_of_step (h : step s e = some t) :
    t.clientCalls = callsOf (turn s e) ++ s.clientCalls := by
  have haccept {sock_client : Int} (hpos : 0 ≤ sock_client) :
      Call.client? (.accept sock_client) = some (.accept sock_client) := if_neg (Int.not_lt.mpr hpos)
  cases Step.of_step h with
  | selectFails => exact clientCalls_append (c := [.select none]) rfl rfl
  | selects => exact clientCalls_append (c := [.select (some _)]) rfl rfl
  | @acceptFails i sock_client _ _ _ hneg =>
      have hturn : turn s (.accept sock_client) = none := if_pos hneg
      have hnone : Call.client? (.accept sock_client) = none := if_pos hneg
      rw [hturn]
      refine clientCalls_append (c := [.accept sock_client, .fdIsset i]) rfl ?_
      rw [List.filterMap_cons_none hnone]
      rfl
  | @stores i sock_client _ _ _ hpos _ =>
      rw [turn_of_accept hpos]
      refine clientCalls_append (c := [.fdSet sock_client, .accept sock_client, .fdIsset i]) rfl ?_
      rw [List.filterMap_cons_none rfl, List.filterMap_cons_some (haccept hpos)]
      rfl
  | @full i sock_client _ _ _ hpos _ =>
      rw [turn_of_accept hpos]
      refine clientCalls_append (c := [.accept sock_client, .fdIsset i]) rfl ?_
      rw [List.filterMap_cons_some (haccept hpos)]
      rfl
  | @keeps i received time sent_bytes hphase _ _ hkeep =>
      rw [turn_of_serve hphase, callsOf_iteration_keeps hkeep]
      exact clientCalls_append (c := [.send i (responseText time), .recv i, .fdIsset i]) rfl rfl
  | @drops i received time sent_bytes sends hphase _ _ hdrop hsends =>
      rw [turn_of_serve hphase, callsOf_iteration_drops hdrop]
      refine clientCalls_append (c := .fdClr i :: .close i :: (sends ++ [.recv i, .fdIsset i])) rfl ?_
      rw [hsends]
      split
      · rfl
      · rfl
  | @skips i => exact clientCalls_append (c := [.fdIsset i]) rfl rfl
  | endRound => exact clientCalls_append (c := []) rfl rfl

/-- **The select server obeys its service.** -/
theorem obeys_of_step (hs : TableInv base s) (hfresh : NewAccept base s e) (h : step s e = some t) :
    Obeys (Legal Conversation.multiplexed true) Iteration.ends s.clients.toFinset (turn s e)
      t.clients.toFinset := by
  have hnew {sock_client : Int} (hopen : sock_client ∉ openFds base s.history) :
      sock_client ∉ s.clients.toFinset := by
    intro hin
    exact hopen (hs.isOpen _ (hs.mem_master.mpr (.inr (List.mem_toFinset.mp hin))))
  have hclient {i : Int} (hphase : s.phase = .scan i) (hmem : i ∈ s.read_set) (hsock : i ≠ s.sock_server) :
      i ∈ s.clients.toFinset := List.mem_toFinset.mpr (hs.mem_clients hphase hmem hsock)
  cases Step.of_step h with
  | selectFails => exact .quiet (Finset.Subset.refl _)
  | selects => exact .quiet (Finset.Subset.refl _)
  | @acceptFails i sock_client _ _ _ hneg =>
      have hturn : turn s (.accept sock_client) = none := if_pos hneg
      rw [hturn]
      exact .quiet (Finset.Subset.refl _)
  | @stores i sock_client _ _ _ hpos hroom =>
      obtain ⟨hpos', hopen⟩ := hfresh hpos
      have hperm : (SlotArray.inUse 0 (s.fds_client.replaceFirst 0 sock_client)).Perm
          (sock_client :: s.clients) := SlotArray.inUse_store hpos'.ne' hroom
      rw [turn_of_accept hpos]
      refine .accepts (hnew hopen) ?_
      show (SlotArray.inUse 0 (s.fds_client.replaceFirst 0 sock_client)).toFinset ⊆ _
      rw [List.toFinset_eq_of_perm _ _ hperm, List.toFinset_cons]
  | full _ _ _ hpos _ =>
      rw [turn_of_accept hpos]
      exact .accepts (hnew (hfresh hpos).2) (Finset.subset_insert _ _)
  | @keeps i received time sent_bytes hphase hmem hsock hkeep =>
      rw [turn_of_serve hphase]
      refine obeys_iteration (hclient hphase hmem hsock) ?_ time
      rw [hkeep]
      exact Finset.Subset.refl _
  | @drops i received time sent_bytes sends hphase hmem hsock hdrop hsends =>
      have hin := hclient hphase hmem hsock
      have hzero : i ≠ 0 := (SlotArray.mem_inUse.mp (List.mem_toFinset.mp hin)).2
      rw [turn_of_serve hphase]
      refine obeys_iteration hin ?_ time
      rw [hdrop]
      intro d hd
      obtain ⟨hne, hd⟩ := (SlotArray.mem_inUse_clear hzero hs.nodup).mp (List.mem_toFinset.mp hd)
      exact Finset.mem_erase.mpr ⟨hne, List.mem_toFinset.mpr hd⟩
  | skips => exact .quiet (Finset.Subset.refl _)
  | endRound => exact .quiet (Finset.Subset.refl _)

end Obeys

/-- **The select server** as a server loop: `accept` returns positive descriptors that are not open, and those
that get into the sets are below `FD_SETSIZE`. -/
def serverLoop (others : Finset Int) (sock_server : Int) :
    ServerLoop State Event Conversation.multiplexed true where
  step := step
  ok := FreshAccept (insert sock_server others)
  start := init sock_server
  turn := turn
  held s := s.clients.toFinset
  calls := State.clientCalls
  Inv := TableInv (insert sock_server others)
  inv_start := TableInv.init others sock_server
  held_start := congrArg List.toFinset (SlotArray.inUse_filled 0)
  inv_step hs hfresh hstep := hs.of_step hfresh.1 hstep
  calls_step _ _ hstep := clientCalls_of_step hstep
  obeys hs hfresh hstep := obeys_of_step hs hfresh.1 hstep

instance (others : Finset Int) (sock_server : Int) (s : State) (e : Event) :
    Decidable ((serverLoop others sock_server).ok s e) :=
  inferInstanceAs (Decidable (FreshAccept (insert sock_server others) s e))

end LinuxNet.Tutorials.SelectServer
