/-
# LinuxNet.Openssl.SslServer.Served — the TLS server and its connections

The loop of the TLS server as a `Server`: a connection is one whose handshake has succeeded, and it has it
until it closes it, in an iteration for it or in the clean-up after a failing `poll`. `SSL_read` and `SSL_write`
are calls on an object of the second array, `close` is one on a descriptor of the first; that both belong to the
same connection is what the table invariant says (`turn_of_serve`). The calls of a step are those of its turn
(`CallsOf`); so a connection is closed exactly when the turn ends it (`CallsOf.close_mem_iff`).
-/
import LinuxNet.Openssl.SslClient
import LinuxNet.Openssl.SslServer.Table

namespace LinuxNet.Openssl.SslServer

open LinuxNet.Lib LinuxNet.Lib.Clients LinuxNet.Lib.FdLedger LinuxNet.Posix
open LinuxNet.Openssl.SslClient (Exchange)
open LinuxNet.Tutorials.PollServer (responseText)

/-! ## Turns -/

/-- What the answers of the kernel and of the TLS library make of a step: a client that is turned away, or
fails its handshake, is none, and an iteration is for the connection the TLS object of the slot is bound to.
When `poll` fails, the loop is left and the clean-up closes all connections. -/
def turn (s : State) : TlsEvent → Option (Turn Int Exchange)
  | .accept sock_client _ rc =>
    if 0 < sock_client ∧ s.nfds < maxConnection ∧ 0 < rc then some (.accepts sock_client) else none
  | .serve incoming time sent_bytes =>
    match s.phase with
    | .scan i => ((s.arr_ssl.get? i).join.bind (boundFd s.trace)).map fun d =>
        .iterates d ⟨incoming, time, sent_bytes⟩
    | .polling | .exited | .fault _ => none
  | .poll activity _ => if activity ≤ 0 then some .quits else none
  | .tau => none

/-- The turn ends this connection. -/
def Ends (d : Int) : Option (Turn Int Exchange) → Prop
  | some (.iterates d' x) => d' = d ∧ x.ends = true
  | some .quits => True
  | some (.accepts _) | none => False

/-- The connections of a running loop. -/
def held (s : State) : Finset Int := if s.phase = .exited then ∅ else s.slots.toFinset.erase s.sock_server

/-- The connections after a turn. -/
def heldAfter (before : Finset Int) : Option (Turn Int Exchange) → Finset Int
  | none => before
  | some (.accepts d) => insert d before
  | some (.iterates d x) => if x.ends then before.erase d else before
  | some .quits => ∅

section Obeys

variable {base : Finset Int} {s t : State} {incoming : Incoming} {time sent_bytes : Int}

/-- What `SSL_read` reads from is the connection of the slot. -/
theorem turn_of_serve (hs : TableInv base s) {i : ℕ} {p : PollFd} {ssl : Ssl} (hphase : s.phase = .scan i)
    (hlt : i < s.nfds) (hp : s.fds.get? i = some p) (hssl : s.arr_ssl.get? i = some (some ssl)) :
    boundFd s.trace ssl = some p.fd ∧
      turn s (.serve incoming time sent_bytes) = some (.iterates p.fd ⟨incoming, time, sent_bytes⟩) := by
  obtain ⟨ssl', hssl', -, hbound⟩ := hs.exists_ssl hlt hp
  rw [hssl] at hssl'
  cases hssl'
  refine ⟨hbound, ?_⟩
  simp only [turn, hphase, hssl, Option.join_some, Option.bind_some, hbound, Option.map_some]

theorem mem_held {d : Int} (hrun : s.phase ≠ .exited) : d ∈ held s ↔ d ∈ s.slots ∧ d ≠ s.sock_server := by
  rw [held, if_neg hrun, Finset.mem_erase, List.mem_toFinset, and_comm]

/-- With the same slots there are the same connections. -/
theorem held_congr (hs : s.phase ≠ .exited) (ht : t.phase ≠ .exited) (hsock : t.sock_server = s.sock_server)
    (hslots : t.slots = s.slots) : held t = held s := by
  rw [held, held, if_neg hs, if_neg ht, hslots, hsock]

/-- A client slot holds a connection. -/
theorem mem_held_of_get? (hrun : s.phase ≠ .exited) {i : ℕ} {p : PollFd} (hlt : i < s.nfds)
    (hp : s.fds.get? i = some p) (hsock : p.fd ≠ s.sock_server) : p.fd ∈ held s :=
  (mem_held hrun).mpr ⟨PollArray.mem_slots.mpr ⟨i, p, hlt, hp, rfl⟩, hsock⟩

/-- **The slots of a closed connection**: it is in none of them, and the others are where they were or in its
slot. -/
theorem mem_slots_refill (hs : TableInv base s) {i : ℕ} {p q : PollFd} {lastSsl : Option Ssl} (hlt : i < s.nfds)
    (hp : s.fds.get? i = some p) (hq : s.fds.get? (s.nfds - 1) = some q) {calls : List Call} {d : Int} :
    d ∈ (s.refill i q.fd lastSsl calls).slots ↔ d ∈ s.slots ∧ d ≠ p.fd := by
  show d ∈ ((s.fds.modify i fun p => { p with fd := q.fd }).modify (s.nfds - 1) fun p =>
    { p with fd := -1 }).slots (s.nfds - 1) ↔ _
  rw [PollArray.slots_modify_of_le _ le_rfl]
  exact PollArray.mem_slots_remove hs.nodup hs.le hlt hp hq rfl

/-- **What a turn is**: a client whose handshake has succeeded, what `SSL_read` and `SSL_write` answer, or a
`poll` that fails. -/
theorem turn_cases {e : TlsEvent} {turn' : Turn Int Exchange} (h : turn s e = some turn') :
    (∃ d ssl rc, e = .accept d ssl rc ∧ turn' = .accepts d ∧ 0 < d) ∨
      (∃ d incoming time sent_bytes, e = .serve incoming time sent_bytes ∧
        turn' = .iterates d ⟨incoming, time, sent_bytes⟩) ∨
        ∃ activity revents, e = .poll activity revents ∧ turn' = .quits ∧ activity ≤ 0 := by
  rcases e with ⟨activity, revents⟩ | ⟨sock_client, ssl, rc⟩ | ⟨incoming, time, sent_bytes⟩ | _
  · rw [turn] at h
    split at h
    next hact =>
      cases h
      exact .inr (.inr ⟨activity, revents, rfl, rfl, hact⟩)
    next => cases h
  · rw [turn] at h
    split at h
    next hkept =>
      cases h
      exact .inl ⟨sock_client, ssl, rc, rfl, rfl, hkept.1⟩
    next => cases h
  · rw [turn] at h
    split at h
    next =>
      obtain ⟨d, -, rfl⟩ := Option.map_eq_some_iff.mp h
      exact .inr (.inl ⟨d, incoming, time, sent_bytes, rfl, rfl⟩)
    all_goals cases h
  · cases h

theorem eq_accept_of_turn {e : TlsEvent} {d : Int} (h : turn s e = some (.accepts d)) :
    ∃ ssl rc, e = .accept d ssl rc ∧ 0 < d := by
  obtain ⟨d', ssl, rc, rfl, heq, hpos⟩ | ⟨d', incoming, time, sent_bytes, -, heq⟩ |
    ⟨activity, revents, -, heq, -⟩ := turn_cases h
  all_goals cases heq
  exact ⟨ssl, rc, rfl, hpos⟩

theorem eq_serve_of_turn {e : TlsEvent} {d : Int} {x : Exchange} (h : turn s e = some (.iterates d x)) :
    ∃ incoming time sent_bytes, e = .serve incoming time sent_bytes ∧ x = ⟨incoming, time, sent_bytes⟩ := by
  obtain ⟨d', ssl, rc, -, heq, -⟩ | ⟨d', incoming, time, sent_bytes, rfl, heq⟩ |
    ⟨activity, revents, -, heq, -⟩ := turn_cases h
  all_goals cases heq
  exact ⟨incoming, time, sent_bytes, rfl, rfl⟩

theorem eq_poll_of_turn {e : TlsEvent} (h : turn s e = some .quits) :
    ∃ activity revents, e = .poll activity revents ∧ activity ≤ 0 := by
  obtain ⟨d', ssl, rc, -, heq, -⟩ | ⟨d', incoming, time, sent_bytes, -, heq⟩ |
    ⟨activity, revents, rfl, heq, hact⟩ := turn_cases h
  all_goals cases heq
  exact ⟨activity, revents, rfl, hact⟩

/-- **The connections after a step** are those that its turn leaves. -/
theorem held_of_step {e : TlsEvent} (hs : TableInv base s) (hrun : s.phase ≠ .exited)
    (hfresh : Fresh base s e.answer) (h : tlsStep s e = some t) : held t = heldAfter (held s) (turn s e) := by
  have hstep := Step.of_step hs.inRange h
  rcases e with ⟨activity, revents⟩ | ⟨sock_client, ssl, rc⟩ | ⟨incoming, time, sent_bytes⟩ | _
  · rcases hstep with ⟨-, hact⟩ | ⟨-, hact⟩
    · rw [turn, if_pos hact]
      exact if_pos rfl
    · rw [turn, if_neg (Int.not_le.mpr hact)]
      exact held_congr hrun Phase.noConfusion rfl (PollArray.slots_report _ _ _ _)
  · rcases hstep with _ | _ | ⟨-, -, -, -, -, hno⟩ | ⟨-, -, -, -, -, -, -, hrc⟩ |
      ⟨hphase, hlt, hp, -, hlistener, hpos, hroom, hrc⟩
    · rw [turn, if_neg (by omega)]
      exact held_congr hrun Phase.noConfusion rfl rfl
    · rw [turn, if_neg (by omega)]
      refine held_congr hrun Phase.noConfusion rfl ?_
      rw [State.slots, PollArray.slots_modify_of_le _ le_rfl, PollArray.slots_modify_of_le _ le_rfl]
      rfl
    · rw [turn, if_pos ⟨hpos, hroom, hrc⟩]
      have hnew : sock_client ∉ s.slots := fun hin => hfresh.1 hpos.le (hs.isOpen _ hin)
      have hslots : (s.fds.modify s.nfds fun p => { p with fd := sock_client, events := pollIn }).slots
          (s.nfds + 1) = s.slots ++ [sock_client] := PollArray.slots_append _ hroom fun _ => rfl
      have hne : sock_client ≠ s.sock_server := by
        rintro rfl
        exact hnew (List.mem_of_getElem? hs.head)
      ext d
      rw [mem_held (by exact Phase.noConfusion)]
      show d ∈ PollArray.slots _ (s.nfds + 1) ∧ d ≠ s.sock_server ↔ d ∈ insert sock_client (held s)
      rw [hslots, List.mem_append, List.mem_singleton, Finset.mem_insert, mem_held hrun]
      constructor
      · rintro ⟨hmem | rfl, hsock⟩
        · exact .inr ⟨hmem, hsock⟩
        · exact .inl rfl
      · rintro (rfl | ⟨hmem, hsock⟩)
        · exact ⟨.inr rfl, hne⟩
        · exact ⟨.inl hmem, hsock⟩
  · rcases hstep with _ | _ | _ | _ | _ | ⟨hphase, hlt, hp, -, -, hssl, hkeep⟩ |
      @⟨i, p, q, ssl, lastSsl, _, _, _, hphase, hlt, hp, -, hclient, hssl, hdrop, hq, -⟩
    · rw [(turn_of_serve hs hphase hlt hp hssl).2]
      have hends : Exchange.ends ⟨incoming, time, sent_bytes⟩ = false := hkeep
      rw [heldAfter, hends]
      exact held_congr hrun Phase.noConfusion rfl rfl
    · rw [(turn_of_serve hs hphase hlt hp hssl).2]
      have hends : Exchange.ends ⟨incoming, time, sent_bytes⟩ = true := hdrop
      rw [heldAfter, hends, if_pos rfl]
      ext d
      rw [mem_held (by exact Phase.noConfusion), mem_slots_refill hs hlt hp hq, Finset.mem_erase, mem_held hrun]
      exact and_assoc.trans and_left_comm
  · rcases hstep with _ | _ | _ | _ | _ | _ | _ | _ | _
    · exact held_congr hrun Phase.noConfusion rfl rfl
    · exact held_congr hrun Phase.noConfusion rfl rfl

/-- An iteration is for a connection the server has. -/
theorem mem_held_of_iterates {e : TlsEvent} {d : Int} {x : Exchange} (hs : TableInv base s)
    (hrun : s.phase ≠ .exited) (h : tlsStep s e = some t) (hturn : turn s e = some (.iterates d x)) :
    d ∈ held s := by
  obtain ⟨incoming, time, sent_bytes, rfl, rfl⟩ := eq_serve_of_turn hturn
  rcases Step.of_step hs.inRange h with _ | _ | _ | _ | _ | ⟨hphase, hlt, hp, -, hclient, hssl, -⟩ |
    ⟨hphase, hlt, hp, -, hclient, hssl, -, -, -⟩
  all_goals
    rw [(turn_of_serve hs hphase hlt hp hssl).2] at hturn
    cases hturn
    exact mem_held_of_get? hrun hlt hp hclient

/-- A client that is accepted is a new one. -/
theorem notMem_held_of_accepts {e : TlsEvent} {d : Int} (hs : TableInv base s) (hrun : s.phase ≠ .exited)
    (hfresh : Fresh base s e.answer) (hturn : turn s e = some (.accepts d)) : d ∉ held s := by
  obtain ⟨ssl, rc, rfl, hpos⟩ := eq_accept_of_turn hturn
  exact fun hin => hfresh.1 hpos.le (hs.isOpen _ ((mem_held hrun).mp hin).1)

/-- **The loop obeys the rules**: a client that is accepted is a new one, and an iteration is for a connection
the server has and closes no other. -/
theorem obeys_of_step {e : TlsEvent} (hs : TableInv base s) (hrun : s.phase ≠ .exited)
    (hfresh : Fresh base s e.answer) (h : tlsStep s e = some t) :
    Obeys (fun _ => True) Exchange.ends (held s) (turn s e) (held t) := by
  rw [held_of_step hs hrun hfresh h]
  rcases hturn : turn s e with _ | d | ⟨d, x⟩ | _
  · exact .quiet (Finset.Subset.refl _)
  · exact .accepts (notMem_held_of_accepts hs hrun hfresh hturn) (Finset.Subset.refl _)
  · exact .iterates (mem_held_of_iterates hs hrun h hturn) trivial (Finset.Subset.refl _)
  · exact .quits

/-- Only positive descriptors become connections. -/
theorem pos_of_step {e : TlsEvent} (hs : TableInv base s) (hrun : s.phase ≠ .exited)
    (hfresh : Fresh base s e.answer) (h : tlsStep s e = some t) (hpos : ∀ d ∈ held s, 0 < d) :
    ∀ d ∈ held t, 0 < d := by
  rw [held_of_step hs hrun hfresh h]
  rcases hturn : turn s e with _ | d | ⟨d, x⟩ | _
  · exact hpos
  · obtain ⟨ssl, rc, -, hd⟩ := eq_accept_of_turn hturn
    intro d' hd'
    rcases Finset.mem_insert.mp hd' with rfl | hd'
    · exact hd
    · exact hpos d' hd'
  · intro d' hd'
    rw [heldAfter] at hd'
    split at hd'
    next => exact hpos d' (Finset.mem_of_mem_erase hd')
    next => exact hpos d' hd'
  · exact fun d' hd' => absurd hd' (Finset.notMem_empty d')

/-- **`CallsOf s e turn calls`** — the calls of a step, newest first. What is read and written in an iteration
is the TLS object of its connection. -/
inductive CallsOf (s : State) : TlsEvent → Option (Turn Int Exchange) → List Call → Prop
  | polls {activity : Int} {revents : ℕ → BitVec 16} (ready : List Int) :
      CallsOf s (.poll activity revents) none [.poll ready]
  | quits {activity : Int} {revents : ℕ → BitVec 16} {calls : List Call}
      (hclose : ∀ d, Call.close d ∈ calls ↔ d = s.sock_server ∨ d ∈ held s) :
      CallsOf s (.poll activity revents) (some .quits) calls
  | turnsAway (sock_client : Int) (ssl : Ssl) (rc : Int) :
      CallsOf s (.accept sock_client ssl rc) none [.accept sock_client]
  | handshakeFails {sock_client : Int} {ssl : Ssl} {rc : Int} (hrc : rc ≤ 0) (hnew : sock_client ∉ held s) :
      CallsOf s (.accept sock_client ssl rc) none [.sslFree ssl, .close sock_client, .sslAccept ssl,
        .sslSetFd ssl sock_client, .sslNew ssl, .accept sock_client]
  | accepts (sock_client : Int) (ssl : Ssl) (rc : Int) :
      CallsOf s (.accept sock_client ssl rc) (some (.accepts sock_client))
        [.sslAccept ssl, .sslSetFd ssl sock_client, .sslNew ssl, .accept sock_client]
  | answers {incoming : Incoming} {time sent_bytes d : Int} {ssl : Ssl} (hbound : boundFd s.trace ssl = some d)
      (hkeep : Exchange.ends ⟨incoming, time, sent_bytes⟩ = false) :
      CallsOf s (.serve incoming time sent_bytes) (some (.iterates d ⟨incoming, time, sent_bytes⟩))
        [.sslWrite ssl (responseText time), .sslRead ssl]
  | closes {incoming : Incoming} {time sent_bytes d : Int} {ssl : Ssl} (hbound : boundFd s.trace ssl = some d)
      (hin : d ∈ held s) (hdrop : Exchange.ends ⟨incoming, time, sent_bytes⟩ = true) :
      CallsOf s (.serve incoming time sent_bytes) (some (.iterates d ⟨incoming, time, sent_bytes⟩))
        [.sslFree ssl, .close d, .sslRead ssl]
  | passes : CallsOf s .tau none []

/-- What the clean-up closes are the listening socket and the connections. -/
theorem mem_cleanUp_close_iff (hs : TableInv base s) (hrun : s.phase ≠ .exited) (hpos : ∀ d ∈ held s, 0 < d)
    {d : Int} : Call.close d ∈ newCalls s (cleanUp s) ↔ d = s.sock_server ∨ d ∈ held s := by
  rw [mem_cleanUp_close]
  by_cases hsock : d = s.sock_server
  · exact iff_of_true (.inl hsock) (.inl hsock)
  · refine or_congr_right ⟨?_, fun hd => ?_⟩
    · rintro ⟨p, hp, hpositive, rfl⟩
      refine (mem_held hrun).mpr ⟨?_, hsock⟩
      obtain ⟨i, hlt, hi⟩ := List.getElem_of_mem hp
      have hget : s.fds.get? i = some p := List.getElem?_eq_some_iff.mpr ⟨hlt, hi⟩
      refine PollArray.mem_slots.mpr ⟨i, p, Nat.not_le.mp fun hfree => ?_, hget, rfl⟩
      -- a free slot has the descriptor -1
      obtain ⟨q, hq, hneg, -⟩ := hs.vacant i hfree (s.fds.size_eq ▸ hlt)
      rw [hget] at hq
      cases hq
      omega
    · obtain ⟨i, p, -, hp, rfl⟩ := PollArray.mem_slots.mp ((mem_held hrun).mp hd).1
      exact ⟨p, List.mem_of_getElem? hp, hpos _ hd, rfl⟩

/-- **The calls of a step** are those of its turn. -/
theorem calls_of_step {e : TlsEvent} (hs : TableInv base s) (hrun : s.phase ≠ .exited)
    (hpos : ∀ d ∈ held s, 0 < d) (hfresh : Fresh base s e.answer) (h : tlsStep s e = some t) :
    CallsOf s e (turn s e) (newCalls s t) := by
  have hstep := Step.of_step hs.inRange h
  rcases e with ⟨activity, revents⟩ | ⟨sock_client, ssl, rc⟩ | ⟨incoming, time, sent_bytes⟩ | _
  · rcases hstep with ⟨-, hact⟩ | ⟨-, hact⟩
    · rw [turn, if_pos hact]
      exact .quits fun d => mem_cleanUp_close_iff hs hrun hpos
    · rw [turn, if_neg (Int.not_le.mpr hact), newCalls_eq [_] rfl]
      exact .polls _
  · rcases hstep with _ | _ | ⟨-, -, -, -, -, hno⟩ | ⟨-, -, -, -, -, hpositive, -, hrc⟩ |
      ⟨-, -, -, -, -, hpositive, hroom, hrc⟩
    · rw [turn, if_neg (by omega), newCalls_eq [_] rfl]
      exact .turnsAway _ _ _
    · rw [turn, if_neg (by omega), newCalls_eq [_, _, _, _, _, _] rfl]
      exact .handshakeFails hrc fun hin => hfresh.1 hpositive.le (hs.isOpen _ ((mem_held hrun).mp hin).1)
    · rw [turn, if_pos ⟨hpositive, hroom, hrc⟩, newCalls_eq [_, _, _, _] rfl]
      exact .accepts _ _ _
  · rcases hstep with _ | _ | _ | _ | _ | ⟨hphase, hlt, hp, -, -, hssl, hkeep⟩ |
      ⟨hphase, hlt, hp, -, hclient, hssl, hdrop, -, -⟩
    · obtain ⟨hbound, hturn⟩ := turn_of_serve hs hphase hlt hp hssl
      rw [hturn, newCalls_eq [_, _] rfl]
      exact .answers hbound hkeep
    · obtain ⟨hbound, hturn⟩ := turn_of_serve hs hphase hlt hp hssl
      rw [hturn, newCalls_eq [_, _, _] rfl]
      exact .closes hbound (mem_held_of_get? hrun hlt hp hclient) hdrop
  · have hnone : newCalls s t = [] := by
      rcases hstep with _ | _ | _ | _ | _ | _ | _ | _ | _
      · exact newCalls_eq [] rfl
      · exact newCalls_eq [] rfl
    rw [hnone]
    exact .passes

section CallsOf

variable {e : TlsEvent} {turn' : Option (Turn Int Exchange)} {calls : List Call} {d : Int}

/-- **A connection is closed exactly when the turn ends it**: by the iteration for it or in the clean-up. -/
theorem CallsOf.close_mem_iff (h : CallsOf s e turn' calls) (hd : d ∈ held s) :
    Call.close d ∈ calls ↔ Ends d turn' := by
  cases h with
  | quits hclose => exact iff_of_true ((hclose d).mpr (.inr hd)) trivial
  | handshakeFails hrc hnew =>
      have hne := ne_of_mem_of_not_mem hd hnew
      simp [Ends, hne]
  | answers hbound hkeep => simp [Ends, hkeep]
  | closes hbound hin hdrop => simp [Ends, hdrop, eq_comm]
  | polls | turnsAway | accepts | passes => simp [Ends]

/-- Besides connections, the server closes the listening socket at the end, and clients that fail their
handshake. -/
theorem CallsOf.close_cases (h : CallsOf s e turn' calls) (hclose : Call.close d ∈ calls) :
    d ∈ held s ∨ (turn' = some .quits ∧ d = s.sock_server) ∨ ∃ ssl rc, e = .accept d ssl rc ∧ rc ≤ 0 := by
  cases h with
  | quits hcloses => exact ((hcloses d).mp hclose).elim (fun hsock => .inr (.inl ⟨rfl, hsock⟩)) .inl
  | @handshakeFails sock_client ssl rc hrc hnew =>
      obtain rfl : d = sock_client := by simpa using hclose
      exact .inr (.inr ⟨ssl, rc, rfl, hrc⟩)
  | @closes incoming time sent_bytes d' ssl hbound hin hdrop =>
      obtain rfl : d = d' := by simpa using hclose
      exact .inl hin
  | polls | turnsAway | accepts | answers | passes => simp at hclose

end CallsOf

end Obeys

/-- What holds of the loop: it has returned, or the arrays are in step and the clean-up would close every
connection. -/
def Running (base : Finset Int) (s : State) : Prop :=
  s.phase = .exited ∨ TableInv base s ∧ ∀ d ∈ held s, 0 < d

theorem not_step_of_exited {s t : State} {e : TlsEvent} (hexit : s.phase = .exited) : tlsStep s e ≠ some t := by
  intro h
  simp only [tlsStep, step, hexit] at h
  cases h

/-- A step is one of a running loop. -/
theorem Running.of_step {base : Finset Int} {s t : State} {e : TlsEvent} (hs : Running base s)
    (h : tlsStep s e = some t) : s.phase ≠ .exited ∧ TableInv base s ∧ ∀ d ∈ held s, 0 < d := by
  have hrun : s.phase ≠ .exited := fun hexit => not_step_of_exited hexit h
  exact ⟨hrun, hs.resolve_left hrun⟩

/-- **The step lemma.** -/
theorem Running.next {base : Finset Int} {s t : State} {e : TlsEvent} (hs : Running base s)
    (hfresh : FreshTls base s e) (h : tlsStep s e = some t) : Running base t := by
  obtain ⟨hrun, htable, hpos⟩ := hs.of_step h
  rcases htable.of_step hfresh h with hexit | htable'
  · exact .inl hexit
  · exact .inr ⟨htable', pos_of_step htable hrun hfresh h hpos⟩

theorem held_init (sock_server : Int) (ssl : Ssl) : held (init sock_server ssl) = ∅ := by
  show (List.toFinset [sock_server]).erase sock_server = ∅
  simp

/-- **The TLS server**: `accept` returns descriptors that are not open, `SSL_new` objects that are not live. -/
def server (others : Finset Int) (sock_server : Int) (ssl : Ssl) :
    Server State TlsEvent Int Exchange (fun _ => True) Exchange.ends where
  step := tlsStep
  ok := FreshTls (insert sock_server others)
  start := init sock_server ssl
  turn := turn
  held := held
  Inv := Running (insert sock_server others)
  inv_start := by
    refine .inr ⟨TableInv.init others sock_server ssl, fun d hd => ?_⟩
    rw [held_init] at hd
    exact absurd hd (Finset.notMem_empty d)
  held_start := held_init sock_server ssl
  inv_step hs hok hstep := hs.next hok hstep
  obeys hs hok hstep := obeys_of_step (hs.of_step hstep).2.1 (hs.of_step hstep).1 hok hstep

instance (others : Finset Int) (sock_server : Int) (ssl : Ssl) (s : State) (e : TlsEvent) :
    Decidable ((server others sock_server ssl).ok s e) :=
  inferInstanceAs (Decidable (FreshTls (insert sock_server others) s e))

end LinuxNet.Openssl.SslServer
