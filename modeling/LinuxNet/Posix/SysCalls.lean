/-
# LinuxNet.Posix.SysCalls — the calls the programs make, as seen by what they hand out and take back

`getaddrinfo` hands out a list of addresses, `socket` a descriptor, `SSL_CTX_new` a context and `SSL_new` a
TLS object; `freeaddrinfo`, `close`, `SSL_CTX_free` and `SSL_free` take them back (`Call.op`). Every other
call needs some of them (`Call.uses`). A program is one of `Lib.Calls` over these calls. What an address looks
like does not matter to any of the programs.
-/
import LinuxNet.Lib.Calls
import LinuxNet.Posix.Recv

namespace LinuxNet.Posix

open LinuxNet.Lib LinuxNet.Lib.FdLedger LinuxNet.Lib.Calls

/-! ## The calls -/

/-- The list `getaddrinfo` has made: a name for it, and its addresses, of which there is at least one. -/
structure AddrInfo (A : Type) where
  name : ℕ
  first : A
  more : List A

/-- The addresses from `p = addr_server` to the one with `p->ai_next == NULL`. -/
def AddrInfo.addrs {A : Type} (list : AddrInfo A) : List A := list.first :: list.more

/-- What is handed out. -/
inductive Resource where
  | list (name : ℕ)
  | sock (fd : Int)
  | context (name : ℕ)
  | ssl (name : ℕ)
  deriving DecidableEq, Repr

/-- A call with its arguments. -/
inductive Call (A : Type) where
  | getprotobyname (name : Bytes)
  | getaddrinfo (host : Option Bytes) (service : Bytes)
  | socket (list : ℕ)
  | setsockopt (fd : Int)
  | getFl (fd : Int)
  | setFl (fd : Int) (flags : Int)
  | bind (fd : Int) (list : ℕ) (addr : A)
  | listen (fd : Int)
  | connect (fd : Int) (list : ℕ) (addr : A)
  | fgets
  | time
  | wouldBlock
  | send (fd : Int) (bytes : Bytes)
  | recv (fd : Int)
  | sendto (fd : Int) (list : ℕ) (bytes : Bytes)
  | recvfrom (fd : Int) (list : ℕ)
  | freeaddrinfo (list : ℕ)
  | close (fd : Int)
  | sslCtxNew
  | sslCtxUseFile (context : ℕ) (file : Bytes)
  | sslCtxFree (context : ℕ)
  | sslNew (context : ℕ)
  | sslSetFd (ssl : ℕ) (fd : Int)
  | sslConnect (ssl : ℕ)
  | sslWrite (ssl : ℕ) (bytes : Bytes)
  | sslRead (ssl : ℕ) (num : ℕ)
  | sslShutdown (ssl : ℕ)
  | sslFree (ssl : ℕ)

/-- What a call is answered with; `wouldBlock` is whether `errno` is `EAGAIN` or `EWOULDBLOCK`. -/
def Call.Answer {A : Type} : Call A → Type
  | .getprotobyname _ | .wouldBlock => Bool
  | .getaddrinfo _ _ => Option (AddrInfo A)
  | .socket _ | .setsockopt _ | .getFl _ | .setFl _ _ | .bind _ _ _ | .listen _ | .connect _ _ _ | .time
  | .send _ _ | .sendto _ _ _ | .sslCtxUseFile _ _ | .sslConnect _ | .sslWrite _ _ => Int
  | .fgets => Bytes
  | .recv _ | .recvfrom _ _ | .sslRead _ _ => Received
  | .sslCtxNew | .sslNew _ => Option ℕ
  | .freeaddrinfo _ | .close _ | .sslCtxFree _ | .sslSetFd _ _ | .sslShutdown _ | .sslFree _ => Unit

/-- A program over an address type. -/
abbrev Program (A : Type) : Type → Type := Calls (Call A) Call.Answer

/-- A call and its answer. -/
abbrev Answered (A : Type) : Type := Done (Call A) Call.Answer

section Wrappers

variable {A : Type}

def getprotobyname (name : Bytes) : Program A Bool := perform (Call.getprotobyname name)
def getaddrinfo (host : Option Bytes) (service : Bytes) : Program A (Option (AddrInfo A)) :=
  perform (Call.getaddrinfo host service)
def socket (list : AddrInfo A) : Program A Int := perform (Call.socket list.name)
def setsockopt (fd : Int) : Program A Int := perform (Call.setsockopt fd)
def getFl (fd : Int) : Program A Int := perform (Call.getFl fd)
def setFl (fd flags : Int) : Program A Int := perform (Call.setFl fd flags)
def bind (fd : Int) (list : AddrInfo A) (addr : A) : Program A Int := perform (Call.bind fd list.name addr)
def listen (fd : Int) : Program A Int := perform (Call.listen fd)
def connect (fd : Int) (list : AddrInfo A) (addr : A) : Program A Int :=
  perform (Call.connect fd list.name addr)
def fgets : Program A Bytes := perform Call.fgets
def time : Program A Int := perform Call.time
def wouldBlock : Program A Bool := perform Call.wouldBlock
def send (fd : Int) (bytes : Bytes) : Program A Int := perform (Call.send fd bytes)
def recv (fd : Int) : Program A Received := perform (Call.recv fd)
def sendto (fd : Int) (list : AddrInfo A) (bytes : Bytes) : Program A Int :=
  perform (Call.sendto fd list.name bytes)
def recvfrom (fd : Int) (list : AddrInfo A) : Program A Received := perform (Call.recvfrom fd list.name)
def freeaddrinfo (list : AddrInfo A) : Program A Unit := perform (Call.freeaddrinfo list.name)
def close (fd : Int) : Program A Unit := perform (Call.close fd)
def sslCtxNew : Program A (Option ℕ) := perform Call.sslCtxNew
def sslCtxUseFile (context : ℕ) (file : Bytes) : Program A Int := perform (Call.sslCtxUseFile context file)
def sslCtxFree (context : ℕ) : Program A Unit := perform (Call.sslCtxFree context)
def sslNew (context : ℕ) : Program A (Option ℕ) := perform (Call.sslNew context)
def sslSetFd (ssl : ℕ) (fd : Int) : Program A Unit := perform (Call.sslSetFd ssl fd)
def sslConnect (ssl : ℕ) : Program A Int := perform (Call.sslConnect ssl)
def sslWrite (ssl : ℕ) (bytes : Bytes) : Program A Int := perform (Call.sslWrite ssl bytes)
def sslRead (ssl : ℕ) (num : ℕ) : Program A Received := perform (Call.sslRead ssl num)
def sslShutdown (ssl : ℕ) : Program A Unit := perform (Call.sslShutdown ssl)
def sslFree (ssl : ℕ) : Program A Unit := perform (Call.sslFree ssl)

end Wrappers

/-! ## What is handed out and taken back -/

section Names

variable {A : Type}

/-- What a call does to the names. -/
def op : Answered A → Option (FdOp Resource)
  | ⟨.getaddrinfo _ _, r⟩ => (show Option (AddrInfo A) from r).map fun list => .opened (.list list.name)
  | ⟨.socket _, r⟩ => if (show Int from r) < 0 then none else some (.opened (.sock r))
  | ⟨.sslCtxNew, r⟩ => (show Option ℕ from r).map fun context => .opened (.context context)
  | ⟨.sslNew _, r⟩ => (show Option ℕ from r).map fun ssl => .opened (.ssl ssl)
  | ⟨.freeaddrinfo list, _⟩ => some (.closed (.list list))
  | ⟨.close fd, _⟩ => some (.closed (.sock fd))
  | ⟨.sslCtxFree context, _⟩ => some (.closed (.context context))
  | ⟨.sslFree ssl, _⟩ => some (.closed (.ssl ssl))
  | _ => none

/-- The names a call needs. -/
def Call.uses : Call A → List Resource
  | .socket list | .freeaddrinfo list => [.list list]
  | .setsockopt fd | .getFl fd | .setFl fd _ | .listen fd | .send fd _ | .recv fd | .close fd => [.sock fd]
  | .bind fd list _ | .connect fd list _ | .sendto fd list _ | .recvfrom fd list => [.sock fd, .list list]
  | .sslCtxUseFile context _ | .sslCtxFree context | .sslNew context => [.context context]
  | .sslSetFd ssl fd => [.ssl ssl, .sock fd]
  | .sslConnect ssl | .sslWrite ssl _ | .sslRead ssl _ | .sslShutdown ssl | .sslFree ssl => [.ssl ssl]
  | .getprotobyname _ | .getaddrinfo _ _ | .fgets | .time | .wouldBlock | .sslCtxNew => []

/-- A call is in order if what it needs is open. -/
def Call.Needs (c : Call A) (opened : Finset Resource) : Prop := ∀ n ∈ c.uses, n ∈ opened

theorem needs_of_uses_nil {c : Call A} (huses : c.uses = []) (opened : Finset Resource) : c.Needs opened := by
  intro n hn
  rw [huses] at hn
  cases hn

theorem needs_of_uses_singleton {c : Call A} {n : Resource} {opened : Finset Resource} (huses : c.uses = [n])
    (hn : n ∈ opened) : c.Needs opened := by
  intro n' hn'
  rw [huses, List.mem_singleton] at hn'
  rwa [hn']

end Names

/-! ## What a call does to the names held -/

section Specs

variable {A : Type}

/-- What is handed out is not in use. -/
abbrev Fresh (trace : List (Answered A)) (d : Answered A) : Prop := HandsOutFresh op trace d

/-- The names in `held` are those that are open, and every call was in order. -/
abbrev Has (may : Call A → Finset Resource → Prop) (held : Finset Resource)
    (trace : List (Answered A)) : Prop :=
  Holds op may held trace

variable {may : Call A → Finset Resource → Prop} {held : Finset Resource} {trace : List (Answered A)}
  {c : Call A}

theorem wp_freeaddrinfo {list : AddrInfo A} {Q : Unit → List (Answered A) → Prop}
    (h : Has may (insert (.list list.name) held) trace) (hn : .list list.name ∉ held)
    (hmay : may (.freeaddrinfo list.name) (insert (.list list.name) held))
    (hQ : ∀ t, Has may held t → Q () t) : wp Fresh (freeaddrinfo list) Q trace :=
  wp_takesBack h hn (fun _ => rfl) hmay fun _ => hQ _

theorem wp_close {fd : Int} {Q : Unit → List (Answered A) → Prop} (h : Has may (insert (.sock fd) held) trace)
    (hn : .sock fd ∉ held) (hmay : may (.close fd) (insert (.sock fd) held))
    (hQ : ∀ t, Has may held t → Q () t) : wp Fresh (close fd) Q trace :=
  wp_takesBack h hn (fun _ => rfl) hmay fun _ => hQ _

theorem wp_getaddrinfo {host : Option Bytes} {service : Bytes}
    {Q : Option (AddrInfo A) → List (Answered A) → Prop} (h : Has may held trace)
    (hmay : may (.getaddrinfo host service) held)
    (hnone : Has may held (⟨.getaddrinfo host service, none⟩ :: trace) →
      Q none (⟨.getaddrinfo host service, none⟩ :: trace))
    (hsome : ∀ list : AddrInfo A, .list list.name ∉ held →
      Has may (insert (.list list.name) held) (⟨.getaddrinfo host service, some list⟩ :: trace) →
      Q (some list) (⟨.getaddrinfo host service, some list⟩ :: trace)) :
    wp Fresh (getaddrinfo host service) Q trace :=
  wp_makes (fun list => .list list.name) (fun r => ⟨.getaddrinfo host service, r⟩) .rfl (fun _ hd => hd)
    (fun _ => rfl) h
    (fun _ => hmay) hnone hsome

theorem wp_sslCtxNew {Q : Option ℕ → List (Answered A) → Prop} (h : Has may held trace)
    (hmay : may .sslCtxNew held)
    (hnone : Has may held (⟨.sslCtxNew, none⟩ :: trace) → Q none (⟨.sslCtxNew, none⟩ :: trace))
    (hsome : ∀ context, .context context ∉ held →
      Has may (insert (.context context) held) (⟨.sslCtxNew, some context⟩ :: trace) →
      Q (some context) (⟨.sslCtxNew, some context⟩ :: trace)) : wp Fresh sslCtxNew Q trace :=
  wp_makes .context (fun r => ⟨.sslCtxNew, r⟩) .rfl (fun _ hd => hd) (fun _ => rfl) h (fun _ => hmay)
    hnone hsome

theorem wp_sslNew {context : ℕ} {Q : Option ℕ → List (Answered A) → Prop} (h : Has may held trace)
    (hmay : may (.sslNew context) held)
    (hnone : Has may held (⟨.sslNew context, none⟩ :: trace) → Q none (⟨.sslNew context, none⟩ :: trace))
    (hsome : ∀ ssl, .ssl ssl ∉ held → Has may (insert (.ssl ssl) held) (⟨.sslNew context, some ssl⟩ :: trace) →
      Q (some ssl) (⟨.sslNew context, some ssl⟩ :: trace)) : wp Fresh (sslNew context) Q trace :=
  wp_makes .ssl (fun r => ⟨.sslNew context, r⟩) .rfl (fun _ hd => hd) (fun _ => rfl) h (fun _ => hmay)
    hnone hsome

/-- `socket` hands out a descriptor or fails. -/
theorem wp_socket {list : AddrInfo A} {Q : Int → List (Answered A) → Prop} (h : Has may held trace)
    (hmay : may (.socket list.name) held)
    (hfail : ∀ fd : Int, fd < 0 → Has may held (⟨.socket list.name, fd⟩ :: trace) →
      Q fd (⟨.socket list.name, fd⟩ :: trace))
    (hmade : ∀ fd : Int, ¬ fd < 0 → .sock fd ∉ held →
      Has may (insert (.sock fd) held) (⟨.socket list.name, fd⟩ :: trace) →
      Q fd (⟨.socket list.name, fd⟩ :: trace)) : wp Fresh (socket list) Q trace := by
  intro (fd : Int) hfresh
  by_cases hneg : fd < 0
  · exact hfail fd hneg (h.plain (if_pos hneg) hmay)
  · have hop : op (⟨.socket list.name, fd⟩ : Answered A) = some (.opened (.sock fd)) := if_neg hneg
    obtain ⟨hnew, hhas⟩ := h.acquire hop hfresh hmay
    exact hmade fd hneg hnew hhas

/-- **`Keeps may held p`** — with the names in `held` the program `p` is in order, and it has them still when it
returns. -/
abbrev Keeps {α : Type} (may : Call A → Finset Resource → Prop) (held : Finset Resource)
    (p : Program A α) : Prop :=
  Retains Fresh op may held p

end Specs

/-! ## Loops over the addresses -/

section Addresses

variable {A : Type}

/-- `for (p = addr_server; p != NULL; p = p->ai_next)` until `attempt` answers 0: the last value of `rc`. -/
def tryAll (attempt : A → Program A Int) : Int → List A → Program A Int
  | rc, [] => pure rc
  | _, p :: ps => do
    let rc ← attempt p
    if rc = 0 then return rc
    tryAll attempt rc ps

/-- `set_non_blocking`. -/
def setNonBlocking (fd : Int) : Program A Unit := do
  let flags ← getFl fd
  if flags = -1 then return ()
  let _rc ← setFl fd flags
  return ()

variable {may : Call A → Finset Resource → Prop} {held : Finset Resource}

theorem keeps_tryAll {attempt : A → Program A Int} (hattempt : ∀ a, Keeps may held (attempt a)) (rc : Int)
    (ps : List A) : Keeps may held (tryAll attempt rc ps) := by
  induction ps generalizing rc with
  | nil => exact retains_pure rc
  | cons p ps ih => exact (hattempt p).bind fun rc => .ite (retains_pure rc) (ih rc)

theorem keeps_setNonBlocking {fd : Int} (hget : may (.getFl fd) held)
    (hset : ∀ flags, may (.setFl fd flags) held) :
    Keeps may held (setNonBlocking (A := A) fd) := by
  have hgetFl : Keeps may held (getFl (A := A) fd) := retains_plain (fun _ => rfl) hget
  have hsetFl : ∀ flags, Keeps may held (setFl (A := A) fd flags) :=
    fun flags => retains_plain (fun _ => rfl) (hset flags)
  exact hgetFl.bind fun flags => .ite (retains_pure ()) ((hsetFl flags).bind fun _ => retains_pure ())

end Addresses

end LinuxNet.Posix
