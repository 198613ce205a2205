/-
# LinuxNet.Posix.PollFd — arrays of `struct pollfd` and what `poll` writes into them

The poll-based servers keep their connections in an array `struct pollfd fds[cap]` of which the first
`nfds` cells are the table. `PollArray cap` is such an array: the number of cells is part of the type,
so a cell beyond the end cannot be read or written, and `get?` says so.

`poll(fds, nfds, …)` overwrites `revents` in the first `nfds` cells and nothing else (`report`). What
it leaves in the later cells, and what a program leaves in `revents` when it moves a descriptor to
another cell, is exactly what the properties of these servers turn on.
-/
import Mathlib.Order.Defs.LinearOrder
import Mathlib.Order.Nat
import LinuxNet.Lib.SwapRemove

namespace LinuxNet.Posix

open LinuxNet.Lib

/-- `struct pollfd`. -/
structure PollFd where
  fd : Int
  events : BitVec 16
  revents : BitVec 16
  deriving DecidableEq, Repr

/-- `POLLIN`. -/
def pollIn : BitVec 16 := 1#16

/-- The test `revents & POLLIN` every server makes. -/
def hasPollIn (revents : BitVec 16) : Bool := revents &&& pollIn != 0#16

def PollFd.readable (p : PollFd) : Bool := hasPollIn p.revents

/-- **`PollArray cap`** — an array `struct pollfd fds[cap]`. -/
structure PollArray (cap : ℕ) where
  cells : List PollFd
  size_eq : cells.length = cap

namespace PollArray

variable {cap : ℕ}

/-- An array with the same cell everywhere. -/
def filled (p : PollFd) : PollArray cap := ⟨List.replicate cap p, List.length_replicate⟩

/-- Cell `i`; `none` beyond the end. -/
def get? (a : PollArray cap) (i : ℕ) : Option PollFd := a.cells[i]?

/-- Rewrite cell `i`. -/
def modify (a : PollArray cap) (i : ℕ) (f : PollFd → PollFd) : PollArray cap :=
  ⟨a.cells.modify i f, by simp [a.size_eq]⟩

/-- `poll` reports `revents i` for each of the first `n` cells. -/
def report (a : PollArray cap) (n : ℕ) (revents : ℕ → BitVec 16) : PollArray cap :=
  ⟨a.cells.mapIdx fun i p => if i < n then { p with revents := revents i } else p,
    by simp [a.size_eq]⟩

/-- The descriptors of the first `n` cells: the connection table. -/
def slots (a : PollArray cap) (n : ℕ) : List Int := (a.cells.take n).map PollFd.fd

/-- The descriptors among the first `n` cells whose `revents` has `POLLIN`. -/
def readyFds (a : PollArray cap) (n : ℕ) : List Int :=
  ((a.cells.take n).filter PollFd.readable).map PollFd.fd

/-! ## Reading cells -/

theorem exists_get? (a : PollArray cap) {i : ℕ} (hi : i < cap) : ∃ p, a.get? i = some p := by
  have hlen : i < a.cells.length := by rw [a.size_eq]; exact hi
  exact ⟨a.cells[i], List.getElem?_eq_getElem hlen⟩

theorem get?_modify (a : PollArray cap) (i : ℕ) (f : PollFd → PollFd) (j : ℕ) :
    (a.modify i f).get? j = if i = j then (a.get? j).map f else a.get? j := by
  simp only [get?, modify, List.getElem?_modify]
  split <;> simp

@[simp] theorem get?_modify_self (a : PollArray cap) (i : ℕ) (f : PollFd → PollFd) :
    (a.modify i f).get? i = (a.get? i).map f := by simp [get?_modify]

theorem get?_modify_ne (a : PollArray cap) {i j : ℕ} (f : PollFd → PollFd) (h : i ≠ j) :
    (a.modify i f).get? j = a.get? j := by simp [get?_modify, h]

theorem get?_report (a : PollArray cap) (n : ℕ) (revents : ℕ → BitVec 16) (j : ℕ) :
    (a.report n revents).get? j =
      (a.get? j).map fun p => if j < n then { p with revents := revents j } else p := by
  simp [get?, report]

/-! ## The table through its operations -/

theorem length_slots (a : PollArray cap) {n : ℕ} (hn : n ≤ cap) : (a.slots n).length = n := by
  simp [slots, a.size_eq, hn]

theorem getElem?_slots (a : PollArray cap) (n j : ℕ) :
    (a.slots n)[j]? = if j < n then (a.get? j).map PollFd.fd else none := by
  simp only [slots, get?, List.getElem?_map, List.getElem?_take]
  split <;> rfl

/-- Entry `i` of the table is the descriptor of cell `i`. -/
theorem slots_getElem {a : PollArray cap} {n i : ℕ} {p : PollFd} (hi : i < n) (hp : a.get? i = some p)
    (hlen : i < (a.slots n).length) : (a.slots n)[i] = p.fd := by
  apply Option.some.inj
  rw [← List.getElem?_eq_getElem hlen, getElem?_slots, if_pos hi, hp, Option.map_some]

theorem mem_slots {a : PollArray cap} {n : ℕ} {d : Int} :
    d ∈ a.slots n ↔ ∃ j p, j < n ∧ a.get? j = some p ∧ p.fd = d := by
  rw [List.mem_iff_getElem?]
  constructor
  · rintro ⟨j, hj⟩
    rw [getElem?_slots] at hj
    split at hj
    next hlt =>
      obtain ⟨p, hp, hfd⟩ := Option.map_eq_some_iff.mp hj
      exact ⟨j, p, hlt, hp, hfd⟩
    next => cases hj
  · rintro ⟨j, p, hlt, hp, rfl⟩
    exact ⟨j, by simp [getElem?_slots, hlt, hp]⟩

theorem mem_readyFds {a : PollArray cap} {n : ℕ} {d : Int} :
    d ∈ a.readyFds n ↔ ∃ j p, j < n ∧ a.get? j = some p ∧ p.readable = true ∧ p.fd = d := by
  constructor
  · intro h
    obtain ⟨p, hmem, hfd⟩ := List.mem_map.mp h
    obtain ⟨htake, hr⟩ := List.mem_filter.mp hmem
    obtain ⟨j, hj⟩ := List.mem_iff_getElem?.mp htake
    rw [List.getElem?_take] at hj
    split at hj
    next hlt => exact ⟨j, p, hlt, hj, hr, hfd⟩
    next => cases hj
  · rintro ⟨j, p, hlt, hp, hr, hfd⟩
    have htake : p ∈ a.cells.take n :=
      List.mem_iff_getElem?.mpr ⟨j, by rw [List.getElem?_take, if_pos hlt]; exact hp⟩
    exact List.mem_map.mpr ⟨p, List.mem_filter.mpr ⟨htake, hr⟩, hfd⟩

/-- `poll` moves no descriptor. -/
@[simp] theorem slots_report (a : PollArray cap) (n m : ℕ) (revents : ℕ → BitVec 16) :
    (a.report n revents).slots m = a.slots m := by
  apply List.ext_getElem?
  intro j
  simp only [getElem?_slots, get?_report, Option.map_map]
  congr 2
  funext p
  simp only [Function.comp_apply]
  split <;> rfl

/-- Rewriting a cell behind the table does not change it. -/
theorem slots_modify_of_le (a : PollArray cap) {n i : ℕ} (hi : n ≤ i) (f : PollFd → PollFd) :
    (a.modify i f).slots n = a.slots n := by
  apply List.ext_getElem?
  intro j
  rw [getElem?_slots, getElem?_slots]
  split
  next hj => rw [get?_modify_ne a f (by omega)]
  next => rfl

/-- Writing `fd` in the first free cell appends to the table. -/
theorem slots_append (a : PollArray cap) {n : ℕ} (hn : n < cap) {f : PollFd → PollFd} {d : Int}
    (hf : ∀ p, (f p).fd = d) : (a.modify n f).slots (n + 1) = a.slots n ++ [d] := by
  apply List.ext_getElem?
  intro j
  rw [List.getElem?_append, length_slots a (Nat.le_of_lt hn), getElem?_slots, getElem?_slots, get?_modify]
  rcases lt_trichotomy j n with hj | rfl | hj
  · simp [hj, hj.ne', Nat.lt_succ_of_lt hj]
  · obtain ⟨p, hp⟩ := a.exists_get? hn
    simp [hp, hf]
  · have hout : ([d] : List Int)[j - n]? = none := List.getElem?_eq_none (by simp; omega)
    simp [show ¬ j < n + 1 by omega, show ¬ j < n by omega, hout]

/-- Copying the last descriptor into cell `i` and shortening the table removes entry `i`. -/
theorem slots_remove (a : PollArray cap) {n i : ℕ} (hn : n ≤ cap) (hi : i < n)
    {f : PollFd → PollFd} {p q : PollFd} (hp : a.get? i = some p) (hq : a.get? (n - 1) = some q)
    (hf : (f p).fd = q.fd) :
    (a.modify i f).slots (n - 1) = swapRemove (a.slots n) i :=
  map_take_modify_eq_swapRemove (by rw [a.size_eq]; exact hn) hi hp hq hf

/-- The table loses the removed descriptor and no other. -/
theorem mem_slots_remove {a : PollArray cap} {n i : ℕ} (hnodup : (a.slots n).Nodup) (hn : n ≤ cap)
    (hi : i < n) {f : PollFd → PollFd} {p q : PollFd} (hp : a.get? i = some p)
    (hq : a.get? (n - 1) = some q) (hf : (f p).fd = q.fd) {d : Int} :
    d ∈ (a.modify i f).slots (n - 1) ↔ d ∈ a.slots n ∧ d ≠ p.fd := by
  have hlen : i < (a.slots n).length := by
    rw [a.length_slots hn]
    exact hi
  rw [a.slots_remove hn hi hp hq hf, mem_swapRemove hnodup hlen, slots_getElem hi hp hlen]

/-- Every other descriptor stays in the table. -/
theorem mem_slots_remove_of_ne {a : PollArray cap} {n i : ℕ} (hn : n ≤ cap) (hi : i < n)
    {f : PollFd → PollFd} {p q : PollFd} (hp : a.get? i = some p) (hq : a.get? (n - 1) = some q)
    (hf : (f p).fd = q.fd) {d : Int} (hd : d ∈ a.slots n) (hne : d ≠ p.fd) :
    d ∈ (a.modify i f).slots (n - 1) := by
  have hlen : i < (a.slots n).length := by
    rw [a.length_slots hn]
    exact hi
  rw [(perm_cons_swapRemove hlen).mem_iff, slots_getElem hi hp hlen] at hd
  rw [a.slots_remove hn hi hp hq hf]
  exact (List.mem_cons.mp hd).resolve_left hne

/-- A table stays without repetition when a descriptor is appended that is not in it. -/
theorem nodup_slots_append {a : PollArray cap} {n : ℕ} (hnodup : (a.slots n).Nodup) (hn : n < cap)
    {f : PollFd → PollFd} {d : Int} (hf : ∀ p, (f p).fd = d) (hd : d ∉ a.slots n) :
    ((a.modify n f).slots (n + 1)).Nodup := by
  rw [a.slots_append hn hf, ← List.concat_eq_append]
  exact hnodup.concat hd

end PollArray

end LinuxNet.Posix
