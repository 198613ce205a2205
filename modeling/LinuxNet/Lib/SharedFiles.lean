/-
# LinuxNet.Lib.SharedFiles — several writers, each with a file and a text to put into it

A writer opens a file, which empties it, and then writes its text into it piece by piece, each piece behind the
one before, whatever others do with the file meanwhile. Nothing keeps two writers from opening the same file.

`Holds` is what stays true in any order of steps: a writer that shares its file with nobody finds in it what it
has written so far. It is kept when a file is opened (`Holds.create`) and when a piece is written
(`Holds.write`), also by writers that do share; and the text of a writer without a file may change
(`Holds.congr`).
-/
import Mathlib.Data.List.TakeDrop
import Mathlib.Data.Nat.Notation
import Mathlib.Logic.Function.Basic

namespace LinuxNet.Lib

variable {κ ι β : Type*} [DecidableEq κ] [DecidableEq ι]

/-! ## Writing into a file -/

/-- A file after `piece` was written at `n`; behind its end it is filled up with `gap`. -/
def overlay (gap : β) (file : List β) (n : ℕ) (piece : List β) : List β :=
  file.take n ++ List.replicate (n - file.length) gap ++ piece ++ file.drop (n + piece.length)

/-- At the end of a file the piece is appended. -/
theorem overlay_length (gap : β) {file : List β} {n : ℕ} (hn : file.length = n) (piece : List β) :
    overlay gap file n piece = file ++ piece := by
  rw [overlay, ← hn, List.take_length, Nat.sub_self, List.replicate_zero, List.append_nil,
    List.drop_eq_nil_of_le (Nat.le_add_right _ _), List.append_nil]

/-- A piece of a text ends where the text ends, or before. -/
theorem piece_length_le (text : List β) (n m : ℕ) : ((text.drop n).take m).length ≤ text.length - n := by
  rw [← List.length_drop]
  exact List.length_take_le' _ _

/-! ## Writers -/

/-- The writers and the files. -/
structure Desk (κ ι β : Type*) where
  /-- the file a writer has opened, and how much of its text it has written -/
  place : κ → Option (ι × ℕ)
  files : ι → List β

namespace Desk

/-- Writer `k` opens the file `f`. -/
def create (d : Desk κ ι β) (k : κ) (f : ι) : Desk κ ι β where
  place := Function.update d.place k (some (f, 0))
  files := Function.update d.files f []

/-- Writer `k`, which has written `n`, writes `piece`. -/
def write (gap : β) (d : Desk κ ι β) (k : κ) (f : ι) (n : ℕ) (piece : List β) : Desk κ ι β where
  place := Function.update d.place k (some (f, n + piece.length))
  files := Function.update d.files f (overlay gap (d.files f) n piece)

/-- Writer `k` has opened the file `f`. -/
def Uses (d : Desk κ ι β) (k : κ) (f : ι) : Prop := ∃ n, d.place k = some (f, n)

/-- Nobody but `k` has opened the file `f`. -/
def Alone (d : Desk κ ι β) (k : κ) (f : ι) : Prop := ∀ k', d.Uses k' f → k' = k

/-- **`d.Holds text`** — whoever has a file alone finds in it what it has written so far. -/
def Holds (text : κ → List β) (d : Desk κ ι β) : Prop :=
  ∀ k f n, d.place k = some (f, n) → n ≤ (text k).length ∧ (d.Alone k f → d.files f = (text k).take n)

variable {text text' : κ → List β} {d d' : Desk κ ι β} {k : κ} {f : ι} {n : ℕ}

omit [DecidableEq κ] [DecidableEq ι] in
/-- The text of a writer that has no file does not matter. -/
theorem Holds.congr (hs : d.Holds text) (hsame : ∀ k f n, d.place k = some (f, n) → text' k = text k) :
    d.Holds text' := by
  intro k f n hplace
  rw [hsame k f n hplace]
  exact hs k f n hplace

/-! A step of a writer: it takes the place of `k` in the file `f`, which has another content then. -/

section Step

variable {m : ℕ} {content : List β} (hplace : d'.place = Function.update d.place k (some (f, m)))
  (hfiles : d'.files = Function.update d.files f content) (hsame : ∀ g n, d.place k = some (g, n) → g = f)
include hplace

omit [DecidableEq ι] in
theorem place_self : d'.place k = some (f, m) := by
  rw [hplace]
  exact Function.update_self ..

include hsame

omit [DecidableEq ι] in
/-- Nobody gives up a file. -/
theorem Uses.of_step {j : κ} {g : ι} (h : d.Uses j g) : d'.Uses j g := by
  obtain ⟨n, hj⟩ := h
  by_cases hjk : j = k
  · subst hjk
    obtain rfl := hsame g n hj
    exact ⟨m, place_self hplace⟩
  · refine ⟨n, ?_⟩
    rw [hplace, Function.update_of_ne hjk, hj]

include hfiles

/-- The others find in their files what they found there. -/
theorem Holds.others (hs : d.Holds text) {j : κ} (hjk : j ≠ k) {g : ι} (hj : d'.place j = some (g, n)) :
    n ≤ (text j).length ∧ (d'.Alone j g → d'.files g = (text j).take n) := by
  rw [hplace, Function.update_of_ne hjk] at hj
  obtain ⟨hle, hholds⟩ := hs j g n hj
  refine ⟨hle, fun halone => ?_⟩
  have hgf : g ≠ f := by
    rintro rfl
    exact hjk (halone k ⟨m, place_self hplace⟩).symm
  rw [hfiles, Function.update_of_ne hgf]
  exact hholds fun k' hk' => halone k' (hk'.of_step hplace hsame)

end Step

/-- **A file is opened**: whoever had it does not have it alone any more. -/
theorem Holds.create (hs : d.Holds text) (hnew : d.place k = none) (f : ι) : (d.create k f).Holds text := by
  have hnone : ∀ g n, d.place k = some (g, n) → g = f := by
    intro g n hno
    rw [hnew] at hno
    cases hno
  intro j g n hj
  by_cases hjk : j = k
  · subst hjk
    have hself : (d.create j f).place j = some (f, 0) := Function.update_self ..
    rw [hself] at hj
    cases hj
    refine ⟨Nat.zero_le _, fun _ => ?_⟩
    rw [List.take_zero]
    exact Function.update_self ..
  · exact hs.others rfl rfl hnone hjk hj

/-- **A piece is written** behind what its writer has written. -/
theorem Holds.write (gap : β) (hs : d.Holds text) (hplace : d.place k = some (f, n)) (m : ℕ) :
    (d.write gap k f n (((text k).drop n).take m)).Holds text := by
  set piece := ((text k).drop n).take m with hpiece
  have hsame : ∀ g n', d.place k = some (g, n') → g = f := by
    intro g n' hg
    rw [hplace] at hg
    cases hg
    rfl
  intro j g n' hj
  by_cases hjk : j = k
  · subst hjk
    have hself : (d.write gap j f n piece).place j = some (f, n + piece.length) := Function.update_self ..
    rw [hself] at hj
    cases hj
    obtain ⟨hle, hholds⟩ := hs j f n hplace
    have hroom : piece.length ≤ (text j).length - n := piece_length_le (text j) n m
    refine ⟨by omega, fun halone => ?_⟩
    have hfile := hholds fun k' hk' => halone k' (hk'.of_step rfl hsame)
    have hlen : (d.files f).length = n := by rw [hfile, List.length_take_of_le hle]
    have hwritten : (d.write gap j f n piece).files f = overlay gap (d.files f) n piece :=
      Function.update_self ..
    have hprefix : piece = ((text j).drop n).take piece.length := by
      rw [hpiece, List.length_take, ← List.take_eq_take_min]
    rw [hwritten, overlay_length gap hlen, hfile, List.take_add, ← hprefix]
  · exact hs.others rfl rfl hsame hjk hj

end Desk

end LinuxNet.Lib
