/-
# LinuxNet.Tutorials.HttpRedirection.Frame — what is printed beyond a buffer

`sprintf` prints a name into `http_request` or `http_temp`, whatever its length, and a name that comes out of a
reply may be too long for them (`NamesFit`). `step` is the function as long as the names fit. `stepInFrame` is
the function whatever the names are: with a text that does not fit, `sprintf` writes behind the buffer, into
other variables, and anything may come of it.
-/
import LinuxNet.Tutorials.HttpRedirection.Buffers

namespace LinuxNet.Tutorials.HttpRedirection

open LinuxNet.Lib LinuxNet.Posix

/-- The texts the step prints fit into `http_temp` and `http_request`. -/
def NamesFit (s : State) : Event → Prop
  | .opens a => s.phase.NameFits a
  | .send _ | .recv _ _ => True

instance (s : State) : (e : Event) → Decidable (NamesFit s e)
  | .opens a => inferInstanceAs (Decidable (s.phase.NameFits a))
  | .send _ | .recv _ _ => isTrue trivial

/-- **One step of `perform_http_request`, whatever the names are.** `frame` is what becomes of the function when
a text is printed over what the compiler has put behind the buffer. -/
def stepInFrame (frame : State → Event → Option State) (s : State) (e : Event) : Option State :=
  if NamesFit s e then step s e else frame s e

section NamesFit

variable {frame : State → Event → Option State} {ok : State → Event → Prop} {s t : State} {es : List Event}

theorem stepInFrame_eq {e : Event} (hfit : NamesFit s e) : stepInFrame frame s e = step s e := if_pos hfit

/-- **As long as the names fit** nothing behind the buffers is touched: the runs are those of `step`. -/
theorem run_stepInFrame_iff (hok : ∀ s e, ok s e → NamesFit s e) :
    Run (stepInFrame frame) ok s es t ↔ Run step ok s es t := by
  constructor
  · refine fun h => h.transfer (I := fun _ => True) ?_ trivial
    intro s e t _ hallowed hst
    rw [stepInFrame_eq (hok s e hallowed)] at hst
    exact ⟨hallowed, hst, trivial⟩
  · refine fun h => h.transfer (I := fun _ => True) ?_ trivial
    intro s e t _ hallowed hst
    exact ⟨hallowed, (stepInFrame_eq (hok s e hallowed)).trans hst, trivial⟩

end NamesFit

/-! ## A debug build -/

/-- The four bytes of an `int`, lowest first. -/
def intBytes (n : ℕ) : Bytes := (List.range 4).map fun i => UInt8.ofNat (n / 256 ^ i)

/-- The `int` in some bytes, lowest first. -/
def ofIntBytes (bytes : Bytes) : ℕ := bytes.foldr (fun b n => b.toNat + 256 * n) 0

/-- Where `redirect_count` lies in a debug build, counted from the start of `http_request`. -/
def redirectCountAt : ℕ := 1028

/-- Where `response`, the pointer, lies. -/
def responseAt : ℕ := 1032

/-- `redirect_count`, after this text and its NUL have been printed into `http_request`. -/
def overwrittenCount (text : Bytes) (redirect_count : ℕ) : ℕ :=
  ofIntBytes (memcpy (intBytes redirect_count) ((text ++ [0]).drop redirectCountAt))

/-- **The frame of `perform_http_request` in a debug build**: a request that is too long for `http_request` is
printed over `redirect_count`. A request that reaches `response` is not followed here. -/
def debugFrame (s : State) (e : Event) : Option State :=
  (step s e).bind fun t =>
    match t.phase with
    | .sending c http_sent_bytes =>
      if c.httpRequest.length < responseAt then
        some { t with
          phase := .sending { c with redirect_count := overwrittenCount c.httpRequest c.redirect_count }
            http_sent_bytes }
      else none
    | .calling _ _ _ | .receiving _ _ | .returned _ => none

end LinuxNet.Tutorials.HttpRedirection
