/-
The frontend of a schedule: where input comes from and pictures go.

At a poll the frontend gives its pending requests, in order. Keys go to the
machine, a stop is honoured before the next turn of the loop, and a request to
quit ends the poll, with whatever stands behind it. A key that does not exist ends
the poll as an error.
-/
import ChipEight.Machine

set_option autoImplicit false

namespace ChipEight

/-- What a frontend may ask for. -/
inductive Request where
  | press (key : Int)
  | release (key : Int)
  | releaseAll
  /-- End the run before the next turn. -/
  | stop
  /-- End the run now. -/
  | quit
  deriving DecidableEq

/-- How a poll went. -/
inductive Verdict where
  | goOn
  | quit
  | failed (e : Error)

/-- The machine after a poll, whether a stop was asked for, and how it went. -/
structure Polled where
  machine : Machine
  stop : Bool
  verdict : Verdict

/-- Serves requests in order. -/
def Machine.serve (m : Machine) (stop : Bool) : List Request → Polled
  | [] => ⟨m, stop, .goOn⟩
  | .press key :: rest =>
    match m.press key with
    | .ok next => next.serve stop rest
    | .error e => ⟨m, stop, .failed e⟩
  | .release key :: rest =>
    match m.release key with
    | .ok next => next.serve stop rest
    | .error e => ⟨m, stop, .failed e⟩
  | .releaseAll :: rest => m.releaseAll.serve stop rest
  | .stop :: rest => m.serve true rest
  | .quit :: _ => ⟨m, stop, .quit⟩

/-- Everything outside a run: a clock, sleep, and a frontend, over a state `ε` of their
own. Times are of type `T`. -/
structure Surroundings (T ε : Type) where
  /-- Reads the clock. -/
  read : ε → T × ε
  sleep : T → ε → ε
  /-- The pending requests of the frontend. -/
  poll : Machine → ε → List Request × ε
  /-- Shows a picture. -/
  render : Grid → ε → ε

end ChipEight
