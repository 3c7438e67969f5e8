/-
The call stack as a list that holds sixteen addresses at most.

`CallStack.push` and `CallStack.pop` write a slot on every call, and where there is no
room or no address they write back what they found. Seen from outside that is a list: a
push appends and is refused at sixteen, a pop takes the last address away and is refused
at none, and what is refused changes nothing. `BoundedList.serve` is that list, written
down without slots and without a pointer.

From outside an address is any integer, and `CallStack.pushLane` is the push there. One
that no lane can hold is an error, found before the stack is looked at
(`CallStack.wide_address_refused`); all others are cut to a word.

`CallStack.Holds` relates the two. One request keeps it and is answered alike on both
sides, so every sequence of requests is, whatever integers are pushed.
-/
import ChipEight.Proofs.Frames

set_option autoImplicit false

namespace ChipEight

/-! ## Requests -/

/-- What a call stack is asked for. -/
inductive StackRequest where
  | push (address : Int)
  | pop

/-- What comes of it. -/
inductive StackAnswer where
  | pushed
  | overflow
  | popped (address : UInt16)
  | underflow
  /-- The request itself is an error, whatever the stack holds. -/
  | failed (e : Error)

namespace StackAnswer

end StackAnswer

/-- A call stack serves a request. -/
def CallStack.serve (s : CallStack) : StackRequest → CallStack × StackAnswer
  | .push address =>
    match s.pushLane address with
    | .error e => (s, .failed e)
    | .ok (next, full) => (next, if full then .overflow else .pushed)
  | .pop =>
    let (next, address, empty) := s.pop
    (next, if empty then .underflow else .popped address)

/-- A list of at most sixteen addresses, the latest last, serves a request. -/
def BoundedList.serve (frames : List UInt16) : StackRequest → List UInt16 × StackAnswer
  | .push address =>
    if address < -0x80000000 ∨ 0x80000000 ≤ address then (frames, .failed .numberRange)
    else if frames.length = 16 then (frames, .overflow)
    else (frames ++ [wordOfInt address], .pushed)
  | .pop =>
    match frames.getLast? with
    | none => (frames, .underflow)
    | some address => (frames.dropLast, .popped address)

namespace CallStack

variable {s : CallStack} {frames : List UInt16}

/-! ## What is held -/

/-- A push from outside, by the limits of a lane. -/
theorem pushLane_eq (s : CallStack) (address : Int) :
    s.pushLane address =
      if address < -0x80000000 ∨ 0x80000000 ≤ address then .error .numberRange
      else .ok (s.push address) := by
  by_cases hwide : address < -0x80000000 ∨ 0x80000000 ≤ address
  · have hfits : ¬ fitsLane address = true := by
      rw [fitsLane_iff]
      omega
    rw [pushLane, if_neg hfits, if_pos hwide]
  · have hfits : fitsLane address = true := fitsLane_iff.mpr (by omega)
    rw [pushLane, if_pos hfits, if_neg hwide]

/-- **One request** is answered alike by a stack and by the list it holds, and leaves the
two in the same relation. -/
theorem Holds.serve (h : s.Holds frames) (r : StackRequest) :
    (s.serve r).1.Holds (BoundedList.serve frames r).1 ∧
      (s.serve r).2 = (BoundedList.serve frames r).2 := by
  have hp := h.pointer
  have hle := h.length_le
  cases r with
  | push address =>
    rw [CallStack.serve, BoundedList.serve, pushLane_eq]
    by_cases hwide : address < -0x80000000 ∨ 0x80000000 ≤ address
    -- The number is judged before the stack is looked at, so it may be full or not.
    · rw [if_pos hwide, if_pos hwide]
      exact ⟨h, rfl⟩
    · rw [if_neg hwide, if_neg hwide]
      by_cases hfull : frames.length = 16
      -- The slot that is written in vain gets back what was in it.
      · rw [push_of_full (by omega), if_pos hfull]
        exact ⟨h, rfl⟩
      · have hroom : (s.push address).2 = false := by
          rw [push_of_room (by omega) (by omega)]
        rw [if_neg hfull]
        refine ⟨h.push (by omega) address, ?_⟩
        simp [hroom]
  | pop =>
    -- A list that is not empty is everything but its last entry, and that entry.
    rcases List.eq_nil_or_concat frames with rfl | ⟨rest, last, rfl⟩
    · have hzero : s.pointer = 0 := hp
      rw [CallStack.serve, pop_of_empty hzero]
      exact ⟨h, rfl⟩
    · rw [List.concat_eq_append] at h hp hle ⊢
      rw [List.length_append, List.length_singleton] at hp hle
      obtain ⟨haddress, hrest⟩ := h.pop
      have hfound : s.pop.2.2 = false := by
        rw [pop_of_pos (by omega) (by omega)]
      rw [BoundedList.serve, List.getLast?_concat]
      simp only [List.dropLast_concat]
      refine ⟨hrest, ?_⟩
      simp [CallStack.serve, hfound, haddress]

end CallStack
end ChipEight
