/-
The first fault wins.

A fault is noted in three numbers, a code and the two of a range, and each is chosen for
itself: the new one where the condition holds and no code is there yet, else the old one.
That the three move together, however many conditions hold later on, is a fact about runs
of notes. Up to the first condition that holds nothing changes; there all three numbers are
taken at once; and from then on the code keeps every other note out.

`FaultNote.firstOf` is what is left of a run, said without a latch that fills up: the first
note whose condition holds, as a whole. A cycle is such a run, with the note of its fetch in
front, and so a word that was not there cannot cover up that it was not there.
-/
import ChipEight.Proofs.TimerIndependence

set_option autoImplicit false

namespace ChipEight

/-! ## Notes in turn -/

/-- A fault to be noted where the condition holds. -/
structure FaultNote where
  condition : Bool
  code : Int
  start : Int := 0
  length : Int := 0

namespace FaultNote

/-- The latch that holds the code and the range of the note, and nothing of another. -/
def latch (n : FaultNote) : FaultLatch :=
  ⟨n.code, n.start, n.length⟩

/-- Can lanes hold the three numbers? -/
def fits (n : FaultNote) : Bool :=
  fitsLane n.code && fitsLane n.start && fitsLane n.length

/-- The first note whose condition holds, or else what the latch held. -/
def firstOf (l : FaultLatch) (notes : List FaultNote) : FaultLatch :=
  ((notes.find? (·.condition)).map latch).getD l

/-- The note of a cause that is met. -/
def ofCause : Cause → FaultNote
  | .memoryRange start length => ⟨true, (Cause.memoryRange 0 0).code, start, length⟩
  | c => ⟨true, c.code, 0, 0⟩

end FaultNote

/-- Notes on a latch, one after the other. -/
def FaultLatch.noteAll (l : FaultLatch) (notes : List FaultNote) : FaultLatch :=
  notes.foldl (fun l n => l.note n.condition n.code n.start n.length) l

/-- Notes from outside, whose numbers have to fit lanes, one after the other. -/
def FaultLatch.noteLanes (l : FaultLatch) (notes : List FaultNote) : Except Error FaultLatch :=
  notes.foldlM (fun l n => l.noteLane n.condition n.code n.start n.length) l

/-- Notes on a state, one after the other. -/
def State.noteAll (s : State) (notes : List FaultNote) : State :=
  notes.foldl (fun s n => s.note n.condition n.code n.start n.length) s

/-- What the fetch of a cycle notes. -/
def State.fetchNote (s : State) : FaultNote :=
  ⟨!Memory.inRange s.pc.toNat 2, (Cause.memoryRange 0 0).code, s.pc.toNat, 2⟩

/-! ## The note that is left -/

namespace FaultLatch

variable {l : FaultLatch} {n : FaultNote} {notes : List FaultNote}

theorem noteAll_cons (l : FaultLatch) (n : FaultNote) (notes : List FaultNote) :
    l.noteAll (n :: notes) = (l.note n.condition n.code n.start n.length).noteAll notes := rfl

/-- A note whose condition fails changes none of the three numbers. -/
theorem note_of_not (l : FaultLatch) (code start length : Int) :
    l.note false code start length = l := rfl

/-- Behind a fault no note changes anything. -/
theorem noteAll_of_noted (h : l.code ≠ noFault) (notes : List FaultNote) :
    l.noteAll notes = l := by
  induction notes with
  | nil => rfl
  | cons n notes ih => rw [noteAll_cons, note_of_noted h, ih]

/-- **Notes on a clear latch** leave the first whose condition holds. -/
theorem noteAll_of_clear (h : l.code = noFault) (hcodes : ∀ n ∈ notes, n.code ≠ noFault) :
    l.noteAll notes = FaultNote.firstOf l notes := by
  induction notes with
  | nil => rfl
  | cons n notes ih =>
    have hrest : ∀ m ∈ notes, m.code ≠ noFault :=
      fun m hm => hcodes m (List.mem_cons_of_mem _ hm)
    rw [noteAll_cons, FaultNote.firstOf]
    rcases hcondition : n.condition with _ | _
    · rw [note_of_not, List.find?_cons_of_neg (by simp [hcondition])]
      exact ih hrest
    · -- from here on the latch is no longer clear
      rw [note_of_clear h, noteAll_of_noted (hcodes n List.mem_cons_self),
        List.find?_cons_of_pos hcondition]
      rfl

/-- Notes from outside are the same notes, if all of them fit; a number that does not fit is
refused whether or not its condition holds. -/
theorem noteLanes_eq (l : FaultLatch) (notes : List FaultNote) :
    l.noteLanes notes =
      if notes.all FaultNote.fits then .ok (l.noteAll notes) else .error .numberRange := by
  induction notes generalizing l with
  | nil => rfl
  | cons n notes ih =>
    rw [noteLanes, List.foldlM_cons, noteLane, List.all_cons]
    rcases hfits : n.fits with _ | _
    · rw [FaultNote.fits] at hfits
      rw [hfits]
      rfl
    · rw [FaultNote.fits] at hfits
      rw [hfits, Bool.true_and]
      exact ih _

/-- Meeting a cause, or nothing, is noting it. -/
theorem meet_eq_noteAll (l : FaultLatch) (c? : Option Cause) :
    l.meet c? = l.noteAll (c?.toList.map FaultNote.ofCause) := by
  cases c? with
  | none => rfl
  | some c => cases c <;> rfl

end FaultLatch

namespace State

variable {s : State}

/-- Nothing in the state but the latch takes part. -/
theorem noteAll_eq (s : State) (notes : List FaultNote) :
    s.noteAll notes = { s with latch := s.latch.noteAll notes } := by
  induction notes generalizing s with
  | nil => rfl
  | cons n notes ih => exact ih (s.note n.condition n.code n.start n.length)

/-! ## The notes of a cycle -/

/-- The codes that a word notes are codes of faults. -/
theorem code_ofCause_of_hazard? {w : UInt16} {c : Cause} (h : s.hazard? w = some c) :
    (FaultNote.ofCause c).code ≠ noFault := by
  have hcode : (Cause.memoryRange 0 0).code ≠ noFault := by decide
  cases hazard?_eq_some_iff.mp h with
  | invalidOpcode _ | stackOverflow _ _ | stackUnderflow _ _ => decide
  | memoryRange _ _ => exact hcode

/-- What the word of a cycle notes. -/
def wordNotes (s : State) : List FaultNote :=
  (s.fetched.hazard? (s.memory.word s.pc.toNat)).toList.map FaultNote.ofCause

theorem code_of_mem_wordNotes {n : FaultNote} (h : n ∈ s.wordNotes) : n.code ≠ noFault := by
  obtain ⟨c, hc, rfl⟩ := List.mem_map.mp h
  exact code_ofCause_of_hazard? (Option.mem_toList.mp hc)

/-- Going on to the next word keeps what was noted, whatever its numbers are. -/
theorem latch_past_note (s : State) (c : Bool) (code start length : Int) :
    (s.note c code start length).past.latch = s.latch.note c code start length := rfl

/-- The notes of a cycle: its fetch first, its word behind it. -/
theorem cycle_latch_eq_noteAll (s : State) :
    s.cycle.1.latch = s.latch.noteAll (s.fetchNote :: s.wordNotes) := by
  have hfetched : s.fetched.latch = s.latch.note s.fetchNote.condition s.fetchNote.code
      s.fetchNote.start s.fetchNote.length := by
    rw [fetched, latch_past_note, fetchNote]
  rw [cycle_eq, dispatch_latch, hfetched, FaultLatch.meet_eq_noteAll, FaultLatch.noteAll_cons,
    wordNotes]

/-- A fetch that leaves the memory is what the cycle notes. -/
theorem cycle_latch_of_lt (hclear : s.latch.code = noFault) (hpc : 0xFFE < s.pc.toNat) :
    s.cycle.1.latch = s.fetchNote.latch := by
  have hrange : Memory.inRange s.pc.toNat 2 = decide (s.pc.toNat + 2 ≤ 4096) :=
    Memory.inRange_natCast s.pc.toNat 2
  rw [decide_eq_false (by omega)] at hrange
  rw [cycle_latch_of_fetch hclear hrange]
  rfl

/-- **The first fault wins.** Notes in turn on a state without a fault leave the code and the
range of the first note whose condition holds, or the latch as it was if there is none, and
the rest of the state as it was. Notes whose numbers come from outside do the same if every
number fits its lane, and are refused else. Behind a fault, in whatever state, no word
changes any of the three numbers. So a cycle, which notes its fetch first, tells the fault of
the fetch if there is one, with its own range, whatever the word goes on to note. -/
theorem first_fault_wins :
    (∀ (s : State) (notes : List FaultNote), s.latch.code = noFault →
      (∀ n ∈ notes, n.code ≠ noFault) →
      s.noteAll notes = { s with latch := FaultNote.firstOf s.latch notes }) ∧
    (∀ (l : FaultLatch) (notes : List FaultNote), l.code = noFault →
      (∀ n ∈ notes, n.code ≠ noFault) →
      l.noteLanes notes =
        if notes.all FaultNote.fits then .ok (FaultNote.firstOf l notes)
        else .error .numberRange) ∧
    (∀ (s : State) (w : UInt16), s.latch.code ≠ noFault → (s.dispatch w).latch = s.latch) ∧
    ∀ s : State, s.latch.code = noFault →
      (∀ n ∈ s.wordNotes, n.code ≠ noFault) ∧
      s.cycle.1.latch = (s.noteAll (s.fetchNote :: s.wordNotes)).latch ∧
      (0xFFE < s.pc.toNat →
        s.cycle.1.latch = s.fetchNote.latch ∧
        s.step = .error ⟨.memoryRange s.pc.toNat 2, none, some s.pc.toNat⟩) := by
  refine ⟨?_, ?_, ?_, ?_⟩
  · intro s notes hclear hcodes
    rw [noteAll_eq, FaultLatch.noteAll_of_clear hclear hcodes]
  · intro l notes hclear hcodes
    rw [FaultLatch.noteLanes_eq, FaultLatch.noteAll_of_clear hclear hcodes]
  · intro s w hnoted
    rw [dispatch_latch, FaultLatch.meet_of_noted hnoted]
  · intro s hclear
    refine ⟨fun n => code_of_mem_wordNotes, ?_, ?_⟩
    · rw [cycle_latch_eq_noteAll, noteAll_eq]
    · intro hpc
      exact ⟨cycle_latch_of_lt hclear hpc, by rw [step_eq hclear, if_pos hpc]⟩

/-- Behind a note that does not hold the next two do, and the range stays with its code. A
word that begins at the last byte is not read in full, and what can be read of it is no
instruction: the fetch is what is told. -/
theorem first_of_two_faults_stays :
    let s : State := { fresh ⟨0, 0⟩ with pc := 0xFFF, memory := Vector.replicate 4096 0 }
    (s.noteAll [⟨false, 2, 0, 0⟩, ⟨true, 4, 0xFFF, 5⟩, ⟨true, 3, 7, 9⟩]).latch =
        ⟨4, 0xFFF, 5⟩ ∧
      s.latch.noteLanes [⟨true, 4, 0xFFF, 5⟩, ⟨false, 3, 0x80000000, 0⟩] =
        .error .numberRange ∧
      s.hazard? (s.memory.word s.pc.toNat) = some .invalidOpcode ∧
      s.cycle.1.latch = ⟨4, 0xFFF, 2⟩ ∧
      s.step = .error ⟨.memoryRange 0xFFF 2, none, some 0xFFF⟩ := by
  intro s
  obtain ⟨hnotes, hlanes, -, hcycle⟩ := first_fault_wins
  obtain ⟨-, -, hfetch⟩ := hcycle s rfl
  obtain ⟨hlatch, hstep⟩ := hfetch (by decide)
  refine ⟨?_, ?_, ?_, hlatch, hstep⟩
  · rw [hnotes s _ rfl (by decide)]
    rfl
  · exact hlanes s.latch _ rfl (by decide)
  · have hword : s.memory.word s.pc.toNat = 0 := by
      simp [s, Memory.word, Memory.byteAt]
    rw [hword]
    exact hazard?_eq_some_iff.mpr (.invalidOpcode (by decide))

end State
end ChipEight
