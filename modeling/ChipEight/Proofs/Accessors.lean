/-
The two families of accessors.

The checked accessors refuse a range that leaves the memory; the total ones read zeros past
the end and drop what would be written there. A cycle goes through the total ones, everything
else through the checked ones, so it matters that inside the memory there is one answer.
`Memory.Has` is that answer, byte by byte, and both families are measured against it.

Writing is the other half of the same account: what a store leaves at an address is known for
every address, so a range is read back as it was written, bytes outside of it stay, and two
stores that share no address can change places.
-/
import ChipEight.Proofs.ReadSets

set_option autoImplicit false

namespace ChipEight.Memory

/-- The bytes are those of the memory from an address on. -/
def Has (m : Memory) (start : Nat) (bytes : List UInt8) : Prop :=
  ∀ k < bytes.length, bytes[k]? = m[start + k]?

/-! ## Ranges -/

/-- Where a test decides between a result and an error, the error says that it failed. -/
theorem eq_false_iff_ite_eq_error {ε α : Type} {b : Bool} {a : α} {e : ε} :
    b = false ↔ (if b then Except.ok a else .error e) = .error e := by
  cases b with
  | false => simp
  | true => simp

section Ranges

variable {start length : Int}

/-- A range inside the memory begins and ends at natural numbers. -/
theorem inRange_eq_true_iff (hlength : 0 ≤ length) :
    inRange start length = true ↔
      ∃ a n : Nat, start = a ∧ length = n ∧ a + n ≤ 4096 := by
  rw [inRange, Bool.and_eq_true, decide_eq_true_eq, decide_eq_true_eq]
  constructor
  · rintro ⟨hstart, hend⟩
    exact ⟨start.toNat, length.toNat, by omega, by omega, by omega⟩
  · rintro ⟨a, n, rfl, rfl, hend⟩
    exact ⟨by omega, by omega⟩

/-- **The check is the test**, for every range that is not of a negative length. -/
theorem check_eq (hlength : 0 ≤ length) :
    check start length =
      if inRange start length then .ok ()
      else .error (.fault ⟨.memoryRange start length, none, none⟩) := by
  rw [check]
  by_cases hrange : inRange start length = true
  · obtain ⟨a, n, rfl, rfl, hend⟩ := (inRange_eq_true_iff hlength).mp hrange
    rw [if_neg (by omega), if_pos hrange]
  · have hout : start < 0 ∨ 4096 < start + length := by
      simp only [inRange, Bool.and_eq_true, decide_eq_true_eq] at hrange
      omega
    rw [if_pos (by omega), if_neg hrange]

theorem check_eq_ok_iff (hlength : 0 ≤ length) :
    check start length = .ok () ↔ inRange start length = true := by
  rw [check_eq hlength]
  rcases inRange start length with _ | _
  · simp
  · simp

end Ranges

/-! ## Reading -/

variable {m : Memory} {a n : Nat}

/-- A byte as it is, or zero behind the end. -/
theorem byteAt_natCast (m : Memory) (a : Nat) : m.byteAt a = m[a]?.getD 0 := by
  by_cases ha : a < 4096
  · rw [m.byteAt_of_lt ha, Vector.getElem?_eq_getElem ha, Option.getD_some]
  · rw [m.byteAt_of_le (Nat.le_of_not_lt ha), Vector.getElem?_eq_none (Nat.le_of_not_lt ha)]
    rfl

theorem getElem?_gather_natCast (m : Memory) (a : Nat) {k : Nat} (hk : k < n) :
    (m.gather a n)[k]? = some (m[a + k]?.getD 0) := by
  rw [m.getElem?_gather a hk, ← m.byteAt_natCast (a + k)]
  rfl

/-- What is gathered inside the memory is what is there. -/
theorem has_gather (h : n ≤ 4096 - a) : m.Has a (m.gather a n) := by
  intro k hk
  rw [length_gather] at hk
  rw [m.getElem?_gather_natCast a hk, Vector.getElem?_eq_getElem (by omega), Option.getD_some]

/-- And it is what is read. -/
theorem read_eq_gather (h : a + n ≤ 4096) : m.read a n = .ok (m.gather a n) := by
  have hlength : ((m.toList.drop a).take n).length = n := by
    rw [List.length_take, List.length_drop, Vector.length_toList]
    omega
  rw [read_of_le m h, Except.ok.injEq]
  apply List.ext_getElem?
  intro k
  by_cases hk : k < n
  · have hhas := m.has_gather (show n ≤ 4096 - a by omega) k (by rwa [length_gather])
    rw [hhas, List.getElem?_take_of_lt hk, List.getElem?_drop, Vector.getElem?_toList]
  · rw [List.getElem?_eq_none (by omega), List.getElem?_eq_none (by rw [length_gather]; omega)]

/-- **Past the end zeros are gathered**, and nothing else. -/
theorem gather_eq_append (m : Memory) (a n : Nat) :
    m.gather a n =
      m.gather a (min n (4096 - a)) ++ List.replicate (n - min n (4096 - a)) 0 := by
  apply List.ext_getElem?
  intro k
  rw [List.getElem?_append, length_gather]
  by_cases hin : k < min n (4096 - a)
  · rw [if_pos hin, m.getElem?_gather_natCast a (by omega), m.getElem?_gather_natCast a hin]
  · rw [if_neg hin]
    by_cases hk : k < n
    · rw [m.getElem?_gather_natCast a hk, Vector.getElem?_eq_none (by omega),
        List.getElem?_replicate_of_lt (by omega)]
      rfl
    · rw [List.getElem?_eq_none (by rw [length_gather]; omega),
        List.getElem?_eq_none (by rw [List.length_replicate]; omega)]

/-! ## Writing -/

/-- **A write** stores its bytes, or is refused with its range. -/
theorem write_eq (m : Memory) (start : Int) (bytes : List UInt8) :
    m.write start bytes =
      if inRange start bytes.length then .ok (m.store start.toNat bytes)
      else .error (.fault ⟨.memoryRange start bytes.length, none, none⟩) := by
  rw [write, check_eq (Int.natCast_nonneg _)]
  rcases inRange start bytes.length with _ | _
  · rfl
  · rfl

/-- **Stores that share no address** can change places. -/
theorem store_comm (m : Memory) {b : Nat} {bytes more : List UInt8}
    (hapart : ∀ i, a ≤ i → i < a + bytes.length → ¬ (b ≤ i ∧ i < b + more.length)) :
    (m.store a bytes).store b more = (m.store b more).store a bytes := by
  apply Vector.ext
  intro i hi
  rw [getElem_store, getElem_store, getElem_store, getElem_store]
  by_cases hbytes : a ≤ i ∧ i < a + bytes.length
  · rw [if_neg (hapart i hbytes.1 hbytes.2), if_pos hbytes, if_pos hbytes]
  · rw [if_neg hbytes, if_neg hbytes]

/-- **What is written is read back**, and bytes outside of the range stay. -/
theorem read_write (m : Memory) {start : Int} {bytes : List UInt8}
    (hrange : inRange start bytes.length = true) :
    ∃ t, m.write start bytes = .ok t ∧ t.read start bytes.length = .ok bytes ∧
      ∀ (a : Nat) (ha : a < 4096), a < start ∨ start + bytes.length ≤ a → t[a] = m[a] := by
  obtain ⟨a, n, rfl, hn, hend⟩ := (inRange_eq_true_iff (Int.natCast_nonneg _)).mp hrange
  obtain rfl : bytes.length = n := by omega
  refine ⟨m.store a bytes, ?_, m.read_store hend, ?_⟩
  · rw [write_eq, if_pos hrange]
    rfl
  · intro i hi hout
    rw [getElem_store, if_neg (by omega)]

/-- **Writes that share no address** can change places. -/
theorem write_comm (m : Memory) {start other : Int} {bytes more : List UInt8}
    (hstart : inRange start bytes.length = true) (hother : inRange other more.length = true)
    (hapart : ∀ a, start ≤ a → a < start + bytes.length →
      ¬ (other ≤ a ∧ a < other + more.length)) :
    ∃ t, (m.write start bytes >>= fun u => u.write other more) = .ok t ∧
      (m.write other more >>= fun u => u.write start bytes) = .ok t := by
  obtain ⟨a, n, rfl, hn, hend⟩ := (inRange_eq_true_iff (Int.natCast_nonneg _)).mp hstart
  obtain ⟨b, k, rfl, hk, -⟩ := (inRange_eq_true_iff (Int.natCast_nonneg _)).mp hother
  have hdisjoint : ∀ i, a ≤ i → i < a + bytes.length → ¬ (b ≤ i ∧ i < b + more.length) := by
    intro i hlo hhi hboth
    exact hapart i (by omega) (by omega) (by omega)
  have hcomm := m.store_comm hdisjoint
  refine ⟨(m.store a bytes).store b more, ?_, ?_⟩
  · rw [write_eq, if_pos hstart]
    exact (write_eq _ _ _).trans (if_pos hother)
  · rw [hcomm, write_eq, if_pos hother]
    exact (write_eq _ _ _).trans (if_pos hstart)

/-! ## Agreement -/

/-- **The accessors agree.** The check refuses a range exactly when the test fails. Where it
does not, reading and gathering give the bytes that are there, and a word is two of them.
Gathering past the end gives what is there and then only zeros. A write is refused exactly
when its range leaves the memory, with that range; else its bytes are read back, those
outside of it stay, and it can change places with any other that shares no address with it. -/
theorem accessors_agree (m : Memory) :
    (∀ start length : Int, 0 ≤ length →
      (inRange start length = false ↔
        check start length = .error (.fault ⟨.memoryRange start length, none, none⟩)) ∧
      (inRange start length = true ↔ check start length = .ok ())) ∧
    (∀ start length : Int, 0 ≤ length → check start length = .ok () →
      ∃ bytes, m.read start length = .ok bytes ∧ m.gatherLane start length = .ok bytes ∧
        (bytes.length : Int) = length ∧ m.Has start.toNat bytes) ∧
    (∀ (a : Nat) (hfirst : a < 4096) (hsecond : a + 1 < 4096), ∃ w, m.wordLane a = .ok w ∧
      w.toNat = 256 * m[a].toNat + m[a + 1].toNat) ∧
    (∀ start length : Nat, fitsLane start = true → ∃ inside,
      m.gatherLane start length =
        .ok (inside ++ List.replicate (length - inside.length) 0) ∧
      inside.length = min length (4096 - start) ∧ m.Has start inside) ∧
    (∀ (start : Int) (bytes : List UInt8),
      (inRange start bytes.length = false ↔
        m.write start bytes =
          .error (.fault ⟨.memoryRange start bytes.length, none, none⟩)) ∧
      (inRange start bytes.length = true → ∃ t, m.write start bytes = .ok t ∧
        t.read start bytes.length = .ok bytes ∧
        ∀ (a : Nat) (ha : a < 4096), a < start ∨ start + bytes.length ≤ a → t[a] = m[a])) ∧
    ∀ (start other : Int) (bytes more : List UInt8),
      inRange start bytes.length = true → inRange other more.length = true →
      (∀ a, start ≤ a → a < start + bytes.length →
        ¬ (other ≤ a ∧ a < other + more.length)) →
      ∃ t, (m.write start bytes >>= fun u => u.write other more) = .ok t ∧
        (m.write other more >>= fun u => u.write start bytes) = .ok t := by
  refine ⟨?_, ?_, ?_, ?_, ?_, ?_⟩
  · intro start length hlength
    refine ⟨?_, (check_eq_ok_iff hlength).symm⟩
    rw [check_eq hlength]
    exact eq_false_iff_ite_eq_error
  · intro start length hlength hcheck
    have hrange := (check_eq_ok_iff hlength).mp hcheck
    obtain ⟨a, n, rfl, rfl, hend⟩ := (inRange_eq_true_iff hlength).mp hrange
    refine ⟨m.gather a n, read_eq_gather hend, ?_, by rw [length_gather], has_gather (by omega)⟩
    rw [gatherLane, if_pos (fitsLane_of_le (by omega))]
    rfl
  · intro a hfirst hsecond
    refine ⟨m.word a, ?_, m.toNat_word hsecond⟩
    rw [wordLane, if_pos (fitsLane_of_le (by omega))]
  · intro start length hfits
    refine ⟨m.gather start (min length (4096 - start)), ?_, m.length_gather _ _,
      has_gather (by omega)⟩
    rw [gatherLane, if_pos hfits, length_gather, Int.toNat_natCast, ← gather_eq_append]
  · intro start bytes
    refine ⟨?_, m.read_write⟩
    rw [write_eq]
    exact eq_false_iff_ite_eq_error
  · intro start other bytes more
    exact m.write_comm

/-- The first two bytes of the font are read, gathered and taken for a word. At the end of the
memory no byte can be asked for behind it but none at all, a run that straddles it ends in
zeros, the last word can be written, and the one before it sooner or later. -/
theorem ranges_at_the_end :
    fresh.gatherLane 0x50 2 = .ok [0xF0, 0x90] ∧ fresh.read 0x50 2 = .ok [0xF0, 0x90] ∧
    (∃ w, fresh.wordLane 0x50 = .ok w ∧ w.toNat = 0xF090) ∧
    inRange 4096 0 = true ∧ check 4096 0 = .ok () ∧
    check 4097 0 = .error (.fault ⟨.memoryRange 4097 0, none, none⟩) ∧
    (∃ inside, fresh.gatherLane 0xFFE 5 = .ok (inside ++ [0, 0, 0]) ∧ inside.length = 2) ∧
    (∃ t, fresh.write 0xFFE [0x12, 0x34] = .ok t ∧ t.read 0xFFE 2 = .ok [0x12, 0x34]) ∧
    ∃ t, (fresh.write 0xFFE [0x12, 0x34] >>= fun u => u.write 0xFFC [0x56, 0x78]) = .ok t ∧
      (fresh.write 0xFFC [0x56, 0x78] >>= fun u => u.write 0xFFE [0x12, 0x34]) = .ok t := by
  have hhigh : fresh[0x50] = 0xF0 := by
    rw [fresh, getElem_store]
    rfl
  have hlow : fresh[0x50 + 1] = 0x90 := by
    rw [fresh, getElem_store]
    rfl
  obtain ⟨hcheck, hsame, hword, hgather, hwrite, hcomm⟩ := accessors_agree fresh
  have hfont : fresh.gatherLane 0x50 2 = .ok [0xF0, 0x90] := by
    have hfirst : fresh.byteAt (0x50 : Nat) = 0xF0 := (fresh.byteAt_of_lt _).trans hhigh
    have hsecond : fresh.byteAt (0x50 + 1 : Nat) = 0x90 := (fresh.byteAt_of_lt _).trans hlow
    rw [gatherLane, if_pos (by decide), ← hfirst, ← hsecond]
    rfl
  refine ⟨hfont, ?_, ?_, by decide, (hcheck 4096 0 (by decide)).2.mp (by decide),
    (hcheck 4097 0 (by decide)).1.mp (by decide), ?_, ?_, ?_⟩
  · obtain ⟨bytes, hread, hgathered, -⟩ :=
      hsame 0x50 2 (by decide) ((hcheck 0x50 2 (by decide)).2.mp (by decide))
    rw [hread, ← hgathered, hfont]
  · obtain ⟨w, hw, hvalue⟩ := hword 0x50 (by decide) (by decide)
    refine ⟨w, hw, ?_⟩
    rw [hvalue, hhigh, hlow]
    rfl
  · obtain ⟨inside, hbytes, hlength, -⟩ := hgather 0xFFE 5 (by decide)
    have htwo : inside.length = 2 := hlength
    rw [htwo] at hbytes
    exact ⟨inside, hbytes, htwo⟩
  · obtain ⟨t, ht, hread, -⟩ := (hwrite 0xFFE [0x12, 0x34]).2 (by decide)
    exact ⟨t, ht, hread⟩
  · refine hcomm 0xFFE 0xFFC _ _ (by decide) (by decide) ?_
    intro a hfirst _ hin
    simp only [List.length_cons, List.length_nil] at hin
    omega

end ChipEight.Memory
