/-
Settings that were accepted, and what a run can do with them.

A source may say anything; what `Settings.ofSource` accepts has passed two gates. The merge
lets in only values of each setting's own kind, so that every rate and the scale are whole
numbers: the invariant is `Settings.Typed`, kept by every value that is put and by every
reference that is replaced. The validation then refuses what is not positive, a sleep below
zero and a scheme of no name.

This is less than a run needs. A sleep that is no number is not below zero, nor is it at or
above it; and a rate may be positive and have no double. `accepted_usable` says which of the
accepted settings have a plan: those whose rates stay below `Text.doubleLimit`.
-/
import ChipEight.Proofs.Doubles
import ChipEight.Proofs.Success
import ChipEight.Settings.Merge

set_option autoImplicit false

namespace ChipEight

/-! ## Kinds -/

namespace Given

variable {v w : Given}

theorem whole_of_toWhole (h : v.toWhole = .ok w) : ∃ n, w = .whole n := by
  cases v with
  | whole n => exact ⟨n, by simpa [toWhole] using h.symm⟩
  | text s =>
    cases hread : Text.readInteger s with
    | some n => exact ⟨n, by simpa [toWhole, hread] using h.symm⟩
    | none => simp [toWhole, hread] at h
  | _ => simp [toWhole] at h

theorem real_of_toReal (h : v.toReal = .ok w) : ∃ x, w = .real x := by
  cases v with
  | real x => exact ⟨x, by simpa [toReal] using h.symm⟩
  | whole n =>
    cases hfloat : Text.floatOfInt? n with
    | some x => exact ⟨.ofFloat x, by simpa [toReal, hfloat] using h.symm⟩
    | none => simp [toReal, hfloat] at h
  | text s =>
    cases hread : Text.readFloat s with
    | some x => exact ⟨x, by simpa [toReal, hread] using h.symm⟩
    | none => simp [toReal, hread] at h
  | _ => simp [toReal] at h

theorem text_of_toText {optional : Bool} (h : v.toText optional = .ok w) :
    (optional = true ∧ w = .absent) ∨ ∃ t, w = .text t := by
  by_cases habsent : v = .absent
  · subst habsent
    cases optional with
    | true => exact .inl ⟨rfl, by simpa [toText] using h.symm⟩
    | false => simp [toText] at h
  · cases htext : v.text? with
    | some t => exact .inr ⟨t, by simpa [toText, htext, habsent] using h.symm⟩
    | none => simp [toText, htext] at h

end Given

namespace Setting

/-- Is the value of the setting's own kind? -/
def Admits : Setting → Given → Prop
  | rom, v => v = .absent ∨ ∃ t, v = .text t
  | colorScheme, v => ∃ t, v = .text t
  | logLevel, v => ∃ t, v = .text t
  | idleSleep, v => ∃ x, v = .real x
  | _, v => ∃ n, v = .whole n

theorem admits_of_convert {s : Setting} {v w : Given} (h : s.convert v = .ok w) :
    s.Admits w := by
  cases s with
  | rom => exact (Given.text_of_toText h).imp And.right id
  | colorScheme => simpa [Admits] using Given.text_of_toText h
  | logLevel => simpa [Admits] using Given.text_of_toText h
  | idleSleep => exact Given.real_of_toReal h
  | _ => exact Given.whole_of_toWhole h

end Setting

namespace Settings

variable {c : Settings} {s t : Setting} {v : Given}

theorem value_put_self (hv : s.Admits v) : (c.put s v).value s = v := by
  cases s with
  | rom => obtain rfl | ⟨_, rfl⟩ := hv <;> rfl
  | _ => obtain ⟨_, rfl⟩ := hv; rfl

theorem value_put_of_ne (hv : s.Admits v) (h : t ≠ s) : (c.put s v).value t = c.value t := by
  cases s with
  | rom => obtain rfl | ⟨_, rfl⟩ := hv <;> cases t <;> first | rfl | exact absurd rfl h
  | _ => obtain ⟨_, rfl⟩ := hv; cases t <;> first | rfl | exact absurd rfl h

/-- Is every setting of its own kind? -/
def Typed (c : Settings) : Prop := ∀ s : Setting, s.Admits (c.value s)

theorem typed_default : Typed {} := by
  intro s
  cases s with
  | rom => exact .inl rfl
  | _ => exact ⟨_, rfl⟩

theorem Typed.put (h : c.Typed) (hv : s.Admits v) : (c.put s v).Typed := by
  intro t
  by_cases hts : t = s
  · subst hts
    rw [value_put_self hv]
    exact hv
  · rw [value_put_of_ne hv hts]
    exact h t

theorem exists_whole_of_givenOf {q : Quantity} (h : ∃ n, givenOf q = .whole n) :
    ∃ n, q = .whole n := by
  obtain ⟨n, hn⟩ := h
  cases q with
  | whole m => exact ⟨m, rfl⟩
  | real x => cases hn

/-- The rates and the scale of typed settings are whole numbers. -/
theorem Typed.exists_whole (h : c.Typed) :
    ∃ i t r s : Int, c.rates = ⟨.whole i, .whole t, .whole r⟩ ∧ c.scale = .whole s := by
  obtain ⟨i, hi⟩ := exists_whole_of_givenOf (h .instructionFrequency)
  obtain ⟨t, ht⟩ := exists_whole_of_givenOf (h .timerFrequency)
  obtain ⟨r, hr⟩ := exists_whole_of_givenOf (h .renderFrequency)
  obtain ⟨s, hs⟩ := exists_whole_of_givenOf (h .scale)
  exact ⟨i, t, r, s, by rw [← hi, ← ht, ← hr], hs⟩

end Settings

/-! ## Merging -/

namespace Draft

variable {d d' : Draft} {name : String} {s : Setting} {v : Given} {c : Settings}

theorem typed_add (hd : d.settings.Typed) (h : d.add name v = .ok d') :
    d'.settings.Typed := by
  rw [add] at h
  cases hname : Setting.ofName? name with
  | none =>
    simp only [hname] at h
    cases h
  | some s =>
    have hown : ∀ {e : Draft},
        ((s.convert v).map fun w => { d with settings := d.settings.put s w }) = .ok e →
          e.settings.Typed := by
      intro e he
      obtain ⟨w, hw, rfl⟩ := map_eq_ok_iff.mp he
      exact hd.put (Setting.admits_of_convert hw)
    simp only [hname] at h
    cases v with
    | text t =>
      by_cases hholder : t = placeholder
      · simp only [if_pos hholder] at h
        cases h
        exact hd
      · by_cases hrefers : Piece.occurIn t.toList = true
        · -- the setting keeps its default until the reference is replaced
          simp only [if_neg hholder, if_pos hrefers] at h
          obtain ⟨pieces, -, h⟩ := bind_eq_ok_iff.mp h
          cases h
          exact hd
        · simp only [if_neg hholder, if_neg hrefers] at h
          exact hown h
    | _ => exact hown h

/-- What a setting comes to with its references replaced is of its kind: where there are
none it was before, and where there are some the value is converted once more. -/
theorem admits_resolve (hd : d.settings.Typed) :
    ∀ {fuel : Nat}, d.resolve fuel s = .ok v → s.Admits v
  | 0, h => by cases h
  | fuel + 1, h => by
    rw [resolve] at h
    cases hpieces : d.piecesOf s with
    | none =>
      simp only [hpieces] at h
      cases h
      exact hd s
    | some pieces =>
      simp only [hpieces] at h
      split at h
      · cases h
      · split at h
        · cases h
        · exact Setting.admits_of_convert h

theorem typed_finish (hd : d.settings.Typed) (h : d.finish = .ok c) : c.Typed := by
  refine foldlM_invariant Settings.Typed (fun hc hput => ?_) hd h
  obtain ⟨v, hv, rfl⟩ := map_eq_ok_iff.mp hput
  exact hc.put (admits_resolve hd hv)

end Draft

namespace Settings

variable {c d : Settings} {source : Given}

/-- **Whatever a source says**, every setting comes out of its own kind. -/
theorem typed_merge (h : merge source = .ok c) : c.Typed := by
  unfold merge at h
  by_cases hempty : source.isEmpty = true
  · rw [if_pos hempty] at h
    cases h
    exact typed_default
  · rw [if_neg hempty] at h
    cases source with
    | record members =>
      obtain ⟨_, -, h⟩ := bind_eq_ok_iff.mp h
      obtain ⟨draft, hdraft, hfinish⟩ := bind_eq_ok_iff.mp h
      have hadded : draft.settings.Typed :=
        foldlM_invariant (fun d : Draft => d.settings.Typed) Draft.typed_add typed_default hdraft
      exact Draft.typed_finish hadded hfinish
    | list items =>
      obtain ⟨_, -, h⟩ := bind_eq_ok_iff.mp h
      cases h
    | _ => cases h

/-! ## Validation -/

theorem validate_eq_ok_iff :
    c.validate = .ok d ↔
      d = c ∧ (∀ p ∈ c.positives, p.2.notPositive = false) ∧ ¬ c.idleSleep.toFloat < 0 ∧
        ∃ colors, ColorScheme.named c.colorScheme = .ok colors := by
  rw [validate]
  cases hfind : c.positives.find? fun p => p.2.notPositive with
  | some p =>
    have hmem := List.mem_of_find?_eq_some hfind
    have hbad : p.2.notPositive = true := by simpa using List.find?_some hfind
    constructor
    · intro h
      cases h
    · rintro ⟨-, hall, -⟩
      rw [hall p hmem] at hbad
      cases hbad
  | none =>
    have hall : ∀ p ∈ c.positives, p.2.notPositive = false := by
      simpa using List.find?_eq_none.mp hfind
    by_cases hsleep : c.idleSleep.toFloat < 0
    · constructor
      · simp only [if_pos hsleep]
        intro h
        cases h
      · rintro ⟨-, -, hnot, -⟩
        exact absurd hsleep hnot
    · simp only [if_neg hsleep]
      constructor
      · intro h
        obtain ⟨colors, hnamed, h⟩ := bind_eq_ok_iff.mp h
        cases h
        exact ⟨rfl, hall, hsleep, colors, hnamed⟩
      · rintro ⟨rfl, -, -, colors, hnamed⟩
        exact bind_eq_ok_iff.mpr ⟨colors, hnamed, rfl⟩

end Settings

/-! ## Plans -/

theorem Quantity.notPositive_whole_iff {n : Int} : (whole n).notPositive = false ↔ 1 ≤ n := by
  rw [notPositive, decide_eq_false_iff_not]
  omega

namespace Plan

variable {i t r : Int}

theorem exists_ofRates_whole (hi : 1 ≤ i) (ht : 1 ≤ t) (hr : 1 ≤ r) (sleep : Float)
    (hlimit : i < Text.doubleLimit ∧ t < Text.doubleLimit ∧ r < Text.doubleLimit) :
    ∃ plan, ofRates ⟨.whole i, .whole t, .whole r⟩ sleep = .ok plan := by
  obtain ⟨_, hinstructions⟩ := Quantity.exists_period_whole hi hlimit.1
  obtain ⟨_, htimers⟩ := Quantity.exists_period_whole ht hlimit.2.1
  obtain ⟨_, hrenders⟩ := Quantity.exists_period_whole hr hlimit.2.2
  rw [ofRates]
  simp only [hinstructions, htimers, hrenders, bind, Except.bind]
  exact ⟨_, rfl⟩

/-- A rate from the limit on is the first that has no period, and no rate fails otherwise. -/
theorem ofRates_whole_of_not_lt (hi : 1 ≤ i) (ht : 1 ≤ t) (sleep : Float)
    (hlimit : ¬ (i < Text.doubleLimit ∧ t < Text.doubleLimit ∧ r < Text.doubleLimit)) :
    ofRates ⟨.whole i, .whole t, .whole r⟩ sleep = .error .numberRange := by
  rw [ofRates]
  by_cases hilt : i < Text.doubleLimit
  · obtain ⟨_, hinstructions⟩ := Quantity.exists_period_whole hi hilt
    by_cases htlt : t < Text.doubleLimit
    · obtain ⟨_, htimers⟩ := Quantity.exists_period_whole ht htlt
      have hrenders := Quantity.period_whole_of_le (n := r) (by omega)
      simp only [hinstructions, htimers, hrenders, bind, Except.bind]
    · have htimers := Quantity.period_whole_of_le (n := t) (by omega)
      simp only [hinstructions, htimers, bind, Except.bind]
  · have hinstructions := Quantity.period_whole_of_le (n := i) (by omega)
    simp only [hinstructions, bind, Except.bind]

end Plan

/-! ## Accepted settings -/

namespace Settings

variable {c : Settings} {source : Given}

/-- **Accepted settings, and how far they can be used.** The rates and the scale are positive
whole numbers, of any size, and the scheme has colours. The sleep is at or above zero unless
it is no number; and there is a plan exactly if every rate has a finite double, the only
other outcome being a number out of range. -/
theorem accepted_usable (h : ofSource source = .ok c) :
    ∃ i t r s : Int,
      (c.rates = ⟨.whole i, .whole t, .whole r⟩ ∧ c.scale = .whole s) ∧
      (1 ≤ i ∧ 1 ≤ t ∧ 1 ≤ r ∧ 1 ≤ s) ∧
      (∃ colors, ColorScheme.named c.colorScheme = .ok colors) ∧
      (0 ≤ c.idleSleep.toFloat ↔ c.idleSleep.toFloat.isNaN = false) ∧
      ((∃ plan, c.plan = .ok plan) ↔
        i < Text.doubleLimit ∧ t < Text.doubleLimit ∧ r < Text.doubleLimit) ∧
      ((∃ plan, c.plan = .ok plan) ∨ c.plan = .error .numberRange) := by
  obtain ⟨merged, hmerged, hvalid⟩ := bind_eq_ok_iff.mp h
  obtain ⟨rfl, hpositive, hsleep, hscheme⟩ := validate_eq_ok_iff.mp hvalid
  obtain ⟨i, t, r, s, hrates, hscale⟩ := (typed_merge hmerged).exists_whole
  simp only [positives, hrates, hscale, List.forall_mem_cons, List.not_mem_nil, false_imp_iff,
    implies_true, and_true, Quantity.notPositive_whole_iff] at hpositive
  obtain ⟨hi, ht, hr, hs⟩ := hpositive
  refine ⟨i, t, r, s, ⟨hrates, hscale⟩, ⟨hi, ht, hr, hs⟩, hscheme,
    Double.zero_le_iff_of_not_lt hsleep, ?_⟩
  rw [plan, hrates]
  by_cases hlimit : i < Text.doubleLimit ∧ t < Text.doubleLimit ∧ r < Text.doubleLimit
  · have hplan := Plan.exists_ofRates_whole hi ht hr c.idleSleep.toFloat hlimit
    exact ⟨iff_of_true hplan hlimit, .inl hplan⟩
  · have hplan := Plan.ofRates_whole_of_not_lt hi ht c.idleSleep.toFloat hlimit
    refine ⟨iff_of_false ?_ hlimit, .inr hplan⟩
    rintro ⟨plan, hok⟩
    rw [hplan] at hok
    cases hok

/-- Settings with a sleep that is no number. -/
def sleepless (timers : Int) : Settings :=
  { rates := ⟨.whole 700, .whole timers, .whole 60⟩, idleSleep := ⟨0x7FF8000000000000⟩ }

/-- Such a sleep is not refused, nor is any positive whole number as a rate. -/
theorem ofSource_sleepless {timers : Int} (h : 1 ≤ timers) :
    ofSource (.record [("idle_sleep", .text "nan"), ("timer_frequency", .whole timers)]) =
      .ok (sleepless timers) := by
  have hvalid : (sleepless timers).validate = .ok (sleepless timers) := by
    refine validate_eq_ok_iff.mpr ⟨rfl, ?_, ?_, _, rfl⟩
    · simp only [positives, sleepless, List.forall_mem_cons, List.not_mem_nil, false_imp_iff,
        implies_true, and_true, Quantity.notPositive_whole_iff]
      omega
    · rw [Double.lt_zero_iff]
      show ¬ (Float.ofBits 0x7FF8000000000000).toModel.unpack.compare _ = _
      decide
  exact bind_eq_ok_iff.mpr ⟨sleepless timers, rfl, hvalid⟩

/-- Both at once: the sleep is not at or above zero, and the timers have no period. -/
theorem accepted_without_plan :
    ∃ c, ofSource (.record [("idle_sleep", .text "nan"),
        ("timer_frequency", .whole Text.doubleLimit)]) = .ok c ∧
      ¬ 0 ≤ c.idleSleep.toFloat ∧ c.plan = .error .numberRange := by
  have hlimit : (1 : Int) ≤ Text.doubleLimit := by
    have hpos : 0 < Text.doubleLimit := Nat.mul_pos (by decide) (Text.twoTo_pos 970)
    omega
  have haccepted := ofSource_sleepless hlimit
  obtain ⟨i, t, r, s, ⟨hrates, -⟩, -, -, hsleep, hplan, herror⟩ := accepted_usable haccepted
  refine ⟨_, haccepted, ?_, ?_⟩
  · rw [hsleep]
    decide
  · refine herror.resolve_left fun hok => ?_
    cases hrates
    exact absurd (hplan.mp hok).2.1 (Int.lt_irrefl _)

end Settings
end ChipEight
