/-
Screenshots of an open window.

A screenshot is refused for an unknown scheme, and for a file whose ending stands for no
format. Neither can meet an open window: it was opened with its scheme, and it names its
files itself, by a date and a time with ".png" behind them, which stands for a format in
every table. That the name has this ending
is a fact about the text of a time: it closes with a digit, so nothing before the point is
taken for a part of the ending.
-/
import ChipEight.Window
import ChipEight.Proofs.Success

set_option autoImplicit false

namespace ChipEight

/-! ## The names of screenshots -/

/-- The last character is a decimal digit. -/
def Text.ClosesWithDigit (cs : List Char) : Prop :=
  ∃ front, ∃ d : Fin 10, cs = front ++ [Char.ofNat ('0'.toNat + d)]

theorem Text.ClosesWithDigit.append {cs : List Char} (h : ClosesWithDigit cs)
    (front : List Char) : ClosesWithDigit (front ++ cs) := by
  obtain ⟨middle, d, rfl⟩ := h
  exact ⟨front ++ middle, d, by rw [List.append_assoc]⟩

theorem Text.closesWithDigit_digits (n : Nat) : ClosesWithDigit (digits n) := by
  rw [digits]
  by_cases h : n < 10
  · rw [if_pos h]
    exact ⟨[], ⟨n, h⟩, rfl⟩
  · rw [if_neg h]
    exact ⟨_, ⟨n % 10, by omega⟩, rfl⟩

theorem CalendarTime.closesWithDigit_stamp (t : CalendarTime) :
    Text.ClosesWithDigit t.stamp.toList := by
  have hsecond : Text.ClosesWithDigit (twoDigits t.second).toList := by
    rw [twoDigits, String.toList_ofList]
    exact (Text.closesWithDigit_digits t.second).append _
  rw [stamp, String.toList_append]
  exact hsecond.append _

/-- The ending of a file whose stem closes with something else than a point. -/
theorem Screenshot.ending_eq {file : String} {stem ext : List Char} {c : Char}
    (hfile : file.toList = stem ++ c :: '.' :: ext) (hc : c ≠ '.' ∧ c ≠ '/')
    (hext : ∀ x ∈ ext, x ≠ '.' ∧ x ≠ '/') : ending file = String.ofList ('.' :: ext) := by
  have hends : ∀ x ∈ ext.reverse ++ ['.', c], (x != '/') = true := by
    intro x hx
    simp only [List.mem_append, List.mem_reverse, List.mem_cons, List.not_mem_nil,
      or_false] at hx
    rcases hx with hx | rfl | rfl
    · simpa using (hext x hx).2
    · decide
    · simpa using hc.2
  have hpoint : ∀ x ∈ ext.reverse, (x != '.') = true := by
    intro x hx
    simpa using (hext x (List.mem_reverse.mp hx)).1
  -- The last part of the path, and what stays of it without the points at its start.
  obtain ⟨base, hbase⟩ : ∃ base, baseName file.toList = base ++ c :: '.' :: ext := by
    refine ⟨(stem.reverse.takeWhile (· != '/')).reverse, ?_⟩
    have hreverse : file.toList.reverse = (ext.reverse ++ ['.', c]) ++ stem.reverse := by
      simp [hfile]
    rw [baseName, hreverse, List.takeWhile_append_of_pos hends]
    simp
  obtain ⟨name, hname⟩ : ∃ name, (baseName file.toList).dropWhile (· == '.') =
      name ++ c :: '.' :: ext := by
    rw [hbase, List.dropWhile_append]
    split
    · exact ⟨[], by simp [hc.1]⟩
    · exact ⟨_, rfl⟩
  have hreverse : (name ++ c :: '.' :: ext).reverse = ext.reverse ++ '.' :: c :: name.reverse := by
    simp
  rw [ending, hname, hreverse, if_pos (by simp), List.takeWhile_append_of_pos hpoint]
  simp

namespace Window

/-- **The name of a screenshot** ends with ".png", whatever the time. -/
theorem ending_screenshotName (epoch : Int) :
    Screenshot.ending (screenshotName epoch) = ".png" := by
  obtain ⟨front, d, hstamp⟩ := (CalendarTime.ofSeconds epoch).closesWithDigit_stamp
  have hdigit : ∀ d : Fin 10,
      Char.ofNat ('0'.toNat + d) ≠ '.' ∧ Char.ofNat ('0'.toNat + d) ≠ '/' := by decide
  have hname : (screenshotName epoch).toList =
      ("octet_".toList ++ front) ++ Char.ofNat ('0'.toNat + d) :: '.' :: ['p', 'n', 'g'] := by
    rw [screenshotName, String.toList_append, String.toList_append, hstamp]
    simp
  exact Screenshot.ending_eq hname (hdigit d) (by simp)

/-! ## Screenshots -/

/-- The window has the colours of its scheme. -/
def Opened (w : Window) : Prop := ColorScheme.named w.scheme = .ok w.colors

variable {w : Window}

theorem opened_of_create {scale : Int} {scheme : String}
    (h : create scale scheme = .ok w) : w.Opened := by
  unfold create at h
  obtain ⟨colors, hcolors, hw⟩ := bind_eq_ok_iff.mp h
  cases hw
  exact hcolors

theorem Opened.render (h : w.Opened) (g : Grid) : (w.render g).Opened := h

/-- **An open window takes a screenshot** of what was shown last, at any time. -/
theorem Opened.screenshot_eq (h : w.Opened) (formats : PictureFormats) (epoch : Int) :
    w.screenshot formats epoch =
      .ok ⟨screenshotName epoch, Frame.render w.lastDisplay w.scale w.colors⟩ := by
  have hscheme : ColorScheme.named w.scheme = .ok w.colors := h
  have hlower : ".png".toLower = ".png" := by decide +kernel
  have hformat : ".png".toLower ∈ formats.endings := by
    rw [hlower]
    exact formats.png_mem
  rw [screenshot, Screenshot.take, hscheme, ending_screenshotName]
  simp only [bind, Except.bind, if_pos hformat]
  rfl

end Window
end ChipEight
