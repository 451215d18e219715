import CurveSketch.Violation

/- Texts that stand on one line. Numbers are written in digits and a few other characters, so they
   do, and with them every message about the tested function. -/
namespace CurveSketch

def OneLine (text : String) : Prop := '\n' ∉ text.toList

instance (text : String) : Decidable (OneLine text) :=
  inferInstanceAs (Decidable ('\n' ∉ text.toList))

theorem oneLine_append (a b : String) : OneLine (a ++ b) ↔ OneLine a ∧ OneLine b := by
  simp [OneLine]

namespace Decimal

theorem break_notin_digits (n : Nat) : '\n' ∉ Nat.toDigits 10 n := by
  intro member
  have digit := Nat.isDigit_of_mem_toDigits (by decide) (by decide) member
  exact absurd digit (by decide)

theorem break_notin_zeros (n : Nat) : '\n' ∉ zeros n := by
  simp [zeros]

theorem break_notin_pointed (n places : Nat) : '\n' ∉ pointed n places := by
  have padded : '\n' ∉ zeros (places + 1 - (Nat.toDigits 10 n).length) ++ Nat.toDigits 10 n := by
    rw [List.mem_append, not_or]
    exact ⟨break_notin_zeros _, break_notin_digits n⟩
  rw [pointed]
  split
  · exact break_notin_digits n
  · intro member
    rcases List.mem_append.mp member with front | back
    · exact padded (List.mem_of_mem_take front)
    · rcases List.mem_cons.mp back with point | fraction
      · exact absurd point (by decide)
      · exact padded (List.mem_of_mem_drop fraction)

theorem break_notin_window (w : Window) : '\n' ∉ w.text := by
  simp only [Window.text]
  split
  · exact break_notin_pointed _ _
  · rw [List.mem_append, not_or]
    exact ⟨break_notin_pointed _ _, break_notin_zeros _⟩

theorem break_notin_unsigned (exponent fraction : Nat) : '\n' ∉ unsigned exponent fraction := by
  rw [unsigned]
  split
  · decide
  · split
    · split
      · decide
      · exact break_notin_window _
    · exact break_notin_window _

theorem text_oneLine (x : Float) : OneLine (text x) := by
  have digits := break_notin_unsigned (x.toBits.toNat / leadingOne % 0x800)
    (x.toBits.toNat % leadingOne)
  simp only [text, OneLine]
  split
  · decide
  · split
    · rw [String.toList_ofList]
      exact digits
    · rw [String.toList_ofList, List.mem_cons, not_or]
      exact ⟨by decide, digits⟩

end Decimal

theorem count_oneLine (n : Nat) : OneLine (toString n) := by
  simpa [OneLine] using Decimal.break_notin_digits n

theorem Missing.text_oneLine (missing : Missing) : OneLine missing.text := by
  cases missing <;> decide

theorem Violation.message_oneLine (violation : Violation Float) : OneLine violation.message := by
  unfold Violation.message
  cases violation with
  | unequal x output expected =>
    simp only [oneLine_append, Decimal.text_oneLine, and_true]
    decide
  | outside x output low high =>
    simp only [oneLine_append, Decimal.text_oneLine, and_true]
    decide
  | unspanned firstX lastX low high missing =>
    simp only [oneLine_append, Decimal.text_oneLine, missing.text_oneLine, and_true]
    decide
  | failed x cause =>
    simp only [oneLine_append, Decimal.text_oneLine, and_true]
    decide

end CurveSketch
