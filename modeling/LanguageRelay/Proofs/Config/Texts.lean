import LanguageRelay.Config.Setting
import LanguageRelay.Proofs.Text.Numeral
/-!
# The text of a setting

A setting that counts as given has a text, and that is not empty
(`text_ne_empty`).
-/

namespace LanguageRelay

namespace Decimal

theorem digits_ofDigits_ne_nil (n : Nat) (power : Int) : (ofDigits n power).digits ≠ [] := by
  unfold ofDigits
  dsimp only
  split
  · exact List.cons_ne_nil _ _
  · simp_all

theorem digits_searchGrid_ne_nil (low mid high den : Nat) (closed : Bool) (tries : Nat)
    (power : Int) : (searchGrid low mid high den closed tries power).digits ≠ [] := by
  induction tries generalizing power with
  | zero => exact digits_ofDigits_ne_nil _ _
  | succ tries ih =>
    rw [searchGrid]
    split
    · exact digits_ofDigits_ne_nil _ _
    · exact ih _

theorem digits_shortest_ne_nil (m : Nat) (e : Int) : (shortest m e).digits ≠ [] := by
  unfold shortest
  split
  · exact List.cons_ne_nil _ _
  · exact digits_searchGrid_ne_nil _ _ _ _ _ _ _

/-- Digits are not lost when they are set. -/
theorem Layout.write_ne_nil (layout : Layout) {d : Decimal} (h : d.digits ≠ []) :
    layout.write d ≠ [] := by
  obtain ⟨x, rest, hd⟩ := List.exists_cons_of_ne_nil h
  unfold write
  simp only [hd]
  split
  · split
    · exact List.cons_ne_nil _ _
    · split <;> simp
  · cases rest <;> simp

end Decimal

theorem Double.text_ne_empty (x : Double) : x.text ≠ "" := by
  cases x with
  | nan => decide
  | infinite negative => cases negative <;> decide
  | finite negative m e =>
    have hdigits := Decimal.Layout.value.write_ne_nil (Decimal.digits_shortest_ne_nil m e)
    cases negative <;> simp [Double.text, signed, hdigits]

namespace Setting

/-- **What is given has a text.** -/
theorem text_ne_empty {v : Setting} (h : v.isTruthy) : v.text ≠ "" := by
  cases v with
  | null => cases h
  | bool b => cases b <;> decide
  | int n =>
    have hdigits := Numeral.digits_ne_nil n.natAbs
    by_cases hn : n < 0 <;> simp [text, literal, Numeral.showInt, hn, hdigits]
  | float x => exact Double.text_ne_empty x
  | str s => simpa [isTruthy, text] using h
  | date d => simp [text, Date.text]
  | time t => simp [text, TimeOfDay.text]
  | dateTime d => simp [text, DateTime.textWith]
  | list items => simp [text, literal]
  | table fields => simp [text, literal]

end Setting

end LanguageRelay
