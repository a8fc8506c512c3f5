import LanguageRelay.Proofs.Text.Numeral
import LanguageRelay.Service.Command
/-!
# A command is one line

The text of a value is printable ASCII from end to end (`plain_write`),
whatever its strings hold: what is not printable ASCII is escaped. So the
line that carries a command has one line feed, its last character.
-/

namespace LanguageRelay

/-- Nothing but printable ASCII. -/
def Plain (text : List Char) : Prop := ∀ c ∈ text, 0x20 ≤ c.toNat ∧ c.toNat ≤ 0x7e

instance (text : List Char) : Decidable (Plain text) :=
  List.decidableBAll _ text

@[simp] theorem plain_nil : Plain [] := by simp [Plain]

@[simp] theorem plain_cons {c : Char} {text : List Char} :
    Plain (c :: text) ↔ (0x20 ≤ c.toNat ∧ c.toNat ≤ 0x7e) ∧ Plain text := by
  simp [Plain]

@[simp] theorem plain_append {as bs : List Char} : Plain (as ++ bs) ↔ Plain as ∧ Plain bs :=
  List.forall_mem_append

/-- Either of two printable texts is printable. -/
theorem Plain.ite {p : Prop} [Decidable p] {as bs : List Char} (ha : Plain as) (hb : Plain bs) :
    Plain (if p then as else bs) := by
  by_cases h : p
  · rwa [if_pos h]
  · rwa [if_neg h]

theorem Plain.sublist {as bs : List Char} (h : Plain bs) (hs : as.Sublist bs) : Plain as :=
  fun c hc => h c (hs.subset hc)

/-- Printable text has no line feed. -/
theorem Plain.not_mem_lineFeed {text : List Char} (h : Plain text) : '\n' ∉ text := by
  intro hmem
  have := (h _ hmem).1
  revert this
  decide

/-! ## Numbers -/

theorem plain_digits (n : Nat) : Plain (Numeral.digits n) := by
  intro c hc
  have := Numeral.bounds_of_mem_digits hc
  omega

theorem plain_showInt (n : Int) : Plain (Numeral.showInt n) := by
  unfold Numeral.showInt
  split <;> simp [plain_digits]

theorem plain_replicate_zero (n : Nat) : Plain (List.replicate n '0') := by
  intro c hc
  rw [(List.mem_replicate.mp hc).2]
  decide

namespace Decimal

theorem plain_ofDigits (n : Nat) (power : Int) : Plain (ofDigits n power).digits := by
  refine Plain.ite (by decide) ((plain_digits n).sublist ?_)
  have hkept := (List.dropWhile_sublist (· == '0') (l := (Numeral.digits n).reverse)).reverse
  rwa [List.reverse_reverse] at hkept

theorem plain_searchGrid (low mid high den : Nat) (closed : Bool) (tries : Nat) (power : Int) :
    Plain (searchGrid low mid high den closed tries power).digits := by
  induction tries generalizing power with
  | zero => exact plain_ofDigits _ _
  | succ tries ih =>
    rw [searchGrid]
    split
    · exact plain_ofDigits _ _
    · exact ih _

theorem plain_shortest (m : Nat) (e : Int) : Plain (shortest m e).digits := by
  unfold shortest
  split
  · decide
  · exact plain_searchGrid _ _ _ _ _ _ _

theorem Layout.plain_power (n : Int) : Plain (power n) := by
  have hds := plain_digits n.natAbs
  by_cases h : n < 0
  all_goals
    simp only [power, digitsOf, h, if_true, if_false, plain_cons]
    exact ⟨by decide, by decide, Plain.ite (by simp [hds]) hds⟩

theorem Layout.plain_write (layout : Layout) {d : Decimal} (h : Plain d.digits) :
    Plain (layout.write d) := by
  have hsub : ∀ x rest, d.digits = x :: rest → (0x20 ≤ x.toNat ∧ x.toNat ≤ 0x7e) ∧ Plain rest := by
    intro x rest hd
    rwa [hd, plain_cons] at h
  unfold write
  simp only
  split
  · split
    · simp [plain_replicate_zero, h]
    · split
      · cases layout.keepFraction <;> simp [plain_replicate_zero, h]
      · simp [h.sublist (List.take_sublist _ _), h.sublist (List.drop_sublist _ _)]
  · split
    · exact plain_nil
    next x hd => simp [plain_power, (hsub _ _ hd).1]
    next x rest hd => simp [plain_power, hsub _ _ hd]

end Decimal

/-! ## Values -/

namespace Json

theorem plain_writeDouble (x : Double) : Plain (writeDouble x) := by
  cases x with
  | nan => decide
  | infinite negative => cases negative <;> decide
  | finite negative m e =>
    have hdigits := Decimal.Layout.value.plain_write (Decimal.plain_shortest m e)
    cases negative <;> simp [writeDouble, Double.text, Double.signed, hdigits]

theorem plain_unitEscape (n : Nat) : Plain (unitEscape n) := by
  have hdigit : ∀ d < 16, 0x20 ≤ (Quoted.hexDigit d).toNat ∧ (Quoted.hexDigit d).toNat ≤ 0x7e := by
    decide
  have hhex : ∀ width n, Plain (Quoted.hex width n) := by
    intro width
    induction width with
    | zero => simp [Quoted.hex]
    | succ width ih =>
      intro n
      simp [Quoted.hex, ih, hdigit _ (Nat.mod_lt n (by decide))]
  simp [unitEscape, hhex]

theorem plain_escapeChar (c : Char) : Plain (escapeChar c) := by
  unfold escapeChar
  repeat' split
  all_goals first
    | decide
    | skip
  next h => simpa using h
  next => exact plain_unitEscape _
  next => simp [plain_unitEscape]

theorem plain_writeString (s : String) : Plain (writeString s) := by
  have hchars : Plain (s.toList.flatMap escapeChar) := by
    intro c hc
    obtain ⟨x, -, hx⟩ := List.mem_flatMap.mp hc
    exact plain_escapeChar x c hx
  simp [writeString, hchars]

mutual

/-- **The text of a value is printable.** -/
theorem plain_write : ∀ v : Json, Plain v.write
  | .null => by simp only [write]; decide
  | .bool b => by cases b <;> simp only [write] <;> decide
  | .int n => by simp only [write]; exact plain_showInt n
  | .float x => by simp only [write]; exact plain_writeDouble x
  | .str s => by simp only [write]; exact plain_writeString s
  | .arr items => by simp [write, plain_writeItems items]
  | .obj fields => by simp [write, plain_writeFields fields]

theorem plain_writeItems : ∀ items : List Json, Plain (writeItems items)
  | [] => by simp [writeItems]
  | [v] => by simp only [writeItems]; exact plain_write v
  | v :: w :: rest => by simp [writeItems, plain_write v, plain_writeItems (w :: rest)]

theorem plain_writeFields : ∀ fields : List (String × Json), Plain (writeFields fields)
  | [] => by simp [writeFields]
  | [(k, v)] => by simp [writeFields, plain_writeString k, plain_write v]
  | (k, v) :: f :: rest => by
    simp [writeFields, plain_writeString k, plain_write v, plain_writeFields (f :: rest)]

end

end Json

/-- **A command is one line**: its text, and the line feed that ends it. -/
theorem Service.encodeLine_eq (v : Json) :
    ∃ text, Service.encodeLine v = text ++ ['\n'] ∧ '\n' ∉ text :=
  ⟨v.write, rfl, (Json.plain_write v).not_mem_lineFeed⟩

end LanguageRelay
