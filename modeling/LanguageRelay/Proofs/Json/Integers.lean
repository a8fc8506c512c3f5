import LanguageRelay.Json.Integer
import LanguageRelay.Proofs.Text.Numeral
import Mathlib.Algebra.Order.Field.Rat
import Mathlib.Data.List.Basic
import Mathlib.Data.List.TakeWhile
/-!
# The integer a value stands for

`Json.toInteger` computes; `Json.ReadsAs` says what: a truth value is one or
zero, a double is cut off towards zero, and a text is a numeral
(`Numeral.Denotes`): rows of digits of any script with single underscores
between them, a sign in front, and blanks around. The two agree
(`toInteger_eq_ok_iff`), and the one failure that is not a matter of reading
is that of an infinite double.
-/

namespace LanguageRelay

namespace Numeral

/-! ## Rows of digits -/

/-- The number that digits denote behind those read so far. -/
def numberFrom (sofar : Nat) (ds : List Char) : Nat :=
  ds.foldl (fun v c => 10 * v + (digitValue? c).getD 0) sofar

/-- The characters are digits, of any script. -/
def AllDigits (cs : List Char) : Prop := ∀ c ∈ cs, digitValue? c ≠ none

/-- Rows of digits, none of them empty. -/
def Rows (rows : List (List Char)) : Prop := ∀ row ∈ rows, row ≠ [] ∧ AllDigits row

/-- **An integer numeral**: rows of digits with single underscores between
them, one sign in front, blanks around, and no more digits than are taken. -/
def Denotes (text : List Char) (n : Int) : Prop :=
  ∃ before sign rows after, text = before ++ sign ++ ['_'].intercalate rows ++ after ∧
    (∀ c ∈ before ++ after, isSpace c = true) ∧ rows ≠ [] ∧ Rows rows ∧
    rows.flatten.length ≤ maxDigits ∧
    (sign ∈ [[], ['+']] ∧ n = numberFrom 0 rows.flatten ∨
      sign = ['-'] ∧ n = -numberFrom 0 rows.flatten)

theorem not_digit_underscore : digitValue? '_' = none := by decide

/-- A text begins with its first row, or with an underscore if that is
empty. -/
theorem cons_eq_intercalate {c : Char} {cs row : List Char} {rows : List (List Char)} :
    c :: cs = ['_'].intercalate (row :: rows) ↔
      (row = [] ∧ c = '_' ∧ rows ≠ [] ∧ cs = ['_'].intercalate rows) ∨
        ∃ row', row = c :: row' ∧ cs = ['_'].intercalate (row' :: rows) := by
  cases row with
  | nil => cases rows <;> simp [List.intercalate_cons_cons]
  | cons d row =>
    have hrest : ['_'].intercalate ((d :: row) :: rows) = d :: ['_'].intercalate (row :: rows) := by
      cases rows <;> simp [List.intercalate_cons_cons]
    rw [hrest]
    constructor
    · intro h
      obtain ⟨rfl, rfl⟩ := List.cons.inj h
      exact .inr ⟨row, rfl, rfl⟩
    · rintro (⟨hnil, -⟩ | ⟨row', hrow, rfl⟩)
      · cases hnil
      · cases hrow
        rfl

/-- Where an underscore may not come next, digits are read as a row and the
rows behind it; where one may, the first row may be empty. -/
theorem readDigits_eq_some_iff {afterDigit : Bool} {sofar v : Nat} {cs : List Char} :
    readDigits afterDigit sofar cs = some v ↔
      ∃ row rows, cs = ['_'].intercalate (row :: rows) ∧ (afterDigit = false → row ≠ []) ∧
        AllDigits row ∧ Rows rows ∧ v = numberFrom sofar (row ++ rows.flatten) := by
  induction cs generalizing afterDigit sofar with
  | nil =>
    rw [readDigits]
    constructor
    · intro h
      cases afterDigit with
      | false => simp at h
      | true =>
        exact ⟨[], [], rfl, by simp, by simp [AllDigits], by simp [Rows], (Option.some.inj h).symm⟩
    · rintro ⟨row, rows, htext, hfirst, -, -, rfl⟩
      cases rows with
      | cons next rows => simp [List.intercalate_cons_cons] at htext
      | nil =>
        obtain rfl : [] = row := by simpa using htext
        cases afterDigit with
        | false => exact absurd rfl (hfirst rfl)
        | true => rfl
  | cons c cs ih =>
    rw [readDigits]
    by_cases hc : c = '_'
    · subst hc
      rw [if_pos (by simp)]
      constructor
      · intro h
        cases afterDigit with
        | false => simp at h
        | true =>
          obtain ⟨row, rows, rfl, hfirst, hrow, hrows, rfl⟩ := ih.mp h
          exact ⟨[], row :: rows, cons_eq_intercalate.mpr (.inl ⟨rfl, rfl, by simp, rfl⟩), by simp,
            by simp [AllDigits], List.forall_mem_cons.mpr ⟨⟨hfirst rfl, hrow⟩, hrows⟩, by simp⟩
      · rintro ⟨row, rows, htext, hfirst, hrow, hrows, rfl⟩
        rcases cons_eq_intercalate.mp htext with ⟨rfl, -, hne, rfl⟩ | ⟨row', rfl, -⟩
        · obtain ⟨next, rows, rfl⟩ := List.exists_cons_of_ne_nil hne
          obtain ⟨hnext, hrows⟩ := List.forall_mem_cons.mp hrows
          cases afterDigit with
          | false => exact absurd rfl (hfirst rfl)
          | true => exact ih.mpr ⟨next, rows, rfl, fun _ => hnext.1, hnext.2, hrows, by simp⟩
        · -- the underscore would be a digit of the first row
          exact absurd not_digit_underscore (hrow '_' List.mem_cons_self)
    · rw [if_neg (by simpa using hc)]
      have hnumber : ∀ d ds, digitValue? c = some d →
          numberFrom sofar (c :: ds) = numberFrom (10 * sofar + d) ds := by
        intro d ds hd
        simp [numberFrom, hd]
      constructor
      · intro h
        cases hd : digitValue? c with
        | none => simp [hd] at h
        | some d =>
          rw [hd] at h
          obtain ⟨row, rows, rfl, -, hrow, hrows, rfl⟩ := ih.mp h
          exact ⟨c :: row, rows, cons_eq_intercalate.mpr (.inr ⟨row, rfl, rfl⟩), by simp,
            List.forall_mem_cons.mpr ⟨by simp [hd], hrow⟩, hrows,
            by rw [List.cons_append, hnumber d _ hd]⟩
      · rintro ⟨row, rows, htext, -, hrow, hrows, rfl⟩
        rcases cons_eq_intercalate.mp htext with ⟨-, hunderscore, -⟩ | ⟨row', rfl, rfl⟩
        · exact absurd hunderscore hc
        · obtain ⟨hdigit, hrow⟩ := List.forall_mem_cons.mp hrow
          obtain ⟨d, hd⟩ := Option.ne_none_iff_exists'.mp hdigit
          rw [hd]
          exact (@ih true (10 * sofar + d)).mpr ⟨row', rows, rfl, by simp, hrow, hrows,
            by rw [List.cons_append, hnumber d _ hd]⟩

/-- Digits alone are read as rows. -/
theorem readDigits_eq_some_iff_rows {v : Nat} {cs : List Char} :
    readDigits false 0 cs = some v ↔ ∃ rows, cs = ['_'].intercalate rows ∧ rows ≠ [] ∧ Rows rows ∧
      v = numberFrom 0 rows.flatten := by
  rw [readDigits_eq_some_iff]
  constructor
  · rintro ⟨row, rows, rfl, hfirst, hrow, hrows, rfl⟩
    exact ⟨row :: rows, rfl, by simp, List.forall_mem_cons.mpr ⟨⟨hfirst rfl, hrow⟩, hrows⟩, by simp⟩
  · rintro ⟨rows, rfl, hne, hrows, rfl⟩
    cases rows with
    | nil => exact absurd rfl hne
    | cons row rows =>
      obtain ⟨hrow, hrows⟩ := List.forall_mem_cons.mp hrows
      exact ⟨row, rows, rfl, fun _ => hrow.1, hrow.2, hrows, by simp⟩

/-! ## Blanks and signs -/

/-- Trimming takes blanks off both ends, and leaves none there. -/
theorem trimSpace_spec (text : List Char) :
    ∃ before after, text = before ++ trimSpace text ++ after ∧
      ∀ c ∈ before ++ after, isSpace c = true := by
  refine ⟨text.takeWhile isSpace, ((text.dropWhile isSpace).reverse.takeWhile isSpace).reverse,
    ?_, fun c hc => ?_⟩
  · rw [trimSpace, List.append_assoc, ← List.reverse_append, List.takeWhile_append_dropWhile,
      List.reverse_reverse, List.takeWhile_append_dropWhile]
  · rcases List.mem_append.mp hc with hc | hc
    · exact List.mem_takeWhile_imp hc
    · exact List.mem_takeWhile_imp (List.mem_reverse.mp hc)

/-- A text that begins and ends with no blank is what trimming leaves. -/
theorem trimSpace_append {before body after : List Char}
    (hblank : ∀ c ∈ before ++ after, isSpace c = true)
    (hbody : ∀ c ∈ body, isSpace c = false) : trimSpace (before ++ body ++ after) = body := by
  have hbefore : ∀ c ∈ before, isSpace c = true :=
    fun c hc => hblank c (List.mem_append_left _ hc)
  have hafter : ∀ c ∈ after.reverse, isSpace c = true :=
    fun c hc => hblank c (List.mem_append_right _ (List.mem_reverse.mp hc))
  rw [trimSpace, List.append_assoc, List.dropWhile_append_of_pos hbefore]
  cases hbody' : body with
  | nil =>
    rw [List.nil_append, List.dropWhile_eq_nil_iff.mpr fun c hc =>
      hblank c (List.mem_append_right _ hc)]
    rfl
  | cons c cs =>
    rw [← hbody', List.dropWhile_append, dropWhile_isSpace_of_digits hbody,
      if_neg (by simp [hbody']), List.reverse_append, List.dropWhile_append_of_pos hafter,
      dropWhile_isSpace_of_digits (by simpa using hbody), List.reverse_reverse]

/-- A digit of any script is no blank, and no sign. -/
theorem digit_plain {c : Char} (h : digitValue? c ≠ none) :
    isSpace c = false ∧ c ≠ '-' ∧ c ≠ '+' := by
  obtain ⟨z, hz, hlow, hhigh⟩ : ∃ z ∈ zeros, z ≤ c.toNat ∧ c.toNat ≤ z + 9 := by
    cases hfind : zeros.find? fun z => z ≤ c.toNat && c.toNat ≤ z + 9 with
    | none => simp [digitValue?, hfind] at h
    | some z => exact ⟨z, List.mem_of_find?_eq_some hfind, by simpa using List.find?_some hfind⟩
  have hleast : ∀ z ∈ zeros, 48 ≤ z := by decide
  have hapart : ∀ z ∈ zeros, ∀ range ∈ blankRanges, z + 9 < range.1 ∨ range.2 < z := by decide
  have hleast := hleast z hz
  refine ⟨?_, ?_, ?_⟩
  · have hblank : isBlank c = false := by
      rw [isBlank, inRanges, List.any_eq_false]
      intro range hrange
      have hapart := hapart z hz range hrange
      simp only [Bool.and_eq_true, decide_eq_true_eq, not_and]
      omega
    rw [isSpace, hblank, Bool.false_and]
  · rintro rfl
    exact absurd hleast (by simp at hlow; omega)
  · rintro rfl
    exact absurd hleast (by simp at hlow; omega)

/-- Rows of digits with underscores between them hold neither blanks nor
signs. -/
theorem rows_plain {rows : List (List Char)} (h : Rows rows) :
    ∀ c ∈ ['_'].intercalate rows, isSpace c = false ∧ c ≠ '-' ∧ c ≠ '+' := by
  induction rows with
  | nil => simp
  | cons row rows ih =>
    obtain ⟨hrow, hrows⟩ := List.forall_mem_cons.mp h
    intro c hc
    cases rows with
    | nil => exact digit_plain (hrow.2 c (by simpa using hc))
    | cons next rows =>
      rw [List.intercalate_cons_cons, List.mem_append, List.mem_append] at hc
      rcases hc with (hc | hc) | hc
      · exact digit_plain (hrow.2 c hc)
      · rw [List.mem_singleton.mp hc]
        decide
      · exact ih hrows c hc

/-- The digits among rows with underscores between them are those of the
rows. -/
theorem digits_of_rows {rows : List (List Char)} (h : Rows rows) :
    (['_'].intercalate rows).filter (fun c => (digitValue? c).isSome) = rows.flatten := by
  have hrow : ∀ {row}, AllDigits row → row.filter (fun c => (digitValue? c).isSome) = row :=
    fun hrow => List.filter_eq_self.mpr fun c hc => Option.isSome_iff_ne_none.mpr (hrow c hc)
  induction rows with
  | nil => rfl
  | cons row rows ih =>
    obtain ⟨hfirst, hrows⟩ := List.forall_mem_cons.mp h
    cases rows with
    | nil => simp [hrow hfirst.2]
    | cons next rows =>
      rw [List.intercalate_cons_cons, List.filter_append, List.filter_append, hrow hfirst.2,
        ih hrows, List.filter_singleton, not_digit_underscore]
      simp

/-- The signs hold no digit and no blank. -/
theorem sign_plain {sign : List Char} (h : sign ∈ [[], ['+'], ['-']]) :
    sign.filter (fun c => (digitValue? c).isSome) = [] ∧ ∀ c ∈ sign, isSpace c = false := by
  have hplus : digitValue? '+' = none ∧ isSpace '+' = false := by decide
  have hminus : digitValue? '-' = none ∧ isSpace '-' = false := by decide
  simp only [List.mem_cons, List.not_mem_nil, or_false] at h
  obtain rfl | rfl | rfl := h
  · simp
  · simp [hplus]
  · simp [hminus]

/-- A text that is read as an integer is a numeral for it. -/
theorem denotes_of_readInt? {text : List Char} {n : Int} (h : readInt? text = some n) :
    Denotes text n := by
  obtain ⟨before, after, htext, hblank⟩ := trimSpace_spec text
  rw [readInt?] at h
  split at h
  · cases h
  · rename_i hcount
    generalize trimSpace text = body at h hcount htext
    subst htext
    -- the digits counted are those of the rows, as a sign is none
    have hdenotes : ∀ sign ∈ [[], ['+'], ['-']], ∀ rest v, body = sign ++ rest →
        readDigits false 0 rest = some v → ∃ rows, rest = ['_'].intercalate rows ∧ rows ≠ [] ∧
          Rows rows ∧ rows.flatten.length ≤ maxDigits ∧ v = numberFrom 0 rows.flatten := by
      rintro sign hsign rest v rfl hv
      obtain ⟨rows, rfl, hne, hrows, rfl⟩ := readDigits_eq_some_iff_rows.mp hv
      rw [List.filter_append, (sign_plain hsign).1, digits_of_rows hrows] at hcount
      exact ⟨rows, rfl, hne, hrows, Nat.le_of_not_lt hcount, rfl⟩
    have hsome : ∀ {f : Int → Int} {rest}, ((readDigits false 0 rest : Option Nat).bind
        fun v => some (v : Int)).map f = some n →
          ∃ v, readDigits false 0 rest = some v ∧ f v = n := by
      intro f rest h
      cases hv : readDigits false 0 rest with
      | none => simp [hv] at h
      | some v => exact ⟨v, rfl, by simpa [hv] using h⟩
    split at h
    · obtain ⟨v, hv, rfl⟩ := hsome h
      obtain ⟨rows, rfl, hne, hrows, hlength, rfl⟩ := hdenotes ['-'] (by simp) _ v rfl hv
      exact ⟨before, ['-'], rows, after, by simp, hblank, hne, hrows, hlength, .inr ⟨rfl, rfl⟩⟩
    · obtain ⟨v, hv, rfl⟩ := hsome h
      obtain ⟨rows, rfl, hne, hrows, hlength, rfl⟩ := hdenotes ['+'] (by simp) _ v rfl hv
      exact ⟨before, ['+'], rows, after, by simp, hblank, hne, hrows, hlength,
        .inl ⟨by simp, rfl⟩⟩
    · obtain ⟨v, hv, rfl⟩ := hsome h
      obtain ⟨rows, rfl, hne, hrows, hlength, rfl⟩ := hdenotes [] (by simp) _ v rfl hv
      exact ⟨before, [], rows, after, by simp, hblank, hne, hrows, hlength, .inl ⟨by simp, rfl⟩⟩

/-- A numeral is read as the integer it denotes. -/
theorem readInt?_of_denotes {text : List Char} {n : Int} (h : Denotes text n) :
    readInt? text = some n := by
  obtain ⟨before, sign, rows, after, rfl, hblank, hne, hrows, hlength, hsign⟩ := h
  have hsigns : sign ∈ [[], ['+'], ['-']] := by
    rcases hsign with ⟨hsign, -⟩ | ⟨rfl, -⟩
    · simp only [List.mem_cons, List.not_mem_nil, or_false] at hsign ⊢
      exact hsign.imp_right .inl
    · simp
  have hbody : ∀ c ∈ sign ++ ['_'].intercalate rows, isSpace c = false := by
    intro c hc
    rcases List.mem_append.mp hc with hc | hc
    · exact (sign_plain hsigns).2 c hc
    · exact (rows_plain hrows c hc).1
  have hread : readDigits false 0 (['_'].intercalate rows) = some (numberFrom 0 rows.flatten) :=
    readDigits_eq_some_iff_rows.mpr ⟨rows, rfl, hne, hrows, rfl⟩
  rw [readInt?, List.append_assoc before, trimSpace_append hblank hbody, List.filter_append,
    (sign_plain hsigns).1, List.nil_append, digits_of_rows hrows,
    if_neg (Nat.not_lt.mpr hlength)]
  rcases hsign with ⟨hsign, rfl⟩ | ⟨rfl, rfl⟩
  · simp only [List.mem_cons, List.not_mem_nil, or_false] at hsign
    rcases hsign with rfl | rfl
    · rw [List.nil_append]
      split
      · rename_i hminus
        exact absurd rfl (rows_plain hrows '-' (hminus ▸ List.mem_cons_self)).2.1
      · rename_i hplus
        exact absurd rfl (rows_plain hrows '+' (hplus ▸ List.mem_cons_self)).2.2
      · simp [hread]
    · simp [hread]
  · simp [hread]

/-- **The texts that are read as integers are the numerals.** -/
theorem readInt?_eq_some_iff {text : List Char} {n : Int} :
    readInt? text = some n ↔ Denotes text n :=
  ⟨denotes_of_readInt?, readInt?_of_denotes⟩

end Numeral

/-! ## Doubles -/

namespace Double

/-- The magnitude of a finite double is its mantissa times its power of
two. -/
theorem magnitude_eq (m : Nat) (e : Int) :
    0 < (magnitude m e).2 ∧
      (((magnitude m e).1 : Rat) / (magnitude m e).2 = m * (2 : Rat) ^ e) := by
  unfold magnitude
  split
  · rename_i he
    obtain ⟨k, rfl⟩ := Int.eq_ofNat_of_zero_le he
    simp
  · rename_i he
    obtain ⟨k, rfl⟩ : ∃ k : Nat, e = -(k : Int) := ⟨(-e).toNat, by omega⟩
    simp [div_eq_mul_inv]

/-- **A finite double loses its fraction**: what is left is the greatest
number that is no greater in magnitude, with the sign. -/
theorem truncate?_eq_some_iff {negative : Bool} {m : Nat} {e n : Int} :
    (finite negative m e).truncate? = some n ↔
      ∃ q : Nat, (q : Rat) ≤ m * (2 : Rat) ^ e ∧ m * (2 : Rat) ^ e < q + 1 ∧
        n = if negative then -(q : Int) else q := by
  obtain ⟨hpos, hvalue⟩ := magnitude_eq m e
  have hden : (0 : Rat) < (magnitude m e).2 := by exact_mod_cast hpos
  have hquotient : ∀ q : Nat, (q : Rat) ≤ m * (2 : Rat) ^ e ∧ m * (2 : Rat) ^ e < q + 1 ↔
      (magnitude m e).1 / (magnitude m e).2 = q := by
    intro q
    have hbounds : (magnitude m e).1 / (magnitude m e).2 = q ↔
        q * (magnitude m e).2 ≤ (magnitude m e).1 ∧
          (magnitude m e).1 < (q + 1) * (magnitude m e).2 := by
      rw [← Nat.le_div_iff_mul_le hpos, ← Nat.div_lt_iff_lt_mul hpos]
      omega
    rw [← hvalue, le_div_iff₀ hden, div_lt_iff₀ hden, hbounds]
    norm_cast
  simp only [← and_assoc, hquotient]
  simp [truncate?, eq_comm]

end Double

/-! ## Values -/

namespace Json

/-- **The integer a value stands for.** -/
inductive ReadsAs : Json → Int → Prop where
  | truth (b : Bool) : ReadsAs (.bool b) (if b then 1 else 0)
  | exact (n : Int) : ReadsAs (.int n) n
  /-- A double is cut off towards zero. -/
  | cut {m q : Nat} {e : Int} (negative : Bool) (hle : (q : Rat) ≤ m * (2 : Rat) ^ e)
      (hlt : m * (2 : Rat) ^ e < q + 1) :
      ReadsAs (.float (.finite negative m e)) (if negative then -(q : Int) else q)
  | numeral {s : String} {n : Int} (h : Numeral.Denotes s.toList n) : ReadsAs (.str s) n

/-- The value is an infinite double. -/
def IsEndless (v : Json) : Prop := ∃ negative, v = .float (.infinite negative)

/-- **A value is read as an integer just if it stands for one.** -/
theorem toInteger_eq_ok_iff {v : Json} {n : Int} : v.toInteger = .ok n ↔ v.ReadsAs n := by
  constructor
  · intro h
    cases v with
    | bool b =>
      cases h
      exact .truth b
    | int =>
      cases h
      exact .exact n
    | float x =>
      cases x with
      | finite negative m e =>
        have hcut : (Double.finite negative m e).truncate? = some n :=
          congrArg some (Except.ok.inj h)
        obtain ⟨q, hle, hlt, rfl⟩ := Double.truncate?_eq_some_iff.mp hcut
        exact .cut negative hle hlt
      | _ => simp [toInteger] at h
    | str s =>
      cases hs : Numeral.readInt? s.toList with
      | none => simp [toInteger, hs] at h
      | some k =>
        obtain rfl : k = n := by simpa [toInteger, hs] using h
        exact .numeral (Numeral.readInt?_eq_some_iff.mp hs)
    | _ => simp [toInteger] at h
  · intro h
    cases h with
    | truth b => rfl
    | exact n => rfl
    | cut negative hle hlt =>
      simp [toInteger, Double.truncate?_eq_some_iff.mpr ⟨_, hle, hlt, rfl⟩]
    | numeral h => simp [toInteger, Numeral.readInt?_eq_some_iff.mpr h]

/-- **Only an infinite double is too large to be read.** -/
theorem toInteger_eq_infinite_iff {v : Json} :
    v.toInteger = .error .infinite ↔ v.IsEndless := by
  constructor
  · intro h
    cases v with
    | float x =>
      cases x with
      | infinite negative => exact ⟨negative, rfl⟩
      | _ => simp [toInteger] at h
    | str s => cases hs : Numeral.readInt? s.toList <;> simp [toInteger, hs] at h
    | _ => simp [toInteger] at h
  · rintro ⟨negative, rfl⟩
    rfl

end Json

end LanguageRelay
