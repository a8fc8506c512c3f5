import LanguageRelay.Config.Build
import LanguageRelay.Proofs.Text.Utf8
import LanguageRelay.Proofs.Toml.Scanning
/-!
# Documents with too many digits

A document is refused for its digits only if one of its rows of digits is too
long (`longRow_of_read`): values may hold others to any depth, but each is read
from the text that the one around it leaves.
-/

namespace LanguageRelay

namespace Toml

variable {text : List Char}

/-! ## Values -/

/-- The values that a bound allows for. -/
def ScansValues (fuel : Nat) : Prop :=
  (∀ text, Scans text (value fuel text)) ∧
  (∀ acc text, Scans text (arrayItems fuel acc text)) ∧
  ∀ fixed acc text, Scans text (inlineTable fuel fixed acc text)

theorem scans_value_succ {fuel : Nat} (ih : ScansValues fuel) (text : List Char) :
    Scans text (value (fuel + 1) text) := by
  obtain ⟨-, hitems, htable⟩ := ih
  unfold value
  split
  · rename_i found hfound
    exact (scans_string? hfound).map Setting.str
  split
  · iterate 3 apply suffix_cons_of_suffix
    exact List.suffix_cons _ _
  · iterate 4 apply suffix_cons_of_suffix
    exact List.suffix_cons _ _
  · rename_i rest _
    have hgap := skips_skipGap rest.length.succ rest
    split
    · exact (skips_error hgap ‹_›).of_suffix (List.suffix_cons _ _)
    · exact suffix_cons_of_suffix ((List.suffix_cons _ _).trans (skips_ok hgap ‹_›))
    · exact (hitems _ _).of_suffix (suffix_cons_of_suffix (skips_ok hgap ‹_›))
  · rename_i rest _
    have hspace := skipSpace_suffix rest
    split
    · rename_i left hleft
      rw [hleft] at hspace
      exact suffix_cons_of_suffix ((List.suffix_cons _ _).trans hspace)
    · exact (htable _ _ _).of_suffix (suffix_cons_of_suffix hspace)
  · cases hmoment : moment? text with
    | some found => exact scans_moment? hmoment
    | none => exact scans_number text

theorem scans_arrayItems_succ {fuel : Nat} (ih : ScansValues fuel) (acc : List Setting)
    (text : List Char) : Scans text (arrayItems (fuel + 1) acc text) := by
  obtain ⟨hvalue, hitems, -⟩ := ih
  unfold arrayItems
  split
  · exact scans_error (hvalue text) ‹_›
  · rename_i v rest hv
    have hrest := scans_ok (hvalue text) hv
    have hgap := skips_skipGap rest.length.succ rest
    split
    · exact (skips_error hgap ‹_›).of_suffix hrest
    · exact ((List.suffix_cons _ _).trans (skips_ok hgap ‹_›)).trans hrest
    · rename_i left hleft
      have hcomma := ((List.suffix_cons _ _).trans (skips_ok hgap hleft)).trans hrest
      have hgap := skips_skipGap left.length.succ left
      split
      · exact (skips_error hgap ‹_›).of_suffix hcomma
      · exact ((List.suffix_cons _ _).trans (skips_ok hgap ‹_›)).trans hcomma
      · exact (hitems _ _).of_suffix ((skips_ok hgap ‹_›).trans hcomma)
    · trivial

theorem scans_inlineTable_succ {fuel : Nat} (ih : ScansValues fuel) (fixed : List (List String))
    (acc : Settings) (text : List Char) : Scans text (inlineTable (fuel + 1) fixed acc text) := by
  obtain ⟨hvalue, -, htable⟩ := ih
  have hkey := scans_key text
  unfold inlineTable
  split
  · exact scans_error hkey ‹_›
  split
  · rename_i k left hk
    have hequals : left <:+ text := (List.suffix_cons _ _).trans (scans_ok hkey hk)
    have hfrom := (skipSpace_suffix left).trans hequals
    split
    · exact (scans_error (hvalue _) ‹_›).of_suffix hfrom
    rename_i v rest hv
    have hrest := (scans_ok (hvalue _) hv).trans hfrom
    split
    · trivial
    have hspace := (skipSpace_suffix rest).trans hrest
    split
    · rename_i left hleft
      rw [hleft] at hspace
      exact (List.suffix_cons _ _).trans hspace
    · rename_i left hleft
      rw [hleft] at hspace
      exact (htable _ _ _).of_suffix
        ((skipSpace_suffix left).trans ((List.suffix_cons _ _).trans hspace))
    · trivial
  · trivial

/-- Every value is read from what the one around it leaves. -/
theorem scansValues (fuel : Nat) : ScansValues fuel := by
  induction fuel with
  | zero => exact ⟨fun _ => trivial, fun _ _ => trivial, fun _ _ _ => trivial⟩
  | succ fuel ih =>
    exact ⟨scans_value_succ ih, scans_arrayItems_succ ih, scans_inlineTable_succ ih⟩

/-! ## Statements -/

/-- A statement that makes no sense is malformed, whatever it says. -/
theorem assign_error {key : List String} {v : Setting} {s : State} {e : Fault}
    (h : s.assign key v = .error e) : e = .malformed := by
  unfold State.assign at h
  dsimp only at h
  split at h
  · cases h; rfl
  · split at h <;> cases h
    rfl

theorem openTable_error {key : List String} {s : State} {e : Fault}
    (h : s.openTable key = .error e) : e = .malformed := by
  unfold State.openTable at h
  dsimp only at h
  split at h
  · cases h; rfl
  · split at h <;> cases h
    rfl

theorem openItem_error {key : List String} {s : State} {e : Fault}
    (h : s.openItem key = .error e) : e = .malformed := by
  unfold State.openItem at h
  dsimp only at h
  split at h
  · cases h; rfl
  · split at h <;> cases h
    rfl

theorem scans_statement (text : List Char) (s : State) : Scans text (statement text s) := by
  unfold statement
  split
  · rename_i rest
    have hkey := (scans_key (skipSpace rest)).of_suffix (suffix_cons_of_suffix (c := '[')
      (suffix_cons_of_suffix (c := '[') (skipSpace_suffix rest)))
    split
    · exact scans_error hkey ‹_›
    · rename_i k left hk
      have hleft := scans_ok hkey hk
      split
      · rename_i e he
        obtain rfl := openItem_error he
        trivial
      · exact ((skipSpace_suffix _).trans
          (suffix_cons_of_suffix (List.suffix_cons _ _))).trans hleft
      · trivial
  · rename_i rest _
    have hkey := (scans_key (skipSpace rest)).of_suffix (suffix_cons_of_suffix (c := '[')
      (skipSpace_suffix rest))
    split
    · exact scans_error hkey ‹_›
    · rename_i k left hk
      have hleft := scans_ok hkey hk
      split
      · rename_i e he
        obtain rfl := openTable_error he
        trivial
      · exact ((skipSpace_suffix _).trans (List.suffix_cons _ _)).trans hleft
      · trivial
  · exact List.suffix_refl _
  · have hkey := scans_key text
    split
    · exact scans_error hkey ‹_›
    · rename_i k rest hk
      have hrest := (skipSpace_suffix rest).trans ((List.suffix_cons _ _).trans (scans_ok hkey hk))
      have hvalue := ((scansValues (2 * text.length + 2)).1 (skipSpace rest)).of_suffix hrest
      split
      · exact scans_error hvalue ‹_›
      · rename_i v left hv
        cases hassign : s.assign k v with
        | error e =>
          rw [assign_error hassign]
          trivial
        | ok s => exact (skipSpace_suffix left).trans (scans_ok hvalue hv)
    · trivial

theorem blames_statements {fuel : Nat} {text : List Char} {s : State} {e : Fault}
    (h : statements fuel text s = .error e) : Blames text e := by
  induction fuel generalizing text s with
  | zero =>
    cases h
    trivial
  | succ fuel ih =>
    have hspace := skipSpace_suffix text
    unfold statements at h
    split at h
    · cases h
    · rename_i rest hrest
      rw [hrest] at hspace
      exact (ih h).of_suffix ((List.suffix_cons _ _).trans hspace)
    · have hstatement := (scans_statement (skipSpace text) s).of_suffix hspace
      split at h
      · cases h
        exact scans_error hstatement ‹_›
      · rename_i s' rest hrest
        have hrest := scans_ok hstatement hrest
        have hcomment := (skips_skipComment rest).of_suffix hrest
        split at h
        · cases h
          exact skips_error hcomment ‹_›
        · cases h
        · exact (ih h).of_suffix ((List.suffix_cons _ _).trans (skips_ok hcomment ‹_›))
        · cases h
          trivial

/-! ## Ends of lines -/

/-- Without carriage returns there are no ends of lines to join. -/
theorem joinLineEnds_eq_self (h : '\r' ∉ text) : joinLineEnds text = text := by
  fun_induction joinLineEnds text with
  | case1 => rfl
  | case2 rest ih => simp at h
  | case3 c rest hline ih => rw [ih fun hmem => h (List.mem_cons_of_mem _ hmem)]

/-- A document is refused for its digits only where there are too many in a
row. -/
theorem longRow_of_read (hplain : '\r' ∉ text) (h : read text = .error .tooManyDigits) :
    LongRow text := by
  unfold read at h
  dsimp only at h
  rw [joinLineEnds_eq_self hplain] at h
  exact blames_statements h

end Toml

namespace Config

open Toml

variable {text : List Char}

theorem return_not_mem_plainLineEnds (text : List Char) : '\r' ∉ plainLineEnds text := by
  fun_induction plainLineEnds text with
  | case1 => simp
  | case2 rest ih => simpa using ih
  | case3 rest hrest ih => simpa using ih
  | case4 c rest hrest hreturn ih =>
    have hc : c ≠ '\r' := fun hc => hreturn hc
    simpa [hc.symm] using ih

/-- What has no end of a line in it stands in the text as it was. -/
theorem prefix_of_plainLineEnds {row : List Char} (hrow : '\n' ∉ row)
    (h : row <+: plainLineEnds text) : row <+: text := by
  fun_induction plainLineEnds text generalizing row with
  | case1 => exact h
  | case2 rest ih =>
    rcases List.prefix_cons_iff.mp h with rfl | ⟨row, rfl, -⟩
    · exact List.nil_prefix
    · simp at hrow
  | case3 rest hrest ih =>
    rcases List.prefix_cons_iff.mp h with rfl | ⟨row, rfl, -⟩
    · exact List.nil_prefix
    · simp at hrow
  | case4 c rest hrest hreturn ih =>
    rcases List.prefix_cons_iff.mp h with rfl | ⟨row, rfl, hmore⟩
    · exact List.nil_prefix
    · exact List.cons_prefix_cons.mpr
        ⟨rfl, ih (fun hmem => hrow (List.mem_cons_of_mem _ hmem)) hmore⟩

theorem infix_of_plainLineEnds {row : List Char} (hrow : '\n' ∉ row)
    (h : row <:+: plainLineEnds text) : row <:+: text := by
  have hprefix {text : List Char} : row <+: plainLineEnds text → row <:+: text :=
    fun h => (prefix_of_plainLineEnds hrow h).isInfix
  fun_induction plainLineEnds text with
  | case1 => exact h
  | case2 rest ih =>
    rcases List.infix_cons_iff.mp h with hhere | hlater
    · exact hprefix (by simpa [plainLineEnds] using hhere)
    · exact (ih hlater).trans ((List.suffix_cons _ _).trans (List.suffix_cons _ _)).isInfix
  | case3 rest hrest ih =>
    rcases List.infix_cons_iff.mp h with hhere | hlater
    · exact hprefix (by simpa [plainLineEnds] using hhere)
    · exact (ih hlater).trans (List.suffix_cons _ _).isInfix
  | case4 c rest hrest hreturn ih =>
    rcases List.infix_cons_iff.mp h with hhere | hlater
    · exact hprefix (by simpa [plainLineEnds] using hhere)
    · exact (ih hlater).trans (List.suffix_cons _ _).isInfix

theorem longRow_of_plainLineEnds (h : LongRow (plainLineEnds text)) : LongRow text := by
  obtain ⟨row, hrow, hall, hlong⟩ := h
  refine ⟨row, infix_of_plainLineEnds (fun hmem => ?_) hrow, hall, hlong⟩
  rcases hall _ hmem with hdigit | hunderscore
  · exact absurd hdigit (by decide)
  · exact absurd hunderscore (by decide)

/-- Bytes for which a file is refused. -/
def FileFault.FoundIn (fault : FileFault) (bytes : List UInt8) : Prop :=
  match fault with
  | notText => ∀ text, bytes ≠ Utf8.encode text
  | tooManyDigits => ∃ text, bytes = Utf8.encode text ∧ LongRow text

/-- **The file is refused for its bytes or for its digits alone.** -/
theorem load_eq_error {file : Option (List UInt8)} {fault : FileFault}
    (h : load file = .error fault) : ∃ bytes, file = some bytes ∧ fault.FoundIn bytes := by
  cases file with
  | none => cases h
  | some bytes =>
    refine ⟨bytes, rfl, ?_⟩
    rw [load] at h
    cases htext : Utf8.decode? bytes with
    | none =>
      rw [htext] at h
      cases h
      exact fun text hbytes => by simp [hbytes, Utf8.decode?_encode] at htext
    | some text =>
      rw [htext] at h
      dsimp only at h
      split at h <;> cases h
      exact ⟨text, Utf8.decode?_eq_some_iff.mp htext, longRow_of_plainLineEnds
        (longRow_of_read (return_not_mem_plainLineEnds text) ‹_›)⟩

/-- Bytes that are no text are always refused. -/
theorem load_of_notText {bytes : List UInt8} (h : FileFault.notText.FoundIn bytes) :
    load (some bytes) = .error .notText := by
  have hnone : Utf8.decode? bytes = none :=
    Option.eq_none_iff_forall_ne_some.mpr fun text htext =>
      h text (Utf8.decode?_eq_some_iff.mp htext)
  rw [load, hnone]

/-- A text that is no document gives no settings. -/
theorem load_of_malformed {text : List Char}
    (h : Toml.read (plainLineEnds text) = .error .malformed) :
    load (some (Utf8.encode text)) = .ok [] := by
  rw [load, Utf8.decode?_encode]
  dsimp only
  rw [h]

end Config

end LanguageRelay
