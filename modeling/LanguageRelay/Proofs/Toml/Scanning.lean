import LanguageRelay.Toml.Scan
/-!
# What scanners leave of a text

Every scanner gives a rest of its text: whatever it reads, it reads from the
front. So where one of them finds a number with too many digits, the text
itself has such a number in it (`Scans`, `scans_number`), however deep in the
document that stands.
-/

namespace LanguageRelay

namespace Toml

variable {α β : Type} {text rest : List Char}

/-- **A row of digits that is too long**: more of them than are read, with
nothing but underscores in between. -/
def LongRow (text : List Char) : Prop :=
  ∃ row, row <:+: text ∧ (∀ c ∈ row, Numeral.isDigit c ∨ c = '_') ∧
    Numeral.maxDigits < (row.filter Numeral.isDigit).length

theorem LongRow.of_suffix (hrest : rest <:+ text) : LongRow rest → LongRow text :=
  fun ⟨row, hrow, hlong⟩ => ⟨row, hrow.trans hrest.isInfix, hlong⟩

/-- Too many digits are found only where there are. -/
def Blames (text : List Char) : Fault → Prop
  | .malformed => True
  | .tooManyDigits => LongRow text

/-- What a scanner may make of a text: it gives a rest of it, or fails for a
reason. -/
def Scans (text : List Char) : Scanned α → Prop
  | .ok (_, rest) => rest <:+ text
  | .error e => Blames text e

/-- What a scanner of things without numbers may give. -/
def Leaves (text : List Char) : Option (α × List Char) → Prop
  | some (_, rest) => rest <:+ text
  | none => True

/-- What skipping may give. -/
def Skips (text : List Char) : Except Fault (List Char) → Prop
  | .ok rest => rest <:+ text
  | .error e => Blames text e

/-! ## What was made of a text -/

theorem scans_ok {r : Scanned α} {a : α} (h : Scans text r) (hr : r = .ok (a, rest)) :
    rest <:+ text := by
  subst hr
  exact h

theorem scans_error {r : Scanned α} {e : Fault} (h : Scans text r) (hr : r = .error e) :
    Blames text e := by
  subst hr
  exact h

theorem skips_ok {r : Except Fault (List Char)} (h : Skips text r) (hr : r = .ok rest) :
    rest <:+ text := by
  subst hr
  exact h

theorem skips_error {r : Except Fault (List Char)} {e : Fault} (h : Skips text r)
    (hr : r = .error e) : Blames text e := by
  subst hr
  exact h

theorem leaves_some {r : Option (α × List Char)} {a : α} (h : Leaves text r)
    (hr : r = some (a, rest)) : rest <:+ text := by
  subst hr
  exact h

/-! ## Later beginnings -/

theorem Blames.of_suffix {e : Fault} (h : Blames rest e) (hrest : rest <:+ text) :
    Blames text e := by
  match e with
  | .malformed => trivial
  | .tooManyDigits => exact LongRow.of_suffix hrest h

/-- A scanner may begin later. -/
theorem Scans.of_suffix {r : Scanned α} (h : Scans rest r) (hrest : rest <:+ text) :
    Scans text r := by
  match r with
  | .ok _ => exact List.IsSuffix.trans h hrest
  | .error e => exact Blames.of_suffix h hrest

theorem Skips.of_suffix {r : Except Fault (List Char)} (h : Skips rest r) (hrest : rest <:+ text) :
    Skips text r := by
  match r with
  | .ok _ => exact List.IsSuffix.trans h hrest
  | .error e => exact Blames.of_suffix h hrest

theorem Leaves.of_suffix {r : Option (α × List Char)} (h : Leaves rest r) (hrest : rest <:+ text) :
    Leaves text r := by
  match r with
  | some _ => exact List.IsSuffix.trans h hrest
  | none => trivial

/-- What is read may be changed. -/
theorem Scans.map {r : Scanned α} (f : α → β) (h : Scans text r) :
    Scans text (r.map fun found => (f found.1, found.2)) := by
  match r with
  | .ok _ => exact h
  | .error _ => exact h

/-- Reading goes on where it stopped. -/
theorem Leaves.bind {r : Option (α × List Char)} {f : α × List Char → Option (β × List Char)}
    (h : Leaves text r) (hf : ∀ a rest, rest <:+ text → Leaves text (f (a, rest))) :
    Leaves text (r >>= f) := by
  match r with
  | some (a, rest) => exact hf a rest h
  | none => trivial

theorem suffix_cons_of_suffix {c : Char} (h : rest <:+ text) : rest <:+ c :: text :=
  h.trans (List.suffix_cons c text)

theorem skipSpace_suffix (text : List Char) : skipSpace text <:+ text := List.dropWhile_suffix _

/-! ## Blanks and comments -/

theorem skips_skipComment (text : List Char) : Skips text (skipComment text) := by
  unfold skipComment
  split
  · split
    · trivial
    · exact suffix_cons_of_suffix (List.dropWhile_suffix _)
  · exact List.suffix_refl _

theorem skips_skipGap (fuel : Nat) (text : List Char) : Skips text (skipGap fuel text) := by
  induction fuel generalizing text with
  | zero => exact List.suffix_refl _
  | succ fuel ih =>
    have hgap : text.dropWhile isGap <:+ text := List.dropWhile_suffix _
    unfold skipGap
    split
    · rename_i rest hrest
      have hcomment := skips_skipComment ('#' :: rest)
      rw [hrest] at hgap
      split
      · exact (skips_error hcomment ‹_›).of_suffix hgap
      · exact (ih _).of_suffix ((skips_ok hcomment ‹_›).trans hgap)
    · exact hgap

/-! ## Strings -/

theorem scans_hexChar (width : Nat) (text : List Char) : Scans text (hexChar width text) := by
  unfold hexChar
  dsimp only
  by_cases hshort : (text.take width).length < width
  · rw [if_pos hshort]
    trivial
  · rw [if_neg hshort]
    cases hexNumber? (text.take width) with
    | none => trivial
    | some n =>
      dsimp only
      by_cases hvalid : n.isValidChar
      · rw [dif_pos hvalid]
        exact List.drop_suffix _ _
      · rw [dif_neg hvalid]
        trivial

theorem scans_escape (text : List Char) : Scans text (escape text) := by
  unfold escape
  split
  · exact (scans_hexChar 4 _).of_suffix (List.suffix_cons _ _)
  · exact (scans_hexChar 8 _).of_suffix (List.suffix_cons _ _)
  · split
    · exact List.suffix_cons _ _
    · trivial
  · trivial

theorem skips_continueLine (text : List Char) : Skips text (continueLine text) := by
  have hspace := skipSpace_suffix text
  unfold continueLine
  split
  · exact List.nil_suffix
  · rename_i rest hrest
    rw [hrest] at hspace
    exact ((List.dropWhile_suffix _).trans (List.suffix_cons _ _)).trans hspace
  · trivial

theorem scans_basicString (fuel : Nat) (acc text : List Char) :
    Scans text (basicString fuel acc text) := by
  induction fuel generalizing acc text with
  | zero => trivial
  | succ fuel ih =>
    unfold basicString
    split
    · trivial
    · exact List.suffix_cons _ _
    · rename_i rest
      have hescape := scans_escape rest
      split
      · exact (scans_error hescape ‹_›).of_suffix (List.suffix_cons _ _)
      · exact (ih _ _).of_suffix (suffix_cons_of_suffix (scans_ok hescape ‹_›))
    · split
      · trivial
      · exact (ih _ _).of_suffix (List.suffix_cons _ _)

/-- A string that ends in three quotes, and perhaps up to two more. -/
theorem scans_closingQuotes (a b c quote : Char) (acc text : List Char) :
    Scans (a :: b :: c :: text) (.ok (closingQuotes quote acc text)) :=
  suffix_cons_of_suffix (suffix_cons_of_suffix (suffix_cons_of_suffix (List.drop_suffix _ _)))

theorem scans_basicText (fuel : Nat) (acc text : List Char) :
    Scans text (basicText fuel acc text) := by
  induction fuel generalizing acc text with
  | zero => trivial
  | succ fuel ih =>
    unfold basicText
    split
    · trivial
    · exact scans_closingQuotes _ _ _ _ _ _
    · rename_i c rest
      split
      · have hline := skips_continueLine (c :: rest)
        split
        · exact (skips_error hline ‹_›).of_suffix (List.suffix_cons _ _)
        · exact (ih _ _).of_suffix (suffix_cons_of_suffix (skips_ok hline ‹_›))
      · have hescape := scans_escape (c :: rest)
        split
        · exact (scans_error hescape ‹_›).of_suffix (List.suffix_cons _ _)
        · exact (ih _ _).of_suffix (suffix_cons_of_suffix (scans_ok hescape ‹_›))
    · split
      · trivial
      · exact (ih _ _).of_suffix (List.suffix_cons _ _)

theorem scans_literalString (text : List Char) : Scans text (literalString text) := by
  have hdrop : text.drop (text.takeWhile (· != '\'')).length <:+ text := List.drop_suffix _ _
  unfold literalString
  dsimp only
  split
  · rename_i c rest hrest
    rw [hrest] at hdrop
    split
    · trivial
    · exact (List.suffix_cons _ _).trans hdrop
  · trivial

theorem scans_literalText (acc text : List Char) : Scans text (literalText acc text) := by
  fun_induction literalText acc text with
  | case1 => trivial
  | case2 => exact scans_closingQuotes _ _ _ _ _ _
  | case3 => trivial
  | case4 acc c rest _ _ ih => exact ih.of_suffix (List.suffix_cons _ _)

theorem dropLineEnd_suffix (text : List Char) : dropLineEnd text <:+ text := by
  unfold dropLineEnd
  split
  · exact List.suffix_cons _ _
  · exact List.suffix_refl _

theorem scans_string? {found : Scanned String} (h : string? text = some found) :
    Scans text found := by
  unfold string? at h
  split at h <;> cases h
  · exact (scans_basicText _ _ _).of_suffix (suffix_cons_of_suffix (suffix_cons_of_suffix
      (suffix_cons_of_suffix (dropLineEnd_suffix _))))
  · exact (scans_basicString _ _ _).of_suffix (List.suffix_cons _ _)
  · exact (scans_literalText _ _).of_suffix (suffix_cons_of_suffix (suffix_cons_of_suffix
      (suffix_cons_of_suffix (dropLineEnd_suffix _))))
  · exact (scans_literalString _).of_suffix (List.suffix_cons _ _)

/-! ## Keys -/

theorem scans_keyPart (text : List Char) : Scans text (keyPart text) := by
  unfold keyPart
  split
  · exact (scans_basicString _ _ _).of_suffix (List.suffix_cons _ _)
  · exact (scans_literalString _).of_suffix (List.suffix_cons _ _)
  · dsimp only
    split
    · trivial
    · exact List.drop_suffix _ _

theorem scans_keyParts (fuel : Nat) (text : List Char) : Scans text (keyParts fuel text) := by
  induction fuel generalizing text with
  | zero => trivial
  | succ fuel ih =>
    have hpart := scans_keyPart text
    unfold keyParts
    split
    · exact scans_error hpart ‹_›
    · rename_i part left hleft
      have hspace := (skipSpace_suffix left).trans (scans_ok hpart hleft)
      split
      · rename_i rest hrest
        rw [hrest] at hspace
        exact ((ih _).of_suffix ((skipSpace_suffix rest).trans
          ((List.suffix_cons _ _).trans hspace))).map fun parts => part :: parts
      · exact hspace

theorem scans_key (text : List Char) : Scans text (key text) := scans_keyParts _ text

/-! ## Dates and times -/

theorem leaves_digitsWithin? (width low high : Nat) (text : List Char) :
    Leaves text (digitsWithin? width low high text) := by
  unfold digitsWithin?
  dsimp only
  split
  · exact List.drop_suffix _ _
  · trivial

/-- After a character the text goes on. -/
theorem Leaves.after {c : Char} {f : List Char → Option (α × List Char)}
    (hf : ∀ rest, rest <:+ text → Leaves text (f rest)) : Leaves text (after? c text >>= f) := by
  unfold after?
  split
  · split
    · exact hf _ (List.suffix_cons _ _)
    · trivial
  · trivial

theorem fraction_suffix (text : List Char) : (fraction text).2 <:+ text := by
  unfold fraction
  split
  · dsimp only
    split
    · exact List.suffix_refl _
    · exact suffix_cons_of_suffix (List.drop_suffix _ _)
  · exact List.suffix_refl _

theorem leaves_timeOfDay? (text : List Char) : Leaves text (timeOfDay? text) := by
  refine (leaves_digitsWithin? 2 0 23 text).bind fun hour rest h => ?_
  refine Leaves.of_suffix (Leaves.after fun rest' h' => ?_) h
  refine Leaves.of_suffix ((leaves_digitsWithin? 2 0 59 rest').bind fun minute rest h => ?_) h'
  refine Leaves.of_suffix (Leaves.after fun rest' h' => ?_) h
  refine Leaves.of_suffix ((leaves_digitsWithin? 2 0 59 rest').bind fun second rest h => ?_) h'
  exact (fraction_suffix rest).trans h

theorem leaves_offsetAfter? (sign : Int) (text : List Char) :
    Leaves text (offsetAfter? sign text) := by
  refine (leaves_digitsWithin? 2 0 23 text).bind fun hours rest h => ?_
  refine Leaves.of_suffix (Leaves.after fun rest' h' => ?_) h
  exact Leaves.of_suffix ((leaves_digitsWithin? 2 0 59 rest').bind fun minutes rest h => h) h'

theorem offset_suffix (text : List Char) : (offset text).2 <:+ text := by
  unfold offset
  dsimp only
  split
  · rename_i o left hfound
    split at hfound
    · exact suffix_cons_of_suffix (leaves_some (leaves_offsetAfter? 1 _) hfound)
    · exact suffix_cons_of_suffix (leaves_some (leaves_offsetAfter? (-1) _) hfound)
    · split at hfound <;> cases hfound
      exact List.suffix_cons _ _
    · cases hfound
  · exact List.suffix_refl _

theorem leaves_date? (text : List Char) : Leaves text (date? text) := by
  refine (leaves_digitsWithin? 4 0 9999 text).bind fun year rest h => ?_
  refine Leaves.of_suffix (Leaves.after fun rest' h' => ?_) h
  refine Leaves.of_suffix ((leaves_digitsWithin? 2 1 12 rest').bind fun month rest h => ?_) h'
  refine Leaves.of_suffix (Leaves.after fun rest' h' => ?_) h
  exact Leaves.of_suffix ((leaves_digitsWithin? 2 1 31 rest').bind fun day rest h => h) h'

theorem leaves_timeAfterDate? (text : List Char) : Leaves text (timeAfterDate? text) := by
  unfold timeAfterDate?
  split
  · split
    · exact (leaves_timeOfDay? _).of_suffix (List.suffix_cons _ _)
    · trivial
  · trivial

theorem scans_moment? {found : Scanned Setting} (h : moment? text = some found) :
    Scans text found := by
  have hdate := leaves_date? text
  have htime := leaves_timeOfDay? text
  unfold moment? at h
  split at h
  · rename_i date rest hrest
    have hafter := (leaves_timeAfterDate? rest).of_suffix (leaves_some hdate hrest)
    split at h
    · split at h <;> cases h
      · exact (offset_suffix _).trans (leaves_some hafter ‹_›)
      · exact leaves_some hdate hrest
    · cases h
      trivial
  · obtain ⟨⟨time, rest⟩, hrest, rfl⟩ := Option.map_eq_some_iff.mp h
    exact leaves_some htime hrest

/-! ## Numbers -/

/-- **A run of digits is the beginning of the text without its underscores.** -/
theorem digitRun_spec (p : Char → Bool) (hp : p '_' = false) (text : List Char) :
    ∃ row, row ++ (digitRun p text).2 = text ∧ (∀ c ∈ row, p c ∨ c = '_') ∧
      row.filter p = (digitRun p text).1 := by
  fun_induction digitRun p text with
  | case1 => exact ⟨[], rfl, nofun, rfl⟩
  | case2 c rest hc left hleft ih => exact ⟨[c], rfl, by simp [hc], by simp [hc]⟩
  | case3 c rest hc ds left hds hrun ih =>
    obtain ⟨row, hrow, hall, hfilter⟩ := ih
    rw [hrun] at hrow hfilter
    refine ⟨c :: '_' :: row, by simp [← hrow], ?_, by simp [hc, hp, hfilter]⟩
    simpa [hc] using hall
  | case4 c rest hc => exact ⟨[], rfl, nofun, rfl⟩
  | case5 c rest hrest hc ds left hrun ih =>
    obtain ⟨row, hrow, hall, hfilter⟩ := ih
    rw [hrun] at hrow hfilter
    exact ⟨c :: row, by simp [← hrow], by simpa [hc] using hall, by simp [hc, hfilter]⟩
  | case6 c rest hrest hc => exact ⟨[], rfl, nofun, rfl⟩

theorem digitRun_suffix (p : Char → Bool) (hp : p '_' = false) (text : List Char) :
    (digitRun p text).2 <:+ text :=
  let ⟨row, hrow, _⟩ := digitRun_spec p hp text
  ⟨row, hrow⟩

theorem leaves_based? (base : Nat) {p : Char → Bool} (hp : p '_' = false) (text : List Char) :
    Leaves text (based? base p text) := by
  unfold based?
  dsimp only
  split
  · trivial
  · exact digitRun_suffix p hp text

theorem leaves_prefixed? (text : List Char) : Leaves text (prefixed? text) := by
  unfold prefixed?
  split
  · exact (leaves_based? _ (by decide) _).of_suffix (suffix_cons_of_suffix (List.suffix_cons _ _))
  · exact (leaves_based? _ (by decide) _).of_suffix (suffix_cons_of_suffix (List.suffix_cons _ _))
  · exact (leaves_based? _ (by decide) _).of_suffix (suffix_cons_of_suffix (List.suffix_cons _ _))
  · trivial

/-- Too many digits before the point are a row of the text. -/
theorem wholeDigits_spec (text : List Char) :
    (wholeDigits text).2 <:+ text ∧
      (Numeral.maxDigits < (wholeDigits text).1.length → LongRow text) := by
  unfold wholeDigits
  split
  · exact ⟨List.suffix_cons _ _, fun h => by simp [Numeral.maxDigits] at h⟩
  · obtain ⟨row, hrow, hall, hfilter⟩ := digitRun_spec Numeral.isDigit (by decide) text
    refine ⟨⟨row, hrow⟩, fun hlong => ⟨row, ?_, hall, hfilter ▸ hlong⟩⟩
    exact List.IsPrefix.isInfix ⟨_, hrow⟩

theorem fractionDigits_suffix (text : List Char) : (fractionDigits text).2 <:+ text := by
  unfold fractionDigits
  split
  · dsimp only
    split
    · exact List.suffix_refl _
    · exact suffix_cons_of_suffix (digitRun_suffix _ (by decide) _)
  · exact List.suffix_refl _

theorem leaves_power? (text : List Char) : Leaves text (power? text) := by
  have hrun (rest : List Char) : (digitRun Numeral.isDigit rest).2 <:+ rest :=
    digitRun_suffix _ (by decide) rest
  unfold power?
  split
  · split
    · dsimp only
      split
      · split
        · trivial
        · exact suffix_cons_of_suffix (suffix_cons_of_suffix (hrun _))
      · split
        · trivial
        · exact suffix_cons_of_suffix (suffix_cons_of_suffix (hrun _))
      · split
        · trivial
        · exact suffix_cons_of_suffix (hrun _)
    · trivial
  · trivial

theorem scans_decimalInteger {negative : Bool} {digits : List Char} (hrest : rest <:+ text)
    (hlong : Numeral.maxDigits < digits.length → LongRow text) :
    Scans text ((decimalInteger negative digits).map fun v => (v, rest)) := by
  unfold decimalInteger
  split
  · exact hlong ‹_›
  · exact hrest

theorem scans_decimal? {negative : Bool} {found : Scanned Setting}
    (h : decimal? negative text = some found) : Scans text found := by
  obtain ⟨hwhole, hlong⟩ := wholeDigits_spec text
  have hpart := (fractionDigits_suffix (wholeDigits text).2).trans hwhole
  have hpower := leaves_power? (fractionDigits (wholeDigits text).2).2
  unfold decimal? at h
  dsimp only at h
  split at h
  · cases h
  · split at h
    · rename_i n left hleft
      have hrest := (leaves_some hpower hleft).trans hpart
      split at h <;> cases h
      · exact scans_decimalInteger hrest hlong
      · exact hrest
    · split at h <;> cases h
      · exact scans_decimalInteger hpart hlong
      · exact hpart

theorem scans_special? {negative : Bool} {found : Scanned Setting}
    (h : special? negative text = some found) : Scans text found := by
  unfold special? at h
  split at h <;> cases h
  · exact suffix_cons_of_suffix (suffix_cons_of_suffix (List.suffix_cons _ _))
  · exact suffix_cons_of_suffix (suffix_cons_of_suffix (List.suffix_cons _ _))

/-- **A number has too many digits only where the text does.** -/
theorem scans_number (text : List Char) : Scans text (number text) := by
  have hprefixed := leaves_prefixed? text
  have hsigned (negative : Bool) (rest : List Char) : Scans rest
      (((decimal? negative rest).or (special? negative rest)).getD (.error .malformed)) := by
    cases hdecimal : decimal? negative rest with
    | some found => exact scans_decimal? hdecimal
    | none =>
      cases hspecial : special? negative rest with
      | some found => exact scans_special? hspecial
      | none => trivial
  unfold number
  split
  · rename_i found hfound
    rw [hfound] at hprefixed
    exact hprefixed
  · dsimp only
    split
    · exact (hsigned _ _).of_suffix (List.suffix_cons _ _)
    · exact (hsigned _ _).of_suffix (List.suffix_cons _ _)
    · exact hsigned _ _

end Toml

end LanguageRelay
