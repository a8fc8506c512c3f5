import LanguageRelay.Editor.Document
import Mathlib.Data.List.DropRight
import Mathlib.Data.List.Infix
/-!
# The word before a position

The word that is to be completed is the longest identifier that ends at the
position (`LongestIdentifier`). It is found by a search from the left, in what
follows the last line feed: the first place from which on all is an identifier
(`leftmostIdentifier`). Places in a text are counted over line breaks of every
kind, but none of them may stand in an identifier, so the search cannot leave the
line, and nothing is lost by looking for line feeds alone (`wordBefore_settled`).
-/

namespace LanguageRelay

/-- The text is an identifier: it begins like one, and goes on with the characters
of one. -/
def IsIdentifier : List Char → Prop
  | [] => False
  | c :: rest => isIdentifierStart c = true ∧ ∀ d ∈ rest, isIdentifierChar d = true

instance : DecidablePred IsIdentifier
  | [] => inferInstanceAs (Decidable False)
  | _ :: _ => inferInstanceAs (Decidable (_ ∧ _))

/-- **The word is the longest identifier that the text ends with**, or empty. -/
structure LongestIdentifier (text word : List Char) : Prop where
  ends : word <:+ text
  identifier : word = [] ∨ IsIdentifier word
  longest : ∀ w, w <:+ text → IsIdentifier w → w <:+ word

/-- What a search from the left finds: the text from the first place on from which
it is an identifier. -/
def leftmostIdentifier (text : List Char) : List Char :=
  (text.tails.find? fun w => decide (IsIdentifier w)).getD []

/-- What follows the last line feed of a text. -/
def sinceLineFeed (text : List Char) : List Char := text.rtakeWhile (· != '\n')

variable {text word w run : List Char} {c : Char}

/-! ## Characters -/

/-- A code point between the ends of a range is in the ranges. -/
theorem inRanges_of_mem {ranges : List (Nat × Nat)} {low high : Nat} (h : (low, high) ∈ ranges)
    (hlow : low ≤ c.toNat) (hhigh : c.toNat ≤ high) : inRanges ranges c = true :=
  List.any_eq_true.mpr ⟨_, h, by simp [hlow, hhigh]⟩

/-- What may begin an identifier may stand in one. -/
theorem isIdentifierChar_of_start (h : isIdentifierStart c = true) : isIdentifierChar c = true := by
  have hword : ∀ (i low high : Nat), wordRanges[i]? = some (low, high) → low ≤ c.toNat →
      c.toNat ≤ high → isIdentifierChar c = true := by
    intro i low high hget hlow hhigh
    simp [isIdentifierChar, isWordChar, inRanges_of_mem (List.mem_of_getElem? hget) hlow hhigh]
  simp only [isIdentifierStart, Bool.or_eq_true, Bool.and_eq_true, decide_eq_true_eq,
    beq_iff_eq] at h
  rcases h with ((⟨hlow, hhigh⟩ | ⟨hlow, hhigh⟩) | rfl) | rfl
  · exact hword 3 97 122 rfl hlow hhigh
  · exact hword 1 65 90 rfl hlow hhigh
  · exact hword 2 95 95 rfl (Nat.le_refl _) (Nat.le_refl _)
  · simp [isIdentifierChar]

/-- **No line break may stand in an identifier.** -/
theorem isIdentifierChar_of_isLineBreak (h : isLineBreak c = true) :
    isIdentifierChar c = false := by
  simp only [isLineBreak, Bool.or_eq_true, beq_iff_eq] at h
  rcases h with ((((((((rfl | rfl) | rfl) | rfl) | rfl) | rfl) | rfl) | rfl) | rfl) | rfl <;>
    decide +kernel

theorem IsIdentifier.chars (h : IsIdentifier w) : ∀ d ∈ w, isIdentifierChar d = true := by
  cases w with
  | nil => simp
  | cons c rest =>
    intro d hd
    rcases List.mem_cons.mp hd with rfl | hd
    · exact isIdentifierChar_of_start h.1
    · exact h.2 d hd

/-- So no identifier goes over a line break. -/
theorem IsIdentifier.isLineBreak_eq_false (h : IsIdentifier w) :
    ∀ d ∈ w, isLineBreak d = false := by
  intro d hd
  cases hbreak : isLineBreak d with
  | false => rfl
  | true =>
    have hout := isIdentifierChar_of_isLineBreak hbreak
    rw [h.chars d hd] at hout
    cases hout

/-! ## The longest identifier -/

/-- There is one longest identifier. -/
theorem LongestIdentifier.unique (h : LongestIdentifier text word) (h' : LongestIdentifier text w) :
    word = w := by
  have hinto : ∀ {v v' : List Char}, LongestIdentifier text v → LongestIdentifier text v' →
      v <:+ v' := by
    intro v v' hv hv'
    rcases hv.identifier with rfl | hidentifier
    · exact List.nil_suffix
    · exact hv'.longest v hv.ends hidentifier
  exact (hinto h h').eq_of_length_le (hinto h' h).length_le

theorem LongestIdentifier.eq_nil_iff (h : LongestIdentifier text word) :
    word = [] ↔ ∀ w, w <:+ text → ¬ IsIdentifier w := by
  constructor
  · rintro rfl w hends hw
    obtain rfl := List.suffix_nil.mp (h.longest w hends hw)
    exact hw
  · intro hnone
    exact h.identifier.resolve_right (hnone word h.ends)

theorem LongestIdentifier.isLineBreak_eq_false (h : LongestIdentifier text word) :
    ∀ d ∈ word, isLineBreak d = false := by
  rcases h.identifier with rfl | hword
  · simp
  · exact hword.isLineBreak_eq_false

/-- An end of the text with admissible characters only is an end of the longest such. -/
theorem suffix_rtakeWhile {p : Char → Bool} (hends : w <:+ text) (h : ∀ d ∈ w, p d = true) :
    w <:+ text.rtakeWhile p := by
  obtain ⟨before, rfl⟩ := hends
  induction w using List.reverseRecOn with
  | nil => exact List.nil_suffix
  | append_singleton w d ih =>
    have hd : p d = true := h d (by simp)
    rw [← List.append_assoc, List.rtakeWhile_concat_pos _ _ _ hd]
    obtain ⟨more, hmore⟩ := ih fun d hd => h d (List.mem_append_left _ hd)
    exact ⟨more, by rw [← List.append_assoc, hmore]⟩

/-- Nothing is lost of an identifier when what cannot begin one is left out. -/
theorem suffix_dropWhile_of_start {rest : List Char} (hends : (c :: rest) <:+ run)
    (h : isIdentifierStart c = true) :
    (c :: rest) <:+ run.dropWhile fun d => !isIdentifierStart d := by
  induction run with
  | nil => simp at hends
  | cons d run ih =>
    rw [List.dropWhile_cons]
    split
    · rename_i hd
      rcases List.suffix_cons_iff.mp hends with heq | hends
      · cases heq
        simp [h] at hd
      · exact ih hends
    · exact hends

/-- **The identifier a text ends with is the longest one.** -/
theorem longest_identifierSuffix (text : List Char) :
    LongestIdentifier text (identifierSuffix text) := by
  -- the run of identifier characters at the end, and what is left of it from the
  -- first on that begins an identifier
  have hrun : identifierSuffix text =
    (text.rtakeWhile isIdentifierChar).dropWhile fun d => !isIdentifierStart d := rfl
  have hsuffix := List.dropWhile_suffix (l := text.rtakeWhile isIdentifierChar)
    fun d => !isIdentifierStart d
  rw [hrun]
  refine ⟨hsuffix.trans (List.rtakeWhile_suffix _ _), ?_, fun w hends hw => ?_⟩
  · have hstart := List.head?_dropWhile_not (fun d => !isIdentifierStart d)
      (text.rtakeWhile isIdentifierChar)
    cases hword : (text.rtakeWhile isIdentifierChar).dropWhile fun d => !isIdentifierStart d with
    | nil => exact .inl rfl
    | cons c rest =>
      rw [hword] at hstart hsuffix
      refine .inr ⟨by simpa using hstart, fun d hd => ?_⟩
      exact List.mem_rtakeWhile_imp (hsuffix.mem (List.mem_cons_of_mem _ hd))
  · have hends' := suffix_rtakeWhile hends hw.chars
    cases w with
    | nil => exact List.nil_suffix
    | cons c rest => exact suffix_dropWhile_of_start hends' hw.1

/-- **So is what a search from the left finds.** -/
theorem longest_leftmostIdentifier (text : List Char) :
    LongestIdentifier text (leftmostIdentifier text) := by
  induction text with
  | nil => exact ⟨List.nil_suffix, .inl rfl, fun w hends _ => hends⟩
  | cons c rest ih =>
    by_cases hall : IsIdentifier (c :: rest)
    · have hfound : leftmostIdentifier (c :: rest) = c :: rest := by
        simp [leftmostIdentifier, hall]
      rw [hfound]
      exact ⟨List.suffix_rfl, .inr hall, fun w hends _ => hends⟩
    · have hlater : leftmostIdentifier (c :: rest) = leftmostIdentifier rest := by
        simp [leftmostIdentifier, hall]
      rw [hlater]
      refine ⟨ih.ends.trans (List.suffix_cons c rest), ih.identifier, fun w hends hw => ?_⟩
      rcases List.suffix_cons_iff.mp hends with rfl | hends
      · exact absurd hw hall
      · exact ih.longest w hends hw

/-- Line feeds alone cut off no identifier. -/
theorem longest_sinceLineFeed_iff :
    LongestIdentifier (sinceLineFeed text) word ↔ LongestIdentifier text word := by
  have hends : ∀ {w}, IsIdentifier w → (w <:+ sinceLineFeed text ↔ w <:+ text) := by
    intro w hw
    refine ⟨fun h => h.trans (List.rtakeWhile_suffix _ _), fun h => suffix_rtakeWhile h ?_⟩
    intro d hd
    have hbreak := hw.isLineBreak_eq_false d hd
    rw [bne_iff_ne]
    rintro rfl
    cases hbreak
  constructor
  · intro h
    exact ⟨h.ends.trans (List.rtakeWhile_suffix _ _), h.identifier,
      fun w hw hidentifier => h.longest w ((hends hidentifier).mpr hw) hidentifier⟩
  · intro h
    refine ⟨?_, h.identifier,
      fun w hw hidentifier => h.longest w ((hends hidentifier).mp hw) hidentifier⟩
    rcases h.identifier with rfl | hidentifier
    · exact List.nil_suffix
    · exact (hends hidentifier).mpr h.ends

/-- **The word before a position is the longest identifier that ends there**, and
empty if none does. It is what a search from the left finds behind the last line
feed, and goes over no line break of any kind. -/
theorem wordBefore_settled (text : List Char) (p : Position) :
    let before := text.take (offsetAt text p)
    (∀ word, wordBefore text p = word ↔ LongestIdentifier before word) ∧
      (wordBefore text p = [] ↔ ∀ w, w <:+ before → ¬ IsIdentifier w) ∧
      wordBefore text p = leftmostIdentifier (sinceLineFeed before) ∧
      ∀ c ∈ wordBefore text p, isLineBreak c = false := by
  intro before
  have hline : LongestIdentifier (sinceLineFeed before) (wordBefore text p) :=
    longest_identifierSuffix _
  have hword : LongestIdentifier before (wordBefore text p) := longest_sinceLineFeed_iff.mp hline
  refine ⟨fun word => ⟨?_, hword.unique⟩, hword.eq_nil_iff,
    hline.unique (longest_leftmostIdentifier _), hword.isLineBreak_eq_false⟩
  rintro rfl
  exact hword

/-- A vertical tab ends the line, though no line feed is there. -/
example : wordBefore "ab\x0bc9".toList ⟨1, 2⟩ = ['c', '9'] := by decide +kernel

end LanguageRelay
