import LanguageRelay.Editor.Document
import Mathlib.Data.List.Flatten
import Mathlib.Data.List.TakeWhile
/-!
# Replacing ranges of a text

Two facts about `replace` let a change be written down after it was made. A
range as clamped leads to the same text as the range given
(`replace_shown`), since clamping twice is clamping once. And the range from
the start of a text to its `documentEnd` covers the whole text, if every line
but the last ends in a line feed (`length_le_documentEnd_iff`): `documentEnd`
counts line feeds alone. So it does if the text has no breaks but line feeds,
with or without a carriage return before them (`replace_wholeRange`). Of every
text with another break above its last line an end is left standing
(`replace_wholeRange_iff`).
-/

namespace LanguageRelay

/-! ## Clamping -/

/-- Clamping to a line twice is clamping to it once. -/
theorem Position.clampTo_clampTo (p : Position) (width : Nat) :
    (p.clampTo width).clampTo width = p.clampTo width := by
  unfold Position.clampTo
  split
  · rw [if_neg (by simp only; omega)]
  · rfl

@[simp] theorem Position.clampTo_line (p : Position) (width : Nat) :
    (p.clampTo width).line = p.line := by
  unfold Position.clampTo
  split <;> rfl

/-- **A clamped position falls where the position itself falls.** -/
theorem resolve_shown (ls : List (List Char)) (p : Position) :
    resolve ls (resolve ls p).shown = resolve ls p := by
  cases hl : ls[p.line]? with
  | some line => simp [resolve, hl, Position.clampTo_clampTo]
  | none => cases hlast : ls.getLast? <;> simp [resolve, hl, hlast]

/-- **A clamped range is replaced as the range itself is.** -/
theorem replace_shown (text : List Char) (range : Range) (newText : List Char) :
    (replace text (replace text range newText).2 newText).1 = (replace text range newText).1 := by
  simp [replace, resolve_shown]

/-! ## Units and rows -/

/-- A text has at least as many units as characters. -/
theorem length_le_units (text : List Char) : text.length ≤ units text := by
  induction text with
  | nil => rfl
  | cons c rest ih =>
    have : 1 ≤ charUnits c := by
      unfold charUnits
      split <;> omega
    simp only [units, List.length_cons]
    omega

/-- All units of a text take all its characters. -/
theorem charsFor_units (text : List Char) : charsFor (units text) text = text.length := by
  induction text with
  | nil => rfl
  | cons c rest ih =>
    have : 1 ≤ charUnits c := by
      unfold charUnits
      split <;> omega
    rw [charsFor, if_neg (by simp only [units]; omega)]
    simp [units, ih]

theorem charsFor_le_length (count : Nat) (text : List Char) :
    charsFor count text ≤ text.length := by
  fun_induction charsFor count text <;> simp_all

@[simp] theorem charsFor_zero (text : List Char) : charsFor 0 text = 0 := by
  cases text <;> rfl

/-- Without a line feed there is nothing to join. -/
theorem joinBreaks_eq_self {text : List Char} (h : '\n' ∉ text) : joinBreaks text = text := by
  fun_induction joinBreaks text with
  | case1 => rfl
  | case2 rest => simp at h
  | case3 c rest _ ih => rw [ih fun hr => h (List.mem_cons_of_mem _ hr)]

theorem joinBreaks_length_le (text : List Char) : (joinBreaks text).length ≤ text.length := by
  fun_induction joinBreaks text with
  | case1 => exact le_rfl
  | case2 rest ih =>
    simp only [List.length_cons]
    omega
  | case3 c rest _ ih =>
    simp only [List.length_cons]
    omega

/-- The lines above a line and the line itself are as long as the text up to
the next line. -/
theorem rowOffset_succ {ls : List (List Char)} {row : Nat} {line : List Char}
    (h : ls[row]? = some line) : rowOffset ls (row + 1) = rowOffset ls row + line.length := by
  simp [rowOffset, List.take_add_one, h]

theorem rowOffset_mono (ls : List (List Char)) {a b : Nat} (h : a ≤ b) :
    rowOffset ls a ≤ rowOffset ls b :=
  (List.take_sublist_take_left h).flatten.length_le

variable {text : List Char}

/-- A line lies within its text. -/
theorem rowOffset_add_length_le {row : Nat} {line : List Char}
    (h : (lines text)[row]? = some line) :
    rowOffset (lines text) row + line.length ≤ text.length := by
  rw [← rowOffset_succ h]
  have := (List.take_sublist (row + 1) (lines text)).flatten.length_le
  rwa [flatten_lines] at this

/-- What follows the lines above a row are the row and the lines below it. -/
theorem drop_rowOffset (text : List Char) (row : Nat) :
    text.drop (rowOffset (lines text) row) = ((lines text).drop row).flatten := by
  have hsplit : text = ((lines text).take row).flatten ++ ((lines text).drop row).flatten := by
    rw [← List.flatten_append, List.take_append_drop, flatten_lines]
  calc text.drop (rowOffset (lines text) row)
      = (((lines text).take row).flatten ++ ((lines text).drop row).flatten).drop
          ((lines text).take row).flatten.length := congrArg (List.drop _) hsplit
    _ = ((lines text).drop row).flatten := List.drop_left

@[simp] theorem lines_nil : lines [] = [] := rfl

theorem lines_ne_nil (hne : text ≠ []) : lines text ≠ [] := by
  intro hl
  exact hne (by rw [← flatten_lines text, hl]; rfl)

/-! ## From the start of a text -/

/-- The start of a document lies in its first row, before the first
character. -/
theorem resolve_start {ls : List (List Char)} (hne : ls ≠ []) :
    (resolve ls ⟨0, 0⟩).row = 0 ∧ (resolve ls ⟨0, 0⟩).column = 0 := by
  cases ls with
  | nil => exact absurd rfl hne
  | cons line rest =>
    have hclamp : ∀ width, Position.clampTo ⟨0, 0⟩ width = ⟨0, 0⟩ := by
      simp [Position.clampTo]
    simp [resolve, hclamp]

/-- A position falls on a line, and not beyond it unless that is the last. -/
theorem resolve_bounds {ls : List (List Char)} (hne : ls ≠ []) (p : Position) :
    ∃ line, ls[(resolve ls p).row]? = some line ∧
      ((resolve ls p).column ≤ line.length ∨
        (resolve ls p).row + 1 = ls.length ∧ line.length ≤ (resolve ls p).column) := by
  cases hline : ls[p.line]? with
  | some line =>
    have hshort := charsFor_le_length (p.clampTo (units (joinBreaks line))).character
      (joinBreaks line)
    have hjoined := joinBreaks_length_le line
    simp only [resolve, hline]
    exact ⟨line, rfl, .inl (by omega)⟩
  | none =>
    have hpos : 0 < ls.length := List.length_pos_iff.mpr hne
    have hlast := List.getLast?_eq_some_getLast hne
    simp only [resolve, hline, hlast]
    refine ⟨ls.getLast hne, ?_, .inr ⟨by omega, length_le_units _⟩⟩
    rw [← List.getLast?_eq_getElem?, hlast]

/-- What a text keeps from a position on: the rest of the row it falls on,
and the lines below. -/
theorem drop_offsetAt (hne : text ≠ []) (p : Position) :
    text.drop (offsetAt text p) =
      ((lines text)[(resolve (lines text) p).row]?.getD []).drop (resolve (lines text) p).column ++
        ((lines text).drop ((resolve (lines text) p).row + 1)).flatten := by
  obtain ⟨line, hline, hbounds⟩ := resolve_bounds (lines_ne_nil hne) p
  have hbelow : ((lines text).drop (resolve (lines text) p).row).flatten =
      line ++ ((lines text).drop ((resolve (lines text) p).row + 1)).flatten := by
    obtain ⟨hlt, rfl⟩ := List.getElem?_eq_some_iff.mp hline
    rw [List.drop_eq_getElem_cons hlt, List.flatten_cons]
  rw [offsetAt, Nat.add_comm, ← List.drop_drop, drop_rowOffset, hbelow, hline, Option.getD_some,
    List.drop_append]
  rcases hbounds with hwithin | ⟨hlast, _⟩
  · rw [Nat.sub_eq_zero_of_le hwithin, List.drop_zero]
  · rw [List.drop_eq_nil_of_le (Nat.le_of_eq hlast.symm), List.flatten_nil, List.drop_nil]

/-- The lines from a column of a row on. -/
theorem flatten_mapIdx_from (ls : List (List Char)) (row column : Nat) :
    (ls.mapIdx fun i line =>
        if row < i then line else if i = row then line.drop column else []).flatten =
      (ls[row]?.getD []).drop column ++ (ls.drop (row + 1)).flatten := by
  induction ls generalizing row with
  | nil => simp
  | cons line rest ih =>
    cases row with
    | zero =>
      have hrest : (rest.mapIdx fun _ line => line) = rest := List.ext_getElem (by simp) (by simp)
      simp [List.mapIdx_cons, hrest]
    | succ row => simpa [List.mapIdx_cons] using ih row

/-- A text that the first of several lines is headed by heads them all. -/
theorem flatten_mapIdx_headed {ls : List (List Char)} (hne : ls ≠ []) (headed : List Char)
    (f : Nat → List Char → List Char) :
    (ls.mapIdx fun i line => (if i = 0 then headed else []) ++ f i line).flatten =
      headed ++ (ls.mapIdx f).flatten := by
  obtain ⟨line, rest, rfl⟩ := List.exists_cons_of_ne_nil hne
  simp [List.mapIdx_cons]

/-- **What is put in place of a text from its start up to a position** stands
before what follows the position. -/
theorem replace_fromStart (text newText : List Char) (p : Position) :
    (replace text ⟨⟨0, 0⟩, p⟩ newText).1 = newText ++ text.drop (offsetAt text p) := by
  by_cases hne : text = []
  · subst hne
    simp [replace, resolve]
  have hls := lines_ne_nil hne
  obtain ⟨hrow, hcolumn⟩ := resolve_start hls
  have hfirst : (0 : Nat) ≠ (lines text).length := by
    have := List.length_pos_iff.mpr hls
    omega
  -- the new text comes into the first row, and each row keeps what is past the position
  have hsplice : spliceRow (resolve (lines text) ⟨0, 0⟩) (resolve (lines text) p) newText =
      fun i line => (if i = 0 then newText else []) ++
        if (resolve (lines text) p).row < i then line
        else if i = (resolve (lines text) p).row then line.drop (resolve (lines text) p).column
        else [] := by
    funext i line
    simp only [spliceRow, hrow, hcolumn, Nat.not_lt_zero, if_false, List.take_zero, List.nil_append]
    by_cases hbeyond : (resolve (lines text) p).row < i
    · simp [hbeyond, show i ≠ 0 by omega]
    · simp [hbeyond]
  simp only [replace, hrow, if_neg hfirst, hsplice, flatten_mapIdx_headed hls, flatten_mapIdx_from,
    drop_offsetAt hne]

/-! ## Line feeds -/

/-- A line feed closes the line. -/
def EndsInFeed (line : List Char) : Prop := line.getLast? = some '\n'

instance (line : List Char) : Decidable (EndsInFeed line) := inferInstanceAs (Decidable (_ = _))

/-- Every line but the last ends in a line feed. -/
def EndedByFeeds (text : List Char) : Prop := ∀ line ∈ (lines text).dropLast, EndsInFeed line

instance (text : List Char) : Decidable (EndedByFeeds text) :=
  inferInstanceAs (Decidable (∀ line ∈ (lines text).dropLast, _))

/-- Every line of the text ends in a line feed, or in a carriage return and a
line feed, or is the last. -/
def PlainBreaks : List Char → Prop
  | [] => True
  | '\r' :: '\n' :: rest => PlainBreaks rest
  | c :: rest => (isLineBreak c = true → c = '\n') ∧ PlainBreaks rest

/-- A line ends at its first line feed and is never empty. -/
theorem lines_regular (text : List Char) :
    ∀ line ∈ lines text, line ≠ [] ∧ '\n' ∉ line.dropLast := by
  fun_induction lines text with
  | case1 => simp
  | case2 rest ih => simpa using ih
  | case3 c rest _ _ ih => simpa using ih
  | case4 c rest _ hbreak ih =>
    have hc : c ≠ '\n' := by
      rintro rfl
      exact hbreak (by decide)
    cases hrest : lines rest with
    | nil => simp [consLine]
    | cons first more =>
      rw [hrest] at ih
      simp only [consLine, List.forall_mem_cons] at ih ⊢
      obtain ⟨⟨hne, hfeed⟩, hmore⟩ := ih
      refine ⟨⟨List.cons_ne_nil _ _, ?_⟩, hmore⟩
      rw [List.dropLast_cons_of_ne_nil hne]
      simpa [hc.symm] using hfeed

/-- A line holds as many line feeds as it ends in. -/
theorem count_of_regular {line : List Char} (h : line ≠ [] ∧ '\n' ∉ line.dropLast) :
    line.count '\n' = if EndsInFeed line then 1 else 0 := by
  obtain ⟨hne, hfeed⟩ := h
  have hsplit := congrArg (List.count '\n') (List.dropLast_concat_getLast hne)
  rw [List.count_append, List.count_eq_zero.mpr hfeed, Nat.zero_add] at hsplit
  simp [← hsplit, EndsInFeed, List.getLast?_eq_some_getLast hne, List.count_singleton]

/-- A text holds as many line feeds as it has lines that end in one. -/
theorem count_lineFeed (text : List Char) :
    text.count '\n' = (lines text).countP (EndsInFeed ·) := by
  have hsum : ∀ ls : List (List Char), (∀ line ∈ ls, line ≠ [] ∧ '\n' ∉ line.dropLast) →
      ls.flatten.count '\n' = ls.countP (EndsInFeed ·) := by
    intro ls hregular
    induction ls with
    | nil => rfl
    | cons line rest ih =>
      rw [List.forall_mem_cons] at hregular
      rw [List.flatten_cons, List.count_append, ih hregular.2, count_of_regular hregular.1,
        List.countP_cons, Nat.add_comm]
      simp
  simpa [flatten_lines] using hsum (lines text) (lines_regular text)

/-- **Plain breaks end lines by line feeds.** A character that is no break goes
in front of a line and leaves its end. -/
theorem endedByFeeds_of_plainBreaks (h : PlainBreaks text) : EndedByFeeds text := by
  have hcons : ∀ {line : List Char} {ls : List (List Char)}, EndsInFeed line →
      (∀ l ∈ ls.dropLast, EndsInFeed l) → ∀ l ∈ (line :: ls).dropLast, EndsInFeed l := by
    intro line ls hline hls
    cases ls with
    | nil => simp
    | cons first more => simpa [List.forall_mem_cons] using ⟨hline, hls⟩
  unfold EndedByFeeds
  fun_induction lines text with
  | case1 => simp
  | case2 rest ih => exact hcons rfl (ih (by simpa [PlainBreaks] using h))
  | case3 c rest hne hbreak ih =>
    have hc : (isLineBreak c = true → c = '\n') ∧ PlainBreaks rest := by
      rwa [PlainBreaks.eq_3 c rest hne] at h
    obtain rfl := hc.1 hbreak
    exact hcons rfl (ih hc.2)
  | case4 c rest hne hbreak ih =>
    have hc : (isLineBreak c = true → c = '\n') ∧ PlainBreaks rest := by
      rwa [PlainBreaks.eq_3 c rest hne] at h
    have hrest := ih hc.2
    rcases hl : lines rest with _ | ⟨line, _ | ⟨next, more⟩⟩
    · simp [consLine]
    · simp [consLine]
    · rw [hl] at hrest
      simp only [consLine, List.dropLast_cons_cons, List.forall_mem_cons] at hrest ⊢
      refine ⟨?_, hrest.2⟩
      have hline : line.getLast? = some '\n' := hrest.1
      simp [EndsInFeed, List.getLast?_cons, hline]

/-! ## The end of a document -/

/-- What follows the last line feed of a text. -/
def openEnd (text : List Char) : List Char := (text.reverse.takeWhile (· != '\n')).reverse

theorem documentEnd_eq (text : List Char) :
    documentEnd text = ⟨(lines text).countP (EndsInFeed ·), units (openEnd text)⟩ := by
  rw [← count_lineFeed]
  rfl

/-- A line without a line feed is the open end of a text whose other lines end
in one. -/
theorem openEnd_append {front last : List Char} (hfront : front = [] ∨ EndsInFeed front)
    (hlast : '\n' ∉ last) : openEnd (front ++ last) = last := by
  have hall : ∀ c ∈ last.reverse, (c != '\n') = true := by
    intro c hc
    simp only [bne_iff_ne, ne_eq]
    rintro rfl
    exact hlast (List.mem_reverse.mp hc)
  rw [openEnd, List.reverse_append, List.takeWhile_append_of_pos hall]
  rcases hfront with rfl | hfeed
  · simp
  · obtain ⟨init, rfl⟩ : ∃ init, front = init ++ ['\n'] := List.getLast?_eq_some_iff.mp hfeed
    simp

/-- Lines that end in line feeds make a text that does. -/
theorem flatten_endsInFeed {ls : List (List Char)} (h : ∀ line ∈ ls, EndsInFeed line) :
    ls.flatten = [] ∨ EndsInFeed ls.flatten := by
  rcases List.eq_nil_or_concat ls with rfl | ⟨front, line, rfl⟩
  · exact .inl rfl
  · have hline : line.getLast? = some '\n' := h line (by simp)
    exact .inr (by simp [EndsInFeed, List.getLast?_append, hline])

/-- Nothing is open after a line feed. -/
theorem openEnd_of_endsInFeed (h : EndsInFeed text) : openEnd text = [] := by
  obtain ⟨init, rfl⟩ : ∃ init, text = init ++ ['\n'] := List.getLast?_eq_some_iff.mp h
  simp [openEnd]

/-- The start of a line is where it begins. -/
theorem offsetAt_lineStart {row : Nat} {line : List Char} (h : (lines text)[row]? = some line) :
    offsetAt text ⟨row, 0⟩ = rowOffset (lines text) row := by
  simp [offsetAt, resolve, h, Position.clampTo]

/-- A position above the last line falls before the last line. -/
theorem offsetAt_le_of_above {p : Position} {row : Nat} (hp : p.line < row)
    (hrow : row < (lines text).length) : offsetAt text p ≤ rowOffset (lines text) row := by
  have hline : (lines text)[p.line]? = some (lines text)[p.line] := List.getElem?_eq_getElem _
  have hshort := charsFor_le_length
    (p.clampTo (units (joinBreaks (lines text)[p.line]))).character
    (joinBreaks (lines text)[p.line])
  have hjoined := joinBreaks_length_le (lines text)[p.line]
  have hnext := rowOffset_mono (lines text) hp
  rw [rowOffset_succ hline] at hnext
  simp only [offsetAt, resolve, hline]
  omega

/-- A position below the last line falls at the end of the text or beyond. -/
theorem length_le_offsetAt {p : Position} (h : (lines text).length ≤ p.line) :
    text.length ≤ offsetAt text p := by
  by_cases hne : text = []
  · simp [hne]
  have hls := lines_ne_nil hne
  have hlast := List.getLast?_eq_some_getLast hls
  have hget := List.getLast?_eq_getElem? ▸ hlast
  have hall := rowOffset_succ hget
  rw [Nat.sub_add_cancel (List.length_pos_iff.mpr hls), rowOffset, List.take_length,
    flatten_lines] at hall
  have := length_le_units ((lines text).getLast hls)
  simp only [offsetAt, resolve, List.getElem?_eq_none h, hlast]
  omega

/-- **The end of a document is not before the end of its text** exactly if the
lines above the last end in line feeds. A line that does not is not counted,
and the end falls on a line above the last, or at the start of the last if
that ends in a line feed itself. -/
theorem length_le_documentEnd_iff (text : List Char) :
    text.length ≤ offsetAt text (documentEnd text) ↔ EndedByFeeds text := by
  by_cases hne : text = []
  · subst hne
    simp [EndedByFeeds]
  obtain ⟨init, last, hlines⟩ : ∃ init last, lines text = init ++ [last] :=
    ⟨_, _, (List.dropLast_concat_getLast (lines_ne_nil hne)).symm⟩
  have hget : (lines text)[init.length]? = some last := by simp [hlines]
  have htext : text = init.flatten ++ last := by simpa [hlines] using (flatten_lines text).symm
  have hregular := lines_regular text last (by simp [hlines])
  have hlength : rowOffset (lines text) init.length + last.length = text.length := by
    rw [← rowOffset_succ hget, rowOffset, List.take_of_length_le (by simp [hlines]), flatten_lines]
  have hpos := List.length_pos_iff.mpr hregular.1
  have hcounted : (lines text).countP (EndsInFeed ·) =
      init.countP (EndsInFeed ·) + if EndsInFeed last then 1 else 0 := by
    simp [hlines, List.countP_singleton]
  have hcovered : EndedByFeeds text ↔ init.countP (EndsInFeed ·) = init.length := by
    simp [EndedByFeeds, hlines, List.countP_eq_length]
  have hcount := List.countP_le_length (p := (EndsInFeed ·)) (l := init)
  rw [hcovered, documentEnd_eq, hcounted]
  by_cases hlast : EndsInFeed last
  · have hopen : openEnd text = [] := by
      refine openEnd_of_endsInFeed ?_
      rw [htext, EndsInFeed, List.getLast?_append, hlast]
      rfl
    rw [if_pos hlast, hopen, units]
    rcases Nat.lt_trichotomy (init.countP (EndsInFeed ·) + 1) init.length with hlt | heq | hgt
    · have habove : offsetAt text ⟨init.countP (EndsInFeed ·) + 1, 0⟩ ≤ _ :=
        offsetAt_le_of_above hlt (by simp [hlines])
      omega
    · rw [heq, offsetAt_lineStart hget]
      omega
    · have hbelow : text.length ≤ offsetAt text ⟨init.countP (EndsInFeed ·) + 1, 0⟩ :=
        length_le_offsetAt (by simpa [hlines] using Nat.le_of_lt_succ hgt)
      omega
  · have hfeed : '\n' ∉ last := by
      have hnone := count_of_regular hregular
      rw [if_neg hlast] at hnone
      exact List.count_eq_zero.mp hnone
    rw [if_neg hlast, Nat.add_zero]
    rcases Nat.lt_or_eq_of_le hcount with hlt | heq
    · have habove : offsetAt text ⟨init.countP (EndsInFeed ·), units (openEnd text)⟩ ≤ _ :=
        offsetAt_le_of_above hlt (by simp [hlines])
      omega
    · have hopen : openEnd text = last := by
        rw [htext, openEnd_append (flatten_endsInFeed (by simpa using List.countP_eq_length.mp heq))
          hfeed]
      have hclamp : Position.clampTo ⟨init.length, units last⟩ (units last) =
        ⟨init.length, units last⟩ := by simp [Position.clampTo]
      have hfull : offsetAt text ⟨init.length, units last⟩ = text.length := by
        simp only [offsetAt, resolve, hget, joinBreaks_eq_self hfeed, hclamp, charsFor_units]
        omega
      simp [heq, hopen, hfull]

/-- **The range from the start of a text to its end** covers what is before
its end, and so all of it, exactly if the lines above the last end in line
feeds. -/
theorem replace_wholeRange_iff (text : List Char) :
    (∀ newText, (replace text (wholeRange text) newText).1 =
        newText ++ text.drop (offsetAt text (documentEnd text))) ∧
      ((∀ newText, (replace text (wholeRange text) newText).1 = newText) ↔ EndedByFeeds text) := by
  have hreplace : ∀ newText, (replace text (wholeRange text) newText).1 =
      newText ++ text.drop (offsetAt text (documentEnd text)) :=
    fun newText => replace_fromStart text newText (documentEnd text)
  refine ⟨hreplace, ?_⟩
  simp only [hreplace, List.append_right_eq_self, List.drop_eq_nil_iff, forall_const]
  exact length_le_documentEnd_iff text

/-- A carriage return alone ends a line of the text, but is not counted for its
end: the second line is left standing. -/
theorem wholeRange_fallsShort :
    (replace ['a', '\r', 'b'] (wholeRange ['a', '\r', 'b']) ['t']).1 = ['t', '\r', 'b'] := by
  decide

/-- **The whole range of a text with plain breaks covers it**: what is put there
is all there is. -/
theorem replace_wholeRange {text : List Char} (h : PlainBreaks text) (newText : List Char) :
    (replace text (wholeRange text) newText).1 = newText := by
  have hcovered := (length_le_documentEnd_iff text).mpr (endedByFeeds_of_plainBreaks h)
  rw [wholeRange, replace_fromStart, List.drop_eq_nil_of_le hcovered, List.append_nil]

end LanguageRelay
