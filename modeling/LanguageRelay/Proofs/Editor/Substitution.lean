import LanguageRelay.Editor.TextEdit
import LanguageRelay.Proofs.Editor.Replace
import Mathlib.Data.List.Flatten
/-!
# Edits as one substitution

`TextEdit.applyAll` copies a text once, front to back, and puts each edit in
where it comes past. This file shows that nothing else would have come out
had the edits been spliced in one at a time, the last first
(`Span.weave_gaps`): the spans of the edits lie one behind the other
(`Apart`), so no edit moves what the edits before it replace.

That the spans lie so rests on `place_mono`: of two positions, the later one
falls no earlier in the text. It holds of positions `Within` the text, those
not beyond what their line holds before its break and those on a line past
the last. A position beyond its line is clamped to before the last unit of
the line, and the order is lost.
-/

namespace LanguageRelay

/-! ## Spans -/

/-- The replacement of the characters from `start` up to `stop`. -/
structure Span where
  start : Nat
  stop : Nat
  newText : List Char
deriving DecidableEq, Repr

namespace Span

/-- A text with one span replaced. -/
def splice (span : Span) (text : List Char) : List Char :=
  text.take span.start ++ span.newText ++ text.drop span.stop

/-- A text with the spans replaced one at a time, the last first. -/
def spliceAll (spans : List Span) (text : List Char) : List Char := spans.foldr splice text

/-- The spans lie one behind the other, the first not before `offset`. -/
def Apart : Nat → List Span → Prop
  | _, [] => True
  | offset, span :: rest => offset ≤ span.start ∧ span.start ≤ span.stop ∧ Apart span.stop rest

/-- No span covers the place `i`. -/
def Uncovered (spans : List Span) (i : Nat) : Prop :=
  ∀ span ∈ spans, i < span.start ∨ span.stop ≤ i

instance (spans : List Span) (i : Nat) : Decidable (Uncovered spans i) :=
  inferInstanceAs (Decidable (∀ span ∈ spans, _))

/-- The characters of a text that no span covers, in order. -/
def uncovered (spans : List Span) (text : List Char) : List Char :=
  (text.zipIdx.filter fun c => Uncovered spans c.2).map (·.1)

/-- The stretches of a text between the spans: before each of them, and after
the last. -/
def gaps (text : List Char) : Nat → List Span → List (List Char)
  | offset, [] => [text.drop offset]
  | offset, span :: rest => TextEdit.slice text offset span.start :: gaps text span.stop rest

/-- The gaps with the new texts between them. -/
def weave : List Span → List (List Char) → List Char
  | span :: rest, gap :: more => gap ++ span.newText ++ weave rest more
  | _, gaps => gaps.flatten

variable {text : List Char} {spans : List Span} {offset : Nat}

/-- Spans apart from an offset are apart from any before it. -/
theorem Apart.le_start (h : Apart offset spans) : ∀ span ∈ spans, offset ≤ span.start := by
  induction spans generalizing offset with
  | nil => simp
  | cons span rest ih =>
    obtain ⟨hstart, hstop, hrest⟩ := h
    rintro s (_ | ⟨_, hs⟩)
    · exact hstart
    · have := ih hrest s hs
      omega

/-- Splicing spans apart from an offset keeps the text before the offset. -/
theorem take_spliceAll (h : Apart offset spans) (hlen : ∀ span ∈ spans, span.stop ≤ text.length) :
    (spliceAll spans text).take offset = text.take offset := by
  induction spans generalizing offset with
  | nil => rfl
  | cons span rest ih =>
    obtain ⟨hstart, hstop, hrest⟩ := h
    have hbound := hlen span List.mem_cons_self
    have hkept := ih hrest fun s hs => hlen s (List.mem_cons_of_mem _ hs)
    have hwhole : span.stop ≤ (spliceAll rest text).length := by
      have := congrArg List.length hkept
      simp only [List.length_take] at this
      omega
    calc (splice span (spliceAll rest text)).take offset
        = (spliceAll rest text).take offset := by
          rw [splice, List.append_assoc, List.take_append_of_le_length (by simp; omega),
            List.take_take, Nat.min_eq_left hstart]
      _ = text.take offset := by
          have := congrArg (List.take offset) hkept
          rwa [List.take_take, List.take_take, Nat.min_eq_left (by omega)] at this

/-- **Weaving is splicing.** The gaps with the new texts between them are what
the splices leave past the offset. The induction is on the spans: the splices
of the later ones leave the stretch before the first one as it is. -/
theorem weave_gaps (h : Apart offset spans) (hlen : ∀ span ∈ spans, span.stop ≤ text.length) :
    weave spans (gaps text offset spans) = (spliceAll spans text).drop offset := by
  induction spans generalizing offset with
  | nil => simp [weave, gaps, spliceAll]
  | cons span rest ih =>
    obtain ⟨hstart, hstop, hrest⟩ := h
    have hbound := hlen span List.mem_cons_self
    have hlen' : ∀ s ∈ rest, s.stop ≤ text.length := fun s hs =>
      hlen s (List.mem_cons_of_mem _ hs)
    have hkept : (spliceAll rest text).take span.start = text.take span.start := by
      have := congrArg (List.take span.start) (take_spliceAll hrest hlen')
      rwa [List.take_take, List.take_take, Nat.min_eq_left hstop] at this
    calc weave (span :: rest) (gaps text offset (span :: rest))
        = (text.take span.start).drop offset ++ span.newText
            ++ (spliceAll rest text).drop span.stop := by
          rw [gaps, weave, ih hrest hlen', TextEdit.slice]
      _ = (splice span (spliceAll rest text)).drop offset := by
          rw [splice, hkept, List.append_assoc, List.append_assoc,
            List.drop_append_of_le_length (by simp; omega)]

/-- A stretch of a text, and what follows it. -/
theorem drop_eq_slice_append {start stop : Nat} (h : start ≤ stop) :
    text.drop start = TextEdit.slice text start stop ++ text.drop stop := by
  have hskip : text.drop stop = (text.drop start).drop (stop - start) := by
    rw [List.drop_drop]
    congr 1
    omega
  rw [TextEdit.slice, List.drop_take, hskip, List.take_append_drop]

/-- Of characters counted from `offset`, a filter that takes every place they
have keeps them all. -/
theorem filter_zipIdx_eq_self {keep : Nat → Prop} [DecidablePred keep] {cs : List Char}
    (h : ∀ i, offset ≤ i → i < offset + cs.length → keep i) :
    ((cs.zipIdx offset).filter fun c => keep c.2).map (·.1) = cs := by
  have hall : ∀ c ∈ cs.zipIdx offset, decide (keep c.2) = true := by
    intro c hc
    have := List.mem_zipIdx hc
    exact decide_eq_true (h _ (by omega) (by omega))
  rw [List.filter_eq_self.mpr hall, List.zipIdx_map_fst]

/-- A filter that takes no place they have keeps none. -/
theorem filter_zipIdx_eq_nil {keep : Nat → Prop} [DecidablePred keep] {cs : List Char}
    (h : ∀ i, offset ≤ i → i < offset + cs.length → ¬ keep i) :
    ((cs.zipIdx offset).filter fun c => keep c.2).map (·.1) = [] := by
  rw [List.map_eq_nil_iff, List.filter_eq_nil_iff]
  intro c hc
  have := List.mem_zipIdx hc
  simpa using h _ (by omega) (by omega)

/-- **The gaps are what the spans leave uncovered.** Counted from the offset,
the text is a gap that no span covers, what the first span covers, and the
rest, where the first span covers nothing. -/
theorem flatten_gaps (h : Apart offset spans) (hlen : ∀ span ∈ spans, span.stop ≤ text.length) :
    (gaps text offset spans).flatten
      = (((text.drop offset).zipIdx offset).filter fun c => Uncovered spans c.2).map (·.1) := by
  induction spans generalizing offset with
  | nil =>
    rw [filter_zipIdx_eq_self fun i _ _ => by simp [Uncovered]]
    simp [gaps]
  | cons span rest ih =>
    obtain ⟨hstart, hstop, hrest⟩ := h
    have hbound := hlen span List.mem_cons_self
    have hlater := hrest.le_start
    have hslice : ∀ {a b}, a ≤ b → b ≤ text.length →
        (TextEdit.slice text a b).length = b - a := by
      intro a b _ hb
      simp [TextEdit.slice, Nat.min_eq_left hb]
    have hfront : (((TextEdit.slice text offset span.start).zipIdx offset).filter
        fun c => Uncovered (span :: rest) c.2).map (·.1)
        = TextEdit.slice text offset span.start := by
      refine filter_zipIdx_eq_self fun i _ hi s hs => .inl ?_
      rw [hslice hstart (by omega)] at hi
      rcases List.mem_cons.mp hs with rfl | hs
      · omega
      · have := hlater s hs
        omega
    have hcovered : (((TextEdit.slice text span.start span.stop).zipIdx span.start).filter
        fun c => Uncovered (span :: rest) c.2).map (·.1) = [] := by
      refine filter_zipIdx_eq_nil fun i hi hi' hun => ?_
      rw [hslice hstop hbound] at hi'
      have := hun span List.mem_cons_self
      omega
    have hback : ∀ c ∈ (text.drop span.stop).zipIdx span.stop,
        decide (Uncovered (span :: rest) c.2) = decide (Uncovered rest c.2) := by
      intro c hc
      have := (List.mem_zipIdx hc).1
      exact decide_eq_decide.mpr (by simp [Uncovered, this])
    rw [gaps, List.flatten_cons, ih hrest fun s hs => hlen s (List.mem_cons_of_mem _ hs),
      drop_eq_slice_append hstart, drop_eq_slice_append hstop, List.zipIdx_append,
      List.zipIdx_append, hslice hstart (by omega), hslice hstop hbound,
      show offset + (span.start - offset) = span.start by omega,
      show span.start + (span.stop - span.start) = span.stop by omega,
      List.filter_append, List.filter_append, List.map_append, List.map_append, hfront, hcovered,
      List.nil_append, List.filter_congr hback]

end Span

/-! ## Places -/

theorem Position.le_iff {p q : Position} :
    p ≤ q ↔ p.line < q.line ∨ p.line = q.line ∧ p.character ≤ q.character := by
  change p.le q = true ↔ _
  simp [Position.le]

/-- What a line holds before its break. -/
def content (line : List Char) : List Char := line.takeWhile fun c => !isLineBreak c

/-- The position does not reach beyond what its line holds, or its line is
past the last. -/
def Position.Within (text : List Char) (p : Position) : Prop :=
  ∀ line ∈ (lines text)[p.line]?, p.character ≤ units (content line)

instance (text : List Char) (p : Position) : Decidable (p.Within text) :=
  inferInstanceAs (Decidable (∀ line ∈ (lines text)[p.line]?, _))

/-- The place of a position, in characters from the start of a text: as many
of its line as take up its units, after the lines above; the end of the text
where there is no such line. -/
def Position.place (text : List Char) (p : Position) : Nat :=
  match (lines text)[p.line]? with
  | some line => rowOffset (lines text) p.line + charsFor p.character (content line)
  | none => text.length

/-- Joining breaks leaves what is before the first of them. -/
theorem content_prefix_joinBreaks (line : List Char) : content line <+: joinBreaks line := by
  fun_induction joinBreaks line with
  | case1 => exact List.prefix_rfl
  | case2 rest => exact List.nil_prefix
  | case3 c rest _ ih =>
    by_cases hc : isLineBreak c
    · simp [content, hc]
    · simpa [content, hc] using ih

@[simp] theorem units_append (as bs : List Char) : units (as ++ bs) = units as + units bs := by
  induction as with
  | nil => simp [units]
  | cons c as ih => simp [units, ih, Nat.add_assoc]

/-- Units that a text has are taken from it, whatever follows. -/
theorem charsFor_append {count : Nat} {as : List Char} (h : count ≤ units as) (bs : List Char) :
    charsFor count (as ++ bs) = charsFor count as := by
  induction as generalizing count with
  | nil =>
    obtain rfl : count = 0 := by simpa [units] using h
    cases bs <;> rfl
  | cons c as ih =>
    simp only [units] at h
    simp only [List.cons_append, charsFor]
    split
    · rfl
    · rw [ih (by omega)]

/-- More units take no fewer characters. -/
theorem charsFor_mono {a b : Nat} (h : a ≤ b) (text : List Char) :
    charsFor a text ≤ charsFor b text := by
  induction text generalizing a b with
  | nil => rfl
  | cons c rest ih =>
    by_cases ha : a = 0
    · simp [charsFor, ha]
    · have := ih (show a - charUnits c ≤ b - charUnits c by omega)
      simp only [charsFor, ha, show b ≠ 0 by omega, if_false]
      omega

variable {text : List Char} {p q : Position}

theorem content_length_le (line : List Char) : (content line).length ≤ line.length :=
  (List.takeWhile_sublist _).length_le

theorem Position.place_le_length (text : List Char) (p : Position) : p.place text ≤ text.length := by
  unfold place
  split
  next line hline =>
    have := rowOffset_add_length_le hline
    have := charsFor_le_length p.character (content line)
    have := content_length_le line
    omega
  next => exact le_rfl

/-- **A later position falls no earlier.** On one line more units take no
fewer characters; of two lines the first is over before the second begins. -/
theorem Position.place_mono (h : p ≤ q) : p.place text ≤ q.place text := by
  rcases Position.le_iff.mp h with hline | ⟨hline, hchar⟩
  · unfold place
    cases hq : (lines text)[q.line]? with
    | none => exact place_le_length text p
    | some later =>
      have hlt : p.line < (lines text).length := by
        have := (List.getElem?_eq_some_iff.mp hq).1
        omega
      obtain ⟨line, hp⟩ : ∃ line, (lines text)[p.line]? = some line :=
        ⟨_, List.getElem?_eq_getElem hlt⟩
      have hover := rowOffset_mono (lines text) (show p.line + 1 ≤ q.line by omega)
      rw [rowOffset_succ hp] at hover
      have := charsFor_le_length p.character (content line)
      have := content_length_le line
      simp only [hp]
      omega
  · unfold place
    rw [hline]
    split
    next line => exact Nat.add_le_add_left (charsFor_mono hchar _) _
    next => exact le_rfl

/-- A position within a text is resolved as it is. -/
theorem resolve_of_within {line : List Char} (h : p.Within text)
    (hline : (lines text)[p.line]? = some line) :
    resolve (lines text) p = ⟨p.line, charsFor p.character (content line), p⟩ := by
  obtain ⟨rest, hrest⟩ := content_prefix_joinBreaks line
  have hwithin : p.character ≤ units (content line) := h line hline
  have hclamp : p.clampTo (units (joinBreaks line)) = p := by
    rw [Position.clampTo, if_neg]
    rw [← hrest, units_append]
    omega
  simp only [resolve, hline, hclamp]
  rw [← hrest, charsFor_append hwithin]

/-- **A position within a text is not clamped.** -/
theorem shown_of_within (h : p.Within text) : (resolve (lines text) p).shown = p := by
  cases hline : (lines text)[p.line]? with
  | some line => rw [resolve_of_within h hline]
  | none => cases hlast : (lines text).getLast? <;> simp [resolve, hline, hlast]

/-- **The place of a position is where it is found**: past the last line the
offset counts the last line's units, so that it can lie beyond the text. -/
theorem min_offsetAt_of_within (h : p.Within text) :
    min (offsetAt text p) text.length = p.place text := by
  cases hline : (lines text)[p.line]? with
  | some line =>
    have hplace : p.place text
        = rowOffset (lines text) p.line + charsFor p.character (content line) := by
      simp [Position.place, hline]
    have := p.place_le_length text
    rw [offsetAt, resolve_of_within h hline]
    simp only
    omega
  | none =>
    have hplace : p.place text = text.length := by simp [Position.place, hline]
    rw [hplace, Nat.min_eq_right (length_le_offsetAt (List.getElem?_eq_none_iff.mp hline))]

/-! ## Edits -/

namespace TextEdit

/-- What the edit replaces in a text. -/
def span (text : List Char) (e : TextEdit) : Span :=
  ⟨e.range.start.place text, e.range.stop.place text, e.newText.toList⟩

/-- The edit reads forward between positions within the text. -/
structure Fits (text : List Char) (e : TextEdit) : Prop where
  forward : e.range.start ≤ e.range.stop
  start : e.range.start.Within text
  stop : e.range.stop.Within text

instance (text : List Char) (e : TextEdit) : Decidable (e.Fits text) :=
  decidable_of_iff (e.range.start ≤ e.range.stop ∧ e.range.start.Within text
      ∧ e.range.stop.Within text)
    ⟨fun ⟨forward, start, stop⟩ => ⟨forward, start, stop⟩,
      fun ⟨forward, start, stop⟩ => ⟨forward, start, stop⟩⟩

/-- The edit as its positions are clamped to the text. -/
def shown (text : List Char) (e : TextEdit) : TextEdit :=
  { e with range := ⟨(resolve (lines text) e.range.start).shown,
      (resolve (lines text) e.range.stop).shown⟩ }

variable {edits ordered : List TextEdit}

theorem Fits.shown_eq {e : TextEdit} (h : e.Fits text) : e.shown text = e := by
  rw [shown, shown_of_within h.start, shown_of_within h.stop]

/-- A list that is accepted is put into another order, and no edit begins
before the one in front of it ends. -/
theorem sort_eq_ok (h : sort edits = .ok ordered) :
    ordered.Perm edits ∧ firstOverlap? ordered = none := by
  simp only [sort] at h
  split at h
  · cases h
  · next hnone =>
    cases h
    exact ⟨List.mergeSort_perm _ _, hnone⟩

/-- **The spans of edits that do not overlap lie apart.** -/
theorem apart_of_firstOverlap {offset : Nat} (h : firstOverlap? ordered = none)
    (hfit : ∀ e ∈ ordered, e.Fits text)
    (hfirst : ∀ e ∈ ordered.head?, offset ≤ e.range.start.place text) :
    Span.Apart offset (ordered.map (span text)) := by
  induction ordered generalizing offset with
  | nil => trivial
  | cons e rest ih =>
    have hforward := (hfit e List.mem_cons_self).forward
    refine ⟨hfirst e rfl, Position.place_mono hforward, ?_⟩
    cases rest with
    | nil => trivial
    | cons next rest =>
      rw [firstOverlap?] at h
      split at h
      next hnext =>
        refine ih h (fun e he => hfit e (List.mem_cons_of_mem _ he)) fun first hfirst' => ?_
        obtain rfl : next = first := by simpa using hfirst'
        exact Position.place_mono hnext
      next => cases h

/-- Copying up to an offset past the end is copying up to the end. -/
theorem slice_min (start stop : Nat) :
    slice text (min start text.length) (min stop text.length) = slice text start stop := by
  have htake : text.take (min stop text.length) = text.take stop := by
    rw [← List.take_eq_take_min]
  rw [slice, slice, htake]
  rcases Nat.le_total start text.length with h | h
  · rw [Nat.min_eq_left h]
  · rw [Nat.min_eq_right h, List.drop_eq_nil_of_le (by rw [List.length_take]; omega),
      List.drop_eq_nil_of_le (by rw [List.length_take]; omega)]

/-- **A text is copied gap by gap.** -/
theorem applyFrom_eq (offset : Nat) (hfit : ∀ e ∈ ordered, e.Fits text) :
    applyFrom text offset ordered
      = Span.weave (ordered.map (span text))
        (Span.gaps text (min offset text.length) (ordered.map (span text))) := by
  induction ordered generalizing offset with
  | nil => simp [applyFrom, Span.weave, Span.gaps]
  | cons e rest ih =>
    have he := hfit e List.mem_cons_self
    rw [applyFrom, ih _ fun e he => hfit e (List.mem_cons_of_mem _ he),
      min_offsetAt_of_within he.stop, ← slice_min, min_offsetAt_of_within he.start]
    rfl

/-- What making edits in a text comes to, with the edits in the order in
which they are made. -/
structure Substitution (text : List Char) (edits ordered : List TextEdit) : Prop where
  /-- Each edit is made, and made once. -/
  once : ordered.Perm edits
  /-- The spans end where the positions are found, but not past the text. -/
  found : ∀ e ∈ edits,
    min (offsetAt text e.range.start) text.length = (e.span text).start
      ∧ min (offsetAt text e.range.stop) text.length = (e.span text).stop
  apart : Span.Apart 0 (ordered.map (span text))
  /-- The result is that of the splices, the last one first. -/
  spliced : applyAll text edits = .ok (Span.spliceAll (ordered.map (span text)) text)
  /-- It consists of the gaps between the spans and of the new texts. -/
  woven : Span.spliceAll (ordered.map (span text)) text
    = Span.weave (ordered.map (span text)) (Span.gaps text 0 (ordered.map (span text)))
  /-- The gaps hold the characters that no span covers, each once and in order. -/
  kept : (Span.gaps text 0 (ordered.map (span text))).flatten
    = Span.uncovered (ordered.map (span text)) text
  /-- No position was clamped. -/
  unaltered : edits.map (shown text) = edits

/-- **Edits are one substitution.** Edits that do not overlap, read forward and
keep within the text are all made in the text as it was. -/
theorem substitution_of_sorted (text : List Char) (edits ordered : List TextEdit)
    (hsort : sort edits = .ok ordered) (hfit : ∀ e ∈ edits, e.Fits text) :
    Substitution text edits ordered := by
  obtain ⟨hperm, hnone⟩ := sort_eq_ok hsort
  have hfit' : ∀ e ∈ ordered, e.Fits text := fun e he => hfit e (hperm.mem_iff.mp he)
  have hapart : Span.Apart 0 (ordered.map (span text)) :=
    apart_of_firstOverlap hnone hfit' fun e _ => Nat.zero_le _
  have hlen : ∀ s ∈ ordered.map (span text), s.stop ≤ text.length := by
    intro s hs
    obtain ⟨e, _, rfl⟩ := List.mem_map.mp hs
    exact e.range.stop.place_le_length text
  have hwoven := Span.weave_gaps hapart hlen
  rw [List.drop_zero] at hwoven
  refine ⟨hperm, ?_, hapart, ?_, hwoven.symm, Span.flatten_gaps hapart hlen, ?_⟩
  · intro e he
    exact ⟨min_offsetAt_of_within (hfit e he).start, min_offsetAt_of_within (hfit e he).stop⟩
  · have hmade := applyFrom_eq 0 hfit'
    rw [Nat.zero_min, hwoven] at hmade
    simp only [applyAll, hsort, hmade]
  · rw [List.map_congr_left fun e he => (hfit e he).shown_eq, List.map_id']

/-- Four edits of one text: from within a pair of units across a break of two
characters, two at the start of the line after it, and one past the end. -/
theorem substitution_of_sorted_pairsAndBreaks :
    let text := ['a', '😀', 'b', '\r', '\n', 'c', 'd', '\n']
    let across : TextEdit := ⟨⟨⟨0, 2⟩, ⟨1, 0⟩⟩, ""⟩
    let before : TextEdit := ⟨⟨⟨1, 0⟩, ⟨1, 0⟩⟩, "x"⟩
    let instead : TextEdit := ⟨⟨⟨1, 0⟩, ⟨1, 1⟩⟩, "y"⟩
    let past : TextEdit := ⟨⟨⟨9, 3⟩, ⟨9, 4⟩⟩, "end"⟩
    let edits := [before, past, across, instead]
    sort edits = .ok [across, before, instead, past] ∧ (∀ e ∈ edits, e.Fits text)
      ∧ Substitution text edits [across, before, instead, past]
      ∧ applyAll text edits = .ok ['a', '😀', 'x', 'y', 'd', '\n', 'e', 'n', 'd'] := by
  intro text across before instead past edits
  have hsort : sort edits = .ok [across, before, instead, past] := by
    simp [sort, edits, across, before, instead, past, List.mergeSort,
      List.MergeSort.Internal.splitInTwo, firstOverlap?, Position.le_iff]
  have hfit : ∀ e ∈ edits, e.Fits text := by decide
  have hmade : applyFrom text 0 [across, before, instead, past] =
      ['a', '😀', 'x', 'y', 'd', '\n', 'e', 'n', 'd'] := by decide
  have hresult : applyAll text edits = .ok ['a', '😀', 'x', 'y', 'd', '\n', 'e', 'n', 'd'] := by
    simp only [applyAll, hsort, hmade]
  exact ⟨hsort, hfit, substitution_of_sorted text edits _ hsort hfit, hresult⟩

end TextEdit

end LanguageRelay
