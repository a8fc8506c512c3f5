import LanguageRelay.Proofs.Json.Integers
import LanguageRelay.Service.Location
/-!
# Locations of the analysis server read and written

`Located`, `Spanned` and `InFile` list what can become of a location, of the
span between two of them, and of a span that names its file, one constructor
per outcome, each with everything that leads to it; `locations_settled` says
that the lists are complete. A location whose entries are unreadable is a
protocol fault, whose wording shows the location. It escapes as another failure
where an entry is infinite, where both entries are read and one of them is beyond
what a position can hold, and where it would have to be shown but cannot be
written (`Escapes`). A span escapes where it comes to an end that does, and where
it would have to be shown itself but cannot be written.
-/

namespace LanguageRelay

namespace Json

/-- The entry under a key stands for an integer. -/
def Holds (v : Json) (key : String) (n : Int) : Prop := ∃ x, v.get? key = some x ∧ x.ReadsAs n

/-- The entry under a key is an infinite double. -/
def HoldsEndless (v : Json) (key : String) : Prop := ∃ x, v.get? key = some x ∧ x.IsEndless

/-- The entry under a key is missing, or it stands for no integer and is not
infinite either. -/
def Lacks (v : Json) (key : String) : Prop := (∀ n, ¬ v.Holds key n) ∧ ¬ v.HoldsEndless key

end Json

namespace Service

variable {l span : Json} {key : String} {n m : Int}

/-! ## What can become of them -/

/-- An entry that is come to is unreadable: the line, or the offset behind a line
that is read. -/
def Unread (l : Json) : Prop := l.Lacks "line" ∨ ∃ n, l.Holds "line" n ∧ l.Lacks "offset"

/-- **What can become of a location.** -/
inductive Located (l : Json) : Except Failure Position → Prop where
  /-- Both entries are read, and within bounds: it is a position. -/
  | placed {n m : Int} {p : Position} (hline : l.Holds "line" n) (hoffset : l.Holds "offset" m)
      (hn : n ≤ 2 ^ 31) (hm : m ≤ 2 ^ 31) (hp : (p.line : Int) = max 0 (n - 1))
      (hq : (p.character : Int) = max 0 (m - 1)) : Located l (.ok p)
  /-- An entry that is come to is unreadable, and the location can be shown. -/
  | unreadable (hentry : Unread l) (hshown : l.isWritable) :
      Located l (.error (.protocol (.invalidLocation l)))
  /-- An entry that is come to is unreadable, and the location cannot be shown. -/
  | unshown (hentry : Unread l) (hshown : ¬ l.isWritable) :
      Located l (.error (.value .badValue))
  | endlessLine (hline : l.HoldsEndless "line") : Located l (.error (.value .infinite))
  | endlessOffset {n : Int} (hline : l.Holds "line" n) (hoffset : l.HoldsEndless "offset") :
      Located l (.error (.value .infinite))
  /-- Both entries are read, and one of them is too large. -/
  | tooLarge {n m : Int} (hline : l.Holds "line" n) (hoffset : l.Holds "offset" m)
      (hlarge : 2 ^ 31 < n ∨ 2 ^ 31 < m) : Located l (.error (.value .badValue))

/-- The ends of a span, where both are objects. -/
def Ends (span start stop : Json) : Prop :=
  ∃ first last, start = .obj first ∧ stop = .obj last ∧ span.get? "start" = some start ∧
    span.get? "end" = some stop

/-- **What can become of a span.** -/
inductive Spanned (span : Json) : Except Failure Range → Prop where
  | placed {start stop : Json} {range : Range} (hends : Ends span start stop)
      (hstart : Located start (.ok range.start)) (hstop : Located stop (.ok range.stop)) :
      Spanned span (.ok range)
  | endless (hends : ∀ start stop, ¬ Ends span start stop) (hshown : span.isWritable) :
      Spanned span (.error (.protocol (.invalidSpan span)))
  | unshown (hends : ∀ start stop, ¬ Ends span start stop) (hshown : ¬ span.isWritable) :
      Spanned span (.error (.value .badValue))
  | badStart {start stop : Json} {e : Failure} (hends : Ends span start stop)
      (hstart : Located start (.error e)) : Spanned span (.error e)
  | badStop {start stop : Json} {p : Position} {e : Failure} (hends : Ends span start stop)
      (hstart : Located start (.ok p)) (hstop : Located stop (.error e)) : Spanned span (.error e)

/-- **What can become of a span that should name its file.** -/
inductive InFile (span : Json) : Except Failure Location → Prop where
  | placed {file : String} {range : Range} (hfile : span.get? "file" = some (.str file))
      (hrange : Spanned span (.ok range)) : InFile span (.ok ⟨Uri.ofFile file, range⟩)
  | nameless (hfile : ∀ file, span.get? "file" ≠ some (.str file)) (hshown : span.isWritable) :
      InFile span (.error (.protocol (.spanWithoutFile span)))
  | unshown (hfile : ∀ file, span.get? "file" ≠ some (.str file)) (hshown : ¬ span.isWritable) :
      InFile span (.error (.value .badValue))
  | bad {file : String} {e : Failure} (hfile : span.get? "file" = some (.str file))
      (hrange : Spanned span (.error e)) : InFile span (.error e)

/-- If it fails, it does so as a protocol fault. -/
def Contained {α : Type} (outcome : Except Failure α) : Prop :=
  ∀ e, outcome = .error e → ∃ fault, e = .protocol fault

/-- **The locations that fail otherwise.** An entry that is come to is infinite, or
unreadable in a location that cannot be shown, or both are read and one of them is
too large. -/
def Escapes (l : Json) : Prop :=
  l.HoldsEndless "line" ∨ (Unread l ∧ ¬ l.isWritable) ∨ ∃ n, l.Holds "line" n ∧
    (l.HoldsEndless "offset" ∨ ∃ m, l.Holds "offset" m ∧ (2 ^ 31 < n ∨ 2 ^ 31 < m))

/-- **The spans that fail otherwise**: the start does, or it is a position and the
end does, or there are no two ends and the span cannot be shown. -/
def EscapesSpan (span : Json) : Prop :=
  (∃ start stop, Ends span start stop ∧
    (Escapes start ∨ (∃ p, Located start (.ok p)) ∧ Escapes stop)) ∨
  (∀ start stop, ¬ Ends span start stop) ∧ ¬ span.isWritable

/-- **The spans that should name their file and fail otherwise**: one that names it
does so as a span, one that does not where it cannot be shown. -/
def EscapesFile (span : Json) : Prop :=
  (∃ file, span.get? "file" = some (.str file)) ∧ EscapesSpan span ∨
  (∀ file, span.get? "file" ≠ some (.str file)) ∧ ¬ span.isWritable

/-! ## Coordinates -/

theorem coordinate_eq_ok_iff : coordinate l key = .ok n ↔ l.Holds key n := by
  rw [coordinate, Json.Holds]
  cases hget : l.get? key with
  | none => simp
  | some v =>
    simp only [Option.some.injEq, exists_eq_left', ← Json.toInteger_eq_ok_iff]
    cases hv : v.toInteger with
    | ok k => simp
    | error fault => cases fault <;> simp

theorem coordinate_of_endless (h : l.HoldsEndless key) :
    coordinate l key = .error (.value .infinite) := by
  obtain ⟨v, hget, hendless⟩ := h
  simp only [coordinate, hget, Json.toInteger_eq_infinite_iff.mpr hendless]

/-- A missing or unreadable entry is a fault of the location. -/
theorem coordinate_of_lacks (h : l.Lacks key) :
    coordinate l key = .error (.showing l (.invalidLocation l)) := by
  obtain ⟨hunread, hfinite⟩ := h
  cases hget : l.get? key with
  | none => simp only [coordinate, hget]
  | some v =>
    cases hv : v.toInteger with
    | ok n => exact absurd ⟨v, hget, Json.toInteger_eq_ok_iff.mp hv⟩ (hunread n)
    | error fault =>
      cases fault with
      | infinite => exact absurd ⟨v, hget, Json.toInteger_eq_infinite_iff.mp hv⟩ hfinite
      | _ => simp only [coordinate, hget, hv]

/-- An entry is read, or infinite, or neither. -/
theorem holds_cases (l : Json) (key : String) :
    (∃ n, l.Holds key n) ∨ l.HoldsEndless key ∨ l.Lacks key := by
  by_cases hread : ∃ n, l.Holds key n
  · exact .inl hread
  · by_cases hendless : l.HoldsEndless key
    · exact .inr (.inl hendless)
    · exact .inr (.inr ⟨fun n hn => hread ⟨n, hn⟩, hendless⟩)

/-- One less than a coordinate counted from one is within bounds just if the
coordinate is. -/
theorem coordinate?_fromOne (n : Int) : Position.coordinate? (fromOne n) =
    if n ≤ 2 ^ 31 then some (fromOne n).toNat else none := by
  unfold Position.coordinate? fromOne Position.maxCoordinate
  split <;> split <;> first | rfl | omega

theorem toPosition_of_holds (hline : l.Holds "line" n) (hoffset : l.Holds "offset" m) :
    toPosition l =
      if n ≤ 2 ^ 31 ∧ m ≤ 2 ^ 31 then .ok ⟨(fromOne n).toNat, (fromOne m).toNat⟩
      else .error (.value .badValue) := by
  rw [toPosition, coordinate_eq_ok_iff.mpr hline, coordinate_eq_ok_iff.mpr hoffset]
  simp only [bind, Except.bind, Position.ofInts?, coordinate?_fromOne]
  by_cases hn : n ≤ 2 ^ 31 <;> by_cases hm : m ≤ 2 ^ 31 <;>
    simp only [hn, hm, if_true, if_false, and_self, and_true, and_false] <;> rfl

/-- So it is of the whole location, where the entry is come to. -/
theorem toPosition_of_unread (h : Unread l) :
    toPosition l = .error (.showing l (.invalidLocation l)) := by
  rcases h with hline | ⟨n, hline, hoffset⟩
  · rw [toPosition, coordinate_of_lacks hline]
    rfl
  · rw [toPosition, coordinate_eq_ok_iff.mpr hline, coordinate_of_lacks hoffset]
    rfl

/-- A fault that shows a value is one of the protocol, if the value can be shown. -/
theorem showing_cases (shown : Json) (fault : ProtocolFault) :
    (shown.isWritable ∧ Failure.showing shown fault = .protocol fault) ∨
      (¬ shown.isWritable ∧ Failure.showing shown fault = .value .badValue) := by
  by_cases h : shown.isWritable <;> simp [Failure.showing, h]

/-! ## Each outcome -/

/-- **A location with an unreadable entry is in the list.** -/
theorem located_of_unread (h : Unread l) :
    Located l (.error (.showing l (.invalidLocation l))) := by
  rcases showing_cases l (.invalidLocation l) with ⟨hshown, heq⟩ | ⟨hshown, heq⟩ <;> rw [heq]
  · exact .unreadable h hshown
  · exact .unshown h hshown

/-- **What becomes of a location is in the list.** -/
theorem located_toPosition (l : Json) : Located l (toPosition l) := by
  rcases holds_cases l "line" with ⟨n, hline⟩ | hline | hline
  · rcases holds_cases l "offset" with ⟨m, hoffset⟩ | hoffset | hoffset
    · rw [toPosition_of_holds hline hoffset]
      split
      · rename_i hbounds
        exact .placed hline hoffset hbounds.1 hbounds.2
          (Int.toNat_of_nonneg (Int.le_max_left 0 _)) (Int.toNat_of_nonneg (Int.le_max_left 0 _))
      · rename_i hbounds
        exact .tooLarge hline hoffset (by omega)
    · rw [toPosition, coordinate_eq_ok_iff.mpr hline, coordinate_of_endless hoffset]
      exact .endlessOffset hline hoffset
    · rw [toPosition_of_unread (.inr ⟨n, hline, hoffset⟩)]
      exact located_of_unread (.inr ⟨n, hline, hoffset⟩)
  · rw [toPosition, coordinate_of_endless hline]
    exact .endlessLine hline
  · rw [toPosition_of_unread (.inl hline)]
    exact located_of_unread (.inl hline)

/-- **Each outcome in the list comes about.** -/
theorem Located.eq {outcome : Except Failure Position} (h : Located l outcome) :
    toPosition l = outcome := by
  cases h with
  | @placed n m p hline hoffset hn hm hp hq =>
    have hfrom : ∀ (k : Nat) (n : Int), (k : Int) = max 0 (n - 1) → (fromOne n).toNat = k := by
      intro k n hk
      rw [fromOne, ← hk, Int.toNat_natCast]
    rw [toPosition_of_holds hline hoffset, if_pos ⟨hn, hm⟩, hfrom _ _ hp, hfrom _ _ hq]
  | unreadable hentry hshown | unshown hentry hshown =>
    rw [toPosition_of_unread hentry, Failure.showing]
    simp [hshown]
  | endlessLine hline =>
    rw [toPosition, coordinate_of_endless hline]
    rfl
  | endlessOffset hline hoffset =>
    rw [toPosition, coordinate_eq_ok_iff.mpr hline, coordinate_of_endless hoffset]
    rfl
  | tooLarge hline hoffset hlarge =>
    rw [toPosition_of_holds hline hoffset, if_neg (by omega)]

theorem toPosition_eq_iff {outcome : Except Failure Position} :
    toPosition l = outcome ↔ Located l outcome :=
  ⟨fun h => h ▸ located_toPosition l, Located.eq⟩

/-- A span with both its ends is read end by end. -/
theorem spanRange_of_ends {start stop : Json} (hends : Ends span start stop) :
    spanRange span = (do
      let first ← toPosition start
      let last ← toPosition stop
      return ⟨first, last⟩) := by
  obtain ⟨first, last, rfl, rfl, hstart, hstop⟩ := hends
  cases span with
  | obj fields => simp only [spanRange, Json.get, hstart, hstop, Option.getD_some, toRange]
  | _ => simp [Json.get?, Json.fields] at hstart

/-- An object is a span just if both its ends are objects. -/
theorem spanRange_of_not_ends {fields : Fields}
    (h : ∀ start stop, ¬ Ends (.obj fields) start stop) :
    spanRange (.obj fields) = .error (.showing (.obj fields) (.invalidSpan (.obj fields))) := by
  have hobj : ∀ key first, (Json.obj fields).get key = .obj first →
      (Json.obj fields).get? key = some (.obj first) := by
    intro key first hget
    rw [Json.get] at hget
    cases hkey : (Json.obj fields).get? key with
    | none => simp [hkey] at hget
    | some v => rw [← hget, hkey, Option.getD_some]
  unfold spanRange
  simp only []
  split
  · rename_i first last hstart hstop
    exact absurd ⟨first, last, rfl, rfl, hobj _ _ hstart, hobj _ _ hstop⟩ (h _ _)
  · rfl

/-- **What becomes of a span is in its list, and each outcome there comes
about.** -/
theorem spanRange_eq_iff {fields : Fields} {outcome : Except Failure Range} :
    spanRange (.obj fields) = outcome ↔ Spanned (.obj fields) outcome := by
  constructor
  · rintro rfl
    by_cases hends : ∃ start stop, Ends (.obj fields) start stop
    · obtain ⟨start, stop, hends⟩ := hends
      rw [spanRange_of_ends hends]
      cases hstart : toPosition start with
      | error e => exact .badStart hends (toPosition_eq_iff.mp hstart)
      | ok p =>
        cases hstop : toPosition stop with
        | error e => exact .badStop hends (toPosition_eq_iff.mp hstart) (toPosition_eq_iff.mp hstop)
        | ok q => exact .placed hends (toPosition_eq_iff.mp hstart) (toPosition_eq_iff.mp hstop)
    · have hnot : ∀ start stop, ¬ Ends (.obj fields) start stop :=
        fun start stop h => hends ⟨start, stop, h⟩
      rw [spanRange_of_not_ends hnot]
      rcases showing_cases (.obj fields) (.invalidSpan (.obj fields)) with
        ⟨hshown, heq⟩ | ⟨hshown, heq⟩ <;> rw [heq]
      · exact .endless hnot hshown
      · exact .unshown hnot hshown
  · intro h
    cases h with
    | placed hends hstart hstop => rw [spanRange_of_ends hends, hstart.eq, hstop.eq]; rfl
    | endless hends hshown | unshown hends hshown =>
      rw [spanRange_of_not_ends hends, Failure.showing]
      simp [hshown]
    | badStart hends hstart => rw [spanRange_of_ends hends, hstart.eq]; rfl
    | badStop hends hstart hstop => rw [spanRange_of_ends hends, hstart.eq, hstop.eq]; rfl

/-- A span that names its file is read as a span. -/
theorem spanLocation_of_named {fields : Fields} {file : String}
    (h : (Json.obj fields).get? "file" = some (.str file)) :
    spanLocation (.obj fields) =
      (spanRange (.obj fields)).map fun range => ⟨Uri.ofFile file, range⟩ := by
  simp only [spanLocation, Json.get, h, Option.getD_some]
  rfl

theorem spanLocation_of_nameless {fields : Fields}
    (h : ∀ file, (Json.obj fields).get? "file" ≠ some (.str file)) :
    spanLocation (.obj fields) =
      .error (.showing (.obj fields) (.spanWithoutFile (.obj fields))) := by
  unfold spanLocation
  simp only []
  split
  · rename_i file hget
    rw [Json.get] at hget
    cases hfile : (Json.obj fields).get? "file" with
    | none => simp [hfile] at hget
    | some v => exact absurd (by rw [← hget, hfile, Option.getD_some]) (h file)
  · rfl

/-- The same of a span that should name its file. -/
theorem spanLocation_eq_iff {fields : Fields} {outcome : Except Failure Location} :
    spanLocation (.obj fields) = outcome ↔ InFile (.obj fields) outcome := by
  constructor
  · rintro rfl
    by_cases hfile : ∃ file, (Json.obj fields).get? "file" = some (.str file)
    · obtain ⟨file, hget⟩ := hfile
      rw [spanLocation_of_named hget]
      cases hrange : spanRange (.obj fields) with
      | error e => exact .bad hget (spanRange_eq_iff.mp hrange)
      | ok range => exact .placed hget (spanRange_eq_iff.mp hrange)
    · have hnot : ∀ file, (Json.obj fields).get? "file" ≠ some (.str file) :=
        fun file hget => hfile ⟨file, hget⟩
      rw [spanLocation_of_nameless hnot]
      rcases showing_cases (.obj fields) (.spanWithoutFile (.obj fields)) with
        ⟨hshown, heq⟩ | ⟨hshown, heq⟩ <;> rw [heq]
      · exact .nameless hnot hshown
      · exact .unshown hnot hshown
  · intro h
    cases h with
    | placed hget hrange => rw [spanLocation_of_named hget, spanRange_eq_iff.mpr hrange]; rfl
    | nameless hnot hshown | unshown hnot hshown =>
      rw [spanLocation_of_nameless hnot, Failure.showing]
      simp [hshown]
    | bad hget hrange => rw [spanLocation_of_named hget, spanRange_eq_iff.mpr hrange]; rfl

/-! ## What escapes -/

theorem contained_ok {α : Type} (a : α) : Contained (.ok a) := fun _ h => nomatch h

theorem contained_protocol {α : Type} (fault : ProtocolFault) :
    Contained (.error (.protocol fault) : Except Failure α) :=
  fun _ h => ⟨fault, (Except.error.inj h).symm⟩

/-- A fault that shows a value is contained just if the value can be shown. -/
theorem contained_showing {α : Type} {shown : Json} (fault : ProtocolFault) :
    Contained (.error (.showing shown fault) : Except Failure α) ↔ shown.isWritable := by
  rcases showing_cases shown fault with ⟨hshown, heq⟩ | ⟨hshown, heq⟩ <;> rw [heq]
  · exact iff_of_true (contained_protocol fault) hshown
  · exact iff_of_false (fun h => nomatch h _ rfl) hshown

/-- What is made of a result changes no failure. -/
theorem contained_map {α β : Type} {f : α → β} {outcome : Except Failure α} :
    Contained (outcome.map f) ↔ Contained outcome := by
  cases outcome with
  | ok a => exact iff_of_true (contained_ok _) (contained_ok a)
  | error e => exact ⟨fun h e' he => h e' (by cases he; rfl), fun h e' he => h e' (by cases he; rfl)⟩

/-- A location that escapes fails as a value does. -/
theorem Escapes.eq (h : Escapes l) : ∃ fault, toPosition l = .error (.value fault) := by
  rcases h with hline | ⟨hentry, hshown⟩ | ⟨n, hline, hoffset | ⟨m, hoffset, hlarge⟩⟩
  · exact ⟨_, (Located.endlessLine hline).eq⟩
  · exact ⟨_, (Located.unshown hentry hshown).eq⟩
  · exact ⟨_, (Located.endlessOffset hline hoffset).eq⟩
  · exact ⟨_, (Located.tooLarge hline hoffset hlarge).eq⟩

theorem contained_toPosition_iff : Contained (toPosition l) ↔ ¬ Escapes l := by
  constructor
  · intro hcontained hescapes
    obtain ⟨fault, hfailed⟩ := hescapes.eq
    obtain ⟨fault', heq⟩ := hcontained _ hfailed
    cases heq
  · intro hnot
    have hlocated := located_toPosition l
    generalize toPosition l = outcome at hlocated ⊢
    cases hlocated with
    | placed => exact contained_ok _
    | unreadable => exact contained_protocol _
    | unshown hentry hshown => exact absurd (.inr (.inl ⟨hentry, hshown⟩)) hnot
    | endlessLine hline => exact absurd (.inl hline) hnot
    | endlessOffset hline hoffset => exact absurd (.inr (.inr ⟨_, hline, .inl hoffset⟩)) hnot
    | tooLarge hline hoffset hlarge =>
      exact absurd (.inr (.inr ⟨_, hline, .inr ⟨_, hoffset, hlarge⟩⟩)) hnot

/-- Of a span with both its ends the first end that escapes does. -/
theorem contained_spanRange_of_ends {start stop : Json} (hends : Ends span start stop) :
    Contained (spanRange span) ↔
      ¬ (Escapes start ∨ (∃ p, Located start (.ok p)) ∧ Escapes stop) := by
  rw [spanRange_of_ends hends, not_or, ← contained_toPosition_iff, not_and,
    ← contained_toPosition_iff]
  simp only [← toPosition_eq_iff]
  cases toPosition start with
  | error e => simp [bind, Except.bind, Contained]
  | ok p => cases toPosition stop <;> simp [bind, Except.bind, pure, Except.pure, Contained]

theorem contained_spanRange_iff {fields : Fields} :
    Contained (spanRange (.obj fields)) ↔ ¬ EscapesSpan (.obj fields) := by
  by_cases hends : ∃ start stop, Ends (.obj fields) start stop
  · obtain ⟨start, stop, hends⟩ := hends
    rw [contained_spanRange_of_ends hends, EscapesSpan, not_iff_not]
    refine ⟨fun h => .inl ⟨start, stop, hends, h⟩, ?_⟩
    -- a span has one pair of ends
    rintro (⟨start', stop', ⟨first, last, rfl, rfl, hstart, hstop⟩, h⟩ | ⟨hnot, -⟩)
    swap
    · exact absurd hends (hnot start stop)
    obtain ⟨first', last', rfl, rfl, hstart', hstop'⟩ := hends
    rw [hstart] at hstart'
    rw [hstop] at hstop'
    cases hstart'
    cases hstop'
    exact h
  · have hnot : ∀ start stop, ¬ Ends (.obj fields) start stop :=
      fun start stop h => hends ⟨start, stop, h⟩
    rw [spanRange_of_not_ends hnot, contained_showing, EscapesSpan]
    simp [hnot]

theorem contained_spanLocation_iff {fields : Fields} :
    Contained (spanLocation (.obj fields)) ↔ ¬ EscapesFile (.obj fields) := by
  by_cases hfile : ∃ file, (Json.obj fields).get? "file" = some (.str file)
  · obtain ⟨file, hget⟩ := hfile
    rw [spanLocation_of_named hget, contained_map, contained_spanRange_iff]
    simp [EscapesFile, hget]
  · have hnot : ∀ file, (Json.obj fields).get? "file" ≠ some (.str file) :=
      fun file hget => hfile ⟨file, hget⟩
    rw [spanLocation_of_nameless hnot, contained_showing]
    simp [EscapesFile, hnot]

/-! ## There and back -/

/-- **A position is read back from its location.** -/
theorem toPosition_locationFields {p : Position} (hline : p.line < 2 ^ 31)
    (hcharacter : p.character < 2 ^ 31) : toPosition (.obj (locationFields p)) = .ok p := by
  refine Located.eq (.placed (n := p.line + 1) (m := p.character + 1) ⟨_, rfl, .exact _⟩
    ⟨_, rfl, .exact _⟩ ?_ ?_ ?_ ?_) <;> omega

/-- **A location of integers is written as it was read.** -/
theorem locationFields_toPosition (hline : l.get? "line" = some (.int n))
    (hoffset : l.get? "offset" = some (.int m)) (hn : 1 ≤ n ∧ n ≤ 2 ^ 31)
    (hm : 1 ≤ m ∧ m ≤ 2 ^ 31) :
    ∃ p, toPosition l = .ok p ∧ locationFields p = [("line", .int n), ("offset", .int m)] := by
  refine ⟨⟨(n - 1).toNat, (m - 1).toNat⟩, Located.eq (.placed ⟨_, hline, .exact _⟩
    ⟨_, hoffset, .exact _⟩ hn.2 hm.2 ?_ ?_), ?_⟩
  · change ((n - 1).toNat : Int) = max 0 (n - 1)
    omega
  · change ((m - 1).toNat : Int) = max 0 (m - 1)
    omega
  · have hback : ∀ k : Int, 1 ≤ k → ((k - 1).toNat : Int) + 1 = k := by omega
    simp only [locationFields, hback n hn.1, hback m hm.1]

/-- **What becomes of locations and spans**: the outcomes listed, each just where
the list says. One that fails does so as a protocol fault, unless it escapes; and
positions and locations are inverse to each other. -/
theorem locations_settled (l : Json) (fields : Fields) (p : Position) :
    (∀ outcome, toPosition l = outcome ↔ Located l outcome) ∧
    (∀ outcome, spanRange (.obj fields) = outcome ↔ Spanned (.obj fields) outcome) ∧
    (∀ outcome, spanLocation (.obj fields) = outcome ↔ InFile (.obj fields) outcome) ∧
    (Contained (toPosition l) ↔ ¬ Escapes l) ∧
    (Contained (spanRange (.obj fields)) ↔ ¬ EscapesSpan (.obj fields)) ∧
    (Contained (spanLocation (.obj fields)) ↔ ¬ EscapesFile (.obj fields)) ∧
    (p.line < 2 ^ 31 → p.character < 2 ^ 31 → toPosition (.obj (locationFields p)) = .ok p) ∧
    (∀ n m : Int, l.get? "line" = some (.int n) → l.get? "offset" = some (.int m) →
      1 ≤ n ∧ n ≤ 2 ^ 31 → 1 ≤ m ∧ m ≤ 2 ^ 31 →
      ∃ p, toPosition l = .ok p ∧ locationFields p = [("line", .int n), ("offset", .int m)]) :=
  ⟨fun _ => toPosition_eq_iff, fun _ => spanRange_eq_iff, fun _ => spanLocation_eq_iff,
    contained_toPosition_iff, contained_spanRange_iff, contained_spanLocation_iff,
    toPosition_locationFields, fun _ _ => locationFields_toPosition⟩

/-- A location whose line is beyond what a position can hold. -/
def beyond : Json := .obj [("line", .int 2147483650), ("offset", .int 1)]

/-- A numeral among blanks is read as a line, a truth value as an offset; the
location of the position has them as integers. -/
theorem locations_settled_numeral :
    Located (.obj [("line", .str " 4 "), ("offset", .bool true)]) (.ok ⟨3, 0⟩) ∧
    toPosition (.obj (locationFields ⟨3, 0⟩)) = .ok ⟨3, 0⟩ ∧
    (∃ p, toPosition (.obj [("line", .int 4), ("offset", .int 1)]) = .ok p ∧
      locationFields p = [("line", .int 4), ("offset", .int 1)]) := by
  obtain ⟨hlocated, -, -, -, -, -, hback, -⟩ :=
    locations_settled (.obj [("line", .str " 4 "), ("offset", .bool true)]) [] ⟨3, 0⟩
  obtain ⟨-, -, -, -, -, -, -, hforth⟩ :=
    locations_settled (.obj [("line", .int 4), ("offset", .int 1)]) [] ⟨3, 0⟩
  exact ⟨(hlocated _).mp rfl, hback (by decide) (by decide),
    hforth 4 1 rfl rfl (by decide) (by decide)⟩

/-- A location whose line is infinite. -/
def endless : Json := .obj [("line", .float (.infinite false)), ("offset", .int 1)]

/-- A location without a line, whose offset has more digits than are written. -/
def unwritable : Json := .obj [("offset", .int (Nat.pow 10 Numeral.maxDigits))]

/-- **A line that is too large, an infinite one, and a missing one where the location
cannot be shown, escape as other failures** than protocol faults. -/
theorem location_escapes :
    toPosition beyond = .error (.value .badValue) ∧ toPosition endless = .error (.value .infinite) ∧
    toPosition unwritable = .error (.value .badValue) ∧
    ¬ ∀ l, (∃ p, toPosition l = .ok p) ∨ ∃ fault, toPosition l = .error (.protocol fault) := by
  have hbeyond : toPosition beyond = .error (.value .badValue) := rfl
  have hline : unwritable.get? "line" = none := rfl
  have hunwritable : Located unwritable (.error (.value .badValue)) :=
    .unshown (.inl (by simp [Json.Lacks, Json.Holds, Json.HoldsEndless, hline])) (by decide +kernel)
  refine ⟨hbeyond, rfl, hunwritable.eq, fun h => ?_⟩
  rcases h beyond with ⟨p, hp⟩ | ⟨fault, hfault⟩
  · cases hbeyond.symm.trans hp
  · cases hbeyond.symm.trans hfault

end Service

end LanguageRelay
