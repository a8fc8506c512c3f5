import LanguageRelay.Proofs.Editor.Substitution
/-!
# Which edits are put in order

`TextEdit.sort` orders edits by their starts and compares neighbours. That is
enough to set every edit apart from all behind it (`pairwise_precedes`), since a
neighbour begins no later than the edits behind it.

It refuses more than edits that overlap, though. Starts alone decide the order,
and edits with one start keep theirs. So an insertion that is listed behind a
replacement from the same place (`ReplacesFrom`) comes behind it, begins before
that ends and is refused; listed the other way round the two are accepted.
`sort_iff` says that these are all the lists it refuses.
-/

namespace LanguageRelay

/-! ## Reading order -/

theorem Position.le_refl (p : Position) : p ≤ p := by
  simp [Position.le_iff]

theorem Position.le_trans {p q r : Position} (hpq : p ≤ q) (hqr : q ≤ r) : p ≤ r := by
  rw [Position.le_iff] at hpq hqr ⊢
  omega

theorem Position.le_total (p q : Position) : p ≤ q ∨ q ≤ p := by
  rw [Position.le_iff, Position.le_iff]
  omega

theorem Position.le_antisymm {p q : Position} (hpq : p ≤ q) (hqp : q ≤ p) : p = q := by
  obtain ⟨line, character⟩ := p
  obtain ⟨line', character'⟩ := q
  rw [Position.le_iff] at hpq hqp
  simp only [Position.mk.injEq]
  simp only at hpq hqp
  omega

namespace TextEdit

/-- The edit ends where the other begins, or before. -/
def Precedes (a b : TextEdit) : Prop := a.range.stop ≤ b.range.start

instance (a b : TextEdit) : Decidable (a.Precedes b) :=
  inferInstanceAs (Decidable (_ ≤ _))

/-- Neither of the edits precedes the other. -/
def Overlaps (a b : TextEdit) : Prop := ¬ a.Precedes b ∧ ¬ b.Precedes a

instance (a b : TextEdit) : Decidable (a.Overlaps b) :=
  inferInstanceAs (Decidable (_ ∧ _))

/-- The edit replaces the text from the place at which the other inserts. -/
def ReplacesFrom (a b : TextEdit) : Prop :=
  a.range.start = b.range.start ∧ b.range.stop = b.range.start ∧ a.range.stop ≠ a.range.start

instance (a b : TextEdit) : Decidable (a.ReplacesFrom b) :=
  inferInstanceAs (Decidable (_ ∧ _))

/-- The edits as they are put in order. -/
def ordered (edits : List TextEdit) : List TextEdit :=
  edits.mergeSort fun a b => a.range.start ≤ b.range.start

/-- **The edits are in order**: each is there as often as it is given, by their
starts, those with one start as they are given, and each ends before all behind
it begin. -/
structure InOrder (edits sorted : List TextEdit) : Prop where
  once : sorted.Perm edits
  ascending : sorted.Pairwise fun a b => a.range.start ≤ b.range.start
  stable : ∀ p : Position, (sorted.filter fun e => e.range.start = p) =
    edits.filter fun e => e.range.start = p
  apart : sorted.Pairwise Precedes

variable {a b : TextEdit} {edits sorted : List TextEdit}

theorem Overlaps.symm (h : a.Overlaps b) : b.Overlaps a := ⟨h.2, h.1⟩

/-! ## What sorting does -/

theorem ordered_perm (edits : List TextEdit) : (ordered edits).Perm edits :=
  List.mergeSort_perm _ _

/-- Starts can be compared. -/
theorem starts_trans (a b c : TextEdit) (hab : decide (a.range.start ≤ b.range.start) = true)
    (hbc : decide (b.range.start ≤ c.range.start) = true) :
    decide (a.range.start ≤ c.range.start) = true := by
  simp only [decide_eq_true_eq] at hab hbc ⊢
  exact Position.le_trans hab hbc

theorem starts_total (a b : TextEdit) :
    (decide (a.range.start ≤ b.range.start) || decide (b.range.start ≤ a.range.start)) = true := by
  simpa using a.range.start.le_total b.range.start

theorem ordered_ascending (edits : List TextEdit) :
    (ordered edits).Pairwise fun a b => a.range.start ≤ b.range.start :=
  (List.pairwise_mergeSort starts_trans starts_total edits).imp of_decide_eq_true

/-- **Edits with one start keep their order.** -/
theorem ordered_stable (edits : List TextEdit) (p : Position) :
    ((ordered edits).filter fun e => e.range.start = p) =
      edits.filter fun e => e.range.start = p := by
  have hone : (edits.filter fun e => e.range.start = p).Pairwise fun a b =>
      decide (a.range.start ≤ b.range.start) = true := by
    refine List.pairwise_of_forall_mem_list fun a ha b hb => ?_
    have hap : a.range.start = p := of_decide_eq_true (List.mem_filter.mp ha).2
    have hbp : b.range.start = p := of_decide_eq_true (List.mem_filter.mp hb).2
    rw [hap, hbp]
    exact decide_eq_true p.le_refl
  have hkept : (edits.filter fun e => e.range.start = p).Sublist (ordered edits) :=
    List.sublist_mergeSort starts_trans starts_total hone List.filter_sublist
  -- those with the start are still there, and no others came in
  have hfiltered := hkept.filter fun e => e.range.start = p
  rw [List.filter_filter] at hfiltered
  simp only [Bool.and_self] at hfiltered
  exact (hfiltered.eq_of_length ((ordered_perm edits).filter _).length_eq.symm).symm

/-- No neighbours overlap. -/
theorem precedes_of_firstOverlap (h : firstOverlap? (a :: b :: edits) = none) :
    a.Precedes b ∧ firstOverlap? (b :: edits) = none := by
  rw [firstOverlap?] at h
  split at h
  next hab => exact ⟨hab, h⟩
  next => cases h

/-- **Comparing neighbours is enough**, where edits are in the order of their
starts: an edit that ends before the next begins ends before all behind it do. -/
theorem pairwise_precedes (hsorted : edits.Pairwise fun a b => a.range.start ≤ b.range.start)
    (h : firstOverlap? edits = none) : edits.Pairwise Precedes := by
  induction edits with
  | nil => exact .nil
  | cons a rest ih =>
    obtain ⟨-, hrest⟩ := List.pairwise_cons.mp hsorted
    cases rest with
    | nil => exact List.pairwise_singleton _ a
    | cons b rest =>
      obtain ⟨hab, hnone⟩ := precedes_of_firstOverlap h
      refine List.pairwise_cons.mpr ⟨fun c hc => ?_, ih hrest hnone⟩
      rcases List.mem_cons.mp hc with rfl | hc
      · exact hab
      · have hbc : b.range.start ≤ c.range.start := (List.pairwise_cons.mp hrest).1 c hc
        exact Position.le_trans hab hbc

/-- Edits that precede one another do not overlap. -/
theorem firstOverlap_of_pairwise (h : edits.Pairwise Precedes) : firstOverlap? edits = none := by
  induction edits with
  | nil => rfl
  | cons a rest ih =>
    obtain ⟨hall, hrest⟩ := List.pairwise_cons.mp h
    cases rest with
    | nil => rfl
    | cons b rest =>
      have hab : a.range.stop ≤ b.range.start := hall b List.mem_cons_self
      rw [firstOverlap?, if_pos hab]
      exact ih hrest

theorem mem_of_firstOverlap {e : TextEdit} (h : firstOverlap? edits = some e) : e ∈ edits := by
  induction edits with
  | nil => cases h
  | cons a rest ih =>
    cases rest with
    | nil => cases h
    | cons b rest =>
      rw [firstOverlap?] at h
      split at h
      next => exact List.mem_cons_of_mem _ (ih h)
      next =>
        cases h
        exact List.mem_cons_of_mem _ List.mem_cons_self

/-! ## Which lists are refused -/

/-- A replacement and an insertion at its start are at one place, so what order
they are listed in is what order they are put in. -/
theorem pairwise_replacesFrom_iff (h : ∀ p : Position, (sorted.filter fun e => e.range.start = p) =
      edits.filter fun e => e.range.start = p) :
    (sorted.Pairwise fun a b => ¬ a.ReplacesFrom b) ↔
      edits.Pairwise fun a b => ¬ a.ReplacesFrom b := by
  have hplaces : ∀ es : List TextEdit, (es.Pairwise fun a b => ¬ a.ReplacesFrom b) ↔
      ∀ p : Position, (es.filter fun e => e.range.start = p).Pairwise
        fun a b => ¬ a.ReplacesFrom b := by
    intro es
    refine ⟨fun hes p => hes.sublist List.filter_sublist, fun hes => ?_⟩
    rw [List.pairwise_iff_getElem]
    intro i j hi hj hij hfrom
    have hone := List.pairwise_filter.mp (hes es[i].range.start)
    exact List.pairwise_iff_getElem.mp hone i j hi hj hij (by simp) (by simp [hfrom.1]) hfrom
  rw [hplaces, hplaces]
  simp only [h]

/-- Of two edits that read forward, the later does not precede the earlier unless
they are at one place and it inserts there. -/
theorem precedes_iff (ha : a.range.start ≤ a.range.stop) (hb : b.range.start ≤ b.range.stop)
    (hab : a.range.start ≤ b.range.start) :
    a.Precedes b ↔ ¬ a.Overlaps b ∧ ¬ a.ReplacesFrom b := by
  constructor
  · intro hprecedes
    refine ⟨fun hover => hover.1 hprecedes, ?_⟩
    rintro ⟨hstart, -, hlong⟩
    exact hlong (Position.le_antisymm (hstart ▸ hprecedes) ha)
  · rintro ⟨hover, hfrom⟩
    by_contra hprecedes
    have hback : b.range.stop ≤ a.range.start := by
      by_contra hback
      exact hover ⟨hprecedes, hback⟩
    have hstart : a.range.start = b.range.start :=
      Position.le_antisymm hab (Position.le_trans hb hback)
    have hstop : b.range.stop = b.range.start := Position.le_antisymm (hstart ▸ hback) hb
    refine hfrom ⟨hstart, hstop, fun hshort => hprecedes ?_⟩
    rw [Precedes, hshort]
    exact hab

/-- **Which edits are set apart by their order**: those of which no two overlap, and
none replaces from where one listed behind it inserts. -/
theorem ordered_apart_iff (hforward : ∀ e ∈ edits, e.range.start ≤ e.range.stop) :
    (ordered edits).Pairwise Precedes ↔
      (edits.Pairwise fun a b => ¬ a.Overlaps b) ∧
        edits.Pairwise fun a b => ¬ a.ReplacesFrom b := by
  have hperm := ordered_perm edits
  have hforward' : ∀ e ∈ ordered edits, e.range.start ≤ e.range.stop :=
    fun e he => hforward e (hperm.mem_iff.mp he)
  have hover : (ordered edits).Pairwise (fun a b => ¬ a.Overlaps b) ↔
      edits.Pairwise fun a b => ¬ a.Overlaps b :=
    hperm.pairwise_iff fun hab hba => hab hba.symm
  rw [← hover, ← pairwise_replacesFrom_iff (ordered_stable edits), ← List.pairwise_and_iff]
  constructor
  · intro hall
    refine (hall.and (ordered_ascending edits)).imp_of_mem fun ha hb hab => ?_
    exact (precedes_iff (hforward' _ ha) (hforward' _ hb) hab.2).mp hab.1
  · intro hall
    refine (hall.and (ordered_ascending edits)).imp_of_mem fun ha hb hab => ?_
    exact (precedes_iff (hforward' _ ha) (hforward' _ hb) hab.2).mpr hab.1

theorem sort_eq (edits : List TextEdit) : sort edits =
    match firstOverlap? (ordered edits) with
    | some e => .error (.protocol (.overlappingEdits e.range.start.line e.range.start.character))
    | none => .ok (ordered edits) :=
  rfl

/-- **A list whose edits are apart is put in order.** -/
theorem sort_of_apart (h : (ordered edits).Pairwise Precedes) :
    sort edits = .ok (ordered edits) ∧ InOrder edits (ordered edits) := by
  rw [sort_eq, firstOverlap_of_pairwise h]
  exact ⟨rfl, ordered_perm edits, ordered_ascending edits, ordered_stable edits, h⟩

/-- **Any other is refused**, for an edit that begins before one in front of it
ends. -/
theorem sort_of_not_apart (h : ¬ (ordered edits).Pairwise Precedes) :
    ∃ e ∈ edits, sort edits =
      .error (.protocol (.overlappingEdits e.range.start.line e.range.start.character)) := by
  cases hfirst : firstOverlap? (ordered edits) with
  | none => exact absurd (pairwise_precedes (ordered_ascending edits) hfirst) h
  | some e =>
    refine ⟨e, (ordered_perm edits).mem_iff.mp (mem_of_firstOverlap hfirst), ?_⟩
    rw [sort_eq, hfirst]

/-- So a list that is accepted is put in order. -/
theorem sort_eq_ok_iff : sort edits = .ok sorted ↔
    sorted = ordered edits ∧ (ordered edits).Pairwise Precedes := by
  constructor
  · intro hsort
    by_cases h : (ordered edits).Pairwise Precedes
    · rw [(sort_of_apart h).1] at hsort
      cases hsort
      exact ⟨rfl, h⟩
    · obtain ⟨e, -, herror⟩ := sort_of_not_apart h
      rw [herror] at hsort
      cases hsort
  · rintro ⟨rfl, h⟩
    exact (sort_of_apart h).1

/-- **Which lists are refused.** Edits that read forward are refused if two of them
overlap, or one replaces from where one listed behind it inserts. All others are
put in order. So where no edit replaces from where another inserts, what order
they are listed in does not matter. -/
theorem sort_iff (edits : List TextEdit)
    (hforward : ∀ e ∈ edits, e.range.start ≤ e.range.stop) :
    ((∃ e ∈ edits, sort edits =
          .error (.protocol (.overlappingEdits e.range.start.line e.range.start.character))) ↔
        (¬ edits.Pairwise fun a b => ¬ a.Overlaps b) ∨
          ¬ edits.Pairwise fun a b => ¬ a.ReplacesFrom b) ∧
      ((∃ sorted, sort edits = .ok sorted ∧ InOrder edits sorted) ↔
        (edits.Pairwise fun a b => ¬ a.Overlaps b) ∧
          edits.Pairwise fun a b => ¬ a.ReplacesFrom b) ∧
      ((∀ a ∈ edits, ∀ b ∈ edits, ¬ a.ReplacesFrom b) → ∀ others : List TextEdit,
        others.Perm edits →
          ((∃ sorted, sort others = .ok sorted) ↔ ∃ sorted, sort edits = .ok sorted)) := by
  have hapart := ordered_apart_iff hforward
  refine ⟨?_, ?_, fun hnone others hperm => ?_⟩
  · rw [← not_and_or, ← hapart]
    refine ⟨?_, sort_of_not_apart⟩
    rintro ⟨e, -, herror⟩ h
    rw [(sort_of_apart h).1] at herror
    cases herror
  · rw [← hapart]
    refine ⟨?_, fun h => ⟨_, sort_of_apart h⟩⟩
    rintro ⟨sorted, hsort, -⟩
    exact (sort_eq_ok_iff.mp hsort).2
  · have hforward' : ∀ e ∈ others, e.range.start ≤ e.range.stop :=
      fun e he => hforward e (hperm.mem_iff.mp he)
    have hfrom : ∀ es : List TextEdit, (∀ e ∈ es, e ∈ edits) →
        es.Pairwise fun a b => ¬ a.ReplacesFrom b := fun es hes =>
      List.pairwise_of_forall_mem_list fun a ha b hb => hnone a (hes a ha) b (hes b hb)
    have hover : (others.Pairwise fun a b => ¬ a.Overlaps b) ↔
        edits.Pairwise fun a b => ¬ a.Overlaps b := hperm.pairwise_iff fun hab hba => hab hba.symm
    simp only [sort_eq_ok_iff, exists_eq_left]
    rw [hapart, ordered_apart_iff hforward', hover]
    exact and_congr_right fun _ =>
      iff_of_true (hfrom others fun e he => hperm.mem_iff.mp he) (hfrom edits fun e he => he)

/-- Three edits of one line, the first two at one place: an insertion and what is
replaced from there. -/
theorem sort_iff_insertedBefore :
    let inserted : TextEdit := ⟨⟨⟨0, 4⟩, ⟨0, 4⟩⟩, "x"⟩
    let replaced : TextEdit := ⟨⟨⟨0, 4⟩, ⟨0, 6⟩⟩, "y"⟩
    let front : TextEdit := ⟨⟨⟨0, 1⟩, ⟨0, 4⟩⟩, ""⟩
    let edits := [inserted, replaced, front]
    (∀ e ∈ edits, e.range.start ≤ e.range.stop) ∧
      sort edits = .ok [front, inserted, replaced] ∧
      ∃ sorted, sort edits = .ok sorted ∧ InOrder edits sorted := by
  intro inserted replaced front edits
  have hforward : ∀ e ∈ edits, e.range.start ≤ e.range.stop := by decide
  refine ⟨hforward, ?_, (sort_iff edits hforward).2.1.mpr (by decide)⟩
  simp [sort, edits, inserted, replaced, front, List.mergeSort,
    List.MergeSort.Internal.splitInTwo, firstOverlap?, Position.le_iff]

/-- **An insertion that is listed behind a replacement from its place is refused**,
and accepted in front of it. The two do not overlap. -/
theorem insertion_refused :
    let replaced : TextEdit := ⟨⟨⟨0, 4⟩, ⟨0, 6⟩⟩, "y"⟩
    let inserted : TextEdit := ⟨⟨⟨0, 4⟩, ⟨0, 4⟩⟩, "x"⟩
    (∀ e ∈ [replaced, inserted], e.range.start ≤ e.range.stop) ∧
      ¬ replaced.Overlaps inserted ∧
      sort [replaced, inserted] = .error (.protocol (.overlappingEdits 0 4)) ∧
      sort [inserted, replaced] = .ok [inserted, replaced] := by
  intro replaced inserted
  refine ⟨by decide, by decide, ?_, ?_⟩ <;>
    simp [sort, inserted, replaced, List.mergeSort, List.MergeSort.Internal.splitInTwo,
      firstOverlap?, Position.le_iff]

end TextEdit

end LanguageRelay
