import LanguageRelay.Proofs.Checks.Flight
/-!
# Which check a part counts for

Events name a file and not a check, so the relay has to tell which check a
part is of (`creditedTo?`). What it takes a check to have reported over a run
is `partsOf`, and a record keeps the books of its checks (`Booked`): each has
reported the categories of its parts and none of them twice, and what was
merged since the newest was written are its parts. Whatever the analysis
server says, in whatever order, the books are right after every run
(`booked_run`).
-/

namespace LanguageRelay

variable {parts : Nat → List (String × List Json)} {categories : List String}

/-! ## Parts of checks -/

namespace Relay

/-- The check in flight for an open document that a part counts for. There is
none if a check of a closed document takes it. -/
def creditedTo? (file category : String) (r : Relay) : Option Nat :=
  match markFirst category ((Table.get? file r.abandoned).getD []) with
  | some _ => none
  | none =>
    ((Table.get? file r.uriByFile).bind r.check?).bind fun c =>
      (markFirst category c.inFlight).map fun found => found.1.seq

/-- The part that news bring for the check numbered `seq`, by category. -/
def News.partFor? (seq : Nat) (r : Relay) : News → Option (String × List Json)
  | part file category items =>
    if r.creditedTo? file category = some seq then some (category, items) else none
  | completed _ => none

/-- **The parts of the check numbered `seq`** that come in with moves, by
category. -/
def partsOf (seq : Nat) : List Move → Relay → List (String × List Json)
  | [], _ => []
  | m :: rest, r => (m.news?.bind (News.partFor? seq r)).toList ++ partsOf seq rest (m.perform r).1

theorem partsOf_snoc (seq : Nat) (moves : List Move) (m : Move) (r : Relay) :
    partsOf seq (moves ++ [m]) r =
      partsOf seq moves r ++ (m.news?.bind (News.partFor? seq (run moves r))).toList := by
  induction moves generalizing r with
  | nil => simp [partsOf]
  | cons m' rest ih =>
    rw [List.cons_append, partsOf, ih, partsOf, List.append_assoc]
    rfl

end Relay

/-- One more part of a check. -/
def credit (seq : Nat) (part : String × List Json) (parts : Nat → List (String × List Json)) :
    Nat → List (String × List Json) :=
  fun s => if s = seq then parts s ++ [part] else parts s

/-! ## The books of a record -/

/-- What the check has reported are the categories of its parts, and none of
them twice. -/
structure InFlight.Booked (parts : Nat → List (String × List Json)) (e : InFlight) : Prop where
  keys : Table.keys (parts e.seq) = e.reported
  once : e.reported.Nodup

/-- A part of another check does not matter. -/
theorem InFlight.Booked.creditOther {e : InFlight} (h : e.Booked parts) {seq : Nat}
    (hother : e.seq ≠ seq) (part : String × List Json) : e.Booked (credit seq part parts) :=
  ⟨by rw [credit, if_neg hother]; exact h.keys, h.once⟩

namespace CheckState

variable {c c' : CheckState}

/-- **A record that keeps the books**: what was merged while parts are awaited
are the parts of the newest check. -/
structure Booked (categories : List String) (parts : Nat → List (String × List Json))
    (c : CheckState) : Prop where
  each : ∀ e ∈ c.inFlight, e.Booked parts
  merged : c.outstanding ≠ [] → ∀ e, c.inFlight.getLast? = some e → ∀ k ∈ categories,
    Table.get? k c.merged = Table.get? k (parts e.seq)

/-- Checks may go, as long as the newest stays or nothing is awaited. -/
theorem Booked.fewer (h : c.Booked categories parts) (hsub : ∀ e ∈ c'.inFlight, e ∈ c.inFlight)
    (hsame : c'.outstanding ≠ [] → c.outstanding ≠ [] ∧ c'.merged = c.merged ∧
      c'.inFlight.getLast? = c.inFlight.getLast?) : c'.Booked categories parts where
  each e he := h.each e (hsub e he)
  merged hout e he k hk := by
    obtain ⟨hawaited, hmerged, hnewest⟩ := hsame hout
    rw [hmerged]
    exact h.merged hawaited e (hnewest ▸ he) k hk

/-- Only the checks in flight and what was merged of them matter. -/
theorem Booked.same (h : c.Booked categories parts) (hinFlight : c'.inFlight = c.inFlight)
    (hout : c'.outstanding = c.outstanding) (hmerged : c'.merged = c.merged) :
    c'.Booked categories parts :=
  h.fewer (fun e he => hinFlight ▸ he) fun hawaited => ⟨hout ▸ hawaited, hmerged, by rw [hinFlight]⟩

/-- Where nothing is awaited, only what the checks have reported matters. -/
theorem booked_of_nothing_awaited (heach : ∀ e ∈ c.inFlight, e.Booked parts)
    (hout : c.outstanding = []) : c.Booked categories parts :=
  ⟨heach, fun hne => absurd hout hne⟩

/-- A check that is written has no parts yet, and nothing is merged. -/
theorem booked_asked {seq : Nat} (heach : ∀ e ∈ c.inFlight, e.Booked parts)
    (hseq : parts seq = []) : (c.asked categories seq).Booked categories parts where
  each e he := by
    rcases List.mem_append.mp he with he | he
    · exact heach e he
    · cases List.mem_singleton.mp he
      exact ⟨by simp [hseq, Table.keys], List.nodup_nil⟩
  merged _ e he k _ := by
    obtain rfl : (⟨seq, c.generation + 1, []⟩ : InFlight) = e := by simpa [asked] using he
    rw [hseq]
    rfl

/-- Another check's part does not matter. -/
theorem Booked.creditOther (h : c.Booked categories parts) {seq : Nat}
    (hother : ∀ e ∈ c.inFlight, e.seq ≠ seq) (part : String × List Json) :
    c.Booked categories (credit seq part parts) where
  each e he := (h.each e he).creditOther (hother e he) part
  merged hout e he k hk := by
    rw [credit, if_neg (hother e (List.mem_of_getLast? he))]
    exact h.merged hout e he k hk

end CheckState

/-! ## Parts that come in -/

section Marking

variable {category : String} {items : List Json} {e : InFlight} {l entries : List InFlight}

/-- The check marked has none of the category among its parts. -/
theorem not_mem_keys_of_mark (heach : ∀ d ∈ l, d.Booked parts)
    (hmark : Relay.markFirst category l = some (e, entries)) :
    category ∉ Table.keys (parts e.seq) := by
  obtain ⟨before, after, rfl, -, hnew, -⟩ := Relay.markFirst_some hmark
  rwa [(heach e (by simp)).keys]

/-- **Marking a category books the part.** -/
theorem booked_of_mark (heach : ∀ d ∈ l, d.Booked parts) (hascending : Ascending l)
    (hmark : Relay.markFirst category l = some (e, entries)) (items : List Json) :
    ∀ d ∈ entries, d.Booked (credit e.seq (category, items) parts) := by
  obtain ⟨before, after, rfl, rfl, hnew, -⟩ := Relay.markFirst_some hmark
  obtain ⟨-, hafter, hbefore⟩ := List.pairwise_append.mp hascending
  have hlater := (List.pairwise_cons.mp hafter).1
  intro d hd
  rcases List.mem_append.mp hd with hd | hd
  · exact (heach d (by simp [hd])).creditOther (Nat.ne_of_lt (hbefore d hd e List.mem_cons_self).1) _
  · rcases List.mem_cons.mp hd with rfl | hd
    · have he := heach e (by simp)
      refine ⟨?_, ?_⟩
      · simp only [credit, if_true]
        rw [Table.keys, List.map_append, ← Table.keys, he.keys]
        rfl
      · exact List.nodup_append.mpr ⟨he.once, List.nodup_singleton _,
          fun k hk k' hk' heq => hnew (by rwa [← List.mem_singleton.mp hk', ← heq])⟩
    · exact (heach d (by simp [hd])).creditOther (Nat.ne_of_gt (hlater d hd).1) _

/-- The part is found among those of its check, and the others as before. -/
theorem get?_credit (hnew : category ∉ Table.keys (parts e.seq)) (items : List Json) (k : String) :
    Table.get? k (credit e.seq (category, items) parts e.seq) =
      if category = k then some items else Table.get? k (parts e.seq) := by
  rw [credit, if_pos rfl, ← Table.put_of_not_mem items hnew, Table.get?_put]

end Marking

namespace CheckState

variable {c : CheckState} {category : String} {items : List Json} {e : InFlight}
variable {entries : List InFlight} {last : Nat}

/-- A part that does not count is booked, though not merged. -/
theorem Booked.marked (h : c.Booked categories parts) (hsound : c.Sound categories last)
    (hmark : Relay.markFirst category c.inFlight = some (e, entries))
    (hold : e.generation ≠ c.generation ∨ category ∉ c.outstanding) (items : List Json) :
    { c with inFlight := entries }.Booked categories (credit e.seq (category, items) parts) where
  each := booked_of_mark h.each hsound.ascending hmark items
  merged hout newest' hnewest' k hk := by
    have hnew := not_mem_keys_of_mark h.each hmark
    obtain ⟨newest, hnewest, hgeneration, -⟩ := hsound.current hout
    have hmerged := h.merged hout newest hnewest
    obtain ⟨before, after, hlist, rfl, -, -⟩ := Relay.markFirst_some hmark
    cases after with
    | nil =>
      -- the check marked is the newest: its part was merged before, or it is of no category set up
      obtain rfl : e = newest := by simpa [hlist] using hnewest
      obtain rfl : { e with reported := e.reported ++ [category] } = newest' := by
        simpa using hnewest'
      rw [get?_credit hnew]
      split
      · rename_i heq
        subst heq
        have hperm := (hsound.parts hout).mem_iff (a := category)
        rw [List.mem_append, List.mem_eraseDups] at hperm
        have hthere := (hperm.mpr hk).resolve_left (hold.resolve_left fun hne => hne hgeneration)
        rw [Table.mem_keys_iff, hmerged category hk, ← Table.mem_keys_iff] at hthere
        exact absurd hthere hnew
      · exact hmerged k hk
    | cons d rest =>
      rw [hlist] at hnewest
      obtain rfl : newest' = newest :=
        Option.some.inj (hnewest'.symm.trans (by simpa using hnewest))
      have hlater := (List.pairwise_cons.mp (List.pairwise_append.mp
        (hlist ▸ hsound.ascending)).2.1).1 newest' (List.mem_of_getLast? (by simpa using hnewest))
      rw [credit, if_neg (Nat.ne_of_gt hlater.1)]
      exact hmerged k hk

/-- **A part that counts is what is merged of its category.** -/
theorem Booked.get?_counted (h : c.Booked categories parts) (hsound : c.Sound categories last)
    (hmark : Relay.markFirst category c.inFlight = some (e, entries))
    (hcurrent : e.generation = c.generation) (hawaited : category ∈ c.outstanding)
    (items : List Json) {k : String} (hk : k ∈ categories) :
    Table.get? k (c.counted category items entries).merged =
      Table.get? k (credit e.seq (category, items) parts e.seq) := by
  obtain ⟨earlier, hlist, -⟩ := hsound.mark_newest hmark hcurrent
  rw [get?_credit (not_mem_keys_of_mark h.each hmark), counted, Table.get?_put,
    h.merged (List.ne_nil_of_mem hawaited) e (by simp [hlist]) k hk]

/-- So the books are right after it. -/
theorem Booked.counted (h : c.Booked categories parts) (hsound : c.Sound categories last)
    (hmark : Relay.markFirst category c.inFlight = some (e, entries))
    (hcurrent : e.generation = c.generation) (hawaited : category ∈ c.outstanding)
    (items : List Json) :
    (c.counted category items entries).Booked categories
      (credit e.seq (category, items) parts) where
  each := booked_of_mark h.each hsound.ascending hmark items
  merged _ newest hnewest k hk := by
    obtain ⟨earlier, -, rfl⟩ := hsound.mark_newest hmark hcurrent
    obtain rfl : { e with reported := e.reported ++ [category] } = newest := by
      simpa [CheckState.counted] using hnewest
    exact h.get?_counted hsound hmark hcurrent hawaited items hk

end CheckState

/-! ## Relays -/

namespace Relay

variable {r r' : Relay} {uri : String} {c : CheckState} {uris : List String}

/-- **The books of a relay**: each record keeps its own, and numbers that are
not given out yet have no parts. -/
structure Booked (parts : Nat → List (String × List Json)) (r : Relay) : Prop where
  unwritten : ∀ seq, r.link.last < seq → parts seq = []
  records : ∀ uri c, r.check? uri = some c → c.Booked r.setup.categories parts

theorem booked_new (setup : Setup) : (Relay.new setup).Booked fun _ => [] where
  unwritten _ _ := rfl
  records uri c h := by simp [Relay.new, check?] at h

/-- The books stay right where no record changes. -/
theorem Booked.keep (h : r.Booked parts) (hchecks : r'.checks = r.checks)
    (hsetup : r'.setup = r.setup) (hlast : r.link.last ≤ r'.link.last) : r'.Booked parts where
  unwritten seq hseq := h.unwritten seq (Nat.lt_of_le_of_lt hlast hseq)
  records uri c hc := by
    rw [hsetup]
    exact h.records uri c (by rwa [check?, hchecks] at hc)

theorem Booked.quiet (h : r.Booked parts) (hq : Quiet r r') : r'.Booked parts :=
  h.keep hq.checks hq.setup hq.last

/-- One record may be set, if its books are right. -/
theorem Booked.put (h : r.Booked parts) (c' : CheckState)
    (hchecks : r'.checks = Table.put uri c' r.checks) (hsetup : r'.setup = r.setup)
    (hlast : r.link.last ≤ r'.link.last) (hc' : c'.Booked r.setup.categories parts) :
    r'.Booked parts where
  unwritten seq hseq := h.unwritten seq (Nat.lt_of_le_of_lt hlast hseq)
  records u d hd := by
    rw [hsetup]
    rcases check?_put_cases hchecks hd with ⟨-, rfl⟩ | ⟨-, hd⟩
    · exact hc'
    · exact h.records u d hd

/-- So may all, if each keeps its checks and awaits the same or nothing. -/
theorem Booked.mapChecks (h : r.Booked parts) {f : CheckState → CheckState}
    (hf : ∀ c, c.Booked r.setup.categories parts → (f c).Booked r.setup.categories parts) :
    (r.mapChecks f).Booked parts where
  unwritten := h.unwritten
  records u d hd := by
    obtain ⟨c, hc, rfl⟩ := Option.map_eq_some_iff.mp ((check?_mapChecks f r u).symm.trans hd)
    exact hf c (h.records u c hc)

/-- A check that is written gets an empty account. -/
theorem Booked.ask (h : r.Booked parts) (c : CheckState) (heach : ∀ e ∈ c.inFlight, e.Booked parts)
    (hchecks : r'.checks = Table.put uri (c.asked r.setup.categories r.nextSeq) r.checks)
    (hsetup : r'.setup = r.setup) (hlast : r'.link.last = r.nextSeq) : r'.Booked parts :=
  h.put _ hchecks hsetup (hlast ▸ Nat.le_succ _)
    (CheckState.booked_asked heach (h.unwritten _ (Nat.lt_succ_self _)))

/-- **A step of its own accord leaves the books right.** -/
theorem booked_step (hstep : Step uris r r') (h : r.Booked parts) : r'.Booked parts := by
  cases hstep with
  | quiet hq => exact h.quiet hq
  | opened => exact h.keep rfl rfl (Nat.le_refl _)
  | edited => exact h.keep rfl rfl (Nat.le_refl _)
  | @enrolled uri s =>
    exact h.put (CheckState.new s.file) rfl rfl (Nat.le_refl _)
      (CheckState.booked_of_nothing_awaited (by simp [CheckState.new]) rfl)
  | @asked uri c hcheck =>
    exact h.ask c (h.records uri c hcheck).each rfl rfl rfl
  | @awaited uri c waiter hcheck =>
    exact h.put { c with waiters := c.waiters ++ [⟨waiter, false⟩] }
      (Table.update_eq_put _ hcheck) rfl (Nat.le_refl _) ((h.records uri c hcheck).same rfl rfl rfl)
  | withdrew => exact h.mapChecks fun c hc => hc.same rfl rfl rfl
  | staled => exact h.mapChecks fun c hc => hc.same rfl rfl rfl
  | @dropped uri c hcheck =>
    exact h.put c.dropped rfl rfl (Nat.le_refl _)
      (CheckState.booked_of_nothing_awaited (h.records uri c hcheck).each rfl)
  | @closed uri =>
    refine ⟨?_, fun u d hd => ?_⟩
    · rw [link_forget]
      exact h.unwritten
    · rw [(leaves_forget _ _).setup]
      rw [check?_forget] at hd
      split at hd
      · cases hd
      · exact h.records u d hd
  | disconnected hup =>
    have hmap := h.mapChecks (f := CheckState.severed) fun c hc =>
      CheckState.booked_of_nothing_awaited hc.each rfl
    rw [disconnect_of_open hup]
    exact ⟨hmap.unwritten, hmap.records⟩

/-! ## News -/

/-- The parts of checks once news have come in. -/
def News.entered (r : Relay) (note : News) (parts : Nat → List (String × List Json)) :
    Nat → List (String × List Json) :=
  fun seq => parts seq ++ (note.partFor? seq r).toList

variable {file category : String} {items : List Json} {e : InFlight} {entries : List InFlight}

theorem entered_completed (seq : Int) : (News.completed seq).entered r parts = parts :=
  funext fun _ => List.append_nil _

/-- A part that is credited to no check is entered nowhere. -/
theorem entered_of_none (h : r.creditedTo? file category = none) :
    (News.part file category items).entered r parts = parts :=
  funext fun seq => by simp [News.entered, News.partFor?, h]

/-- Any other is entered with the check it counts for. -/
theorem entered_of_mark
    (habandoned : markFirst category ((Table.get? file r.abandoned).getD []) = none)
    (huri : Table.get? file r.uriByFile = some uri) (hcheck : r.check? uri = some c)
    (hmark : markFirst category c.inFlight = some (e, entries)) :
    (News.part file category items).entered r parts = credit e.seq (category, items) parts := by
  have hcredited : r.creditedTo? file category = some e.seq := by
    simp [creditedTo?, habandoned, huri, hcheck, hmark]
  funext seq
  simp only [News.entered, News.partFor?, hcredited, Option.some.injEq, credit]
  by_cases hseq : seq = e.seq
  · simp [hseq]
  · simp [hseq, Ne.symm hseq]

/-- **A part is entered in one record**: no other document has the check in
flight. -/
theorem Booked.mark (h : r.Booked parts) (hsound : r.Sound) (htraced : r.Traced)
    (hcheck : r.check? uri = some c) (he : e ∈ c.inFlight) (part : String × List Json)
    (c' : CheckState) (hchecks : r'.checks = Table.put uri c' r.checks)
    (hsetup : r'.setup = r.setup) (hlast : r.link.last ≤ r'.link.last)
    (hc' : c'.Booked r.setup.categories (credit e.seq part parts)) :
    r'.Booked (credit e.seq part parts) where
  unwritten seq hseq := by
    have hle := ((hsound.states uri c hcheck).bounded e he).1
    rw [credit, if_neg (by omega)]
    exact h.unwritten seq (by omega)
  records u d hd := by
    rw [hsetup]
    rcases check?_put_cases hchecks hd with ⟨-, rfl⟩ | ⟨hu, hd⟩
    · exact hc'
    · exact (h.records u d hd).creditOther
        (fun e' he' heq => hu (htraced.apart u uri d c hd hcheck e' he' e he heq).symm) part

/-- The check a part is marked on is in flight. -/
theorem mem_of_mark {l : List InFlight} (hmark : markFirst category l = some (e, entries)) :
    e ∈ l := by
  obtain ⟨before, after, rfl, -⟩ := markFirst_some hmark
  simp

/-- **News are entered in the books.** -/
theorem booked_heard {note : News} {failure : Option Failure} (hheard : Heard r note r' failure)
    (hsound : r.Sound) (htraced : r.Traced) (h : r.Booked parts) :
    r'.Booked (note.entered r parts) := by
  cases hheard with
  | credited hmark =>
    rw [entered_of_none (by simp [creditedTo?, hmark])]
    exact h.keep rfl rfl (Nat.le_refl _)
  | @unawaited file category items habandoned hnone =>
    have hcredited : r.creditedTo? file category = none := by
      simp only [creditedTo?, habandoned, Option.bind_eq_none_iff, Option.bind_eq_some_iff,
        Option.map_eq_none_iff]
      rintro c ⟨uri, huri, hcheck⟩
      exact hnone uri c huri hcheck
    rwa [entered_of_none hcredited]
  | @outdated _ _ items e entries uri c habandoned huri hcheck hmark hold =>
    rw [entered_of_mark habandoned huri hcheck hmark]
    exact h.mark hsound htraced hcheck (mem_of_mark hmark) _ { c with inFlight := entries } rfl rfl
      (Nat.le_refl _) ((h.records uri c hcheck).marked (hsound.states uri c hcheck) hmark hold items)
  | @counted _ category items e entries uri c habandoned huri hcheck hmark hcurrent hawaited =>
    rw [entered_of_mark habandoned huri hcheck hmark]
    exact h.mark hsound htraced hcheck (mem_of_mark hmark) _ (c.counted category items entries) rfl
      rfl (Nat.le_refl _) ((h.records uri c hcheck).counted (hsound.states uri c hcheck) hmark
        hcurrent hawaited items)
  | @settled _ category items e entries uri c habandoned huri hcheck hmark hcurrent hawaited hleft =>
    rw [entered_of_mark habandoned huri hcheck hmark]
    obtain ⟨fresh, fx, hshape, -⟩ := settle_shape uri (c.counted category items entries) r
    rw [hshape]
    exact h.mark hsound htraced hcheck (mem_of_mark hmark) _
      { (c.counted category items entries).ended with fresh } rfl rfl (Nat.le_refl _)
      (CheckState.booked_of_nothing_awaited
        (booked_of_mark (h.records uri c hcheck).each (hsound.states uri c hcheck).ascending hmark
          items) hleft)
  | retired =>
    rw [entered_completed]
    exact h.keep rfl rfl (Nat.le_refl _)
  | @overtaken seq uri c e hfind hold =>
    obtain ⟨hcheck, he, rfl⟩ := hsound.find hfind
    rw [entered_completed]
    refine h.put (c.after e.seq) rfl rfl (Nat.le_refl _) ((h.records uri c hcheck).fewer
      (fun d hd => List.mem_of_mem_filter hd) fun hout => ⟨hout, rfl, ?_⟩)
    obtain ⟨newest, hnewest, hafter, -⟩ := (hsound.states uri c hcheck).newest_after he hold hout
    rw [hnewest, hafter]
  | @repeated seq uri c e text hfind =>
    obtain ⟨hcheck, -, -⟩ := hsound.find hfind
    rw [entered_completed]
    exact h.ask (c.again seq)
      (fun d hd => (h.records uri c hcheck).each d (List.mem_of_mem_filter hd))
      (Table.put_put _ _ _ _) rfl rfl
  | @severed seq uri c e text cause hfind hcurrent hawaited hpatient hrefused =>
    simp [hsound.taken (hsound.find hfind).1 hawaited] at hrefused
  | @exhausted seq uri c e text hfind =>
    obtain ⟨hcheck, -, -⟩ := hsound.find hfind
    rw [entered_completed]
    obtain ⟨fresh, fx, hshape, -⟩ :=
      settle_shape uri (c.exhausted seq) ((r.retireAbandoned seq).log .warning text)
    rw [hshape]
    exact h.put { (c.exhausted seq).ended with fresh } rfl rfl (Nat.le_refl _)
      (CheckState.booked_of_nothing_awaited
        (fun d hd => (h.records uri c hcheck).each d (List.mem_of_mem_filter hd)) rfl)

/-! ## Runs -/

/-- The parts after one more move. -/
theorem partsOf_entered (setup : Setup) (moves : List Move) (m : Move) :
    (fun seq => partsOf seq (moves ++ [m]) (Relay.new setup)) =
      m.news?.elim (fun seq => partsOf seq moves (Relay.new setup)) fun note =>
        note.entered (run moves (Relay.new setup)) fun seq => partsOf seq moves (Relay.new setup) := by
  funext seq
  rw [partsOf_snoc]
  cases m.news? with
  | none => exact List.append_nil _
  | some note => rfl

/-- **The books are right after every run.** -/
theorem booked_run (setup : Setup) (moves : List Move) :
    (run moves (Relay.new setup)).Booked fun seq => partsOf seq moves (Relay.new setup) := by
  induction moves using List.reverseRecOn with
  | nil => exact booked_new setup
  | append_singleton moves m ih =>
    have hsound := sound_run setup moves
    rw [partsOf_entered, run_snoc]
    cases hnews : m.news? with
    | none =>
      exact Steps.keep (fun _ _ => booked_step)
        (steps_perform hnews (fun _ => id) fun uri s hs => (hsound.filed uri s hs).1) ih
    | some note =>
      exact (booked_heard (heard_hear note _) hsound (traced_run setup moves) ih).quiet
        (perform_of_news hnews _).1

end Relay

end LanguageRelay
