import LanguageRelay.Proofs.Checks.Aligned
/-!
# A relay beside the queue

`Queued` says how far a relay is with the queue: so many checks complete, and
these parts of the next one told. Steps of its own accord leave it there
(`queued_step`). A part moves it on by that part (`queued_part`), and a
completion by that check (`queued_over`).
-/

namespace LanguageRelay

namespace Relay

variable {uris : List String} {r r' : Relay} {uri : String} {c c' : CheckState}
variable {due rest : List (Int × String)} {parts : List (String × List Json)}

/-! ## Steps of a relay's own accord -/

/-- **A relay beside the queue**: `n` checks are complete, and the oldest that
is not has reported `parts`. -/
structure Queued (uris : List String) (n : Nat) (parts : List (String × List Json)) (r : Relay) :
    Prop where
  linked : Linked uris r
  complete : n ≤ (written r.outbox).length
  aligned : Aligned ((written r.outbox).drop n) parts r
  gathered : Gathered ((written r.outbox).drop n) parts r

variable {n : Nat}

/-- Where no check was written and the same ones run, a relay stays beside
the queue. -/
theorem Queued.keep (h : Queued uris n parts r) (hlinked : Linked uris r')
    (hwritten : written r'.outbox = written r.outbox) (hlast : r.link.last ≤ r'.link.last)
    (hclosed : r'.link.closed = r.link.closed)
    (hrunning : ∀ file, r'.running file = r.running file)
    (hgathered : Gathered ((written r.outbox).drop n) parts r') : Queued uris n parts r' where
  linked := hlinked
  complete := by rw [hwritten]; exact h.complete
  aligned := by rw [hwritten]; exact h.aligned.keep hlast hclosed hrunning
  gathered := by rw [hwritten]; exact hgathered

theorem Queued.quiet (h : Queued uris n parts r) (hq : Quiet r r') : Queued uris n parts r' :=
  h.keep (h.linked.quiet hq) hq.written hq.last hq.closed
    (running_congr (fun u => by rw [hq.check?]) hq.uriByFile hq.abandoned)
    (h.gathered.keep hq.setup fun u c' hc' hout => ⟨c', by rwa [← hq.check?], hout, rfl, rfl⟩)

/-- **A check that is written joins the queue**, and its document has gathered
nothing yet. -/
theorem Queued.ask (h : Queued uris n parts r) (hcheck : r.check? uri = some c)
    (hlinked : Linked uris ((r.wrote c.file).setCheck uri (c.asked r.setup.categories r.nextSeq))) :
    Queued uris n parts
      ((r.wrote c.file).setCheck uri (c.asked r.setup.categories r.nextSeq)) := by
  -- the relay gets a name, so that its parts are rewritten and not unfolded
  obtain ⟨r', hr'⟩ : ∃ r', r' = (r.wrote c.file).setCheck uri
    (c.asked r.setup.categories r.nextSeq) := ⟨_, rfl⟩
  have hrunning : ∀ f, r'.running f = if f = c.file then (Table.get? f r.abandoned).getD [] ++
      (c.asked r.setup.categories r.nextSeq).inFlight else r.running f :=
    running_put h.linked (c.asked r.setup.categories r.nextSeq) hcheck (by rw [hr']; rfl)
      (by rw [hr']; rfl) (by rw [hr']; rfl)
  have hchecks : ∀ u, r'.check? u =
      if uri = u then some (c.asked r.setup.categories r.nextSeq) else r.check? u := by
    rw [hr']
    exact check?_setCheck uri _ (r.wrote c.file)
  have hwritten : written r'.outbox = written r.outbox ++ [((r.nextSeq : Int), c.file)] := by
    rw [hr']
    exact written_wrote c.file r
  have hdue : (written r'.outbox).drop n =
      (written r.outbox).drop n ++ [((r.nextSeq : Int), c.file)] := by
    rw [hwritten, List.drop_append_of_le_length h.complete]
  have hlast : r'.link.last = r.nextSeq := by rw [hr']; rfl
  have hclosed : r'.link.closed = r.link.closed := by rw [hr']; rfl
  have hsetup : r'.setup = r.setup := by rw [hr']; rfl
  have hnew : r.link.last < r.nextSeq := Nat.lt_succ_self _
  rw [← hr'] at hlinked ⊢
  refine ⟨hlinked, by rw [hwritten, List.length_append]; exact Nat.le_add_right_of_le h.complete,
    ?_, ?_⟩
  · rw [hdue]
    refine h.aligned.ask ⟨r.nextSeq, c.generation + 1, []⟩ ⟨rfl, rfl⟩ hnew
      (Nat.le_of_eq hlast.symm) hclosed ?_ fun f hf => ?_
    · rw [hrunning, if_pos rfl, running_of_check h.linked hcheck, List.append_assoc]
      rfl
    · rw [hrunning, if_neg hf]
  · rw [hdue]
    intro u d hd hout e he k hk
    rw [hchecks] at hd
    split at hd
    · cases hd
      obtain rfl : ⟨r.nextSeq, c.generation + 1, []⟩ = e := by
        simpa [CheckState.asked] using he
      rw [h.aligned.toldOf_asked (Int.ofNat_lt.mpr hnew)]
      rfl
    · rw [h.aligned.toldOf_ask]
      exact h.gathered u d hd hout e he k (by rwa [← hsetup])

/-- Closing the connection ends all alignment, and all awaiting. -/
theorem Queued.disconnect (h : Queued uris n parts r) (hup : r.link.closed = none)
    (cause : Closure) (hsound : (r.disconnect cause).Sound)
    (hlinked : Linked uris (r.disconnect cause)) : Queued uris n parts (r.disconnect cause) := by
  have hclosed : (r.disconnect cause).link.closed = some cause := by rw [disconnect_of_open hup]
  have hlast : (r.disconnect cause).link.last = r.link.last := by rw [disconnect_of_open hup]
  have hwritten : written (r.disconnect cause).outbox = written r.outbox :=
    written_of_adds ((adds_disconnect hup cause).mono fun _ he => writtenCheck?_of_not_sent he.1)
  refine ⟨hlinked, by rw [hwritten]; exact h.complete, ?_, fun u d hd hout => ?_⟩
  · rw [hwritten]
    refine ⟨h.aligned.ascending, by rw [hlast]; exact h.aligned.bounded, h.aligned.idle, ?_⟩
    intro hnone
    rw [hclosed] at hnone
    simp at hnone
  · exact absurd (hsound.silent (by simp [hclosed]) u d hd) hout

/-- Closing a document leaves what runs for its file. -/
theorem Queued.forget (h : Queued uris n parts r) (uri : String)
    (hlinked : Linked uris (Relay.forget uri { r with sessions := Table.erase uri r.sessions })) :
    Queued uris n parts (Relay.forget uri { r with sessions := Table.erase uri r.sessions }) := by
  have hlinked₁ := h.linked.eraseSession uri
  have hrunning : ∀ f, (Relay.forget uri { r with
      sessions := Table.erase uri r.sessions }).running f = r.running f :=
    running_forget hlinked₁ uri
  have hlink := link_forget uri { r with sessions := Table.erase uri r.sessions }
  have hwritten : written (Relay.forget uri { r with
      sessions := Table.erase uri r.sessions }).outbox = written r.outbox :=
    written_of_adds ((adds_forget _ _).mono fun _ he => writtenCheck?_of_not_sent he.1)
  refine h.keep hlinked hwritten (Nat.le_of_eq (by rw [hlink])) (by rw [hlink]) hrunning ?_
  refine h.gathered.keep (leaves_forget _ _).setup fun u d hd hout => ?_
  rw [check?_forget] at hd
  split at hd
  · simp at hd
  · exact ⟨d, hd, hout, rfl, rfl⟩

/-- A record with the same checks in flight may be set, if it awaits no more
than before. -/
theorem Queued.put (h : Queued uris n parts r) (c' : CheckState) (hcheck : r.check? uri = some c)
    (hchecks : r'.checks = Table.put uri c' r.checks) (hrest : r' = { r with checks := r'.checks })
    (hlinked : Linked uris r') (hinFlight : c'.inFlight = c.inFlight)
    (hmerged : c'.outstanding ≠ [] → c.outstanding ≠ [] ∧ c.merged = c'.merged) :
    Queued uris n parts r' := by
  refine h.keep hlinked (by rw [hrest]) (Nat.le_of_eq (by rw [hrest])) (by rw [hrest])
    (fun f => ?_)
    (h.gathered.put c' hcheck hchecks (by rw [hrest]) fun hout =>
      ⟨(hmerged hout).1, hinFlight.symm, (hmerged hout).2⟩)
  rw [running_put h.linked c' hcheck hchecks (by rw [hrest]) (by rw [hrest])]
  split
  · rename_i hf
    rw [hf, running_of_check h.linked hcheck, hinFlight]
  · rfl

/-- So may all records, if they stay the same in this. -/
theorem Queued.mapChecks (h : Queued uris n parts r) {f : CheckState → CheckState}
    (hlinked : Linked uris (r.mapChecks f))
    (hsame : ∀ c, (f c).inFlight = c.inFlight ∧ (f c).outstanding = c.outstanding ∧
      (f c).merged = c.merged) : Queued uris n parts (r.mapChecks f) := by
  refine h.keep hlinked rfl (Nat.le_refl _) rfl (running_congr (fun u => ?_) rfl rfl)
    (h.gathered.keep rfl fun u d hd hout => ?_)
  · rw [check?_mapChecks]
    cases r.check? u <;> simp [hsame]
  · rw [check?_mapChecks] at hd
    obtain ⟨c, hc, rfl⟩ := Option.map_eq_some_iff.mp hd
    obtain ⟨hinFlight, houtstanding, hmerged⟩ := hsame c
    exact ⟨c, hc, by rwa [← houtstanding], hinFlight.symm, hmerged.symm⟩

/-- **A step of its own accord leaves a relay beside the queue.** -/
theorem queued_step (hd : DistinctFiles uris) (hstep : Step uris r r') (hsound : r.Sound)
    (h : Queued uris n parts r) : Queued uris n parts r' := by
  have hlinked := linked_step hd hstep hsound h.linked
  cases hstep with
  | quiet hq => exact h.quiet hq
  | opened =>
    exact h.keep hlinked rfl (Nat.le_refl _) rfl (fun _ => rfl) h.gathered
  | edited =>
    exact h.keep hlinked rfl (Nat.le_refl _) rfl (fun _ => rfl) h.gathered
  | @enrolled uri s hopen hnone =>
    refine h.keep hlinked rfl (Nat.le_refl _) rfl
      (running_enroll h.linked hlinked hnone) ?_
    refine h.gathered.keep rfl fun u d hd hout => ?_
    have hrecord : ((r.setCheck uri (CheckState.new s.file)).check? u) = some d := hd
    rw [check?_setCheck] at hrecord
    split at hrecord
    · cases hrecord
      exact absurd rfl hout
    · exact ⟨d, hrecord, hout, rfl, rfl⟩
  | asked hcheck => exact h.ask hcheck hlinked
  | @awaited uri c waiter hcheck =>
    exact h.put { c with waiters := c.waiters ++ [⟨waiter, false⟩] } hcheck
      (Table.update_eq_put _ hcheck) rfl hlinked rfl fun hout => ⟨hout, rfl⟩
  | withdrew => exact h.mapChecks hlinked fun _ => ⟨rfl, rfl, rfl⟩
  | staled => exact h.mapChecks hlinked fun _ => ⟨rfl, rfl, rfl⟩
  | @dropped uri c hcheck hout hwaiters =>
    exact h.put c.dropped hcheck rfl rfl hlinked rfl fun hne => absurd rfl hne
  | closed => exact h.forget _ hlinked
  | @disconnected cause hup =>
    exact h.disconnect hup cause (sound_step (.disconnected hup : Step uris _ _) hsound) hlinked

/-! ## Parts that are told -/

/-- The oldest check is marked if it has not reported the category. -/
theorem markFirst_head {category : String} {e : InFlight} (later : List InFlight)
    (h : category ∉ e.reported) :
    markFirst category (e :: later) =
      some (e, { e with reported := e.reported ++ [category] } :: later) := by
  rw [markFirst, if_neg (by simpa using h)]

/-- A part moves the queue on if what runs and what was gathered move with
it. -/
theorem Queued.part (h : Queued uris n parts r) {seq : Int} {file : String} (category : String)
    (items : List Json) (hdue : (written r.outbox).drop n = (seq, file) :: rest)
    (hsound : r'.Sound) (hlinked : Linked uris r') (hwritten : written r'.outbox = written r.outbox)
    (hlink : r'.link = r.link)
    (hself : r.link.closed = none → ∀ e later, r.running file = e :: later →
      r'.running file = { e with reported := e.reported ++ [category] } :: later)
    (hother : r.link.closed = none → ∀ f, f ≠ file → r'.running f = r.running f)
    (hgathered : r.link.closed = none →
      Gathered ((written r.outbox).drop n) (parts ++ [(category, items)]) r') :
    Queued uris n (parts ++ [(category, items)]) r' where
  linked := hlinked
  complete := by rw [hwritten]; exact h.complete
  aligned := by
    rw [hwritten]
    exact h.aligned.part category items hdue (Nat.le_of_eq (by rw [hlink])) (by rw [hlink]) hself
      hother
  gathered := by
    rw [hwritten]
    by_cases hup : r.link.closed = none
    · exact hgathered hup
    · exact hsound.gathered (by rwa [hlink]) _ _

/-- A record has gathered the part if its newest check is the one that told
it, and otherwise the part is none of its own. -/
theorem Gathered.part (h : Gathered due parts r) {seq : Int} {file : String} (category : String)
    (items : List Json) (hdue : due = (seq, file) :: rest) (hsetup : r'.setup = r.setup)
    (hrecords : ∀ u d', r'.check? u = some d' → d'.outstanding ≠ [] →
      ∀ e, d'.inFlight.getLast? = some e →
        (seq < e.seq ∧ ∃ d, r.check? u = some d ∧ d.outstanding ≠ [] ∧
          d.inFlight.getLast? = some e ∧ d.merged = d'.merged) ∨
        ((e.seq : Int) = seq ∧ ∀ k ∈ r.setup.categories,
          Table.get? k d'.merged = Table.get? k (parts ++ [(category, items)]))) :
    Gathered due (parts ++ [(category, items)]) r' := by
  intro u d' hd' hout e he k hk
  rw [hsetup] at hk
  rcases hrecords u d' hd' hout e he with ⟨hlater, d, hd, hawaited, hnewest, hmerged⟩ | ⟨heq, htold⟩
  · rw [← hmerged, h u d hd hawaited e hnewest k hk, toldOf_of_lt hdue hlater,
      toldOf_of_lt hdue hlater]
  · rw [htold k hk, hdue, toldOf, if_pos heq.symm]

/-- The part belongs to a check of a closed document. -/
theorem Queued.credited (h : Queued uris n parts r) {seq : Int} {file category : String}
    {items : List Json} {e : InFlight} {entries : List InFlight}
    (hdue : (written r.outbox).drop n = (seq, file) :: rest) (hnew : category ∉ Table.keys parts)
    (hmark : markFirst category ((Table.get? file r.abandoned).getD []) = some (e, entries))
    (hsound : (r.setAbandoned file entries).Sound)
    (hlinked : Linked uris (r.setAbandoned file entries)) :
    Queued uris n (parts ++ [(category, items)]) (r.setAbandoned file entries) := by
  obtain ⟨before, after, hlist, -, -, -⟩ := markFirst_some hmark
  obtain ⟨d, rest', hcons⟩ : ∃ d rest', (Table.get? file r.abandoned).getD [] = d :: rest' :=
    List.exists_cons_of_ne_nil (by simp [hlist])
  have habandoned : ∀ f, Table.get? f (r.setAbandoned file entries).abandoned =
      if file = f then some entries else Table.get? f r.abandoned :=
    fun f => Table.get?_put _ _ _ _
  refine h.part category items hdue hsound hlinked rfl rfl (fun hup e' later hrunning => ?_)
    (fun hup f hf => ?_) fun hup =>
      h.gathered.part category items hdue rfl fun u d' hd' hout e' he' => ?_
  · obtain ⟨e₀, later₀, hrunning₀, -, hreported⟩ := h.aligned.oldest hup hdue
    cases hrunning₀.symm.trans hrunning
    rw [running, hcons] at hrunning
    obtain ⟨rfl, hlater⟩ := List.cons.inj hrunning
    rw [hcons, markFirst_head rest' (by rwa [hreported])] at hmark
    cases hmark
    rw [running, habandoned, if_pos rfl, ← hlater]
    rfl
  · rw [running, running, habandoned, if_neg (Ne.symm hf)]
    rfl
  · -- the newest check of an open document comes after that of the closed one
    refine .inl ⟨?_, d', hd', hout, he', rfl⟩
    have hmem : e' ∈ d'.inFlight := List.mem_of_getLast? he'
    by_cases hfile : d'.file = file
    · have hrunning := running_of_check h.linked hd'
      rw [hfile, hcons] at hrunning
      exact h.aligned.lt_of_later hup hdue hrunning (List.mem_append_right _ hmem)
    · exact h.aligned.lt_of_file_ne hup hdue hfile (mem_running h.linked hd' hmem)

/-- **The part of an open document's check is marked on the oldest one**: no
check of a closed document is before it. -/
theorem Queued.marked (h : Queued uris n parts r) (hup : r.link.closed = none) {seq : Int}
    {file category : String} {e : InFlight} {entries : List InFlight}
    (hdue : (written r.outbox).drop n = (seq, file) :: rest) (hnew : category ∉ Table.keys parts)
    (habandoned : markFirst category ((Table.get? file r.abandoned).getD []) = none)
    (huri : Table.get? file r.uriByFile = some uri) (hcheck : r.check? uri = some c)
    (hmark : markFirst category c.inFlight = some (e, entries)) :
    c.file = file ∧ (Table.get? file r.abandoned).getD [] = [] ∧ (e.seq : Int) = seq ∧
      ∃ later, c.inFlight = e :: later ∧
        entries = { e with reported := e.reported ++ [category] } :: later := by
  obtain ⟨e₀, later, hrunning, hseq, hreported⟩ := h.aligned.oldest hup hdue
  have hfile : c.file = file := by simpa [hcheck] using (h.linked.leads file uri).mp huri
  have hunmarked : category ∉ e₀.reported := by rwa [hreported]
  have hnone : (Table.get? file r.abandoned).getD [] = [] := by
    cases hlist : (Table.get? file r.abandoned).getD [] with
    | nil => rfl
    | cons d rest' =>
      rw [running, hlist] at hrunning
      obtain ⟨rfl, -⟩ := List.cons.inj hrunning
      exact absurd (markFirst_none habandoned d (by simp [hlist])) hunmarked
  have hinFlight : c.inFlight = e₀ :: later := by
    have hself := running_of_check h.linked hcheck
    rw [hfile, hnone, hrunning] at hself
    exact hself.symm
  rw [hinFlight, markFirst_head later hunmarked] at hmark
  cases hmark
  exact ⟨hfile, hnone, hseq, later, hinFlight, rfl⟩

/-- The part belongs to the check of an open document, and its record is
set. -/
theorem Queued.report (h : Queued uris n parts r) {seq : Int} {file category : String}
    {items : List Json} {e : InFlight} {entries : List InFlight} (c' : CheckState)
    (hdue : (written r.outbox).drop n = (seq, file) :: rest) (hnew : category ∉ Table.keys parts)
    (habandoned : markFirst category ((Table.get? file r.abandoned).getD []) = none)
    (huri : Table.get? file r.uriByFile = some uri) (hcheck : r.check? uri = some c)
    (hmark : markFirst category c.inFlight = some (e, entries)) (hinFlight : c'.inFlight = entries)
    (hrest : r' = { r with checks := Table.put uri c' r.checks, outbox := r'.outbox })
    (hwritten : written r'.outbox = written r.outbox) (hsound : r'.Sound) (hlinked : Linked uris r')
    (hown : r.link.closed = none → c'.outstanding ≠ [] →
      (∃ earlier, c.inFlight = earlier ++ [e]) ∧ (∀ k ∈ r.setup.categories,
        Table.get? k c'.merged = Table.get? k (parts ++ [(category, items)])) ∨
      c.outstanding ≠ [] ∧ c.merged = c'.merged ∧
        ∃ newest, c.inFlight.getLast? = some newest ∧ newest ≠ e) :
    Queued uris n (parts ++ [(category, items)]) r' := by
  have hchecks : r'.checks = Table.put uri c' r.checks := by rw [hrest]
  have hrunning := running_put h.linked c' hcheck hchecks (by rw [hrest]) (by rw [hrest])
  refine h.part category items hdue hsound hlinked hwritten (by rw [hrest])
    (fun hup e' later hlist => ?_) (fun hup f hf => ?_) fun hup => ?_
  · obtain ⟨hfile, hnone, -, later₀, hlist₀, rfl⟩ :=
      h.marked hup hdue hnew habandoned huri hcheck hmark
    have hself := running_of_check h.linked hcheck
    rw [hfile, hnone, hlist₀, hlist] at hself
    cases hself
    rw [hrunning, if_pos hfile.symm, hnone, hinFlight]
    rfl
  · obtain ⟨hfile, -⟩ := h.marked hup hdue hnew habandoned huri hcheck hmark
    rw [hrunning, if_neg (by rwa [hfile])]
  · obtain ⟨hfile, hnone, hseq, later, hlist, rfl⟩ :=
      h.marked hup hdue hnew habandoned huri hcheck hmark
    refine h.gathered.part category items hdue (by rw [hrest]) fun u d' hd' hout e' he' => ?_
    have hself : r.running file = e :: later := by
      rw [← hfile, running_of_check h.linked hcheck, hfile, hnone, hlist]
      rfl
    rcases check?_put_cases hchecks hd' with ⟨rfl, rfl⟩ | ⟨hu, hd⟩
    · rw [hinFlight] at he'
      rcases hown hup hout with ⟨⟨earlier, hearlier⟩, htold⟩ |
        ⟨hawaited, hmerged, newest, hnewest, hne⟩
      · -- the check marked is the newest of the document, and tells the part
        obtain rfl := h.aligned.alone hup hdue hself (by rw [← hlist, hearlier]; simp)
        obtain rfl : { e with reported := e.reported ++ [category] } = e' := by simpa using he'
        exact .inr ⟨hseq, htold⟩
      · -- the newest check is another one, which comes after it
        rw [hlist] at hnewest
        cases later with
        | nil => exact absurd (by simpa using hnewest) (Ne.symm hne)
        | cons d ds =>
          rw [List.getLast?_cons_cons] at he' hnewest
          have hsame : e' = newest := Option.some.inj (he'.symm.trans hnewest)
          have hlt := h.aligned.lt_of_later hup hdue hself (List.mem_of_getLast? he')
          refine .inl ⟨hlt, c, hcheck, hawaited, ?_, hmerged⟩
          rw [hlist, List.getLast?_cons_cons, he']
    · -- the record of another document is of another file
      have hne : d'.file ≠ file := fun heq => hu (h.linked.inj hcheck hd (hfile.trans heq.symm))
      exact .inl ⟨h.aligned.lt_of_file_ne hup hdue hne
        (mem_running h.linked hd (List.mem_of_getLast? he')), d', hd, hout, he', rfl⟩

/-- If the newest check of a document is the oldest of the queue, what was
gathered is what it told. -/
theorem Queued.told (h : Queued uris n parts r) {seq : Int} {file : String} {e : InFlight}
    (hdue : (written r.outbox).drop n = (seq, file) :: rest) (hcheck : r.check? uri = some c)
    (hout : c.outstanding ≠ []) (hnewest : c.inFlight.getLast? = some e)
    (hseq : (e.seq : Int) = seq) {k : String} (hk : k ∈ r.setup.categories) :
    Table.get? k c.merged = Table.get? k parts := by
  have htold := h.gathered uri c hcheck hout e hnewest k hk
  rwa [hdue, toldOf, if_pos hseq.symm] at htold

/-- Settling writes no check. -/
theorem written_settle (uri : String) (c : CheckState) (r : Relay) :
    written (r.settle uri c).1.outbox = written r.outbox :=
  written_of_adds ((adds_settling uri c r).mono fun _ hx => writtenCheck?_of_not_sent hx.not_sent)

/-- **A part moves a relay on by that part.** -/
theorem queued_part {seq : Int} {file category : String} {items : List Json}
    {failure : Option Failure} (hheard : Heard r (.part file category items) r' failure)
    (hsound : r.Sound) (h : Queued uris n parts r)
    (hdue : (written r.outbox).drop n = (seq, file) :: rest) (hnew : category ∉ Table.keys parts) :
    Queued uris n (parts ++ [(category, items)]) r' := by
  have hsound' := sound_heard hheard hsound
  have hlinked' := linked_heard hheard hsound h.linked
  cases hheard with
  | credited hmark => exact h.credited hdue hnew hmark hsound' hlinked'
  | unawaited habandoned hnone =>
    -- over an open connection the oldest check awaits the part
    have hclosed : r.link.closed ≠ none := by
      intro hup
      obtain ⟨e, later, hrunning, -, hreported⟩ := h.aligned.oldest hup hdue
      have hmem : e ∈ r.running file := hrunning ▸ List.mem_cons_self
      refine absurd ?_ hnew
      rw [← hreported]
      rcases List.mem_append.mp hmem with hmem | hmem
      · exact markFirst_none habandoned e hmem
      · cases huri : Table.get? file r.uriByFile with
        | none => simp [huri] at hmem
        | some uri =>
          cases hcheck : r.check? uri with
          | none => simp [huri, hcheck] at hmem
          | some c =>
            exact markFirst_none (hnone uri c huri hcheck) e (by simpa [huri, hcheck] using hmem)
    exact h.part category items hdue hsound' hlinked' rfl rfl (fun hup => absurd hup hclosed)
      (fun hup => absurd hup hclosed) fun hup => absurd hup hclosed
  | @outdated _ _ _ e entries uri c habandoned huri hcheck hmark hold =>
    refine h.report { c with inFlight := entries } hdue hnew habandoned huri hcheck hmark rfl rfl
      rfl hsound' hlinked' fun hup hout => ?_
    obtain ⟨newest, hnewest, hgeneration, hreported⟩ := (hsound.states uri c hcheck).current hout
    by_cases hsame : newest = e
    · subst hsame
      obtain ⟨-, -, hseq, -⟩ := h.marked hup hdue hnew habandoned huri hcheck hmark
      refine .inl ⟨List.getLast?_eq_some_iff.mp hnewest, fun k hk => ?_⟩
      have htold := h.told hdue hcheck hout hnewest hseq hk
      rw [← Table.put_of_not_mem items hnew, Table.get?_put]
      split
      · rename_i heq
        subst heq
        -- the category was counted before, so the oldest check has reported it
        have hgathered : category ∈ Table.keys c.merged := by
          have hperm := ((hsound.states uri c hcheck).parts hout).mem_iff (a := category)
          rw [List.mem_append, List.mem_eraseDups] at hperm
          exact (hperm.mpr hk).resolve_left (hold.resolve_left fun hne => hne hgeneration)
        rw [Table.mem_keys_iff, htold, ← Table.mem_keys_iff] at hgathered
        exact absurd hgathered hnew
      · exact htold
    · exact .inr ⟨hout, rfl, newest, hnewest, hsame⟩
  | @counted _ _ _ e entries uri c habandoned huri hcheck hmark hcurrent hawaited hleft =>
    refine h.report (c.counted category items entries) hdue hnew habandoned huri hcheck hmark rfl
      rfl rfl hsound' hlinked' fun hup _ => ?_
    obtain ⟨earlier, hlist, -⟩ := (hsound.states uri c hcheck).mark_newest hmark hcurrent
    obtain ⟨-, -, hseq, -⟩ := h.marked hup hdue hnew habandoned huri hcheck hmark
    refine .inl ⟨⟨earlier, hlist⟩, fun k hk => ?_⟩
    have htold := h.told hdue hcheck (List.ne_nil_of_mem hawaited) (by simp [hlist]) hseq hk
    exact CheckState.told_counted htold hnew items entries
  | @settled _ _ _ e entries uri c habandoned huri hcheck hmark hcurrent hawaited hleft =>
    -- the record awaits nothing any more, so nothing need be gathered for it
    have hwritten := written_settle uri (c.counted category items entries) r
    obtain ⟨fresh, fx, hshape, -⟩ := settle_shape uri (c.counted category items entries) r
    refine h.report { (c.counted category items entries).ended with fresh } hdue hnew habandoned
      huri hcheck hmark rfl ?_ hwritten hsound' hlinked' fun _ hout => absurd hleft hout
    rw [hshape]

/-! ## Completions -/

/-- Of the checks of closed documents those after the completed one are
left. -/
theorem get?_retired (h : (Table.keys r.abandoned).Nodup) (seq : Int) (file : String) :
    (Table.get? file (r.retireAbandoned seq).abandoned).getD [] =
      ((Table.get? file r.abandoned).getD []).filter fun e => seq < e.seq := by
  change (Table.get? file (r.abandoned.filterMap (stillRunning seq))).getD [] = _
  generalize r.abandoned = abandoned at h ⊢
  induction abandoned with
  | nil => rfl
  | cons entry rest ih =>
    obtain ⟨f, entries⟩ := entry
    obtain ⟨hnot, hrest⟩ := List.nodup_cons.mp h
    rw [List.filterMap_cons]
    by_cases hf : f = file
    · subst hf
      have hnone : Table.get? f rest = none := by
        rwa [← Option.not_isSome_iff_eq_none, ← Table.mem_keys_iff]
      by_cases hleft : entries.filter (fun e => seq < e.seq) = []
      · simp [stillRunning, Table.get?, hleft, ih hrest, hnone]
      · simp [stillRunning, Table.get?, hleft]
    · by_cases hleft : entries.filter (fun e => seq < e.seq) = []
      · simp [stillRunning, Table.get?, hleft, hf, ih hrest]
      · simp [stillRunning, Table.get?, hleft, hf, ih hrest]

/-- Where the open document of a file has later checks alone, retiring those of
closed ones is retiring all. -/
theorem running_retired (h : Linked uris r) {seq : Int} {f : String}
    (hlater : ∀ u d, r.check? u = some d → d.file = f → ∀ e ∈ d.inFlight, seq < e.seq) :
    (r.retireAbandoned seq).running f = (r.running f).filter fun e => seq < e.seq := by
  have hleft : (((Table.get? f r.uriByFile).bind r.check?).elim [] CheckState.inFlight).filter
      (fun e => seq < e.seq) =
        ((Table.get? f r.uriByFile).bind r.check?).elim [] CheckState.inFlight := by
    refine List.filter_eq_self.mpr fun e he => ?_
    cases hu : Table.get? f r.uriByFile with
    | none => simp [hu] at he
    | some u =>
      cases hd : r.check? u with
      | none => simp [hu, hd] at he
      | some d =>
        have hfile : d.file = f := by simpa [hd] using (h.leads f u).mp hu
        simpa using hlater u d hd hfile e (by simpa [hu, hd] using he)
  rw [running, running, get?_retired h.single, List.filter_append, hleft]
  rfl

/-- A completion moves the queue on if what runs and what was gathered move
with it. -/
theorem Queued.completed (h : Queued uris n parts r) {seq : Int} {file : String}
    (hdue : (written r.outbox).drop n = (seq, file) :: rest) (hlinked : Linked uris r')
    (hwritten : written r'.outbox = written r.outbox) (hlink : r'.link = r.link)
    (hrunning : r.link.closed = none → ∀ f,
      r'.running f = (r.running f).filter fun e => seq < e.seq)
    (hgathered : Gathered rest [] r') : Queued uris (n + 1) [] r' := by
  have hrest : (written r.outbox).drop (n + 1) = rest := by
    rw [← List.tail_drop, hdue, List.tail_cons]
  refine ⟨hlinked, ?_, ?_, ?_⟩
  · have hlength := congrArg List.length hdue
    rw [List.length_drop, List.length_cons] at hlength
    rw [hwritten]
    omega
  · rw [hwritten, hrest]
    exact h.aligned.completed hdue (Nat.le_of_eq (by rw [hlink])) (by rw [hlink]) hrunning
  · rwa [hwritten, hrest]

/-- Records whose newest checks come after the completed one have gathered
nothing. -/
theorem Gathered.completed (h : Gathered due parts r) {seq : Int} {file : String}
    (hdue : due = (seq, file) :: rest) (hsetup : r'.setup = r.setup)
    (hrecords : ∀ u d', r'.check? u = some d' → d'.outstanding ≠ [] →
      ∀ e, d'.inFlight.getLast? = some e →
        seq < e.seq ∧ ∃ d, r.check? u = some d ∧ d.outstanding ≠ [] ∧
          d.inFlight.getLast? = some e ∧ d.merged = d'.merged) : Gathered rest [] r' := by
  intro u d' hd' hout e he k hk
  rw [hsetup] at hk
  obtain ⟨hlater, d, hd, hawaited, hnewest, hmerged⟩ := hrecords u d' hd' hout e he
  rw [← hmerged, h u d hd hawaited e hnewest k hk, toldOf_of_lt hdue hlater, toldOf_nil]

/-- **The check that completed is of an open document**, and its record is
set. -/
theorem Queued.complete_of (h : Queued uris n parts r) {seq : Int} {file : String} {e : InFlight}
    (c' : CheckState) (hdue : (written r.outbox).drop n = (seq, file) :: rest)
    (hcheck : r.check? uri = some c) (he : e ∈ c.inFlight) (hseq : (e.seq : Int) = seq)
    (hinFlight : c'.inFlight = (c.after seq).inFlight)
    (hrest : r' = { r.retireAbandoned seq with
      checks := Table.put uri c' r.checks, outbox := r'.outbox })
    (hwritten : written r'.outbox = written r.outbox) (hlinked : Linked uris r')
    (hclosed : r.link.closed ≠ none → Gathered rest [] r')
    (hown : c'.outstanding ≠ [] → c.outstanding ≠ [] ∧ c.merged = c'.merged ∧
      c.inFlight.getLast? = (c.after seq).inFlight.getLast?) : Queued uris (n + 1) [] r' := by
  have hchecks : r'.checks = Table.put uri c' r.checks := by rw [hrest]
  have hlink : r'.link = r.link := by rw [hrest]; rfl
  have hfile : r.link.closed = none → c.file = file := fun hup =>
    h.aligned.file_eq (h.aligned.mem hup (mem_running h.linked hcheck he))
      (by rw [hdue, hseq]; exact List.mem_cons_self)
  have hretired : Linked uris (r.retireAbandoned seq) :=
    h.linked.withAbandoned (single_retired h.linked.single seq)
  have hrunning : ∀ f, r'.running f =
      if f = c.file then (Table.get? f (r.retireAbandoned seq).abandoned).getD [] ++ c'.inFlight
      else (r.retireAbandoned seq).running f :=
    running_put hretired c' hcheck hchecks (by rw [hrest]) (by rw [hrest])
  refine h.completed hdue hlinked hwritten hlink (fun hup f => ?_) ?_
  · rw [hrunning]
    split
    · rename_i hf
      subst hf
      rw [running_of_check h.linked hcheck, List.filter_append, hinFlight,
        get?_retired h.linked.single]
      rfl
    · rename_i hf
      refine running_retired h.linked fun u d hd hdfile e he => ?_
      exact h.aligned.lt_of_file_ne hup hdue (fun heq => hf (by rw [← hdfile, heq, hfile hup]))
        (mem_running h.linked hd he)
  · by_cases hup : r.link.closed = none
    · refine h.gathered.completed hdue (by rw [hrest]; rfl) fun u d' hd' hout e' he' => ?_
      rcases check?_put_cases hchecks hd' with ⟨rfl, rfl⟩ | ⟨hu, hd⟩
      · obtain ⟨hawaited, hmerged, hnewest⟩ := hown hout
        rw [hinFlight] at he'
        have hlater : seq < e'.seq := by
          simpa using (List.mem_filter.mp (List.mem_of_getLast? he')).2
        exact ⟨hlater, c, hcheck, hawaited, hnewest.trans he', hmerged⟩
      · have hne : d'.file ≠ file := fun heq =>
          hu (h.linked.inj hcheck hd ((hfile hup).trans heq.symm))
        exact ⟨h.aligned.lt_of_file_ne hup hdue hne
          (mem_running h.linked hd (List.mem_of_getLast? he')), d', hd, hout, he', rfl⟩
    · exact hclosed hup

/-- **A completion moves a relay on by that check.** A check that is asked
again joins the queue after that. -/
theorem queued_over {seq : Int} {file : String} {failure : Option Failure}
    (hheard : Heard r (.completed seq) r' failure) (hsound : r.Sound) (h : Queued uris n parts r)
    (hdue : (written r.outbox).drop n = (seq, file) :: rest) : Queued uris (n + 1) [] r' := by
  have hsound' := sound_heard hheard hsound
  have hlinked' := linked_heard hheard hsound h.linked
  cases hheard with
  | retired hfind =>
    -- no open document has the check in flight, so all of theirs come after it
    have hlater : r.link.closed = none → ∀ u d, r.check? u = some d → ∀ e ∈ d.inFlight,
        seq < e.seq := by
      intro hup u d hd e he
      have hne := findInFlight?_none hfind u d (Table.mem_of_get? hd) e he
      have hmem := h.aligned.mem hup (mem_running h.linked hd he)
      rw [hdue] at hmem
      rcases List.mem_cons.mp hmem with heq | hrest
      · exact absurd (congrArg Prod.fst heq) hne
      · exact h.aligned.later hdue hrest
    refine h.completed hdue hlinked' rfl rfl
      (fun hup f => running_retired h.linked fun u d hd _ => hlater hup u d hd) ?_
    by_cases hup : r.link.closed = none
    · exact h.gathered.completed hdue rfl fun u d hd hout e he =>
        ⟨hlater hup u d hd e (List.mem_of_getLast? he), d, hd, hout, he, rfl⟩
    · exact hsound'.gathered hup _ _
  | @overtaken _ uri c e hfind hold =>
    obtain ⟨hcheck, he, rfl⟩ := hsound.find hfind
    refine h.complete_of (c.after e.seq) hdue hcheck he rfl rfl rfl rfl hlinked'
      (fun hup => hsound'.gathered hup _ _) fun hout => ⟨hout, rfl, ?_⟩
    obtain ⟨newest, hnewest, hafter, -⟩ := (hsound.states uri c hcheck).newest_after he hold hout
    rw [hnewest, hafter]
  | @repeated _ uri c e text hfind hcurrent hawaited hpatient htaken =>
    obtain ⟨hcheck, he, rfl⟩ := hsound.find hfind
    -- in between the record awaits nothing, so that nothing need be gathered for it
    let d : CheckState := { c.again e.seq with outstanding := [] }
    let r₁ : Relay := ((r.retireAbandoned e.seq).setCheck uri d).log .info text
    have hlinked₁ : Linked uris r₁ :=
      (h.linked.withAbandoned (single_retired h.linked.single e.seq)).put d hcheck rfl rfl rfl rfl
        (single_retired h.linked.single e.seq)
    have hwritten₁ : written r₁.outbox = written r.outbox := (quiet_log _ _ _).written
    have hover : Queued uris (n + 1) [] r₁ :=
      h.complete_of d hdue hcheck he rfl rfl rfl hwritten₁ hlinked₁
        (fun hne => absurd (Link.closed_of_taken htaken) hne) fun hout => absurd rfl hout
    have hsame : (((r.completed e.seq uri c).log .info text).wrote c.file).setCheck uri
        ((c.again e.seq).asked r.setup.categories r.nextSeq) =
          (r₁.wrote d.file).setCheck uri (d.asked r₁.setup.categories r₁.nextSeq) := by
      simp only [r₁, completed, setCheck, wrote, log, emit, takeSeq, Table.put_put]
      rfl
    have hcheck₁ : r₁.check? uri = some d := (check?_setCheck _ _ _ _).trans (if_pos rfl)
    rw [hsame] at hlinked' ⊢
    exact hover.ask hcheck₁ hlinked'
  | @severed _ uri c e text cause hfind hcurrent hawaited hpatient hrefused =>
    simp [hsound.taken (hsound.find hfind).1 hawaited] at hrefused
  | @exhausted _ uri c e text hfind hcurrent hawaited hpatient =>
    obtain ⟨hcheck, he, rfl⟩ := hsound.find hfind
    have hwritten := (written_settle uri (c.exhausted e.seq)
      ((r.retireAbandoned e.seq).log .warning text)).trans (quiet_log _ _ _).written
    obtain ⟨fresh, fx, hshape, -⟩ := settle_shape uri (c.exhausted e.seq)
      ((r.retireAbandoned e.seq).log .warning text)
    refine h.complete_of { (c.exhausted e.seq).ended with fresh } hdue hcheck he rfl rfl ?_ hwritten
      hlinked' (fun hup => hsound'.gathered ?_ _ _) fun hout => absurd rfl hout
    · rw [hshape]
      rfl
    · rw [hshape]
      exact hup

end Relay

end LanguageRelay
