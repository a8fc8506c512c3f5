import LanguageRelay.Proofs.Checks.Steps
import Mathlib.Data.List.Perm.Basic
/-!
# The invariant of error checks

A record of checks is *sound* if its checks in flight are in order and the
newest of them is the current generation's as long as parts are awaited.
`Relay.Sound` says that of every record of a relay, and that records are of
open documents. Every step keeps it (`sound_step`, `sound_heard`), and so
every run (`sound_run`).

Where the transport refuses a command before the connection is said to have
closed, a check that is to be asked for again is not written, and none is in
flight although parts are awaited. A record is *kept* if it is sound but for
that. What is proved of steps is proved of kept records (`kept_step`,
`kept_heard`); a relay is sound if its records are kept and nothing limits
what the transport takes.

The one place where the order matters is a part that counts: its check has
the current generation, and no check in flight is newer than that, so it is
the last.
-/

namespace LanguageRelay

/-! ## The oldest check without a category -/

namespace Relay

/-- The check marked is the first that has not reported the category. -/
theorem markFirst_some {category : String} {l l' : List InFlight} {e : InFlight}
    (h : markFirst category l = some (e, l')) :
    ∃ before after, l = before ++ e :: after ∧
      l' = before ++ { e with reported := e.reported ++ [category] } :: after ∧
      category ∉ e.reported ∧ ∀ d ∈ before, category ∈ d.reported := by
  induction l generalizing l' with
  | nil => simp [markFirst] at h
  | cons d rest ih =>
    rw [markFirst] at h
    split at h
    · rename_i hd
      obtain ⟨⟨e', rest'⟩, hfound, heq⟩ := Option.map_eq_some_iff.mp h
      cases heq
      obtain ⟨before, after, rfl, rfl, he, hbefore⟩ := ih hfound
      refine ⟨d :: before, after, rfl, rfl, he, fun d' hd' => ?_⟩
      rcases List.mem_cons.mp hd' with rfl | hd'
      · simpa using hd
      · exact hbefore d' hd'
    · rename_i hd
      cases h
      exact ⟨[], rest, rfl, rfl, by simpa using hd, by simp⟩

/-- Where none is marked, every check has reported the category. -/
theorem markFirst_none {category : String} {l : List InFlight}
    (h : markFirst category l = none) : ∀ e ∈ l, category ∈ e.reported := by
  induction l with
  | nil => simp
  | cons d rest ih =>
    rw [markFirst] at h
    split at h
    · rename_i hd
      intro e he
      rcases List.mem_cons.mp he with rfl | he
      · simpa using hd
      · exact ih (Option.map_eq_none_iff.mp h) e he
    · simp at h

end Relay

/-! ## Lists without repetition -/

/-- What is left holds nothing twice. -/
theorem nodup_eraseDups : ∀ l : List String, l.eraseDups.Nodup
  | [] => by simp
  | a :: rest => by
    have hlength : (rest.filter fun b => !b == a).length < (a :: rest).length :=
      Nat.lt_succ_of_le (List.length_filter_le _ _)
    rw [List.eraseDups_cons, List.nodup_cons]
    exact ⟨by simp [List.mem_eraseDups], nodup_eraseDups _⟩
termination_by l => l.length
decreasing_by exact hlength

/-! ## Records of checks -/

/-- Checks in flight are in the order they were written, at most one for a
generation. -/
def Ascending (entries : List InFlight) : Prop :=
  entries.Pairwise fun e e' => e.seq < e'.seq ∧ e.generation < e'.generation

/-- Marking a category leaves numbers and generations in place. -/
theorem Ascending.mark {before after : List InFlight} {e : InFlight} {reported : List String}
    (h : Ascending (before ++ e :: after)) :
    Ascending (before ++ { e with reported } :: after) := by
  unfold Ascending at h ⊢
  rw [List.pairwise_append, List.pairwise_cons] at h ⊢
  obtain ⟨hbefore, ⟨he, hafter⟩, hacross⟩ := h
  refine ⟨hbefore, ⟨he, hafter⟩, fun d hd e' he' => ?_⟩
  rcases List.mem_cons.mp he' with rfl | he'
  · exact hacross d hd e List.mem_cons_self
  · exact hacross d hd e' (List.mem_cons_of_mem _ he')

namespace CheckState

/-- The newest check is the current generation's and has not reported the parts
awaited. -/
def Newest (c : CheckState) : Prop :=
  ∃ e, c.inFlight.getLast? = some e ∧ e.generation = c.generation ∧
    ∀ k ∈ e.reported, k ∉ c.outstanding

/-- **A record of checks that is kept**, when commands are numbered up to
`last`: sound, unless the check parts are awaited from is `lost`. -/
structure Kept (lost : Prop) (categories : List String) (last : Nat) (c : CheckState) : Prop where
  ascending : Ascending c.inFlight
  /-- No check is of a later generation, or has a number not given out. -/
  bounded : ∀ e ∈ c.inFlight, e.seq ≤ last ∧ e.generation ≤ c.generation
  /-- While parts are awaited, the newest check is the one they are awaited from. -/
  newest : c.outstanding ≠ [] → c.Newest ∨ lost ∧ c.inFlight = []
  /-- Until then the parts awaited and the parts there are make up all. -/
  parts : c.outstanding ≠ [] →
    (c.outstanding ++ Table.keys c.merged).Perm categories.eraseDups
  /-- Calls wait only while parts are awaited. -/
  awaited : categories ≠ [] → c.waiters ≠ [] → c.outstanding ≠ []
  patient : c.retries ≤ Relay.maxRetries

/-- **A sound record of checks**: none is lost. -/
abbrev Sound (categories : List String) (last : Nat) (c : CheckState) : Prop :=
  c.Kept False categories last

variable {lost lost' : Prop} {categories : List String} {last last' seq : Nat} {c : CheckState}

/-- While parts are awaited, the newest check is the current generation's. -/
theorem Sound.current (h : c.Sound categories last) (hout : c.outstanding ≠ []) :
    ∃ e, c.inFlight.getLast? = some e ∧ e.generation = c.generation ∧
      ∀ k ∈ e.reported, k ∉ c.outstanding :=
  (h.newest hout).resolve_right fun hlost => hlost.1

/-- Where a check is in flight, none is lost. -/
theorem Kept.current {e : InFlight} (h : c.Kept lost categories last) (he : e ∈ c.inFlight)
    (hout : c.outstanding ≠ []) : c.Newest :=
  (h.newest hout).resolve_right fun hlost => List.ne_nil_of_mem he hlost.2

/-- A check that is lost may well be. -/
theorem Kept.weaken (h : c.Kept lost categories last) (hlost : lost → lost') :
    c.Kept lost' categories last :=
  { h with newest := fun hout => (h.newest hout).imp_right (And.imp_left hlost) }

theorem kept_new (categories : List String) (last : Nat) (file : String) :
    (CheckState.new file).Kept lost categories last where
  ascending := .nil
  bounded := by simp [CheckState.new]
  newest h := absurd rfl h
  parts h := absurd rfl h
  awaited _ h := absurd rfl h
  patient := Nat.zero_le _

theorem Kept.mono (h : c.Kept lost categories last) (hlast : last ≤ last') :
    c.Kept lost categories last' :=
  { h with bounded := fun e he => ⟨Nat.le_trans (h.bounded e he).1 hlast, (h.bounded e he).2⟩ }

/-- Whether what is published is current does not matter. -/
theorem Kept.withFresh (h : c.Kept lost categories last) (fresh : Bool) :
    { c with fresh }.Kept lost categories last :=
  ⟨h.ascending, h.bounded, h.newest, h.parts, h.awaited, h.patient⟩

/-- Which calls wait does not matter while parts are awaited. -/
theorem Kept.withWaiters (h : c.Kept lost categories last) {waiters : List Waiter}
    (hw : categories ≠ [] → waiters ≠ [] → c.outstanding ≠ []) :
    { c with waiters }.Kept lost categories last :=
  ⟨h.ascending, h.bounded, h.newest, h.parts, hw, h.patient⟩

/-- Where nothing is awaited, only the order of the checks matters. -/
theorem kept_of_nothing_awaited (hascending : Ascending c.inFlight)
    (hbounded : ∀ e ∈ c.inFlight, e.seq ≤ last ∧ e.generation ≤ c.generation)
    (hout : c.outstanding = []) (hwaiters : categories ≠ [] → c.waiters = [])
    (hpatient : c.retries ≤ Relay.maxRetries) : c.Kept lost categories last where
  ascending := hascending
  bounded := hbounded
  newest h := absurd hout h
  parts h := absurd hout h
  awaited hcategories hw := absurd (hwaiters hcategories) hw
  patient := hpatient

/-- **A check written begins a generation with a newest check**, whatever was awaited
before. -/
theorem kept_asked (hascending : Ascending c.inFlight)
    (hbounded : ∀ e ∈ c.inFlight, e.seq ≤ last ∧ e.generation ≤ c.generation)
    (hpatient : c.retries ≤ Relay.maxRetries) (hseq : last < seq) :
    (c.asked categories seq).Kept lost categories seq where
  ascending := by
    refine List.pairwise_append.mpr ⟨hascending, List.pairwise_singleton _ _, fun e he e' he' => ?_⟩
    obtain ⟨hle, hgen⟩ := hbounded e he
    cases List.mem_singleton.mp he'
    exact ⟨Nat.lt_of_le_of_lt hle hseq, Nat.lt_succ_of_le hgen⟩
  bounded e he := by
    simp only [asked, List.mem_append, List.mem_singleton] at he ⊢
    rcases he with he | rfl
    · obtain ⟨hle, hgen⟩ := hbounded e he
      exact ⟨by omega, by omega⟩
    · exact ⟨Nat.le_refl _, Nat.le_refl _⟩
  newest _ := .inl ⟨⟨seq, c.generation + 1, []⟩, by simp [asked], rfl, by simp⟩
  parts _ := by simp [asked, Table.keys]
  awaited hcategories _ := asked_awaits hcategories seq c
  patient := hpatient

/-- A generation given up is kept: no call waits for it. -/
theorem Kept.dropped (h : c.Kept lost categories last) (hw : c.waiters = []) :
    c.dropped.Kept lost categories last :=
  kept_of_nothing_awaited h.ascending
    (fun e he => ⟨(h.bounded e he).1, Nat.le_succ_of_le (h.bounded e he).2⟩) rfl
    (fun _ => hw) h.patient

/-- A generation that has ended is kept. -/
theorem Kept.ended {fresh : Bool} (hascending : Ascending c.inFlight)
    (hbounded : ∀ e ∈ c.inFlight, e.seq ≤ last ∧ e.generation ≤ c.generation)
    (hout : c.outstanding = []) : { c.ended with fresh }.Kept lost categories last :=
  kept_of_nothing_awaited hascending hbounded hout (fun _ => rfl) (Nat.zero_le _)

/-- The check of the current generation stays the newest when an older one
completes, as long as parts are awaited. -/
theorem Kept.newest_after {e : InFlight} (h : c.Kept lost categories last) (he : e ∈ c.inFlight)
    (hold : e.generation ≠ c.generation ∨ c.outstanding = []) (hout : c.outstanding ≠ []) :
    ∃ newest, c.inFlight.getLast? = some newest ∧ (c.after e.seq).inFlight.getLast? = some newest ∧
      newest.generation = c.generation ∧ ∀ k ∈ newest.reported, k ∉ c.outstanding := by
  obtain ⟨newest, hnewest, hgen, hreported⟩ := h.current he hout
  obtain ⟨earlier, hlist⟩ := List.getLast?_eq_some_iff.mp hnewest
  -- the check that completed is of an older generation, so it is not the newest
  have hlater : e.seq < newest.seq := by
    have hmem : e ∈ earlier ++ [newest] := hlist ▸ he
    rcases List.mem_append.mp hmem with hearlier | hlast
    · exact ((List.pairwise_append.mp (hlist ▸ h.ascending)).2.2 e hearlier newest
        List.mem_cons_self).1
    · rw [List.mem_singleton.mp hlast] at hold
      exact absurd hgen (hold.resolve_right hout)
  exact ⟨newest, hnewest, by simp [CheckState.after, hlist, hlater], hgen, hreported⟩

/-- A check of the current generation is the newest. -/
theorem Kept.newest_of_current {e : InFlight} (h : c.Kept lost categories last)
    (he : e ∈ c.inFlight) (hcurrent : e.generation = c.generation) (hout : c.outstanding ≠ []) :
    c.inFlight.getLast? = some e := by
  obtain ⟨newest, hnewest, hgeneration, -⟩ := h.current he hout
  obtain ⟨earlier, hlist⟩ := List.getLast?_eq_some_iff.mp hnewest
  rw [hlist] at he
  rcases List.mem_append.mp he with hearlier | hlast
  · -- an earlier check would be of an earlier generation
    have hpair := List.pairwise_append.mp (hlist ▸ h.ascending)
    have hlt := (hpair.2.2 e hearlier newest List.mem_cons_self).2
    omega
  · rw [List.mem_singleton.mp hlast, hnewest]

/-- **The checks after a completed one are kept**, if it is not the one
parts are awaited from. -/
theorem Kept.after {e : InFlight} (h : c.Kept lost categories last) (he : e ∈ c.inFlight)
    (hold : e.generation ≠ c.generation ∨ c.outstanding = []) :
    (c.after e.seq).Kept lost categories last where
  ascending := h.ascending.filter _
  bounded d hd := h.bounded d (List.mem_of_mem_filter hd)
  newest hout := by
    obtain ⟨newest, -, hafter, hgen, hreported⟩ := h.newest_after he hold hout
    exact .inl ⟨newest, hafter, hgen, hreported⟩
  parts := h.parts
  awaited := h.awaited
  patient := h.patient

/-- **A check that is not asked for again is lost**: it was the newest, so that none is in
flight after it. -/
theorem Kept.again {e : InFlight} (h : c.Kept lost categories last) (he : e ∈ c.inFlight)
    (hcurrent : e.generation = c.generation) (hout : c.outstanding ≠ [])
    (hpatient : c.retries < Relay.maxRetries) (hlost : lost') :
    (c.again e.seq).Kept lost' categories last where
  ascending := h.ascending.filter _
  bounded d hd := h.bounded d (List.mem_of_mem_filter hd)
  newest _ := by
    obtain ⟨earlier, hlist⟩ := List.getLast?_eq_some_iff.mp (h.newest_of_current he hcurrent hout)
    refine .inr ⟨hlost, List.filter_eq_nil_iff.mpr fun d hd => ?_⟩
    rcases List.mem_append.mp (hlist ▸ hd) with hd | hd
    · have hbefore := (List.pairwise_append.mp (hlist ▸ h.ascending)).2.2 d hd e List.mem_cons_self
      simpa using Nat.le_of_lt hbefore.1
    · simp [List.mem_singleton.mp hd]
  parts := h.parts
  awaited := h.awaited
  patient := hpatient

/-- Marking a part as reported leaves the checks in order. -/
theorem Kept.ascending_marked {category : String} {e : InFlight} {entries : List InFlight}
    (h : c.Kept lost categories last)
    (hmark : Relay.markFirst category c.inFlight = some (e, entries)) :
    Ascending entries ∧ ∀ d ∈ entries, d.seq ≤ last ∧ d.generation ≤ c.generation := by
  obtain ⟨before, after, hlist, rfl, -, -⟩ := Relay.markFirst_some hmark
  refine ⟨.mark (hlist ▸ h.ascending), fun d hd => ?_⟩
  rcases List.mem_append.mp hd with hd | hd
  · exact h.bounded d (by simp [hlist, hd])
  · rcases List.mem_cons.mp hd with rfl | hd
    · exact h.bounded e (by simp [hlist])
    · exact h.bounded d (by simp [hlist, hd])

/-- A part that does not count is marked as reported. -/
theorem Kept.marked {category : String} {e : InFlight} {entries : List InFlight}
    (h : c.Kept lost categories last)
    (hmark : Relay.markFirst category c.inFlight = some (e, entries))
    (hold : e.generation ≠ c.generation ∨ category ∉ c.outstanding) :
    { c with inFlight := entries }.Kept lost categories last := by
  obtain ⟨hascending, hbounded⟩ := h.ascending_marked hmark
  obtain ⟨before, after, hlist, rfl, -, -⟩ := Relay.markFirst_some hmark
  refine ⟨hascending, hbounded, fun hout => ?_, h.parts, h.awaited, h.patient⟩
  obtain ⟨newest, hnewest, hgen, hreported⟩ := h.current (e := e) (by simp [hlist]) hout
  rw [hlist] at hnewest
  refine .inl ?_
  cases after with
  | nil =>
    -- the check marked is the newest, so the part is not awaited
    obtain rfl : e = newest := by simpa using hnewest
    refine ⟨{ e with reported := e.reported ++ [category] }, by simp, hgen, fun k hk => ?_⟩
    rcases List.mem_append.mp hk with hk | hk
    · exact hreported k hk
    · rw [List.mem_singleton.mp hk]
      exact hold.resolve_left fun hne => hne hgen
  | cons d rest => exact ⟨newest, by simpa using hnewest, hgen, hreported⟩

/-- **A part counts only if its check is the newest.** No check is of a later
generation. -/
theorem Kept.mark_newest {category : String} {e : InFlight} {entries : List InFlight}
    (h : c.Kept lost categories last)
    (hmark : Relay.markFirst category c.inFlight = some (e, entries))
    (hcurrent : e.generation = c.generation) :
    ∃ earlier, c.inFlight = earlier ++ [e] ∧
      entries = earlier ++ [{ e with reported := e.reported ++ [category] }] := by
  obtain ⟨before, after, hlist, rfl, -, -⟩ := Relay.markFirst_some hmark
  cases after with
  | nil => exact ⟨before, hlist, rfl⟩
  | cons d rest =>
    -- a later check would be of a later generation than the current one
    have hlater : e.generation < d.generation :=
      ((List.pairwise_cons.mp (List.pairwise_append.mp (hlist ▸ h.ascending)).2.1).1 d
        List.mem_cons_self).2
    have hbound := (h.bounded d (by simp [hlist])).2
    omega

/-- **A part that counts**, with others awaited still. -/
theorem Kept.counted {category : String} {items : List Json} {e : InFlight}
    {entries : List InFlight} (h : c.Kept lost categories last)
    (hmark : Relay.markFirst category c.inFlight = some (e, entries))
    (hcurrent : e.generation = c.generation) (hawaited : category ∈ c.outstanding)
    (hleft : (c.counted category items entries).outstanding ≠ []) :
    (c.counted category items entries).Kept lost categories last where
  ascending := (h.ascending_marked hmark).1
  bounded := (h.ascending_marked hmark).2
  newest _ := by
    have hout : c.outstanding ≠ [] := List.ne_nil_of_mem hawaited
    obtain ⟨earlier, hlist, rfl⟩ := h.mark_newest hmark hcurrent
    obtain ⟨newest, hnewest, hgen, hreported⟩ := h.current (e := e) (by simp [hlist]) hout
    obtain rfl : e = newest := by simpa [hlist] using hnewest
    refine .inl ⟨{ e with reported := e.reported ++ [category] }, by simp [CheckState.counted],
      hgen, fun k hk => ?_⟩
    simp only [CheckState.counted, List.mem_filter, decide_eq_true_eq, not_and, not_not]
    intro hk'
    rcases List.mem_append.mp hk with hk | hk
    · exact absurd hk' (hreported k hk)
    · exact List.mem_singleton.mp hk
  parts _ := by
    -- the category moves from the parts awaited to those that are there
    have hout : c.outstanding ≠ [] := List.ne_nil_of_mem hawaited
    have hperm := h.parts hout
    have hnodup := hperm.nodup_iff.mpr (nodup_eraseDups categories)
    obtain ⟨hawaiteds, -, hdisjoint⟩ := List.nodup_append.mp hnodup
    have hnew : category ∉ Table.keys c.merged :=
      fun hmem => hdisjoint category hawaited category hmem rfl
    have hfilter : c.outstanding.filter (· ≠ category) = c.outstanding.erase category := by
      rw [hawaiteds.erase_eq_filter]
      exact List.filter_congr fun k _ => by by_cases hk : k = category <;> simp [hk]
    simp only [CheckState.counted, hfilter, Table.keys_put_of_not_mem hnew]
    refine List.Perm.trans ?_ hperm
    rw [← List.append_assoc]
    refine List.perm_append_comm.trans ?_
    exact (List.perm_cons_erase hawaited).symm.append_right _
  awaited _ _ := hleft
  patient := h.patient

end CheckState

/-! ## Relays -/

namespace Relay

/-- **What every step keeps**, also where the transport refuses commands. -/
structure Kept (r : Relay) : Prop where
  /-- Each document has one record. -/
  single : (Table.keys r.checks).Nodup
  /-- Sessions are kept under their URIs, and name the files of these. -/
  filed : ∀ uri s, r.session? uri = some s → s.uri = uri ∧ Uri.fileOf? uri = some s.file
  /-- Only open documents have records, and these are about their files. -/
  opened : ∀ uri c, r.check? uri = some c → ∃ s, r.session? uri = some s ∧ s.file = c.file
  /-- No check is lost as long as commands are taken. -/
  records : ∀ uri c, r.check? uri = some c →
    c.Kept (r.link.refusal? ≠ none) r.setup.categories r.link.last
  /-- Nothing is awaited over a closed connection. -/
  silent : r.link.closed ≠ none → ∀ uri c, r.check? uri = some c → c.outstanding = []

/-- **The invariant of error checks**, where nothing limits what the transport takes. -/
structure Sound (r : Relay) : Prop extends r.Kept where
  unlimited : r.link.limit = none

variable {r r' : Relay} {uri : String} {c c' : CheckState}

/-- Parts are awaited over an open connection alone. -/
theorem Kept.up (h : r.Kept) (hcheck : r.check? uri = some c) (hout : c.outstanding ≠ []) :
    r.link.closed = none := by
  by_contra hne
  exact hout (h.silent hne uri c hcheck)

/-- Commands are refused over a closed connection alone, where nothing limits what is taken. -/
theorem Sound.refusal?_eq (h : r.Sound) : r.link.refusal? = r.link.closed :=
  Link.refusal?_eq_closed h.unlimited

theorem Sound.taken (h : r.Sound) (hcheck : r.check? uri = some c) (hout : c.outstanding ≠ []) :
    r.link.refusal? = none :=
  h.refusal?_eq.trans (h.up hcheck hout)

/-- So no check is lost. -/
theorem Sound.states (h : r.Sound) (uri : String) (c : CheckState)
    (hcheck : r.check? uri = some c) : c.Sound r.setup.categories r.link.last :=
  { h.records uri c hcheck with
    newest := fun hout => ((h.records uri c hcheck).newest hout).imp_right fun hlost =>
      absurd (h.taken hcheck hout) hlost.1 }

theorem kept_new (setup : Setup) : (Relay.new setup).Kept where
  single := List.nodup_nil
  filed uri s h := by simp [Relay.new, session?] at h
  opened uri c h := by simp [Relay.new, check?] at h
  records uri c h := by simp [Relay.new, check?] at h
  silent h := absurd rfl h

theorem sound_new (setup : Setup) : (Relay.new setup).Sound := ⟨kept_new setup, rfl⟩

/-- Numbers that are given out, and whatever else is no document or check, do
not matter. -/
theorem Kept.of_same (h : r.Kept) (hsessions : r'.sessions = r.sessions)
    (hchecks : r'.checks = r.checks) (hsetup : r'.setup = r.setup)
    (hstanding : r'.link.standing = r.link.standing) (hlast : r.link.last ≤ r'.link.last) :
    r'.Kept where
  single := by rw [hchecks]; exact h.single
  filed uri s hs := h.filed uri s (by rwa [session?, hsessions] at hs)
  opened uri c hc := by
    rw [session?, hsessions]
    exact h.opened uri c (by rwa [check?, hchecks] at hc)
  records uri c hc := by
    rw [hsetup]
    exact ((h.records uri c (by rwa [check?, hchecks] at hc)).mono hlast).weaken
      (Link.refuses_still hstanding hlast)
  silent hne uri c hc := h.silent (by rwa [← Link.closed_of_standing hstanding]) uri c
    (by rwa [check?, hchecks] at hc)

theorem Kept.quiet (h : r.Kept) (hq : Quiet r r') : r'.Kept :=
  h.of_same hq.sessions hq.checks hq.setup hq.standing hq.last

/-- **One record may be set**, as long as it is sound and about the file of an
open document. -/
theorem Kept.update (h : r.Kept) (uri : String) (c' : CheckState)
    (hopen : ∃ s, r.session? uri = some s ∧ s.file = c'.file)
    (hchecks : r'.checks = Table.put uri c' r.checks) (hsessions : r'.sessions = r.sessions)
    (hsetup : r'.setup = r.setup) (hstanding : r'.link.standing = r.link.standing)
    (hlast : r.link.last ≤ r'.link.last)
    (hkept : c'.Kept (r'.link.refusal? ≠ none) r.setup.categories r'.link.last)
    (hover : r.link.closed ≠ none → c'.outstanding = []) : r'.Kept where
  single := by
    rw [hchecks]
    exact Table.nodup_keys_put h.single
  filed uri s hs := h.filed uri s (by rwa [session?, hsessions] at hs)
  opened u d hd := by
    rw [session?, hsessions]
    rcases check?_put_cases hchecks hd with ⟨rfl, rfl⟩ | ⟨-, hd⟩
    · exact hopen
    · exact h.opened u d hd
  records u d hd := by
    rw [hsetup]
    rcases check?_put_cases hchecks hd with ⟨-, rfl⟩ | ⟨-, hd⟩
    · exact hkept
    · exact ((h.records u d hd).mono hlast).weaken (Link.refuses_still hstanding hlast)
  silent hne u d hd := by
    rw [Link.closed_of_standing hstanding] at hne
    rcases check?_put_cases hchecks hd with ⟨-, rfl⟩ | ⟨-, hd⟩
    · exact hover hne
    · exact h.silent hne u d hd

/-- All records may change, as long as they are kept. -/
theorem Kept.mapChecks (h : r.Kept) {f : CheckState → CheckState}
    (hfile : ∀ c, (f c).file = c.file)
    (hkept : ∀ c, c.Kept (r.link.refusal? ≠ none) r.setup.categories r.link.last →
      (f c).Kept (r.link.refusal? ≠ none) r.setup.categories r.link.last)
    (hover : ∀ c, c.outstanding = [] → (f c).outstanding = []) : (r.mapChecks f).Kept where
  single := by
    have hkeys : Table.keys (r.mapChecks f).checks = Table.keys r.checks :=
      Table.keys_map f r.checks
    rw [hkeys]
    exact h.single
  filed := h.filed
  opened uri c hc := by
    obtain ⟨d, hd, rfl⟩ := Option.map_eq_some_iff.mp ((check?_mapChecks f r uri).symm.trans hc)
    rw [hfile]
    exact h.opened uri d hd
  records uri c hc := by
    obtain ⟨d, hd, rfl⟩ := Option.map_eq_some_iff.mp ((check?_mapChecks f r uri).symm.trans hc)
    exact hkept d (h.records uri d hd)
  silent hne uri c hc := by
    obtain ⟨d, hd, rfl⟩ := Option.map_eq_some_iff.mp ((check?_mapChecks f r uri).symm.trans hc)
    exact hover d (h.silent hne uri d hd)

/-! ## Every step keeps the invariant -/

theorem Kept.setSession (h : r.Kept) {s : Session} (hfile : Uri.fileOf? s.uri = some s.file) :
    (r.setSession s).Kept where
  single := h.single
  filed uri s' hs' := by
    rw [session?_setSession] at hs'
    split at hs'
    · rename_i heq
      cases hs'
      exact ⟨heq, heq ▸ hfile⟩
    · exact h.filed uri s' hs'
  opened uri c hc := by
    obtain ⟨s', hs', hc'⟩ := h.opened uri c hc
    rw [session?_setSession]
    split
    · rename_i heq
      refine ⟨s, rfl, ?_⟩
      have hsame : some s'.file = some s.file := by
        rw [← (h.filed uri s' hs').2, ← heq, hfile]
      rw [← hc', Option.some.inj hsame]
    · exact ⟨s', hs', hc'⟩
  records := h.records
  silent := h.silent

/-- Closing takes session and record away together. -/
theorem Kept.closed (h : r.Kept) (uri : String) :
    (forget uri { r with sessions := Table.erase uri r.sessions }).Kept := by
  -- the relay in between, without the session and with the record still
  obtain ⟨r₁, hr₁⟩ : ∃ r₁ : Relay, r₁ = { r with sessions := Table.erase uri r.sessions } :=
    ⟨_, rfl⟩
  have hsession : ∀ u, (r₁.forget uri).session? u = if uri = u then none else r.session? u := by
    intro u
    rw [(leaves_forget uri r₁).session?, hr₁]
    exact Table.get?_erase _ _ _
  have hcheck : ∀ u, (r₁.forget uri).check? u = if uri = u then none else r.check? u := by
    intro u
    rw [check?_forget, hr₁]
    rfl
  have hsetup : (r₁.forget uri).setup = r.setup := by rw [(leaves_forget uri r₁).setup, hr₁]
  have hlink : (r₁.forget uri).link = r.link := by rw [link_forget, hr₁]
  have hsingle : (Table.keys (r₁.forget uri).checks).Nodup := by
    have hchecks : r₁.checks = r.checks := by rw [hr₁]
    cases hnone : r₁.check? uri with
    | none =>
      rw [forget_of_none hnone, (quiet_disarm uri r₁).checks, hchecks]
      exact h.single
    | some c =>
      rw [forget_of_some hnone, hchecks]
      exact Table.nodup_keys_erase h.single
  rw [← hr₁]
  refine ⟨hsingle, fun u s hs => ?_, fun u c hc => ?_, fun u c hc => ?_, fun hne u c hc => ?_⟩
  · rw [hsession] at hs
    split at hs
    · simp at hs
    · exact h.filed u s hs
  · rw [hcheck] at hc
    rw [hsession]
    split at hc
    · simp at hc
    · rename_i hu
      rw [if_neg hu]
      exact h.opened u c hc
  · rw [hcheck] at hc
    rw [hsetup, hlink]
    split at hc
    · simp at hc
    · exact h.records u c hc
  · rw [hcheck] at hc
    rw [hlink] at hne
    split at hc
    · simp at hc
    · exact h.silent hne u c hc

/-- **The invariant is kept by every step of a relay's own accord.** -/
theorem kept_step {uris : List String} (hstep : Step uris r r') (h : r.Kept) : r'.Kept := by
  cases hstep with
  | quiet hq => exact h.quiet hq
  | opened hmem hfile => exact h.setSession hfile
  | edited hopen =>
    obtain ⟨huri, hfile⟩ := h.filed _ _ hopen
    exact h.setSession (by simpa only [huri] using hfile)
  | enrolled hopen hnone =>
    exact h.update _ (.new _) ⟨_, hopen, rfl⟩ rfl rfl rfl rfl (Nat.le_refl _)
      (CheckState.kept_new _ _ _) fun _ => rfl
  | @asked uri c hcheck htaken hwhy =>
    have hs := h.records _ _ hcheck
    exact h.update uri (c.asked _ _) (h.opened uri c hcheck) rfl rfl rfl rfl (Nat.le_succ _)
      (CheckState.kept_asked hs.ascending hs.bounded hs.patient (Nat.lt_succ_self _))
      fun hne => absurd (Link.closed_of_taken htaken) hne
  | @awaited uri c waiter hcheck hout =>
    refine h.update uri { c with waiters := c.waiters ++ [⟨waiter, false⟩] } (h.opened uri c hcheck)
      (Table.update_eq_put _ hcheck) rfl rfl rfl (Nat.le_refl _)
      ((h.records _ _ hcheck).withWaiters fun hcategories _ => hout.resolve_right hcategories)
      fun hne => h.silent hne uri c hcheck
  | withdrew =>
    -- a waiter that is taken out was there before, so parts were awaited
    refine h.mapChecks (fun _ => rfl) (fun c hc => hc.withWaiters fun hcategories hw => ?_)
      fun _ => id
    exact hc.awaited hcategories fun hnil => hw (by simp [hnil])
  | staled => exact h.mapChecks (fun _ => rfl) (fun c hc => hc.withFresh false) fun _ => id
  | @dropped uri c hcheck hout hwaiters =>
    exact h.update uri c.dropped (h.opened uri c hcheck) rfl rfl rfl rfl (Nat.le_refl _)
      ((h.records _ _ hcheck).dropped hwaiters) fun _ => rfl
  | closed => exact h.closed _
  | disconnected hup =>
    have hmap := h.mapChecks (f := CheckState.severed) (fun _ => rfl)
      (fun c hc => CheckState.kept_of_nothing_awaited hc.ascending hc.bounded rfl (fun _ => rfl)
        hc.patient)
      fun _ _ => rfl
    rw [disconnect_of_open hup]
    refine ⟨hmap.single, hmap.filed, hmap.opened, fun uri c hc => ?_, fun _ uri c hc => ?_⟩
    · exact (hmap.records uri c hc).weaken fun _ => by simp [Link.refusal?]
    · obtain ⟨d, -, rfl⟩ := Option.map_eq_some_iff.mp ((check?_mapChecks _ r uri).symm.trans hc)
      rfl

/-! ## News keep the invariant -/

/-- Settling a record without anything awaited keeps it. -/
theorem Kept.settle {r₀ : Relay} (h : r₀.Kept) (hq : Quiet r₀ r)
    (hopen : ∃ s, r₀.session? uri = some s ∧ s.file = c.file) (hascending : Ascending c.inFlight)
    (hbounded : ∀ e ∈ c.inFlight, e.seq ≤ r₀.link.last ∧ e.generation ≤ c.generation)
    (hout : c.outstanding = []) : (r.settle uri c).1.Kept := by
  obtain ⟨fresh, fx, hshape, -⟩ := settle_shape uri c r
  rw [hshape]
  have hr := h.quiet hq
  refine hr.update uri { c.ended with fresh } ?_ rfl rfl rfl rfl (Nat.le_refl _)
    (CheckState.Kept.ended hascending (fun e he => ?_) hout) fun _ => hout
  · obtain ⟨s, hs, hfile⟩ := hopen
    exact ⟨s, by rw [hq.session?, hs], hfile⟩
  · exact ⟨Nat.le_trans (hbounded e he).1 hq.last, (hbounded e he).2⟩

/-- Checks of closed documents have no part in the invariant. -/
theorem Kept.withAbandoned (h : r.Kept) (abandoned : List (String × List InFlight)) :
    { r with abandoned }.Kept :=
  ⟨h.single, h.filed, h.opened, h.records, h.silent⟩

/-- A check that is found in flight is one of its document's record. -/
theorem Kept.find (h : r.Kept) {seq : Int} {e : InFlight}
    (hfind : findInFlight? seq r.checks = some (uri, c, e)) :
    r.check? uri = some c ∧ e ∈ c.inFlight ∧ (e.seq : Int) = seq := by
  obtain ⟨hmem, he⟩ := findInFlight?_some hfind
  exact ⟨(Table.get?_eq_some_iff h.single).mpr hmem, he⟩

/-- **The invariant is kept by news of checks.** -/
theorem kept_heard {note : News} {failure : Option Failure} (hheard : Heard r note r' failure)
    (h : r.Kept) : r'.Kept := by
  cases hheard with
  | credited hmark => exact h.withAbandoned _
  | unawaited => exact h
  | @outdated file category items e entries uri c habandoned huri hcheck hmark hold =>
    exact h.update uri { c with inFlight := entries } (h.opened uri c hcheck) rfl rfl rfl rfl
      (Nat.le_refl _) ((h.records uri c hcheck).marked hmark hold)
      fun hne => h.silent hne uri c hcheck
  | @counted file category items e entries uri c habandoned huri hcheck hmark hcurrent hawaited
      hleft =>
    refine h.update uri (c.counted category items entries) (h.opened uri c hcheck) rfl rfl rfl rfl
      (Nat.le_refl _) ((h.records uri c hcheck).counted hmark hcurrent hawaited hleft) fun hne => ?_
    exact absurd (h.silent hne uri c hcheck) (List.ne_nil_of_mem hawaited)
  | @settled file category items e entries uri c habandoned huri hcheck hmark hcurrent hawaited
      hleft =>
    obtain ⟨hascending, hbounded⟩ := (h.records uri c hcheck).ascending_marked hmark
    exact h.settle (.refl r) (h.opened uri c hcheck) hascending hbounded hleft
  | retired hfind => exact h.withAbandoned _
  | @overtaken seq uri c e hfind hold =>
    obtain ⟨hcheck, he, rfl⟩ := h.find hfind
    have ha := h.withAbandoned (r.abandoned.filterMap (stillRunning e.seq))
    refine ha.update uri (c.after e.seq) (h.opened uri c hcheck) rfl rfl rfl rfl (Nat.le_refl _)
      ((h.records uri c hcheck).after he hold) fun hne => ?_
    exact h.silent hne uri c hcheck
  | @repeated seq uri c e text hfind hcurrent hawaited hpatient htaken =>
    obtain ⟨hcheck, he, rfl⟩ := h.find hfind
    have hs := h.records _ _ hcheck
    have ha := h.withAbandoned (r.abandoned.filterMap (stillRunning e.seq))
    exact ha.update uri ((c.again e.seq).asked r.setup.categories r.nextSeq) (h.opened uri c hcheck)
      (Table.put_put _ _ _ _) rfl rfl rfl (Nat.le_succ _)
      (CheckState.kept_asked (hs.ascending.filter _)
        (fun d hd => hs.bounded d (List.mem_of_mem_filter hd)) hpatient (Nat.lt_succ_self _))
      fun hne => absurd (Link.closed_of_taken htaken) hne
  | @severed seq uri c e text cause hfind hcurrent hawaited hpatient hrefused =>
    -- the check that completed was the newest, and it is lost
    obtain ⟨hcheck, he, rfl⟩ := h.find hfind
    have ha := h.withAbandoned (r.abandoned.filterMap (stillRunning e.seq))
    have hrefuses : r.link.refusal? ≠ none := by simp [hrefused]
    exact ha.update uri (c.again e.seq) (h.opened uri c hcheck) rfl rfl rfl rfl (Nat.le_succ _)
      (((h.records uri c hcheck).again he hcurrent hawaited hpatient hrefuses).mono
        (Nat.le_succ _) |>.weaken (Link.refuses_still rfl (Nat.le_succ _)))
      fun hne => h.silent hne uri c hcheck
  | @exhausted seq uri c e text hfind hcurrent hawaited hpatient =>
    obtain ⟨hcheck, -, -⟩ := h.find hfind
    have hs := h.records _ _ hcheck
    exact (h.withAbandoned (r.abandoned.filterMap (stillRunning seq))).settle
      (quiet_log _ _ _) (h.opened uri c hcheck) (hs.ascending.filter _)
      (fun d hd => hs.bounded d (List.mem_of_mem_filter hd)) rfl

/-- **What is kept by every step is kept by every move.** -/
theorem kept_perform (m : Move) (h : r.Kept) : (m.perform r).1.Kept := by
  cases hnews : m.news? with
  | none =>
    exact Steps.keep (fun _ _ => kept_step)
      (steps_perform hnews (fun _ => id) fun uri s hs => (h.filed uri s hs).1) h
  | some note =>
    exact (kept_heard (heard_hear note r) h).quiet (perform_of_news hnews r).1

/-! ## The setup and the limit stay -/

theorem setup_step {uris : List String} (hstep : Step uris r r') : r'.setup = r.setup := by
  cases hstep with
  | quiet hq => exact hq.setup
  | closed => exact (leaves_forget _ _).setup
  | disconnected hup => rw [disconnect_of_open hup]
  | _ => rfl

theorem setup_heard {note : News} {failure : Option Failure} (hheard : Heard r note r' failure) :
    r'.setup = r.setup := by
  cases hheard with
  | settled => exact (leaves_settle _ _ _).setup
  | exhausted => exact (leaves_settle _ _ _).setup
  | _ => rfl

/-- No step limits what the transport takes, or lifts a limit. -/
theorem limit_step {uris : List String} (hstep : Step uris r r') :
    r'.link.limit = r.link.limit := by
  cases hstep with
  | quiet hq => exact hq.limit
  | closed => rw [link_forget]
  | disconnected hup => rw [disconnect_of_open hup]
  | _ => rfl

theorem limit_heard {note : News} {failure : Option Failure} (hheard : Heard r note r' failure) :
    r'.link.limit = r.link.limit := by
  cases hheard with
  | settled => exact (leaves_settle _ _ _).limit
  | exhausted => exact (leaves_settle _ _ _).limit
  | _ => rfl

/-- No move limits what the transport takes, or lifts a limit. -/
theorem limit_perform (m : Move) (h : r.Kept) :
    (m.perform r).1.link.limit = r.link.limit := by
  cases hnews : m.news? with
  | none =>
    have hkey : ∀ uri s, r.session? uri = some s → s.uri = uri :=
      fun uri s hs => (h.filed uri s hs).1
    exact Steps.keep (P := fun r' => r'.link.limit = r.link.limit)
      (fun _ _ hstep hr => (limit_step hstep).trans hr) (steps_perform hnews (fun _ => id) hkey) rfl
  | some note => exact (perform_of_news hnews r).1.limit.trans (limit_heard (heard_hear note r))

/-- A move keeps what the relay was set up with. -/
theorem setup_perform (m : Move) (h : r.Kept) : (m.perform r).1.setup = r.setup := by
  cases hnews : m.news? with
  | none =>
    have hkey : ∀ uri s, r.session? uri = some s → s.uri = uri :=
      fun uri s hs => (h.filed uri s hs).1
    exact Steps.keep (P := fun r' => r'.setup = r.setup)
      (fun _ _ hstep hr => (setup_step hstep).trans hr) (steps_perform hnews (fun _ => id) hkey) rfl
  | some note => exact (perform_of_news hnews r).1.setup.trans (setup_heard (heard_hear note r))

/-! ## Runs without refused commands -/

theorem Sound.of_same (h : r.Sound) (hsessions : r'.sessions = r.sessions)
    (hchecks : r'.checks = r.checks) (hsetup : r'.setup = r.setup)
    (hstanding : r'.link.standing = r.link.standing) (hlast : r.link.last ≤ r'.link.last) :
    r'.Sound :=
  ⟨h.toKept.of_same hsessions hchecks hsetup hstanding hlast,
    (Link.limit_of_standing hstanding).trans h.unlimited⟩

/-- **The invariant is kept by every step of a relay's own accord.** -/
theorem sound_step {uris : List String} (hstep : Step uris r r') (h : r.Sound) : r'.Sound :=
  ⟨kept_step hstep h.toKept, (limit_step hstep).trans h.unlimited⟩

/-- **The invariant is kept by news of checks.** -/
theorem sound_heard {note : News} {failure : Option Failure} (hheard : Heard r note r' failure)
    (h : r.Sound) : r'.Sound :=
  ⟨kept_heard hheard h.toKept, (limit_heard hheard).trans h.unlimited⟩

/-- **The invariant is kept by every move.** -/
theorem sound_perform (m : Move) (h : r.Sound) : (m.perform r).1.Sound :=
  ⟨kept_perform m h.toKept, (limit_perform m h.toKept).trans h.unlimited⟩

/-- **The invariant holds after every run.** -/
theorem sound_run (setup : Setup) (moves : List Move) : (run moves (Relay.new setup)).Sound :=
  run_induction (sound_new setup) (fun _ m h => sound_perform m h) moves

/-- A relay keeps what it was set up with. -/
theorem setup_run (setup : Setup) (moves : List Move) :
    (run moves (Relay.new setup)).setup = setup :=
  (run_induction (P := fun r => r.Sound ∧ r.setup = setup) ⟨sound_new setup, rfl⟩
    (fun _ m h => ⟨sound_perform m h.1, (setup_perform m h.1.toKept).trans h.2⟩) moves).2

end Relay

end LanguageRelay
