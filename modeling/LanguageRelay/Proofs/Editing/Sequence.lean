import LanguageRelay.Proofs.Checks.Numbers
import LanguageRelay.Proofs.Editing.Tallies
import LanguageRelay.Proofs.Engine.Runs
/-!
# The discipline of numbers

A relay is used by all that an editor does, and by all that comes in, in any
order (`Deed`). What a deed writes may be refused: the transport fails, for a
cause of its own, though nothing has been closed yet. A *doing* is a deed over a
transport that takes all that is written, or the first commands only.

Over any run of doings commands are written in the order of their numbers, no
number serves twice, and the commands that await a response are those of the
calls that wait (`sequence_discipline`).
-/

namespace LanguageRelay

namespace Engine

/-- A deed over a transport that takes all it writes, or some commands and then none,
for a cause. -/
structure Doing where
  deed : Deed
  /-- How many commands are taken before one is refused, and why that is. -/
  refusal : Option (Nat × Closure)

/-- The transport takes whatever is written. -/
def unlimit (e : Engine) : Engine :=
  e.mapRelay 0 fun r => { r with link := { r.link with limit := none } }

/-- What a doing does. -/
def Doing.perform (d : Doing) (m : Moment) : Moment :=
  match d.refusal with
  | none => d.deed.perform m
  | some (room, cause) =>
    let m := d.deed.perform { m with engine := m.engine.mapRelay 0 (Relay.limit room cause) }
    { m with engine := m.engine.unlimit }

/-- Doings one after another. -/
def carryOut (doings : List Doing) (m : Moment) : Moment :=
  doings.foldl (fun m d => d.perform m) m

/-! ## Doings leave the list in tally -/

variable {b e : Engine} {m m' : Moment} {todo : List Job}

/-- A response takes one entry off the list, and its call is told. -/
theorem tally_resolve (h : Tally b none todo e) (response : Service.Response) :
    Tally b none todo (e.takeIn ((e.relay 0).resolve response)) := by
  rcases Relay.resolve_cases response (e.relay 0) with heq | ⟨p, hp, fx, heq, hfx⟩
  · rw [heq]
    exact h.discreet (Relay.discreet_log _ _ _)
  · refine h.takeIn (Relay.quiet_resolve response (e.relay 0)).numbers ?_ fun q hq hopen => ?_
    · rw [heq]
      exact List.filter_sublist
    · rw [heq]
      by_cases hne : q.seq = p.seq
      · obtain rfl : q = p := List.inj_on_of_nodup_map h.distinct hq hp hne
        rcases hfx with ⟨hsettled, -⟩ | ⟨-, rfl⟩
        · rw [hsettled] at hopen
          cases hopen
        · exact .inr ⟨_, List.mem_append_right _ (List.mem_singleton_self _)⟩
      · exact .inl (List.mem_filter.mpr ⟨hq, by simpa using hne⟩)

/-- The closing of the connection takes all off the list, and tells all. -/
theorem tally_disconnect (h : Tally b none todo e) (cause : Closure) :
    Tally b none todo (e.takeIn ((e.relay 0).disconnect cause)) := by
  cases hup : (e.relay 0).link.closed with
  | some first =>
    rw [Relay.disconnect_of_closed (by simp [hup])]
    exact h.discreet (.refl _)
  | none =>
    have hstep : Relay.Step [] (e.relay 0) ((e.relay 0).disconnect cause) := .disconnected hup
    refine h.takeIn (Relay.numbersOn_step hstep) ?_ fun p hp hopen => .inr ⟨.error (.closed cause), ?_⟩
    · rw [Relay.disconnect_of_open hup]
      exact List.nil_sublist _
    · rw [Relay.outbox_disconnect hup h.collected]
      exact Relay.answered_mem_closing.mpr ⟨⟨p, hp, rfl, hopen⟩, rfl⟩

/-- **Every deed leaves the list in tally.** -/
theorem tally_perform (h : Tally b none m.todo m.engine) (d : Deed) :
    Tally b none (d.perform m).todo (d.perform m).engine := by
  cases d with
  | opened uri languageId version text =>
    simp only [Deed.perform, operate_eq]
    exact h.discreet (Relay.discreet_didOpen uri languageId version text _)
  | changed uri version changes => exact h.discreet (Relay.discreet_didChange uri version changes _)
  | closed uri => exact h.discreet (Relay.discreet_didClose uri _)
  | ended => exact h.discreet (Relay.discreet_shutdown _)
  | scheduled uri => exact h.discreet (Relay.discreet_schedule uri _)
  | query name q => exact h.spawn trivial rfl
  | check name uri => exact h.spawn trivial rfl
  | checkAll name => exact h.spawn trivial rfl
  | plain a =>
    cases a with
    | request name command arguments window => exact h.spawn trivial rfl
    | notify name arguments => exact h.discreet (Relay.discreet_notify name arguments _)
    | receive message =>
      change Tally b none m.todo (m.engine.takeIn ((m.engine.relay 0).receive message).1)
      rcases Relay.receive_cases message (m.engine.relay 0) with ⟨response, -, heq⟩ | hmessage
      · rw [heq]
        exact tally_resolve h response
      · exact h.discreet (Relay.discreet_receive _ hmessage)
    | close cause => exact tally_disconnect h cause
    | cancel id => exact tally_cancel h id
    | pass time => exact h.timed _ h.jobs h.timers h.attended
    | turn =>
      obtain ⟨todo, e⟩ := m
      cases todo with
      | cons job rest => exact h
      | nil =>
        -- the jobs of the turn are those in line, and those whose time has come
        refine h.timed _ (fun job hjob => ?_) (fun t ht => h.timers t (List.mem_of_mem_filter ht))
          fun x hx hout => (h.attended x hx hout).mono (fun job hjob _ => ?_) fun t ht _ => ?_
        · rw [List.append_nil] at hjob
          rcases mem_collectDue hjob with hjob | ⟨t, ht, rfl⟩
          · exact h.jobs job hjob
          · exact h.timers t ht
        · rw [List.append_nil]
          exact List.mem_append_left _ hjob
        · by_cases hdue : t.due ≤ e.agenda.now
          · refine .inr (List.mem_append_left _ (List.mem_append_right _ (List.mem_map_of_mem ?_)))
            exact (List.mergeSort_perm _ _).mem_iff.mpr
              (List.mem_filter.mpr ⟨ht, by simpa using hdue⟩)
          · exact .inl (List.mem_filter.mpr ⟨ht, by simpa using hdue⟩)
    | job =>
      obtain ⟨todo, e⟩ := m
      cases todo with
      | nil => exact h
      | cons job rest => exact tally_dispatch h

/-- What the transport takes does not matter to the list. -/
theorem tally_mapLink (h : Tally b none todo e) {f : Link → Link}
    (hlast : ∀ link, (f link).last = link.last)
    (hpending : ∀ link, (f link).pending = link.pending) :
    Tally b none todo (e.mapRelay 0 fun r => { r with link := f r.link }) := by
  generalize he' : (e.mapRelay 0 fun r => { r with link := f r.link }) = e'
  have hrelay : e'.relay 0 = { e.relay 0 with link := f (e.relay 0).link } :=
    he' ▸ relay_setRelay h.alone _
  have hlast' : (e'.relay 0).link.last = (e.relay 0).link.last := by rw [hrelay]; exact hlast _
  have hpending' : (e'.relay 0).link.pending = (e.relay 0).link.pending := by
    rw [hrelay]
    exact hpending _
  have hstride : Stride e e' := .of_same ⟨hlast', hpending'⟩ (he' ▸ rfl) (he' ▸ rfl)
  subst he'
  refine ⟨h.stride.trans hstride, ?_, by rw [hrelay]; exact h.collected,
    h.apart, h.made, h.jobs, h.timers, ?_, ?_, ?_, ?_, ?_, h.attended⟩
  · exact congrArg List.length (relays_setRelay h.alone _)
  · rw [hpending']
    exact h.distinct
  · rw [hpending', hlast']
    exact h.bounded
  · rw [hlast']
    exact h.regular
  · rw [hpending']
    exact h.housed
  · rw [hpending']
    exact h.listed

/-- So a deed leaves it in tally also where part of what it writes is refused. -/
theorem tally_doing (h : Tally b none m.todo m.engine) (d : Doing) :
    Tally b none (d.perform m).todo (d.perform m).engine := by
  obtain ⟨deed, refusal⟩ := d
  cases refusal with
  | none => exact tally_perform h deed
  | some refusal =>
    obtain ⟨room, cause⟩ := refusal
    have hlimited : Tally b none m.todo (m.engine.mapRelay 0 (Relay.limit room cause)) :=
      tally_mapLink h (f := fun link =>
        { link with limit := link.limit.or (some ⟨link.last + room, cause⟩) })
        (fun _ => rfl) fun _ => rfl
    exact tally_mapLink (f := fun link => { link with limit := none })
      (tally_perform (m := { m with engine := m.engine.mapRelay 0 (Relay.limit room cause) })
        hlimited deed) (fun _ => rfl) fun _ => rfl

theorem tally_doings (doings : List Doing) (h : Tally b none m.todo m.engine) :
    Tally b none (carryOut doings m).todo (carryOut doings m).engine := by
  induction doings generalizing m with
  | nil => exact h
  | cons d rest ih => exact ih (tally_doing h d)

theorem tally_new (setup : Setup) :
    Tally (Moment.new setup).engine none (Moment.new setup).todo (Moment.new setup).engine where
  stride := .refl _
  alone := rfl
  collected := rfl
  apart := ⟨List.nodup_nil, by simp [Moment.new, withRelay, Engine.new]⟩
  made := by simp [Moment.new, withRelay, Engine.new]
  jobs := by simp [Moment.new, withRelay, Engine.new, Agenda.empty]
  timers := by simp [Moment.new, withRelay, Engine.new, Agenda.empty]
  distinct := List.nodup_nil
  bounded := by simp [Moment.new, withRelay, Engine.relay, Relay.new]
  regular := by simp [Moment.new, withRelay, Engine.new]
  housed := by simp [Moment.new, withRelay, Engine.relay, Relay.new]
  listed := by simp [Moment.new, withRelay, Engine.new]
  attended := by simp [Moment.new, withRelay, Engine.new]

/-- What tallies, does so since itself. -/
theorem Tally.rebase {out : Option Nat} (h : Tally b out todo e) : Tally e out todo e :=
  { h with stride := .refl e }

/-! ## Rest -/

/-- The entries of the calls that wait for a command. -/
def awaiting (e : Engine) : List Pending := e.calls.filterMap fun x => x.2.listing?

/-- A call that waits for a command, and for which there is no job, has heard
nothing. -/
theorem want?_of_rest {id last : Nat} {c : Call} {p : Pending} {timers : List (Timer Job)}
    (hregular : c.Regular last) (hattended : c.Attended id [] timers) (hentry : c.listing? = some p) :
    c.want? = some (.response p.seq p.command) ∧ p.settled = false := by
  obtain ⟨role, stage, cancelled⟩ := c
  cases stage with
  | asking i seq ask watch outcome next =>
    cases hentry
    obtain rfl : i = 0 := hregular.stage.1
    have hnone : outcome = none := by
      change watch.Attended id seq [] timers outcome cancelled at hattended
      cases outcome with
      | none => rfl
      | some o =>
        cases watch with
        | unbounded => cases hattended (.inl rfl)
        | windowed signal =>
          cases signal with
          | pending => cases hattended.2
          | raised => cases hattended
          | cancelled => cases hattended
        | ending why => rcases hattended with hattended | hattended <;> cases hattended
    subst hnone
    exact ⟨rfl, rfl⟩
  | _ => cases hentry

/-- No two calls have the same entry. -/
theorem nodup_awaiting (happart : Apart e.calls) : e.awaiting.Nodup := by
  refine List.pairwise_filterMap.mpr ?_
  have hkeys : e.calls.Pairwise fun x y => x.1 ≠ y.1 := List.pairwise_map.mp happart.single
  refine hkeys.imp_of_mem fun hx hy hne p hp q hq heq => hne ?_
  subst heq
  exact happart.distinct _ hx _ hy p.seq (Call.seq?_of_listing? hp) (Call.seq?_of_listing? hq)

/-- **At rest the list holds the entries of the calls that wait.** -/
theorem Tally.perm_awaiting (h : Tally b none [] e) (hrest : e.agenda.ready = []) :
    (e.relay 0).link.pending.Perm e.awaiting := by
  have hattended : ∀ x ∈ e.calls, x.2.Attended x.1 [] e.agenda.timers := by
    intro x hx
    simpa [hrest] using h.attended x hx (by simp)
  have hnodup : (e.relay 0).link.pending.Nodup := .of_map _ h.distinct
  refine (List.perm_ext_iff_of_nodup hnodup (nodup_awaiting h.apart)).mpr fun p => ?_
  rw [awaiting, List.mem_filterMap]
  constructor
  · intro hp
    obtain ⟨x, hx, -, hentry⟩ := h.housed p hp
    refine ⟨x, hx, hentry.trans (congrArg some ?_)⟩
    -- the entry of the call is on the list as it is, and each number is there once
    obtain ⟨hwant, -⟩ := want?_of_rest (h.regular x hx) (hattended x hx) hentry
    exact List.inj_on_of_nodup_map h.distinct (h.listed x hx (by simp) _ _ hwant) hp rfl
  · rintro ⟨x, hx, hentry⟩
    obtain ⟨hwant, hopen⟩ := want?_of_rest (h.regular x hx) (hattended x hx) hentry
    obtain ⟨seq, command, settled⟩ := p
    cases hopen
    exact h.listed x hx (by simp) _ _ hwant

/-! ## The discipline -/

/-- **The numbers are in order**, at a moment. -/
structure Moment.Numbered (m : Moment) : Prop where
  /-- Commands were written in the order of their numbers, and none twice. -/
  ascending : (recorded m.engine.record).Pairwise (· < ·)
  /-- These were given out. -/
  given : ∀ k ∈ recorded m.engine.record, 0 < k ∧ k ≤ m.connection.last
  /-- A command that is to be listed never finds its number taken, whether it is
  written or refused, and though the call that writes it has just taken another
  off the list. -/
  free : ∀ r : Relay, r.link.last = m.connection.last →
    r.link.pending.Sublist m.connection.pending →
    ∀ name arguments text, (r.ask name arguments).2 ≠ .error (.unreachable text)
  /-- Each number is listed once, and was given out. -/
  distinct : (m.connection.pending.map Pending.seq).Nodup
  bounded : ∀ p ∈ m.connection.pending, p.seq ≤ m.connection.last
  /-- Each entry is that of a call which waits for that command still. -/
  owned : ∀ p ∈ m.connection.pending, ∃ x ∈ m.engine.calls, x.2.listing? = some p.bare
  /-- When nothing can run, the list holds the entry of every call that waits for
  a command, as it was made, and no other. -/
  rest : m.jobs = [] → m.connection.pending.Perm m.engine.awaiting

/-- **The numbers have gone on** from one moment to another. -/
structure Moment.Onward (m m' : Moment) : Prop where
  last : m.connection.last ≤ m'.connection.last
  /-- What was written since comes after what was written before, under numbers
  that had not been given out, be it for a command that failed. -/
  written : ∃ fx, m'.engine.record = m.engine.record ++ fx ∧
    ∀ k ∈ recorded fx, (m.connection.last : Int) < k
  /-- A call that waited for a command and does not any more leaves no entry,
  however it came to its end. -/
  ended : ∀ x ∈ m.engine.calls, ∀ seq, x.2.seq? = some seq →
    (∀ y ∈ m'.engine.calls, y.1 = x.1 → y.2.seq? ≠ some seq) →
    ∀ p ∈ m'.connection.pending, p.seq ≠ seq
  /-- An entry that is gone does not come back. -/
  gone : ∀ seq ≤ m.connection.last, (∀ p ∈ m.connection.pending, p.seq ≠ seq) →
    ∀ p ∈ m'.connection.pending, p.seq ≠ seq

/-- A number above all that are listed is free. -/
theorem ask_reachable {r : Relay} (h : ∀ p ∈ r.link.pending, p.seq ≤ r.link.last) (name : String)
    (arguments : Json) (text : String) : (r.ask name arguments).2 ≠ .error (.unreachable text) := by
  cases hrefusal : r.link.refusal? with
  | some cause =>
    rw [Relay.ask_of_refused h hrefusal]
    simp
  | none =>
    rw [Relay.ask_of_taken h hrefusal]
    simp

theorem numbered_of_tally (setup : Setup)
    (h : Tally (Moment.new setup).engine none m.todo m.engine) : m.Numbered := by
  obtain ⟨fx, hfx, hascending, hgiven⟩ := h.stride.written
  have hrecord : m.engine.record = fx := by simpa [Moment.new, withRelay, Engine.new] using hfx
  refine ⟨by rw [hrecord]; exact hascending, by rw [hrecord]; exact hgiven,
    fun r hlast hsub => ask_reachable fun p hp => ?_, h.distinct, h.bounded, fun p hp => ?_,
    fun hrest => ?_⟩
  · rw [hlast]
    exact h.bounded p (hsub.subset hp)
  · obtain ⟨x, hx, -, hentry⟩ := h.housed p hp
    exact ⟨x, hx, hentry⟩
  · obtain ⟨htodo, hready⟩ := List.append_eq_nil_iff.mp hrest
    rw [htodo] at h
    exact h.perm_awaiting hready

theorem onward_of_tally (h : Tally m.engine none m.todo m.engine)
    (h' : Tally m.engine none m'.todo m'.engine) : m.Onward m' := by
  obtain ⟨fx, hfx, -, hgiven⟩ := h'.stride.written
  refine ⟨h'.stride.last, ⟨fx, hfx, fun k hk => (hgiven k hk).1⟩, fun x hx seq hseq hleft p hp heq => ?_,
    fun seq hle hnone p hp heq => ?_⟩
  · -- the entry is of a call that had the number before, and that is no other call
    obtain ⟨y, hy, -, hentry⟩ := h'.housed p hp
    have hyseq : y.2.seq? = some seq := by simpa [heq] using Call.seq?_of_listing? hentry
    obtain ⟨z, hz, hzy, hzseq⟩ := h'.stride.owners y hy seq hyseq ((h.regular x hx).seq_le hseq)
    exact hleft y hy (hzy.symm.trans (h.apart.distinct z hz x hx seq hzseq hseq)) hyseq
  · obtain ⟨q, hq, hbare⟩ := h'.stride.listed p hp (heq ▸ hle)
    exact hnone q hq (by simpa [heq] using congrArg Pending.seq hbare)

/-- **Sequence discipline.** Over any run, writes that are refused among its
doings, the numbers are in order at every moment, and go on from each moment to
every later one. -/
theorem sequence_discipline (setup : Setup) (doings more : List Doing) :
    (carryOut doings (.new setup)).Numbered ∧
      (carryOut doings (.new setup)).Onward (carryOut more (carryOut doings (.new setup))) := by
  have hkept := tally_doings doings (tally_new setup)
  exact ⟨numbered_of_tally setup hkept, onward_of_tally hkept.rebase (tally_doings more hkept.rebase)⟩

/-- A document is opened, and changed twice at once. The first change is told and the
second is refused, and so is the command of a request. -/
def refusedBetween : List Doing :=
  [⟨.opened "file:///a.ts" "typescript" 1 "x", none⟩,
    ⟨.changed "file:///a.ts" 2 [⟨none, "y"⟩, ⟨none, "z"⟩], some (1, .inputClosed)⟩,
    ⟨.plain (.request "refused" "status" .null none), none⟩, ⟨.plain .turn, none⟩,
    ⟨.plain .job, some (0, .inputClosed)⟩]

/-- Another request is made, and its command is written. -/
def writtenAfter : List Doing :=
  [⟨.plain (.request "written" "status" .null none), none⟩, ⟨.plain .turn, none⟩,
    ⟨.plain .job, none⟩]

/-- Commands that are refused use up their numbers, one between two of a deed as well,
and none is listed. -/
theorem sequence_discipline_refusedBetween :
    (recorded (carryOut refusedBetween (.new Relay.syntaxOnly)).engine.record = [1, 2] ∧
      (carryOut refusedBetween (.new Relay.syntaxOnly)).connection.last = 4 ∧
      (carryOut refusedBetween (.new Relay.syntaxOnly)).connection.pending = []) ∧
    (recorded (carryOut writtenAfter
        (carryOut refusedBetween (.new Relay.syntaxOnly))).engine.record = [1, 2, 5] ∧
      (carryOut writtenAfter (carryOut refusedBetween
        (.new Relay.syntaxOnly))).connection.pending = [⟨5, "status", false⟩]) ∧
    (carryOut refusedBetween (.new Relay.syntaxOnly)).Numbered ∧
      (carryOut refusedBetween (.new Relay.syntaxOnly)).Onward
        (carryOut writtenAfter (carryOut refusedBetween (.new Relay.syntaxOnly))) :=
  ⟨by decide +kernel, by decide +kernel,
    sequence_discipline Relay.syntaxOnly refusedBetween writtenAfter⟩

end Engine

end LanguageRelay
