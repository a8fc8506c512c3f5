import LanguageRelay.Proofs.Editing.Queries
import LanguageRelay.Proofs.Editor.Ordering
/-!
# Formatting a document

A document is formatted by two commands. The first sets the options, and when the
analysis server has answered it, the second has the whole text formatted. Which
range is the whole text is fixed with the first: the call keeps the text as it was
when the options were set (`Formatting.Sets`), and does not look again.

So **the second command covers the text that was tracked when the options were
set** (`formatting_covers`). If the document was left alone in between, that is the
text that is tracked when it is written. If it was changed, the command covers the
current text only if both texts end at the same place, which need not be
(`formatting_behind_change`).

The call ends with the edits of the answer to its own second command, in order
(`TextEdit.Given`), or it fails.
-/

namespace LanguageRelay

namespace TextEdit

variable {items : List Json} {edits es : List TextEdit} {body : Json}

/-- **The edits are those of an answer**: each item that is an object gives one, and
they are put in order. -/
def Given (body : Json) (es : List TextEdit) : Prop :=
  ∃ edits, List.Forall₂ (fun item e => ofJson item = .ok e)
    (body.items.filter fun item => item.fields?.isSome) edits ∧ InOrder edits es

theorem forall₂_of_ofItems (h : ofItems items = .ok edits) :
    List.Forall₂ (fun item e => ofJson item = .ok e)
      (items.filter fun item => item.fields?.isSome) edits := by
  induction items generalizing edits with
  | nil =>
    cases h
    exact .nil
  | cons item rest ih =>
    cases item with
    | obj fields =>
      obtain ⟨first, hfirst, h⟩ := bind_eq_ok.mp h
      obtain ⟨later, hlater, h⟩ := bind_eq_ok.mp h
      cases h
      exact .cons hfirst (ih hlater)
    | _ => exact ih h

/-- **The edits that are read from an answer are its edits**, in order. -/
theorem given_of_ofBody (h : ofBody body = .ok es) : Given body es := by
  obtain ⟨edits, hitems, hsort⟩ := bind_eq_ok.mp h
  obtain ⟨rfl, hapart⟩ := sort_eq_ok_iff.mp hsort
  exact ⟨edits, forall₂_of_ofItems hitems, (sort_of_apart hapart).2⟩

end TextEdit

/-- The options for formatting a document as it is. -/
def Session.options (tabSize : Int) (insertSpaces : Bool) (s : Session) : Json :=
  .obj [("file", .str s.file), ("formatOptions", Query.formatOptions tabSize insertSpaces s.text)]

/-- The whole of a document as it is, from its start to its end. -/
def Session.whole (s : Session) : Json := (After.formatAll none s.file s.text).arguments

/-- Of two texts of one file each is the whole if they end at the same place. -/
theorem Session.whole_eq_iff {s s' : Session} (hfile : s'.file = s.file) :
    s'.whole = s.whole ↔ documentEnd s'.text = documentEnd s.text := by
  have hposition : ∀ p q : Position, p = q ↔ p.line = q.line ∧ p.character = q.character := by
    rintro ⟨line, character⟩ ⟨line', character'⟩
    simp
  rw [hposition]
  simp only [whole, After.formatAll, hfile, Json.obj.injEq, List.cons.injEq, Prod.mk.injEq,
    Json.int.injEq, true_and, and_true]
  omega

namespace Engine

variable {t : Terms} {m : Moment} {e e' : Engine} {r : Relay} {c c' : Call}

/-- The command was written since. -/
def Wrote (e e' : Engine) (command : Service.Command) : Prop :=
  ∃ cs, e'.written = e.written ++ cs ∧ command ∈ cs

/-- A call that formats a document: its number, what its client calls it, and what is
to be formatted in which way. -/
structure Formatting where
  id : Nat
  name : String
  uri : String
  tabSize : Int
  insertSpaces : Bool

/-- After the first of the deeds, the next has the command written and leaves the
documents as they are. -/
def WrittenAfter (m : Moment) (deeds first : List Deed) (command : Service.Command) : Prop :=
  ∃ d, first ++ [d] <+: deeds ∧
    Wrote (work first m).engine (work (first ++ [d]) m).engine command ∧
    ((work (first ++ [d]) m).engine.relay 0).sessions = ((work first m).engine.relay 0).sessions

theorem WrittenAfter.mono {deeds deeds' first : List Deed} {command : Service.Command}
    (h : WrittenAfter m deeds first command) (hmore : deeds <+: deeds') :
    WrittenAfter m deeds' first command := by
  obtain ⟨d, hfirst, hwritten⟩ := h
  exact ⟨d, hfirst.trans hmore, hwritten⟩

namespace Formatting

/-- The query that is put. -/
def query (f : Formatting) : Query := .formatting f.uri f.tabSize f.insertSpaces

/-- After the first of the deeds the document is open, and the next has the options set
for it as it is. -/
structure Sets (f : Formatting) (m : Moment) (deeds first : List Deed) (s : Session) : Prop where
  opened : ((work first m).engine.relay 0).session? f.uri = some s
  written : ∃ seq, WrittenAfter m deeds first
    ⟨seq, Service.configureName, s.options f.tabSize f.insertSpaces⟩

/-- **After some of the deeds the next has the document formatted**, by the command with
the number: from start to end as it was when the options were set. -/
structure Covers (f : Formatting) (m : Moment) (deeds first past : List Deed) (s : Session)
    (seq : Nat) : Prop where
  sets : f.Sets m deeds first s
  later : first <+: past
  written : WrittenAfter m deeds past ⟨seq, Service.formatName, s.whole⟩

/-- How far the call has come while it runs. -/
inductive Runs (f : Formatting) (m : Moment) (deeds : List Deed) : Call → Prop
  | begins {cancelled} :
      Runs f m deeds ⟨.client f.name, .created (.query 0 f.query), cancelled⟩
  /-- The options are being set. -/
  | sets {first s seq ask watch outcome cancelled} (hsets : f.Sets m deeds first s) :
      Runs f m deeds ⟨.client f.name,
        .asking 0 seq ask watch outcome (.answer (.formatOptions s.file s.text)), cancelled⟩
  /-- The document is being formatted. -/
  | formats {first past s seq ask watch outcome cancelled}
      (hcovers : f.Covers m deeds first past s seq)
      (hheard : ∀ body, outcome = some (.ok body) → Heard deeds seq body) :
      Runs f m deeds ⟨.client f.name,
        .asking 0 seq ask watch outcome (.answer .formatting), cancelled⟩

/-- How the call may have ended: with a failure, or with the edits of the answer to its
second command. -/
inductive Results (f : Formatting) (m : Moment) (deeds : List Deed) :
    Except Failure Answer → Prop
  | failed (failure : Failure) : Results f m deeds (.error failure)
  | edits {first past s seq body es} (hcovers : f.Covers m deeds first past s seq)
      (hheard : Heard deeds seq body) (hgiven : TextEdit.Given body es) :
      Results f m deeds (.ok (.edits es))

/-- **How a formatting stands**: the call runs, or its client was told how it ended. -/
def Stands (f : Formatting) (m : Moment) (deeds : List Deed) (e : Engine) : Prop :=
  (∃ c, e.call? f.id = some c ∧ f.Runs m deeds c) ∨
    ∃ outcome, (f.name, outcome) ∈ e.ended ∧ f.Results m deeds outcome

variable {f : Formatting} {deeds deeds' first past : List Deed} {s : Session} {seq : Nat}

/-! ### More deeds -/

theorem Sets.mono (h : f.Sets m deeds first s) (hmore : deeds <+: deeds') :
    f.Sets m deeds' first s := by
  obtain ⟨seq, hwritten⟩ := h.written
  exact ⟨h.opened, seq, hwritten.mono hmore⟩

theorem Covers.mono (h : f.Covers m deeds first past s seq) (hmore : deeds <+: deeds') :
    f.Covers m deeds' first past s seq :=
  ⟨h.sets.mono hmore, h.later, h.written.mono hmore⟩

/-- What was known of the past of a formatting is known later. -/
theorem Stands.mono (h : f.Stands m deeds e) (hmore : deeds <+: deeds') :
    f.Stands m deeds' e := by
  rcases h with ⟨c, hcall, hruns⟩ | ⟨outcome, hended, hresults⟩
  · refine .inl ⟨c, hcall, ?_⟩
    cases hruns with
    | begins => exact .begins
    | sets hsets => exact .sets (hsets.mono hmore)
    | formats hcovers hheard =>
      exact .formats (hcovers.mono hmore) fun body hbody => (hheard body hbody).mono hmore.subset
  · refine .inr ⟨outcome, hended, ?_⟩
    cases hresults with
    | failed failure => exact .failed failure
    | edits hcovers hheard hgiven =>
      exact .edits (hcovers.mono hmore) (hheard.mono hmore.subset) hgiven

/-! ### The call runs on -/

theorem Runs.not_isCheck (h : f.Runs m deeds c) : ¬ c.IsCheck := by
  cases h <;> exact fun hfalse => hfalse

theorem Runs.persists (h : f.Runs m deeds c) (hpersists : c.Persists c') : f.Runs m deeds c' := by
  cases hpersists with
  | stage cancelled =>
    cases h with
    | begins => exact .begins
    | sets hsets => exact .sets hsets
    | formats hcovers hheard => exact .formats hcovers hheard
  | asking watch' outcome' cancelled hstage hbefore =>
    cases h with
    | begins => cases hstage
    | sets hsets =>
      cases hstage
      exact .sets hsets
    | formats hcovers hheard =>
      cases hstage
      exact .formats hcovers fun body hbody => hheard body (hbefore body hbody)

/-- A command that the call writes sets the options for the document as it is, or has it
formatted as it was then. -/
theorem Runs.asks (h : f.Runs m deeds c) {a : Ask} {watch : Watch}
    {outcome : Option (Except Failure Json)} (hsource : Source e c a)
    (hunheard : ∀ body, outcome ≠ some (.ok body))
    (hset : ∀ s, (e.relay 0).session? f.uri = some s → a.command = Service.configureName →
      a.arguments = s.options f.tabSize f.insertSpaces → ∃ first, f.Sets m deeds first s)
    (hcover : ∀ first s, f.Sets m deeds first s → a.command = Service.formatName →
      a.arguments = s.whole → ∃ past, f.Covers m deeds first past s seq) :
    f.Runs m deeds ⟨c.role, .asking 0 seq a watch outcome (.answer a.after), false⟩ := by
  cases h with
  | begins =>
    cases hsource with
    | first q hstage hq =>
      cases hstage
      obtain ⟨s, hrequire, hask⟩ := bind_eq_ok.mp hq
      cases hask
      obtain ⟨first, hsets⟩ := hset s (require_eq_ok.mp hrequire) rfl rfl
      exact .sets hsets
    | next file text hstage => cases hstage
  | sets hsets =>
    cases hsource with
    | first q hstage => cases hstage
    | next file text hstage ha =>
      cases hstage
      subst ha
      obtain ⟨past, hcovers⟩ := hcover _ _ hsets rfl rfl
      exact .formats hcovers fun body hbody => absurd hbody (hunheard body)
  | formats =>
    cases hsource with
    | first q hstage => cases hstage
    | next file text hstage => cases hstage

/-- **How the call ends.** -/
theorem Runs.results (h : f.Runs m deeds c) {outcome : Except Failure Answer}
    (hends : Ends e c outcome) : f.Results m deeds outcome := by
  cases hends with
  | failed failure heq => exact heq ▸ .failed failure
  | done heq hcheck => exact absurd hcheck h.not_isCheck
  | @answered _ _ _ told o after hstage htold hproceed =>
    cases h with
    | begins => cases hstage
    | sets hsets =>
      cases hstage
      cases o with
      | error failure => exact Progress.finished.inj hproceed ▸ .failed failure
      | ok body => cases hproceed
    | formats hcovers hheard =>
      cases hstage
      cases o with
      | error failure => exact Progress.finished.inj hproceed ▸ .failed failure
      | ok body =>
        obtain rfl : .ok body = told := htold.resolve_right (by simp)
        have houtcome := Progress.finished.inj hproceed
        cases hedits : TextEdit.ofBody body with
        | error failure =>
          rw [hedits] at houtcome
          exact houtcome ▸ .failed failure
        | ok es =>
          rw [hedits] at houtcome
          exact houtcome ▸ .edits hcovers (hheard body rfl) (TextEdit.given_of_ofBody hedits)

/-! ### The engine runs on -/

/-- **A shift leaves a formatting standing.** What the call writes is known from then
on. -/
theorem Stands.shift (hstands : f.Stands m deeds e) (hshift : Shift t e e') (h : e.Orderly)
    (hset : ∀ s seq, (e.relay 0).session? f.uri = some s → e'.written = e.written ++
      [⟨seq, Service.configureName, s.options f.tabSize f.insertSpaces⟩] →
        ∃ first, f.Sets m deeds first s)
    (hcover : ∀ first s (seq : Nat), f.Sets m deeds first s → e'.written = e.written ++
      [⟨seq, Service.formatName, s.whole⟩] → ∃ past, f.Covers m deeds first past s seq) :
    f.Stands m deeds e' := by
  rcases hstands with ⟨c, hcall, hruns⟩ | ⟨outcome, hended, hresults⟩
  · cases turns_shift hshift h hcall hruns.not_isCheck with
    | kept c' hcall' hpersists => exact .inl ⟨c', hcall', hruns.persists hpersists⟩
    | asks hsource hunheard hcall' hwritten =>
      refine .inl ⟨_, hcall', hruns.asks hsource hunheard (fun s hs hcommand harguments => ?_)
        fun first s hsets hcommand harguments => ?_⟩
      · exact hset s _ hs (by rw [hwritten, hcommand, harguments])
      · exact hcover first s _ hsets (by rw [hwritten, hcommand, harguments])
    | ends outcome hends hfinish =>
      have hresults := hruns.results hends
      have hrole : c.role = .client f.name := by cases hruns <;> rfl
      refine .inr ⟨outcome, ?_, hresults⟩
      rw [hfinish]
      refine (ended_finish hcall outcome).2 f.name hrole fun answer heq e => ?_
      cases hresults <;> cases heq
      rfl
  · exact .inr ⟨outcome, (ended_shift hshift h).subset hended, hresults⟩

/-- A command that is written in between was written since the start. -/
theorem wrote_between {e₀ e₁ : Engine} {command : Service.Command}
    (hbefore : e₀.written <+: e.written) (hwritten : e'.written = e.written ++ [command])
    (hafter : e'.written <+: e₁.written) : Wrote e₀ e₁ command := by
  obtain ⟨cs, hcs⟩ := hbefore
  obtain ⟨more, hmore⟩ := hafter
  exact ⟨cs ++ [command] ++ more, by rw [← hmore, hwritten, ← hcs]; simp, by simp⟩

/-- **So does any number of shifts.** -/
theorem Stands.shifts {e₀ e₁ : Engine} (hshifts : Shifts t e₀ e₁) (h : e₀.Orderly)
    (hset : ∀ s seq, (e₀.relay 0).session? f.uri = some s →
      Wrote e₀ e₁ ⟨seq, Service.configureName, s.options f.tabSize f.insertSpaces⟩ →
        ∃ first, f.Sets m deeds first s)
    (hcover : ∀ first s (seq : Nat), f.Sets m deeds first s →
      Wrote e₀ e₁ ⟨seq, Service.formatName, s.whole⟩ →
        ∃ past, f.Covers m deeds first past s seq)
    (hstands : f.Stands m deeds e₀) : f.Stands m deeds e₁ := by
  -- the induction is on what is left of the chain, so that what is written next is known
  -- to be there at its end
  have hrest : ∀ e, Shifts t e e₁ → e.Orderly → (e.relay 0).sessions = (e₀.relay 0).sessions →
      e₀.written <+: e.written → f.Stands m deeds e → f.Stands m deeds e₁ := by
    intro e hleft
    induction hleft using Relation.ReflTransGen.head_induction_on with
    | refl => exact fun _ _ _ hstands => hstands
    | head hshift hleft ih =>
      intro h hsessions hbefore hstands
      have h' := orderly_shift hshift h
      obtain ⟨hsame, hmore⟩ := onward_shift hshift h
      have hafter := (onward_shifts hleft h').2
      refine ih h' (hsame.trans hsessions) (hbefore.trans hmore) (hstands.shift hshift h
        (fun s seq hs hwritten => hset s seq ?_ (wrote_between hbefore hwritten hafter))
        fun first s seq hsets hwritten =>
          hcover first s seq hsets (wrote_between hbefore hwritten hafter))
      rwa [← Relay.session?_of_sessions hsessions]
  exact hrest e₀ hshifts h rfl List.prefix_rfl hstands

/-- **So does what a deed does at once**: a call may learn by it that its command was
answered. -/
theorem Stands.takeIn {d : Deed} (hstands : f.Stands m deeds e) (h : e.Orderly)
    (hdoes : Does t (e.relay 0) d r) (hd : d ∈ deeds) : f.Stands m deeds (e.takeIn r) := by
  rcases hstands with ⟨c, hcall, hruns⟩ | ⟨outcome, hended, hresults⟩
  · refine .inl ⟨_, call?_heed h.apart hcall r, ?_⟩
    rcases heed_cases_of_query hruns.not_isCheck r.outbox f.id with hsame |
      ⟨seq, ask, watch, next, o, hstage, ho, htold⟩
    · rwa [hsame]
    · rw [htold]
      cases hruns with
      | begins => cases hstage
      | sets hsets =>
        cases hstage
        exact .sets hsets
      | formats hcovers =>
        cases hstage
        refine .formats hcovers fun body hbody => ?_
        cases hbody
        exact (heard_of_answered hdoes h.sound h.collected ho).mono (by simpa using hd)
  · refine .inr ⟨outcome, ?_, hresults⟩
    rw [(heeded_takeIn h.apart r).same]
    exact hended

/-- **So does one deed more.** -/
theorem Stands.perform (hstands : f.Stands m deeds (work deeds m).engine)
    (h : (work deeds m).Orderly) (d : Deed) :
    f.Stands m (deeds ++ [d]) (work (deeds ++ [d]) m).engine := by
  have hknown := hstands.mono (List.prefix_append deeds [d])
  have hstep : work (deeds ++ [d]) m = d.perform (work deeds m) := work_append deeds [d] m
  have hmeets : Deed.Meets .any (work deeds m) d := (meet_any [d] _).1
  rcases perform_cases h hmeets with ⟨r, hdoes, heq⟩ | hshifts
  · rw [hstep, heq]
    exact hknown.takeIn h.engine hdoes (List.mem_append_right _ (List.mem_singleton_self d))
  · have hsessions := (onward_shifts hshifts h.engine).1
    rw [← hstep] at hshifts hsessions
    refine Stands.shifts hshifts h.engine (fun s seq hs hwrote => ?_)
      (fun first s seq hsets hwrote => ?_) hknown
    · exact ⟨deeds, hs, seq, d, List.prefix_rfl, hwrote, hsessions⟩
    · obtain ⟨_, d', hfirst, -⟩ := hsets.written
      refine ⟨deeds, hsets, ?_, d, List.prefix_rfl, hwrote, hsessions⟩
      -- the options were set by a deed before this one, or by this one
      rcases List.prefix_concat_iff.mp hfirst with heq | hfirst
      · exact (List.append_inj' heq rfl).1 ▸ List.prefix_rfl
      · exact (List.prefix_append _ _).trans hfirst

/-- **A formatting stands after any deeds.** -/
theorem stands_work (h : m.Orderly) (hstands : f.Stands m [] m.engine) (deeds : List Deed) :
    f.Stands m deeds (work deeds m).engine := by
  induction deeds using List.reverseRecOn with
  | nil => exact hstands
  | append_singleton deeds d ih =>
    have horderly : (work deeds m).Orderly :=
      work_induction h (meet_any deeds m) fun _ _ h hmeets => orderly_perform h hmeets
    exact ih.perform horderly d

end Formatting

/-- **A formatting covers the text that was tracked when its options were set**, whatever
is done meanwhile, and its client gets the edits of the answer in order, or a failure. If
the document was left alone since, that text is the one that is tracked when the second
command is written. If not, the command covers the text that is tracked then if and only
if both end at the same place. -/
theorem formatting_covers (setup : Setup) (before after : List Deed) (name uri : String)
    (tabSize : Int) (insertSpaces : Bool) :
    let m := (Deed.query name (.formatting uri tabSize insertSpaces)).perform
      (work before (.new setup))
    let f : Formatting := ⟨m.engine.lastCall, name, uri, tabSize, insertSpaces⟩
    f.Stands m after (work after m).engine ∧
      ∀ first past s seq, f.Covers m after first past s seq →
        ((∀ d ∈ past.drop first.length, d.edited? ≠ some uri) →
          ((work past m).engine.relay 0).session? uri = some s) ∧
        ∀ s', ((work past m).engine.relay 0).session? uri = some s' →
          (s'.whole = s.whole ↔ documentEnd s'.text = documentEnd s.text) := by
  intro m f
  have horderly : ∀ deeds, (work deeds m).Orderly := by
    intro deeds
    have hall := orderly_work setup (meet_any
      (before ++ .query name (.formatting uri tabSize insertSpaces) :: deeds) (.new setup))
    rwa [work_append] at hall
  have hcall : m.engine.call? f.id = some ⟨.client name, .created (.query 0 f.query), false⟩ := by
    change Table.get? f.id (Table.put f.id _ (work before (.new setup)).engine.calls) = _
    rw [Table.get?_put, if_pos rfl]
    rfl
  refine ⟨Formatting.stands_work (horderly []) (.inl ⟨_, hcall, .begins⟩) after,
    fun first past s seq hcovers => ⟨fun hleft => ?_, fun s' hs' => ?_⟩⟩
  · obtain ⟨between, rfl⟩ := hcovers.later
    rw [List.drop_left] at hleft
    rw [work_append, session?_work (horderly first) hleft]
    exact hcovers.sets.opened
  · -- both are of the file that the document's name stands for
    have hfile := ((horderly past).engine.sound.filed uri s' hs').2
    rw [((horderly first).engine.sound.filed uri s hcovers.sets.opened).2] at hfile
    exact Session.whole_eq_iff (Option.some.inj hfile).symm

/-- A document is open, and its formatting called for. -/
def formattingBegun : Moment :=
  (Deed.query "f" (.formatting "file:///a.ts" 2 true)).perform
    (work [.opened "file:///a.ts" "typescript" 1 "x"] (.new Relay.syntaxOnly))

/-- The options are set, and the answer to the second command changes one character. -/
def formattingAnswered : List Deed :=
  [.plain .turn, .plain .job,
    .plain (.receive (.obj (Service.Response.toFields
      ⟨0, Service.configureName, 2, true, none, .null⟩))), .plain .turn, .plain .job,
    .plain (.receive (.obj (Service.Response.toFields ⟨0, Service.formatName, 3, true, none,
      .arr [.obj [("start", .obj (Service.locationFields ⟨0, 0⟩)),
        ("end", .obj (Service.locationFields ⟨0, 1⟩)), ("newText", .str "y")]]⟩))),
    .plain .turn, .plain .job]

/-- The second command covers the document as it is when it is written, and the client gets
the edit. -/
theorem formatting_covers_answered :
    let f : Formatting := ⟨1, "f", "file:///a.ts", 2, true⟩
    let s : Session := ⟨"file:///a.ts", "/a.ts", "typescript", 1, ['x']⟩
    let past := formattingAnswered.take 4
    f.Covers formattingBegun formattingAnswered [.plain .turn] past s 3 ∧
      ((work past formattingBegun).engine.relay 0).session? "file:///a.ts" = some s ∧
      (work formattingAnswered formattingBegun).engine.ended =
        [("f", .ok (.edits [⟨⟨⟨0, 0⟩, ⟨0, 1⟩⟩, "y"⟩]))] ∧
      f.Stands formattingBegun formattingAnswered
        (work formattingAnswered formattingBegun).engine := by
  intro f s past
  have hset : (work [.plain .turn, .plain .job] formattingBegun).engine.written =
      (work [.plain .turn] formattingBegun).engine.written ++
        [⟨2, Service.configureName, Session.options 2 true
          ⟨"file:///a.ts", "/a.ts", "typescript", 1, ['x']⟩⟩] := by
    with_unfolding_all rfl
  have hformatted : (work (formattingAnswered.take 5) formattingBegun).engine.written =
      (work (formattingAnswered.take 4) formattingBegun).engine.written ++
        [⟨3, Service.formatName, Session.whole
          ⟨"file:///a.ts", "/a.ts", "typescript", 1, ['x']⟩⟩] := by
    with_unfolding_all rfl
  have hsets : f.Sets formattingBegun formattingAnswered [.plain .turn] s :=
    ⟨by with_unfolding_all rfl, 2, .plain .job, ⟨_, rfl⟩, ⟨_, hset, List.mem_singleton_self _⟩,
      by with_unfolding_all rfl⟩
  have hcovers : f.Covers formattingBegun formattingAnswered [.plain .turn] past s 3 :=
    ⟨hsets, ⟨_, rfl⟩, .plain .job, ⟨_, rfl⟩, ⟨_, hformatted, List.mem_singleton_self _⟩,
      by with_unfolding_all rfl⟩
  obtain ⟨hstands, hcurrent⟩ := formatting_covers Relay.syntaxOnly
    [.opened "file:///a.ts" "typescript" 1 "x"] formattingAnswered "f" "file:///a.ts" 2 true
  refine ⟨hcovers, (hcurrent _ _ s 3 hcovers).1 fun d hd => ?_, by with_unfolding_all rfl, hstands⟩
  have hplain : ∀ d ∈ past.drop 1, d.edited? = none := by
    simp [past, formattingAnswered, Deed.edited?]
  simp [hplain d hd]

/-- A document is changed while its formatting waits for the options to be set. -/
def changedFormatting : List Deed :=
  [.opened "file:///a.ts" "typescript" 1 "x", .query "f" (.formatting "file:///a.ts" 2 true),
    .plain .turn, .plain .job, .changed "file:///a.ts" 2 [⟨none, "x\ny\n"⟩],
    .plain (.receive (.obj (Service.Response.toFields
      ⟨0, Service.configureName, 2, true, none, .null⟩))), .plain .turn]

/-- **The next job has the document formatted up to where it ended before**, and not up to
where it ends. -/
theorem formatting_behind_change :
    (((work changedFormatting (.new Relay.syntaxOnly)).engine.relay 0).session?
        "file:///a.ts").map Session.text = some "x\ny\n".toList ∧
      documentEnd "x\ny\n".toList = ⟨2, 0⟩ ∧
      (work (changedFormatting ++ [.plain .job]) (.new Relay.syntaxOnly)).engine.written =
        (work changedFormatting (.new Relay.syntaxOnly)).engine.written ++
          [⟨4, Service.formatName, .obj [("file", .str "/a.ts"), ("line", .int 1),
            ("offset", .int 1), ("endLine", .int 1), ("endOffset", .int 2)]⟩] :=
  ⟨by with_unfolding_all rfl, by with_unfolding_all rfl, by with_unfolding_all rfl⟩

end Engine

end LanguageRelay
