import LanguageRelay.Proofs.Editing.Openings
/-!
# Commands while files are open

**Every command names files that are open when it is written**, whatever happens,
as long as documents are of distinct files and the editor asks for the details of
items that were handed out (`window_discipline`). The relay looks for a session
before it writes; where a call writes a second command after it has waited, it
does not look again. There is one such command, the one that formats a document:
its options were set while the document was open, but the document may have been
closed since (`format_past_closing`).
-/

namespace LanguageRelay

/-- Work names no file of its own. -/
def Work.Honest : Work → Prop
  | .query _ q => q.Honest
  | _ => True

/-- What is made of a response is about the file of a document, after the commands
written so far. -/
def Continuation.Faithful (cs : List Service.Command) : Continuation → Prop
  | .answer after => after.Faithful fun file => Prepared file cs
  | .startup _ => True

/-- The call is about files of documents. -/
def Call.Faithful (cs : List Service.Command) (c : Call) : Prop :=
  match c.stage with
  | .created work => work.Honest
  | .asking _ _ _ _ _ next => next.Faithful cs
  | _ => True

namespace Engine

/-- The commands written so far. -/
def written (e : Engine) : List Service.Command := commands (e.record.map Prod.snd)

/-- **Commands are written while files are open**, up to now. -/
structure Windowed (uris : List String) (e : Engine) : Prop where
  disciplined : Disciplined e.written
  /-- The wire is in step with the relay. -/
  open_iff : (e.relay 0).link.closed = none →
    ∀ file, openAfter file e.written = true ↔ (e.relay 0).Opens file
  known : ∀ uri file, (e.relay 0).fileAt uri = some file → uri ∈ uris
  genuine : e.Genuine
  faithful : ∀ x ∈ e.calls, x.2.Faithful e.written

/-- What is written since is about files that are open before and after, but for
the commands that open or close one and the late ones. -/
def Abreast (e e' : Engine) : Prop :=
  ∃ cs, e'.written = e.written ++ cs ∧ ∀ c ∈ cs, ∀ file ∈ c.files,
    c.name ∈ [Service.openName, Service.closeName, Service.formatName] ∨
      (e.relay 0).Opens file ∧ (e'.relay 0).Opens file

/-- What happens between two deeds leaves the same files open. What is written is
about them, or late. -/
structure Kept (e e' : Engine) : Prop where
  closed : (e'.relay 0).link.closed = (e.relay 0).link.closed
  files : ∀ uri, (e'.relay 0).fileAt uri = (e.relay 0).fileAt uri
  written : ∃ cs, e'.written = e.written ++ cs ∧ ∀ c ∈ cs, (e.relay 0).link.closed = none ∧
    ∀ file ∈ c.files, c.name ∉ [Service.openName, Service.closeName] ∧
      ((e.relay 0).Opens file ∨ c.name = Service.formatName ∧ Prepared file e.written)
  genuine : e'.Genuine
  faithful : ∀ x ∈ e'.calls, x.2.Faithful e'.written

variable {t : Terms} {uris : List String} {e e' : Engine} {m : Moment} {d : Deed} {r r' : Relay}
variable {id : Nat} {c c' : Call} {cs : List Service.Command}

/-! ## What is written, and by whom -/

/-- Of what a relay did the commands are recorded. -/
theorem commands_noted (fx : List Effect) : commands (fx.filter Effect.noted) = commands fx := by
  unfold commands
  rw [List.filterMap_filter]
  refine congrArg (fun f => List.filterMap f fx) (funext fun effect => ?_)
  cases effect <;> rfl

/-- What the record adds is written after what was. -/
theorem written_of_record {fx : List (Nat × Effect)} (hrecord : e'.record = e.record ++ fx) :
    e'.written = e.written ++ commands (fx.map Prod.snd) := by
  rw [written, hrecord, List.map_append, commands_append, written]

/-- A call that asks writes one command. -/
theorem written_wrote (id : Nat) (c : Call) (a : Ask) (watch : Watch)
    (outcome : Option (Except Failure Json)) : (e.wrote id c a watch outcome).written =
      e.written ++ [⟨(e.relay 0).nextSeq, a.command, a.arguments⟩] := by
  have hrecord : (e.wrote id c a watch outcome).record =
      e.record ++ [(0, .sent ⟨(e.relay 0).nextSeq, a.command, a.arguments⟩)] := rfl
  exact written_of_record hrecord

/-- A log line is no command. -/
theorem written_log (level : LogLevel) (text : String) :
    (e.log 0 level text).written = e.written := by
  have hrecord : (e.log 0 level text).record = e.record ++ [(0, .logged level text)] := rfl
  exact (written_of_record hrecord).trans (List.append_nil _)

/-- What a relay wrote is taken in. -/
theorem written_takeIn (h : e.Orderly) (r : Relay) :
    (e.takeIn r).written = e.written ++ commands r.outbox := by
  rw [written_of_record (heeded_takeIn h.apart r).record, List.map_map]
  exact congrArg _ ((congrArg commands (List.map_id _)).trans (commands_noted r.outbox))

/-- Commands that are written later do not matter. -/
theorem faithful_append (h : c.Faithful cs) (more : List Service.Command) :
    c.Faithful (cs ++ more) := by
  obtain ⟨role, stage, cancelled⟩ := c
  cases stage with
  | created work => exact h
  | asking i seq ask watch outcome next =>
    cases next with
    | answer after => exact After.Faithful.mono (fun _ hprepared => hprepared.append more) h
    | startup handler => trivial
  | _ => trivial

/-- Outcomes do not matter either. -/
theorem faithful_heed (h : c.Faithful cs) (fx : List Effect) (id : Nat) :
    (fx.foldl (Call.heed id) c).Faithful cs := by
  rcases foldl_heed_cases fx id c with ⟨hsame, -⟩ | ⟨seq, ask, watch, next, o, hstage, -, htold⟩ |
    ⟨i, o, hstage, -, htold⟩
  · rwa [hsame]
  · rw [htold]
    unfold Call.Faithful at h ⊢
    rw [hstage] at h
    exact h
  · rw [htold]
    trivial

/-- Calls stay faithful when what a relay did is taken in. -/
theorem faithful_takeIn (h : e.Orderly) (hfaithful : ∀ x ∈ e.calls, x.2.Faithful e.written)
    (r : Relay) : ∀ x ∈ (e.takeIn r).calls, x.2.Faithful (e.takeIn r).written := by
  have hcalls : (e.takeIn r).calls = _ := (heeded_takeIn h.apart r).calls
  intro x hx
  rw [hcalls] at hx
  obtain ⟨y, hy, rfl⟩ := List.mem_map.mp hx
  rw [written_takeIn h]
  exact faithful_heed (faithful_append (hfaithful y hy) _) _ _

/-- A call that changes in what does not matter to the relay. -/
theorem Alike.faithful (halike : Alike c c') (h : c.Faithful cs) : c'.Faithful cs := by
  cases halike with
  | woken signal' hstage =>
    unfold Call.Faithful at h ⊢
    rw [hstage] at h
    exact h
  | marked => exact h
  | gathered => trivial

/-! ## Between deeds -/

/-- Where nothing is written, and handles and calls are as good as before. -/
theorem Kept.of_unwritten (hclosed : (e'.relay 0).link.closed = (e.relay 0).link.closed)
    (hfiles : ∀ uri, (e'.relay 0).fileAt uri = (e.relay 0).fileAt uri)
    (hwritten : e'.written = e.written) (hgenuine : e'.Genuine)
    (hcalls : ∀ x ∈ e'.calls, x.2.Faithful e.written) : Kept e e' where
  closed := hclosed
  files := hfiles
  written := ⟨[], by simp [hwritten], by simp⟩
  genuine := hgenuine
  faithful := by rwa [hwritten]

/-- What the relay does is taken in. -/
theorem kept_takeIn (h : e.Orderly) (hw : Windowed uris e)
    (hclosed : r.link.closed = (e.relay 0).link.closed)
    (hfiles : ∀ uri, r.fileAt uri = (e.relay 0).fileAt uri)
    (hwrites : ∀ c ∈ commands r.outbox, (e.relay 0).link.closed = none ∧ AboutOpen (e.relay 0) c) :
    Kept e (e.takeIn r) := by
  refine ⟨?_, fun uri => ?_, ⟨commands r.outbox, written_takeIn h r, fun c hc => ?_⟩,
    genuine_takeIn h hw.genuine r, faithful_takeIn h hw.faithful r⟩
  · rw [relay_takeIn h]
    exact hclosed
  · rw [relay_takeIn h]
    exact hfiles uri
  · obtain ⟨hup, habout⟩ := hwrites c hc
    exact ⟨hup, fun file hfile => ⟨(habout file hfile).1, .inl (habout file hfile).2⟩⟩

/-- What the relay does for a call is about open files. -/
theorem Serves.writes (hserves : Serves (e.relay 0) r) (hcollected : (e.relay 0).outbox = []) :
    ∀ c ∈ commands r.outbox, (e.relay 0).link.closed = none ∧ AboutOpen (e.relay 0) c := by
  obtain ⟨fx, hfx, hwrites⟩ := hserves.abides.commands
  rw [commands_of_added hcollected hfx rfl]
  exact fun c hc => ⟨(hwrites c hc).1, aboutOpen_of_checksOpen (hwrites c hc).2⟩

/-- The command that a call writes is about open files, or late. What is made of
its response is about the file of its document. -/
theorem Source.about (h : e.Orderly) (hw : Windowed uris e) {a : Ask} (hcall : e.call? id = some c)
    (hsource : Source e c a) (hup : (e.relay 0).link.closed = none) (seq : Int) :
    (∀ file ∈ a.arguments.namedFiles, a.command ∉ [Service.openName, Service.closeName] ∧
      ((e.relay 0).Opens file ∨ a.command = Service.formatName ∧ Prepared file e.written)) ∧
    a.after.Faithful fun file => Prepared file (e.written ++ [⟨seq, a.command, a.arguments⟩]) := by
  have hfaithful := hw.faithful _ (mem_of_call? hcall)
  unfold Call.Faithful at hfaithful
  cases hsource with
  | first q hstage hq =>
    simp only [hstage] at hfaithful
    obtain ⟨habout, hafter⟩ := first_proper h.sound hfaithful hq
    refine ⟨fun file hfile => ⟨(habout seq file hfile).1, .inl (habout seq file hfile).2⟩,
      hafter.mono fun file hconfigures => ?_⟩
    exact ⟨e.written, _, [], rfl, hconfigures.1, hconfigures.2,
      (hw.open_iff hup file).mpr (habout seq file hconfigures.2).2⟩
  | next file text hstage ha =>
    simp only [hstage] at hfaithful
    subst ha
    -- whether the file is still open is not known here: no session was looked for
    refine ⟨fun f hf => ?_, trivial⟩
    rw [namedFiles_formatAll, List.mem_singleton] at hf
    have hname : Service.formatName ∉ [Service.openName, Service.closeName] := by decide
    exact ⟨hname, .inr ⟨rfl, hf ▸ hfaithful⟩⟩

/-- **Every shift leaves the same files open**, and writes of them alone. -/
theorem kept_shift (hshift : Shift .editor e e') (h : e.Orderly) (hw : Windowed uris e) :
    Kept e e' := by
  have hupdate : ∀ {id c'}, c'.Faithful e.written →
      ∀ x ∈ Table.update id (fun _ => c') e.calls, x.2.Faithful e.written := by
    intro id c' hc' x hx
    rcases Table.mem_update hx with hx | ⟨-, -, rfl⟩
    · exact hw.faithful x hx
    · exact hc'
  have hone : ∀ {id c}, e.call? id = some c → c.Faithful e.written :=
    fun hcall => hw.faithful _ (mem_of_call? hcall)
  cases hshift with
  | served hserves =>
    exact kept_takeIn h hw hserves.leaves.closed hserves.leaves.fileAt (hserves.writes h.collected)
  | made role work hrole hwork hputs =>
    refine .of_unwritten rfl (fun _ => rfl) rfl hw.genuine fun x hx => ?_
    rcases Table.mem_put hx with rfl | hx
    · -- the terms say what clients ask for, and that is about documents or names no file
      cases work with
      | query i q =>
        have hq := hputs i q rfl
        cases q with
        | command name arguments window => exact hq
        | details source item => exact fun handle hhandle => hw.genuine handle (hq handle hhandle)
        | _ => trivial
      | _ => trivial
    · exact hw.faithful x hx
  | @asked id c a watch outcome hcall hfree hsource hup =>
    obtain ⟨habout, hafter⟩ := hsource.about h hw hcall hup (e.relay 0).nextSeq
    have hwritten := written_wrote (e := e) id c a watch outcome
    refine ⟨rfl, fun _ => rfl, ⟨_, hwritten, fun c hc => ?_⟩, hw.genuine, fun x hx => ?_⟩
    · rw [List.mem_singleton.mp hc]
      exact ⟨hup, habout⟩
    · refine hwritten ▸ ?_
      rcases Table.mem_update hx with hx | ⟨-, -, rfl⟩
      · exact faithful_append (hw.faithful x hx) _
      · exact hafter
  | @waited id c uri r hcall hfree hseq hup hserves =>
    have hkept : Kept e (e.takeIn (r.addWaiter uri id)) :=
      kept_takeIn h hw hserves.leaves.closed hserves.leaves.fileAt (hserves.writes h.collected)
    refine ⟨hkept.closed, hkept.files, hkept.written, hkept.genuine, fun x hx => ?_⟩
    rcases Table.mem_update hx with hx | ⟨-, -, rfl⟩
    · exact hkept.faithful x hx
    · trivial
  | @withdrew id c seq ask watch next hcall hstage watch' cancelled =>
    have hnext := hone hcall
    simp only [Call.Faithful, hstage] at hnext
    exact .of_unwritten (by rw [relay_mapRelay_calls h]; rfl)
      (fun _ => by rw [relay_mapRelay_calls h]; rfl) rfl hw.genuine (hupdate hnext)
  | @dropped id c hcall hstage =>
    exact .of_unwritten (by rw [relay_mapRelay_calls h]; rfl)
      (fun _ => by rw [relay_mapRelay_calls h]; rfl) rfl hw.genuine (hupdate trivial)
  | @left id c seq ask watch o next hcall hstage =>
    exact .of_unwritten (by rw [relay_mapRelay h]; rfl) (fun _ => by rw [relay_mapRelay h]; rfl) rfl
      hw.genuine hw.faithful
  | @altered id c c' hcall halike =>
    exact .of_unwritten rfl (fun _ => rfl) rfl hw.genuine (hupdate (halike.faithful (hone hcall)))
  | @ended id c outcome hcall hfree hends =>
    -- the items of an answer are handed out here
    have hgenuine : (e.finish id outcome).Genuine := genuine_finish hends hw.genuine
      fun seq ask watch told after hstage => by
        have hafter := hone hcall
        simp only [Call.Faithful, hstage] at hafter
        exact hafter
    obtain ⟨handedOut, told, agenda, hfinish, -⟩ := finish_of_call hcall outcome
    rw [hfinish] at hgenuine ⊢
    exact .of_unwritten rfl (fun _ => rfl) rfl hgenuine fun x hx =>
      hw.faithful x (Table.mem_erase_iff.mp hx).1
  | logged level text =>
    exact .of_unwritten rfl (fun _ => rfl) (written_log level text) hw.genuine hw.faithful
  | timed => exact .of_unwritten rfl (fun _ => rfl) rfl hw.genuine hw.faithful

/-- What is kept between deeds stays windowed. -/
theorem Windowed.of_kept (hw : Windowed uris e) (hkept : Kept e e') : Windowed uris e' := by
  obtain ⟨cs, hwritten, hcs⟩ := hkept.written
  have hstill : Disciplined (e.written ++ cs) ∧
      ∀ file, openAfter file (e.written ++ cs) = openAfter file e.written :=
    hw.disciplined.still cs fun c hc file hfile => by
      obtain ⟨hup, habout⟩ := hcs c hc
      obtain ⟨hname, hopen⟩ := habout file hfile
      exact ⟨hname, hopen.imp_left (hw.open_iff hup file).mpr⟩
  refine ⟨hwritten ▸ hstill.1, fun hup file => ?_, fun uri file hfile => ?_, hkept.genuine,
    hkept.faithful⟩
  · rw [hwritten, hstill.2, hw.open_iff (hkept.closed ▸ hup), Relay.opens_congr hkept.files]
  · rw [hkept.files] at hfile
    exact hw.known uri file hfile

/-- Any number of shifts leave the same files open, and write of them alone. -/
theorem windowed_shifts (hshifts : Shifts .editor e e') (h : e.Orderly) (hw : Windowed uris e) :
    Windowed uris e' ∧ (∀ uri, (e'.relay 0).fileAt uri = (e.relay 0).fileAt uri) ∧
      ∃ cs, e'.written = e.written ++ cs ∧ ∀ c ∈ cs, ∀ file ∈ c.files,
        c.name = Service.formatName ∨ (e.relay 0).Opens file := by
  refine (hshifts.keep (P := fun e' => e'.Orderly ∧ Windowed uris e' ∧
      (∀ uri, (e'.relay 0).fileAt uri = (e.relay 0).fileAt uri) ∧
      ∃ cs, e'.written = e.written ++ cs ∧ ∀ c ∈ cs, ∀ file ∈ c.files,
        c.name = Service.formatName ∨ (e.relay 0).Opens file)
    ?_ ⟨h, hw, fun _ => rfl, [], by simp, by simp⟩).2
  rintro e₁ e₂ hshift ⟨h₁, hw₁, hfiles, cs, hwritten, hcs⟩
  have hkept := kept_shift hshift h₁ hw₁
  obtain ⟨more, hmore, habout⟩ := hkept.written
  refine ⟨orderly_shift hshift h₁, hw₁.of_kept hkept,
    fun uri => (hkept.files uri).trans (hfiles uri), cs ++ more,
    by rw [hmore, hwritten, List.append_assoc], fun c hc file hfile => ?_⟩
  rcases List.mem_append.mp hc with hc | hc
  · exact hcs c hc file hfile
  · rcases ((habout c hc).2 file hfile).2 with hopen | ⟨hname, -⟩
    · exact .inr ((Relay.opens_congr hfiles file).mp hopen)
    · exact .inl hname

/-! ## Deeds -/

theorem filed_of_sound (h : r.Sound) : r.Filed := by
  intro uri file hfile
  obtain ⟨s, hopen, rfl⟩ := Option.map_eq_some_iff.mp hfile
  exact (h.filed uri s hopen).2

/-- Documents of distinct files are apart. -/
theorem Windowed.apart (hw : Windowed uris e) (huris : Relay.DistinctFiles uris)
    (hfiled : (e.relay 0).Filed) : (e.relay 0).Apart := fun u v file hu hv =>
  huris u (hw.known u file hu) v (hw.known v file hv) file (hfiled u file hu) (hfiled v file hv)

/-- What a deed does at once stays windowed, if it opens a document with a file of
its own. -/
theorem windowed_takeIn (huris : Relay.DistinctFiles uris) (h : e.Orderly) (hw : Windowed uris e)
    (hdoes : Does .editor (e.relay 0) d r) (hopens : ∀ uri, d.opens? = some uri → uri ∈ uris) :
    Windowed uris (e.takeIn r) := by
  have hwritten := written_takeIn h r
  have hrelay := relay_takeIn h r
  have hfiled := filed_of_sound h.sound
  have hwire : Disciplined (e.takeIn r).written ∧ (r.link.closed = none →
      ∀ file, openAfter file (e.takeIn r).written = true ↔ r.Opens file) := by
    rw [hwritten]
    -- over a closed connection documents come and go that the wire does not hear of
    by_cases hup : (e.relay 0).link.closed = none
    · obtain ⟨hdisciplined, hopen⟩ := (fileStep_does hdoes h.sound h.collected hup).keeps hfiled
        (hw.apart huris hfiled) hw.disciplined (hw.open_iff hup)
      exact ⟨hdisciplined, fun _ => hopen⟩
    · obtain ⟨hnone, hclosed⟩ := mute_does hdoes h.sound h.collected hup
      rw [hnone, List.append_nil]
      exact ⟨hw.disciplined, fun hopen => absurd hopen hclosed⟩
  refine ⟨hwire.1, fun hup => ?_, fun uri file hfile => ?_, genuine_takeIn h hw.genuine r,
    faithful_takeIn h hw.faithful r⟩
  · rw [hrelay] at hup ⊢
    exact hwire.2 hup
  · rw [hrelay] at hfile
    rcases fileAt_before hdoes h.sound hfile with hbefore | hopened
    · exact hw.known uri file hbefore
    · exact hopens uri hopened

/-- **Every deed keeps commands within the time their files are open.** -/
theorem windowed_perform (huris : Relay.DistinctFiles uris) (h : m.Orderly)
    (hmeets : Deed.Meets .editor m d) (hopens : ∀ uri, d.opens? = some uri → uri ∈ uris)
    (hw : Windowed uris m.engine) : Windowed uris (d.perform m).engine := by
  rcases perform_cases h hmeets with ⟨r, hdoes, heq⟩ | hshifts
  · rw [heq]
    exact windowed_takeIn huris h.engine hw hdoes hopens
  · exact (windowed_shifts hshifts h.engine hw).1

/-- **What a deed has written is about files that are open before and after it.** -/
theorem abreast_perform (h : m.Orderly) (hmeets : Deed.Meets .editor m d)
    (hw : Windowed uris m.engine) : Abreast m.engine (d.perform m).engine := by
  rcases perform_cases h hmeets with ⟨r, hdoes, heq⟩ | hshifts
  · rw [heq]
    refine ⟨commands r.outbox, written_takeIn h.engine r, fun c hc file hfile => ?_⟩
    by_cases hup : (m.engine.relay 0).link.closed = none
    · rw [relay_takeIn h.engine]
      refine ((fileStep_does hdoes h.engine.sound h.engine.collected hup).about
        (filed_of_sound h.engine.sound) c hc file hfile).imp_left fun hname => ?_
      simp only [List.mem_cons, List.not_mem_nil, or_false] at hname ⊢
      exact hname.imp_right .inl
    · rw [(mute_does hdoes h.engine.sound h.engine.collected hup).1] at hc
      cases hc
  · obtain ⟨-, hfiles, cs, hwritten, hcs⟩ := windowed_shifts hshifts h.engine hw
    refine ⟨cs, hwritten, fun c hc file hfile => ?_⟩
    rcases hcs c hc file hfile with hname | hopen
    · exact .inl (by simp [hname])
    · exact .inr ⟨hopen, (Relay.opens_congr hfiles file).mpr hopen⟩

/-- Before anything has happened nothing is open and nothing written. -/
theorem windowed_new (setup : Setup) (uris : List String) :
    Windowed uris (Moment.new setup).engine where
  disciplined := disciplined_nil
  open_iff _ file := by
    refine iff_of_false (by simp [openAfter, written, commands, Moment.new, withRelay, Engine.new]) ?_
    rintro ⟨uri, huri⟩
    simp [Moment.new, withRelay, Engine.relay, Relay.new, Relay.fileAt, Relay.session?] at huri
  known uri file h := by
    simp [Moment.new, withRelay, Engine.relay, Relay.new, Relay.fileAt, Relay.session?] at h
  genuine h := by
    rintro ⟨x, hx, -⟩
    cases hx
  faithful x hx := by cases hx

theorem windowed_work (huris : Relay.DistinctFiles uris) {deeds : List Deed}
    (hopens : ∀ uri ∈ openedUris deeds, uri ∈ uris) (h : m.Orderly) (hmeet : Meet .editor deeds m)
    (hw : Windowed uris m.engine) : Windowed uris (work deeds m).engine := by
  induction deeds generalizing m with
  | nil => exact hw
  | cons d rest ih =>
    have hfirst : ∀ uri, d.opens? = some uri → uri ∈ uris := fun uri huri =>
      hopens uri (List.mem_filterMap.mpr ⟨d, List.mem_cons_self, huri⟩)
    refine ih (fun uri huri => hopens uri ?_) (orderly_perform h hmeet.1) hmeet.2
      (windowed_perform huris h hmeet.1 hfirst hw)
    obtain ⟨d', hd', huri⟩ := List.mem_filterMap.mp huri
    exact List.mem_filterMap.mpr ⟨d', List.mem_cons_of_mem _ hd', huri⟩

/-- **Commands are written while their files are open**: after any deeds, as far as
the analysis server can tell, and over an open connection it can tell what is
open. What one more deed has written is about files of documents that are open
before and after it. The command that formats a document may be late. -/
theorem window_discipline (setup : Setup) (deeds : List Deed)
    (hfiles : Relay.DistinctFiles (openedUris deeds)) (hmeet : Meet .editor deeds (.new setup)) :
    Disciplined (work deeds (.new setup)).engine.written ∧
      (((work deeds (.new setup)).engine.relay 0).link.closed = none → ∀ file,
        openAfter file (work deeds (.new setup)).engine.written = true ↔
          ((work deeds (.new setup)).engine.relay 0).Opens file) ∧
      ∀ d, Deed.Meets .editor (work deeds (.new setup)) d →
        Abreast (work deeds (.new setup)).engine (d.perform (work deeds (.new setup))).engine := by
  have horderly := orderly_work setup hmeet
  have hw := windowed_work hfiles (fun _ huri => huri) (orderly_new setup) hmeet
    (windowed_new setup (openedUris deeds))
  exact ⟨hw.disciplined, hw.open_iff, fun d hmeets => abreast_perform horderly hmeets hw⟩

/-- A document is opened, and something asked about a place in it. -/
def hovering : List Deed :=
  [.opened "file:///a.ts" "typescript" 1 "x", .query "h" (.hover "file:///a.ts" ⟨0, 0⟩),
    .plain .turn, .plain .job]

/-- The command is written while the document is open, and one more job has nothing
written. -/
theorem window_discipline_hovering :
    (work hovering (.new Relay.syntaxOnly)).engine.written.map Service.Command.name =
        [Service.openName, Service.quickInfoName] ∧
      Disciplined (work hovering (.new Relay.syntaxOnly)).engine.written ∧
      openAfter "/a.ts" (work hovering (.new Relay.syntaxOnly)).engine.written = true ∧
      ((work hovering (.new Relay.syntaxOnly)).engine.relay 0).Opens "/a.ts" ∧
      Abreast (work hovering (.new Relay.syntaxOnly)).engine
        ((Deed.plain .job).perform (work hovering (.new Relay.syntaxOnly))).engine := by
  have hfiles : Relay.DistinctFiles (openedUris hovering) := by
    intro u hu v hv file _ _
    rw [List.mem_singleton.mp hu, List.mem_singleton.mp hv]
  obtain ⟨hdisciplined, hopen, habreast⟩ := window_discipline Relay.syntaxOnly hovering hfiles
    ⟨trivial, trivial, trivial, trivial, trivial⟩
  have hup : ((work hovering (.new Relay.syntaxOnly)).engine.relay 0).link.closed = none := by
    with_unfolding_all rfl
  have hwire : openAfter "/a.ts" (work hovering (.new Relay.syntaxOnly)).engine.written = true := by
    with_unfolding_all rfl
  exact ⟨by with_unfolding_all rfl, hdisciplined, hwire, (hopen hup _).mp hwire,
    habreast (.plain .job) trivial⟩

/-- A document is closed while its formatting waits for the options to be set. -/
def lateFormatting : List Deed :=
  [.opened "file:///a.ts" "typescript" 1 "x", .query "f" (.formatting "file:///a.ts" 2 true),
    .plain .turn, .plain .job, .closed "file:///a.ts",
    .plain (.receive (.obj (Service.Response.toFields
      ⟨0, Service.configureName, 2, true, none, .null⟩))), .plain .turn]

/-- **The next job formats the document**, which is not open. -/
theorem format_past_closing :
    Relay.DistinctFiles (openedUris lateFormatting) ∧
      Meet .editor (lateFormatting ++ [.plain .job]) (.new Relay.syntaxOnly) ∧
      ((work lateFormatting (.new Relay.syntaxOnly)).engine.relay 0).sessions = [] ∧
      openAfter "/a.ts" (work lateFormatting (.new Relay.syntaxOnly)).engine.written = false ∧
      ∃ c, (work (lateFormatting ++ [.plain .job]) (.new Relay.syntaxOnly)).engine.written =
          (work lateFormatting (.new Relay.syntaxOnly)).engine.written ++ [c] ∧
        c.name = Service.formatName ∧ c.files = ["/a.ts"] := by
  refine ⟨?_, ?_, by with_unfolding_all rfl, by with_unfolding_all rfl,
    ⟨4, Service.formatName, (After.formatAll none "/a.ts" ['x']).arguments⟩,
    by with_unfolding_all rfl, rfl, namedFiles_formatAll none "/a.ts" ['x']⟩
  · intro u hu v hv file _ _
    rw [List.mem_singleton.mp hu, List.mem_singleton.mp hv]
  · exact ⟨trivial, trivial, trivial, trivial, trivial, trivial, trivial, trivial, trivial⟩

end Engine

end LanguageRelay
