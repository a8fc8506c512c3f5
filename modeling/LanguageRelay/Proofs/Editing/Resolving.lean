import LanguageRelay.Proofs.Editing.Queries
import LanguageRelay.Proofs.Feature.Completion
/-!
# Completion items resolved

The items of a completion are handed out, and details are asked for later, by a call
for one item. The call writes one command, about what the item stands for
(`Resolves`), and ends with the outcome of that, whatever it is (`Details`).

Details go into an item that was handed out, but change nothing else of it, so it
stands for its entry for good (`Shelved.work`). For that, no call may hand out items
twice: the calls that have are over, and numbers of calls are not given out again
(`Shelved`).
-/

namespace LanguageRelay

namespace Engine

open CompletionItem

/-- What was handed out is there still, and differs in its details at most. -/
def Preserves (e e' : Engine) : Prop :=
  ∀ ref item, e.item? ref = some item → ∃ item', e'.item? ref = some item' ∧ OnlyDetails item item'

/-- The calls that handed out items are over. -/
def Shelved (e : Engine) : Prop :=
  ∀ id ∈ Table.keys e.handedOut, id ≤ e.lastCall ∧ id ∉ Table.keys e.calls

/-- The item that details are for. -/
def itemOf? (source : ItemSource) (e : Engine) : Option CompletionItem :=
  match source with
  | .sent item => some item
  | .kept ref => e.item? ref

/-- **A completion**: it asks about the place, and what is answered comes to an item for
each entry, in order. -/
structure Completes (r : Relay) (s : Session) (p : Position) (ask : Ask) : Prop where
  first : Query.first r (.completion s.uri p) = .ok ask
  command : ask.command = Service.completionsName
  place : ∃ more, ask.arguments = .obj (Service.fileFields s.file p ++ more)
  items : ∀ window body, (∀ entry ∈ body.items, Replaces entry) → ∃ items,
    ask.after.answer window body = .finished (.ok (.completions items)) ∧
      List.Forall₂ (Stands s p) (body.items.filter fun entry => entry.fields?.isSome) items

/-- **An item resolves to its entry**: it stands for the entry also as an editor sends it
back and with details, and its details are asked for by one command, about the place and
for the entry alone. -/
structure Resolves (e : Engine) (s : Session) (p : Position) (entry : Json)
    (item : CompletionItem) : Prop where
  sent : ∃ sent, ofJson? item.toJson = some sent ∧ Stands s p entry sent
  detailed : ∀ item', OnlyDetails item item' → Stands s p entry item'
  written : ∀ source id c s', e.call? id = some c → (e.relay 0).link.closed = none →
    (e.relay 0).session? s.uri = some s' → ∃ name, NamedAs entry item.label name ∧
      (e.query id 0 (.details source item)).written = e.written ++
        [⟨(e.relay 0).nextSeq, Service.completionDetailsName,
          .obj (Service.fileFields s.file p ++ [("entryNames", .arr [name])])⟩]

/-- **Details have come, or not**: the call is over and wrote nothing more, and what was
handed out differs in details at most. So does what the client gets. -/
structure Details (e e' : Engine) (id : Nat) (c : Call) (source : ItemSource)
    (outcome : Except Failure Json) : Prop where
  gone : e'.call? id = none
  written : e'.written = e.written
  preserves : e.Preserves e'
  told : ∀ name item body, c.role = .client name → e.itemOf? source = some item →
    outcome = .ok body → ∃ item', OnlyDetails item item' ∧ (name, .ok (.item item')) ∈ e'.ended ∧
      (∀ ref, source = .kept ref → e'.item? ref = some item') ∧
      ∀ key, key ≠ "detail" → key ≠ "documentation" →
        item'.toJson.get? key = item.toJson.get? key

variable {t : Terms} {m : Moment} {d : Deed} {e e' e'' : Engine} {id : Nat} {c : Call}
variable {s : Session} {p : Position} {entry : Json} {item : CompletionItem}

/-! ## One command -/

/-- **A query writes one command**, over an open connection. -/
theorem written_query (h : e.Orderly) (hcall : e.call? id = some c)
    (hup : (e.relay 0).link.closed = none) {q : Query} {a : Ask}
    (hq : q.first (e.relay 0) = .ok a) :
    (e.query id 0 q).written = e.written ++ [⟨(e.relay 0).nextSeq, a.command, a.arguments⟩] := by
  have hask := Relay.ask_of_taken h.link.numbered (h.sound.refusal?_eq.trans hup) a.command
    a.arguments
  have hok : (e.operate 0 (Relay.ask a.command a.arguments)).2 = .ok (e.relay 0).nextSeq := by
    rw [operate_eq, hask]
  obtain ⟨watch, outcome, js, ts, heq, -⟩ := waitFor_eq h.relays h.collected h.link.numbered hcall a
  have hquery : e.query id 0 q = e.ask id 0 a (.answer a.after) := by rw [query, hq]
  rw [hquery, ask_of_written hok, operate_eq, hask, heq]
  exact written_wrote id c a watch outcome

/-- A call that asked for details ends, whatever the outcome is. -/
theorem proceed_details (source : ItemSource) (outcome : Except Failure Json) :
    e.proceed id 0 (.answer (.details source)) outcome =
      e.finish id (outcome.map (.details source)) := by
  cases outcome <;> rfl

/-! ## What is kept of an answer -/

theorem Preserves.refl (e : Engine) : e.Preserves e := fun _ item h => ⟨item, h, .refl item⟩

theorem Preserves.trans (h : e.Preserves e') (h' : e'.Preserves e'') : e.Preserves e'' := by
  intro ref item hitem
  obtain ⟨item', hitem', hdetails⟩ := h ref item hitem
  obtain ⟨item'', hitem'', hdetails'⟩ := h' ref item' hitem'
  exact ⟨item'', hitem'', hdetails.trans hdetails'⟩

theorem item?_congr (h : e'.handedOut = e.handedOut) (ref : ItemRef) :
    e'.item? ref = e.item? ref := by
  rw [item?, item?, h]

theorem Preserves.of_same (h : e'.handedOut = e.handedOut) : e.Preserves e' := fun ref item hitem =>
  ⟨item, (item?_congr h ref).trans hitem, .refl item⟩

/-- An item is put in its place, and no other is touched. -/
theorem item?_setItem {ref : ItemRef} (h : e.item? ref = some item) (item' : CompletionItem)
    (other : ItemRef) :
    (e.setItem ref item').item? other = if other = ref then some item' else e.item? other := by
  obtain ⟨call, index⟩ := ref
  obtain ⟨call', index'⟩ := other
  obtain ⟨items, hitems, hindex⟩ := Option.bind_eq_some_iff.mp h
  obtain ⟨hlt, -⟩ := List.getElem?_eq_some_iff.mp hindex
  simp only at hitems hindex hlt
  by_cases hcall : call = call'
  · subst hcall
    by_cases hplace : index = index'
    · subst hplace
      simp [item?, setItem, Table.get?_update, hitems, hlt]
    · simp [item?, setItem, Table.get?_update, hitems, hplace, Ne.symm hplace]
  · simp [item?, setItem, Table.get?_update, hcall, Ne.symm hcall]

/-- **What is kept of an answer** changes details at most, if the call handed out
nothing before. -/
theorem preserves_keep (hnew : id ∉ Table.keys e.handedOut) (answer : Answer) :
    e.Preserves (e.keep id answer).1 := by
  unfold keep
  split
  · rename_i items
    intro ref item hitem
    obtain ⟨old, hold, hindex⟩ := Option.bind_eq_some_iff.mp hitem
    have hne : id ≠ ref.call := by
      rintro rfl
      exact hnew (Table.mem_keys_iff.mpr (by rw [hold]; rfl))
    refine ⟨item, ?_, .refl item⟩
    simp only [item?, Table.get?_put, if_neg hne]
    exact hitem
  · exact .refl e
  · rename_i ref body
    split
    · exact .refl e
    · rename_i kept hkept
      intro other item hitem
      rw [item?_setItem hkept]
      by_cases hother : other = ref
      · subst hother
        cases hkept.symm.trans hitem
        exact ⟨_, if_pos rfl, onlyDetails_withDetails kept body⟩
      · exact ⟨item, by rw [if_neg hother, hitem], .refl item⟩
  · exact .refl e

/-- A call is the only one under which something is handed out when it ends. -/
theorem keys_keep (id : Nat) (answer : Answer) (e : Engine) :
    ∀ k ∈ Table.keys (e.keep id answer).1.handedOut, k = id ∨ k ∈ Table.keys e.handedOut := by
  unfold keep
  split
  · exact fun k hk => Table.mem_keys_put.mp hk
  · exact fun k hk => .inr hk
  · split
    · exact fun k hk => .inr hk
    · intro k hk
      simp only [setItem, Table.keys_update] at hk
      exact .inr hk
  · exact fun k hk => .inr hk

/-! ## A call ends -/

/-- What is handed out when a call ends is what is kept of its answer. -/
theorem handedOut_finish_eq (hcall : e.call? id = some c) (outcome : Except Failure Answer) :
    (e.finish id outcome).handedOut = e.handedOut ∨ ∃ answer, outcome = .ok answer ∧
      (e.finish id outcome).handedOut =
        (keep id answer { e with calls := Table.erase id e.calls }).1.handedOut := by
  unfold finish
  simp only [hcall]
  cases outcome with
  | error f => exact .inl (handedOut_report _ _ _)
  | ok answer => exact .inr ⟨answer, rfl, handedOut_report _ _ _⟩

/-- The items of an answer are handed out under the call. -/
theorem item?_finish (hcall : e.call? id = some c) (items : List CompletionItem) (i : Nat) :
    (e.finish id (.ok (.completions items))).item? ⟨id, i⟩ = items[i]? := by
  have hhanded : (e.finish id (.ok (.completions items))).handedOut =
      Table.put id items e.handedOut := by
    unfold finish
    simp only [hcall]
    exact handedOut_report _ _ _
  simp only [item?, hhanded, Table.get?_put]
  rfl

/-- **The client gets the item with its details**, as it is kept. -/
theorem told_details {source : ItemSource} {name : String} (hcall : e.call? id = some c)
    (hrole : c.role = .client name) (hitem : e.itemOf? source = some item) (body : Json) :
    (name, .ok (.item (item.withDetails body))) ∈
        (e.finish id (.ok (.details source body))).ended ∧
      ∀ ref, source = .kept ref →
        (e.finish id (.ok (.details source body))).item? ref = some (item.withDetails body) := by
  unfold finish
  simp only [hcall, hrole]
  cases source with
  | sent given =>
    cases hitem
    exact ⟨List.mem_append_right _ (List.mem_singleton_self _), fun ref heq => by cases heq⟩
  | kept ref =>
    have hkept : item? ref { e with calls := Table.erase id e.calls } = some item := hitem
    simp only [keep, hkept, report]
    refine ⟨List.mem_append_right _ (List.mem_singleton_self _), fun other heq => ?_⟩
    cases heq
    exact (item?_setItem hkept _ ref).trans (if_pos rfl)

/-- A call that ends is over, and writes nothing. -/
theorem over_finish (hcall : e.call? id = some c) (outcome : Except Failure Answer) :
    (e.finish id outcome).written = e.written ∧ (e.finish id outcome).call? id = none := by
  obtain ⟨_, _, _, hfinish, -⟩ := finish_of_call hcall outcome
  rw [hfinish]
  exact ⟨rfl, by simp [call?, Table.get?_erase]⟩

/-- The calls that go on when one ends were there before. -/
theorem mem_calls_finish (hcall : e.call? id = some c) (outcome : Except Failure Answer) :
    ∀ k ∈ Table.keys (e.finish id outcome).calls, k ≠ id ∧ k ∈ Table.keys e.calls := by
  obtain ⟨_, _, _, hfinish, -⟩ := finish_of_call hcall outcome
  intro k hk
  rw [hfinish, Table.mem_keys_iff] at hk
  by_cases heq : id = k
  · simp [Table.get?_erase, heq] at hk
  · exact ⟨Ne.symm heq, Table.mem_keys_iff.mpr (by simpa [Table.get?_erase, heq] using hk)⟩

/-- A call that ends may have handed out items then. -/
theorem Shelved.finish_of_keys (hs : e.Shelved) (h : e.Orderly) (hcall : e.call? id = some c)
    {outcome : Except Failure Answer} (hkeys : ∀ k ∈ Table.keys (e.finish id outcome).handedOut,
      k = id ∨ k ∈ Table.keys e.handedOut) : (e.finish id outcome).Shelved := by
  have hlast : (e.finish id outcome).lastCall = e.lastCall := by
    obtain ⟨_, _, _, hfinish, -⟩ := finish_of_call hcall outcome
    rw [hfinish]
  have hcalls := mem_calls_finish hcall outcome
  intro k hk
  rw [hlast]
  rcases hkeys k hk with rfl | hold
  · exact ⟨h.made _ (mem_of_call? hcall), fun hmem => (hcalls _ hmem).1 rfl⟩
  · exact ⟨(hs k hold).1, fun hmem => (hs k hold).2 (hcalls _ hmem).2⟩

/-- **A call that ends changes details at most** of what others handed out. -/
theorem Shelved.finish (hs : e.Shelved) (h : e.Orderly) (hcall : e.call? id = some c)
    (outcome : Except Failure Answer) :
    (e.finish id outcome).Shelved ∧ e.Preserves (e.finish id outcome) := by
  have hrunning : id ∈ Table.keys e.calls := List.mem_map_of_mem (mem_of_call? hcall)
  have hnew : id ∉ Table.keys e.handedOut := fun hmem => (hs id hmem).2 hrunning
  rcases handedOut_finish_eq hcall outcome with hsame | ⟨answer, -, hkept⟩
  · exact ⟨hs.finish_of_keys h hcall fun k hk => .inr (hsame ▸ hk), .of_same hsame⟩
  · have hpreserves := preserves_keep (e := { e with calls := Table.erase id e.calls }) hnew answer
    have hkeys := keys_keep id answer { e with calls := Table.erase id e.calls }
    rw [← hkept] at hkeys
    refine ⟨hs.finish_of_keys h hcall hkeys, fun ref item hitem => ?_⟩
    rw [item?_congr hkept]
    exact hpreserves ref item hitem

/-! ## Between two deeds -/

/-- What was handed out stays so, if numbers of calls are not given out again. -/
theorem Shelved.of_same (hs : e.Shelved) (hhanded : e'.handedOut = e.handedOut)
    (hlast : e.lastCall ≤ e'.lastCall)
    (hcalls : ∀ k ≤ e.lastCall, k ∈ Table.keys e'.calls → k ∈ Table.keys e.calls) :
    e'.Shelved ∧ e.Preserves e' := by
  refine ⟨fun k hk => ?_, .of_same hhanded⟩
  rw [hhanded] at hk
  obtain ⟨hle, hover⟩ := hs k hk
  exact ⟨hle.trans hlast, fun hmem => hover (hcalls k hle hmem)⟩

/-- So it does where the calls that there are change. -/
theorem Shelved.of_keys (hs : e.Shelved) (hhanded : e'.handedOut = e.handedOut)
    (hlast : e'.lastCall = e.lastCall) (hcalls : Table.keys e'.calls = Table.keys e.calls) :
    e'.Shelved ∧ e.Preserves e' :=
  hs.of_same hhanded hlast.ge fun _ _ hmem => hcalls ▸ hmem

theorem Shelved.takeIn (hs : e.Shelved) (h : e.Orderly) (r : Relay) :
    (e.takeIn r).Shelved ∧ e.Preserves (e.takeIn r) := by
  have hheeded := heeded_takeIn h.apart r
  have hhanded : (e.takeIn r).handedOut = e.handedOut := by
    rw [hheeded.same]
    rfl
  have hlast : (e.takeIn r).lastCall = e.lastCall := by
    rw [hheeded.same]
    rfl
  refine hs.of_keys hhanded hlast ?_
  rw [hheeded.calls]
  simp [Table.keys, setRelay]

/-- **What happens between two deeds** changes details at most. -/
theorem Shelved.shift (hs : e.Shelved) (h : e.Orderly) (hshift : Shift t e e') :
    e'.Shelved ∧ e.Preserves e' := by
  cases hshift with
  | served => exact hs.takeIn h _
  | made role work =>
    refine hs.of_same rfl (Nat.le_succ _) fun k hle hmem => ?_
    rcases Table.mem_keys_put.mp hmem with rfl | hmem
    · exact absurd hle (Nat.not_succ_le_self _)
    · exact hmem
  | asked => exact hs.of_keys rfl rfl (Table.keys_update ..)
  | waited =>
    obtain ⟨htaken, hpreserves⟩ := hs.takeIn h (Relay.addWaiter _ _ _)
    refine And.imp_right hpreserves.trans ?_
    exact htaken.of_keys rfl rfl (Table.keys_update ..)
  | withdrew => exact hs.of_keys rfl rfl (Table.keys_update ..)
  | dropped => exact hs.of_keys rfl rfl (Table.keys_update ..)
  | left => exact hs.of_keys rfl rfl rfl
  | altered => exact hs.of_keys rfl rfl (Table.keys_update ..)
  | ended hcall => exact hs.finish h hcall _
  | logged => exact hs.of_keys rfl rfl rfl
  | timed => exact hs.of_keys rfl rfl rfl

theorem Shelved.shifts (hs : e.Shelved) (h : e.Orderly) (hshifts : Shifts t e e') :
    e'.Shelved ∧ e.Preserves e' := by
  refine (hshifts.keep (P := fun e' => e'.Orderly ∧ e'.Shelved ∧ e.Preserves e') ?_
    ⟨h, hs, .refl e⟩).2
  rintro e₁ e₂ hshift ⟨h₁, hs₁, hpreserves⟩
  obtain ⟨hs₂, hpreserves'⟩ := hs₁.shift h₁ hshift
  exact ⟨orderly_shift hshift h₁, hs₂, hpreserves.trans hpreserves'⟩

/-- **So does a deed.** -/
theorem Shelved.perform (hs : m.engine.Shelved) (h : m.Orderly) (d : Deed) :
    (d.perform m).engine.Shelved ∧ m.engine.Preserves (d.perform m).engine := by
  rcases perform_cases h (meet_any [d] m).1 with ⟨r, -, heq⟩ | hshifts
  · rw [heq]
    exact hs.takeIn h.engine r
  · exact hs.shifts h.engine hshifts

/-- **What was handed out differs in its details at most**, whatever is done since. -/
theorem Shelved.work (hs : m.engine.Shelved) (h : m.Orderly) (deeds : List Deed) :
    (work deeds m).engine.Shelved ∧ m.engine.Preserves (work deeds m).engine := by
  refine (work_induction (P := fun m' => m'.Orderly ∧ m'.engine.Shelved ∧
    m.engine.Preserves m'.engine) ⟨h, hs, .refl _⟩ (meet_any deeds m) ?_).2
  rintro m' d ⟨h', hs', hpreserves⟩ hmeets
  obtain ⟨hs'', hpreserves'⟩ := hs'.perform h' d
  exact ⟨orderly_perform h' hmeets, hs'', hpreserves.trans hpreserves'⟩

theorem shelved_new (setup : Setup) : (Moment.new setup).engine.Shelved := fun _ hk => nomatch hk

/-! ## From completion to details -/

/-- **At every place of an open document there is a completion.** -/
theorem exists_completes {r : Relay} (hopen : r.session? s.uri = some s) (p : Position) :
    ∃ ask, Completes r s p ask := by
  let place : Json :=
    .obj (Service.fileFields s.file p ++ Query.wordField (wordBefore s.text p))
  refine ⟨⟨Service.completionsName, place, r.setup.window, .completion s.uri place⟩,
    bind_eq_ok.mpr ⟨s, require_eq_ok.mpr hopen, rfl⟩, rfl, ⟨_, rfl⟩,
    fun window body hreplaces => ?_⟩
  obtain ⟨items, hitems, hstands⟩ := exists_ofEntries hreplaces s p
    (Query.wordField (wordBefore s.text p))
  exact ⟨items, by simp only [After.answer, place, hitems]; rfl, hstands⟩

/-- The details of an item are asked for while its document is open. -/
theorem first_details {r : Relay} {s' : Session} (h : Stands s p entry item)
    (hopen : r.session? s.uri = some s') (source : ItemSource) :
    ∃ name, NamedAs entry item.label name ∧
      Query.first r (.details source item) = .ok ⟨Service.completionDetailsName,
        .obj (Service.fileFields s.file p ++ [("entryNames", .arr [name])]), r.setup.window,
        .details source⟩ := by
  obtain ⟨handle, name, hhandle, huri, hnamed, harguments⟩ := h.asked
  refine ⟨name, hnamed, bind_eq_ok.mpr ⟨handle, hhandle, bind_eq_ok.mpr ⟨s', ?_, ?_⟩⟩⟩
  · rwa [require_eq_ok, huri]
  · rw [harguments]
    rfl

/-- **What stands for an entry resolves to it.** -/
theorem resolves_of_stands (h : e.Orderly) (hstands : Stands s p entry item) :
    Resolves e s p entry item where
  sent := hstands.sent
  detailed _ hdetails := hstands.onlyDetails hdetails
  written source id c s' hcall hup hopen := by
    obtain ⟨name, hnamed, hfirst⟩ := first_details hstands hopen source
    exact ⟨name, hnamed, written_query h hcall hup hfirst⟩

/-- **Whatever the outcome is**, a call for details ends with them, or without. -/
theorem details_proceed (h : e.Orderly) (hs : e.Shelved) (hcall : e.call? id = some c)
    (source : ItemSource) (outcome : Except Failure Json) :
    Details e (e.proceed id 0 (.answer (.details source)) outcome) id c source outcome := by
  rw [proceed_details]
  obtain ⟨hwritten, hover⟩ := over_finish hcall (outcome.map (.details source))
  refine ⟨hover, hwritten, (hs.finish h hcall _).2, ?_⟩
  rintro name item body hrole hitem rfl
  obtain ⟨htold, hkept⟩ := told_details hcall hrole hitem body
  have hdetails := onlyDetails_withDetails item body
  exact ⟨_, hdetails, htold, hkept,
    fun key hdetail hdocumentation => hdetails.get?_toJson hdetail hdocumentation⟩

/-- **Completion items resolve to what was completed.** At any time, a completion at a
place of an open document comes to items that stand for the entries of its answer, and
these are handed out. What stands for an entry resolves to it, and details change nothing
else of what was handed out, when they come or later. -/
theorem completions_resolve (setup : Setup) (deeds : List Deed) (s : Session) (p : Position) :
    let m := work deeds (.new setup)
    (∀ uri, (m.engine.relay 0).session? uri = some s →
      s.uri = uri ∧ ∃ ask, Completes (m.engine.relay 0) s p ask) ∧
    (∀ items id c, m.engine.call? id = some c → ∀ i : Nat,
      (m.engine.finish id (.ok (.completions items))).item? ⟨id, i⟩ = items[i]?) ∧
    (∀ entry item, Stands s p entry item → Resolves m.engine s p entry item) ∧
    (∀ source outcome id c, m.engine.call? id = some c →
      Details m.engine (m.engine.proceed id 0 (.answer (.details source)) outcome) id c source
        outcome) ∧
    ∀ more, m.engine.Preserves (work more m).engine := by
  intro m
  have horderly : m.Orderly := orderly_work setup (meet_any deeds _)
  have hshelved : m.engine.Shelved := ((shelved_new setup).work (orderly_new setup) deeds).1
  refine ⟨fun uri hopen => ?_, fun items id c hcall i => item?_finish hcall items i,
    fun entry item hstands => resolves_of_stands horderly.engine hstands,
    fun source outcome id c hcall => details_proceed horderly.engine hshelved hcall source outcome,
    fun more => (hshelved.work horderly more).2⟩
  obtain rfl : s.uri = uri := (horderly.engine.sound.filed uri s hopen).1
  exact ⟨rfl, exists_completes hopen p⟩

/-- A document, and an entry for what may be written at its start. -/
def completing : Session := ⟨"file:///a.ts", "/a.ts", "typescript", 1, ['x']⟩

def memberEntry : Json := .obj [("name", .str "ab"), ("source", .str "./lib")]

/-- The item that stands for the entry. -/
def memberItem : CompletionItem :=
  { label := "ab", kind := some .property, deprecated := false, detail := none
    documentation := none, sortText := none, insertText := none, textEdit := none
    data := some (CompletionHandle.toJson ⟨"file:///a.ts", "/a.ts", 1, 1, "ab", some "./lib"⟩)
    others := [] }

/-- The item is handed out, and its details are called for. -/
def detailsBegun : List Deed :=
  [.opened "file:///a.ts" "typescript" 1 "x", .query "c" (.completion "file:///a.ts" ⟨0, 0⟩),
    .plain .turn, .plain .job,
    .plain (.receive (.obj (Service.Response.toFields ⟨0, Service.completionsName, 2, true, none,
      .arr [.int 7, memberEntry]⟩))),
    .plain .turn, .plain .job, .query "d" (.details (.kept ⟨1, 0⟩) memberItem)]

/-- The entry is asked for with its source, and its type becomes the detail of the item. -/
theorem completions_resolve_member :
    let m := work detailsBegun (.new Relay.syntaxOnly)
    let body : Json := .arr [.obj [("displayParts", .str "ab: string")]]
    m.engine.item? ⟨1, 0⟩ = some memberItem ∧
    Stands completing ⟨0, 0⟩ memberEntry memberItem ∧
    (∃ name, NamedAs memberEntry "ab" name ∧
      (m.engine.query 2 0 (.details (.kept ⟨1, 0⟩) memberItem)).written = m.engine.written ++
        [⟨3, Service.completionDetailsName, .obj (Service.fileFields "/a.ts" ⟨0, 0⟩ ++
          [("entryNames", .arr [name])])⟩]) ∧
    (∃ item', OnlyDetails memberItem item' ∧
      (m.engine.proceed 2 0 (.answer (.details (.kept ⟨1, 0⟩))) (.ok body)).item? ⟨1, 0⟩ =
        some item') ∧
    (memberItem.withDetails body).detail = some "ab: string" := by
  intro m body
  obtain ⟨hcompletes, -, hresolves, hanswered, -⟩ :=
    completions_resolve Relay.syntaxOnly detailsBegun completing ⟨0, 0⟩
  have hplace : Query.first ((work detailsBegun (.new Relay.syntaxOnly)).engine.relay 0)
      (.completion "file:///a.ts" ⟨0, 0⟩) =
      .ok ⟨Service.completionsName, .obj (Service.fileFields "/a.ts" ⟨0, 0⟩), none,
        .completion "file:///a.ts" (.obj (Service.fileFields "/a.ts" ⟨0, 0⟩))⟩ := by
    with_unfolding_all rfl
  have hstand : Stands completing ⟨0, 0⟩ memberEntry memberItem := by
    obtain ⟨-, ask, hask⟩ := hcompletes "file:///a.ts" (by with_unfolding_all rfl)
    obtain rfl := Except.ok.inj (hask.first.symm.trans hplace)
    obtain ⟨items, hanswer, hstand⟩ := hask.items none (.arr [.int 7, memberEntry]) (by
      intro entry hentry fields hspan
      simp only [Json.items, List.mem_cons, List.not_mem_nil, or_false] at hentry
      rcases hentry with rfl | rfl <;> cases hspan)
    have hone : After.answer none
        (.completion "file:///a.ts" (.obj (Service.fileFields "/a.ts" ⟨0, 0⟩)))
        (.arr [.int 7, memberEntry]) = .finished (.ok (.completions [memberItem])) := by
      with_unfolding_all rfl
    obtain rfl := Answer.completions.inj
      (Except.ok.inj (Progress.finished.inj (hanswer.symm.trans hone)))
    exact (List.forall₂_cons.mp hstand).1
  have hcall : m.engine.call? 2 =
      some ⟨.client "d", .created (.query 0 (.details (.kept ⟨1, 0⟩) memberItem)), false⟩ := by
    with_unfolding_all rfl
  have hitem : m.engine.item? ⟨1, 0⟩ = some memberItem := by with_unfolding_all rfl
  obtain ⟨name, hnamed, hwritten⟩ :=
    (hresolves memberEntry memberItem hstand).written (.kept ⟨1, 0⟩) 2 _ completing hcall
    (by with_unfolding_all rfl) (by with_unfolding_all rfl)
  have hseq : (m.engine.relay 0).nextSeq = 3 := by with_unfolding_all rfl
  rw [hseq] at hwritten
  obtain ⟨item', hdetails, -, hkept, -⟩ :=
    (hanswered (.kept ⟨1, 0⟩) (.ok body) 2 _ hcall).told "d" memberItem body rfl hitem rfl
  exact ⟨hitem, hstand, ⟨name, hnamed, hwritten⟩, ⟨item', hdetails, hkept _ rfl⟩,
    by with_unfolding_all rfl⟩

end Engine

end LanguageRelay
