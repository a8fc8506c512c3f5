import LanguageRelay.Proofs.Config.Texts
import LanguageRelay.Proofs.Relay.Naming
import LanguageRelay.Proofs.Service.Locations
/-!
# Completion items and their entries

An item stands for an entry of the analysis server, at the place that was asked
about (`Stands`): its label is the name of the entry, and its handle leads back to
the document, the place, the name and the source. Each entry that is an object has
such an item (`exists_ofEntries`).

The handle is all that is looked at when the details of an item are asked for, so
what is asked is about that place and that entry (`Stands.asked`). An item that goes
to the editor and comes back stands for its entry as before (`Stands.sent`), and so
does one that details were put into (`OnlyDetails`).
-/

namespace LanguageRelay

/-! ## Texts of values -/

namespace Json

/-- Inside a message every value shows. -/
theorem literal_ne_empty (v : Json) : v.literal ≠ "" := by
  cases v with
  | null => decide
  | bool b => cases b <;> decide
  | int n =>
    have hdigits := Numeral.digits_ne_nil n.natAbs
    by_cases hn : n < 0 <;> simp [literal, Numeral.showInt, hn, hdigits]
  | float x => exact x.text_ne_empty
  | str s => simp [literal, quoted, Quoted.quote]
  | arr items => simp [literal]
  | obj fields => simp [literal]

/-- **The text of a truthy value is not empty.** -/
theorem text_ne_empty {v : Json} (h : v.isTruthy) : v.text ≠ "" := by
  cases v with
  | str s => simpa [isTruthy, text] using h
  | _ => exact literal_ne_empty _

end Json

namespace Table

variable {κ α : Type} [DecidableEq κ]

theorem get?_append (key : κ) (t t' : List (κ × α)) :
    get? key (t ++ t') = (get? key t).or (get? key t') := by
  induction t with
  | nil => rfl
  | cons e rest ih =>
    obtain ⟨k, v⟩ := e
    by_cases hk : k = key <;> simp [get?, hk, ih]

/-- Where every entry of a key is kept, the first one is. -/
theorem get?_filter {key : κ} {keep : κ × α → Bool} (h : ∀ value, keep (key, value) = true)
    (t : List (κ × α)) : get? key (t.filter keep) = get? key t := by
  induction t with
  | nil => rfl
  | cons e rest ih =>
    obtain ⟨k, v⟩ := e
    by_cases hk : k = key
    · subst hk
      simp [h v, get?]
    · by_cases hkeep : keep (k, v) = true <;> simp [hkeep, get?, hk, ih]

end Table

namespace CompletionItem

/-! ## What an item stands for -/

/-- The name of an entry; it may be missing. -/
def nameOf (entry : Json) : String := (entry.get? "name").elim "" Json.text

/-- The source of an entry, as a text, if it is truthy. -/
inductive SourceOf (entry : Json) : Option String → Prop where
  | missing (h : (entry.get "source").isTruthy = false) : SourceOf entry none
  | given (h : (entry.get "source").isTruthy = true) :
      SourceOf entry (some (entry.get "source").text)

/-- If the entry is to replace something, what it replaces is a span. -/
def Replaces (entry : Json) : Prop :=
  ∀ fields, entry.get "replacementSpan" = .obj fields →
    ∃ range, Service.Spanned (.obj fields) (.ok range)

/-- **The item stands for the entry**, at a place in a document: its label is the name
of the entry, and its handle leads back to the document, the place and the entry. -/
structure Stands (s : Session) (p : Position) (entry : Json) (item : CompletionItem) : Prop where
  label : item.label = nameOf entry
  handle : ∃ source, SourceOf entry source ∧
    item.handle = .ok ⟨s.uri, s.file, p.line + 1, p.character + 1, item.label, source⟩

/-- How an entry is named when its details are asked for: by its name, with its source
if it has one. -/
inductive NamedAs (entry : Json) (name : String) : Json → Prop where
  | plain (h : (entry.get "source").isTruthy = false) : NamedAs entry name (.str name)
  | sourced (h : (entry.get "source").isTruthy = true) :
      NamedAs entry name (.obj [("name", .str name), ("source", .str (entry.get "source").text)])

/-- The items differ in detail and documentation at most. -/
def OnlyDetails (item item' : CompletionItem) : Prop :=
  ∃ detail documentation, item' = { item with detail, documentation }

variable {s : Session} {p : Position} {entry : Json} {item item' item'' : CompletionItem}

/-! ## Items of entries -/

theorem sourceOf_truthyText (entry : Json) : SourceOf entry (truthyText (entry.get "source")) := by
  unfold truthyText
  split
  · rename_i h
    exact .given h
  · rename_i h
    exact .missing (by simpa using h)

/-- The handle of an entry has the place that was asked about. -/
theorem handleOf_fileFields (name uri file : String) (source : Json) (p : Position)
    (more : Fields) : handleOf name source uri (.obj (Service.fileFields file p ++ more)) =
      .ok ⟨uri, file, p.line + 1, p.character + 1, name, truthyText source⟩ := by
  rfl

theorem exists_replacement? (h : Replaces entry) (newText : String) :
    ∃ edit, replacement? (entry.get "replacementSpan") newText = .ok edit := by
  unfold replacement?
  split
  · rename_i fields hspan
    obtain ⟨range, hrange⟩ := h fields hspan
    rw [hspan, Service.spanRange_eq_iff.mpr hrange]
    exact ⟨_, rfl⟩
  · exact ⟨none, rfl⟩

/-- **Each entry that is an object has an item**, which stands for it. -/
theorem exists_ofEntry {fields : Fields} (h : Replaces (.obj fields)) (s : Session) (p : Position)
    (more : Fields) : ∃ item,
      ofEntry (.obj fields) s.uri (.obj (Service.fileFields s.file p ++ more)) = .ok item ∧
        Stands s p (.obj fields) item := by
  obtain ⟨edit, hedit⟩ := exists_replacement? h
    ((truthyText ((Json.obj fields).get "insertText")).getD (nameOf (.obj fields)))
  rw [nameOf] at hedit
  simp only [ofEntry, hedit, handleOf_fileFields]
  refine ⟨_, rfl, rfl, _, sourceOf_truthyText _, handle_of_data rfl⟩

/-- So have all of them, in order. -/
theorem exists_ofEntries {entries : List Json} (h : ∀ entry ∈ entries, Replaces entry)
    (s : Session) (p : Position) (more : Fields) : ∃ items,
      ofEntries s.uri (.obj (Service.fileFields s.file p ++ more)) entries = .ok items ∧
        List.Forall₂ (Stands s p) (entries.filter fun entry => entry.fields?.isSome) items := by
  induction entries with
  | nil => exact ⟨[], rfl, .nil⟩
  | cons entry rest ih =>
    obtain ⟨items, hitems, hstands⟩ :=
      ih fun entry hentry => h entry (List.mem_cons_of_mem _ hentry)
    cases entry with
    | obj fields =>
      obtain ⟨item, hitem, hstand⟩ := exists_ofEntry (h _ List.mem_cons_self) s p more
      exact ⟨item :: items, by rw [ofEntries, hitem, hitems]; rfl, .cons hstand hstands⟩
    | _ => exact ⟨items, hitems, hstands⟩

/-! ## Asking for details -/

/-- **The details of an item are asked for by the place and the entry it stands for.** -/
theorem Stands.asked (h : Stands s p entry item) : ∃ handle name,
    item.handle = .ok handle ∧ handle.uri = s.uri ∧ NamedAs entry item.label name ∧
      detailArguments handle =
        .obj (Service.fileFields s.file p ++ [("entryNames", .arr [name])]) := by
  obtain ⟨source, hsource, hhandle⟩ := h.handle
  cases hsource with
  | missing htruthy => exact ⟨_, _, hhandle, rfl, .plain htruthy, rfl⟩
  | given htruthy =>
    refine ⟨_, _, hhandle, rfl, .sourced htruthy, ?_⟩
    have hshown : (entry.get "source").text.isEmpty = false := by
      simpa using Json.text_ne_empty htruthy
    simp only [detailArguments, hshown]
    rfl

/-! ## Details -/

theorem OnlyDetails.refl (item : CompletionItem) : OnlyDetails item item := ⟨_, _, rfl⟩

theorem OnlyDetails.trans (h : OnlyDetails item item') (h' : OnlyDetails item' item'') :
    OnlyDetails item item'' := by
  obtain ⟨_, _, rfl⟩ := h
  obtain ⟨detail, documentation, rfl⟩ := h'
  exact ⟨detail, documentation, rfl⟩

/-- **Whatever comes back, an item changes in detail and documentation at most.** -/
theorem onlyDetails_withDetails (item : CompletionItem) (body : Json) :
    OnlyDetails item (item.withDetails body) := by
  unfold withDetails
  split
  · exact ⟨_, _, rfl⟩
  · exact .refl item

/-- So it stands for its entry as before. -/
theorem Stands.onlyDetails (h : Stands s p entry item) (hdetails : OnlyDetails item item') :
    Stands s p entry item' := by
  obtain ⟨_, _, rfl⟩ := hdetails
  exact ⟨h.label, h.handle⟩

/-! ## Items as editors see them -/

theorem get?_field? (key other : String) (v : Option Json) :
    Table.get? other (Json.field? key v) = if key = other then v else none := by
  cases v <;> simp [Json.field?, Table.get?]

/-- An editor finds the handle where the item has it. -/
theorem get?_toJson_data {data : Json} (h : item.data = some data) :
    item.toJson.get? "data" = some data := by
  have htags : Table.get? "data" (if item.deprecated then [("tags", Json.arr [.int 1])] else []) =
      none := by
    split <;> simp [Table.get?]
  simp [toJson, Json.get?, Json.fields, Table.get?_append, get?_field?, Table.get?, h, htags]

/-- **What an editor sees of an item** changes in detail and documentation at most. -/
theorem OnlyDetails.get?_toJson (h : OnlyDetails item item') {key : String}
    (hdetail : key ≠ "detail") (hdocumentation : key ≠ "documentation") :
    item'.toJson.get? key = item.toJson.get? key := by
  obtain ⟨detail, documentation, rfl⟩ := h
  have hothers : ∀ documented : Bool, Table.get? key
      (item.others.filter fun f => f.1 != "documentation" || documented) =
        Table.get? key item.others := fun documented =>
    Table.get?_filter (by simp [hdocumentation]) item.others
  simp only [toJson, Json.get?, Json.fields, Table.get?_append, get?_field?, hothers,
    if_neg (Ne.symm hdetail), if_neg (Ne.symm hdocumentation)]

/-- **An item that comes back from an editor** stands for its entry as before. -/
theorem Stands.sent (h : Stands s p entry item) :
    ∃ sent, ofJson? item.toJson = some sent ∧ Stands s p entry sent := by
  obtain ⟨source, hsource, hhandle⟩ := h.handle
  cases hdata : item.data with
  | none => simp [CompletionItem.handle, hdata] at hhandle
  | some data =>
    have hback : item.toJson.get "data" = data := by
      rw [Json.get, get?_toJson_data hdata, Option.getD_some]
    cases data with
    | obj fields =>
      obtain ⟨detail, others, hsent⟩ : ∃ detail others, ofJson? item.toJson =
          some (ofEditor item.label detail (some (.obj fields)) others) := by
        have hlabel : (item.toJson.get "label").str? = some item.label := rfl
        simp only [ofJson?, hlabel, hback]
        exact ⟨_, _, rfl⟩
      refine ⟨_, hsent, h.label, source, hsource, ?_⟩
      refine Eq.trans ?_ hhandle
      simp [CompletionItem.handle, ofEditor, hdata]
    | _ => simp [CompletionItem.handle, hdata, CompletionHandle.ofJson?] at hhandle

end CompletionItem

end LanguageRelay
