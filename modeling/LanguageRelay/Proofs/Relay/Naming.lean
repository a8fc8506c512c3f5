import LanguageRelay.Proofs.Checks.Sound
import LanguageRelay.Proofs.Fallible
import LanguageRelay.Proofs.Relay.Files
import LanguageRelay.Relay.Query
/-!
# Which files commands name

A command names a file in its argument `file`, or several in `files`. **What a
query writes first names files that are open** (`first_proper`): the query looks
for the session of its document, and takes the file from there.

One query does not: the one for the details of a completion item looks for the
session of the document in the item's handle, and names the file in the handle.
So the item has to be genuine: its handle was made from an open document, and
both are still of each other (`genuine_ofEntries`).
-/

namespace LanguageRelay

/-- The files that arguments name. -/
def Json.namedFiles (arguments : Json) : List String :=
  (arguments.get "file").str?.toList ++ (arguments.get "files").items.filterMap Json.str?

/-- The files a command names. -/
def Service.Command.files (c : Service.Command) : List String := c.arguments.namedFiles

/-- A completion item with a handle has the file of its document in it. -/
def CompletionItem.Genuine (item : CompletionItem) : Prop :=
  ∀ handle, item.handle = .ok handle → Uri.fileOf? handle.uri = some handle.file

/-- A query names no file of its own: a command that is written as it is names
none, and an item is genuine. -/
def Query.Honest : Query → Prop
  | .command _ arguments _ => arguments.namedFiles = []
  | .details _ item => item.Genuine
  | _ => True

/-- What is to be made of a response is about the file of a document. The options
for formatting a file were `prepared`. -/
def After.Faithful (prepared : String → Prop) : After → Prop
  | .completion uri place =>
    ∃ file, place.get "file" = .str file ∧ Uri.fileOf? uri = some file
  | .formatOptions file _ => prepared file
  | _ => True

/-- The command is about open files, and neither opens nor closes one. -/
def AboutOpen (r : Relay) (c : Service.Command) : Prop :=
  ∀ file ∈ c.files, c.name ∉ [Service.openName, Service.closeName] ∧ r.Opens file

/-- **What a call may write** is about open files. If it is to be followed by the
formatting of a file, it sets the options for that. -/
structure Ask.Proper (r : Relay) (a : Ask) : Prop where
  about : ∀ seq, AboutOpen r ⟨seq, a.command, a.arguments⟩
  after : a.after.Faithful fun file =>
    a.command = Service.configureName ∧ file ∈ a.arguments.namedFiles

variable {r : Relay} {a : Ask} {uri : String}

theorem After.Faithful.mono {prepared prepared' : String → Prop} {after : After}
    (himp : ∀ file, prepared file → prepared' file) (h : after.Faithful prepared) :
    after.Faithful prepared' := by
  cases after with
  | formatOptions file text => exact himp file h
  | _ => exact h

/-! ## Arguments -/

/-- Arguments that begin with a file name that and no other. -/
theorem namedFiles_of_file (file : String) {more : Fields} (h : Table.get? "files" more = none) :
    (Json.obj (("file", .str file) :: more)).namedFiles = [file] := by
  simp [Json.namedFiles, Json.get, Json.get?, Json.fields, Table.get?, h, Json.str?, Json.items]

@[simp] theorem namedFiles_fileArgument (file : String) :
    (Service.fileArgument file).namedFiles = [file] :=
  namedFiles_of_file file rfl

@[simp] theorem namedFiles_openArguments (root : Option String) (file languageId content : String) :
    (Relay.openArguments root file languageId content).namedFiles = [file] := by
  refine namedFiles_of_file file ?_
  unfold Relay.rootField
  split
  · split <;> simp [Table.get?]
  · simp [Table.get?]

@[simp] theorem namedFiles_changeArguments (file : String) (range : Range) (text : String) :
    (Relay.changeArguments file range text).namedFiles = [file] :=
  namedFiles_of_file file (by simp [Table.get?])

@[simp] theorem namedFiles_checkArguments (file : String) :
    (Relay.checkArguments file).namedFiles = [file] := by
  simp [Json.namedFiles, Relay.checkArguments, Json.get, Json.get?, Json.fields, Table.get?,
    Json.str?, Json.items]

/-- The command that formats a file names that file. -/
theorem namedFiles_formatAll (window : Option Duration) (file : String) (text : List Char) :
    (After.formatAll window file text).arguments.namedFiles = [file] :=
  namedFiles_of_file file (by simp [Table.get?])

theorem namedFiles_detailArguments (h : CompletionHandle) :
    (CompletionItem.detailArguments h).namedFiles = [h.file] :=
  namedFiles_of_file h.file (by simp [Table.get?])

theorem namedFiles_introductionArguments : Query.introductionArguments.namedFiles = [] := by
  simp [Json.namedFiles, Query.introductionArguments, Json.get, Json.get?, Json.fields, Table.get?,
    Json.str?, Json.items]

/-- Where a file is, and what else is said of the place. -/
theorem namedFiles_fileFields (file : String) (p : Position) {more : Fields}
    (h : Table.get? "files" more = none) :
    (Json.obj (Service.fileFields file p ++ more)).namedFiles = [file] :=
  namedFiles_of_file file (by simp [Service.locationFields, Table.get?, h])

/-! ## Handles -/

/-- **A handle is read back as it was written.** -/
theorem ofJson?_toJson (h : CompletionHandle) : CompletionHandle.ofJson? h.toJson = some h := by
  obtain ⟨uri, file, line, offset, entryName, source⟩ := h
  cases source <;>
    simp [CompletionHandle.ofJson?, CompletionHandle.toJson, Json.field?, Json.required,
      Json.optional, Json.get?, Json.fields, Table.get?, Json.str?, Json.lenientInt?]

/-- Details that come in leave an item its handle. -/
theorem handle_withDetails (item : CompletionItem) (body : Json) :
    (item.withDetails body).handle = item.handle := by
  unfold CompletionItem.withDetails
  split <;> rfl

theorem handle_of_data {item : CompletionItem} {h : CompletionHandle}
    (hdata : item.data = some h.toJson) : item.handle = .ok h := by
  simp [CompletionItem.handle, hdata, ofJson?_toJson]

/-- The handle of an entry has the file of the place. -/
theorem handleOf_file {name file : String} {source place : Json} {h : CompletionHandle}
    (hplace : place.get "file" = .str file)
    (hhandle : CompletionItem.handleOf name source uri place = .ok h) :
    h.uri = uri ∧ h.file = file := by
  obtain ⟨v, hv, hhandle⟩ := bind_eq_ok.mp hhandle
  obtain ⟨line, -, hhandle⟩ := bind_eq_ok.mp hhandle
  obtain ⟨line', -, hhandle⟩ := bind_eq_ok.mp hhandle
  obtain ⟨offset, -, hhandle⟩ := bind_eq_ok.mp hhandle
  obtain ⟨offset', -, hhandle⟩ := bind_eq_ok.mp hhandle
  obtain rfl : v = .str file := by
    rw [← hplace]
    unfold Json.field at hv
    split at hv
    · rename_i fields
      split at hv
      · rename_i x hget
        cases hv
        simp [Json.get, Json.get?, Json.fields, hget]
      · cases hv
    · cases hv
  cases hhandle
  exact ⟨rfl, rfl⟩

/-- **The item of an entry is genuine**, if it was asked for at a place in the
document's own file. -/
theorem genuine_ofEntry {entry place : Json} {file : String} {item : CompletionItem}
    (hplace : place.get "file" = .str file) (hfile : Uri.fileOf? uri = some file)
    (h : CompletionItem.ofEntry entry uri place = .ok item) : item.Genuine := by
  unfold CompletionItem.ofEntry at h
  split at h
  · obtain ⟨textEdit, -, h⟩ := bind_eq_ok.mp h
    obtain ⟨handle, hhandle, h⟩ := bind_eq_ok.mp h
    obtain ⟨huri, hof⟩ := handleOf_file hplace (mapError_eq_ok.mp hhandle)
    have hdata : item.data = some handle.toJson := by
      cases h
      rfl
    intro handle' hhandle'
    rw [handle_of_data hdata] at hhandle'
    cases hhandle'
    rw [huri, hof, hfile]
  · cases h

/-- So are the items of all entries. -/
theorem genuine_ofEntries {place : Json} {file : String} {entries : List Json}
    {items : List CompletionItem} (hplace : place.get "file" = .str file)
    (hfile : Uri.fileOf? uri = some file)
    (h : CompletionItem.ofEntries uri place entries = .ok items) :
    ∀ item ∈ items, item.Genuine := by
  induction entries generalizing items with
  | nil =>
    cases h
    simp
  | cons entry rest ih =>
    cases entry with
    | obj fields =>
      obtain ⟨first, hfirst, h⟩ := bind_eq_ok.mp h
      obtain ⟨others, hothers, h⟩ := bind_eq_ok.mp h
      cases h
      intro item hitem
      rcases List.mem_cons.mp hitem with rfl | hitem
      · exact genuine_ofEntry hplace hfile hfirst
      · exact ih hothers item hitem
    | _ => exact ih h

/-! ## Queries -/

theorem require_eq_ok {operation : String} {s : Session} :
    r.require uri operation = .ok s ↔ r.session? uri = some s := by
  unfold Relay.require
  cases r.session? uri <;> simp

/-- A command that names the file of a session, and neither opens nor closes it. -/
theorem aboutOpen_of_session {s : Session} {name : String} {arguments : Json}
    (hopen : r.session? uri = some s) (hnames : arguments.namedFiles = [s.file])
    (hname : name ∉ [Service.openName, Service.closeName]) (seq : Int) :
    AboutOpen r ⟨seq, name, arguments⟩ := by
  intro file hfile
  have hfile : file ∈ arguments.namedFiles := hfile
  rw [hnames, List.mem_singleton] at hfile
  exact ⟨hname, hfile ▸ Relay.opens_of_session hopen⟩

theorem aboutOpen_of_nameless {c : Service.Command} (h : c.files = []) : AboutOpen r c := by
  simp [AboutOpen, h]

theorem proper_of_session {s : Session} {command : String} {arguments : Json}
    {window : Option Duration} {after : After} (hopen : r.session? uri = some s)
    (hnames : arguments.namedFiles = [s.file])
    (hcommand : command ∉ [Service.openName, Service.closeName])
    (hafter : after.Faithful fun file =>
      command = Service.configureName ∧ file ∈ arguments.namedFiles) :
    (Ask.mk command arguments window after).Proper r where
  about seq := aboutOpen_of_session hopen hnames hcommand seq
  after := hafter

theorem proper_atPlace {operation command : String} {p : Position} {more : Fields} {after : After}
    (h : Query.atPlace r uri operation p command more after = .ok a)
    (hmore : Table.get? "files" more = none)
    (hcommand : command ∉ [Service.openName, Service.closeName])
    (hafter : ∀ prepared, after.Faithful prepared) : a.Proper r := by
  obtain ⟨s, hopen, h⟩ := bind_eq_ok.mp h
  cases h
  exact proper_of_session (require_eq_ok.mp hopen) (namedFiles_fileFields _ _ hmore) hcommand
    (hafter _)

/-- **What a query writes first is about open files.** -/
theorem first_proper {q : Query} (hsound : r.Sound) (hhonest : q.Honest) (h : q.first r = .ok a) :
    a.Proper r := by
  cases q with
  | introduction =>
    cases h
    exact ⟨fun _ => aboutOpen_of_nameless namedFiles_introductionArguments, trivial⟩
  | command name arguments window =>
    cases h
    exact ⟨fun _ => aboutOpen_of_nameless hhonest, trivial⟩
  | completion uri p =>
    obtain ⟨s, hopen, h⟩ := bind_eq_ok.mp h
    cases h
    have hopen := require_eq_ok.mp hopen
    obtain ⟨huri, hfile⟩ := hsound.filed uri s hopen
    have hword : Table.get? "files" (Query.wordField (wordBefore s.text p)) = none := by
      unfold Query.wordField
      split <;> simp [Table.get?]
    exact proper_of_session hopen (namedFiles_fileFields _ _ hword) (by decide)
      ⟨s.file, rfl, huri ▸ hfile⟩
  | details source item =>
    obtain ⟨handle, hhandle, h⟩ := bind_eq_ok.mp h
    obtain ⟨s, hopen, h⟩ := bind_eq_ok.mp h
    cases h
    have hopen := require_eq_ok.mp hopen
    -- the item's file is that of the session
    have hsame : handle.file = s.file := Option.some.inj
      ((hhonest handle hhandle).symm.trans (hsound.filed _ _ hopen).2)
    exact proper_of_session hopen (by rw [namedFiles_detailArguments, hsame]) (by decide) trivial
  | references uri p includeDeclaration =>
    exact proper_atPlace h rfl (by decide) fun _ => trivial
  | symbols uri =>
    obtain ⟨s, hopen, h⟩ := bind_eq_ok.mp h
    cases h
    exact proper_of_session (require_eq_ok.mp hopen) (by simp) (by decide) trivial
  | signatures uri p => exact proper_atPlace h rfl (by decide) fun _ => trivial
  | formatting uri tabSize insertSpaces =>
    obtain ⟨s, hopen, h⟩ := bind_eq_ok.mp h
    cases h
    have hnames : Json.namedFiles (.obj [("file", .str s.file),
        ("formatOptions", Query.formatOptions tabSize insertSpaces s.text)]) = [s.file] :=
      namedFiles_of_file _ (by simp [Table.get?])
    refine proper_of_session (require_eq_ok.mp hopen) hnames (by decide) ⟨rfl, ?_⟩
    simp only [hnames, List.mem_singleton]
  | hover uri p => exact proper_atPlace h rfl (by decide) fun _ => trivial
  | definition uri p => exact proper_atPlace h rfl (by decide) fun _ => trivial
  | rename uri p newName => exact proper_atPlace h (by simp [Table.get?]) (by decide) fun _ => trivial

end LanguageRelay
