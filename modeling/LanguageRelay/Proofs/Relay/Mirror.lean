import LanguageRelay.Proofs.Editor.Replace
import LanguageRelay.Proofs.Relay.Documents
import LanguageRelay.Proofs.Table
import Mathlib.Data.List.Induction
/-!
# The copy the analysis server holds

The analysis server knows of a document only what the commands say:
`copyOf` is the text of a file after the commands of a history, each change
made as the server makes it, by the range the command names. `shownBy` is
what the editor shows after its own moves. **The three texts agree**
(`mirror`): the copy, the text of the session, and the text shown.

A change is made here first and told afterwards, so what has to be shown is
that the told range leads from the old text to the new one. For a range that
is `replace_shown`, for the whole text `replace_wholeRange`, and that one
needs the text to have plain breaks.
-/

namespace LanguageRelay

namespace Relay

/-! ## The copy -/

/-- The range that the arguments of a change name, counted from one. -/
def namedRange? (arguments : Json) : Option Range :=
  match arguments.get "line", arguments.get "offset", arguments.get "endLine",
    arguments.get "endOffset" with
  | .int line, .int offset, .int endLine, .int endOffset =>
    some ⟨⟨(line - 1).toNat, (offset - 1).toNat⟩, ⟨(endLine - 1).toNat, (endOffset - 1).toNat⟩⟩
  | _, _, _, _ => none

/-- The text of a file after a command. -/
def obey (file : String) (text : Option (List Char)) (c : Service.Command) : Option (List Char) :=
  if (c.arguments.get "file").str? = some file then
    if c.name = Service.openName then (c.arguments.get "fileContent").str?.map String.toList
    else if c.name = Service.changeName then do
      let old ← text
      let range ← namedRange? c.arguments
      let inserted ← (c.arguments.get "insertString").str?
      return (replace old range inserted.toList).1
    else if c.name = Service.closeName then none
    else text
  else text

/-- The text of a file after an effect: only commands count. -/
def obeyEffect (file : String) (text : Option (List Char)) : Effect → Option (List Char)
  | .sent c => obey file text c
  | _ => text

/-- The text the analysis server holds of a file, if the file is open
there. -/
def copyOf (file : String) (history : List Effect) : Option (List Char) :=
  history.foldl (obeyEffect file) none

/-! ## What the editor shows -/

/-- An open document as the editor shows it. -/
structure Shown where
  version : Int
  text : List Char

/-- What is shown of a document after a move. -/
def Move.shows (uri : String) (shown : Option Shown) : Move → Option Shown
  | openDocument u _ version content =>
    if u = uri ∧ (Uri.fileOf? u).isSome then some ⟨version, content.toList⟩ else shown
  | changeDocument u version changes =>
    if u = uri then shown.map fun d => ⟨version, textAfter d.text changes⟩ else shown
  | closeDocument u => if u = uri then none else shown
  | _ => shown

/-- What the editor shows of a document after moves. -/
def shownBy (uri : String) (moves : List Move) : Option Shown :=
  moves.foldl (Move.shows uri) none

@[simp] theorem shownBy_snoc (uri : String) (moves : List Move) (m : Move) :
    shownBy uri (moves ++ [m]) = m.shows uri (shownBy uri moves) := by
  simp [shownBy]

/-! ## Premises -/

/-- Every change of a whole text is made to a text with plain breaks. -/
def WholePlain : List Char → List TextChange → Prop
  | _, [] => True
  | text, change :: rest =>
    (change.range = none → PlainBreaks text) ∧ WholePlain (change.apply text).1 rest

/-- Wherever moves make a whole text be replaced, the text has plain breaks. -/
def PlainWhenWhole (fullSync : Bool) (moves : List Move) : Prop :=
  ∀ before uri version changes after d,
    moves = before ++ Move.changeDocument uri version changes :: after →
    shownBy uri before = some d →
    if fullSync then PlainBreaks d.text else WholePlain d.text changes

/-! ## Commands and the copy -/

variable {r r' r'' : Relay} {file : String}

/-- Effects that tell no text leave every copy as it is. -/
theorem copyOf_append (history : List Effect) {fx : List Effect} (h : ∀ e ∈ fx, ¬ e.TellsText) :
    copyOf file (history ++ fx) = copyOf file history := by
  simp only [copyOf, List.foldl_append]
  generalize List.foldl (obeyEffect file) none history = text
  induction fx with
  | nil => rfl
  | cons e rest ih =>
    have hstep : obeyEffect file text e = text := by
      have he := h e List.mem_cons_self
      cases e with
      | sent c =>
        simp only [Effect.TellsText, List.mem_cons, List.not_mem_nil, or_false, not_or] at he
        simp [obeyEffect, obey, he]
      | _ => rfl
    rw [List.foldl_cons, hstep]
    exact ih fun e he => h e (List.mem_cons_of_mem _ he)

theorem LeavesDocuments.copyOf (h : LeavesDocuments r r') (file : String) :
    copyOf file r'.outbox = copyOf file r.outbox := by
  obtain ⟨fx, hfx, htells⟩ := h.adds
  rw [hfx, copyOf_append _ htells]

theorem copyOf_sent (history : List Effect) (c : Service.Command) :
    copyOf file (history ++ [.sent c]) = obey file (copyOf file history) c := by
  simp [copyOf, obeyEffect]

/-- The arguments of a change name its range and its file. -/
theorem namedRange?_changeArguments (file : String) (range : Range) (text : String) :
    namedRange? (changeArguments file range text) = some range := by
  simp [namedRange?, changeArguments, Json.get, Json.get?, Json.fields, Table.get?]

theorem file_changeArguments (file : String) (range : Range) (text : String) :
    ((changeArguments file range text).get "file").str? = some file := by
  simp [changeArguments, Json.get, Json.get?, Json.fields, Table.get?, Json.str?]

theorem inserted_changeArguments (file : String) (range : Range) (text : String) :
    ((changeArguments file range text).get "insertString").str? = some text := by
  simp [changeArguments, Json.get, Json.get?, Json.fields, Table.get?, Json.str?]

/-! ## Telling a text -/

/-- The session of one document is set anew, and the copy of its file is told
the same text. -/
structure Tells (s : Session) (r r' : Relay) : Prop where
  session? : ∀ u, r'.session? u = if s.uri = u then some s else r.session? u
  setup : r'.setup = r.setup
  standing : r'.link.standing = (none, none)
  copyOf : copyOf s.file r'.outbox = some s.text
  others : ∀ file, file ≠ s.file → Relay.copyOf file r'.outbox = Relay.copyOf file r.outbox

theorem Tells.trans {s s' : Session} (h : Tells s r r') (h' : Tells s' r' r'')
    (huri : s'.uri = s.uri) (hfile : s'.file = s.file) : Tells s' r r'' where
  session? u := by
    rw [h'.session?, h.session?, huri]
    split <;> rfl
  setup := h'.setup.trans h.setup
  standing := h'.standing
  copyOf := h'.copyOf
  others file hne := by rw [h'.others file hne, h.others file (by rwa [← hfile])]

/-- What was told needs no telling. -/
theorem Tells.self {s : Session} (h : Tells s r r') : Tells s r' r' where
  session? u := by
    rw [h.session?]
    split <;> rfl
  setup := rfl
  standing := h.standing
  copyOf := h.copyOf
  others _ _ := rfl

theorem Tells.leave {s : Session} (h : Tells s r r') (h' : LeavesDocuments r' r'') :
    Tells s r r'' where
  session? u := by rw [h'.session?, h.session?]
  setup := h'.setup.trans h.setup
  standing := h'.standing.trans h.standing
  copyOf := by rw [h'.copyOf, h.copyOf]
  others file hne := by rw [h'.copyOf, h.others file hne]

/-- **One change told.** If the range told leads from the text the copy holds
to the text of the session, the copy follows. -/
theorem tells_sendChange {s : Session} {old : List Char} {range : Range} {text : String}
    (hc : r.link.standing = (none, none)) (hcopy : copyOf s.file r.outbox = some old)
    (htext : (replace old range text.toList).1 = s.text) :
    ((r.setSession s).sendChange s.file range text).2 = none ∧
      Tells s r ((r.setSession s).sendChange s.file range text).1 := by
  have hopen : (r.setSession s).link.standing = (none, none) := hc
  rw [sendChange, notify_of_taken (Link.taken_of_standing hopen)]
  refine ⟨rfl, fun u => session?_setSession s r u, rfl, hc, ?_, ?_⟩
  · change copyOf s.file (r.outbox ++ [_]) = _
    rw [copyOf_sent, hcopy]
    have hname : Service.changeName ≠ Service.openName := by decide
    simp [obey, file_changeArguments, hname, namedRange?_changeArguments,
      inserted_changeArguments, htext]
  · intro file hne
    change copyOf file (r.outbox ++ [_]) = _
    rw [copyOf_sent, obey, if_neg]
    rw [file_changeArguments]
    exact fun h => hne (Option.some.inj h).symm

/-- The range told of a change leads from the old text to the new one. -/
theorem replace_told (change : TextChange) (text : List Char)
    (h : change.range = none → PlainBreaks text) :
    (replace text ((change.apply text).2.getD (wholeRange text)) change.text.toList).1 =
      (change.apply text).1 := by
  cases hr : change.range with
  | some range => simp [TextChange.apply, hr, replace_shown]
  | none => simp [TextChange.apply, hr, replace_wholeRange (h hr)]

/-- **Changes told one by one.** The induction is on the changes; each is
told right after it is made, so that the copy is at the text of the session
before the next. -/
theorem tells_changeEach {s : Session} {changes : List TextChange}
    (h : Tells s r r) (hplain : WholePlain s.text changes) :
    (changeEach s changes r).2 = none ∧
      Tells { s with text := textAfter s.text changes } r (changeEach s changes r).1 := by
  induction changes generalizing s r with
  | nil => exact ⟨rfl, h⟩
  | cons change rest ih =>
    obtain ⟨hwhole, hrest⟩ := hplain
    have hsend := tells_sendChange (s := { s with text := (change.apply s.text).1 })
      h.standing h.copyOf (replace_told change s.text hwhole)
    rw [changeEach]
    simp only [] at hsend ⊢
    generalize (r.setSession { s with text := (change.apply s.text).1 }).sendChange s.file
      ((change.apply s.text).2.getD (wholeRange s.text)) change.text = told at hsend ⊢
    obtain ⟨r₁, failure⟩ := told
    obtain ⟨rfl, htold⟩ := hsend
    obtain ⟨hnone, hall⟩ := ih (s := { s with text := (change.apply s.text).1 }) htold.self hrest
    exact ⟨hnone, htold.trans hall rfl rfl⟩

/-- **Changes told as one**: the new text takes the place of all of the
old. -/
theorem tells_changeWhole {s : Session} {changes : List TextChange}
    (h : Tells s r r) (hplain : PlainBreaks s.text) :
    (changeWhole s changes r).2 = none ∧
      Tells { s with text := textAfter s.text changes } r (changeWhole s changes r).1 := by
  refine tells_sendChange (s := { s with text := textAfter s.text changes }) h.standing h.copyOf ?_
  rw [String.toList_ofList, replace_wholeRange hplain]

theorem tells_changeAll {s : Session} {changes : List TextChange} (h : Tells s r r)
    (hplain : if r.setup.fullSync then PlainBreaks s.text else WholePlain s.text changes) :
    Tells { s with text := textAfter s.text changes } r (changeAll s changes r) := by
  unfold changeAll
  split at hplain
  · rename_i hfull
    rw [if_pos hfull]
    exact (tells_changeWhole h hplain).2
  · rename_i hfull
    rw [if_neg hfull]
    exact (tells_changeEach h hplain).2

/-! ## The mirror, step by step -/

/-- Every session is what its copy holds and what is shown. -/
structure Mirrored (setup : Setup) (uris : List String) (shown : String → Option Shown)
    (r : Relay) : Prop where
  setup : r.setup = setup
  up : r.link.standing = (none, none)
  session : ∀ uri s, r.session? uri = some s → s.uri = uri ∧ uri ∈ uris ∧
    Uri.fileOf? uri = some s.file ∧ copyOf s.file r.outbox = some s.text ∧
    shown uri = some ⟨s.version, s.text⟩
  unopened : ∀ uri, r.session? uri = none → shown uri = none

variable {setup : Setup} {uris : List String} {shown shown' : String → Option Shown}

theorem Mirrored.leave (h : Mirrored setup uris shown r) (h' : LeavesDocuments r r') :
    Mirrored setup uris shown r' where
  setup := h'.setup.trans h.setup
  up := h'.standing.trans h.up
  session uri s hs := by
    rw [h'.session?] at hs
    rw [h'.copyOf]
    exact h.session uri s hs
  unopened uri hs := h.unopened uri (by rwa [h'.session?] at hs)

/-- A document that was told anew leaves the others as they were: theirs are
other files. -/
theorem Mirrored.tell (hd : DistinctFiles uris) (h : Mirrored setup uris shown r) {s : Session}
    (ht : Tells s r r') (hmem : s.uri ∈ uris) (hfile : Uri.fileOf? s.uri = some s.file)
    (hself : shown' s.uri = some ⟨s.version, s.text⟩)
    (hother : ∀ u, u ≠ s.uri → shown' u = shown u) : Mirrored setup uris shown' r' where
  setup := ht.setup.trans h.setup
  up := ht.standing
  session uri s' hs' := by
    rw [ht.session?] at hs'
    by_cases hu : s.uri = uri
    · rw [if_pos hu, Option.some.injEq] at hs'
      subst hs' hu
      exact ⟨rfl, hmem, hfile, ht.copyOf, hself⟩
    · rw [if_neg hu] at hs'
      obtain ⟨h₁, h₂, h₃, h₄, h₅⟩ := h.session uri s' hs'
      have hne : s'.file ≠ s.file := fun heq => hu (hd _ hmem _ h₂ _ hfile (by rw [h₃, heq]))
      exact ⟨h₁, h₂, h₃, by rw [ht.others _ hne, h₄], by rw [hother _ (Ne.symm hu), h₅]⟩
  unopened uri hs := by
    rw [ht.session?] at hs
    by_cases hu : s.uri = uri
    · simp [hu] at hs
    · rw [if_neg hu] at hs
      rw [hother _ (Ne.symm hu)]
      exact h.unopened uri hs

/-- Opening a document tells its text. -/
theorem mirrored_openDocument (hd : DistinctFiles uris) (h : Mirrored setup uris shown r)
    {uri : String} (hmem : uri ∈ uris) (languageId : String) (version : Int) (content : String) :
    Mirrored setup uris
      (fun u => (Move.openDocument uri languageId version content).shows u (shown u))
      (r.openDocument uri languageId version content).1 := by
  have hm := h.leave (leaves_reopening uri r)
  rcases openDocument_cases uri languageId version content r with ⟨hf, heq⟩ |
    ⟨file, r', hf, rfl, hrest⟩
  · have hshow : (fun u => (Move.openDocument uri languageId version content).shows u (shown u))
        = shown := by
      funext u
      simp [Move.shows, hf]
    rw [heq]
    simpa only [hshow] using hm
  · have hup : ((r.reopening uri).setSession
        ⟨uri, file, languageId, version, content.toList⟩).link.standing = (none, none) := hm.up
    have htells : Tells ⟨uri, file, languageId, version, content.toList⟩ (r.reopening uri)
        ((r.reopening uri).announce ⟨uri, file, languageId, version, content.toList⟩ content) := by
      rw [announce, notify_of_taken (Link.taken_of_standing hup)]
      refine ⟨fun u => session?_setSession _ _ u, rfl, hm.up, ?_, fun file' hne => ?_⟩
      · change copyOf file ((r.reopening uri).outbox ++ [_]) = _
        rw [copyOf_sent]
        simp [obey, openArguments, Json.get, Json.get?, Json.fields, Table.get?, Json.str?]
      · change copyOf file' ((r.reopening uri).outbox ++ [_]) = _
        rw [copyOf_sent, obey, if_neg]
        simpa [openArguments, Json.get, Json.get?, Json.fields, Table.get?, Json.str?]
          using Ne.symm hne
    have hmir : Mirrored setup uris
        (fun u => (Move.openDocument uri languageId version content).shows u (shown u)) _ :=
      hm.tell hd htells hmem hf (by simp [Move.shows, hf])
        (fun u hu => by simp [Move.shows, Ne.symm hu])
    rcases hrest with ⟨heq, -⟩ | ⟨heq, -⟩ <;> rw [heq]
    · exact hmir
    · exact hmir.leave (leaves_invalidate uri _)

/-- Changing a document tells its changes. -/
theorem mirrored_changeDocument (hd : DistinctFiles uris) (h : Mirrored setup uris shown r)
    {uri : String} {version : Int} {changes : List TextChange}
    (hplain : ∀ d, shown uri = some d →
      if r.setup.fullSync then PlainBreaks d.text else WholePlain d.text changes) :
    Mirrored setup uris (fun u => (Move.changeDocument uri version changes).shows u (shown u))
      (r.changeDocument uri version changes).1 := by
  cases hs : r.session? uri with
  | none =>
    have hshow :
        (fun u => (Move.changeDocument uri version changes).shows u (shown u)) = shown := by
      funext u
      by_cases hu : uri = u
      · subst hu
        simp [Move.shows, h.unopened _ hs]
      · simp [Move.shows, hu]
    rw [changeDocument_of_not_open hs]
    simpa only [hshow] using h
  | some s =>
    obtain ⟨huri, hmem, hfile, hcopy, hshown⟩ := h.session uri s hs
    have hp := hplain _ hshown
    have hr := leaves_checkVersion uri s version r
    have hm := h.leave hr
    rw [changeDocument_of_open hs]
    generalize r.checkVersion uri s version = r₀ at hr hm ⊢
    -- the session with its new version; no text is told yet
    have hself : Tells { s with version } r₀ (r₀.setSession { s with version }) :=
      ⟨fun u => session?_setSession _ r₀ u, rfl, hm.up,
        by rw [← hcopy, ← hr.copyOf]; rfl, fun _ _ => rfl⟩
    rw [← hr.setup] at hp
    have htold := hself.trans (tells_changeAll hself.self hp) rfl rfl
    exact hm.tell hd (htold.leave (leaves_invalidate uri _)) (by rw [← huri] at hmem; exact hmem)
      (by rw [← huri] at hfile; exact hfile) (by simp [Move.shows, huri, hshown])
      (fun u hu => by
        have : uri ≠ u := fun heq => hu (by rw [← heq, ← huri])
        simp [Move.shows, this])

/-- Closing a document takes its copy away. -/
theorem mirrored_closeDocument (hd : DistinctFiles uris) (h : Mirrored setup uris shown r)
    (uri : String) :
    Mirrored setup uris (fun u => (Move.closeDocument uri).shows u (shown u))
      (r.closeDocument uri).1 := by
  cases hs : r.session? uri with
  | none =>
    have hshow : (fun u => (Move.closeDocument uri).shows u (shown u)) = shown := by
      funext u
      by_cases hu : uri = u
      · subst hu
        simp [Move.shows, h.unopened _ hs]
      · simp [Move.shows, hu]
    rw [closeDocument_of_not_open hs]
    simpa only [hshow] using h
  | some s =>
    obtain ⟨huri, hmem, hfile, -, -⟩ := h.session uri s hs
    have hleave : LeavesDocuments { r with sessions := Table.erase uri r.sessions }
        (r.dismiss uri) := leaves_forget uri _
    have hopen : (r.dismiss uri).link.standing = (none, none) := hleave.standing.trans h.up
    rw [closeDocument_of_open hs, notify_of_taken (Link.taken_of_standing hopen)]
    refine ⟨?_, hopen, fun u s' hs' => ?_, fun u hs' => ?_⟩
    · exact hleave.setup.trans h.setup
    · change (r.dismiss uri).session? u = some s' at hs'
      rw [session?_dismiss] at hs'
      by_cases hu : uri = u
      · simp [hu] at hs'
      rw [if_neg hu] at hs'
      obtain ⟨h₁, h₂, h₃, h₄, h₅⟩ := h.session u s' hs'
      have hne : s.file ≠ s'.file := fun heq => hu (hd _ hmem _ h₂ _ hfile (by rw [h₃, heq]))
      refine ⟨h₁, h₂, h₃, ?_, by simpa [Move.shows, hu] using h₅⟩
      change copyOf s'.file ((r.dismiss uri).outbox ++ [_]) = _
      rw [copyOf_sent, hleave.copyOf, obey, if_neg]
      · exact h₄
      · simpa [Service.fileArgument, Json.get, Json.get?, Json.fields, Table.get?, Json.str?]
          using hne
    · change (r.dismiss uri).session? u = none at hs'
      rw [session?_dismiss] at hs'
      by_cases hu : uri = u
      · simp [Move.shows, hu]
      · rw [if_neg hu] at hs'
        simp [Move.shows, hu, h.unopened u hs']

/-! ## The mirror, over runs -/

/-- The premises of a run are those of what came before its last move. -/
theorem PlainWhenWhole.of_snoc {fullSync : Bool} {moves : List Move} {m : Move}
    (h : PlainWhenWhole fullSync (moves ++ [m])) : PlainWhenWhole fullSync moves := by
  intro before uri version changes after d hmoves
  exact h before uri version changes (after ++ [m]) d (by simp [hmoves])

theorem Mirrored.mono {uris' : List String} (hsub : ∀ u ∈ uris, u ∈ uris')
    (h : Mirrored setup uris shown r) : Mirrored setup uris' shown r where
  setup := h.setup
  up := h.up
  session uri s hs := by
    obtain ⟨h₁, h₂, h₃⟩ := h.session uri s hs
    exact ⟨h₁, hsub _ h₂, h₃⟩
  unopened := h.unopened

/-- A move that edits no document leaves what the editor shows. -/
theorem Move.shows_of_edited?_eq_none {m : Move} (h : m.edited? = none) (uri : String)
    (d? : Option Shown) : m.shows uri d? = d? := by
  cases m with
  | openDocument => cases h
  | changeDocument => cases h
  | closeDocument => cases h
  | _ => rfl

/-- **Every run keeps the mirror.** -/
theorem mirrored_run (setup : Setup) (moves : List Move) (hup : ∀ m ∈ moves, ¬ m.IsDisconnect)
    (hfiles : DistinctFiles (openedUris moves)) (hplain : PlainWhenWhole setup.fullSync moves) :
    Mirrored setup (openedUris moves) (fun uri => shownBy uri moves)
      (run moves (Relay.new setup)) := by
  induction moves using List.reverseRecOn with
  | nil =>
    have hnone : ∀ uri, (Relay.new setup).session? uri = none := fun _ => rfl
    exact ⟨rfl, rfl, fun uri s hs => by simp [hnone] at hs, fun _ _ => rfl⟩
  | append_singleton moves m ih =>
    have hm : Mirrored setup (openedUris (moves ++ [m])) (fun uri => shownBy uri moves)
        (run moves (Relay.new setup)) :=
      (ih (fun m' h => hup m' (List.mem_append_left _ h)) hfiles.of_snoc hplain.of_snoc).mono
        fun u hu => by
          rw [openedUris_append]
          exact List.mem_append_left _ hu
    simp only [run_snoc, shownBy_snoc]
    cases hedit : m.edited? with
    | none =>
      simp only [Move.shows_of_edited?_eq_none hedit]
      exact hm.leave (leaves_perform hedit (hup m (by simp)) _)
    | some uri =>
      cases m with
      | openDocument u languageId version content =>
        exact mirrored_openDocument hfiles hm (by simp [openedUris]) languageId version content
      | changeDocument u version changes =>
        refine mirrored_changeDocument hfiles hm fun d hd => ?_
        rw [hm.setup]
        exact hplain moves u version changes [] d rfl hd
      | closeDocument u => exact mirrored_closeDocument hfiles hm u
      | _ => simp [Move.edited?] at hedit

/-- **The mirror.** After every run over an open connection, in either way of
telling changes, what the editor shows of a document is the text and the
version of its session, and the copy the analysis server holds of the
document's file is that text. The run is over documents of different files,
and a whole text is only replaced where its breaks are plain. -/
theorem mirror (setup : Setup) (moves : List Move) (hup : ∀ m ∈ moves, ¬ m.IsDisconnect)
    (hfiles : DistinctFiles (openedUris moves)) (hplain : PlainWhenWhole setup.fullSync moves)
    (uri : String) :
    (shownBy uri moves =
      ((run moves (Relay.new setup)).session? uri).map fun s => ⟨s.version, s.text⟩) ∧
    ∀ s, (run moves (Relay.new setup)).session? uri = some s →
      Uri.fileOf? uri = some s.file ∧
        copyOf s.file (run moves (Relay.new setup)).outbox = some s.text := by
  have hm := mirrored_run setup moves hup hfiles hplain
  cases hs : (run moves (Relay.new setup)).session? uri with
  | none => exact ⟨hm.unopened uri hs, fun s h => by simp at h⟩
  | some s =>
    obtain ⟨-, -, hfile, hcopy, hshown⟩ := hm.session uri s hs
    refine ⟨hshown, fun s' h => ?_⟩
    cases h
    exact ⟨hfile, hcopy⟩

/-- A document that is opened and changed once, in three ways: by a range
that is clamped, by one that is inverted, and as a whole. -/
def threeChanges : List Move :=
  [.openDocument "file:///a.ts" "typescript" 1 "😀b\r\nc\n",
    .changeDocument "file:///a.ts" 2
      [⟨some ⟨⟨0, 9⟩, ⟨1, 0⟩⟩, "x"⟩, ⟨some ⟨⟨5, 0⟩, ⟨0, 1⟩⟩, "y"⟩, ⟨none, "z😀"⟩]]

theorem mirror_threeChanges :
    shownBy "file:///a.ts" threeChanges = some ⟨2, ['z', '😀']⟩ ∧
      copyOf "/a.ts" (run threeChanges (Relay.new syntaxOnly)).outbox = some ['z', '😀'] := by
  have hplain : PlainWhenWhole syntaxOnly.fullSync threeChanges := by
    rintro before uri version changes after d hmoves hd
    match before with
    | [] => simp [threeChanges] at hmoves
    | [first] =>
      simp only [threeChanges, List.cons_append, List.nil_append, List.cons.injEq,
        Move.changeDocument.injEq] at hmoves
      obtain ⟨rfl, ⟨rfl, -, rfl⟩, -⟩ := hmoves
      obtain rfl : ⟨1, "😀b\r\nc\n".toList⟩ = d := Option.some.inj hd
      refine ⟨by simp, by simp, fun _ => ?_, trivial⟩
      change PlainBreaks "😀bxc\nybxc\n".toList
      simp [PlainBreaks, isLineBreak]
    | first :: second :: rest => simp [threeChanges] at hmoves
  obtain ⟨hshown, hcopy⟩ := mirror syntaxOnly threeChanges
    (by simp [threeChanges, Move.IsDisconnect])
    (by simp [threeChanges, openedUris, DistinctFiles]) hplain "file:///a.ts"
  have htext : shownBy "file:///a.ts" threeChanges = some ⟨2, ['z', '😀']⟩ := rfl
  rw [htext] at hshown
  obtain ⟨s, hs, hd⟩ := Option.map_eq_some_iff.mp hshown.symm
  obtain ⟨hfile, htold⟩ := hcopy s hs
  have hname : s.file = "/a.ts" := Option.some.inj (hfile.symm.trans rfl)
  simp only [Shown.mk.injEq] at hd
  rw [hname, hd.2] at htold
  exact ⟨htext, htold⟩

end Relay

end LanguageRelay
