import LanguageRelay.Proofs.Relay.Moves
/-!
# What opening, changing and closing a document come to

Each of the three operations on documents is a few smaller ones in a row, and
fails part of the way where its document is not open, its URI names no file or
the connection is closed. What the relay is afterwards is said here once
(`openDocument_cases`, `changeDocument_of_open`, `closeDocument_of_open`), so
that what is kept by the smaller ones is seen to be kept by these.
-/

namespace LanguageRelay

namespace Relay

variable {r : Relay} {uri : String} {s : Session}

/-! ## Opening -/

/-- Before a document is opened again, it is logged that its session is
replaced. -/
def reopening (uri : String) (r : Relay) : Relay :=
  if (r.session? uri).isSome then
    r.log .info ("re-opening " ++ uri ++ "; previous session replaced")
  else r

theorem reopening_cases (uri : String) (r : Relay) :
    r.reopening uri = r ∨ ∃ text, r.reopening uri = r.log .info text := by
  unfold reopening
  split
  · exact .inr ⟨_, rfl⟩
  · exact .inl rfl

/-- A session is set, and its file made known. -/
def announce (s : Session) (content : String) (r : Relay) : Relay :=
  ((r.setSession s).notify Service.openName
    (openArguments r.setup.root s.file s.languageId content)).1

/-- **What opening a document comes to**: nothing if its URI names no file; else it is
announced, and checks are told of the change if it was open and the announcement is not
refused. -/
theorem openDocument_cases (uri languageId : String) (version : Int) (content : String)
    (r : Relay) :
    (Uri.fileOf? uri = none ∧
      (r.openDocument uri languageId version content).1 = r.reopening uri) ∨
    ∃ file r', Uri.fileOf? uri = some file ∧
      r' = (r.reopening uri).announce ⟨uri, file, languageId, version, content.toList⟩ content ∧
      ((r.openDocument uri languageId version content).1 = r' ∧
          (r.link.refusal? ≠ none ∨ r.session? uri = none) ∨
        (r.openDocument uri languageId version content).1 = (r'.invalidate uri).1 ∧
          r.link.refusal? = none ∧ r.session? uri ≠ none) := by
  have hsame : (r.reopening uri).link = r.link := by
    rcases reopening_cases uri r with heq | ⟨text, heq⟩ <;> rw [heq]
    rfl
  unfold openDocument
  simp only []
  rw [← reopening]
  cases hfile : Uri.fileOf? uri with
  | none => exact .inl ⟨rfl, rfl⟩
  | some file =>
    refine .inr ⟨file, _, rfl, rfl, ?_⟩
    simp only [announce]
    generalize hset : (r.reopening uri).setSession ⟨uri, file, languageId, version,
      content.toList⟩ = r₁
    have hlink : r₁.link = r.link := hset ▸ hsame
    have hsetup : r₁.setup = (r.reopening uri).setup := hset ▸ rfl
    rw [hsetup]
    cases hup : r₁.link.refusal? with
    | some cause =>
      rw [notify_of_refused hup]
      exact .inl ⟨rfl, .inl (by simp [← hlink, hup])⟩
    | none =>
      rw [notify_of_taken hup]
      cases hopen : r.session? uri with
      | none => exact .inl ⟨rfl, .inr rfl⟩
      | some s => exact .inr ⟨rfl, hlink ▸ hup, by simp⟩

/-! ## Changing -/

/-- Before a document is changed, a version that does not go up is warned of. -/
def checkVersion (uri : String) (s : Session) (version : Int) (r : Relay) : Relay :=
  if version ≤ s.version then
    r.log .warning (uri ++ " version went from " ++ intText s.version ++ " to " ++ intText version)
  else r

theorem checkVersion_cases (uri : String) (s : Session) (version : Int) (r : Relay) :
    r.checkVersion uri s version = r ∨
      ∃ text, r.checkVersion uri s version = r.log .warning text := by
  unfold checkVersion
  split
  · exact .inr ⟨_, rfl⟩
  · exact .inl rfl

/-- The changes of a document are made, by ranges or as one of the whole text. -/
def changeAll (s : Session) (changes : List TextChange) (r : Relay) : Relay :=
  (if r.setup.fullSync then r.changeWhole s changes else r.changeEach s changes).1

/-- Changing a document that is not open does nothing. -/
theorem changeDocument_of_not_open (hnone : r.session? uri = none) (version : Int)
    (changes : List TextChange) : (r.changeDocument uri version changes).1 = r := by
  unfold changeDocument require
  simp only [hnone]

/-- **What changing a document comes to**: its session gets the version, the changes are
made as far as they can be, and checks are told in any case. -/
theorem changeDocument_of_open (hopen : r.session? uri = some s) (version : Int)
    (changes : List TextChange) :
    (r.changeDocument uri version changes).1 =
      ((((r.checkVersion uri s version).setSession { s with version }).changeAll
        { s with version } changes).invalidate uri).1 := by
  unfold changeDocument require
  simp only [hopen]
  rw [← checkVersion]
  generalize (r.checkVersion uri s version).setSession { s with version } = r₁
  rw [changeAll]
  split
  all_goals
    rename_i heq
    rw [heq]

/-! ## Closing -/

/-- The session of a document is gone, and then its checks. -/
def dismiss (uri : String) (r : Relay) : Relay :=
  forget uri { r with sessions := Table.erase uri r.sessions }

/-- Closing a document that is not open does nothing. -/
theorem closeDocument_of_not_open (hnone : r.session? uri = none) :
    (r.closeDocument uri).1 = r := by
  unfold closeDocument require
  simp only [hnone]

/-- **What closing a document comes to**: it is dismissed, and that is told. -/
theorem closeDocument_of_open (hopen : r.session? uri = some s) :
    (r.closeDocument uri).1 =
      ((r.dismiss uri).notify Service.closeName (Service.fileArgument s.file)).1 := by
  unfold closeDocument require
  simp only [hopen]
  rw [← dismiss]
  split
  all_goals
    rename_i heq
    rw [heq]

end Relay

end LanguageRelay
