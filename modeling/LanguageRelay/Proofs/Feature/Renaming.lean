import LanguageRelay.Proofs.Service.Locations
import LanguageRelay.Proofs.Uri.Documents
import LanguageRelay.Relay.Query
/-!
# What a rename edits

An answer to a rename lists groups of places. A group is in one file, and several
groups may be in files of one URI. `Gathers` says what edits the groups come to:
under each URI one edit for each place that is an object, in the order received.
One group more keeps it (`Gathers.add`), so the edits of a whole answer do
(`rename_gathers`). A group that names no file makes the rename fail, wherever it
stands, so that nothing is edited.
-/

namespace LanguageRelay

namespace WorkspaceEdit

/-- A group of places in a file. -/
structure Group where
  file : String
  places : List Json

namespace Group

/-- The document of the file. -/
def uri (g : Group) : String := Uri.ofFile g.file

/-- The places that are objects. -/
def spots (g : Group) : List Json := g.places.filter fun loc => loc.fields?.isSome

end Group

/-- What a group in an answer is: an object that names its file, and its places. -/
structure Reads (group : Json) (g : Group) : Prop where
  file : group.get? "file" = some (.str g.file)
  places : (group.get "locs").elementsOrNone = some g.places

/-- It is no object with a text for its file. -/
def Malformed (group : Json) : Prop := ∀ file, group.get? "file" ≠ some (.str file)

/-- The text of a place to be put around the new name; it may be missing. -/
inductive Affix (loc : Json) (key : String) : String → Prop where
  | missing (h : loc.get? key = none) : Affix loc key ""
  | given {text : String} (h : loc.get? key = some (.str text)) : Affix loc key text

/-- The place can be edited: its span is one, and what is to be put around the new
name are texts. -/
structure Editable (loc : Json) : Prop where
  span : ∃ range, Service.Spanned loc (.ok range)
  before : ∃ text, Affix loc "prefixText" text
  after : ∃ text, Affix loc "suffixText" text

/-- A group whose places can all be edited. -/
def Proper (group : Json) : Prop := ∃ g, Reads group g ∧ ∀ loc ∈ g.spots, Editable loc

/-- **The edit of a place**: the new name, with what goes around it, in its span. -/
structure EditOf (newName : String) (loc : Json) (e : TextEdit) : Prop where
  range : Service.Spanned loc (.ok e.range)
  text : ∃ before after, Affix loc "prefixText" before ∧ Affix loc "suffixText" after ∧
    e.newText = before ++ newName ++ after

/-- The places in a document, group by group. -/
def spotsIn (uri : String) (gs : List Group) : List Json :=
  (gs.filter fun g => g.uri = uri).flatMap Group.spots

/-- **What the edits of groups are.** -/
structure Gathers (newName : String) (gs : List Group)
    (changes : List (String × List TextEdit)) : Prop where
  /-- The documents are those of the groups. -/
  uris : ∀ uri, uri ∈ Table.keys changes ↔ uri ∈ gs.map Group.uri
  /-- They come in the order in which they are first met, none twice. -/
  order : (Table.keys changes).Pairwise fun a b =>
    (gs.map Group.uri).idxOf a < (gs.map Group.uri).idxOf b
  /-- Each has one edit for each of its places, in order. -/
  edits : ∀ uri, List.Forall₂ (EditOf newName) (spotsIn uri gs) (editsUnder uri changes)
  /-- There are as many edits as places. -/
  total : (changes.map fun c => c.2.length).sum = (gs.flatMap Group.spots).length

variable {newName key text uri : String} {loc group : Json} {places groups : List Json}
variable {g : Group} {gs : List Group} {es : List TextEdit}
variable {found changes : List (String × List TextEdit)}

/-! ## Places -/

theorem Affix.eq (h : Affix loc key text) : affix loc key = text := by
  cases h with
  | missing h => simp [affix, h]
  | given h => simp [affix, h, Json.text]

/-- Each place that can be edited is, in order; what is no object is left out. -/
theorem exists_atPlaces (newName : String)
    (h : ∀ loc ∈ places.filter fun loc => loc.fields?.isSome, Editable loc) :
    ∃ es, atPlaces newName places = .ok es ∧
      List.Forall₂ (EditOf newName) (places.filter fun loc => loc.fields?.isSome) es := by
  induction places with
  | nil => exact ⟨[], rfl, .nil⟩
  | cons loc rest ih =>
    cases loc with
    | obj fields =>
      rw [List.filter_cons_of_pos rfl] at h ⊢
      obtain ⟨⟨range, hrange⟩, ⟨before, hbefore⟩, after, hafter⟩ := h _ List.mem_cons_self
      obtain ⟨es, hes, hedits⟩ := ih fun loc hloc => h loc (List.mem_cons_of_mem _ hloc)
      refine ⟨⟨range, before ++ newName ++ after⟩ :: es, ?_,
        .cons ⟨hrange, before, after, hbefore, hafter, rfl⟩ hedits⟩
      rw [atPlaces, Service.spanRange_eq_iff.mpr hrange, hes, hbefore.eq, hafter.eq]
      rfl
    | _ => exact ih h

/-! ## Groups -/

theorem group?_eq_some_iff {file : String} :
    group? group = some file ↔ group.get? "file" = some (.str file) := by
  cases group with
  | obj fields =>
    simp only [group?, Json.get]
    cases (Json.obj fields).get? "file" with
    | none => simp
    | some v => cases v <;> simp
  | _ => simp [group?, Json.get?, Json.fields]

theorem group?_eq_none_iff : group? group = none ↔ Malformed group := by
  simp only [Option.eq_none_iff_forall_ne_some, ne_eq, group?_eq_some_iff, Malformed]

/-- One group is added to those found. -/
theorem ofGroups_cons (h : Reads group g) (hes : atPlaces newName g.places = .ok es) :
    ofGroups newName found (group :: groups) = ofGroups newName (add g.uri es found) groups := by
  simp only [ofGroups, group?_eq_some_iff.mpr h.file, h.places, hes]
  rfl

theorem ofGroups_cons_of_malformed (h : Malformed group) :
    ofGroups newName found (group :: groups) = .error (.protocol (.malformedGroup group)) := by
  simp only [ofGroups, group?_eq_none_iff.mpr h]

/-! ## Adding a group -/

/-- A URI that was met before keeps its place. -/
theorem keys_add_of_mem (es : List TextEdit) (h : uri ∈ Table.keys changes) :
    Table.keys (add uri es changes) = Table.keys changes := by
  obtain ⟨old, hold⟩ := Option.isSome_iff_exists.mp (Table.mem_keys_iff.mp h)
  rw [keys_add, ← Table.update_eq_put (fun _ => editsUnder uri changes ++ es) hold,
    Table.keys_update]

/-- A new one comes behind the others. -/
theorem keys_add_of_not_mem (es : List TextEdit) (h : uri ∉ Table.keys changes) :
    Table.keys (add uri es changes) = Table.keys changes ++ [uri] := by
  rw [keys_add, Table.keys_put_of_not_mem h]

theorem sum_length_add (uri : String) (es : List TextEdit)
    (changes : List (String × List TextEdit)) :
    ((add uri es changes).map fun c => c.2.length).sum =
      (changes.map fun c => c.2.length).sum + es.length := by
  induction changes with
  | nil => simp [add]
  | cons change rest ih =>
    obtain ⟨u, old⟩ := change
    by_cases hu : u = uri
    · simp only [add, if_pos hu, List.map_cons, List.sum_cons, List.length_append]
      omega
    · simp only [add, if_neg hu, List.map_cons, List.sum_cons, ih]
      omega

theorem spotsIn_append (uri : String) (gs gs' : List Group) :
    spotsIn uri (gs ++ gs') = spotsIn uri gs ++ spotsIn uri gs' := by
  simp [spotsIn]

theorem spotsIn_singleton (uri : String) (g : Group) :
    spotsIn uri [g] = if g.uri = uri then g.spots else [] := by
  rw [spotsIn, List.filter_singleton]
  by_cases h : g.uri = uri <;> simp [h]

theorem gathers_nil (newName : String) : Gathers newName [] [] where
  uris := fun _ => Iff.rfl
  order := .nil
  edits := fun _ => .nil
  total := rfl

/-- **One group more.** -/
theorem Gathers.add (h : Gathers newName gs changes)
    (hes : List.Forall₂ (EditOf newName) g.spots es) :
    Gathers newName (gs ++ [g]) (add g.uri es changes) where
  uris uri := by
    rw [List.map_append, List.mem_append, ← h.uris]
    by_cases hmem : g.uri ∈ Table.keys changes
    · rw [keys_add_of_mem es hmem]
      refine ⟨.inl, fun h' => h'.elim id fun h' => ?_⟩
      rw [List.mem_singleton.mp h']
      exact hmem
    · rw [keys_add_of_not_mem es hmem, List.mem_append]
      rfl
  order := by
    -- behind the others, a URI is first met where it was
    have hkeep : ∀ a ∈ Table.keys changes,
        ((gs ++ [g]).map Group.uri).idxOf a = (gs.map Group.uri).idxOf a := fun a ha => by
      rw [List.map_append, List.idxOf_append_of_mem ((h.uris a).mp ha)]
    have horder : (Table.keys changes).Pairwise fun a b =>
        ((gs ++ [g]).map Group.uri).idxOf a < ((gs ++ [g]).map Group.uri).idxOf b :=
      h.order.imp_of_mem fun ha hb hlt => by rwa [hkeep _ ha, hkeep _ hb]
    by_cases hmem : g.uri ∈ Table.keys changes
    · rwa [keys_add_of_mem es hmem]
    · rw [keys_add_of_not_mem es hmem, List.pairwise_append]
      refine ⟨horder, List.pairwise_singleton _ _, fun a ha b hb => ?_⟩
      have hnew : g.uri ∉ gs.map Group.uri := fun hin => hmem ((h.uris _).mpr hin)
      rw [hkeep a ha, List.mem_singleton.mp hb, List.map_append,
        List.idxOf_append_of_notMem hnew]
      exact Nat.lt_add_right _ (List.idxOf_lt_length_of_mem ((h.uris a).mp ha))
  edits uri := by
    rw [editsUnder_add, spotsIn_append, spotsIn_singleton]
    refine List.rel_append (h.edits uri) ?_
    by_cases heq : g.uri = uri
    · rwa [if_pos heq, if_pos heq]
    · rw [if_neg heq, if_neg heq]
      exact .nil
  total := by
    rw [sum_length_add, h.total, List.flatMap_append, List.length_append, ← hes.length_eq]
    simp

/-- **All groups**, added to those before. -/
theorem exists_ofGroups {before : List Group} (hgroups : List.Forall₂ Reads groups gs)
    (hedit : ∀ g ∈ gs, ∀ loc ∈ g.spots, Editable loc) (h : Gathers newName before found) :
    ∃ changes, ofGroups newName found groups = .ok changes ∧
      Gathers newName (before ++ gs) changes := by
  induction hgroups generalizing before found with
  | nil => exact ⟨found, rfl, by rwa [List.append_nil]⟩
  | @cons group g groups gs hread hgroups ih =>
    obtain ⟨es, hes, hedits⟩ := exists_atPlaces newName (hedit g List.mem_cons_self)
    obtain ⟨changes, hchanges, hgathers⟩ :=
      ih (fun g hg => hedit g (List.mem_cons_of_mem _ hg)) (h.add hedits)
    refine ⟨changes, by rw [ofGroups_cons hread hes, hchanges], ?_⟩
    rwa [List.append_assoc] at hgathers

/-! ## Groups that name no file -/

theorem exists_first_malformed (h : ∃ group ∈ groups, Malformed group) :
    ∃ before bad after, groups = before ++ bad :: after ∧ Malformed bad ∧
      ∀ group ∈ before, ¬ Malformed group := by
  have hfind : (groups.find? fun group => (group? group).isNone).isSome := by
    obtain ⟨group, hmem, hbad⟩ := h
    exact List.find?_isSome.mpr ⟨group, hmem, by simp [group?_eq_none_iff.mpr hbad]⟩
  obtain ⟨bad, hbad⟩ := Option.isSome_iff_exists.mp hfind
  obtain ⟨hnone, before, after, rfl, hbefore⟩ := List.find?_eq_some_iff_append.mp hbad
  refine ⟨before, bad, after, rfl, group?_eq_none_iff.mp (Option.isNone_iff_eq_none.mp hnone),
    fun group hgroup hmalformed => ?_⟩
  have := hbefore group hgroup
  simp [group?_eq_none_iff.mpr hmalformed] at this

/-- The first of them ends the reading of the groups. -/
theorem ofGroups_of_malformed {before after : List Json} (hbefore : ∀ group ∈ before, Proper group)
    (h : Malformed group) : ofGroups newName found (before ++ group :: after) =
      .error (.protocol (.malformedGroup group)) := by
  induction before generalizing found with
  | nil => exact ofGroups_cons_of_malformed h
  | cons other before ih =>
    obtain ⟨g, hread, hedit⟩ := hbefore other List.mem_cons_self
    obtain ⟨es, hes, -⟩ := exists_atPlaces newName hedit
    rw [List.cons_append, ofGroups_cons hread hes]
    exact ih fun group hgroup => hbefore group (List.mem_cons_of_mem _ hgroup)

/-- One of them anywhere leaves no edits. -/
theorem not_malformed_of_ofGroups (hok : ofGroups newName found groups = .ok changes) :
    ∀ group ∈ groups, ¬ Malformed group := by
  intro group hmem hbad
  obtain ⟨named, hnamed, -⟩ := exists_of_ofGroups hok
  obtain ⟨hlength, hget⟩ := List.forall₂_iff_get.mp hnamed
  obtain ⟨i, hi, rfl⟩ := List.getElem_of_mem hmem
  have hfile := (hget i hi (hlength ▸ hi)).1
  rw [List.get_eq_getElem, group?_eq_none_iff.mpr hbad] at hfile
  cases hfile

/-! ## Answers -/

/-- An answer that allows the rename is read group by group. -/
theorem answer_rename {body : Json} (hcan : ((body.get "info").get "canRename").isTruthy)
    (hgroups : (body.get "locs").elementsOrNone = some groups) (window : Option Duration)
    (newName : String) : After.answer window (.rename newName) body =
      .finished ((ofGroups newName [] groups).map fun changes => .workspace ⟨changes⟩) := by
  simp only [After.answer, ofBody, hcan, if_true, hgroups]
  cases ofGroups newName [] groups <;> rfl

/-- **A rename loses no edit and invents none.** If all groups of an answer name a file
and their places can be edited, the edits are those of the groups. If the groups that
name a file are so, and others do not name one, the rename fails for the first of
these. One that names none leaves no edit, whatever the others are. -/
theorem rename_gathers (window : Option Duration) (newName : String) (body : Json)
    {groups : List Json} (hcan : ((body.get "info").get "canRename").isTruthy)
    (hgroups : (body.get "locs").elementsOrNone = some groups) :
    (∀ gs, List.Forall₂ Reads groups gs → (∀ g ∈ gs, ∀ loc ∈ g.spots, Editable loc) →
      ∃ e, After.answer window (.rename newName) body = .finished (.ok (.workspace e)) ∧
        Gathers newName gs e.changes) ∧
    ((∀ group ∈ groups, Malformed group ∨ Proper group) → (∃ group ∈ groups, Malformed group) →
      ∃ before bad after, groups = before ++ bad :: after ∧ Malformed bad ∧
        (∀ group ∈ before, ¬ Malformed group) ∧
        After.answer window (.rename newName) body =
          .finished (.error (.protocol (.malformedGroup bad)))) ∧
    ((∃ group ∈ groups, Malformed group) →
      ∃ e, After.answer window (.rename newName) body = .finished (.error e)) := by
  rw [answer_rename hcan hgroups]
  refine ⟨fun gs hread hedit => ?_, fun hall hbad => ?_, fun hbad => ?_⟩
  · obtain ⟨changes, hchanges, hgathers⟩ := exists_ofGroups hread hedit (gathers_nil newName)
    exact ⟨⟨changes⟩, by rw [hchanges]; rfl, hgathers⟩
  · obtain ⟨before, bad, after, rfl, hmalformed, hnamed⟩ := exists_first_malformed hbad
    refine ⟨before, bad, after, rfl, hmalformed, hnamed, ?_⟩
    have hproper : ∀ group ∈ before, Proper group := fun group hgroup =>
      (hall group (List.mem_append_left _ hgroup)).resolve_left (hnamed group hgroup)
    rw [ofGroups_of_malformed hproper hmalformed]
    rfl
  · obtain ⟨group, hmem, hmalformed⟩ := hbad
    cases hok : ofGroups newName [] groups with
    | error e => exact ⟨e, rfl⟩
    | ok changes => exact absurd hmalformed (not_malformed_of_ofGroups hok group hmem)

/-- A place of one character at the start of a line, with a text in front of the name. -/
def onLine (line : Nat) (text : String) : Json :=
  .obj [("start", .obj (Service.locationFields ⟨line, 0⟩)),
    ("end", .obj (Service.locationFields ⟨line, 1⟩)), ("prefixText", .str text)]

theorem editable_onLine {line : Nat} (h : line < 2 ^ 31) (text : String) :
    Editable (onLine line text) where
  span := by
    have hread : ∀ character < 2 ^ 31, Service.Located (.obj (Service.locationFields
        ⟨line, character⟩)) (.ok ⟨line, character⟩) := fun character hcharacter =>
      Service.toPosition_eq_iff.mp (Service.toPosition_locationFields h hcharacter)
    exact ⟨⟨⟨line, 0⟩, ⟨line, 1⟩⟩, .placed ⟨_, _, rfl, rfl, rfl, rfl⟩ (hread 0 (by decide))
      (hread 1 (by decide))⟩
  before := ⟨text, .given rfl⟩
  after := ⟨"", .missing rfl⟩

/-- A group in an answer. -/
def Group.toJson (g : Group) : Json := .obj [("file", .str g.file), ("locs", .arr g.places)]

/-- The answer with these groups. -/
def allowed (groups : List Json) : Json :=
  .obj [("info", .obj [("canRename", .bool true)]), ("locs", .arr groups)]

/-- Two groups in one document, whose file is spelled in two ways, and one between
them. -/
def spelledTwice : List Group :=
  [⟨"/a/b.ts", [onLine 0 "", .int 7]⟩, ⟨"/c.ts", [onLine 1 ""]⟩, ⟨"/a/./b.ts", [onLine 2 "x: "]⟩]

theorem editable_spelledTwice : ∀ g ∈ spelledTwice, ∀ loc ∈ g.spots, Editable loc := by
  have hspots : spelledTwice.map Group.spots = [[onLine 0 ""], [onLine 1 ""], [onLine 2 "x: "]] :=
    rfl
  intro g hg loc hloc
  have hmem : g.spots ∈ spelledTwice.map Group.spots := List.mem_map_of_mem hg
  rw [hspots] at hmem
  simp only [List.mem_cons, List.not_mem_nil, or_false] at hmem
  rcases hmem with heq | heq | heq <;> rw [heq, List.mem_singleton] at hloc <;> subst hloc <;>
    exact editable_onLine (by decide) _

/-- The document is edited at both places, and nothing is if a fourth group is none. -/
theorem rename_gathers_spelledTwice :
    (∃ e, After.answer none (.rename "n") (allowed (spelledTwice.map Group.toJson)) =
        .finished (.ok (.workspace e)) ∧ Gathers "n" spelledTwice e.changes) ∧
    ofGroups "n" [] (spelledTwice.map Group.toJson) = .ok
      [("file:///a/b.ts", [⟨⟨⟨0, 0⟩, ⟨0, 1⟩⟩, "n"⟩, ⟨⟨⟨2, 0⟩, ⟨2, 1⟩⟩, "x: n"⟩]),
        ("file:///c.ts", [⟨⟨⟨1, 0⟩, ⟨1, 1⟩⟩, "n"⟩])] ∧
    ∃ bad, After.answer none (.rename "n") (allowed (spelledTwice.map Group.toJson ++ [.int 7])) =
      .finished (.error (.protocol (.malformedGroup bad))) := by
  obtain ⟨hgathers, -, -⟩ :=
    rename_gathers none "n" (allowed (spelledTwice.map Group.toJson)) rfl rfl
  obtain ⟨-, hmalformed, -⟩ :=
    rename_gathers none "n" (allowed (spelledTwice.map Group.toJson ++ [.int 7])) rfl rfl
  have hread : ∀ g : Group, g ∈ spelledTwice → Reads g.toJson g := by
    intro g hg
    simp only [spelledTwice, List.mem_cons, List.not_mem_nil, or_false] at hg
    rcases hg with rfl | rfl | rfl <;> exact ⟨rfl, rfl⟩
  have hnone : Malformed (.int 7) := fun file hfile => nomatch hfile
  have hall : ∀ group ∈ spelledTwice.map Group.toJson ++ [.int 7],
      Malformed group ∨ Proper group := by
    intro group hgroup
    rcases List.mem_append.mp hgroup with hmem | hmem
    · obtain ⟨g, hg, rfl⟩ := List.mem_map.mp hmem
      exact .inr ⟨g, hread g hg, editable_spelledTwice g hg⟩
    · exact .inl (List.mem_singleton.mp hmem ▸ hnone)
  refine ⟨hgathers spelledTwice ?_ editable_spelledTwice, by with_unfolding_all rfl, ?_⟩
  · exact List.forall₂_map_left_iff.mpr (List.forall₂_same.mpr hread)
  · obtain ⟨_, bad, _, -, -, -, hfailed⟩ := hmalformed hall ⟨.int 7, by simp, hnone⟩
    exact ⟨bad, hfailed⟩

end WorkspaceEdit

end LanguageRelay
