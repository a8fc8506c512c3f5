import LanguageRelay.Feature.Answers
import LanguageRelay.Proofs.Checks.Attribution
import LanguageRelay.Proofs.Fallible
import LanguageRelay.Proofs.Relay.Files
import LanguageRelay.Proofs.Uri.RoundTrip
/-!
# Files and the documents they are opened as

An editor names documents by URIs, the analysis server names files. The file
of a URI is what the relay takes for the session (`Relay.Sound.filed`), the URI
of a file what it puts into locations, edits and diagnostics. Since the two are
inverse on normal forms, what the analysis server says of a file reaches the
document that is open as that file (`Means`, `files_come_back`).

Parts of checks go another way: they are told by file, and the relay looks up
the document it asked for. That file, too, is the one of the document's session
(`led_run`).
-/

namespace LanguageRelay

namespace Uri

/-- The normal form of a file. -/
def normalForm (file : String) : String := String.ofList (Path.normalize file.toList)

variable {file other : String}

theorem fileOf?_ofFile (h : Path.isAbsolute file.toList) :
    fileOf? (ofFile file) = some (normalForm file) := by
  rw [fileOf?, ofFile, String.toList_ofList, toPath?_ofPath h, Option.map_some, normalForm]

theorem ofFile_normalForm (h : Path.isAbsolute file.toList) :
    ofFile (normalForm file) = ofFile file := by
  rw [ofFile, normalForm, String.toList_ofList, ofPath_normalize h, ofFile]

/-- Two files have one URI exactly if they have one normal form. -/
theorem ofFile_inj (h : Path.isAbsolute file.toList) (hother : Path.isAbsolute other.toList) :
    ofFile file = ofFile other ↔ normalForm file = normalForm other := by
  simp only [ofFile, normalForm, String.ofList_inj, ofPath_inj h hother]

end Uri

/-! ## What answers name -/

/-- A location is under the URI of the file its span names. -/
theorem Service.uri_of_spanLocation {span : Json} {loc : Location}
    (h : spanLocation span = .ok loc) :
    ∃ file, span.get "file" = .str file ∧ loc.uri = Uri.ofFile file := by
  unfold spanLocation at h
  split at h
  case h_2 => cases h
  case h_1 fields =>
    split at h
    case h_2 => cases h
    case h_1 file hfile =>
      obtain ⟨range, -, hloc⟩ := bind_eq_ok.mp h
      cases hloc
      exact ⟨file, hfile, rfl⟩

/-- Every location of an answer is that of one of its spans. -/
theorem Location.mem_ofSpans {keep : Json → Bool} {spans : List Json} {locs : List Location}
    (h : ofSpans keep spans = .ok locs) {loc : Location} (hloc : loc ∈ locs) :
    ∃ span ∈ spans, Service.spanLocation span = .ok loc := by
  induction spans generalizing locs with
  | nil =>
    cases h
    cases hloc
  | cons span rest ih =>
    have hlater : ∀ {locs}, ofSpans keep rest = .ok locs → loc ∈ locs →
        ∃ span' ∈ span :: rest, Service.spanLocation span' = .ok loc := fun h hloc => by
      obtain ⟨span', hmem, hspan⟩ := ih h hloc
      exact ⟨span', List.mem_cons_of_mem _ hmem, hspan⟩
    unfold ofSpans at h
    split at h
    case h_1 => simp_all
    case h_3 heq =>
      cases heq
      exact hlater h hloc
    case h_2 fields rest' heq =>
      cases heq
      split at h
      case isFalse => exact hlater h hloc
      case isTrue =>
        obtain ⟨first, hfirst, h⟩ := bind_eq_ok.mp h
        obtain ⟨later, hlater', h⟩ := bind_eq_ok.mp h
        cases h
        rcases List.mem_cons.mp hloc with rfl | hloc
        · exact ⟨_, List.mem_cons_self, hfirst⟩
        · exact hlater hlater' hloc

namespace Diagnostic

/-- Every place a diagnostic refers to is under the URI of the file that one of
the items names. -/
theorem mem_relatedItems {items : List Json} {infos : List RelatedInfo}
    (h : relatedItems items = .ok infos) {info : RelatedInfo} (hinfo : info ∈ infos) :
    ∃ item ∈ items, ∃ file, spanFile? (item.get "span") = some file ∧
      info.location.uri = Uri.ofFile file.text := by
  induction items generalizing infos with
  | nil =>
    cases h
    cases hinfo
  | cons item rest ih =>
    have hlater : ∀ {infos}, relatedItems rest = .ok infos → info ∈ infos →
        ∃ item' ∈ item :: rest, ∃ file, spanFile? (item'.get "span") = some file ∧
          info.location.uri = Uri.ofFile file.text := fun h hinfo => by
      obtain ⟨item', hmem, hitem⟩ := ih h hinfo
      exact ⟨item', List.mem_cons_of_mem _ hmem, hitem⟩
    unfold relatedItems at h
    split at h
    case h_1 => exact hlater h hinfo
    case h_2 file hfile =>
      obtain ⟨location, hlocation, h⟩ := bind_eq_ok.mp h
      obtain ⟨later, hlater', h⟩ := bind_eq_ok.mp h
      cases h
      rcases List.mem_cons.mp hinfo with rfl | hinfo
      · obtain ⟨start, -, hlocation⟩ := bind_eq_ok.mp hlocation
        obtain ⟨stop, -, hlocation⟩ := bind_eq_ok.mp hlocation
        obtain ⟨range, -, hlocation⟩ := bind_eq_ok.mp hlocation
        cases hlocation
        exact ⟨item, List.mem_cons_self, file, hfile, rfl⟩
      · exact hlater hlater' hinfo

/-- The same, of the diagnostic of an entry. -/
theorem mem_related {entry : Json} {d : Diagnostic} (h : ofEntry entry = .ok d)
    {info : RelatedInfo} (hinfo : info ∈ d.related) :
    ∃ item ∈ (entry.get "relatedInformation").items, ∃ file,
      spanFile? (item.get "span") = some file ∧ info.location.uri = Uri.ofFile file.text := by
  unfold ofEntry at h
  split at h
  case h_2 => cases h
  case h_1 =>
    split at h
    case h_2 => cases h
    case h_1 =>
      obtain ⟨range, -, h⟩ := bind_eq_ok.mp h
      obtain ⟨related, hrelated, h⟩ := bind_eq_ok.mp h
      cases h
      exact mem_relatedItems hrelated hinfo

end Diagnostic

namespace WorkspaceEdit

/-- A group of places names a file, and has edits there. -/
def OfGroup (newName : String) (group : Json) (named : String × List TextEdit) : Prop :=
  group? group = some named.1 ∧ ∃ places, (group.get "locs").elementsOrNone = some places ∧
    atPlaces newName places = .ok named.2

/-- The edits of a document. -/
def editsUnder (uri : String) (changes : List (String × List TextEdit)) : List TextEdit :=
  (Table.get? uri changes).getD []

/-- The edits of the files with a URI, in the order of the groups. -/
def editsOf (uri : String) (named : List (String × List TextEdit)) : List TextEdit :=
  (named.filter fun n => Uri.ofFile n.1 = uri).flatMap Prod.snd

theorem get?_add (uri other : String) (edits : List TextEdit)
    (changes : List (String × List TextEdit)) :
    Table.get? other (add uri edits changes) =
      if uri = other then some (editsUnder uri changes ++ edits) else Table.get? other changes := by
  induction changes with
  | nil => simp [add, Table.get?, editsUnder]
  | cons change rest ih =>
    obtain ⟨u, es⟩ := change
    by_cases hu : u = uri
    · subst hu
      by_cases h : u = other <;> simp [add, Table.get?, editsUnder, h]
    · by_cases h : u = other
      · subst h
        simp [add, Table.get?, hu, Ne.symm hu]
      · simp [add, Table.get?, hu, h, ih, editsUnder]

theorem editsUnder_add (uri other : String) (edits : List TextEdit)
    (changes : List (String × List TextEdit)) :
    editsUnder other (add uri edits changes) =
      editsUnder other changes ++ if uri = other then edits else [] := by
  rw [editsUnder, get?_add]
  split
  · rename_i h
    rw [h, Option.getD_some]
  · rw [List.append_nil, editsUnder]

theorem keys_add (uri : String) (edits : List TextEdit)
    (changes : List (String × List TextEdit)) :
    Table.keys (add uri edits changes) =
      Table.keys (Table.put uri (editsUnder uri changes ++ edits) changes) := by
  induction changes with
  | nil => rfl
  | cons change rest ih =>
    obtain ⟨u, es⟩ := change
    by_cases hu : u = uri
    · simp [add, Table.put, Table.keys, hu]
    · simp only [Table.keys, add, hu, if_false, List.map_cons, Table.put, editsUnder,
        Table.get?] at ih ⊢
      rw [ih]

/-- **What the groups of an answer to a rename come to**: the edits of each
document are those of the groups whose file has its URI. -/
theorem exists_of_ofGroups {newName : String} {found changes : List (String × List TextEdit)}
    {groups : List Json} (h : ofGroups newName found groups = .ok changes) :
    ∃ named, List.Forall₂ (OfGroup newName) groups named ∧
      ((Table.keys found).Nodup → (Table.keys changes).Nodup) ∧
      ∀ uri, editsUnder uri changes = editsUnder uri found ++ editsOf uri named := by
  induction groups generalizing found with
  | nil =>
    cases h
    exact ⟨[], .nil, id, fun uri => (List.append_nil _).symm⟩
  | cons group rest ih =>
    unfold ofGroups at h
    split at h
    case h_1 => cases h
    case h_2 file hfile =>
      split at h
      case h_1 => cases h
      case h_2 places hplaces =>
        obtain ⟨edits, hedits, h⟩ := bind_eq_ok.mp h
        obtain ⟨named, hnamed, hnodup, hunder⟩ := ih h
        refine ⟨(file, edits) :: named, .cons ⟨hfile, places, hplaces, hedits⟩ hnamed,
          fun hfound => hnodup ?_, fun uri => ?_⟩
        · rw [keys_add]
          exact Table.nodup_keys_put hfound
        · rw [hunder, editsUnder_add, List.append_assoc, editsOf, editsOf, List.filter_cons]
          split <;> simp_all

theorem exists_of_ofBody {command newName : String} {body : Json} {edit : WorkspaceEdit}
    (h : ofBody command newName body = .ok edit) :
    ∃ groups named, (body.get "locs").elementsOrNone = some groups ∧
      List.Forall₂ (OfGroup newName) groups named ∧ (Table.keys edit.changes).Nodup ∧
      ∀ uri, editsUnder uri edit.changes = editsOf uri named := by
  simp only [ofBody] at h
  split at h
  case isFalse => cases h
  case isTrue =>
    split at h
    case h_1 => cases h
    case h_2 groups hgroups =>
      obtain ⟨changes, hchanges, rfl⟩ := map_eq_ok.mp h
      obtain ⟨named, hnamed, hnodup, hunder⟩ := exists_of_ofGroups hchanges
      exact ⟨groups, named, hgroups, hnamed, hnodup List.nodup_nil, hunder⟩

end WorkspaceEdit

namespace Relay

variable {r r' : Relay} {uri file : String}

/-! ## What a URI means -/

/-- **A URI means a file**: it is that of the file, and a document open under
it has the file, in normal form, as its own, so that its file has this URI
again. -/
def Means (r : Relay) (uri file : String) : Prop :=
  uri = Uri.ofFile file ∧
    (Path.isAbsolute file.toList → ∀ s, r.session? uri = some s →
      s.file = Uri.normalForm file ∧ Uri.ofFile s.file = uri)

/-- The URI of a file means it. -/
theorem Sound.means (h : r.Sound) (file : String) : r.Means (Uri.ofFile file) file := by
  refine ⟨rfl, fun habs s hs => ?_⟩
  have hfile : s.file = Uri.normalForm file :=
    Option.some.inj ((h.filed _ s hs).2.symm.trans (Uri.fileOf?_ofFile habs))
  exact ⟨hfile, by rw [hfile, Uri.ofFile_normalForm habs]⟩

/-! ## Parts of checks -/

/-- The documents that files lead to have these files. -/
def Led (r : Relay) : Prop :=
  ∀ file uri, Table.get? file r.uriByFile = some uri → Uri.fileOf? uri = some file

theorem Led.of_same (h : r.Led) (hsame : r'.uriByFile = r.uriByFile) : r'.Led := by
  rwa [Led, hsame]

/-- Files are only taken out by closing. -/
theorem Led.forget (h : r.Led) (uri : String) : (r.forget uri).Led := by
  cases hcheck : r.check? uri with
  | none =>
    rw [forget_of_none hcheck]
    exact h.of_same (quiet_disarm uri r).uriByFile
  | some c =>
    rw [forget_of_some hcheck]
    intro file u hu
    change Table.get? file (unlinkedFrom uri c.file r.uriByFile) = some u at hu
    unfold unlinkedFrom at hu
    split at hu
    · rw [Table.get?_erase] at hu
      split at hu
      · cases hu
      · exact h file u hu
    · exact h file u hu

theorem led_step {uris : List String} (hstep : Step uris r r') (hsound : r.Sound) (h : r.Led) :
    r'.Led := by
  cases hstep with
  | quiet hq => exact h.of_same hq.uriByFile
  | @enrolled uri s hopen =>
    intro file u hu
    change Table.get? file (Table.put s.file uri r.uriByFile) = some u at hu
    rw [Table.get?_put] at hu
    split at hu
    · rename_i hfile
      cases hu
      exact hfile ▸ (hsound.filed _ s hopen).2
    · exact h file u hu
  | @closed uri =>
    have hrest : Led { r with sessions := Table.erase uri r.sessions } := h.of_same rfl
    exact hrest.forget uri
  | disconnected hup =>
    rw [disconnect_of_open hup]
    exact h
  | _ => exact h

theorem led_heard {note : News} {failure : Option Failure} (hheard : Heard r note r' failure)
    (h : r.Led) : r'.Led := by
  cases hheard with
  | @settled _ category items e entries uri c =>
    obtain ⟨fresh, fx, hshape, -⟩ := settle_shape uri (c.counted category items entries) r
    exact h.of_same (by rw [hshape])
  | @exhausted seq uri c e text =>
    obtain ⟨fresh, fx, hshape, -⟩ :=
      settle_shape uri (c.exhausted seq) ((r.retireAbandoned seq).log .warning text)
    exact h.of_same (by rw [hshape]; rfl)
  | _ => exact h

/-- Every move keeps it. -/
theorem led_perform (m : Move) (hsound : r.Sound) (h : r.Led) : (m.perform r).1.Led := by
  cases hnews : m.news? with
  | none =>
    have hkey : ∀ uri s, r.session? uri = some s → s.uri = uri :=
      fun uri s hs => (hsound.filed uri s hs).1
    exact (Steps.keep (P := fun r => r.Sound ∧ r.Led)
      (fun _ _ hstep hr => ⟨sound_step hstep hr.1, led_step hstep hr.1 hr.2⟩)
      (steps_perform hnews (fun _ => id) hkey) ⟨hsound, h⟩).2
  | some note =>
    exact (led_heard (heard_hear note r) h).of_same (perform_of_news hnews r).1.uriByFile

theorem led_run (setup : Setup) (moves : List Move) : (run moves (Relay.new setup)).Led :=
  (run_induction (P := fun r => r.Sound ∧ r.Led)
    ⟨sound_new setup, fun _ _ h => by simp [Relay.new] at h⟩
    (fun _ m h => ⟨sound_perform m h.1, led_perform m h.1 h.2⟩) moves).2

/-- **What a part of a file settles is published for a document of the
file.** -/
theorem published_for_file {category : String} {items : List Json} {failure : Option Failure}
    {u : String} {x : Effect} (hheard : Heard r (.part file category items) r' failure)
    (hsound : r.Sound) (hled : r.Led) (hx : x ∈ since r r') (hpublished : PublishesOf u x) :
    ∃ s, r.session? u = some s ∧ s.file = file := by
  cases hheard with
  | @settled _ category items e entries uri c habandoned huri hcheck =>
    obtain ⟨fx, hfx, hsettling⟩ := adds_settling uri (c.counted category items entries) r
    rw [since_eq hfx] at hx
    obtain rfl := (hsettling x hx).own hpublished
    obtain ⟨s, hs, -⟩ := hsound.opened u c hcheck
    exact ⟨s, hs, Option.some.inj ((hsound.filed u s hs).2.symm.trans (hled file u huri))⟩
  | _ =>
    change x ∈ r.outbox.drop r.outbox.length at hx
    simp at hx

/-! ## There and back -/

/-- **What is said of a file reaches the document that is open as that file.**

The URI of an absolute path is read as the normal form of the path, so two such
paths have one URI exactly if they have one normal form, and a document opened
under the URI of a file has that file. Each location in an answer, each place a
diagnostic refers to and each group of renaming edits is put under a URI that
means the file it names. And a notification that a part of a check brings about
is about a document whose file is the one the part names. -/
theorem files_come_back (setup : Setup) (moves : List Move) :
    (∀ file, Path.isAbsolute file.toList →
      Uri.fileOf? (Uri.ofFile file) = some (Uri.normalForm file) ∧
      (∀ other, Path.isAbsolute other.toList →
        (Uri.ofFile file = Uri.ofFile other ↔ Uri.normalForm file = Uri.normalForm other)) ∧
      ∀ languageId version content,
        (run (moves ++ [.openDocument (Uri.ofFile file) languageId version content])
          (Relay.new setup)).fileAt (Uri.ofFile file) = some (Uri.normalForm file)) ∧
    (∀ keep spans locs, Location.ofSpans keep spans = .ok locs → ∀ loc ∈ locs,
      ∃ span ∈ spans, ∃ file, span.get "file" = .str file ∧
        (run moves (Relay.new setup)).Means loc.uri file) ∧
    (∀ entry d, Diagnostic.ofEntry entry = .ok d → ∀ info ∈ d.related,
      ∃ item ∈ (entry.get "relatedInformation").items, ∃ file,
        Diagnostic.spanFile? (item.get "span") = some file ∧
          (run moves (Relay.new setup)).Means info.location.uri file.text) ∧
    (∀ command newName body edit, WorkspaceEdit.ofBody command newName body = .ok edit →
      ∃ groups named, (body.get "locs").elementsOrNone = some groups ∧
        List.Forall₂ (WorkspaceEdit.OfGroup newName) groups named ∧
        (Table.keys edit.changes).Nodup ∧
        (∀ uri, WorkspaceEdit.editsUnder uri edit.changes = WorkspaceEdit.editsOf uri named) ∧
        ∀ n ∈ named, (run moves (Relay.new setup)).Means (Uri.ofFile n.1) n.1) ∧
    (∀ m file category items, Move.news? m = some (.part file category items) →
      ∀ uri x, x ∈ since (run moves (Relay.new setup)) (run (moves ++ [m]) (Relay.new setup)) →
        PublishesOf uri x → (run moves (Relay.new setup)).fileAt uri = some file) := by
  have hsound := sound_run setup moves
  have hled := led_run setup moves
  simp only [run_snoc]
  generalize run moves (Relay.new setup) = r at hsound hled ⊢
  refine ⟨fun file habs => ⟨Uri.fileOf?_ofFile habs, fun other hother => Uri.ofFile_inj habs hother,
    fun languageId version content => ?_⟩, fun keep spans locs hlocs loc hloc => ?_,
    fun entry d hentry info hinfo => ?_, fun command newName body edit hedit => ?_,
    fun m file category items hnews uri x hx hpublished => ?_⟩
  · have hopened := (openDocument_file (Uri.ofFile file) languageId version content r).1
      (Uri.ofFile file)
    rw [Uri.fileOf?_ofFile habs, if_pos ⟨rfl, rfl⟩] at hopened
    exact hopened
  · obtain ⟨span, hmem, hspan⟩ := Location.mem_ofSpans hlocs hloc
    obtain ⟨file, hfile, huri⟩ := Service.uri_of_spanLocation hspan
    exact ⟨span, hmem, file, hfile, huri ▸ hsound.means file⟩
  · obtain ⟨item, hmem, file, hfile, huri⟩ := Diagnostic.mem_related hentry hinfo
    exact ⟨item, hmem, file, hfile, huri ▸ hsound.means file.text⟩
  · obtain ⟨groups, named, hgroups, hnamed, hnodup, hunder⟩ := WorkspaceEdit.exists_of_ofBody hedit
    exact ⟨groups, named, hgroups, hnamed, hnodup, hunder, fun n _ => hsound.means n.1⟩
  · -- beyond the part itself, the move publishes nothing
    obtain ⟨hq, -⟩ := perform_of_news hnews r
    have hheard := heard_hear (.part file category items) r
    have hpart : x ∈ since r (r.hear (.part file category items)).1 := by
      obtain ⟨fx, hfx, hquiet⟩ := hq.adds
      rw [since_trans (numbersOn_heard hheard) hq.numbers, since_eq hfx] at hx
      refine (List.mem_append.mp hx).resolve_right fun hmem => hquiet x hmem ?_
      obtain ⟨diagnostics, version, rfl⟩ := hpublished
      trivial
    obtain ⟨s, hs, hfile⟩ := published_for_file hheard hsound hled hpart hpublished
    rw [fileAt, hs, Option.map_some, hfile]

/-- A path with whatever a URI gives a meaning to, behind two slashes. -/
def awkward : String := "//srv/a b#c?d;[1]%2F:@/../\n\t\u00e9\u6f22.ts"

/-- A span in its file. -/
def awkwardSpan : Json :=
  .obj [("file", .str awkward), ("start", .obj [("line", .int 1), ("offset", .int 1)]),
    ("end", .obj [("line", .int 1), ("offset", .int 2)])]

/-- It comes back as it is, and a definition in it is found in its document. -/
theorem files_come_back_awkward :
    Path.isAbsolute awkward.toList ∧ Uri.fileOf? (Uri.ofFile awkward) = some awkward ∧
    (run [.openDocument (Uri.ofFile awkward) "typescript" 1 "x"] (Relay.new syntaxOnly)).fileAt
      (Uri.ofFile awkward) = some awkward ∧
    ∃ loc, Location.ofSpans (fun _ => true) [awkwardSpan] = .ok [loc] ∧
      (run [.openDocument (Uri.ofFile awkward) "typescript" 1 "x"] (Relay.new syntaxOnly)).Means
        loc.uri awkward := by
  have habs : Path.isAbsolute awkward.toList := by decide
  have hnormal : Uri.normalForm awkward = awkward := by decide
  obtain ⟨hback, -, hopened⟩ := (files_come_back syntaxOnly []).1 awkward habs
  refine ⟨habs, hnormal ▸ hback, hnormal ▸ hopened "typescript" 1 "x", ?_⟩
  refine ⟨⟨Uri.ofFile awkward, ⟨⟨0, 0⟩, ⟨0, 1⟩⟩⟩, rfl, ?_⟩
  obtain ⟨span, hspan, file, hfile, hmeans⟩ :=
    (files_come_back syntaxOnly [.openDocument (Uri.ofFile awkward) "typescript" 1 "x"]).2.1
      (fun _ => true) [awkwardSpan] [⟨Uri.ofFile awkward, ⟨⟨0, 0⟩, ⟨0, 1⟩⟩⟩] rfl _
      List.mem_cons_self
  cases List.mem_singleton.mp hspan
  cases hfile
  exact hmeans

end Relay

end LanguageRelay
