import LanguageRelay.Proofs.Checks.Attribution
import LanguageRelay.Proofs.Checks.Credits
import LanguageRelay.Proofs.Checks.Publication
import LanguageRelay.Proofs.Config.Values
/-!
# How often a diagnostic is published

A notification holds what the newest check of its document reported, category
by category **as the configuration lists them** (`published_as_listed`). So an
entry is published as often as its category is listed: once where every
category is listed once, and otherwise as often as the list repeats its name
(`published_twice`). No order of events is assumed.
-/

namespace LanguageRelay

/-! ## Lists with repetitions -/

section Repetitions

variable {α : Type} {f : String → List α} {l : List String}

/-- A list is its items without repetition, each as often as it is there. -/
theorem flatMap_perm_eraseDups (f : String → List α) : ∀ l : List String, (l.flatMap f).Perm
    (l.eraseDups.flatMap fun k => (List.replicate (l.count k) (f k)).flatten)
  | [] => .refl _
  | a :: rest => by
    have hlength : (rest.filter fun b => !b == a).length < (a :: rest).length :=
      Nat.lt_succ_of_le (List.length_filter_le _ _)
    have hcount : ∀ k ∈ (rest.filter fun b => !b == a).eraseDups,
        (a :: rest).count k = (rest.filter fun b => !b == a).count k := by
      intro k hk
      have hne : k ≠ a := by simpa using (List.mem_filter.mp (List.mem_eraseDups.mp hk)).2
      rw [List.count_cons_of_ne hne.symm, List.count_filter (by simpa using hne)]
    -- first the copies of the head, then the others
    have hsplit : (rest.flatMap f).Perm ((List.replicate (rest.count a) (f a)).flatten ++
        (rest.filter fun b => !b == a).flatMap f) := by
      have hcopies : (rest.filter (· == a)).flatMap f =
          (List.replicate (rest.count a) (f a)).flatten := by
        rw [List.filter_beq, List.flatMap_replicate]
      rw [← hcopies, ← List.flatMap_append]
      exact (List.filter_append_perm (· == a) rest).symm.flatMap_right f
    have hothers := (flatMap_perm_eraseDups f (rest.filter fun b => !b == a)).trans
      (.of_eq (List.flatMap_congr fun k hk => by rw [← hcount k hk]))
    rw [List.eraseDups_cons, List.flatMap_cons, List.flatMap_cons, List.count_cons_self,
      List.replicate_succ, List.flatten_cons, List.append_assoc]
    exact (hsplit.trans (hothers.append_left _)).append_left _
termination_by l => l.length
decreasing_by exact hlength

/-- Parts that are no longer one by one are as long together where each is as
long. -/
theorem length_flatMap_eq_length_iff {g h : String → List α}
    (hle : ∀ k ∈ l, (g k).length ≤ (h k).length) :
    (l.flatMap g).length ≤ (l.flatMap h).length ∧
      ((l.flatMap h).length = (l.flatMap g).length ↔
        ∀ k ∈ l, (h k).length = (g k).length) := by
  induction l with
  | nil => simp
  | cons a rest ih =>
    have ha := hle a List.mem_cons_self
    obtain ⟨hrest, heq⟩ := ih fun k hk => hle k (List.mem_cons_of_mem _ hk)
    simp only [List.flatMap_cons, List.length_append, List.forall_mem_cons, ← heq]
    omega

/-- **Repetitions are without effect** exactly where what is repeated is empty:
by number, and one by one. -/
theorem length_flatMap_eq_iff :
    (l.flatMap f).length = (l.eraseDups.flatMap f).length ↔ ∀ k, 1 < l.count k → f k = [] := by
  have hmem : ∀ k ∈ l.eraseDups, 1 ≤ l.count k := fun k hk =>
    List.count_pos_iff.mpr (List.mem_eraseDups.mp hk)
  have hlength (k : String) : (List.replicate (l.count k) (f k)).flatten.length =
      l.count k * (f k).length := by simp
  rw [(flatMap_perm_eraseDups f l).length_eq, (length_flatMap_eq_length_iff fun k hk => by
    rw [hlength]
    exact Nat.le_mul_of_pos_left _ (hmem k hk)).2]
  simp only [hlength]
  refine ⟨fun h k hk => ?_, fun h k hk => ?_⟩
  · have heq := h k (List.mem_eraseDups.mpr (List.count_pos_iff.mp (Nat.lt_of_succ_lt hk)))
    have hzero : (f k).length = 0 := by
      by_contra hne
      have hlt : 1 * (f k).length < l.count k * (f k).length :=
        Nat.mul_lt_mul_of_pos_right hk (Nat.pos_of_ne_zero hne)
      omega
    exact List.length_eq_zero_iff.mp hzero
  · rcases Nat.eq_or_lt_of_le (hmem k hk) with hone | hmore
    · rw [← hone, Nat.one_mul]
    · simp [h k hmore]

theorem flatMap_perm_iff :
    (l.flatMap f).Perm (l.eraseDups.flatMap f) ↔ ∀ k, 1 < l.count k → f k = [] := by
  refine ⟨fun h => length_flatMap_eq_iff.mp h.length_eq,
    fun h => (flatMap_perm_eraseDups f l).trans (.of_eq (List.flatMap_congr fun k hk => ?_))⟩
  have hmem : 1 ≤ l.count k := List.count_pos_iff.mpr (List.mem_eraseDups.mp hk)
  rcases Nat.eq_or_lt_of_le hmem with hone | hmore
  · simp [← hone]
  · simp [h k hmore]

end Repetitions

namespace Relay

variable {r r' : Relay} {parts : Nat → List (String × List Json)}

/-! ## What news publish -/

/-- If the effect is a notification, it tells the parts of one check, which
has reported no category twice. -/
def OfParts (r : Relay) (parts : Nat → List (String × List Json)) (x : Effect) : Prop :=
  x.Publishes → ∃ seq : Nat, ToldBy r seq (parts seq) x ∧ (Table.keys (parts seq)).Nodup

/-- **News publish at most what the newest check of a document reported.** -/
theorem ofParts_heard {note : News} {failure : Option Failure} (hheard : Heard r note r' failure)
    (hsound : r.Sound) (h : r.Booked parts) : Adds (OfParts r (note.entered r parts)) r r' := by
  cases hheard with
  | @settled file category items e entries uri c habandoned huri hcheck hmark hcurrent hawaited =>
    have hbooked := h.records uri c hcheck
    have hstate := hsound.states uri c hcheck
    obtain ⟨earlier, hlist, rfl⟩ := hstate.mark_newest hmark hcurrent
    have he := booked_of_mark hbooked.each hstate.ascending hmark items
      { e with reported := e.reported ++ [category] } (by simp)
    rw [entered_of_mark habandoned huri hcheck hmark]
    refine (adds_settle hcheck (List.ne_nil_of_mem hawaited) (by simp [hlist]) rfl
      (fun k hk => hbooked.get?_counted hstate hmark hcurrent hawaited items hk) rfl rfl).mono
      fun x hx _ => ⟨e.seq, hx, ?_⟩
    rw [he.keys]
    exact he.once
  | @exhausted seq uri c e text hfind hcurrent hawaited =>
    obtain ⟨hcheck, he, -⟩ := hsound.find hfind
    have hbooked := h.records uri c hcheck
    have hnewest := (hsound.states uri c hcheck).newest_of_current he hcurrent hawaited
    rw [entered_completed]
    have hlogged : Adds (OfParts r parts) r ((r.retireAbandoned seq).log .warning text) :=
      ⟨[_], rfl, by simp [OfParts, Effect.Publishes]⟩
    have htold : Adds (ToldBy r e.seq (parts e.seq)) ((r.retireAbandoned seq).log .warning text)
        (((r.retireAbandoned seq).log .warning text).settle uri (c.exhausted seq)).1 :=
      adds_settle hcheck hawaited hnewest rfl (hbooked.merged hawaited e hnewest) rfl rfl
    refine hlogged.trans (htold.mono fun x hx _ => ⟨e.seq, hx, ?_⟩)
    rw [(hbooked.each e he).keys]
    exact (hbooked.each e he).once
  | @repeated seq uri c e text =>
    have hlogged : Adds (OfParts r ((News.completed seq).entered r parts)) r
        ((r.completed seq uri c).log .info text) :=
      ⟨[_], rfl, by simp [OfParts, Effect.Publishes]⟩
    exact hlogged.trans ⟨[_], rfl, by simp [OfParts, Effect.Publishes]⟩
  | severed => exact ⟨[_], rfl, by simp [OfParts, Effect.Publishes]⟩
  | _ => exact .of_outbox_eq rfl

/-- **Every notification of a run tells the parts of one check.** -/
theorem ofParts_perform (setup : Setup) (moves : List Move) (m : Move) :
    Adds (OfParts (run moves (Relay.new setup))
        fun seq => partsOf seq (moves ++ [m]) (Relay.new setup))
      (run moves (Relay.new setup)) (run (moves ++ [m]) (Relay.new setup)) := by
  have hsound := sound_run setup moves
  rw [partsOf_entered, run_snoc]
  cases hnews : m.news? with
  | none =>
    refine Adds.mono (fun x hx hpublishes => absurd hpublishes hx) ?_
    exact Steps.keep (P := Adds (fun e => ¬ e.Publishes) (run moves (Relay.new setup)))
      (fun _ _ hstep h => h.trans (unpublished_step hstep))
      (steps_perform hnews (fun _ => id) fun uri s hs => (hsound.filed uri s hs).1) (.refl _ _)
  | some note =>
    refine (ofParts_heard (heard_hear note _) hsound (booked_run setup moves)).trans
      ((perform_of_news hnews _).1.adds.mono fun x hx hpublishes => absurd ?_ hx)
    cases x with
    | published => trivial
    | _ => exact hpublishes.elim

/-! ## Counts -/

/-- The diagnostics of a category that a check has reported by the end of
moves: those of its entries that convert. -/
def convertedOf (setup : Setup) (moves : List Move) (seq : Nat) (category : String) :
    List Diagnostic :=
  Diagnostic.convertible ((Table.get? category (partsOf seq moves (Relay.new setup))).getD [])

/-- What converts, converts category by category. -/
theorem convertible_mergedEntries (categories : List String) (merged : List (String × List Json)) :
    Diagnostic.convertible (mergedEntries categories merged) =
      categories.flatMap fun k => Diagnostic.convertible ((Table.get? k merged).getD []) := by
  simp [Diagnostic.convertible, mergedEntries, List.filterMap_flatMap]

/-- The setting that lists the categories of a file. -/
def categoriesSetting (file : Settings) : Setting :=
  Settings.getD "categories" .null (Settings.sectionOf "diagnostics" file)

/-- The categories of a configuration are those listed; where none is, each
there is stands once. -/
theorem count_categories_of_build {file overrides : Settings} {env : List (String × String)}
    {config : Config} (hbuild : Config.build file env overrides = .ok config) (k : String) :
    1 < config.categories.count k ↔ 1 < (Config.nameList (categoriesSetting file)).count k := by
  rw [Config.build] at hbuild
  obtain ⟨fromEnv, -, h⟩ := bind_eq_ok.mp hbuild
  obtain ⟨hcategories, -⟩ := Config.ofSections_eq_ok.mp h
  rw [(Config.categoriesOf_eq_ok.mp hcategories).1]
  split
  · rename_i hnone
    have hnodup : Config.knownCategories.Nodup := by decide
    have hle := List.nodup_iff_count_le_one.mp hnodup k
    rw [categoriesSetting, hnone, List.count_nil]
    omega
  · rfl

/-- **A diagnostic is published as often as its category is listed.**

Whenever a relay publishes, under any configuration that is accepted and after
any run, it publishes what the newest check of the document has reported, which
is no category twice. Each diagnostic is there as often as the analysis server
reported it for its category, times the number of times the category is
listed. So the notification is what was reported exactly if no category that is
listed repeatedly has a diagnostic. -/
theorem published_as_listed (file : Settings) (env : List (String × String)) (overrides : Settings)
    (config : Config) (root : Option String) (autoCheck : Bool) (moves : List Move) (m : Move)
    (uri : String) (diagnostics : List Diagnostic) (version : Option Int)
    (hbuild : Config.build file env overrides = .ok config)
    (hpublished : .published uri diagnostics version ∈
      since (run moves (Relay.new (Setup.ofConfig config root autoCheck)))
        (run (moves ++ [m]) (Relay.new (Setup.ofConfig config root autoCheck)))) :
    ∃ c e, (run moves (Relay.new (Setup.ofConfig config root autoCheck))).check? uri = some c ∧
      c.inFlight.getLast? = some e ∧ e.generation = c.generation ∧
      (Table.keys (partsOf e.seq (moves ++ [m])
        (Relay.new (Setup.ofConfig config root autoCheck)))).Nodup ∧
      diagnostics.Perm (config.categories.eraseDups.flatMap fun k =>
        (List.replicate (config.categories.count k)
          (convertedOf (Setup.ofConfig config root autoCheck) (moves ++ [m]) e.seq k)).flatten) ∧
      (diagnostics.Perm (config.categories.eraseDups.flatMap
          (convertedOf (Setup.ofConfig config root autoCheck) (moves ++ [m]) e.seq)) ↔
        ∀ k, 1 < (Config.nameList (categoriesSetting file)).count k →
          convertedOf (Setup.ofConfig config root autoCheck) (moves ++ [m]) e.seq k = []) ∧
      (diagnostics.length = (config.categories.eraseDups.flatMap
          (convertedOf (Setup.ofConfig config root autoCheck) (moves ++ [m]) e.seq)).length ↔
        ∀ k, 1 < (Config.nameList (categoriesSetting file)).count k →
          convertedOf (Setup.ofConfig config root autoCheck) (moves ++ [m]) e.seq k = []) := by
  simp only [← count_categories_of_build hbuild]
  obtain ⟨setup, hsetup⟩ : ∃ setup, setup = Setup.ofConfig config root autoCheck := ⟨_, rfl⟩
  have hlisted : setup.categories = config.categories := by rw [hsetup]; rfl
  rw [← hsetup] at hpublished ⊢
  obtain ⟨fx, hfx, hparts⟩ := ofParts_perform setup moves m
  rw [since_eq hfx] at hpublished
  obtain ⟨seq, htold, honce⟩ := hparts _ hpublished trivial
  obtain ⟨s, c, e, -, -, hcheck, hawaited, hnewest, hseq, -, hdiagnostics⟩ := htold
  obtain rfl : e.seq = seq := Int.ofNat_inj.mp hseq
  obtain ⟨newest, hnewest', hgeneration, -⟩ :=
    ((sound_run setup moves).states uri c hcheck).current hawaited
  obtain rfl : newest = e := Option.some.inj (hnewest'.symm.trans hnewest)
  rw [convertible_mergedEntries, setup_run, hlisted] at hdiagnostics
  rw [hdiagnostics]
  exact ⟨c, newest, hcheck, hnewest, hgeneration, honce, flatMap_perm_eraseDups _ _,
    flatMap_perm_iff, length_flatMap_eq_iff⟩

/-- A file that lists categories. -/
def listing (categories : Setting) : Settings :=
  [("diagnostics", .table [("categories", categories)])]

/-- The setup of the configuration that lists these names. -/
def listed (names : List String) : Setup :=
  .ofConfig { Config.default with categories := names } none false

/-- The history of a document that is opened and checked, and whose check
reports one entry. -/
theorem published_listed (names : List String)
    (h : names = ["syntax"] ∨ names = ["syntax", "syntax"]) :
    since (run oneWaiting (Relay.new (listed names)))
        (run (oneWaiting ++ [lastPart]) (Relay.new (listed names))) =
      [.published "file:///a.ts" (names.map fun _ => diagnosticAtStart) (some 1),
        .released 7 (.ok ()), .noticed (syntaxPart [entryAtStart])] := by
  rcases h with rfl | rfl
  · rfl
  · rfl

/-- With one category listed in a list, the notification is what was
reported. -/
theorem published_as_listed_once :
    Config.build (listing (.list [.str " syntax "])) [] [] =
      .ok { Config.default with categories := ["syntax"] } ∧
    ∃ c e, (run oneWaiting (Relay.new (listed ["syntax"]))).check? "file:///a.ts" = some c ∧
      c.inFlight.getLast? = some e ∧
      [diagnosticAtStart].Perm (["syntax"].eraseDups.flatMap
        (convertedOf (listed ["syntax"]) (oneWaiting ++ [lastPart]) e.seq)) := by
  have hbuild : Config.build (listing (.list [.str " syntax "])) [] [] =
      .ok { Config.default with categories := ["syntax"] } := rfl
  obtain ⟨c, e, hcheck, hnewest, -, -, -, hperm, -⟩ := published_as_listed _ _ _ _ none false
    oneWaiting lastPart "file:///a.ts" [diagnosticAtStart] (some 1) hbuild
    (by
      change _ ∈ since (run oneWaiting (Relay.new (listed ["syntax"])))
        (run (oneWaiting ++ [lastPart]) (Relay.new (listed ["syntax"])))
      rw [published_listed _ (.inl rfl)]
      exact List.mem_cons_self)
  refine ⟨hbuild, c, e, hcheck, hnewest, hperm.mpr fun k hk => ?_⟩
  have hnames : Config.nameList (categoriesSetting (listing (.list [.str " syntax "]))) =
      ["syntax"] := rfl
  have hle := List.nodup_iff_count_le_one.mp (List.nodup_singleton "syntax") k
  rw [hnames] at hk
  omega

/-- **A category that is listed twice has its diagnostics published twice**,
although the analysis server reported them once. -/
theorem published_twice :
    Config.build (listing (.str "syntax, syntax")) [] [] =
      .ok { Config.default with categories := ["syntax", "syntax"] } ∧
    .published "file:///a.ts" [diagnosticAtStart, diagnosticAtStart] (some 1) ∈
      since (run oneWaiting (Relay.new (listed ["syntax", "syntax"])))
        (run (oneWaiting ++ [lastPart]) (Relay.new (listed ["syntax", "syntax"]))) ∧
    partsOf 2 (oneWaiting ++ [lastPart]) (Relay.new (listed ["syntax", "syntax"])) =
      [("syntax", [entryAtStart])] ∧
    Diagnostic.convertible [entryAtStart] = [diagnosticAtStart] := by
  refine ⟨rfl, ?_, rfl, rfl⟩
  rw [published_listed _ (.inr rfl)]
  exact List.mem_cons_self

end Relay

end LanguageRelay
