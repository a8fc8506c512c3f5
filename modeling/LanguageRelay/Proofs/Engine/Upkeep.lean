import LanguageRelay.Proofs.Engine.Ledger
/-!
# The ledger stays in order

Every step keeps the ledger in order (`valid_step`). A step of one call leaves
all others alone, since the connection changes for its number only and the
jobs that are done are its own (`Turn.proper`, `Turn.attended`).
-/

namespace LanguageRelay

/-! ## The connection -/

variable {link link' : Link} {tidings : Tidings} {fx : List Effect}

/-- Tidings keep the connection sound. -/
theorem Relay.Brings.sound (h : Brings tidings link link' fx) (hsound : link.Sound) :
    link'.Sound where
  listed := hsound.listed.sublist (h.sub.map _)
  numbered p hp := Nat.le_trans (hsound.numbered p (h.sub.subset hp)) h.last
  shut := h.shut
  unlimited := h.limit.trans hsound.unlimited

/-- A call that waits for an outcome hears the one the tidings have for it, and
stays listed if they have none. -/
theorem Relay.Brings.told_call (h : Brings tidings link link' fx) {c : Call} {q : Written}
    (hproper : c.Proper link) (hof : c.Of q) (hopen : ¬ c.Answered) :
    given? q.seq fx = tidings q.seq q.ask.command ∧
      (tidings q.seq q.ask.command = none → ⟨q.seq, q.ask.command, false⟩ ∈ link'.pending) := by
  cases hproper with
  | fresh => cases hof
  | asking q' hof' hle hlisted =>
    obtain ⟨-, hseq, hask⟩ := hof.unique hof'
    have hmem : ⟨q.seq, q.ask.command, false⟩ ∈ link.pending := by
      rw [← hseq, ← hask]
      exact hlisted hopen
    exact ⟨h.told _ hmem rfl, h.kept _ hmem⟩

/-- Learning keeps calls proper. -/
theorem Call.Proper.learn (hbrings : Relay.Brings tidings link link' fx) {c : Call}
    (h : c.Proper link) : (fx.foldl Call.learn c).Proper link' := by
  cases h with
  | fresh name command arguments window cancelled =>
    rw [Engine.foldl_learn_of_seq?_eq_none rfl]
    exact .fresh ..
  | asking q hof hle hlisted =>
    obtain ⟨hof', -, hlearned⟩ := hof.learn fx
    refine .asking q hof' (Nat.le_trans hle hbrings.last) fun hopen => ?_
    have hwaits : ¬ c.Answered := fun hanswered =>
      hopen (by rwa [Engine.foldl_learn_of_answered hanswered])
    obtain ⟨htold, hkept⟩ := hbrings.told_call (.asking q hof hle hlisted) hof hwaits
    exact hkept (htold ▸ hlearned.resolve_left hopen)

/-- Learning keeps calls attended: those that get an outcome are woken. -/
theorem Call.Attended.learn {id : Nat} {jobs js : List Job} {timers : List (Timer Job)} {c : Call}
    (h : c.Attended id jobs timers)
    (hwoken : ¬ c.Answered → (fx.foldl Call.learn c).Answered →
      ∀ job, (fx.foldl Call.learn c).wakeup? id = some job → job ∈ js) :
    (fx.foldl Call.learn c).Attended id (jobs ++ js) timers := by
  rcases Engine.foldl_learn_cases fx c with hsame | ⟨seq, ask, watch, next, o, hstage, hlearn⟩
  · rw [hsame]
    exact h.mono (fun job hjob _ => List.mem_append_left _ hjob) fun t ht _ => .inl ht
  · have hopen : ¬ c.Answered := by
      rintro ⟨i, seq', ask', watch', o', next', hstage'⟩
      rw [hstage] at hstage'
      cases hstage'
    have hjob := hwoken hopen (hlearn ▸ ⟨0, seq, ask, watch, o, next, rfl⟩)
    rw [hlearn] at hjob ⊢
    obtain ⟨role, stage, cancelled⟩ := c
    cases hstage
    cases watch with
    | unbounded => exact fun _ => List.mem_append_right _ (hjob _ rfl)
    | windowed signal =>
      cases signal with
      | pending => exact ⟨h.1, List.mem_append_right _ (hjob _ rfl)⟩
      | raised => exact List.mem_append_left _ h
      | cancelled => exact List.mem_append_left _ h
    | ending why => exact .inl (List.mem_append_right _ (hjob _ rfl))

/-- A call is woken to run on, or for what is passed on to it. -/
theorem wakeup?_cases {id : Nat} {c : Call} {job : Job} (h : c.wakeup? id = some job) :
    job = .resume id ∨ ∃ seq, c.seq? = some seq ∧ job = .passOn id seq := by
  obtain ⟨role, stage, cancelled⟩ := c
  cases stage with
  | asking i seq ask watch outcome next =>
    cases watch with
    | unbounded => exact .inl (Option.some.inj h).symm
    | windowed signal => exact .inr ⟨seq, rfl, (Option.some.inj h).symm⟩
    | ending why => exact .inr ⟨seq, rfl, (Option.some.inj h).symm⟩
  | _ => cases h

namespace Ledger

variable {l l' : Ledger} {made : Option String} {ev : Written → Option Event} {id : Nat}
variable {c c' : Call} {seq? : Option Nat} {done rest js : List Job}

/-! ## One call's turn -/

/-- The other calls have other numbers than the call whose turn it is. -/
theorem Turn.other (hvalid : l.Valid) (hturn : l.Turn id c seq? done rest link')
    (hseq : seq? = c.seq? ∨ seq? = some (l.link.last + 1)) {x : Nat × Call} (hx : x ∈ l.calls)
    (hid : x.1 ≠ id) {seq : Nat} (hxs : x.2.seq? = some seq) : seq? ≠ some seq := by
  rintro rfl
  rcases hseq with hseq | hseq
  · exact hid (hvalid.apart.distinct x hx (id, c) hturn.call seq hxs hseq.symm)
  · have hle := (hvalid.proper x hx).le hxs
    cases hseq
    omega

/-- The other calls stay proper. -/
theorem Turn.proper (hvalid : l.Valid) (hturn : l.Turn id c seq? done rest link')
    (hseq : seq? = c.seq? ∨ seq? = some (l.link.last + 1)) {x : Nat × Call} (hx : x ∈ l.calls)
    (hid : x.1 ≠ id) : x.2.Proper link' :=
  (hvalid.proper x hx).mono hturn.touched.last fun p hp hxs =>
    hturn.touched.kept p hp (hturn.other hvalid hseq hx hid hxs)

/-- The other calls stay attended. -/
theorem Turn.attended (js : List Job) (hvalid : l.Valid) (hturn : l.Turn id c seq? done rest link')
    {timers : List (Timer Job)} (htimers : ∀ t ∈ l.timers, t.job.call? ≠ some id → t ∈ timers)
    {x : Nat × Call} (hx : x ∈ l.calls) (hid : x.1 ≠ id) :
    x.2.Attended x.1 (rest ++ js) timers := by
  refine (hvalid.attended x hx).mono (fun job hjob hcall => ?_) fun t ht hcall => .inl ?_
  · rw [hturn.jobs] at hjob
    rcases List.mem_append.mp hjob with hdone | hrest
    · rw [hturn.own job hdone] at hcall
      exact absurd (Option.some.inj hcall).symm hid
    · exact List.mem_append_left _ hrest
  · refine htimers t ht fun hown => hid ?_
    rw [hcall] at hown
    exact Option.some.inj hown

/-- Jobs that are left were in line before. -/
theorem Turn.mem_jobs (hturn : l.Turn id c seq? done rest link') {job : Job} (hjob : job ∈ rest) :
    job ∈ l.jobs := by
  rw [hturn.jobs]
  exact List.mem_append_right _ hjob

/-- What was sensible of a job stays so. -/
theorem Sensible.mono {job : Job} (h : l.Sensible job) (hlast : l.link.last ≤ l'.link.last)
    (hanswered : ∀ seq, seq ≤ l.link.last → ∀ x ∈ l'.calls, x.2.seq? = some seq →
      ∃ c, (x.1, c) ∈ l.calls ∧ c.seq? = some seq ∧ (c.Answered → x.2.Answered)) :
    l'.Sensible job := by
  cases job with
  | resume => trivial
  | passOn id seq =>
    refine ⟨Nat.le_trans h.1 hlast, fun d hd hds => ?_⟩
    obtain ⟨c, hc, hcs, hdone⟩ := hanswered seq h.1 (id, d) hd hds
    exact hdone (h.2 c hc hcs)
  | expire => exact Nat.le_trans h hlast
  | fire => exact h
  | partEnded => exact h
  | checkEnded => exact h

theorem Sensible.same {job : Job} (h : l.Sensible job) (hlink : l'.link = l.link)
    (hcalls : l'.calls = l.calls) : l'.Sensible job :=
  h.mono (Nat.le_of_eq (by rw [hlink])) fun _ _ x hx hxs =>
    ⟨x.2, hcalls ▸ hx, hxs, fun hdone => hdone⟩

/-! ## Every step -/

/-- A ledger without entries is in order. -/
theorem valid_empty (setup : Setup) : Valid ⟨setup, ⟨0, [], none, none⟩, [], 0, 0, [], [], []⟩ where
  link := ⟨List.nodup_nil, by simp, fun _ => rfl, rfl⟩
  apart := ⟨List.nodup_nil, by simp⟩
  made := by simp
  proper := by simp
  attended := by simp
  jobs := by simp
  timers := by simp

/-- A request made keeps the ledger in order. -/
theorem valid_made (h : l.Valid) (name command : String) (arguments : Json)
    (window : Option Duration) :
    Valid
      { l with
        calls := l.calls ++ [(l.lastCall + 1, .fresh name command arguments window false)]
        lastCall := l.lastCall + 1
        jobs := l.jobs ++ [.resume (l.lastCall + 1)] } where
  link := h.link
  apart := by
    refine h.apart.append (fun hmem => ?_) rfl
    obtain ⟨x, hx, hid⟩ := List.mem_map.mp hmem
    have hle := h.made x hx
    omega
  made x hx := by
    rcases List.mem_append.mp hx with hx | hx
    · exact Nat.le_succ_of_le (h.made x hx)
    · exact Nat.le_of_eq (by rw [List.mem_singleton.mp hx])
  proper x hx := by
    rcases List.mem_append.mp hx with hx | hx
    · exact h.proper x hx
    · rw [List.mem_singleton.mp hx]
      exact .fresh ..
  attended x hx := by
    rcases List.mem_append.mp hx with hx | hx
    · exact (h.attended x hx).mono (fun job hjob _ => List.mem_append_left _ hjob)
        fun t ht _ => .inl ht
    · rw [List.mem_singleton.mp hx]
      exact List.mem_append_right _ (List.mem_singleton_self _)
  jobs job hjob := by
    rcases List.mem_append.mp hjob with hjob | hjob
    · refine (h.jobs job hjob).mono (Nat.le_refl _) fun seq _ x hx hxs => ?_
      rcases List.mem_append.mp hx with hx | hx
      · exact ⟨x.2, hx, hxs, fun hdone => hdone⟩
      · rw [List.mem_singleton.mp hx] at hxs
        cases hxs
    · rw [List.mem_singleton.mp hjob]
      trivial
  timers := h.timers

/-- Tidings keep the ledger in order. -/
theorem valid_heard (h : l.Valid) (hbrings : Relay.Brings tidings l.link link' fx)
    (hwakes : ∀ job ∈ js, Engine.Wakes (l.calls.map fun x => (x.1, fx.foldl Call.learn x.2)) job)
    (hwoken : ∀ x ∈ l.calls, ¬ x.2.Answered → (fx.foldl Call.learn x.2).Answered →
      ∀ job, (fx.foldl Call.learn x.2).wakeup? x.1 = some job → job ∈ js) :
    Valid
      { l with
        link := link'
        calls := l.calls.map fun x => (x.1, fx.foldl Call.learn x.2)
        jobs := l.jobs ++ js } := by
  have happart : Engine.Apart (l.calls.map fun x => (x.1, fx.foldl Call.learn x.2)) :=
    h.apart.map fun x => by simp
  refine ⟨hbrings.sound h.link, happart, fun x hx => ?_, fun x hx => ?_, fun x hx => ?_,
    fun job hjob => ?_, fun t ht => ?_⟩
  · obtain ⟨y, hy, rfl⟩ := List.mem_map.mp hx
    exact h.made y hy
  · obtain ⟨y, hy, rfl⟩ := List.mem_map.mp hx
    exact (h.proper y hy).learn hbrings
  · obtain ⟨y, hy, rfl⟩ := List.mem_map.mp hx
    exact (h.attended y hy).learn (hwoken y hy)
  · rcases List.mem_append.mp hjob with hjob | hjob
    · refine (h.jobs job hjob).mono hbrings.last fun seq _ x hx hxs => ?_
      obtain ⟨y, hy, rfl⟩ := List.mem_map.mp hx
      refine ⟨y.2, hy, by simpa using hxs, fun hdone => ?_⟩
      rwa [Engine.foldl_learn_of_answered hdone]
    · obtain ⟨x, hx, hdone, hjob⟩ := hwakes job hjob
      rcases wakeup?_cases hjob with rfl | ⟨seq, hxs, rfl⟩
      · trivial
      · obtain ⟨y, hy, rfl⟩ := List.mem_map.mp hx
        refine ⟨((h.proper y hy).learn hbrings).le hxs, fun d hd _ => ?_⟩
        exact happart.eq hx hd ▸ hdone
  · obtain ⟨id, seq, hjob, hle⟩ := h.timers t ht
    exact ⟨id, seq, hjob, Nat.le_trans hle hbrings.last⟩

/-- A call that moves on keeps the ledger in order. -/
theorem valid_moved (h : l.Valid) {set : List (Timer Job)}
    (hturn : l.Turn id c c'.seq? done rest link') (hproper : c'.Proper link')
    (hseq : c'.seq? = c.seq? ∨
      c.seq? = none ∧ c'.seq? = some (l.link.last + 1) ∧ l.link.last < link'.last)
    (hanswered : c.Answered → c'.Answered)
    (hposted : ∀ job ∈ js, job = .resume id ∨
      ∃ seq, job = .passOn id seq ∧ c'.seq? = some seq ∧ c'.Answered)
    (hset : ∀ t ∈ set, c.seq? = none ∧ ∃ seq, t.job = .expire id seq ∧ c'.seq? = some seq)
    (hattended : c'.Attended id (rest ++ js) (l.timers ++ set)) :
    Valid
      { l with
        link := link'
        calls := Table.update id (fun _ => c') l.calls
        jobs := rest ++ js
        timers := l.timers ++ set } := by
  have hnumber : c'.seq? = c.seq? ∨ c'.seq? = some (l.link.last + 1) :=
    hseq.imp_right fun h => h.2.1
  have hmem : ∀ x, x ∈ Table.update id (fun _ => c') l.calls ↔
      (x.1 = id ∧ ∃ v, (id, v) ∈ l.calls ∧ x.2 = c') ∨ (x.1 ≠ id ∧ x ∈ l.calls) :=
    fun x => Table.mem_update_iff h.apart.single
  have hself : ∀ d, (id, d) ∈ Table.update id (fun _ => c') l.calls → d = c' := by
    intro d hd
    rcases (hmem _).mp hd with ⟨-, -, -, hdc⟩ | ⟨hid, -⟩
    · exact hdc
    · exact absurd rfl hid
  refine ⟨hturn.touched.sound, ?_, fun x hx => ?_, fun x hx => ?_, fun x hx => ?_,
    fun job hjob => ?_, fun t ht => ?_⟩
  · exact h.apart.update fun x hx hid seq hcs hxs => hturn.other h hnumber hx hid hxs hcs
  · rcases (hmem x).mp hx with ⟨hid, -⟩ | ⟨-, hx⟩
    · rw [hid]
      exact h.made _ hturn.call
    · exact h.made x hx
  · rcases (hmem x).mp hx with ⟨-, -, -, hxc⟩ | ⟨hid, hx⟩
    · rw [hxc]
      exact hproper
    · exact hturn.proper h hnumber hx hid
  · rcases (hmem x).mp hx with ⟨hid, -, -, hxc⟩ | ⟨hid, hx⟩
    · rw [hid, hxc]
      exact hattended
    · exact hturn.attended _ h (fun t ht _ => List.mem_append_left _ ht) hx hid
  · rcases List.mem_append.mp hjob with hjob | hjob
    · refine (h.jobs job (hturn.mem_jobs hjob)).mono hturn.touched.last fun seq hle x hx hxs => ?_
      rcases (hmem x).mp hx with ⟨hid, -, -, hxc⟩ | ⟨-, hx⟩
      · refine ⟨c, hid ▸ hturn.call, ?_, fun hdone => hxc ▸ hanswered hdone⟩
        rw [hxc] at hxs
        rcases hseq with hseq | ⟨-, hnew, -⟩
        · rw [← hseq, hxs]
        · rw [hnew] at hxs
          cases hxs
          omega
      · exact ⟨x.2, hx, hxs, fun hdone => hdone⟩
    · rcases hposted job hjob with rfl | ⟨seq, rfl, hcs, hdone⟩
      · trivial
      · exact ⟨hproper.le hcs, fun d hd _ => hself d hd ▸ hdone⟩
  · rcases List.mem_append.mp ht with ht | ht
    · obtain ⟨id', seq, hjob, hle⟩ := h.timers t ht
      exact ⟨id', seq, hjob, Nat.le_trans hle hturn.touched.last⟩
    · obtain ⟨-, seq, hjob, hcs⟩ := hset t ht
      exact ⟨id, seq, hjob, hproper.le hcs⟩

/-- A call that ends keeps the ledger in order. -/
theorem valid_ended (h : l.Valid) {timers : List (Timer Job)}
    (entries : List (String × Except Failure Answer))
    (hturn : l.Turn id c c.seq? done rest link') (hsub : timers.Sublist l.timers)
    (hkept : ∀ t ∈ l.timers, t.job.call? ≠ some id → t ∈ timers) :
    Valid
      { l with
        link := link'
        calls := Table.erase id l.calls
        jobs := rest
        timers
        ended := entries } where
  link := hturn.touched.sound
  apart := h.apart.sublist (by rw [Table.erase_eq_filter]; exact List.filter_sublist)
  made x hx := h.made x (Table.mem_erase_iff.mp hx).1
  proper x hx := by
    obtain ⟨hx, hid⟩ := Table.mem_erase_iff.mp hx
    exact hturn.proper h (.inl rfl) hx hid
  attended x hx := by
    obtain ⟨hx, hid⟩ := Table.mem_erase_iff.mp hx
    have hattended := hturn.attended [] h hkept hx hid
    rwa [List.append_nil] at hattended
  jobs job hjob :=
    (h.jobs job (hturn.mem_jobs hjob)).mono hturn.touched.last fun seq _ x hx hxs =>
      ⟨x.2, (Table.mem_erase_iff.mp hx).1, hxs, fun hdone => hdone⟩
  timers t ht := by
    obtain ⟨id', seq, hjob, hle⟩ := h.timers t (hsub.subset ht)
    exact ⟨id', seq, hjob, Nat.le_trans hle hturn.touched.last⟩

/-- What comes for a call that has ended keeps the ledger in order. -/
theorem valid_missed (h : l.Valid) (hnone : ∀ c, (id, c) ∉ l.calls) (hjobs : l.jobs = done ++ rest)
    (hown : ∀ job ∈ done, job.call? = some id) : Valid { l with jobs := rest } := by
  refine { h with attended := fun x hx => ?_, jobs := fun job hjob => ?_ }
  · refine (h.attended x hx).mono (fun job hjob hcall => ?_) fun t ht _ => .inl ht
    rw [hjobs] at hjob
    rcases List.mem_append.mp hjob with hdone | hrest
    · -- The jobs that are done are for no call that is there.
      rw [hown job hdone] at hcall
      cases Option.some.inj hcall
      exact absurd hx (hnone x.2)
    · exact hrest
  · have hold : job ∈ l.jobs := by
      rw [hjobs]
      exact List.mem_append_right _ hjob
    exact (h.jobs job hold).same rfl rfl

/-- Jobs that come due keep the ledger in order. -/
theorem valid_fell (h : l.Valid) {due later : List (Timer Job)} (hdue : ∀ t ∈ due, t ∈ l.timers)
    (hlater : later.Sublist l.timers) (hall : ∀ t ∈ l.timers, t ∈ due ∨ t ∈ later) :
    Valid { l with jobs := l.jobs ++ due.map Timer.job, timers := later } := by
  refine
    { h with
      attended := fun x hx => ?_
      jobs := fun job hjob => ?_
      timers := fun t ht => h.timers t (hlater.subset ht) }
  · refine (h.attended x hx).mono (fun job hjob _ => List.mem_append_left _ hjob) fun t ht _ => ?_
    rcases hall t ht with hfell | hlater
    · exact .inr (List.mem_append_right _ (List.mem_map_of_mem hfell))
    · exact .inl hlater
  · rcases List.mem_append.mp hjob with hjob | hjob
    · exact (h.jobs job hjob).same rfl rfl
    · obtain ⟨t, ht, rfl⟩ := List.mem_map.mp hjob
      obtain ⟨id, seq, hjob, hle⟩ := h.timers t (hdue t ht)
      rw [hjob]
      exact hle

/-- **Every step keeps the ledger in order.** -/
theorem valid_step (hstep : Step l made ev l') (h : l.Valid) : l'.Valid := by
  cases hstep with
  | made name command arguments window => exact valid_made h name command arguments window
  | heard hbrings hwakes hwoken => exact valid_heard h hbrings hwakes hwoken
  | moved hother hturn hproper hname hseq hanswered hposted hset hattended hfate =>
    exact valid_moved h hturn hproper hseq hanswered hposted hset hattended
  | ended hother hturn hsub hkept hfate => exact valid_ended h _ hturn hsub hkept
  | missed done hother hnone hjobs hown => exact valid_missed h hnone hjobs hown
  | passed hnow => exact { h with }
  | fell due later hdue hlater hall => exact valid_fell h (fun t ht => (hdue t ht).1) hlater hall

end Ledger

end LanguageRelay
