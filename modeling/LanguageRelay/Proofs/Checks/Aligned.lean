import LanguageRelay.Proofs.Checks.Linked
import LanguageRelay.Proofs.Checks.Order
/-!
# A relay and the queue of the analysis server

A relay sees events that name files, never the queue itself. **What runs for
each file is the file's part of the queue** (`Aligned`): the same checks in
the same order, with the same categories reported. So the check that a part
is marked on is the oldest of the queue, and a completion retires that one.

Over a closed connection the relay keeps no record of the queue, and needs
none: nothing is awaited any more.
-/

namespace LanguageRelay

namespace Relay

/-- A check running for a file, as the queue has it. -/
def InFlight.due (file : String) (e : InFlight) : Due := ⟨e.seq, file, e.reported⟩

/-- **The relay is aligned with the queue** of the checks `due`, the oldest of
which has reported `parts`. -/
structure Aligned (due : List (Int × String)) (parts : List (String × List Json)) (r : Relay) :
    Prop where
  ascending : due.Pairwise fun d d' => d.1 < d'.1
  bounded : ∀ d ∈ due, d.1 ≤ r.link.last
  idle : due = [] → parts = []
  running : r.link.closed = none → ∀ file,
    (r.running file).map (InFlight.due file) = (queueOf due parts).filter fun d => d.file = file

variable {uris : List String} {r r' : Relay} {uri : String} {c c' : CheckState}
variable {due rest : List (Int × String)} {parts : List (String × List Json)}

theorem aligned_new (setup : Setup) : Aligned [] [] (Relay.new setup) where
  ascending := .nil
  bounded := by simp
  idle := fun _ => rfl
  running _ file := by simp [Relay.new, Relay.running, queueOf]

/-- Where what runs stays the same, so does the alignment. -/
theorem Aligned.keep (h : Aligned due parts r) (hlast : r.link.last ≤ r'.link.last)
    (hclosed : r'.link.closed = r.link.closed)
    (hrunning : ∀ file, r'.running file = r.running file) : Aligned due parts r' where
  ascending := h.ascending
  bounded d hd := Int.le_trans (h.bounded d hd) (Int.ofNat_le.mpr hlast)
  idle := h.idle
  running hup file := by rw [hrunning, h.running (by rwa [← hclosed])]

/-! ## What alignment says of running checks -/

/-- A check that runs for a file is in the queue. -/
theorem Aligned.mem (h : Aligned due parts r) (hup : r.link.closed = none) {file : String}
    {e : InFlight} (he : e ∈ r.running file) : ((e.seq : Int), file) ∈ due := by
  have hmem : InFlight.due file e ∈ (queueOf due parts).filter fun d => d.file = file := by
    rw [← h.running hup]
    exact List.mem_map_of_mem he
  exact mem_queueOf (List.mem_of_mem_filter hmem)

/-- One number is that of one check. -/
theorem Aligned.file_eq (h : Aligned due parts r) {seq : Int} {file file' : String}
    (hmem : (seq, file) ∈ due) (hmem' : (seq, file') ∈ due) : file = file' := by
  by_contra hne
  -- numbers ascend strictly, so equal ones stand at one place
  have hpair := List.Pairwise.forall_of_forall_of_flip (R := fun d d' : Int × String =>
    d.1 = d'.1 → d = d') (fun _ _ _ => rfl)
    (h.ascending.imp fun hlt heq => absurd heq (Int.ne_of_lt hlt))
    (h.ascending.imp fun hlt heq => absurd heq.symm (Int.ne_of_lt hlt))
  exact hne (congrArg Prod.snd (hpair hmem hmem' rfl))

/-- The oldest check runs for its file, before all others. -/
theorem Aligned.oldest (h : Aligned due parts r) (hup : r.link.closed = none) {seq : Int}
    {file : String} (hdue : due = (seq, file) :: rest) :
    ∃ e later, r.running file = e :: later ∧ (e.seq : Int) = seq ∧
      e.reported = Table.keys parts := by
  have hrunning := h.running hup file
  rw [hdue, queueOf_over, List.filter_cons_of_pos (by simp)] at hrunning
  obtain ⟨e, later, hlist, hhead, -⟩ := List.map_eq_cons_iff.mp hrunning
  exact ⟨e, later, hlist, congrArg Due.seq hhead, congrArg Due.reported hhead⟩

/-- Checks after the oldest have greater numbers. -/
theorem Aligned.later (h : Aligned due parts r) {seq : Int} {file : String}
    (hdue : due = (seq, file) :: rest) {d : Int × String} (hd : d ∈ rest) : seq < d.1 :=
  (List.pairwise_cons.mp (hdue ▸ h.ascending)).1 d hd

/-- A check that runs for another file is later than the oldest. -/
theorem Aligned.lt_of_file_ne (h : Aligned due parts r) (hup : r.link.closed = none) {seq : Int}
    {file file' : String} (hdue : due = (seq, file) :: rest) (hfile : file' ≠ file) {e : InFlight}
    (he : e ∈ r.running file') : seq < e.seq := by
  rcases List.mem_cons.mp (hdue ▸ h.mem hup he) with heq | hrest
  · exact absurd (congrArg Prod.snd heq) hfile
  · exact h.later hdue hrest

/-- So is one that runs for its file after it. -/
theorem Aligned.lt_of_later (h : Aligned due parts r) (hup : r.link.closed = none) {seq : Int}
    {file : String} (hdue : due = (seq, file) :: rest) {e : InFlight} {later : List InFlight}
    (hlist : r.running file = e :: later) {d : InFlight} (hd : d ∈ later) : seq < d.seq := by
  have hrunning := h.running hup file
  rw [hdue, queueOf_over, List.filter_cons_of_pos (by simp), hlist, List.map_cons] at hrunning
  have hmem : InFlight.due file d ∈ (queueOf rest []).filter fun d => d.file = file := by
    rw [← (List.cons.inj hrunning).2]
    exact List.mem_map_of_mem hd
  exact h.later hdue (mem_queueOf (List.mem_of_mem_filter hmem))

/-- If the oldest check is the newest of its file too, no other runs for it. -/
theorem Aligned.alone (h : Aligned due parts r) (hup : r.link.closed = none) {seq : Int}
    {file : String} (hdue : due = (seq, file) :: rest) {e : InFlight} {later : List InFlight}
    (hlist : r.running file = e :: later) (hnewest : (e :: later).getLast? = some e) :
    later = [] := by
  obtain ⟨e₀, later₀, hlist₀, hseq, -⟩ := h.oldest hup hdue
  cases hlist₀.symm.trans hlist
  by_contra hne
  obtain ⟨d, ds, rfl⟩ := List.exists_cons_of_ne_nil hne
  rw [List.getLast?_cons_cons] at hnewest
  have hlt := h.lt_of_later hup hdue hlist (List.mem_of_getLast? hnewest)
  omega

/-! ## What moves the queue -/

/-- **A part is marked on the oldest check.** -/
theorem Aligned.part (h : Aligned due parts r) {seq : Int} {file : String} (category : String)
    (items : List Json) (hdue : due = (seq, file) :: rest) (hlast : r.link.last ≤ r'.link.last)
    (hclosed : r'.link.closed = r.link.closed)
    (hself : r.link.closed = none → ∀ e later, r.running file = e :: later →
      r'.running file = { e with reported := e.reported ++ [category] } :: later)
    (hother : r.link.closed = none → ∀ f, f ≠ file → r'.running f = r.running f) :
    Aligned due (parts ++ [(category, items)]) r' where
  ascending := h.ascending
  bounded d hd := Int.le_trans (h.bounded d hd) (Int.ofNat_le.mpr hlast)
  idle hnil := by simp [hnil] at hdue
  running hup f := by
    rw [hclosed] at hup
    have hrunning := h.running hup f
    rw [hdue, queueOf_over] at hrunning ⊢
    by_cases hf : f = file
    · subst hf
      rw [List.filter_cons_of_pos (by simp)] at hrunning ⊢
      obtain ⟨e, later, hlist, hhead, htail⟩ := List.map_eq_cons_iff.mp hrunning
      have hseq : (e.seq : Int) = seq := congrArg Due.seq hhead
      have hreported : e.reported = Table.keys parts := congrArg Due.reported hhead
      rw [hself hup e later hlist, List.map_cons, htail]
      simp [InFlight.due, hseq, hreported, Table.keys]
    · rw [List.filter_cons_of_neg (by simpa using Ne.symm hf)] at hrunning ⊢
      rw [hother hup f hf, hrunning]

/-- **A completion takes the oldest check off.** -/
theorem Aligned.completed (h : Aligned due parts r) {seq : Int} {file : String}
    (hdue : due = (seq, file) :: rest) (hlast : r.link.last ≤ r'.link.last)
    (hclosed : r'.link.closed = r.link.closed)
    (hrunning : r.link.closed = none → ∀ f,
      r'.running f = (r.running f).filter fun e => seq < e.seq) :
    Aligned rest [] r' where
  ascending := (List.pairwise_cons.mp (hdue ▸ h.ascending)).2
  bounded d hd := Int.le_trans (h.bounded d (hdue ▸ List.mem_cons_of_mem _ hd))
    (Int.ofNat_le.mpr hlast)
  idle _ := rfl
  running hup f := by
    rw [hclosed] at hup
    -- the oldest has the completed number, and all later ones greater numbers
    have hqueue : (queueOf due parts).filter (fun d => decide (seq < d.seq)) = queueOf rest [] := by
      rw [hdue, queueOf_over, List.filter_cons_of_neg (by simp)]
      exact List.filter_eq_self.mpr fun d hd => by simpa using h.later hdue (mem_queueOf hd)
    calc (r'.running f).map (InFlight.due f)
        = ((r.running f).filter fun e => seq < e.seq).map (InFlight.due f) := by rw [hrunning hup]
      _ = ((r.running f).map (InFlight.due f)).filter fun d => seq < d.seq := by
          rw [List.filter_map]
          rfl
      _ = ((queueOf due parts).filter fun d => d.file = f).filter fun d => seq < d.seq := by
          rw [h.running hup]
      _ = ((queueOf due parts).filter fun d => seq < d.seq).filter fun d => d.file = f :=
          List.filter_comm ..
      _ = (queueOf rest []).filter fun d => d.file = f := by rw [hqueue]

/-- **A check that is written joins the queue.** -/
theorem Aligned.ask (h : Aligned due parts r) {seq : Nat} {file : String} (entry : InFlight)
    (hentry : entry.seq = seq ∧ entry.reported = []) (hnew : r.link.last < seq)
    (hlast : seq ≤ r'.link.last) (hclosed : r'.link.closed = r.link.closed)
    (hself : r'.running file = r.running file ++ [entry])
    (hother : ∀ f, f ≠ file → r'.running f = r.running f) :
    Aligned (due ++ [((seq : Int), file)]) parts r' where
  ascending := by
    refine List.pairwise_append.mpr
      ⟨h.ascending, List.pairwise_singleton _ _, fun d hd d' hd' => ?_⟩
    have hle := h.bounded d hd
    cases List.mem_singleton.mp hd'
    simp only
    omega
  bounded d hd := by
    rcases List.mem_append.mp hd with hd | hd
    · have hle := h.bounded d hd
      omega
    · cases List.mem_singleton.mp hd
      exact Int.ofNat_le.mpr hlast
  idle hnil := by simp at hnil
  running hup f := by
    rw [hclosed] at hup
    rw [queueOf_write h.idle, List.filter_append]
    by_cases hf : f = file
    · subst hf
      rw [hself, List.map_append, h.running hup]
      simp [InFlight.due, hentry]
    · rw [hother f hf, h.running hup]
      simp [Ne.symm hf]

/-! ## What was gathered -/

/-- What the queue knows of the parts of a check: all of the oldest one's. -/
def toldOf (due : List (Int × String)) (parts : List (String × List Json)) (seq : Int) :
    List (String × List Json) :=
  match due with
  | [] => []
  | d :: _ => if d.1 = seq then parts else []

/-- **What was gathered for a document is what its newest check told**, for
every category that is set up. -/
def Gathered (due : List (Int × String)) (parts : List (String × List Json)) (r : Relay) : Prop :=
  ∀ uri c, r.check? uri = some c → c.outstanding ≠ [] → ∀ e, c.inFlight.getLast? = some e →
    ∀ k ∈ r.setup.categories, Table.get? k c.merged = Table.get? k (toldOf due parts e.seq)

/-- Over a closed connection nothing is awaited, and nothing gathered. -/
theorem Sound.gathered (h : r.Sound) (hclosed : r.link.closed ≠ none) (due : List (Int × String))
    (parts : List (String × List Json)) : Gathered due parts r :=
  fun uri c hcheck hout => absurd (h.silent hclosed uri c hcheck) hout

theorem toldOf_of_lt {seq seq' : Int} {file : String} (hdue : due = (seq, file) :: rest)
    (h : seq < seq') : toldOf due parts seq' = [] := by
  rw [hdue, toldOf, if_neg (Int.ne_of_lt h)]

@[simp] theorem toldOf_nil (due : List (Int × String)) (seq : Int) : toldOf due [] seq = [] := by
  unfold toldOf
  split
  · rfl
  · split <;> rfl

/-- A check that joins the queue does not change what others told. -/
theorem Aligned.toldOf_ask (h : Aligned due parts r) (d : Int × String) (seq : Int) :
    toldOf (due ++ [d]) parts seq = toldOf due parts seq := by
  cases due with
  | nil => simp [toldOf, h.idle rfl]
  | cons d rest => rfl

/-- And it has told nothing itself. -/
theorem Aligned.toldOf_asked (h : Aligned due parts r) {seq : Int} {file : String}
    (hnew : r.link.last < seq) : toldOf (due ++ [(seq, file)]) parts seq = [] := by
  cases due with
  | nil => simp [toldOf, h.idle rfl]
  | cons d rest =>
    have hle := h.bounded d List.mem_cons_self
    exact if_neg (by omega)

/-- As long as records that await parts stay the same, so does what was
gathered. -/
theorem Gathered.keep (h : Gathered due parts r) (hsetup : r'.setup = r.setup)
    (hrecords : ∀ uri c', r'.check? uri = some c' → c'.outstanding ≠ [] →
      ∃ c, r.check? uri = some c ∧ c.outstanding ≠ [] ∧ c.inFlight = c'.inFlight ∧
        c.merged = c'.merged) : Gathered due parts r' := by
  intro uri c' hc' hout e he k hk
  obtain ⟨c, hc, hawaited, hinFlight, hmerged⟩ := hrecords uri c' hc' hout
  rw [← hmerged]
  exact h uri c hc hawaited e (by rwa [hinFlight]) k (by rwa [← hsetup])

/-- A record may be set if it awaits no more than before. -/
theorem Gathered.put (h : Gathered due parts r) (c' : CheckState) (hcheck : r.check? uri = some c)
    (hchecks : r'.checks = Table.put uri c' r.checks) (hsetup : r'.setup = r.setup)
    (hinFlight : c'.outstanding ≠ [] → c.outstanding ≠ [] ∧ c.inFlight = c'.inFlight ∧
      c.merged = c'.merged) : Gathered due parts r' := by
  refine h.keep hsetup fun u d hd hout => ?_
  rcases check?_put_cases hchecks hd with ⟨rfl, rfl⟩ | ⟨-, hd⟩
  · exact ⟨c, hcheck, hinFlight hout⟩
  · exact ⟨d, hd, hout, rfl, rfl⟩

end Relay

end LanguageRelay
