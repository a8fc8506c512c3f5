import LanguageRelay.Proofs.Relay.Naming
/-!
# Files on the wire

The analysis server knows of a file what the commands say: it is open from the
command that opens it to the one that closes it (`openAfter`). **Commands are
disciplined** if each but the first kind names files that are open when it is
written (`Disciplined`). One kind of command may come late: the one that formats
a file follows the one that sets the options for it, which was written while the
file was open.

What one operation of a relay writes is one of three (`FileStep`): it is about open
files, or opens a file first, or closes one. Each keeps the commands disciplined,
and the wire in step with the relay (`FileStep.keeps`).
-/

namespace LanguageRelay

/-- What a command says of a file: that it is open from now on, or closed, if
anything. -/
def Service.Command.says? (file : String) (c : Service.Command) : Option Bool :=
  if file ∈ c.files then
    if c.name = openName then some true
    else if c.name = closeName then some false
    else none
  else none

/-- A file is open at the analysis server after commands. -/
def openAfter (file : String) (cs : List Service.Command) : Bool :=
  cs.foldl (fun now c => (c.says? file).getD now) false

/-- The options for formatting a file were set while it was open. -/
def Prepared (file : String) (cs : List Service.Command) : Prop :=
  ∃ before c after, cs = before ++ c :: after ∧ c.name = Service.configureName ∧ file ∈ c.files ∧
    openAfter file before = true

/-- A command that comes after others is about files that are open then, unless
it opens them. The one that formats a file may be late. -/
def Conforms (before : List Service.Command) (c : Service.Command) : Prop :=
  c.name ≠ Service.openName → ∀ file ∈ c.files,
    openAfter file before = true ∨ c.name = Service.formatName ∧ Prepared file before

/-- **Every command is about open files**, when it is written. -/
def Disciplined (cs : List Service.Command) : Prop :=
  ∀ before c after, cs = before ++ c :: after → Conforms before c

variable {cs more : List Service.Command} {c : Service.Command} {file : String}

/-! ## One command more -/

theorem openAfter_snoc (file : String) (cs : List Service.Command) (c : Service.Command) :
    openAfter file (cs ++ [c]) = (c.says? file).getD (openAfter file cs) := by
  simp [openAfter]

/-- A command that neither opens nor closes a file says nothing of it. -/
theorem says?_of_plain (h : file ∈ c.files → c.name ∉ [Service.openName, Service.closeName]) :
    c.says? file = none := by
  unfold Service.Command.says?
  split
  · rename_i hfile
    have hname := h hfile
    simp only [List.mem_cons, List.not_mem_nil, or_false, not_or] at hname
    rw [if_neg hname.1, if_neg hname.2]
  · rfl

/-- A command that opens a file opens that file alone. -/
theorem says?_of_open {seq : Int} {arguments : Json} (h : arguments.namedFiles = [file])
    (f : String) : Service.Command.says? f ⟨seq, Service.openName, arguments⟩ =
      if f = file then some true else none := by
  simp [Service.Command.says?, Service.Command.files, h]

/-- And one that closes a file closes that. -/
theorem says?_of_close {seq : Int} {arguments : Json} (h : arguments.namedFiles = [file])
    (f : String) : Service.Command.says? f ⟨seq, Service.closeName, arguments⟩ =
      if f = file then some false else none := by
  have hname : Service.closeName ≠ Service.openName := by decide
  simp [Service.Command.says?, Service.Command.files, h, hname]

theorem Prepared.append (h : Prepared file cs) (more : List Service.Command) :
    Prepared file (cs ++ more) := by
  obtain ⟨before, c, after, rfl, hc⟩ := h
  exact ⟨before, c, after ++ more, by simp, hc⟩

theorem disciplined_nil : Disciplined [] := by
  intro before c after h
  simp at h

/-- Commands stay disciplined by one that conforms. -/
theorem Disciplined.snoc (h : Disciplined cs) (hc : Conforms cs c) : Disciplined (cs ++ [c]) := by
  intro before d after heq
  -- the command in question is the last one, or one of those before
  rcases List.eq_nil_or_concat after with rfl | ⟨rest, last, rfl⟩
  · obtain ⟨rfl, hsame⟩ := List.append_inj' heq rfl
    cases hsame
    exact hc
  · have heq' : cs ++ [c] = (before ++ d :: rest) ++ [last] := by simpa using heq
    exact h before d rest (List.append_inj' heq' rfl).1

/-- **Commands about open files keep the commands disciplined**, and the same
files open. -/
theorem Disciplined.still (more : List Service.Command) (h : Disciplined cs)
    (hmore : ∀ c ∈ more, ∀ file ∈ c.files, c.name ∉ [Service.openName, Service.closeName] ∧
      (openAfter file cs = true ∨ c.name = Service.formatName ∧ Prepared file cs)) :
    Disciplined (cs ++ more) ∧ ∀ file, openAfter file (cs ++ more) = openAfter file cs := by
  induction more generalizing cs with
  | nil => simpa using h
  | cons c rest ih =>
    have hc := hmore c List.mem_cons_self
    have hsame : ∀ file, openAfter file (cs ++ [c]) = openAfter file cs := by
      intro file
      rw [openAfter_snoc, says?_of_plain fun hfile => (hc file hfile).1, Option.getD_none]
    have hone : Disciplined (cs ++ [c]) := h.snoc fun _ file hfile => (hc file hfile).2
    have hrest := ih hone fun d hd file hfile => by
      obtain ⟨hname, hopen⟩ := hmore d (List.mem_cons_of_mem _ hd) file hfile
      rw [hsame]
      exact ⟨hname, hopen.imp_right fun hformat => ⟨hformat.1, hformat.2.append _⟩⟩
    rw [← List.append_cons] at hrest
    exact ⟨hrest.1, fun file => (hrest.2 file).trans (hsame file)⟩

/-! ## What one operation writes -/

/-- **What an operation of a relay does about files**, and the commands it writes
over an open connection. -/
inductive FileStep (r r' : Relay) : List Service.Command → Prop where
  /-- The same files stay open. -/
  | still {cs : List Service.Command} (hfiles : ∀ u, r'.fileAt u = r.fileAt u)
      (habout : ∀ c ∈ cs, AboutOpen r c) : FileStep r r' cs
  /-- A document is opened, maybe again. -/
  | opening {uri file : String} {seq : Int} {arguments : Json} {rest : List Service.Command}
      (hfile : Uri.fileOf? uri = some file)
      (hfiles : ∀ u, r'.fileAt u = if uri = u then some file else r.fileAt u)
      (hnames : arguments.namedFiles = [file]) (habout : ∀ c ∈ rest, AboutOpen r c) :
      FileStep r r' (⟨seq, Service.openName, arguments⟩ :: rest)
  /-- A document is closed. -/
  | closing {uri file : String} {seq : Int} {arguments : Json} (hopen : r.fileAt uri = some file)
      (hfiles : ∀ u, r'.fileAt u = if uri = u then none else r.fileAt u)
      (hnames : arguments.namedFiles = [file]) :
      FileStep r r' [⟨seq, Service.closeName, arguments⟩]

/-- Open documents are those of the given files. -/
def Relay.Filed (r : Relay) : Prop := ∀ uri file, r.fileAt uri = some file → Uri.fileOf? uri = some file

/-- No two open documents are of one file. -/
def Relay.Apart (r : Relay) : Prop :=
  ∀ u v file, r.fileAt u = some file → r.fileAt v = some file → u = v

variable {r r' : Relay}

/-- Opening a document leaves open what is open. -/
theorem opens_of_opening {uri : String} (hfiled : r.Filed) (hfile : Uri.fileOf? uri = some file)
    (hfiles : ∀ u, r'.fileAt u = if uri = u then some file else r.fileAt u) (f : String) :
    r'.Opens f ↔ f = file ∨ r.Opens f := by
  constructor
  · rintro ⟨u, hu⟩
    rw [hfiles] at hu
    split at hu
    · exact .inl (Option.some.inj hu).symm
    · exact .inr ⟨u, hu⟩
  · rintro (rfl | ⟨u, hu⟩)
    · exact ⟨uri, by rw [hfiles, if_pos rfl]⟩
    · by_cases heq : uri = u
      · -- opened again, the document is of the same file
        subst heq
        exact ⟨uri, by rw [hfiles, if_pos rfl, ← hfile, hfiled uri f hu]⟩
      · exact ⟨u, by rw [hfiles, if_neg heq, hu]⟩

/-- Closing a document closes its file alone. -/
theorem opens_of_closing {uri : String} (hapart : r.Apart) (hopen : r.fileAt uri = some file)
    (hfiles : ∀ u, r'.fileAt u = if uri = u then none else r.fileAt u) (f : String) :
    r'.Opens f ↔ f ≠ file ∧ r.Opens f := by
  constructor
  · rintro ⟨u, hu⟩
    rw [hfiles] at hu
    split at hu
    · cases hu
    · rename_i hne
      refine ⟨?_, u, hu⟩
      rintro rfl
      exact hne (hapart uri u f hopen hu)
  · rintro ⟨hne, u, hu⟩
    refine ⟨u, ?_⟩
    rw [hfiles, if_neg, hu]
    rintro rfl
    exact hne (Option.some.inj (hu.symm.trans hopen))

/-- **Every operation keeps commands disciplined**, and the wire in step with the
relay. -/
theorem FileStep.keeps (h : FileStep r r' more) (hfiled : r.Filed) (hapart : r.Apart)
    (hcs : Disciplined cs) (hopen : ∀ file, openAfter file cs = true ↔ r.Opens file) :
    Disciplined (cs ++ more) ∧ ∀ file, openAfter file (cs ++ more) = true ↔ r'.Opens file := by
  cases h with
  | still hfiles habout =>
    obtain ⟨hall, hsame⟩ := hcs.still more fun c hc file hfile =>
      ⟨(habout c hc file hfile).1, .inl ((hopen file).mpr (habout c hc file hfile).2)⟩
    exact ⟨hall, fun file => by rw [hsame, hopen, Relay.opens_congr hfiles]⟩
  | @opening uri file seq arguments rest hfile hfiles hnames habout =>
    have hone : Disciplined (cs ++ [⟨seq, Service.openName, arguments⟩]) :=
      hcs.snoc fun hname => absurd rfl hname
    have hopened : ∀ f, openAfter f (cs ++ [⟨seq, Service.openName, arguments⟩]) = true ↔
        r'.Opens f := by
      intro f
      rw [openAfter_snoc, says?_of_open hnames, opens_of_opening hfiled hfile hfiles, ← hopen]
      by_cases hf : f = file <;> simp [hf]
    obtain ⟨hall, hsame⟩ := hone.still rest fun c hc f hf => by
      obtain ⟨hname, hrest⟩ := habout c hc f hf
      exact ⟨hname, .inl ((hopened f).mpr ((opens_of_opening hfiled hfile hfiles f).mpr
        (.inr hrest)))⟩
    rw [← List.append_cons] at hall hsame
    exact ⟨hall, fun f => by rw [hsame, hopened]⟩
  | @closing uri file seq arguments hopened hfiles hnames =>
    refine ⟨hcs.snoc fun _ f hf => .inl ?_, fun f => ?_⟩
    · have hf : f ∈ arguments.namedFiles := hf
      rw [hnames, List.mem_singleton] at hf
      exact (hopen f).mpr (hf ▸ ⟨uri, hopened⟩)
    · rw [openAfter_snoc, says?_of_close hnames, opens_of_closing hapart hopened hfiles, ← hopen]
      by_cases hf : f = file <;> simp [hf]

/-- What an operation writes is about files that are open before and after, but
for the command that opens or closes one. -/
theorem FileStep.about (h : FileStep r r' more) (hfiled : r.Filed) :
    ∀ c ∈ more, ∀ file ∈ c.files, c.name ∈ [Service.openName, Service.closeName] ∨
      r.Opens file ∧ r'.Opens file := by
  intro c hc file hfile
  cases h with
  | still hfiles habout =>
    have hopen := (habout c hc file hfile).2
    exact .inr ⟨hopen, (Relay.opens_congr hfiles file).mpr hopen⟩
  | @opening uri file' seq arguments rest hof hfiles hnames habout =>
    rcases List.mem_cons.mp hc with rfl | hc
    · exact .inl (by simp)
    · have hopen := (habout c hc file hfile).2
      exact .inr ⟨hopen, (opens_of_opening hfiled hof hfiles file).mpr (.inr hopen)⟩
  | closing =>
    rw [List.mem_singleton.mp hc]
    exact .inl (by simp)

end LanguageRelay
