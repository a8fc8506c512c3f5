import LanguageRelay.Uri.Path
/-!
# Normal forms of paths

`Path.normalize` cuts a path at its slashes, drops the parts that name
nothing, and joins the rest. Joining the parts and cutting again gives them
back, since none of them holds a slash (`parts_normalize`); so the normal form
of a normal form is itself, and it begins at the root if the path does.
-/

namespace LanguageRelay

/-- Cutting is the library's. -/
theorem splitAll_eq_splitOnP (p : Char → Bool) (text : List Char) :
    splitAll p text = text.splitOnP p := by
  induction text with
  | nil => rfl
  | cons c rest ih =>
    obtain ⟨piece, pieces, hpieces⟩ :=
      List.exists_cons_of_ne_nil (List.splitOnP_ne_nil p rest)
    rw [splitAll, List.splitOnP_cons_eq_if_modifyHead, ih, hpieces, List.modifyHead_cons]

namespace Path

/-- The part names something. -/
def isNamed (part : List Char) : Bool := !part.isEmpty && part != ['.']

theorem parts_eq (path : List Char) : parts path = (List.splitOn '/' path).filter isNamed := by
  rw [parts, splitAll_eq_splitOnP, List.splitOn_eq_splitOnP]
  rfl

/-! ## Parts -/

/-- A slash in front makes no part. -/
theorem parts_slash (path : List Char) : parts ('/' :: path) = parts path := by
  rw [parts_eq, parts_eq, List.splitOn_cons_eq_if_modifyHead, if_pos (beq_self_eq_true _)]
  rfl

/-- Nor do several. -/
theorem parts_slashes {slashes : List Char} (h : ∀ c ∈ slashes, c = '/') (path : List Char) :
    parts (slashes ++ path) = parts path := by
  induction slashes with
  | nil => rfl
  | cons c rest ih =>
    rw [h c List.mem_cons_self, List.cons_append, parts_slash,
      ih fun d hd => h d (List.mem_cons_of_mem _ hd)]

/-- What is cut at the slashes holds none. -/
theorem slash_not_mem_splitOn {path part : List Char} (h : part ∈ List.splitOn '/' path) :
    '/' ∉ part := by
  induction path generalizing part with
  | nil => simp_all
  | cons c rest ih =>
    obtain ⟨piece, pieces, hpieces⟩ :=
      List.exists_cons_of_ne_nil (List.splitOn_ne_nil '/' rest)
    rw [hpieces] at ih
    rw [List.splitOn_cons_eq_if_modifyHead, hpieces] at h
    by_cases hc : c = '/'
    · rw [if_pos (by simp [hc]), List.mem_cons] at h
      rcases h with rfl | h
      · exact List.not_mem_nil
      · exact ih h
    · rw [if_neg (by simp [hc]), List.modifyHead_cons, List.mem_cons] at h
      rcases h with rfl | h
      · exact mt List.mem_cons.1 (not_or.2 ⟨Ne.symm hc, ih List.mem_cons_self⟩)
      · exact ih (List.mem_cons_of_mem _ h)

/-- A part names something, and holds no slash. -/
theorem of_mem_parts {path part : List Char} (h : part ∈ parts path) :
    isNamed part ∧ '/' ∉ part := by
  rw [parts_eq, List.mem_filter] at h
  exact ⟨h.2, slash_not_mem_splitOn h.1⟩

/-- Parts that are joined come apart again. -/
theorem parts_joined {named : List (List Char)} (hnamed : ∀ part ∈ named, isNamed part)
    (hplain : ∀ part ∈ named, '/' ∉ part) : parts (['/'].intercalate named) = named := by
  by_cases hne : named = []
  · subst hne
    rfl
  · rw [parts_eq, List.splitOn_intercalate '/' hplain hne, List.filter_eq_self.2 hnamed]

/-! ## The root -/

theorem root_cases (path : List Char) :
    root path = [] ∨ root path = ['/'] ∨ root path = ['/', '/'] := by
  unfold root
  split
  · exact .inl rfl
  · exact .inr (.inr rfl)
  · exact .inr (.inl rfl)

theorem eq_of_mem_root {path : List Char} {c : Char} (h : c ∈ root path) : c = '/' := by
  rcases root_cases path with hroot | hroot | hroot <;> simp_all

/-- The slashes of a root are its own root, whatever other than a slash
follows. -/
theorem root_append {path text : List Char} (htext : text.head? ≠ some '/') :
    root (root path ++ text) = root path := by
  have hstop : text.takeWhile (· == '/') = [] := by
    cases text with
    | nil => rfl
    | cons c rest => exact List.takeWhile_cons_of_neg (by simpa using htext)
  have hrun : (root path ++ text).takeWhile (· == '/') = root path := by
    rw [List.takeWhile_append_of_pos fun c hc => by simp [eq_of_mem_root hc], hstop,
      List.append_nil]
  rw [root, hrun]
  rcases root_cases path with hroot | hroot | hroot <;> rw [hroot] <;> rfl

/-- Joined parts do not begin with a slash. -/
theorem head?_joined {named : List (List Char)} (hnamed : ∀ part ∈ named, isNamed part)
    (hplain : ∀ part ∈ named, '/' ∉ part) : (['/'].intercalate named).head? ≠ some '/' := by
  cases named with
  | nil => simp
  | cons part rest =>
    have hpart := hnamed part List.mem_cons_self
    cases part with
    | nil => simp [isNamed] at hpart
    | cons c part =>
      have hc : '/' ≠ c := fun h => hplain _ List.mem_cons_self (h ▸ List.mem_cons_self)
      cases rest <;> simpa [List.intercalate] using hc.symm

/-! ## Normal forms -/

theorem root_normalize (path : List Char) : root (normalize path) = root path := by
  have hparts : ∀ part ∈ parts path, isNamed part ∧ '/' ∉ part := fun _ h => of_mem_parts h
  rw [normalize, root_append (head?_joined (fun p h => (hparts p h).1) fun p h => (hparts p h).2)]

/-- A normal form has the parts of the path. -/
theorem parts_normalize (path : List Char) : parts (normalize path) = parts path := by
  have hparts : ∀ part ∈ parts path, isNamed part ∧ '/' ∉ part := fun _ h => of_mem_parts h
  rw [normalize, parts_slashes fun _ => eq_of_mem_root,
    parts_joined (fun p h => (hparts p h).1) fun p h => (hparts p h).2]

/-- **A normal form is its own normal form.** -/
theorem normalize_normalize (path : List Char) : normalize (normalize path) = normalize path := by
  rw [normalize, root_normalize, parts_normalize]
  rfl

theorem exists_cons_of_isAbsolute {path : List Char} (h : isAbsolute path) :
    ∃ rest, path = '/' :: rest := by
  unfold isAbsolute at h
  split at h
  · exact ⟨_, rfl⟩
  · cases h

/-- The normal form of an absolute path begins with a slash. -/
theorem exists_normalize_cons {path : List Char} (h : isAbsolute path) :
    ∃ rest, normalize path = '/' :: rest := by
  obtain ⟨rest, rfl⟩ := exists_cons_of_isAbsolute h
  rcases root_cases ('/' :: rest) with hroot | hroot | hroot
  · rw [root] at hroot
    split at hroot <;> simp_all
  all_goals exact ⟨_, by rw [normalize, hroot]; rfl⟩

theorem isAbsolute_normalize {path : List Char} (h : isAbsolute path) :
    isAbsolute (normalize path) := by
  obtain ⟨rest, hrest⟩ := exists_normalize_cons h
  rw [hrest]
  rfl

end Path

end LanguageRelay
