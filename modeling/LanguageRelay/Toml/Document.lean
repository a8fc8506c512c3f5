import LanguageRelay.Toml.Scan
/-!
# TOML documents

A document is a row of statements: keys with their values, and headers that
open a table or add one to an array of tables. `read` gives the table the
whole document describes.

A table may be opened by a header once. One that a dotted key made counts as
opened from the next header on. What an inline table or array holds is fixed:
nothing is added to it.
-/

namespace LanguageRelay

namespace Toml

/-! ## Nested tables -/

/-- Changes the table that a key leads to from another one, making the tables
on the way that are not there. A key leads into the last table of an array of
tables, if `intoArrays` holds. -/
def within (intoArrays : Bool) : List String → (Settings → Option Settings) → Settings →
    Option Settings
  | [], f, t => f t
  | part :: rest, f, t =>
    match Table.get? part t with
    | none => (within intoArrays rest f []).map fun inner => Table.put part (.table inner) t
    | some (.table inner) =>
      (within intoArrays rest f inner).map fun inner => Table.put part (.table inner) t
    | some (.list items) =>
      match intoArrays, items.getLast? with
      | true, some (.table inner) =>
        (within intoArrays rest f inner).map fun inner =>
          Table.put part (.list (items.dropLast ++ [.table inner])) t
      | _, _ => none
    | some _ => none

/-- Sets a name that is not there yet. -/
def addNew (name : String) (v : Setting) (t : Settings) : Option Settings :=
  match Table.get? name t with
  | some _ => none
  | none => some (Table.put name v t)

/-- Adds an empty table to an array of tables, which may be new. -/
def addTable (name : String) (t : Settings) : Option Settings :=
  match Table.get? name t with
  | none => some (Table.put name (.list [.table []]) t)
  | some (.list items) => some (Table.put name (.list (items ++ [.table []])) t)
  | some _ => none

/-- The part of a key before its last part, and the last part. -/
def splitKey (key : List String) : List String × String := (key.dropLast, key.getLast?.getD "")

/-- The setting holds others. -/
def isNest : Setting → Bool
  | .list _ => true
  | .table _ => true
  | _ => false

/-- The keys that are fixed cover a key: it or a key it continues is fixed. -/
def covers (fixed : List (List String)) (key : List String) : Bool :=
  fixed.any fun k => !k.isEmpty && k.isPrefixOf key

/-! ## Values -/

/-- Adds a key with its value to an inline table. What an earlier value holds
is fixed. -/
def addInline (fixed : List (List String)) (key : List String) (v : Setting) (t : Settings) :
    Option Settings :=
  if covers fixed key then none
  else
    let (path, name) := splitKey key
    within false path (addNew name v) t

mutual

/-- The value a text begins with. The first argument bounds the number of
values read. -/
def value : Nat → List Char → Scanned Setting
  | 0, _ => .error .malformed
  | fuel + 1, text =>
    match string? text with
    | some found => found.map fun (s, rest) => (.str s, rest)
    | none =>
      match text with
      | 't' :: 'r' :: 'u' :: 'e' :: rest => .ok (.bool true, rest)
      | 'f' :: 'a' :: 'l' :: 's' :: 'e' :: rest => .ok (.bool false, rest)
      | '[' :: rest =>
        match skipGap rest.length.succ rest with
        | .error e => .error e
        | .ok (']' :: rest) => .ok (.list [], rest)
        | .ok rest => arrayItems fuel [] rest
      | '\x7b' :: rest =>
        match skipSpace rest with
        | '\x7d' :: rest => .ok (.table [], rest)
        | rest => inlineTable fuel [] [] rest
      | _ => (moment? text).getD (number text)

/-- The items of an array up to its closing bracket; a comma may follow the
last one. -/
def arrayItems : Nat → List Setting → List Char → Scanned Setting
  | 0, _, _ => .error .malformed
  | fuel + 1, acc, text =>
    match value fuel text with
    | .error e => .error e
    | .ok (v, rest) =>
      match skipGap rest.length.succ rest with
      | .error e => .error e
      | .ok (']' :: rest) => .ok (.list (v :: acc).reverse, rest)
      | .ok (',' :: rest) =>
        match skipGap rest.length.succ rest with
        | .error e => .error e
        | .ok (']' :: rest) => .ok (.list (v :: acc).reverse, rest)
        | .ok rest => arrayItems fuel (v :: acc) rest
      | .ok _ => .error .malformed

/-- The keys and values of an inline table up to its closing brace. -/
def inlineTable : Nat → List (List String) → Settings → List Char → Scanned Setting
  | 0, _, _, _ => .error .malformed
  | fuel + 1, fixed, acc, text =>
    match key text with
    | .error e => .error e
    | .ok (k, rest) =>
      match rest with
      | '=' :: rest =>
        match value fuel (skipSpace rest) with
        | .error e => .error e
        | .ok (v, rest) =>
          match addInline fixed k v acc with
          | none => .error .malformed
          | some acc =>
            match skipSpace rest with
            | '\x7d' :: rest => .ok (.table acc, rest)
            | ',' :: rest =>
              inlineTable fuel (if isNest v then k :: fixed else fixed) acc (skipSpace rest)
            | _ => .error .malformed
      | _ => .error .malformed

end

/-! ## Statements -/

/-- A document as far as it was read. -/
structure State where
  root : Settings
  /-- The table the last header opened. -/
  header : List String
  /-- The keys of the tables that no header may open any more. -/
  opened : List (List String)
  /-- The keys of the tables that dotted keys made since the last header. -/
  dotted : List (List String)
  /-- The keys whose values are fixed. -/
  fixed : List (List String)

/-- The keys of the tables that the parts of a dotted key lead through. -/
def passed (header : List String) (path : List String) : List (List String) :=
  (List.range path.length).map fun i => header ++ path.take (i + 1)

/-- A key with its value. -/
def State.assign (key : List String) (v : Setting) (s : State) : Except Fault State :=
  let (path, name) := splitKey key
  let through := passed s.header path
  let place := s.header ++ path
  if through.any s.opened.contains || covers s.fixed place then .error .malformed
  else
    match within true place (addNew name v) s.root with
    | none => .error .malformed
    | some root =>
      .ok { s with
        root
        dotted := s.dotted ++ through
        fixed := if isNest v then (s.header ++ key) :: s.fixed else s.fixed }

/-- The tables made by dotted keys count as opened from now on. -/
def State.closeDotted (s : State) : State :=
  { s with opened := s.opened ++ s.dotted, dotted := [] }

/-- A header that opens a table. -/
def State.openTable (key : List String) (s : State) : Except Fault State :=
  let s := s.closeDotted
  if s.opened.contains key || covers s.fixed key then .error .malformed
  else
    match within true key some s.root with
    | none => .error .malformed
    | some root => .ok { s with root, header := key, opened := key :: s.opened }

/-- A header that adds a table to an array of tables: what was opened or fixed
in the table before it is no longer of account. -/
def State.openItem (key : List String) (s : State) : Except Fault State :=
  let s := s.closeDotted
  if covers s.fixed key then .error .malformed
  else
    let (path, name) := splitKey key
    match within true path (addTable name) s.root with
    | none => .error .malformed
    | some root =>
      .ok { s with
        root
        header := key
        opened := key :: s.opened.filter fun k => !key.isPrefixOf k
        fixed := s.fixed.filter fun k => !key.isPrefixOf k }

/-- The statement a text begins with, with the blanks after it. -/
def statement (text : List Char) (s : State) : Scanned State :=
  match text with
  | '[' :: '[' :: rest =>
    match key (skipSpace rest) with
    | .error e => .error e
    | .ok (k, rest) =>
      match s.openItem k, rest with
      | .error e, _ => .error e
      | .ok s, ']' :: ']' :: rest => .ok (s, skipSpace rest)
      | .ok _, _ => .error .malformed
  | '[' :: rest =>
    match key (skipSpace rest) with
    | .error e => .error e
    | .ok (k, rest) =>
      match s.openTable k, rest with
      | .error e, _ => .error e
      | .ok s, ']' :: rest => .ok (s, skipSpace rest)
      | .ok _, _ => .error .malformed
  | '#' :: _ => .ok (s, text)
  | _ =>
    match key text with
    | .error e => .error e
    | .ok (k, '=' :: rest) =>
      match value (2 * text.length + 2) (skipSpace rest) with
      | .error e => .error e
      | .ok (v, rest) => (s.assign k v).map fun s => (s, skipSpace rest)
    | .ok _ => .error .malformed

/-- Reads statement after statement. The first argument bounds their number. -/
def statements : Nat → List Char → State → Except Fault Settings
  | 0, _, _ => .error .malformed
  | fuel + 1, text, s =>
    match skipSpace text with
    | [] => .ok s.root
    | '\n' :: rest => statements fuel rest s
    | text =>
      match statement text s with
      | .error e => .error e
      | .ok (s, rest) =>
        match skipComment rest with
        | .error e => .error e
        | .ok [] => .ok s.root
        | .ok ('\n' :: rest) => statements fuel rest s
        | .ok _ => .error .malformed

/-- Line feeds for the ends of lines that are written as two characters. -/
def joinLineEnds : List Char → List Char
  | [] => []
  | '\r' :: '\n' :: rest => '\n' :: joinLineEnds rest
  | c :: rest => c :: joinLineEnds rest

/-- The table a document describes. -/
def read (text : List Char) : Except Fault Settings :=
  let text := joinLineEnds text
  statements text.length.succ text ⟨[], [], [], [], []⟩

end Toml

end LanguageRelay
