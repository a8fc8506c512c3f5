import LanguageRelay.Feature.Display
import LanguageRelay.Service.Location
/-!
# Document symbols

The analysis server gives the symbols of a document as a tree. Its nodes are
listed in pre-order; a node that is not listed hands its own container on to
its children.
-/

namespace LanguageRelay

/-- The kinds of symbols in use. -/
inductive SymbolKind where
  | file | module | classType | method | property | constructor | enum | interface | function
  | binding | constant | enumMember | typeParameter
deriving DecidableEq, Repr

namespace SymbolKind

/-- The number editors know a kind by. -/
def code : SymbolKind → Nat
  | file => 1 | module => 2 | classType => 5 | method => 6 | property => 7 | constructor => 9
  | enum => 10 | interface => 11 | function => 12 | binding => 13 | constant => 14
  | enumMember => 22 | typeParameter => 26

/-- The kinds by the words of the analysis server. -/
def table : List (String × SymbolKind) :=
  [("module", module), ("external module name", module), ("script", file), ("class", classType),
   ("local class", classType), ("interface", interface), ("type", classType), ("enum", enum),
   ("enum member", enumMember), ("method", method), ("property", property), ("getter", property),
   ("setter", property), ("constructor", constructor), ("function", function),
   ("local function", function), ("const", constant), ("var", binding), ("local var", binding),
   ("let", binding), ("type parameter", typeParameter)]

/-- The kind of a word; any other word counts as a variable. -/
def ofWord (word : String) : SymbolKind := (table.lookup word).getD binding

end SymbolKind

/-- A symbol of a document and the symbol it is contained in. -/
structure SymbolInfo where
  name : String
  kind : SymbolKind
  location : Location
  container : Option String
deriving DecidableEq, Repr

namespace SymbolInfo

/-- The symbol as editors receive it. -/
def toJson (s : SymbolInfo) : Json :=
  .obj ([("name", Json.str s.name), ("kind", .int s.kind.code),
      ("location", s.location.toJson)]
    ++ Json.field? "containerName" (s.container.map .str))

/-- The name of a node. -/
def nodeName (node : Json) : String := (node.get? "text").elim "" Json.text

/-- The span a node is listed with: the first of its spans, unless the node
is the whole file. -/
def nodeSpan? (node : Json) : Option Json :=
  if nodeName node == "<global>" then none else (node.get "spans").items.head?

/-- The symbol of a node that is listed. -/
def ofNode (uri : String) (container : Option String) (node span : Json) :
    Except Failure SymbolInfo := do
  let range ← Service.spanRange span
  return ⟨nodeName node, SymbolKind.ofWord ((node.get? "kind").elim "" Json.text), ⟨uri, range⟩,
    container⟩

/-- The symbol of the node itself, if it is listed. -/
def ownSymbols (uri : String) (container : Option String) (node : Json) :
    Except Failure (List SymbolInfo) :=
  match nodeSpan? node with
  | some span => (ofNode uri container node span).map fun s => [s]
  | none => .ok []

/-- The container the children of a node see. -/
def innerContainer (container : Option String) (node : Json) : Option String :=
  if (nodeSpan? node).isSome then some (nodeName node) else container

mutual

/-- The symbols of a tree, in pre-order. A tree is an object. -/
def ofTree (uri : String) (container : Option String) : Json → Except Failure (List SymbolInfo)
  | .obj fields =>
    match ownSymbols uri container (.obj fields) with
    | .error e => .error e
    | .ok own =>
      (ofChildren uri (innerContainer container (.obj fields)) fields).map fun below =>
        own ++ below
  | _ => .error (.value .noFields)

/-- The symbols of the children among the fields of a node. -/
def ofChildren (uri : String) (container : Option String) :
    List (String × Json) → Except Failure (List SymbolInfo)
  | [] => .ok []
  | (key, value) :: rest =>
    if key == "childItems" then ofItems uri container value else ofChildren uri container rest

/-- The symbols of a list of nodes. -/
def ofItems (uri : String) (container : Option String) : Json → Except Failure (List SymbolInfo)
  | .arr nodes => ofForest uri container nodes
  | _ => .ok []

/-- The symbols of several trees, one after another; items that are no objects
are left out. -/
def ofForest (uri : String) (container : Option String) :
    List Json → Except Failure (List SymbolInfo)
  | [] => .ok []
  | node :: rest =>
    if node.fields?.isSome then
      match ofTree uri container node with
      | .error e => .error e
      | .ok first => (ofForest uri container rest).map fun later => first ++ later
    else ofForest uri container rest

end

end SymbolInfo

end LanguageRelay
