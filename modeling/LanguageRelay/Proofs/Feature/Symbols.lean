import LanguageRelay.Feature.Symbols
import LanguageRelay.Proofs.Fallible
import LanguageRelay.Proofs.Table
/-!
# Symbols in pre-order

A node of a tree is found by its address, the numbers of the children that lead to
it from the root (`Json.nodeAt?`). Addresses are ordered as words are, and a node
comes before its children and these before its next sibling, so the order of
addresses is the pre-order of the tree.

`InPreorder` says that symbols are listed in that order, one for each node that is
to be listed (`ListedWith`) and none for any other, and what each symbol is. Its
container is named for the nearest listed node above (`Container`). The symbols of
a tree are listed so, and put behind the symbols there are already
(`symbols_in_preorder`).
-/

namespace LanguageRelay

namespace Json

/-- The children of a node. -/
def children (node : Json) : List Json := (node.get "childItems").items

/-- The node at an address. Only objects are nodes. -/
def nodeAt? : Json → List Nat → Option Json
  | tree, [] => if tree.fields?.isSome then some tree else none
  | tree, i :: rest => (tree.children[i]?).bind fun child => child.nodeAt? rest

variable {tree child node : Json} {fields : Fields} {address : List Nat} {i : Nat}

theorem nodeAt?_nil : tree.nodeAt? [] = some node ↔ tree.fields?.isSome ∧ node = tree := by
  rw [nodeAt?]
  split
  · rename_i htree
    exact ⟨fun h => ⟨htree, (Option.some.inj h).symm⟩, fun h => congrArg some h.2.symm⟩
  · rename_i htree
    exact iff_of_false (by simp) fun h => htree h.1

theorem nodeAt?_cons : tree.nodeAt? (i :: address) = some node ↔
    ∃ child, tree.children[i]? = some child ∧ child.nodeAt? address = some node :=
  Option.bind_eq_some_iff

/-- Nothing is below a value that is no object. -/
theorem nodeAt?_of_not_object (h : ¬ tree.fields?.isSome) (address : List Nat) :
    tree.nodeAt? address = none := by
  cases address with
  | nil => simp [nodeAt?, h]
  | cons i rest =>
    have hnone : tree.children = [] := by
      cases tree with
      | obj fields => exact absurd rfl h
      | _ => rfl
    simp [nodeAt?, hnone]

theorem sizeOf_lt_of_mem_children (h : child ∈ children (.obj fields)) :
    sizeOf child < sizeOf (Json.obj fields) := by
  cases hget : Table.get? "childItems" fields with
  | none => simp [children, get, get?, Json.fields, hget, items] at h
  | some value =>
    have hfield := List.sizeOf_lt_of_mem (Table.mem_of_get? hget)
    cases value with
    | arr nodes =>
      have hchild : child ∈ nodes := by
        simpa [children, get, get?, Json.fields, hget, items] using h
      have hnode := List.sizeOf_lt_of_mem hchild
      simp only [Prod.mk.sizeOf_spec, arr.sizeOf_spec, obj.sizeOf_spec] at hfield ⊢
      omega
    | _ => simp [children, get, get?, Json.fields, hget, items] at h

/-- **Induction over the nodes of a tree**, from the children of a node to the node. -/
theorem node_induction {P : Json → Prop}
    (hnode : ∀ fields, (∀ child ∈ children (.obj fields), child.fields?.isSome → P child) →
      P (.obj fields)) (tree : Json) (htree : tree.fields?.isSome) : P tree := by
  induction hsize : sizeOf tree using Nat.strongRecOn generalizing tree with
  | ind n ih =>
    subst hsize
    cases tree with
    | obj fields =>
      exact hnode fields fun child hchild hobject =>
        ih _ (sizeOf_lt_of_mem_children hchild) child hobject rfl
    | _ => cases htree

end Json

namespace SymbolInfo

variable {uri : String} {outer container : Option String} {tree child node span : Json}
variable {fields : Fields} {nodes : List Json} {address : List Nat} {i : Nat}
variable {placed : List (List Nat × SymbolInfo)} {out : List SymbolInfo}

/-! ## Which nodes are listed, and as what -/

/-- The node is listed with the span: it is not the whole file, and the span is the
first of its list of spans. -/
structure ListedWith (node span : Json) : Prop where
  named : nodeName node ≠ "<global>"
  first : ∃ more, node.get? "spans" = some (.arr (span :: more))

/-- At the address is a node that is listed with the span. -/
def ListedAt (tree : Json) (address : List Nat) (node span : Json) : Prop :=
  tree.nodeAt? address = some node ∧ ListedWith node span

/-- **What an address is contained in**: the nearest node above that is listed, or
what contains the tree if there is none. -/
inductive Container (tree : Json) (outer : Option String) (address : List Nat) :
    Option String → Prop where
  | nearest {n : Nat} {node span : Json} (habove : n < address.length)
      (hlisted : ListedAt tree (address.take n) node span)
      (hnone : ∀ k node span, n < k → k < address.length →
        ¬ ListedAt tree (address.take k) node span) :
      Container tree outer address (some (nodeName node))
  | outermost (hnone : ∀ k node span, k < address.length →
        ¬ ListedAt tree (address.take k) node span) : Container tree outer address outer

/-- **The symbol of the node at an address.** -/
structure SymbolAt (uri : String) (outer : Option String) (tree : Json) (address : List Nat)
    (s : SymbolInfo) : Prop where
  listed : ∃ node span, ListedAt tree address node span ∧ s.name = nodeName node ∧
    s.kind = SymbolKind.ofWord ((node.get? "kind").elim "" Json.text) ∧
    Service.spanRange span = .ok s.location.range
  uri : s.location.uri = uri
  container : Container tree outer address s.container

/-- **Symbols are listed in pre-order**, by the addresses of their nodes: one for each
node that is listed. -/
structure InPreorder (uri : String) (outer : Option String) (tree : Json)
    (placed : List (List Nat × SymbolInfo)) : Prop where
  ascending : placed.Pairwise fun x y => x.1 < y.1
  sound : ∀ x ∈ placed, SymbolAt uri outer tree x.1 x.2
  complete : ∀ address node span, ListedAt tree address node span → ∃ s, (address, s) ∈ placed

/-- The same of trees one after another, counted from a number on. -/
structure ForestInPreorder (uri : String) (outer : Option String) (i : Nat) (nodes : List Json)
    (placed : List (List Nat × SymbolInfo)) : Prop where
  ascending : placed.Pairwise fun x y => x.1 < y.1
  sound : ∀ x ∈ placed, ∃ j child address, x.1 = (i + j) :: address ∧ nodes[j]? = some child ∧
    SymbolAt uri outer child address x.2
  complete : ∀ j child address node span, nodes[j]? = some child →
    ListedAt child address node span → ∃ s, ((i + j) :: address, s) ∈ placed

/-- Every node that is listed has a span that can be read. -/
def Readable (tree : Json) : Prop :=
  ∀ address node span, ListedAt tree address node span →
    ∃ range, Service.spanRange span = .ok range

theorem nodeSpan?_eq_some_iff : nodeSpan? node = some span ↔ ListedWith node span := by
  unfold nodeSpan?
  split
  · rename_i hglobal
    simp only [beq_iff_eq] at hglobal
    exact iff_of_false (by simp) fun h => h.named hglobal
  · rename_i hname
    refine ⟨fun h => ⟨by simpa using hname, ?_⟩, ?_⟩
    · cases hget : node.get? "spans" with
      | none => simp [Json.get, hget, Json.items] at h
      | some value =>
        cases value with
        | arr spans =>
          cases spans with
          | nil => simp [Json.get, hget, Json.items] at h
          | cons first more =>
            simp only [Json.get, hget, Option.getD_some, Json.items, List.head?_cons,
              Option.some.injEq] at h
            exact ⟨more, by rw [h]⟩
        | _ => simp [Json.get, hget, Json.items] at h
    · rintro ⟨-, more, hget⟩
      simp [Json.get, hget, Json.items]

/-! ## Addresses below a node -/

theorem listedAt_nil (h : ListedAt tree [] node span) : node = tree ∧ ListedWith tree span := by
  obtain ⟨-, rfl⟩ := Json.nodeAt?_nil.mp h.1
  exact ⟨rfl, h.2⟩

theorem not_listedAt_of_not_object (h : ¬ tree.fields?.isSome) :
    ¬ ListedAt tree address node span := by
  rintro ⟨hnode, -⟩
  rw [Json.nodeAt?_of_not_object h] at hnode
  cases hnode

theorem listedAt_cons : ListedAt tree (i :: address) node span ↔
    ∃ child, tree.children[i]? = some child ∧ ListedAt child address node span := by
  simp only [ListedAt, Json.nodeAt?_cons]
  constructor
  · rintro ⟨⟨child, hchild, hnode⟩, hlisted⟩
    exact ⟨child, hchild, hnode, hlisted⟩
  · rintro ⟨child, hchild, hnode, hlisted⟩
    exact ⟨⟨child, hchild, hnode⟩, hlisted⟩

theorem listedAt_child (hchild : tree.children[i]? = some child) :
    ListedAt tree (i :: address) node span ↔ ListedAt child address node span := by
  simp [listedAt_cons, hchild]

/-- **What contains a node in the tree of a child contains it in the whole tree**, where
the child sees the container that the root hands on. -/
theorem Container.of_child (hchild : tree.children[i]? = some child) (htree : tree.fields?.isSome)
    (h : Container child (innerContainer outer tree) address container) :
    Container tree outer (i :: address) container := by
  -- among the addresses above are the root's and those above within the child
  have habove : ∀ k node span, k + 1 < (i :: address).length →
      (ListedAt tree ((i :: address).take (k + 1)) node span ↔
        ListedAt child (address.take k) node span) := fun k node span _ => by
    rw [List.take_succ_cons, listedAt_child hchild]
  cases h with
  | @nearest n node span hn hlisted hnone =>
    refine .nearest (n := n + 1) (by simpa using hn)
      ((habove n _ _ (by simpa using hn)).mpr hlisted) fun k node span hnk hk => ?_
    obtain ⟨k, rfl⟩ := Nat.exists_eq_add_one.mpr (Nat.zero_lt_of_lt hnk)
    rw [habove k _ _ hk]
    exact hnone k node span (by omega) (by simpa using hk)
  | outermost hnone =>
    have hbelow : ∀ k node span, 0 < k → k < (i :: address).length →
        ¬ ListedAt tree ((i :: address).take k) node span := by
      intro k node span hpos hk
      obtain ⟨k, rfl⟩ := Nat.exists_eq_add_one.mpr hpos
      rw [habove k _ _ hk]
      exact hnone k node span (by simpa using hk)
    cases hroot : nodeSpan? tree with
    | some span =>
      have hinner : innerContainer outer tree = some (nodeName tree) := by
        simp [innerContainer, hroot]
      rw [hinner]
      exact .nearest (n := 0) (by simp) ⟨Json.nodeAt?_nil.mpr ⟨htree, rfl⟩,
        nodeSpan?_eq_some_iff.mp hroot⟩ hbelow
    | none =>
      have hinner : innerContainer outer tree = outer := by simp [innerContainer, hroot]
      rw [hinner]
      refine .outermost fun k node span hk hlisted => ?_
      cases k with
      | zero =>
        rw [nodeSpan?_eq_some_iff.mpr (listedAt_nil hlisted).2] at hroot
        cases hroot
      | succ k => exact hbelow _ node span (Nat.succ_pos k) hk hlisted

theorem SymbolAt.of_child {s : SymbolInfo} (hchild : tree.children[i]? = some child)
    (htree : tree.fields?.isSome) (h : SymbolAt uri (innerContainer outer tree) child address s) :
    SymbolAt uri outer tree (i :: address) s := by
  obtain ⟨node, span, hlisted, hshown⟩ := h.listed
  exact ⟨⟨node, span, (listedAt_child hchild).mpr hlisted, hshown⟩, h.uri,
    h.container.of_child hchild htree⟩

theorem Readable.of_child (h : Readable tree) (hchild : child ∈ tree.children) :
    Readable child := by
  obtain ⟨i, hi⟩ := List.getElem?_of_mem hchild
  exact fun address node span hlisted => h (i :: address) node span
    ((listedAt_child hi).mpr hlisted)

/-! ## What is listed -/

/-- The symbols of a node's children are those of the trees among them. -/
theorem ofChildren_eq (uri : String) (container : Option String) (fields : Fields) :
    ofChildren uri container fields = ofForest uri container (Json.children (.obj fields)) := by
  induction fields with
  | nil => rfl
  | cons field rest ih =>
    obtain ⟨key, value⟩ := field
    by_cases hkey : key = "childItems"
    · subst hkey
      have hchildren : Json.children (.obj (("childItems", value) :: rest)) = value.items := rfl
      rw [hchildren]
      cases value <;> simp [ofChildren, ofItems, Json.items, ofForest]
    · have hchildren : Json.children (.obj ((key, value) :: rest)) = Json.children (.obj rest) := by
        simp [Json.children, Json.get, Json.get?, Json.fields, Table.get?, hkey]
      rw [hchildren, ← ih]
      simp [ofChildren, hkey]

theorem ofTree_obj (uri : String) (outer : Option String) (fields : Fields) :
    ofTree uri outer (.obj fields) = (ownSymbols uri outer (.obj fields)).bind fun own =>
      (ofForest uri (innerContainer outer (.obj fields)) (Json.children (.obj fields))).map
        fun below => own ++ below := by
  rw [ofTree, ofChildren_eq]
  cases ownSymbols uri outer (.obj fields) <;> rfl

/-- What is listed of later trees is so with a tree in front of them. -/
theorem ForestInPreorder.sound_cons (h : ForestInPreorder uri container (i + 1) nodes placed)
    (child : Json) : ∀ x ∈ placed, ∃ j c address, x.1 = (i + j) :: address ∧
      (child :: nodes)[j]? = some c ∧ SymbolAt uri container c address x.2 := by
  intro x hx
  obtain ⟨j, c, address, haddress, hc, hsymbol⟩ := h.sound x hx
  exact ⟨j + 1, c, address, by rw [haddress, Nat.add_right_comm, Nat.add_assoc], hc, hsymbol⟩

/-- The later trees are listed in full. -/
theorem ForestInPreorder.complete_cons (h : ForestInPreorder uri container (i + 1) nodes placed)
    {j : Nat} (hchild : nodes[j]? = some child) (hlisted : ListedAt child address node span) :
    ∃ s, ((i + (j + 1)) :: address, s) ∈ placed := by
  obtain ⟨s, hs⟩ := h.complete j child address node span hchild hlisted
  rw [Nat.add_right_comm, Nat.add_assoc] at hs
  exact ⟨s, hs⟩

/-- Nothing is listed of an item that is no object. -/
theorem ForestInPreorder.skip (h : ForestInPreorder uri container (i + 1) nodes placed)
    (hchild : ¬ child.fields?.isSome) :
    ForestInPreorder uri container i (child :: nodes) placed where
  ascending := h.ascending
  sound := h.sound_cons child
  complete := by
    intro j c address node span hc hlisted
    cases j with
    | zero =>
      cases hc
      exact absurd hlisted (not_listedAt_of_not_object hchild)
    | succ j => exact h.complete_cons hc hlisted

/-- **What is below one tree comes before what is below the next.** -/
theorem ForestInPreorder.cons {first : List (List Nat × SymbolInfo)}
    (h : ForestInPreorder uri container (i + 1) nodes placed)
    (hfirst : InPreorder uri container child first) :
    ForestInPreorder uri container i (child :: nodes)
      (first.map (fun x => (i :: x.1, x.2)) ++ placed) where
  ascending := by
    refine List.pairwise_append.mpr ⟨?_, h.ascending, ?_⟩
    · refine List.pairwise_map.mpr (hfirst.ascending.imp fun hxy => ?_)
      exact List.cons_lt_cons_iff.mpr (.inr ⟨rfl, hxy⟩)
    · intro x hx y hy
      obtain ⟨x, -, rfl⟩ := List.mem_map.mp hx
      obtain ⟨j, c, address, haddress, -⟩ := h.sound y hy
      rw [haddress]
      exact List.cons_lt_cons_iff.mpr (.inl (by omega))
  sound := by
    intro x hx
    rcases List.mem_append.mp hx with hx | hx
    · obtain ⟨y, hy, rfl⟩ := List.mem_map.mp hx
      exact ⟨0, child, y.1, rfl, rfl, hfirst.sound y hy⟩
    · exact h.sound_cons child x hx
  complete := by
    intro j c address node span hc hlisted
    cases j with
    | zero =>
      cases hc
      obtain ⟨s, hs⟩ := hfirst.complete address node span hlisted
      exact ⟨s, List.mem_append_left _ (List.mem_map_of_mem (f := fun x => (i :: x.1, x.2)) hs)⟩
    | succ j =>
      obtain ⟨s, hs⟩ := h.complete_cons hc hlisted
      exact ⟨s, List.mem_append_right _ hs⟩

/-- **Trees one after another are listed in pre-order**, if each is. -/
theorem forestInPreorder_ofForest (uri : String) (container : Option String) (nodes : List Json)
    (i : Nat) (htrees : ∀ child ∈ nodes, child.fields?.isSome → ∃ placed,
      ofTree uri container child = .ok (placed.map Prod.snd) ∧
        InPreorder uri container child placed) :
    ∃ placed, ofForest uri container nodes = .ok (placed.map Prod.snd) ∧
      ForestInPreorder uri container i nodes placed := by
  induction nodes generalizing i with
  | nil => exact ⟨[], rfl, .nil, by simp, by simp⟩
  | cons child rest ih =>
    obtain ⟨later, hrest, hlater⟩ := ih (i + 1) fun c hc => htrees c (List.mem_cons_of_mem _ hc)
    by_cases hobject : child.fields?.isSome
    · obtain ⟨first, hchild, hfirst⟩ := htrees child List.mem_cons_self hobject
      refine ⟨_, ?_, hlater.cons hfirst⟩
      rw [ofForest, if_pos hobject, hchild]
      simp [hrest, Except.map, Function.comp_def]
    · exact ⟨later, by rw [ofForest, if_neg hobject, hrest], hlater.skip hobject⟩

/-- The root comes before all that is below it. -/
theorem inPreorder_of_children {own : List SymbolInfo} (htree : tree.fields?.isSome)
    (hown : ∀ s ∈ own, SymbolAt uri outer tree [] s) (hone : own.length ≤ 1)
    (hroot : ∀ span, ListedWith tree span → own ≠ [])
    (hbelow : ForestInPreorder uri (innerContainer outer tree) 0 tree.children placed) :
    InPreorder uri outer tree (own.map (fun s => ([], s)) ++ placed) := by
  have haddress : ∀ x ∈ placed, ∃ j address, x.1 = j :: address := by
    intro x hx
    obtain ⟨j, child, address, haddress, -⟩ := hbelow.sound x hx
    exact ⟨_, _, haddress⟩
  refine ⟨List.pairwise_append.mpr ⟨?_, hbelow.ascending, ?_⟩, ?_, ?_⟩
  · match own, hone with
    | [], _ => exact .nil
    | [s], _ => exact List.pairwise_singleton _ _
  · intro x hx y hy
    obtain ⟨s, -, rfl⟩ := List.mem_map.mp hx
    obtain ⟨j, address, hy⟩ := haddress y hy
    rw [hy]
    exact List.nil_lt_cons j address
  · intro x hx
    rcases List.mem_append.mp hx with hx | hx
    · obtain ⟨s, hs, rfl⟩ := List.mem_map.mp hx
      exact hown s hs
    · obtain ⟨j, child, address, haddress, hchild, hsymbol⟩ := hbelow.sound x hx
      rw [haddress, Nat.zero_add]
      exact hsymbol.of_child hchild htree
  · intro address node span hlisted
    cases address with
    | nil =>
      obtain ⟨s, hs⟩ := List.exists_mem_of_ne_nil own (hroot span (listedAt_nil hlisted).2)
      exact ⟨s, List.mem_append_left _ (List.mem_map_of_mem hs)⟩
    | cons j address =>
      obtain ⟨child, hchild, hlisted⟩ := listedAt_cons.mp hlisted
      obtain ⟨s, hs⟩ := hbelow.complete j child address node span hchild hlisted
      exact ⟨s, List.mem_append_right _ (Nat.zero_add j ▸ hs)⟩

/-- The root is listed by its own symbol, if at all. -/
theorem ownSymbols_of_readable (uri : String) (outer : Option String) (h : Readable tree)
    (htree : tree.fields?.isSome) :
    ∃ own, ownSymbols uri outer tree = .ok own ∧ (∀ s ∈ own, SymbolAt uri outer tree [] s) ∧
      own.length ≤ 1 ∧ ∀ span, ListedWith tree span → own ≠ [] := by
  cases hroot : nodeSpan? tree with
  | none =>
    refine ⟨[], by simp [ownSymbols, hroot], by simp, by simp, fun span hspan => ?_⟩
    rw [nodeSpan?_eq_some_iff.mpr hspan] at hroot
    cases hroot
  | some span =>
    have hlisted : ListedAt tree [] tree span :=
      ⟨Json.nodeAt?_nil.mpr ⟨htree, rfl⟩, nodeSpan?_eq_some_iff.mp hroot⟩
    obtain ⟨range, hrange⟩ := h [] tree span hlisted
    refine ⟨[⟨nodeName tree, SymbolKind.ofWord ((tree.get? "kind").elim "" Json.text), ⟨uri, range⟩,
      outer⟩], ?_, ?_, Nat.le_refl 1, fun _ _ => List.cons_ne_nil _ _⟩
    · simp [ownSymbols, hroot, ofNode, hrange, bind, Except.bind, pure, Except.pure, Except.map]
    · intro s hs
      rw [List.mem_singleton.mp hs]
      exact ⟨⟨tree, span, hlisted, rfl, rfl, hrange⟩, rfl,
        .outermost fun k _ _ hk => absurd hk (by simp)⟩

/-- **The symbols of a tree are listed in pre-order.** -/
theorem inPreorder_ofTree (uri : String) (tree : Json) (htree : tree.fields?.isSome) :
    ∀ outer, Readable tree → ∃ placed, ofTree uri outer tree = .ok (placed.map Prod.snd) ∧
      InPreorder uri outer tree placed := by
  refine Json.node_induction (P := fun tree => ∀ outer, Readable tree → ∃ placed,
    ofTree uri outer tree = .ok (placed.map Prod.snd) ∧ InPreorder uri outer tree placed)
    (fun fields hchildren outer hreadable => ?_) tree htree
  obtain ⟨own, hsymbols, hown, hone, hroot⟩ := ownSymbols_of_readable uri outer hreadable rfl
  obtain ⟨placed, hforest, hbelow⟩ := forestInPreorder_ofForest uri
    (innerContainer outer (.obj fields)) (Json.children (.obj fields)) 0
    fun child hchild hobject => hchildren child hchild hobject _ (hreadable.of_child hchild)
  refine ⟨own.map (fun s => ([], s)) ++ placed, ?_,
    inPreorder_of_children rfl hown hone hroot hbelow⟩
  rw [ofTree_obj, hsymbols, hforest]
  simp [Except.bind, Except.map, Function.comp_def]

/-- A tree is readable if its root is and the trees below are. -/
theorem readable_of_children
    (hroot : ∀ span, nodeSpan? tree = some span → ∃ range, Service.spanRange span = .ok range)
    (hchildren : ∀ child ∈ tree.children, child.fields?.isSome → Readable child) :
    Readable tree := by
  intro address node span hlisted
  cases address with
  | nil => exact hroot span (nodeSpan?_eq_some_iff.mpr (listedAt_nil hlisted).2)
  | cons i address =>
    obtain ⟨child, hchild, hlisted⟩ := listedAt_cons.mp hlisted
    by_cases hobject : child.fields?.isSome
    · exact hchildren child (List.mem_of_getElem? hchild) hobject address node span hlisted
    · exact absurd hlisted (not_listedAt_of_not_object hobject)

theorem ofTree_of_ofForest {symbols : List SymbolInfo}
    (h : ofForest uri container nodes = .ok symbols) : ∀ child ∈ nodes, child.fields?.isSome →
      ∃ symbols, ofTree uri container child = .ok symbols := by
  induction nodes generalizing symbols with
  | nil => simp
  | cons node rest ih =>
    intro child hchild hobject
    rw [ofForest] at h
    split at h
    · split at h
      · cases h
      · rename_i first hfirst
        obtain ⟨later, hlater, -⟩ := map_eq_ok.mp h
        rcases List.mem_cons.mp hchild with rfl | hchild
        · exact ⟨first, hfirst⟩
        · exact ih hlater child hchild hobject
    · rename_i hnode
      rcases List.mem_cons.mp hchild with rfl | hchild
      · exact absurd hobject hnode
      · exact ih h child hchild hobject

/-- **A tree whose symbols are listed is readable.** -/
theorem readable_of_ofTree (tree : Json) (htree : tree.fields?.isSome) :
    ∀ outer symbols, ofTree uri outer tree = .ok symbols → Readable tree := by
  refine Json.node_induction (P := fun tree => ∀ outer symbols,
    ofTree uri outer tree = .ok symbols → Readable tree)
    (fun fields hchildren outer symbols h => ?_) tree htree
  rw [ofTree_obj] at h
  obtain ⟨own, hown, h⟩ := bind_eq_ok.mp h
  obtain ⟨below, hbelow, -⟩ := map_eq_ok.mp h
  refine readable_of_children (fun span hspan => ?_) fun child hchild hobject => ?_
  · simp only [ownSymbols, hspan] at hown
    obtain ⟨s, hs, -⟩ := map_eq_ok.mp hown
    obtain ⟨range, hrange, -⟩ := bind_eq_ok.mp hs
    exact ⟨range, hrange⟩
  · obtain ⟨symbols, hsymbols⟩ := ofTree_of_ofForest hbelow child hchild hobject
    exact hchildren child hchild hobject _ _ hsymbols

/-! ## Symbols put behind others -/

/-- Puts the symbols of a tree behind those there are: the node's own, and then those
of one child after another. Children that are no objects are left out. -/
def addTree (uri : String) (container : Option String) (out : List SymbolInfo) :
    Json → Except Failure (List SymbolInfo)
  | .obj fields => do
    let own ← ownSymbols uri container (.obj fields)
    (Json.children (.obj fields)).attach.foldlM (fun out child =>
      if child.val.fields?.isSome then
        addTree uri (innerContainer container (.obj fields)) out child.val
      else .ok out) (out ++ own)
  | _ => .error (.value .noFields)
termination_by tree => sizeOf tree
decreasing_by exact Json.sizeOf_lt_of_mem_children child.property

theorem addTree_obj (uri : String) (outer : Option String) (out : List SymbolInfo)
    (fields : Fields) : addTree uri outer out (.obj fields) = (do
      let own ← ownSymbols uri outer (.obj fields)
      (Json.children (.obj fields)).foldlM (fun out child =>
        if child.fields?.isSome then addTree uri (innerContainer outer (.obj fields)) out child
        else .ok out) (out ++ own)) := by
  rw [addTree]
  refine bind_congr fun own => ?_
  refine (List.foldlM_subtype (g := fun out child => if child.fields?.isSome then
    addTree uri (innerContainer outer (.obj fields)) out child else .ok out)
    fun _ _ _ => rfl).trans ?_
  rw [List.unattach_attach]

/-- **The symbols that are put behind others are those of the tree**, and what was
there stays as it is. -/
theorem addTree_eq (tree : Json) (htree : tree.fields?.isSome) : ∀ outer out,
    addTree uri outer out tree = (ofTree uri outer tree).map fun symbols => out ++ symbols := by
  refine Json.node_induction (P := fun tree => ∀ outer out, addTree uri outer out tree =
    (ofTree uri outer tree).map fun symbols => out ++ symbols)
    (fun fields hchildren outer out => ?_) tree htree
  have hforest : ∀ nodes ⊆ Json.children (.obj fields), ∀ out,
      nodes.foldlM (fun out child => if child.fields?.isSome then
          addTree uri (innerContainer outer (.obj fields)) out child else .ok out) out =
        (ofForest uri (innerContainer outer (.obj fields)) nodes).map
          fun below => out ++ below := by
    intro nodes hnodes
    induction nodes with
    | nil => intro out; simp [ofForest, Except.map, pure, Except.pure]
    | cons child rest ih =>
      intro out
      obtain ⟨hchild, hrest⟩ := List.cons_subset.mp hnodes
      rw [List.foldlM_cons]
      by_cases hobject : child.fields?.isSome
      · rw [if_pos hobject, hchildren child hchild hobject, ofForest, if_pos hobject]
        cases ofTree uri (innerContainer outer (.obj fields)) child with
        | error e => rfl
        | ok first =>
          refine (ih hrest (out ++ first)).trans ?_
          cases ofForest uri (innerContainer outer (.obj fields)) rest <;> simp [Except.map]
      · rw [if_neg hobject, ofForest, if_neg hobject]
        exact ih hrest out
  rw [addTree_obj, ofTree_obj]
  cases ownSymbols uri outer (.obj fields) with
  | error e => rfl
  | ok own =>
    refine (hforest _ (List.Subset.refl _) (out ++ own)).trans ?_
    cases ofForest uri (innerContainer outer (.obj fields)) (Json.children (.obj fields)) <;>
      simp [Except.map, Except.bind]

/-- **The symbols of a tree are put behind those there are, in pre-order**: one for each
node that is listed, contained in the nearest listed node above it. That is so if the
span of every node that is listed can be read, and else there are none. -/
theorem symbols_in_preorder (uri : String) (outer : Option String) (out : List SymbolInfo)
    {tree : Json} (htree : tree.fields?.isSome) :
    (Readable tree → ∃ placed, InPreorder uri outer tree placed ∧
      ofTree uri outer tree = .ok (placed.map Prod.snd) ∧
      addTree uri outer out tree = .ok (out ++ placed.map Prod.snd)) ∧
    ((∃ symbols, ofTree uri outer tree = .ok symbols) ↔ Readable tree) := by
  have hlisted : Readable tree → ∃ placed, InPreorder uri outer tree placed ∧
      ofTree uri outer tree = .ok (placed.map Prod.snd) ∧
      addTree uri outer out tree = .ok (out ++ placed.map Prod.snd) := by
    intro hreadable
    obtain ⟨placed, hsymbols, hplaced⟩ := inPreorder_ofTree uri tree htree outer hreadable
    exact ⟨placed, hplaced, hsymbols, by rw [addTree_eq tree htree, hsymbols]; rfl⟩
  refine ⟨hlisted, fun ⟨symbols, hsymbols⟩ => readable_of_ofTree tree htree outer symbols hsymbols,
    fun hreadable => ?_⟩
  obtain ⟨placed, -, hsymbols, -⟩ := hlisted hreadable
  exact ⟨_, hsymbols⟩

/-- The span of one character of a line. -/
def onLine (line : Nat) : Json :=
  .obj [("start", .obj (Service.locationFields ⟨line, 0⟩)),
    ("end", .obj (Service.locationFields ⟨line, 1⟩))]

/-- A file with a class and a variable. What is in the class is below a node without a
span, beside an item that is no node. -/
def fileTree : Json :=
  .obj [("text", .str "<global>"), ("spans", .arr [onLine 0]), ("childItems", .arr [
    .obj [("text", .str "C"), ("kind", .str "class"), ("spans", .arr [onLine 1]),
      ("childItems", .arr [
        .obj [("text", .str "folded"), ("spans", .arr []), ("childItems", .arr [
          .obj [("text", .str "m"), ("kind", .str "method"), ("spans", .arr [onLine 2])]])],
        .int 7])],
    .obj [("text", .str "v"), ("spans", .arr [onLine 3])]])]

/-- The method is in the class, and the node between them is passed over. -/
theorem symbols_in_preorder_folded :
    fileTree.fields?.isSome ∧ Readable fileTree ∧
      (∃ placed, InPreorder "file:///a.ts" none fileTree placed ∧
        ofTree "file:///a.ts" none fileTree = .ok (placed.map Prod.snd) ∧
        addTree "file:///a.ts" none [] fileTree = .ok ([] ++ placed.map Prod.snd)) ∧
    (ofTree "file:///a.ts" none fileTree).map (List.map fun s => (s.name, s.container)) =
      .ok [("C", none), ("m", some "C"), ("v", none)] := by
  have hobject : fileTree.fields?.isSome := rfl
  obtain ⟨hlisted, hiff⟩ := symbols_in_preorder "file:///a.ts" none [] hobject
  have hreadable : Readable fileTree := hiff.mp ⟨_, by with_unfolding_all rfl⟩
  exact ⟨hobject, hreadable, hlisted hreadable, by with_unfolding_all rfl⟩

end SymbolInfo

end LanguageRelay
