import ExternalParser.CommandLine.Export
import ExternalParser.Proofs.Tree.Selection

namespace ExternalParser

-- A nested description with a token in the place of every position.
inductive Content where
  | token (record : TokenRecord)
  | node (kind : Nat) (children : List Content)

mutual

-- The child with its tokens put in, if it refers to tokens of the stream only.
def ChildRecord.content? (stream : List TokenRecord) : ChildRecord → Option Content
  | .token index => stream[index]?.map .token
  | .node kind children => (contentsOf? stream children).map (.node kind)
  | .invalid _ => none

def contentsOf? (stream : List TokenRecord) : List ChildRecord → Option (List Content)
  | [] => some []
  | c :: cs => do return (← c.content? stream) :: (← contentsOf? stream cs)

end

def ParseRecord.content? (r : ParseRecord) : Option Content :=
  r.tree.asChild.content? r.stream

namespace CommandLine

open Json

mutual

-- What was exported, if the names are those of a grammar. The span of a node is not looked at.
def readExport? (g : Grammar) : Value → Option Content
  | .obj [("children", .arr items), ("kind", .str name), ("span", _)] => do
      return .node (← g.nodeKind? name) (← readExports? g items)
  | .obj [("offset", .num (.natural offset)), ("token", .str name), ("value", .str value)] => do
      return .token ⟨← g.tokenKind? name, value, offset⟩
  | _ => none

def readExports? (g : Grammar) : List Value → Option (List Content)
  | [] => some []
  | v :: vs => do return (← readExport? g v) :: (← readExports? g vs)

end

-- The value of a child, whose nodes are nested no deeper than the fuel.
def childExport (t : Tree) (fuel : Nat) : ChildId → Value
  | .node id => nodeExport t fuel id
  | .token id => tokenExport t id

theorem nodeExport_succ (t : Tree) (fuel id : Nat) :
    nodeExport t (fuel + 1) id = .obj [("children", .arr ((t.children id).map (childExport t fuel))),
      ("kind", .str (t.nodeName id)),
      ("span", .arr [.num (.natural (t.nodeSpan id).start), .num (.natural (t.nodeSpan id).stop)])] := rfl

theorem readExport?_nodeExport {g : Grammar} {t : Tree} {fuel id kind : Nat} {children : List Content}
    (hkind : g.nodeKind? (t.nodeName id) = some kind)
    (hchildren : readExports? g ((t.children id).map (childExport t fuel)) = some children) :
    readExport? g (nodeExport t (fuel + 1) id) = some (.node kind children) := by
  rw [nodeExport_succ, readExport?, hkind, hchildren]
  rfl

theorem readExport?_tokenExport {g : Grammar} {t : Tree} {id kind : Nat}
    (hkind : g.tokenKind? (t.tokenName id) = some kind) :
    readExport? g (tokenExport t id) = some (.token ⟨kind, t.tokenValue id, t.tokenOffset id⟩) := by
  rw [tokenExport, readExport?, hkind]
  rfl

section Built

variable {g : Grammar} {source : String} {r : ParseRecord} {t : Tree}

theorem ofRecord_grammar (h : Tree.ofRecord g source r = .ok t) : t.grammar = g := by
  obtain ⟨owners, -, rfl⟩ := ofRecord_eq_ok h
  rfl

theorem ofRecord_nodeKind?_nodeName (hg : g.Made) (h : Tree.ofRecord g source r = .ok t) {id : Nat}
    {d : NodeData} (hd : t.nodes[id]? = some d) : g.nodeKind? (t.nodeName id) = some d.kind := by
  have hid : id < t.nodeCount := (Array.getElem?_eq_some_iff.mp hd).1
  obtain ⟨kind, hkind, hname⟩ := (ofRecord_nodeName_eq_iff hg h hid (t.nodeName id)).mp rfl
  rw [Tree.nodeKind?, hd] at hkind
  cases hkind
  rwa [ofRecord_grammar h] at hname

theorem ofRecord_readExport?_token (hg : g.Made) (h : Tree.ofRecord g source r = .ok t) {k : Nat}
    (hk : k < r.stream.length) :
    ∃ record, r.stream[k]? = some record ∧
      readExport? g (tokenExport t k) = some (.token record) := by
  have hpaired := hg.tables.2.paired
  have hsound := ofRecord_sound h
  rw [← ofRecord_tokenCount h] at hk
  obtain ⟨owners, hcheck, rfl⟩ := ofRecord_eq_ok h
  obtain ⟨record, owner, hrecord, hdata⟩ :=
    layout_token_data g source r owners (check_size g source r owners hcheck) hk
  obtain ⟨hshown, -⟩ := layout_tokenName hcheck hsound hg.tables.2.named hk
  rw [Tree.tokenKind?, hdata] at hshown
  have hkind := (hpaired.inverse record.kind _).mp hshown
  refine ⟨record, hrecord, ?_⟩
  rw [readExport?_tokenExport hkind, Tree.tokenValue, Tree.tokenOffset, Tree.tokenSpan, hdata]
  rfl

-- A forest is read as it is described, as long as the fuel covers its nodes and so its depth.
theorem ofRecord_readExports? (hg : g.Made) (h : Tree.ofRecord g source r = .ok t)
    (fuel : Nat) {spans : Array Span} {parent next : Nat} {cs : List ChildRecord}
    (hold : t.Holds spans parent next cs) (hodd : odditiesOf cs = [])
    (hstream : ∀ k ∈ referencesOf cs, k < r.stream.length) (hfuel : nodeCounts cs ≤ fuel) :
    ∃ contents, contentsOf? r.stream cs = some contents ∧
      readExports? g ((childIds next cs).map (childExport t fuel)) = some contents := by
  induction cs using ChildRecord.forestInduction generalizing parent next fuel with
  | nil => exact ⟨[], rfl, rfl⟩
  | token index cs ih =>
      simp only [referencesOf, ChildRecord.references, List.singleton_append, List.mem_cons,
        forall_eq_or_imp] at hstream
      obtain ⟨record, hrecord, hread⟩ := ofRecord_readExport?_token hg h hstream.1
      obtain ⟨rest, hrest, hreads⟩ := ih fuel hold.of_token (by simpa using hodd) hstream.2
        (by simpa using hfuel)
      refine ⟨.token record :: rest, ?_, ?_⟩
      · simp [contentsOf?, ChildRecord.content?, hrecord, hrest]
      · simp [readExports?, childExport, hread, hreads]
  | node kind children cs ihc ih =>
      obtain ⟨hnode, hchildren, hcs⟩ := hold.of_node
      simp only [odditiesOf, ChildRecord.oddities, List.append_eq_nil_iff] at hodd
      simp only [referencesOf, ChildRecord.references, List.mem_append] at hstream
      simp only [nodeCounts, ChildRecord.nodeCount] at hfuel
      obtain ⟨fuel, rfl⟩ : ∃ n, fuel = n + 1 := ⟨fuel - 1, by omega⟩
      obtain ⟨below, hbelow, hread⟩ :=
        ihc fuel hchildren hodd.1 (fun k hk => hstream k (.inl hk)) (by omega)
      obtain ⟨rest, hrest, hreads⟩ :=
        ih (fuel + 1) hcs hodd.2 (fun k hk => hstream k (.inr hk)) (by omega)
      rw [Nat.add_assoc] at hreads
      have hlisted : t.children next = childIds (next + 1) children := Tree.children_eq hnode
      rw [← hlisted] at hread
      have hself := readExport?_nodeExport (ofRecord_nodeKind?_nodeName hg h hnode) hread
      refine ⟨.node kind below :: rest, ?_, ?_⟩
      · simp [contentsOf?, ChildRecord.content?, hbelow, hrest]
      · simp [readExports?, childExport, hself, hreads]
  | invalid value cs ih => simp at hodd

-- The exported value of a tree reads as the description that the tree was built from.
theorem ofRecord_readExport? (hg : g.Made) (h : Tree.ofRecord g source r = .ok t) :
    ∃ content, r.content? = some content ∧ readExport? g (treeExport t) = some content := by
  have hsound := ofRecord_sound h
  have hroot : r.tree.records[0]? = some r.tree := rfl
  obtain ⟨hchildren, hold⟩ := ofRecord_node_at h hroot
  obtain ⟨children, hcontents, hreads⟩ := ofRecord_readExports? hg h t.nodeCount hold
    hsound.noOddity hsound.inStream hold.nodeCounts_le
  have hkind : g.nodeKind? (t.nodeName 0) = some r.tree.kind := by
    obtain ⟨owners, -, rfl⟩ := ofRecord_eq_ok h
    exact ofRecord_nodeKind?_nodeName hg h (layout_root g source r owners)
  rw [← hchildren] at hreads
  refine ⟨.node r.tree.kind children, ?_, readExport?_nodeExport hkind hreads⟩
  rw [ParseRecord.content?, NodeRecord.asChild, ChildRecord.content?, hcontents]
  rfl

end Built

-- Trees of one grammar that are exported alike were built from the same description: the kinds, the
-- nesting, the order of the children and the tokens in it are the same.
theorem treeExport_lossless (g : Grammar) (hg : g.Made) (source source' : String) (r r' : ParseRecord)
    (t t' : Tree) (h : Tree.ofRecord g source r = .ok t) (h' : Tree.ofRecord g source' r' = .ok t')
    (hexport : treeExport t = treeExport t') :
    ∃ content, r.content? = some content ∧ r'.content? = some content := by
  obtain ⟨content, hcontent, hread⟩ := ofRecord_readExport? hg h
  obtain ⟨other, hother, hread'⟩ := ofRecord_readExport? hg h'
  rw [hexport, hread'] at hread
  cases hread
  exact ⟨content, hcontent, hother⟩

-- The same tree twice: the second stream begins with a token that no node has.
def looseRecord : ParseRecord :=
  ⟨⟨10, [.node 11 [.token 1], .token 2, .node 11 [.node 11 [], .token 3]]⟩,
    [⟨2, "", 0⟩, ⟨1, "é", 0⟩, ⟨2, " ", 2⟩, ⟨1, "b", 3⟩]⟩

-- What both trees are exported as.
def looseExport : Value :=
  node "ROOT" 0 4 [node "STATEMENT" 0 2 [token "WORD" "é" 0], token "SPACE" " " 2,
    node "STATEMENT" 3 4 [node "STATEMENT" 0 0 [], token "WORD" "b" 3]]
where
  node (kind : String) (start stop : Nat) (children : List Value) : Value :=
    .obj [("children", .arr children), ("kind", .str kind),
      ("span", .arr [.num (.natural start), .num (.natural stop)])]
  token (kind value : String) (offset : Nat) : Value :=
    .obj [("offset", .num (.natural offset)), ("token", .str kind), ("value", .str value)]

theorem looseRecord_lossless :
    ∃ t t' content, sampleGrammar.Made ∧ Tree.ofRecord sampleGrammar "é b" sampleRecord = .ok t ∧
      Tree.ofRecord sampleGrammar "é bc" looseRecord = .ok t' ∧ treeExport t = looseExport ∧
      treeExport t' = looseExport ∧ sampleRecord.content? = some content ∧
      looseRecord.content? = some content := by
  have h : Tree.ofRecord sampleGrammar "é b" sampleRecord =
      .ok (Tree.layout sampleGrammar "é b" sampleRecord #[some 1, some 0, some 2]) := rfl
  have h' : Tree.ofRecord sampleGrammar "é bc" looseRecord =
      .ok (Tree.layout sampleGrammar "é bc" looseRecord #[none, some 1, some 0, some 2]) := rfl
  have hexport : treeExport (Tree.layout sampleGrammar "é b" sampleRecord #[some 1, some 0, some 2]) =
      looseExport := rfl
  have hexport' : treeExport (Tree.layout sampleGrammar "é bc" looseRecord
      #[none, some 1, some 0, some 2]) = looseExport := rfl
  obtain ⟨content, hcontent, hother⟩ := treeExport_lossless sampleGrammar sampleGrammar_made
    "é b" "é bc" sampleRecord looseRecord _ _ h h' (hexport.trans hexport'.symm)
  exact ⟨_, _, content, sampleGrammar_made, h, h', hexport, hexport', hcontent, hother⟩

end CommandLine

end ExternalParser
