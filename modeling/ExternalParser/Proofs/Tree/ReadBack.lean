import ExternalParser.Proofs.Tree.Acceptance
import ExternalParser.Tree.Query

namespace ExternalParser

-- The child that a position stands for, given what the nodes read as.
def ChildId.read (node : Nat → Option NodeRecord) : ChildId → Option ChildRecord
  | .token id => some (.token id)
  | .node id => (node id).map NodeRecord.asChild

-- The record of a node and of all below it, as long as they are not nested deeper than the fuel.
def Tree.readNode (t : Tree) : Nat → Nat → Option NodeRecord
  | 0, _ => none
  | fuel + 1, id => do
      let d ← t.nodes[id]?
      return ⟨d.kind, ← d.children.mapM (ChildId.read (t.readNode fuel))⟩

def TokenData.record (d : TokenData) : TokenRecord :=
  ⟨d.kind, d.value, d.span.start⟩

-- The nodes that a walk meets from left to right among children and below them: each before those below
-- it, and these before what follows it.
inductive Tree.Meets (t : Tree) : List ChildId → List Nat → Prop
  | nil : Meets t [] []
  | token {k : Nat} {cs : List ChildId} {ids : List Nat} : Meets t cs ids → Meets t (.token k :: cs) ids
  | node {id : Nat} {d : NodeData} {cs : List ChildId} {below ids : List Nat} :
      t.nodes[id]? = some d → Meets t d.children below → Meets t cs ids →
      Meets t (.node id :: cs) (id :: (below ++ ids))

attribute [simp] childIds ChildRecord.nodes nodesOf

theorem length_nodesOf (spans : Array Span) (parent next : Nat) (cs : List ChildRecord) :
    (nodesOf spans parent next cs).length = nodeCounts cs := by
  induction cs using ChildRecord.forestInduction generalizing parent next with
  | nil => rfl
  | token index cs ih => simp [ih]
  | node kind children cs ihc ih =>
      simp only [nodesOf, ChildRecord.nodes, ChildRecord.nodeCount, nodeCounts, List.cons_append,
        List.length_cons, List.length_append, ihc, ih]
      omega
  | invalid value cs ih => simp [ih]

-- The nodes of a forest of children of `parent` fill the arena from `next` on.
def Tree.Holds (t : Tree) (spans : Array Span) (parent next : Nat) (cs : List ChildRecord) : Prop :=
  nodesOf spans parent next cs <+: t.nodes.toList.drop next

namespace Tree.Holds

variable {t : Tree} {spans : Array Span} {parent next : Nat} {cs : List ChildRecord}

theorem of_token {index : Nat} (h : t.Holds spans parent next (.token index :: cs)) :
    t.Holds spans parent next cs := by
  simpa [Tree.Holds] using h

theorem of_invalid {value : Json.Value} (h : t.Holds spans parent next (.invalid value :: cs)) :
    t.Holds spans parent next cs := by
  simpa [Tree.Holds] using h

-- A nested record stands at `next`, its children right behind it, and then the rest.
theorem of_node {kind : Nat} {children : List ChildRecord}
    (h : t.Holds spans parent next (.node kind children :: cs)) :
    t.nodes[next]? =
        some ⟨kind, some parent, childIds (next + 1) children, spansOf spans children⟩ ∧
      t.Holds spans next (next + 1) children ∧
      t.Holds spans parent (next + 1 + nodeCounts children) cs := by
  obtain ⟨rest, hrest⟩ := h
  simp only [nodesOf, ChildRecord.nodes, ChildRecord.nodeCount, List.cons_append] at hrest
  have htail : t.nodes.toList.drop (next + 1) =
      nodesOf spans next (next + 1) children ++
        (nodesOf spans parent (next + 1 + nodeCounts children) cs ++ rest) := by
    rw [← List.tail_drop, ← hrest, List.tail_cons, List.append_assoc, Nat.add_assoc]
  refine ⟨?_, ⟨_, htail.symm⟩, rest, ?_⟩
  · have hhead := congrArg List.head? hrest
    simpa using hhead.symm
  · rw [← List.drop_drop, htail, List.drop_left' (length_nodesOf ..)]

end Tree.Holds

theorem Tree.readNode_succ {t : Tree} {fuel id : Nat} {d : NodeData} {children : List ChildRecord}
    (hnode : t.nodes[id]? = some d)
    (hread : d.children.mapM (ChildId.read (t.readNode fuel)) = some children) :
    t.readNode (fuel + 1) id = some ⟨d.kind, children⟩ := by
  simp [Tree.readNode, hnode, hread]

-- The fuel covers the nodes of the forest, and so its depth.
theorem read_childIds (t : Tree) (spans : Array Span) (parent next fuel : Nat)
    (cs : List ChildRecord) (hold : t.Holds spans parent next cs) (hodd : odditiesOf cs = [])
    (hfuel : nodeCounts cs ≤ fuel) :
    (childIds next cs).mapM (ChildId.read (t.readNode fuel)) = some cs := by
  induction cs using ChildRecord.forestInduction generalizing parent next fuel with
  | nil => rfl
  | token index cs ih =>
      have hrest := ih parent next fuel hold.of_token (by simpa using hodd) (by simpa using hfuel)
      simp [ChildId.read, hrest]
  | node kind children cs ihc ih =>
      obtain ⟨hnode, hchildren, hcs⟩ := hold.of_node
      simp only [odditiesOf, ChildRecord.oddities, List.append_eq_nil_iff] at hodd
      simp only [nodeCounts, ChildRecord.nodeCount] at hfuel
      obtain ⟨fuel, rfl⟩ : ∃ n, fuel = n + 1 := ⟨fuel - 1, by omega⟩
      have hbelow := ihc next (next + 1) fuel hchildren hodd.1 (by omega)
      have hrest := ih parent _ (fuel + 1) hcs hodd.2 (by omega)
      rw [Nat.add_assoc] at hrest
      simp [ChildId.read, Tree.readNode_succ hnode hbelow, hrest, NodeRecord.asChild]
  | invalid value cs ih => simp at hodd

-- The numbers from `next` on are the positions in the list of the forest's records.
theorem readNode_recordsOf (t : Tree) (spans : Array Span) (parent next fuel : Nat)
    (cs : List ChildRecord) (hold : t.Holds spans parent next cs) (hodd : odditiesOf cs = [])
    (hfuel : nodeCounts cs ≤ fuel) (i : Nat) (hi : i < nodeCounts cs) :
    t.readNode fuel (next + i) = (recordsOf cs)[i]? := by
  induction cs using ChildRecord.forestInduction generalizing parent next i with
  | nil => simp at hi
  | token index cs ih =>
      simpa using ih parent next hold.of_token (by simpa using hodd) (by simpa using hfuel) i
        (by simpa using hi)
  | node kind children cs ihc ih =>
      obtain ⟨hnode, hchildren, hcs⟩ := hold.of_node
      simp only [odditiesOf, ChildRecord.oddities, List.append_eq_nil_iff] at hodd
      simp only [nodeCounts, ChildRecord.nodeCount] at hfuel hi
      have hlen := length_recordsOf children
      simp only [recordsOf, ChildRecord.records, List.cons_append]
      cases i with
      | zero =>
          obtain ⟨fuel, rfl⟩ : ∃ n, fuel = n + 1 := ⟨fuel - 1, by omega⟩
          exact Tree.readNode_succ hnode
            (read_childIds t spans next (next + 1) fuel children hchildren hodd.1 (by omega))
      | succ i =>
          rw [List.getElem?_cons_succ]
          by_cases hin : i < nodeCounts children
          · rw [List.getElem?_append_left (by omega), ← ihc next (next + 1) hchildren hodd.1
              (by omega) i hin]
            congr 1
            omega
          · rw [List.getElem?_append_right (by omega), hlen, ← ih parent _ hcs hodd.2 (by omega)
              (i - nodeCounts children) (by omega)]
            congr 1
            omega
  | invalid value cs ih => simp at hodd

-- The numbers of a nested record, of those below it and of those behind it.
theorem range'_nested (next below behind : Nat) :
    List.range' next (1 + below + behind) =
      next :: (List.range' (next + 1) below ++ List.range' (next + (1 + below)) behind) := by
  rw [← Nat.add_assoc next 1, List.range'_append_1, Nat.add_assoc 1, Nat.add_comm 1]
  rfl

namespace Tree

-- The nodes of a list of children can be met in one way only.
theorem Meets.unique {t : Tree} {cs : List ChildId} {ids others : List Nat} (h : t.Meets cs ids)
    (h' : t.Meets cs others) : ids = others := by
  induction h generalizing others with
  | nil =>
      cases h'
      rfl
  | token _ ih =>
      cases h' with
      | token h' => exact ih h'
  | node hd _ _ ihbelow ih =>
      cases h' with
      | node hd' hbelow' h' =>
          cases hd.symm.trans hd'
          rw [ihbelow hbelow', ih h']

-- The nodes of a forest are met in the order in which they stand.
theorem Holds.meets {t : Tree} {spans : Array Span} {parent next : Nat} {cs : List ChildRecord}
    (h : t.Holds spans parent next cs) :
    t.Meets (childIds next cs) (List.range' next (nodeCounts cs)) := by
  induction cs using ChildRecord.forestInduction generalizing parent next with
  | nil => exact .nil
  | token index cs ih => simpa using (ih h.of_token).token
  | node kind children cs ihc ih =>
      obtain ⟨hnode, hchildren, hcs⟩ := h.of_node
      have hmeets := Meets.node hnode (ihc hchildren) (ih hcs)
      rw [Nat.add_assoc, ← range'_nested] at hmeets
      exact hmeets
  | invalid value cs ih => simpa using ih h.of_invalid

end Tree

-- The walk gives tokens to nodes; it makes and drops none.
theorem walk_size (g : Grammar) (owners final : Owners) (visits : List Visit)
    (h : visits.foldlM (Visit.check g) owners = .ok final) : final.size = owners.size := by
  induction visits generalizing owners with
  | nil =>
      cases h
      rfl
  | cons v visits ih =>
      simp only [List.foldlM_cons, bind, Except.bind] at h
      split at h
      · cases h
      · rename_i next hnext
        rw [ih next h]
        cases v with
        | node id kind =>
            simp only [Visit.check] at hnext
            split at hnext <;> cases hnext
            rfl
        | token parent index =>
            simp only [Visit.check] at hnext
            split at hnext <;> cases hnext
            exact Array.size_setIfInBounds
        | invalid parent value => cases hnext

theorem check_size (g : Grammar) (source : String) (r : ParseRecord) (owners : Owners)
    (h : r.check g source = .ok owners) : owners.size = r.stream.length := by
  rw [ParseRecord.check] at h
  split at h
  · cases h
  · simpa using walk_size g _ owners r.tree.visits h

theorem layout_records (g : Grammar) (source : String) (r : ParseRecord) (owners : Owners)
    (hsize : owners.size = r.stream.length) :
    (Tree.layout g source r owners).tokens.toList.map TokenData.record = r.stream := by
  apply List.ext_getElem
  · simp [Tree.layout, hsize]
  · intro i _ _
    simp [Tree.layout, TokenData.record, TokenRecord.span]

theorem layout_holds (g : Grammar) (source : String) (r : ParseRecord) (owners : Owners) :
    (Tree.layout g source r owners).Holds (r.stream.map TokenRecord.span).toArray 0 1
      r.tree.children := by
  simp [Tree.Holds, Tree.layout, NodeRecord.nodes]

theorem layout_root (g : Grammar) (source : String) (r : ParseRecord) (owners : Owners) :
    (Tree.layout g source r owners).nodes[0]? =
      some ⟨r.tree.kind, none, childIds 1 r.tree.children,
        spansOf (r.stream.map TokenRecord.span).toArray r.tree.children⟩ := by
  simp [Tree.layout, NodeRecord.nodes]

theorem layout_nodeCount (g : Grammar) (source : String) (r : ParseRecord) (owners : Owners) :
    (Tree.layout g source r owners).nodeCount = r.tree.records.length := by
  simp [Tree.nodeCount, Tree.layout, NodeRecord.nodes, NodeRecord.records, length_nodesOf,
    length_recordsOf]

theorem layout_readNode (g : Grammar) (source : String) (r : ParseRecord) (owners : Owners)
    (hodd : r.tree.oddities = []) (id : Nat) :
    (Tree.layout g source r owners).readNode r.tree.records.length id = r.tree.records[id]? := by
  have hold := layout_holds g source r owners
  have hcount := length_recordsOf r.tree.children
  simp only [NodeRecord.records, List.length_cons, hcount]
  cases id with
  | zero =>
      exact Tree.readNode_succ (layout_root g source r owners)
        (read_childIds _ _ _ _ _ _ hold hodd (Nat.le_refl _))
  | succ i =>
      by_cases hi : i < nodeCounts r.tree.children
      · have hread := readNode_recordsOf _ _ _ _ _ _ hold hodd (Nat.le_succ _) i hi
        rwa [Nat.add_comm] at hread
      · have hout : (Tree.layout g source r owners).nodes[i + 1]? = none := by
          have hn := layout_nodeCount g source r owners
          simp only [Tree.nodeCount, NodeRecord.records, List.length_cons, hcount] at hn
          exact Array.getElem?_eq_none (by omega)
        rw [List.getElem?_eq_none (by simp only [List.length_cons, hcount]; omega)]
        simp [Tree.readNode, hout]

theorem ofRecord_eq_ok {g : Grammar} {source : String} {r : ParseRecord} {t : Tree}
    (h : Tree.ofRecord g source r = .ok t) :
    ∃ owners, r.check g source = .ok owners ∧ t = Tree.layout g source r owners := by
  rw [Tree.ofRecord] at h
  cases hc : r.check g source with
  | ok owners =>
      rw [hc] at h
      exact ⟨owners, rfl, (Except.ok.inj h).symm⟩
  | error d =>
      rw [hc] at h
      cases h

-- The walk from the root meets every node, once and by its number.
theorem layout_meets (g : Grammar) (source : String) (r : ParseRecord) (owners : Owners) :
    (Tree.layout g source r owners).Meets [.node 0]
      (List.range (Tree.layout g source r owners).nodeCount) := by
  have hmeets := Tree.Meets.node (layout_root g source r owners) (layout_holds g source r owners).meets .nil
  rw [List.append_nil] at hmeets
  rwa [layout_nodeCount, NodeRecord.records, List.length_cons, length_recordsOf,
    List.range_eq_range', List.range'_succ]

-- A tree reads back as the record that it was built from: the root as the nested description, every
-- node as the record at its position in the walk, and the tokens as the stream. The walk from the root
-- meets the nodes by their numbers, so that no node stands in two places and none is left out.
theorem ofRecord_reads_back (g : Grammar) (source : String) (r : ParseRecord) (t : Tree)
    (h : Tree.ofRecord g source r = .ok t) :
    t.readNode t.nodeCount 0 = some r.tree ∧
      t.tokens.toList.map TokenData.record = r.stream ∧
      t.nodeCount = r.tree.records.length ∧
      (∀ id, t.readNode t.nodeCount id = r.tree.records[id]?) ∧
      ∀ ids, t.Meets [.node 0] ids ↔ ids = List.range t.nodeCount := by
  obtain ⟨owners, hcheck, rfl⟩ := ofRecord_eq_ok h
  have hsound := (check_ok_iff_sound g source r).mp ⟨owners, hcheck⟩
  have hread := layout_readNode g source r owners hsound.noOddity
  have hmeets := layout_meets g source r owners
  rw [← layout_nodeCount g source r owners] at hread
  refine ⟨hread 0, layout_records g source r owners (check_size g source r owners hcheck),
    layout_nodeCount g source r owners, hread, ?_⟩
  intro ids
  constructor
  · intro hids
    exact hids.unique hmeets
  · rintro rfl
    exact hmeets

def sampleGrammar : Grammar :=
  ⟨"sample", ⟨[(10, "ROOT"), (11, "STATEMENT")]⟩, ⟨[(1, "WORD"), (2, "SPACE")]⟩, 11, "", ";", [2]⟩

def sampleRecord : ParseRecord :=
  ⟨⟨10, [.node 11 [.token 0], .token 1, .node 11 [.node 11 [], .token 2]]⟩,
    [⟨1, "é", 0⟩, ⟨2, " ", 2⟩, ⟨1, "b", 3⟩]⟩

-- The third record of the walk is the one with a nested record and a token.
theorem sampleRecord_reads_back :
    ∃ t, Tree.ofRecord sampleGrammar "é b" sampleRecord = .ok t ∧
      t.readNode t.nodeCount 0 = some sampleRecord.tree ∧
      t.tokens.toList.map TokenData.record = sampleRecord.stream ∧
      t.nodeCount = 4 ∧
      t.readNode t.nodeCount 2 = some ⟨11, [.node 11 [], .token 2]⟩ ∧
      t.Meets [.node 0] [0, 1, 2, 3] := by
  have h : Tree.ofRecord sampleGrammar "é b" sampleRecord =
      .ok (Tree.layout sampleGrammar "é b" sampleRecord #[some 1, some 0, some 2]) := rfl
  obtain ⟨hroot, htokens, hcount, hread, hmeets⟩ := ofRecord_reads_back _ _ _ _ h
  exact ⟨_, h, hroot, htokens, hcount, hread 2, (hmeets _).mpr rfl⟩

end ExternalParser
