import ExternalParser.Proofs.Tree.Tokens

namespace ExternalParser

-- What is given out until there is nothing left. Asking in a state finds a value and the state behind
-- it, or nothing.
inductive Enumerates {σ α : Type} (next : σ → Option (α × σ) → Prop) : σ → List α → Prop
  | done {s : σ} : next s none → Enumerates next s []
  | give {s s' : σ} {a : α} {as : List α} :
      next s (some (a, s')) → Enumerates next s' as → Enumerates next s (a :: as)

namespace Tree

variable {t : Tree}

-- The node on top of a stack, and the stack behind it.
def nextNode? (t : Tree) : List Nat → Option (Nat × List Nat)
  | [] => none
  | id :: stack => some (id, t.childNodes id ++ stack)

-- A walk over the nodes of a stack and those below them comes to an end with these.
def Walk (t : Tree) : List Nat → List Nat → Prop :=
  Enumerates fun stack found => t.nextNode? stack = found

theorem climb?_snoc {steps id p above : Nat} (h : t.climb? steps id = some p)
    (hp : t.nodeParent? p = some above) : t.climb? (steps + 1) id = some above := by
  induction steps generalizing id with
  | zero =>
      cases h
      rw [climb?, hp]
      rfl
  | succ steps ih =>
      obtain ⟨q, hq, hclimb⟩ := Option.bind_eq_some_iff.mp h
      rw [climb?, hq]
      exact ih hclimb

theorem childNodes_eq {id : Nat} {d : NodeData} (h : t.nodes[id]? = some d) :
    t.childNodes id = d.children.filterMap ChildId.node? := by
  rw [childNodes, children_eq h]

theorem mem_childNodes_iff {p c : Nat} : c ∈ t.childNodes p ↔ .node c ∈ t.children p := by
  rw [childNodes, List.mem_filterMap]
  constructor
  · rintro ⟨child, hchild, hc⟩
    cases child with
    | node id =>
        cases hc
        exact hchild
    | token k => cases hc
  · intro h
    exact ⟨.node c, h, rfl⟩

namespace Walk

variable {stack ids : List Nat}

theorem nil : t.Walk [] [] :=
  .done rfl

theorem cons {id : Nat} (h : t.Walk (t.childNodes id ++ stack) ids) :
    t.Walk (id :: stack) (id :: ids) :=
  .give rfl h

-- A walk is over, or it gives out the top of its stack and goes on with what is nested there.
@[elab_as_elim]
theorem induction {motive : ∀ stack ids, t.Walk stack ids → Prop} (nil : motive [] [] nil)
    (cons : ∀ id stack ids (h : t.Walk (t.childNodes id ++ stack) ids),
      motive _ ids h → motive (id :: stack) (id :: ids) h.cons)
    (h : t.Walk stack ids) : motive stack ids h := by
  unfold Walk at h
  induction h with
  | @done s hnone =>
      cases s with
      | nil => exact nil
      | cons id below => cases hnone
  | @give s s' a as hsome hrest ih =>
      cases s with
      | nil => cases hsome
      | cons top below =>
          cases hsome
          exact cons _ below as hrest ih

-- A walk with at least as much fuel as it gives out nodes is not cut short.
theorem walkNodes_eq (h : t.Walk stack ids) {fuel : Nat} (hfuel : ids.length ≤ fuel) :
    t.walkNodes fuel stack = ids := by
  induction h using Walk.induction generalizing fuel with
  | nil => cases fuel <;> rfl
  | cons id stack ids _ ih =>
      rw [List.length_cons] at hfuel
      obtain ⟨fuel, rfl⟩ : ∃ n, fuel = n + 1 := ⟨fuel - 1, by omega⟩
      rw [walkNodes, ih (by omega)]

theorem mem_of_mem_stack (h : t.Walk stack ids) {id : Nat} (hid : id ∈ stack) : id ∈ ids := by
  induction h using Walk.induction with
  | nil => exact hid
  | cons top stack ids _ ih =>
      rcases List.mem_cons.mp hid with rfl | hid
      · exact List.mem_cons_self
      · exact List.mem_cons_of_mem _ (ih (List.mem_append_right _ hid))

-- What is nested in a node that is given out is given out too.
theorem mem_of_mem_childNodes (h : t.Walk stack ids) {p c : Nat} (hp : p ∈ ids)
    (hc : c ∈ t.childNodes p) : c ∈ ids := by
  induction h using Walk.induction with
  | nil => cases hp
  | cons top stack ids hrest ih =>
      rcases List.mem_cons.mp hp with rfl | hp
      · exact List.mem_cons_of_mem _ (hrest.mem_of_mem_stack (List.mem_append_left _ hc))
      · exact List.mem_cons_of_mem _ (ih hp)

-- The way up from a node that is given out leads to one that was on the stack.
theorem exists_climb? (h : t.Walk stack ids)
    (hlinks : ∀ p c, c ∈ t.childNodes p → t.nodeParent? c = some p) {d : Nat} (hd : d ∈ ids) :
    ∃ top ∈ stack, ∃ steps, t.climb? steps d = some top := by
  induction h using Walk.induction with
  | nil => cases hd
  | cons id stack ids _ ih =>
      rcases List.mem_cons.mp hd with rfl | hd
      · exact ⟨d, List.mem_cons_self, 0, rfl⟩
      · obtain ⟨top, htop, steps, hclimb⟩ := ih hd
        rcases List.mem_append.mp htop with hnested | hbelow
        · exact ⟨id, List.mem_cons_self, steps + 1, climb?_snoc hclimb (hlinks id top hnested)⟩
        · exact ⟨top, List.mem_cons_of_mem _ hbelow, steps, hclimb⟩

theorem mem_of_climb? {id : Nat} (h : t.Walk (t.childNodes id) ids)
    (hlinks : ∀ p c, t.nodeParent? c = some p → c ∈ t.childNodes p) {steps d : Nat}
    (hd : t.climb? (steps + 1) d = some id) : d ∈ ids := by
  obtain ⟨p, hp, hclimb⟩ := Option.bind_eq_some_iff.mp hd
  have hchild := hlinks p d hp
  induction steps generalizing d p with
  | zero =>
      cases hclimb
      exact h.mem_of_mem_stack hchild
  | succ steps ih =>
      obtain ⟨q, hq, hrest⟩ := Option.bind_eq_some_iff.mp hclimb
      have hmem := ih hclimb q hq hrest (hlinks q p hq)
      exact h.mem_of_mem_childNodes hmem hchild

end Walk

end Tree

-- The nodes of a forest come out by their numbers, before those of the rest of the stack.
theorem Tree.Holds.walk {t : Tree} {spans : Array Span} {parent next : Nat} {cs : List ChildRecord}
    (h : t.Holds spans parent next cs) {stack ids : List Nat} (hrest : t.Walk stack ids) :
    t.Walk ((childIds next cs).filterMap ChildId.node? ++ stack)
      (List.range' next (nodeCounts cs) ++ ids) := by
  induction cs using ChildRecord.forestInduction generalizing parent next stack ids with
  | nil => exact hrest
  | token index cs ih =>
      rw [childIds, List.filterMap_cons_none rfl]
      simpa using ih h.of_token hrest
  | node kind children cs ihc ih =>
      obtain ⟨hnode, hchildren, hcs⟩ := h.of_node
      have hbelow := ihc hchildren (ih hcs hrest)
      rw [← Tree.childNodes_eq hnode, Nat.add_assoc next] at hbelow
      rw [childIds, List.filterMap_cons_some (f := ChildId.node?) rfl, List.cons_append, nodeCounts,
        ChildRecord.nodeCount, range'_nested, List.cons_append, List.append_assoc]
      exact Tree.Walk.cons hbelow
  | invalid value cs ih => simpa using ih h.of_invalid hrest

-- What is listed below a node with the given record.
structure Tree.Descends (t : Tree) (id : Nat) (record : NodeRecord) : Prop where
  ends : t.Walk (t.childNodes id) (t.descendants id)
  interval : t.descendants id = List.range' (id + 1) (recordsOf record.children).length
  chain : ∀ d, d ∈ t.descendants id ↔ d ≠ id ∧ ∃ steps, t.climb? steps d = some id

section Built

variable {g : Grammar} {source : String} {r : ParseRecord} {t : Tree}

theorem ofRecord_nodeParent?_iff (h : Tree.ofRecord g source r = .ok t) {p c : Nat} :
    t.nodeParent? c = some p ↔ c ∈ t.childNodes p := by
  obtain ⟨owners, -, rfl⟩ := ofRecord_eq_ok h
  rw [Tree.mem_childNodes_iff, node_mem_children_iff]

-- The children of a node are those of its record, and they stand behind the node.
theorem ofRecord_node_at (h : Tree.ofRecord g source r = .ok t) {id : Nat} {record : NodeRecord}
    (hrecord : r.tree.records[id]? = some record) :
    t.children id = childIds (id + 1) record.children ∧
      t.Holds (r.stream.map TokenRecord.span).toArray id (id + 1) record.children := by
  obtain ⟨owners, -, rfl⟩ := ofRecord_eq_ok h
  obtain ⟨hchildren, hold, -⟩ := layout_node_at g source r owners hrecord
  exact ⟨hchildren, hold⟩

theorem ofRecord_walk (h : Tree.ofRecord g source r = .ok t) {id : Nat} {record : NodeRecord}
    (hrecord : r.tree.records[id]? = some record) :
    t.Walk (t.childNodes id) (List.range' (id + 1) (nodeCounts record.children)) := by
  obtain ⟨hchildren, hold⟩ := ofRecord_node_at h hrecord
  have hwalk := hold.walk Tree.Walk.nil
  rwa [List.append_nil, List.append_nil, ← hchildren] at hwalk

theorem ofRecord_descendants (h : Tree.ofRecord g source r = .ok t) {id : Nat} {record : NodeRecord}
    (hrecord : r.tree.records[id]? = some record) :
    t.descendants id = List.range' (id + 1) (nodeCounts record.children) := by
  obtain ⟨-, hold⟩ := ofRecord_node_at h hrecord
  apply (ofRecord_walk h hrecord).walkNodes_eq
  rw [List.length_range']
  exact hold.nodeCounts_le

-- The nodes whose way up leads through a node are those below it, and the node itself.
theorem ofRecord_climbs_iff (h : Tree.ofRecord g source r = .ok t) {id d : Nat}
    (hid : id < t.nodeCount) :
    (∃ steps, t.climb? steps d = some id) ↔ d = id ∨ d ∈ t.descendants id := by
  obtain ⟨record, hrecord⟩ := ofRecord_record_at h hid
  have hwalk := ofRecord_walk h hrecord
  rw [← ofRecord_descendants h hrecord] at hwalk
  constructor
  · rintro ⟨steps, hclimb⟩
    cases steps with
    | zero =>
        cases hclimb
        exact .inl rfl
    | succ steps =>
        right
        exact hwalk.mem_of_climb? (fun p c => (ofRecord_nodeParent?_iff h).mp) hclimb
  · rintro (rfl | hd)
    · exact ⟨0, rfl⟩
    · obtain ⟨top, htop, steps, hclimb⟩ :=
        hwalk.exists_climb? (fun p c => (ofRecord_nodeParent?_iff h).mpr) hd
      exact ⟨steps + 1, Tree.climb?_snoc hclimb ((ofRecord_nodeParent?_iff h).mpr htop)⟩

end Built

-- The walk below a node of a built tree ends, and it lists the numbers behind that of the node.
theorem ofRecord_descends (g : Grammar) (source : String) (r : ParseRecord) (t : Tree)
    (h : Tree.ofRecord g source r = .ok t) :
    (∀ id < t.nodeCount, ∃ record, r.tree.records[id]? = some record ∧ t.Descends id record) ∧
      t.descendants 0 = List.range' 1 (t.nodeCount - 1) := by
  constructor
  · intro id hid
    obtain ⟨record, hrecord⟩ := ofRecord_record_at h hid
    have hbelow := ofRecord_descendants h hrecord
    refine ⟨record, hrecord, ?_, ?_, ?_⟩
    · rw [hbelow]
      exact ofRecord_walk h hrecord
    · rw [hbelow, length_recordsOf]
    · intro d
      have hself : id ∉ t.descendants id := by
        rw [hbelow, List.mem_range'_1]
        omega
      rw [ofRecord_climbs_iff h hid]
      constructor
      · intro hd
        exact ⟨fun heq => hself (heq ▸ hd), .inr hd⟩
      · rintro ⟨hne, heq | hd⟩
        · exact absurd heq hne
        · exact hd
  · have hcount : t.nodeCount = nodeCounts r.tree.children + 1 := by
      obtain ⟨owners, -, rfl⟩ := ofRecord_eq_ok h
      rw [layout_nodeCount, NodeRecord.records, List.length_cons, length_recordsOf]
    rw [ofRecord_descendants h rfl, hcount]
    rfl

-- A token stands between the two nodes of the root, and the second of them has a node of its own.
theorem nestedSample_descends :
    ∃ t, Tree.ofRecord sampleGrammar "é bc" nestedSample = .ok t ∧ t.descendants 0 = [1, 2, 3] ∧
      t.Descends 2 ⟨11, [.node 11 [.token 3]]⟩ ∧ t.descendants 2 = [3] := by
  have h : Tree.ofRecord sampleGrammar "é bc" nestedSample =
      .ok (Tree.layout sampleGrammar "é bc" nestedSample #[some 1, some 0, none, some 3]) := rfl
  obtain ⟨hnodes, hroot⟩ := ofRecord_descends _ _ _ _ h
  obtain ⟨record, hrecord, hdescends⟩ := hnodes 2 (by decide)
  cases hrecord
  exact ⟨_, h, hroot, hdescends, hdescends.interval⟩

end ExternalParser
