import ExternalParser.Proofs.Tree.ReadBack
import Mathlib.Data.List.Nodup

namespace ExternalParser

mutual

-- The node records in a child, each with the number of records around it. There are `depth` around
-- the child itself.
def ChildRecord.nested (depth : Nat) : ChildRecord → List (Nat × NodeRecord)
  | .node kind children => (depth, ⟨kind, children⟩) :: nestedOf (depth + 1) children
  | .token _ | .invalid _ => []

def nestedOf (depth : Nat) : List ChildRecord → List (Nat × NodeRecord)
  | [] => []
  | c :: cs => c.nested depth ++ nestedOf depth cs

end

def NodeRecord.nested (r : NodeRecord) : List (Nat × NodeRecord) :=
  (0, r) :: nestedOf 1 r.children

attribute [simp] ChildRecord.nested nestedOf

theorem map_snd_nestedOf (depth : Nat) (cs : List ChildRecord) :
    (nestedOf depth cs).map Prod.snd = recordsOf cs := by
  induction cs using ChildRecord.forestInduction generalizing depth with
  | nil => rfl
  | token index cs ih => simpa using ih depth
  | node kind children cs ihc ih => simp [ihc, ih]
  | invalid value cs ih => simpa using ih depth

theorem length_nestedOf (depth : Nat) (cs : List ChildRecord) :
    (nestedOf depth cs).length = nodeCounts cs := by
  rw [← length_recordsOf, ← map_snd_nestedOf depth, List.length_map]

namespace Tree

def parentOf? (t : Tree) : ChildId → Option Nat
  | .node id => t.nodeParent? id
  | .token id => t.tokenParent? id

-- The child lists of all nodes, one after the other.
def allChildren (t : Tree) : List ChildId :=
  (List.range t.nodeCount).flatMap t.children

-- Where a number of steps up from a node leads.
def climb? (t : Tree) : Nat → Nat → Option Nat
  | 0, id => some id
  | steps + 1, id => (t.nodeParent? id).bind (t.climb? steps)

theorem children_eq {t : Tree} {id : Nat} {d : NodeData} (h : t.nodes[id]? = some d) :
    t.children id = d.children := by
  simp [children, h]

theorem nodeParent?_eq {t : Tree} {id : Nat} {d : NodeData} (h : t.nodes[id]? = some d) :
    t.nodeParent? id = d.parent := by
  simp [nodeParent?, h]

theorem allChildren_eq (t : Tree) :
    t.allChildren = t.nodes.toList.flatMap (·.children) := by
  rw [allChildren, nodeCount, List.flatMap_def, List.flatMap_def]
  congr 1
  apply List.ext_getElem
  · simp
  · intro i hi _
    simp only [List.length_map, List.length_range] at hi
    simp [children, hi]

theorem children_sublist_allChildren (t : Tree) {p : Nat} {child : ChildId}
    (h : child ∈ t.children p) : (t.children p).Sublist t.allChildren := by
  have hp : p < t.nodeCount := by
    by_contra hout
    have hnone : t.nodes[p]? = none := Array.getElem?_eq_none (Nat.le_of_not_lt hout)
    simp [children, hnone] at h
  rw [allChildren, List.flatMap_def]
  exact List.sublist_flatten_of_mem (List.mem_map_of_mem (List.mem_range.mpr hp))

end Tree

-- What a forest of children of `parent` lists: its own children and those of all nodes below.
def listedOf (spans : Array Span) (parent next : Nat) (cs : List ChildRecord) : List ChildId :=
  childIds next cs ++ (nodesOf spans parent next cs).flatMap (·.children)

-- The lists below a nested record stand between the forest's own list and those of the rest.
theorem listedOf_node_perm (spans : Array Span) (parent next kind : Nat)
    (children cs : List ChildRecord) :
    (listedOf spans parent next (.node kind children :: cs)).Perm
      (.node next :: (listedOf spans next (next + 1) children ++
        listedOf spans parent (next + (1 + nodeCounts children)) cs)) := by
  simp only [listedOf, childIds, nodesOf, ChildRecord.nodes, ChildRecord.nodeCount,
    List.cons_append, List.flatMap_cons, List.flatMap_append]
  have hswap : ∀ own below rest : List ChildId,
      (own ++ (below ++ rest)).Perm (below ++ (own ++ rest)) := by
    intro own below rest
    rw [← List.append_assoc, ← List.append_assoc]
    exact List.perm_append_comm.append_right rest
  rw [← List.append_assoc (childIds (next + 1) children)]
  exact (hswap _ _ _).cons _

-- The lists of a forest hold every position that it refers to and the number of each of its nodes.
theorem listedOf_perm (spans : Array Span) (parent next : Nat) (cs : List ChildRecord) :
    ((listedOf spans parent next cs).filterMap ChildId.token?).Perm (referencesOf cs) ∧
      ((listedOf spans parent next cs).filterMap ChildId.node?).Perm
        (List.range' next (nodeCounts cs)) := by
  induction cs using ChildRecord.forestInduction generalizing parent next with
  | nil => simp [listedOf]
  | token index cs ih =>
      obtain ⟨ht, hn⟩ := ih parent next
      constructor
      · simpa [listedOf, ChildId.token?, List.filterMap_cons] using ht
      · simpa [listedOf, ChildId.node?, List.filterMap_cons] using hn
  | node kind children cs ihc ih =>
      obtain ⟨htc, hnc⟩ := ihc next (next + 1)
      obtain ⟨ht, hn⟩ := ih parent (next + (1 + nodeCounts children))
      have hlisted := listedOf_node_perm spans parent next kind children cs
      constructor
      · refine (hlisted.filterMap ChildId.token?).trans ?_
        rw [List.filterMap_cons, List.filterMap_append]
        exact htc.append ht
      · refine (hlisted.filterMap ChildId.node?).trans ?_
        rw [List.filterMap_cons, List.filterMap_append, nodeCounts, ChildRecord.nodeCount,
          range'_nested]
        exact (hnc.append hn).cons next
  | invalid value cs ih =>
      obtain ⟨ht, hn⟩ := ih parent next
      constructor
      · simpa [listedOf] using ht
      · simpa [listedOf] using hn

theorem count_filterMap_token? (k : Nat) (children : List ChildId) :
    children.count (.token k) = (children.filterMap ChildId.token?).count k := by
  induction children with
  | nil => rfl
  | cons child children ih =>
      cases child with
      | node id => simpa [ChildId.token?, List.filterMap_cons] using ih
      | token id => simp [ChildId.token?, List.count_cons, ih]

theorem count_filterMap_node? (c : Nat) (children : List ChildId) :
    children.count (.node c) = (children.filterMap ChildId.node?).count c := by
  induction children with
  | nil => rfl
  | cons child children ih =>
      cases child with
      | node id => simp [ChildId.node?, List.count_cons, ih]
      | token id => simpa [ChildId.node?, List.filterMap_cons] using ih

namespace Tree.Holds

variable {t : Tree} {spans : Array Span} {parent next : Nat} {cs : List ChildRecord}

theorem nodeParent?_of_mem (h : t.Holds spans parent next cs) {c : Nat}
    (hc : ChildId.node c ∈ childIds next cs) : t.nodeParent? c = some parent := by
  induction cs using ChildRecord.forestInduction generalizing next with
  | nil => simp at hc
  | token index cs ih => exact ih h.of_token (by simpa using hc)
  | node kind children cs _ ih =>
      obtain ⟨hnode, -, hcs⟩ := h.of_node
      simp only [childIds, ChildRecord.nodeCount, List.mem_cons, ChildId.node.injEq] at hc
      rcases hc with rfl | hc
      · exact Tree.nodeParent?_eq hnode
      · rw [← Nat.add_assoc] at hc
        exact ih hcs hc
  | invalid value cs ih => exact ih h.of_invalid (by simpa using hc)

-- A record stands at its number with its children behind it. Its parent is the forest's or a node
-- before it, and lists it.
theorem node_at (h : t.Holds spans parent next cs) {id : Nat} {record : NodeRecord}
    (hid : (record, id) ∈ (recordsOf cs).zipIdx next) :
    t.children id = childIds (id + 1) record.children ∧
      t.Holds spans id (id + 1) record.children ∧
      ∃ p, t.nodeParent? id = some p ∧
        (p = parent ∧ .node id ∈ childIds next cs ∨
          next ≤ p ∧ p < id ∧ .node id ∈ t.children p) := by
  induction cs using ChildRecord.forestInduction generalizing parent next with
  | nil => simp at hid
  | token index cs ih =>
      obtain ⟨hchildren, hbelow, p, hp, hlink⟩ := ih h.of_token (by simpa using hid)
      refine ⟨hchildren, hbelow, p, hp, ?_⟩
      simpa using hlink
  | node kind children cs ihc ih =>
      obtain ⟨hnode, hchildren, hcs⟩ := h.of_node
      simp only [recordsOf, ChildRecord.records, List.cons_append, List.zipIdx_cons,
        List.zipIdx_append, List.mem_cons, List.mem_append, Prod.mk.injEq, length_recordsOf] at hid
      simp only [childIds, List.mem_cons, ChildId.node.injEq]
      rcases hid with ⟨rfl, rfl⟩ | hid | hid
      · exact ⟨Tree.children_eq hnode, hchildren, parent, Tree.nodeParent?_eq hnode,
          .inl ⟨rfl, .inl rfl⟩⟩
      · obtain ⟨hown, hbelow, p, hp, hlink⟩ := ihc hchildren hid
        refine ⟨hown, hbelow, p, hp, .inr ?_⟩
        have hle := List.le_snd_of_mem_zipIdx hid
        rcases hlink with ⟨rfl, hmem⟩ | ⟨hle', hlt, hmem⟩
        · exact ⟨Nat.le_refl _, hle, by rwa [Tree.children_eq hnode]⟩
        · exact ⟨by omega, hlt, hmem⟩
      · obtain ⟨hown, hbelow, p, hp, hlink⟩ := ih hcs hid
        refine ⟨hown, hbelow, p, hp, ?_⟩
        rcases hlink with ⟨rfl, hmem⟩ | ⟨hle, hlt, hmem⟩
        · rw [Nat.add_assoc] at hmem
          exact .inl ⟨rfl, .inr hmem⟩
        · exact .inr ⟨by omega, hlt, hmem⟩
  | invalid value cs ih =>
      obtain ⟨hchildren, hbelow, p, hp, hlink⟩ := ih h.of_invalid (by simpa using hid)
      refine ⟨hchildren, hbelow, p, hp, ?_⟩
      simpa using hlink

-- One step up leads from a forest to its parent, so the way up grows with the nesting.
theorem climb?_of_nested (h : t.Holds spans parent next cs) {depth : Nat}
    (hparent : t.climb? depth parent = some 0) {id steps : Nat} {record : NodeRecord}
    (hid : ((steps, record), id) ∈ (nestedOf (depth + 1) cs).zipIdx next) :
    t.climb? steps id = some 0 := by
  induction cs using ChildRecord.forestInduction generalizing parent next depth with
  | nil => simp at hid
  | token index cs ih => exact ih h.of_token hparent (by simpa using hid)
  | node kind children cs ihc ih =>
      obtain ⟨hnode, hchildren, hcs⟩ := h.of_node
      have hup : t.climb? (depth + 1) next = some 0 := by
        simp [Tree.climb?, Tree.nodeParent?_eq hnode, hparent]
      simp only [nestedOf, ChildRecord.nested, List.cons_append, List.zipIdx_cons,
        List.zipIdx_append, List.mem_cons, List.mem_append, Prod.mk.injEq, length_nestedOf] at hid
      rcases hid with ⟨⟨rfl, rfl⟩, rfl⟩ | hid | hid
      · exact hup
      · exact ihc hchildren hup hid
      · exact ih hcs hparent hid
  | invalid value cs ih => exact ih h.of_invalid hparent (by simpa using hid)

end Tree.Holds

-- A walk that gets through gives each token that it meets to the node that refers to it, and leaves
-- the others alone.
theorem walk_owner_iff (g : Grammar) (owners final : Owners) (visits : List Visit)
    (h : visits.foldlM (Visit.check g) owners = .ok final) (k p : Nat) :
    final[k]? = some (some p) ↔ owners[k]? = some (some p) ∨ Visit.token p k ∈ visits := by
  induction visits generalizing owners with
  | nil =>
      cases h
      simp
  | cons v visits ih =>
      simp only [List.foldlM_cons, bind, Except.bind] at h
      split at h
      · cases h
      · rename_i given hgiven
        rw [ih given h, List.mem_cons]
        cases v with
        | node id kind =>
            simp only [Visit.check] at hgiven
            split at hgiven <;> cases hgiven
            simp
        | token parent index =>
            simp only [Visit.check] at hgiven
            split at hgiven <;> cases hgiven
            rename_i hfree
            obtain ⟨hlt, -⟩ := Array.getElem?_eq_some_iff.mp hfree
            rw [Array.getElem?_setIfInBounds]
            by_cases hk : index = k
            · subst hk
              rw [if_pos rfl, if_pos hlt, hfree]
              simp [eq_comm]
            · simp [hk, Ne.symm hk]
        | invalid parent value => cases hgiven

-- The walk meets a position right below the number of the record that refers to it.
theorem token_mem_visitsOf_iff (parent next p k : Nat) (cs : List ChildRecord) :
    Visit.token p k ∈ visitsOf parent next cs ↔
      p = parent ∧ .token k ∈ cs ∨
        ∃ record, (record, p) ∈ (recordsOf cs).zipIdx next ∧ .token k ∈ record.children := by
  induction cs using ChildRecord.forestInduction generalizing parent next with
  | nil => simp
  | token index cs ih =>
      simp only [visitsOf, ChildRecord.visits, ChildRecord.nodeCount, recordsOf, ChildRecord.records,
        List.nil_append, List.singleton_append, List.mem_cons, Visit.token.injEq,
        ChildRecord.token.injEq, Nat.add_zero, ih, and_or_left, or_assoc]
  | node kind children cs ihc ih =>
      simp only [visitsOf, ChildRecord.visits, ChildRecord.nodeCount, recordsOf, ChildRecord.records,
        List.cons_append, List.mem_cons, List.mem_append, reduceCtorEq, false_or, ihc, ih,
        List.zipIdx_cons, List.zipIdx_append, length_recordsOf, Prod.mk.injEq, or_and_right,
        exists_or, and_assoc, exists_eq_left, Nat.add_assoc]
      rw [or_left_comm, or_assoc]
  | invalid value cs ih => simp [ih parent next]

theorem mem_referencesOf_iff (parent next : Nat) {k : Nat} {cs : List ChildRecord} :
    k ∈ referencesOf cs ↔ ∃ p, Visit.token p k ∈ visitsOf parent next cs := by
  obtain ⟨-, hindex, -⟩ := visitsOf_contents parent next cs
  rw [← hindex, List.mem_filterMap]
  constructor
  · rintro ⟨v, hv, hk⟩
    cases v with
    | token p index =>
        cases hk
        exact ⟨p, hv⟩
    | node id kind => cases hk
    | invalid p value => cases hk
  · rintro ⟨p, hp⟩
    exact ⟨_, hp, rfl⟩

theorem getElem?_records_eq_some_iff (r record : NodeRecord) (id : Nat) :
    r.records[id]? = some record ↔
      record = r ∧ id = 0 ∨ (record, id) ∈ (recordsOf r.children).zipIdx 1 := by
  rw [← List.mk_mem_zipIdx_iff_getElem?, NodeRecord.records, List.zipIdx_cons, List.mem_cons,
    Prod.mk.injEq]

theorem token_mem_visits_iff (r : NodeRecord) (p k : Nat) :
    Visit.token p k ∈ r.visits ↔
      ∃ record, r.records[p]? = some record ∧ .token k ∈ record.children := by
  simp only [getElem?_records_eq_some_iff, NodeRecord.visits, List.mem_cons, reduceCtorEq, false_or,
    token_mem_visitsOf_iff, or_and_right, exists_or, and_assoc, exists_eq_left]

-- Only the positions of nodes are shifted by where a forest stands.
theorem token_mem_childIds_iff (next k : Nat) (cs : List ChildRecord) :
    ChildId.token k ∈ childIds next cs ↔ .token k ∈ cs := by
  induction cs using ChildRecord.forestInduction generalizing next with
  | nil => simp
  | token index cs ih => simp [ih]
  | node kind children cs _ ih => simp [ih]
  | invalid value cs ih => simp [ih]

-- Parent links and child lists describe one tree with its root at 0, which is nested as `r` is.
structure Tree.Rooted (t : Tree) (r : NodeRecord) : Prop where
  inhabited : 0 < t.nodeCount
  root : ∀ id < t.nodeCount, t.nodeParent? id = none ↔ id = 0
  links : ∀ p child, child ∈ t.children p ↔ t.parentOf? child = some p
  once : ∀ p child, child ∈ t.children p →
    (t.children p).count child = 1 ∧ t.allChildren.count child = 1
  loose : ∀ k < t.tokenCount, t.tokenParent? k = none ↔ k ∉ r.references
  downward : ∀ p c, t.nodeParent? c = some p → p < c
  climbs : ∀ id < t.nodeCount, ∃ steps record, r.nested[id]? = some (steps, record) ∧
    t.readNode t.nodeCount id = some record ∧ t.climb? steps id = some 0

section Layout

variable (g : Grammar) (source : String) (r : ParseRecord) (owners : Owners)

-- The root, or a node below it with its parent.
theorem layout_node_at {id : Nat} {record : NodeRecord} (h : r.tree.records[id]? = some record) :
    let t := Tree.layout g source r owners
    t.children id = childIds (id + 1) record.children ∧
      t.Holds (r.stream.map TokenRecord.span).toArray id (id + 1) record.children ∧
      (id = 0 ∧ t.nodeParent? id = none ∨
        ∃ p, t.nodeParent? id = some p ∧ p < id ∧ .node id ∈ t.children p) := by
  intro t
  have hroot := layout_root g source r owners
  have hold := layout_holds g source r owners
  rcases (getElem?_records_eq_some_iff r.tree record id).mp h with ⟨rfl, rfl⟩ | h
  · exact ⟨Tree.children_eq hroot, hold, .inl ⟨rfl, Tree.nodeParent?_eq hroot⟩⟩
  · obtain ⟨hchildren, hbelow, p, hp, hlink⟩ := hold.node_at h
    refine ⟨hchildren, hbelow, .inr ⟨p, hp, ?_⟩⟩
    have hpos := List.le_snd_of_mem_zipIdx h
    rcases hlink with ⟨rfl, hmem⟩ | ⟨-, hlt, hmem⟩
    · exact ⟨hpos, by rwa [Tree.children_eq hroot]⟩
    · exact ⟨hlt, hmem⟩

theorem mem_children_iff (p : Nat) (child : ChildId) :
    child ∈ (Tree.layout g source r owners).children p ↔
      ∃ record, r.tree.records[p]? = some record ∧ child ∈ childIds (p + 1) record.children := by
  by_cases hp : p < r.tree.records.length
  · have hrecord := List.getElem?_eq_getElem hp
    rw [(layout_node_at g source r owners hrecord).1, hrecord]
    simp
  · have hnone : (Tree.layout g source r owners).nodes[p]? = none := by
      apply Array.getElem?_eq_none
      have hcount := layout_nodeCount g source r owners
      rw [Tree.nodeCount] at hcount
      omega
    simp [Tree.children, hnone, List.getElem?_eq_none (Nat.le_of_not_lt hp)]

-- A parent comes before its child and lists it.
theorem parent_lists {p c : Nat} (h : (Tree.layout g source r owners).nodeParent? c = some p) :
    p < c ∧ .node c ∈ (Tree.layout g source r owners).children p := by
  have hc : c < r.tree.records.length := by
    rw [← layout_nodeCount g source r owners]
    by_contra hout
    have hnone : (Tree.layout g source r owners).nodes[c]? = none :=
      Array.getElem?_eq_none (Nat.le_of_not_lt hout)
    simp [Tree.nodeParent?, hnone] at h
  obtain ⟨-, -, ⟨-, hroot⟩ | ⟨q, hq, hlink⟩⟩ :=
    layout_node_at g source r owners (List.getElem?_eq_getElem hc)
  · rw [hroot] at h
    cases h
  · rw [hq] at h
    cases h
    exact hlink

theorem node_mem_children_iff (p c : Nat) :
    .node c ∈ (Tree.layout g source r owners).children p ↔
      (Tree.layout g source r owners).nodeParent? c = some p := by
  constructor
  · intro h
    obtain ⟨record, hrecord, hmem⟩ := (mem_children_iff g source r owners p _).mp h
    exact (layout_node_at g source r owners hrecord).2.1.nodeParent?_of_mem hmem
  · intro h
    exact (parent_lists g source r owners h).2

theorem layout_tokenParent? (hsize : owners.size = r.stream.length) (k : Nat) :
    (Tree.layout g source r owners).tokenParent? k = owners[k]?.join := by
  simp only [Tree.tokenParent?, Tree.layout, List.getElem?_toArray, List.getElem?_zipWith,
    Array.getElem?_toList]
  by_cases hk : k < r.stream.length
  · have hown : k < owners.size := by omega
    simp [hk, hown]
  · have hown : owners.size ≤ k := by omega
    simp [Nat.le_of_not_lt hk, hown]

-- A token belongs to a node exactly when the record of the node refers to it.
theorem tokenParent?_eq_some_iff (hcheck : r.check g source = .ok owners) (p k : Nat) :
    (Tree.layout g source r owners).tokenParent? k = some p ↔ Visit.token p k ∈ r.tree.visits := by
  rw [layout_tokenParent? g source r owners (check_size g source r owners hcheck),
    Option.join_eq_some_iff]
  rw [ParseRecord.check] at hcheck
  split at hcheck
  · cases hcheck
  · rw [walk_owner_iff g _ owners _ hcheck]
    simp [Array.getElem?_replicate]

theorem token_mem_children_iff (hcheck : r.check g source = .ok owners) (p k : Nat) :
    .token k ∈ (Tree.layout g source r owners).children p ↔
      (Tree.layout g source r owners).tokenParent? k = some p := by
  rw [mem_children_iff, tokenParent?_eq_some_iff g source r owners hcheck, token_mem_visits_iff]
  simp only [token_mem_childIds_iff]

theorem tokenParent?_eq_none_iff (hcheck : r.check g source = .ok owners) (k : Nat) :
    (Tree.layout g source r owners).tokenParent? k = none ↔ k ∉ r.tree.references := by
  have hmet : k ∈ r.tree.references ↔ ∃ p, Visit.token p k ∈ r.tree.visits := by
    rw [NodeRecord.references, mem_referencesOf_iff 0 1]
    simp only [NodeRecord.visits, List.mem_cons, reduceCtorEq, false_or]
  rw [hmet, Option.eq_none_iff_forall_ne_some, not_exists]
  simp only [ne_eq, tokenParent?_eq_some_iff g source r owners hcheck]

theorem layout_allChildren :
    (Tree.layout g source r owners).allChildren =
      listedOf (r.stream.map TokenRecord.span).toArray 0 1 r.tree.children := by
  simp [Tree.allChildren_eq, Tree.layout, NodeRecord.nodes, listedOf]

-- No child is listed twice: the positions are those that the record refers to, once each, and the
-- numbers of the nodes are all different.
theorem count_allChildren_le (hsound : r.Sound g source) (child : ChildId) :
    (Tree.layout g source r owners).allChildren.count child ≤ 1 := by
  obtain ⟨htokens, hnodes⟩ :=
    listedOf_perm (r.stream.map TokenRecord.span).toArray 0 1 r.tree.children
  rw [layout_allChildren]
  cases child with
  | token k =>
      rw [count_filterMap_token?, htokens.count_eq]
      exact List.nodup_iff_count_le_one.mp hsound.once k
  | node c =>
      rw [count_filterMap_node?, hnodes.count_eq]
      exact List.nodup_iff_count_le_one.mp List.nodup_range' c

theorem layout_climbs (hsound : r.Sound g source) {id : Nat}
    (hid : id < (Tree.layout g source r owners).nodeCount) :
    ∃ steps record, r.tree.nested[id]? = some (steps, record) ∧
      (Tree.layout g source r owners).readNode (Tree.layout g source r owners).nodeCount id =
        some record ∧
      (Tree.layout g source r owners).climb? steps id = some 0 := by
  have hcount := layout_nodeCount g source r owners
  have hread := layout_readNode g source r owners hsound.noOddity id
  have hsnd : r.tree.nested.map Prod.snd = r.tree.records := by
    rw [NodeRecord.nested, List.map_cons, map_snd_nestedOf, NodeRecord.records]
  have hlt : id < r.tree.nested.length := by
    rw [← List.length_map Prod.snd, hsnd, ← hcount]
    exact hid
  obtain ⟨⟨steps, record⟩, hnested⟩ : ∃ entry, r.tree.nested[id]? = some entry :=
    ⟨_, List.getElem?_eq_getElem hlt⟩
  refine ⟨steps, record, hnested, ?_, ?_⟩
  · rw [hcount, hread, ← hsnd, List.getElem?_map, hnested, Option.map_some]
  · rw [← List.mk_mem_zipIdx_iff_getElem?, NodeRecord.nested, List.zipIdx_cons, List.mem_cons] at hnested
    rcases hnested with hroot | hbelow
    · cases hroot
      rfl
    · exact (layout_holds g source r owners).climb?_of_nested rfl hbelow

end Layout

-- Every tree that is built is one rooted tree, nested as its record says.
theorem ofRecord_rooted (g : Grammar) (source : String) (r : ParseRecord) (t : Tree)
    (h : Tree.ofRecord g source r = .ok t) : t.Rooted r.tree := by
  obtain ⟨owners, hcheck, rfl⟩ := ofRecord_eq_ok h
  have hsound := (check_ok_iff_sound g source r).mp ⟨owners, hcheck⟩
  have hlinks : ∀ p child, child ∈ (Tree.layout g source r owners).children p ↔
      (Tree.layout g source r owners).parentOf? child = some p := by
    intro p child
    cases child with
    | node c => exact node_mem_children_iff g source r owners p c
    | token k => exact token_mem_children_iff g source r owners hcheck p k
  refine ⟨?_, ?_, hlinks, ?_, ?_, ?_, ?_⟩
  · rw [layout_nodeCount]
    exact Nat.succ_pos _
  · intro id hid
    rw [layout_nodeCount] at hid
    obtain ⟨-, -, ⟨rfl, hnone⟩ | ⟨p, hp, hlt, -⟩⟩ :=
      layout_node_at g source r owners (List.getElem?_eq_getElem hid)
    · simp [hnone]
    · rw [hp]
      simp [Nat.ne_of_gt (Nat.zero_lt_of_lt hlt)]
  · intro p child hchild
    have hall := count_allChildren_le g source r owners hsound child
    have hsub := (Tree.children_sublist_allChildren _ hchild).count_le child
    have hpos := List.count_pos_iff.mpr hchild
    omega
  · exact fun k _ => tokenParent?_eq_none_iff g source r owners hcheck k
  · exact fun p c hp => (parent_lists g source r owners hp).1
  · exact fun id hid => layout_climbs g source r owners hsound hid

def nestedSample : ParseRecord :=
  ⟨⟨10, [.node 11 [.token 0], .token 1, .node 11 [.node 11 [.token 3]]]⟩,
    [⟨1, "é", 0⟩, ⟨2, " ", 2⟩, ⟨1, "b", 3⟩, ⟨1, "c", 4⟩]⟩

-- The third token is loose, and the last node stands two steps below the root.
theorem nestedSample_rooted :
    ∃ t, Tree.ofRecord sampleGrammar "é bc" nestedSample = .ok t ∧ t.Rooted nestedSample.tree ∧
      t.nodeParent? 3 = some 2 ∧ t.climb? 2 3 = some 0 ∧ t.tokenParent? 2 = none := by
  have h : Tree.ofRecord sampleGrammar "é bc" nestedSample =
      .ok (Tree.layout sampleGrammar "é bc" nestedSample #[some 1, some 0, none, some 3]) := rfl
  exact ⟨_, h, ofRecord_rooted _ _ _ _ h, rfl, rfl, rfl⟩

end ExternalParser
