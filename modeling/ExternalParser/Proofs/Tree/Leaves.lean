import ExternalParser.Proofs.Tree.Cover
import ExternalParser.Proofs.Tree.Descent

namespace ExternalParser

namespace Tree

variable {t : Tree}

-- What the next question finds, and the stack behind it.
inductive Finds (t : Tree) : List ChildId → Option (Nat × List ChildId) → Prop
  | nothing : Finds t [] none
  | token {k : Nat} {stack : List ChildId} : Finds t (.token k :: stack) (some (k, stack))
  | node {id : Nat} {stack : List ChildId} {found : Option (Nat × List ChildId)} :
      Finds t (t.children id ++ stack) found → Finds t (.node id :: stack) found

-- The questions come to an end with these tokens.
def Gathers (t : Tree) : List ChildId → List Nat → Prop :=
  Enumerates t.Finds

-- The tokens of a child.
def tokensUnder (t : Tree) : ChildId → List Nat
  | .token k => [k]
  | .node id => t.tokensOf id

theorem Finds.unique {stack : List ChildId} {found other : Option (Nat × List ChildId)}
    (h : t.Finds stack found) (h' : t.Finds stack other) : found = other := by
  induction h with
  | nothing =>
      cases h'
      rfl
  | token =>
      cases h'
      rfl
  | node _ ih =>
      cases h' with
      | node h' => exact ih h'

namespace Gathers

variable {stack : List ChildId} {ks : List Nat}

theorem nil : t.Gathers [] [] :=
  .done .nothing

theorem token {k : Nat} (h : t.Gathers stack ks) : t.Gathers (.token k :: stack) (k :: ks) :=
  .give .token h

theorem node {id : Nat} (h : t.Gathers (t.children id ++ stack) ks) :
    t.Gathers (.node id :: stack) ks := by
  cases h with
  | done hnone => exact .done (.node hnone)
  | give hsome hrest => exact .give (.node hsome) hrest

theorem unique {others : List Nat} (h : t.Gathers stack ks) (h' : t.Gathers stack others) :
    ks = others := by
  unfold Gathers at h
  induction h generalizing others with
  | done hnone =>
      cases h' with
      | done _ => rfl
      | give hsome _ => cases hnone.unique hsome
  | give hsome _ ih =>
      cases h' with
      | done hnone => cases hsome.unique hnone
      | give hsome' hrest' =>
          cases hsome.unique hsome'
          rw [ih hrest']

-- The first question finds the first token, and does not look for the others.
theorem finds_head? (h : t.Gathers stack ks) :
    ∃ found, t.Finds stack found ∧ found.map Prod.fst = ks.head? := by
  cases h with
  | done hnone => exact ⟨none, hnone, rfl⟩
  | give hsome _ => exact ⟨some _, hsome, rfl⟩

end Gathers

end Tree

namespace Tree.Holds

variable {t : Tree} {spans : Array Span} {parent next : Nat} {cs : List ChildRecord}

-- The positions of a forest are found from left to right, before those of the rest of the stack.
theorem gathers (h : t.Holds spans parent next cs) {stack : List ChildId} {ks : List Nat}
    (hrest : t.Gathers stack ks) : t.Gathers (childIds next cs ++ stack) (referencesOf cs ++ ks) := by
  induction cs using ChildRecord.forestInduction generalizing parent next stack ks with
  | nil => exact hrest
  | token index cs ih => exact (ih h.of_token hrest).token
  | node kind children cs ihc ih =>
      obtain ⟨hnode, hchildren, hcs⟩ := h.of_node
      have hbelow := ihc hchildren (ih hcs hrest)
      rw [Nat.add_assoc next] at hbelow
      rw [childIds, ChildRecord.nodeCount, referencesOf, ChildRecord.references, List.append_assoc]
      apply Tree.Gathers.node
      rw [Tree.children_eq hnode]
      exact hbelow
  | invalid value cs ih => simpa using ih h.of_invalid hrest

-- The records of a forest that refer to a position stand at the nodes that list it.
theorem token_listed_iff (h : t.Holds spans parent next cs) {p k : Nat} :
    (∃ record, (record, p) ∈ (recordsOf cs).zipIdx next ∧ .token k ∈ record.children) ↔
      p ∈ List.range' next (nodeCounts cs) ∧ .token k ∈ t.children p := by
  have hlength := length_recordsOf cs
  constructor
  · rintro ⟨record, hrecord, hk⟩
    have hle := List.le_snd_of_mem_zipIdx hrecord
    have hlt := List.snd_lt_add_of_mem_zipIdx hrecord
    refine ⟨List.mem_range'_1.mpr ⟨hle, by omega⟩, ?_⟩
    rw [(h.node_at hrecord).1, token_mem_childIds_iff]
    exact hk
  · rintro ⟨hp, hk⟩
    obtain ⟨hle, hlt⟩ := List.mem_range'_1.mp hp
    have hin : p - next < (recordsOf cs).length := by omega
    have hrecord : ((recordsOf cs)[p - next], p) ∈ (recordsOf cs).zipIdx next :=
      List.mk_mem_zipIdx_iff_le_and_getElem?_sub.mpr ⟨hle, List.getElem?_eq_getElem hin⟩
    refine ⟨_, hrecord, ?_⟩
    rw [(h.node_at hrecord).1, token_mem_childIds_iff] at hk
    exact hk

end Tree.Holds

-- What is found below a node with the given record.
structure Tree.Gathered (t : Tree) (id : Nat) (record : NodeRecord) : Prop where
  ends : t.Gathers (t.children id) (t.tokensOf id)
  order : t.tokensOf id = record.references
  once : (t.tokensOf id).Nodup
  below : ∀ k, k ∈ t.tokensOf id ↔
    ∃ p, t.tokenParent? k = some p ∧ ∃ steps, t.climb? steps p = some id
  parts : t.tokensOf id = (t.children id).flatMap t.tokensUnder
  first : t.firstToken? id = (t.tokensOf id).head? ∧
    ∃ found, t.Finds (t.children id) found ∧ found.map Prod.fst = t.firstToken? id
  bare : t.firstToken? id = none ↔ t.hasTokens id = false

section Built

variable {g : Grammar} {source : String} {r : ParseRecord} {t : Tree} {id : Nat}

theorem ofRecord_gathers (h : Tree.ofRecord g source r = .ok t) (hid : id < t.nodeCount)
    {stack : List ChildId} {ks : List Nat} (hrest : t.Gathers stack ks) :
    t.Gathers (t.children id ++ stack) (t.tokensOf id ++ ks) := by
  obtain ⟨record, hrecord⟩ := ofRecord_record_at h hid
  obtain ⟨hchildren, hold⟩ := ofRecord_node_at h hrecord
  rw [ofRecord_tokensOf h hrecord, hchildren]
  exact hold.gathers hrest

theorem ofRecord_gathers_children (h : Tree.ofRecord g source r = .ok t) {children : List ChildId}
    (hin : ∀ child ∈ children, t.Has child) :
    t.Gathers children (children.flatMap t.tokensUnder) := by
  induction children with
  | nil => exact .nil
  | cons child children ih =>
      have hrest := ih fun other hother => hin other (List.mem_cons_of_mem _ hother)
      cases child with
      | token k => exact hrest.token
      | node c =>
          have hc : c < t.nodeCount := hin (.node c) List.mem_cons_self
          exact (ofRecord_gathers h hc hrest).node

theorem ofRecord_nodup_tokensOf (h : Tree.ofRecord g source r = .ok t) (hid : id < t.nodeCount) :
    (t.tokensOf id).Nodup := by
  obtain ⟨record, hrecord⟩ := ofRecord_record_at h hid
  rw [ofRecord_tokensOf h hrecord]
  have hpart := references_sublist_of_mem_records (List.mem_of_getElem? hrecord)
  exact (ofRecord_sound h).once.sublist hpart

theorem ofRecord_tokenParent?_iff (h : Tree.ofRecord g source r = .ok t) {p k : Nat} :
    t.tokenParent? k = some p ↔ .token k ∈ t.children p := by
  obtain ⟨owners, hcheck, rfl⟩ := ofRecord_eq_ok h
  rw [token_mem_children_iff g source r owners hcheck]

-- A token is found below the node that lists it and below every node above that one.
theorem ofRecord_mem_tokensOf_iff (h : Tree.ofRecord g source r = .ok t) (hid : id < t.nodeCount)
    (k : Nat) :
    k ∈ t.tokensOf id ↔ ∃ p, t.tokenParent? k = some p ∧ ∃ steps, t.climb? steps p = some id := by
  obtain ⟨record, hrecord⟩ := ofRecord_record_at h hid
  obtain ⟨hchildren, hold⟩ := ofRecord_node_at h hrecord
  have hlisted : .token k ∈ record.children ↔ .token k ∈ t.children id := by
    rw [hchildren, token_mem_childIds_iff]
  have hnested : ∀ p, (∃ other, (other, p) ∈ (recordsOf record.children).zipIdx (id + 1) ∧
      .token k ∈ other.children) ↔ p ∈ t.descendants id ∧ .token k ∈ t.children p := by
    intro p
    rw [ofRecord_descendants h hrecord]
    exact hold.token_listed_iff
  rw [ofRecord_tokensOf h hrecord, NodeRecord.references, mem_referencesOf_iff id (id + 1)]
  apply exists_congr
  intro p
  rw [token_mem_visitsOf_iff, hlisted, hnested, ofRecord_tokenParent?_iff h,
    ofRecord_climbs_iff h hid]
  constructor
  · rintro (⟨rfl, hk⟩ | ⟨hp, hk⟩)
    · exact ⟨hk, .inl rfl⟩
    · exact ⟨hk, .inr hp⟩
  · rintro ⟨hk, rfl | hp⟩
    · exact .inl ⟨rfl, hk⟩
    · exact .inr ⟨hp, hk⟩

theorem ofRecord_firstToken?_eq_none_iff (h : Tree.ofRecord g source r = .ok t)
    (hid : id < t.nodeCount) : t.firstToken? id = none ↔ t.hasTokens id = false := by
  rw [Tree.firstToken?, List.head?_eq_none_iff, ← ofRecord_nodeSpan?_eq_none_iff h hid,
    Tree.hasTokens, Option.isSome_eq_false_iff, Option.isNone_iff_eq_none]

end Built

-- The tokens of a node of a built tree are those of its record, in the same order.
theorem ofRecord_gathered (g : Grammar) (source : String) (r : ParseRecord) (t : Tree)
    (h : Tree.ofRecord g source r = .ok t) :
    ∀ id < t.nodeCount, ∃ record, r.tree.records[id]? = some record ∧ t.Gathered id record := by
  intro id hid
  obtain ⟨record, hrecord⟩ := ofRecord_record_at h hid
  have hgathers := ofRecord_gathers h hid .nil
  rw [List.append_nil, List.append_nil] at hgathers
  have hin : ∀ child ∈ t.children id, t.Has child := by
    obtain ⟨owners, hcheck, rfl⟩ := ofRecord_eq_ok h
    exact fun child hchild => layout_has_of_mem_children hcheck hchild
  refine ⟨record, hrecord, hgathers, ofRecord_tokensOf h hrecord, ofRecord_nodup_tokensOf h hid,
    ofRecord_mem_tokensOf_iff h hid, ?_, ⟨rfl, hgathers.finds_head?⟩,
    ofRecord_firstToken?_eq_none_iff h hid⟩
  exact hgathers.unique (ofRecord_gathers_children h hin)

-- The last token of the stream is found first, behind a node that has no tokens.
theorem overlappingRecord_gathered :
    ∃ t, Tree.ofRecord sampleGrammar "é bc" overlappingRecord = .ok t ∧
      t.Gathered 0 overlappingRecord.tree ∧ t.tokensOf 0 = [2, 0, 1] ∧
      t.firstToken? 0 = some 2 ∧ t.firstToken? 3 = some 0 ∧ t.firstToken? 2 = none := by
  have h : Tree.ofRecord sampleGrammar "é bc" overlappingRecord =
      .ok (Tree.layout sampleGrammar "é bc" overlappingRecord #[some 4, some 0, some 1]) := rfl
  obtain ⟨record, hrecord, hgathered⟩ := ofRecord_gathered _ _ _ _ h 0 (by decide)
  cases hrecord
  exact ⟨_, h, hgathered, hgathered.order, rfl, rfl, rfl⟩

end ExternalParser
