import ExternalParser.Proofs.Record.Places
import ExternalParser.Proofs.Tree.Leaves
import Mathlib.Data.List.Induction

namespace ExternalParser

namespace Tree

variable {t : Tree} {p q : Place} {i id : Nat} {e : ChildId}

def branches (t : Tree) : ChildId → List ChildId
  | .node id => t.children id
  | .token _ => []

-- What stands at a place below an element.
def under? (t : Tree) (e : ChildId) : Place → Option ChildId
  | [] => some e
  | i :: p => (t.branches e)[i]?.bind (t.under? · p)

-- What stands at a place; the root is at the empty one.
def at? (t : Tree) (p : Place) : Option ChildId :=
  t.under? (.node 0) p

-- A sibling stands further to the right.
def Continues (t : Tree) (p : Place) : Prop :=
  ∃ q i j, p = q ++ [i] ∧ i < j ∧ (t.at? (q ++ [j])).isSome

-- The nodes but the root, and the tokens that a node has as a child.
def Below (t : Tree) : ChildId → Prop
  | .node id => 0 < id ∧ id < t.nodeCount
  | .token k => ∃ p, t.tokenParent? k = some p

-- These are the places of all elements below the root, in the order of the document.
structure Listed (t : Tree) (places : List Place) : Prop where
  order : places.Pairwise Place.Before
  all : ∀ p, p ∈ places ↔ p ≠ [] ∧ (t.at? p).isSome
  once : ∀ e, t.Below e ↔ ∃! p, p ∈ places ∧ t.at? p = some e

theorem Below.has (h : t.Below e) : t.Has e := by
  cases e with
  | node id => exact h.2
  | token k =>
      obtain ⟨p, hp⟩ := h
      exact lt_tokenCount_of_tokenParent? hp

theorem under?_append (e : ChildId) (p q : Place) :
    t.under? e (p ++ q) = (t.under? e p).bind (t.under? · q) := by
  induction p generalizing e with
  | nil => rfl
  | cons i p ih =>
      rw [List.cons_append, under?, under?, Option.bind_assoc]
      congr 1
      funext child
      exact ih child

theorem at?_snoc_eq_some_iff :
    t.at? (p ++ [i]) = some e ↔ ∃ id, t.at? p = some (.node id) ∧ (t.children id)[i]? = some e := by
  have hlast : ∀ d, t.under? d [i] = (t.branches d)[i]? := by
    intro d
    simp [under?]
  rw [at?, under?_append, ← at?, Option.bind_eq_some_iff]
  simp only [hlast]
  constructor
  · rintro ⟨d, hd, he⟩
    cases d with
    | node id => exact ⟨id, hd, he⟩
    | token k => simp [branches] at he
  · rintro ⟨id, hd, he⟩
    exact ⟨.node id, hd, he⟩

theorem isSome_at?_snoc_iff (h : t.at? p = some (.node id)) :
    (t.at? (p ++ [i])).isSome ↔ i < (t.children id).length := by
  simp [Option.isSome_iff_exists, at?_snoc_eq_some_iff, h, List.getElem?_eq_some_iff]

theorem continues_snoc_iff (h : t.at? p = some (.node id)) :
    t.Continues (p ++ [i]) ↔ i + 1 < (t.children id).length := by
  constructor
  · rintro ⟨q, k, j, hpq, hlt, hj⟩
    obtain ⟨rfl, hik⟩ := List.append_inj' hpq rfl
    cases hik
    have hbound := (isSome_at?_snoc_iff h).mp hj
    omega
  · intro hlt
    exact ⟨p, i, i + 1, rfl, Nat.lt_succ_self i, (isSome_at?_snoc_iff h).mpr hlt⟩

end Tree

theorem Tree.Holds.isSome_under?_iff {t : Tree} {spans : Array Span} {parent next : Nat}
    {cs : List ChildRecord} (h : t.Holds spans parent next cs) (hodd : odditiesOf cs = []) (i : Nat)
    (p : Place) :
    ((childIds next cs)[i]?.bind (t.under? · p)).isSome ↔ (cs[i]?.bind (·.at? p)).isSome := by
  induction cs using ChildRecord.forestInduction generalizing parent next i p with
  | nil => simp
  | token index cs ih =>
      cases i with
      | zero =>
          cases p with
          | nil => rfl
          | cons j p => simp [under?, branches, ChildRecord.at?]
      | succ i => exact ih h.of_token (by simpa using hodd) i p
  | node kind children cs ihc ih =>
      obtain ⟨hnode, hchildren, hcs⟩ := h.of_node
      simp only [odditiesOf, ChildRecord.oddities, List.append_eq_nil_iff] at hodd
      cases i with
      | zero =>
          cases p with
          | nil => rfl
          | cons j p =>
              have hlisted : t.children next = childIds (next + 1) children := Tree.children_eq hnode
              have hbelow := ihc hchildren hodd.1 j p
              rwa [← hlisted] at hbelow
      | succ i =>
          rw [Nat.add_assoc] at hcs
          exact ih hcs hodd.2 i p
  | invalid value cs ih => simp at hodd

section Built

variable {g : Grammar} {source : String} {r : ParseRecord} {t : Tree} {p q : Place} {e : ChildId}

theorem ofRecord_mem_children_iff (h : Tree.ofRecord g source r = .ok t) {id : Nat} :
    e ∈ t.children id ↔ t.parentOf? e = some id := by
  cases e with
  | node c => exact Tree.mem_childNodes_iff.symm.trans (ofRecord_nodeParent?_iff h).symm
  | token k => exact (ofRecord_tokenParent?_iff h).symm

theorem ofRecord_nodup_children (h : Tree.ofRecord g source r = .ok t) (id : Nat) :
    (t.children id).Nodup := by
  have hsound := ofRecord_sound h
  obtain ⟨owners, -, rfl⟩ := ofRecord_eq_ok h
  rw [List.nodup_iff_count_le_one]
  intro e
  by_cases he : e ∈ (Tree.layout g source r owners).children id
  · exact Nat.le_trans ((Tree.children_sublist_allChildren _ he).count_le e)
      (count_allChildren_le g source r owners hsound e)
  · rw [List.count_eq_zero_of_not_mem he]
    exact Nat.zero_le 1

-- The root is no child.
theorem ofRecord_nodeParent?_root (h : Tree.ofRecord g source r = .ok t) : t.nodeParent? 0 = none := by
  obtain ⟨owners, -, rfl⟩ := ofRecord_eq_ok h
  exact Tree.nodeParent?_eq (layout_root g source r owners)

-- Two places of one element are below the same node, at the same position.
theorem ofRecord_place_unique (h : Tree.ofRecord g source r = .ok t) (hp : t.at? p = some e)
    (hq : t.at? q = some e) : p = q := by
  have hroot : ∀ q i, t.at? (q ++ [i]) ≠ some (.node 0) := by
    intro q i hat
    obtain ⟨id, -, hi⟩ := Tree.at?_snoc_eq_some_iff.mp hat
    have hparent := (ofRecord_mem_children_iff h).mp (List.mem_of_getElem? hi)
    rw [Tree.parentOf?, ofRecord_nodeParent?_root h] at hparent
    cases hparent
  induction p using List.reverseRecOn generalizing q e with
  | nil =>
      cases hp
      cases q using List.reverseRecOn with
      | nil => rfl
      | append_singleton q j => exact absurd hq (hroot q j)
  | append_singleton p i ih =>
      cases q using List.reverseRecOn with
      | nil =>
          cases hq
          exact absurd hp (hroot p i)
      | append_singleton q j =>
          obtain ⟨a, ha, hi⟩ := Tree.at?_snoc_eq_some_iff.mp hp
          obtain ⟨b, hb, hj⟩ := Tree.at?_snoc_eq_some_iff.mp hq
          have hupper := (ofRecord_mem_children_iff h).mp (List.mem_of_getElem? hi)
          rw [(ofRecord_mem_children_iff h).mp (List.mem_of_getElem? hj)] at hupper
          cases hupper
          have hlt := (List.getElem?_eq_some_iff.mp hi).1
          have hindex := (List.getElem?_inj hlt (ofRecord_nodup_children h a)).mp (hi.trans hj.symm)
          rw [ih ha hb, hindex]

-- A child has the place of its parent, and there the position in the list of children.
theorem ofRecord_exists_place_of_parent (h : Tree.ofRecord g source r = .ok t) {id : Nat}
    (hid : t.at? p = some (.node id)) (e : ChildId) (he : t.parentOf? e = some id) :
    ∃ i, t.at? (p ++ [i]) = some e := by
  obtain ⟨i, hi⟩ := List.mem_iff_getElem?.mp ((ofRecord_mem_children_iff h).mpr he)
  exact ⟨i, Tree.at?_snoc_eq_some_iff.mpr ⟨id, hid, hi⟩⟩

-- The way up from a node leads to smaller and smaller numbers.
theorem ofRecord_exists_place (h : Tree.ofRecord g source r = .ok t) (id : Nat)
    (hid : id < t.nodeCount) : ∃ p, t.at? p = some (.node id) := by
  induction id using Nat.strongRecOn with
  | ind id ih =>
      obtain ⟨record, hrecord⟩ := ofRecord_record_at h hid
      have hlink : id = 0 ∨ ∃ parent, t.nodeParent? id = some parent ∧ parent < id := by
        obtain ⟨owners, -, rfl⟩ := ofRecord_eq_ok h
        obtain ⟨-, -, ⟨hzero, -⟩ | ⟨parent, hparent, hlt, -⟩⟩ :=
          layout_node_at g source r owners hrecord
        · exact .inl hzero
        · exact .inr ⟨parent, hparent, hlt⟩
      rcases hlink with rfl | ⟨parent, hparent, hlt⟩
      · exact ⟨[], rfl⟩
      · obtain ⟨p, hp⟩ := ih parent hlt (Nat.lt_trans hlt hid)
        obtain ⟨i, hi⟩ := ofRecord_exists_place_of_parent h hp (.node id) hparent
        exact ⟨p ++ [i], hi⟩

theorem ofRecord_below_iff (h : Tree.ofRecord g source r = .ok t) :
    t.Below e ↔ ∃ p, p ≠ [] ∧ t.at? p = some e := by
  constructor
  · intro hbelow
    cases e with
    | node id =>
        obtain ⟨p, hp⟩ := ofRecord_exists_place h id hbelow.2
        refine ⟨p, ?_, hp⟩
        rintro rfl
        cases hp
        exact Nat.lt_irrefl 0 hbelow.1
    | token k =>
        obtain ⟨parent, hparent⟩ := hbelow
        have hlisted := (ofRecord_tokenParent?_iff h).mp hparent
        obtain ⟨p, hp⟩ := ofRecord_exists_place h parent (Tree.lt_nodeCount_of_mem_children hlisted)
        obtain ⟨i, hi⟩ := ofRecord_exists_place_of_parent h hp (.token k) hparent
        exact ⟨p ++ [i], by simp, hi⟩
  · rintro ⟨p, hne, hp⟩
    cases p using List.reverseRecOn with
    | nil => exact absurd rfl hne
    | append_singleton p i =>
        obtain ⟨id, -, hi⟩ := Tree.at?_snoc_eq_some_iff.mp hp
        have hparent := (ofRecord_mem_children_iff h).mp (List.mem_of_getElem? hi)
        cases e with
        | node c =>
            refine ⟨Nat.pos_of_ne_zero ?_, Tree.lt_nodeCount_of_nodeParent? hparent⟩
            rintro rfl
            rw [Tree.parentOf?, ofRecord_nodeParent?_root h] at hparent
            cases hparent
        | token k => exact ⟨id, hparent⟩

theorem ofRecord_has_of_at? (h : Tree.ofRecord g source r = .ok t) (hp : t.at? p = some e) :
    t.Has e := by
  cases p with
  | nil =>
      cases hp
      obtain ⟨owners, -, rfl⟩ := ofRecord_eq_ok h
      rw [Tree.Has, layout_nodeCount]
      exact Nat.succ_pos _
  | cons i p => exact ((ofRecord_below_iff h).mpr ⟨i :: p, List.cons_ne_nil i p, hp⟩).has

-- The places of a tree are those of its nested description.
theorem ofRecord_isSome_at?_iff (h : Tree.ofRecord g source r = .ok t) (p : Place) :
    (t.at? p).isSome ↔ (r.tree.at? p).isSome := by
  have hroot : r.tree.records[0]? = some r.tree := rfl
  obtain ⟨hchildren, hold⟩ := ofRecord_node_at h hroot
  cases p with
  | nil => rfl
  | cons i p =>
      have hbelow := hold.isSome_under?_iff (ofRecord_sound h).noOddity i p
      rwa [← hchildren] at hbelow

theorem NodeRecord.mem_map_fst_spotsFrom_iff (r : NodeRecord) (p : Place) :
    p ∈ (spotsFrom 0 r.children).map Prod.fst ↔ p ≠ [] ∧ (r.at? p).isSome := by
  have hspots : r.asChild.spots = ([], r.asChild) :: spotsFrom 0 r.children := rfl
  rw [NodeRecord.at?, Option.isSome_iff_exists, List.mem_map]
  simp only [← ChildRecord.mem_spots_iff, hspots, List.mem_cons]
  constructor
  · rintro ⟨⟨_, x⟩, hx, rfl⟩
    obtain ⟨j, q, c, rfl, -⟩ := mem_spotsFrom_iff.mp hx
    exact ⟨List.cons_ne_nil _ _, x, .inr hx⟩
  · rintro ⟨hne, x, heq | hx⟩
    · cases heq
      exact absurd rfl hne
    · exact ⟨(p, x), hx, rfl⟩

-- The walk through a nested description goes by the places of its tree.
theorem ofRecord_listed (h : Tree.ofRecord g source r = .ok t) :
    t.Listed ((spotsFrom 0 r.tree.children).map Prod.fst) := by
  have hall : ∀ p, p ∈ (spotsFrom 0 r.tree.children).map Prod.fst ↔ p ≠ [] ∧ (t.at? p).isSome := by
    intro p
    rw [ofRecord_isSome_at?_iff h, r.tree.mem_map_fst_spotsFrom_iff]
  refine ⟨spotsFrom_ascends 0 _, hall, ?_⟩
  intro e
  rw [ofRecord_below_iff h]
  constructor
  · rintro ⟨p, hne, hp⟩
    refine ⟨p, ⟨(hall p).mpr ⟨hne, by rw [hp]; rfl⟩, hp⟩, ?_⟩
    rintro q ⟨-, hq⟩
    exact ofRecord_place_unique h hq hp
  · rintro ⟨p, ⟨hmem, hp⟩, -⟩
    exact ⟨p, ((hall p).mp hmem).1, hp⟩

end Built

end ExternalParser
