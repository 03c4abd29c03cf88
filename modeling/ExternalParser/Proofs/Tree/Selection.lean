import ExternalParser.Proofs.Grammar.Tables
import ExternalParser.Proofs.Tree.Descent
import Mathlib.Data.List.Dedup

namespace ExternalParser

-- A strictly ascending list is what sorting makes of its members, however often they are given.
theorem eq_mergeSort_dedup {xs ys : List Nat} (hascends : xs.Pairwise (· < ·))
    (hmem : ∀ x, x ∈ xs ↔ x ∈ ys) : xs = ys.dedup.mergeSort (· ≤ ·) := by
  have hsorted : (ys.dedup.mergeSort (· ≤ ·)).Pairwise (· ≤ ·) := by
    have htrans : ∀ a b c : Nat, decide (a ≤ b) = true → decide (b ≤ c) = true →
        decide (a ≤ c) = true := by
      intro a b c hab hbc
      simp only [decide_eq_true_eq] at hab hbc ⊢
      omega
    have htotal : ∀ a b : Nat, (decide (a ≤ b) || decide (b ≤ a)) = true := by
      intro a b
      simp only [Bool.or_eq_true, decide_eq_true_eq]
      omega
    exact (List.pairwise_mergeSort htrans htotal ys.dedup).imp of_decide_eq_true
  have hperm : xs.Perm ys.dedup := by
    rw [List.perm_ext_iff_of_nodup (hascends.imp Nat.ne_of_lt) (List.nodup_dedup ys)]
    intro x
    rw [hmem, List.mem_dedup]
  exact List.Perm.eq_of_pairwise (fun _ _ _ _ => Nat.le_antisymm) (hascends.imp Nat.le_of_lt) hsorted
    (hperm.trans (List.mergeSort_perm _ _).symm)

section Built

variable {g : Grammar} {source : String} {r : ParseRecord} {t : Tree} {id d : Nat}

theorem ofRecord_lt_of_mem_descendants (h : Tree.ofRecord g source r = .ok t)
    (hid : id < t.nodeCount) (hd : d ∈ t.descendants id) : d < t.nodeCount := by
  obtain ⟨steps, hclimb⟩ := (ofRecord_climbs_iff h hid).mpr (.inr hd)
  cases steps with
  | zero =>
      cases hclimb
      exact hid
  | succ steps =>
      obtain ⟨p, hp, -⟩ := Option.bind_eq_some_iff.mp hclimb
      exact Tree.lt_nodeCount_of_nodeParent? hp

theorem ofRecord_descendants_ascend (h : Tree.ofRecord g source r = .ok t)
    (hid : id < t.nodeCount) : (t.descendants id).Pairwise (· < ·) := by
  obtain ⟨record, hrecord⟩ := ofRecord_record_at h hid
  rw [ofRecord_descendants h hrecord]
  exact List.pairwise_lt_range'

-- A node shows a name exactly when its kind is the one that the grammar gives for the name.
theorem ofRecord_nodeName_eq_iff (hg : g.Made) (h : Tree.ofRecord g source r = .ok t)
    (hd : d < t.nodeCount) (name : String) :
    t.nodeName d = name ↔
      ∃ kind, t.nodeKind? d = some kind ∧ t.grammar.nodeKind? name = some kind := by
  have hpaired := hg.tables.1.paired
  have hsound := ofRecord_sound h
  obtain ⟨owners, -, rfl⟩ := ofRecord_eq_ok h
  obtain ⟨hshown, -⟩ := layout_nodeName hsound hg.tables.1.named hd
  obtain ⟨kind, hkind, hname⟩ := Option.bind_eq_some_iff.mp hshown
  constructor
  · rintro rfl
    exact ⟨kind, hkind, (hpaired.inverse kind _).mp hname⟩
  · rintro ⟨other, hother, hnamed⟩
    rw [hkind] at hother
    cases hother
    have hsame := (hpaired.inverse kind name).mpr hnamed
    exact Option.some.inj (hname.symm.trans hsame)

theorem ofRecord_selectNamed (hg : g.Made) (h : Tree.ofRecord g source r = .ok t)
    (hid : id < t.nodeCount) (name : String) :
    t.selectNamed id name = (t.descendants id).filter fun d => t.nodeName d = name := by
  have hshows : ∀ d ∈ t.descendants id, t.nodeName d = name ↔
      ∃ kind, t.nodeKind? d = some kind ∧ t.grammar.nodeKind? name = some kind := by
    intro d hd
    exact ofRecord_nodeName_eq_iff hg h (ofRecord_lt_of_mem_descendants h hid hd) name
  unfold Tree.selectNamed
  split
  · rename_i kind hkind
    apply List.filter_congr
    intro d hd
    simp [Tree.nodeIs, hshows d hd, hkind]
  · rename_i hunknown
    symm
    rw [List.filter_eq_nil_iff]
    intro d hd
    simp [hshows d hd, hunknown]

theorem ofRecord_selectKinds (h : Tree.ofRecord g source r = .ok t) (hid : id < t.nodeCount)
    (kinds : List Nat) :
    t.selectKinds id kinds = (kinds.flatMap (t.selectKind id)).dedup.mergeSort (· ≤ ·) := by
  apply eq_mergeSort_dedup
  · exact (ofRecord_descendants_ascend h hid).filter _
  · intro d
    simp only [Tree.selectKinds, Tree.selectKind, Tree.nodeIs, List.mem_flatMap, List.mem_filter,
      Option.any_eq_true, List.contains_iff_mem, decide_eq_true_eq]
    constructor
    · rintro ⟨hd, kind, hkind, hmem⟩
      exact ⟨kind, hmem, hd, hkind⟩
    · rintro ⟨kind, hmem, hd, hkind⟩
      exact ⟨hd, kind, hkind, hmem⟩

end Built

-- In a built tree a name selects the nodes that show it, and several kinds select the nodes that one of
-- them selects.
theorem ofRecord_selects (g : Grammar) (source : String) (r : ParseRecord) (t : Tree) (hg : g.Made)
    (h : Tree.ofRecord g source r = .ok t) :
    ∀ id < t.nodeCount,
      (∀ name, t.selectNamed id name = (t.descendants id).filter fun d => t.nodeName d = name) ∧
        ∀ kinds, t.selectKinds id kinds =
          (kinds.flatMap (t.selectKind id)).dedup.mergeSort (· ≤ ·) := by
  intro id hid
  exact ⟨ofRecord_selectNamed hg h hid, ofRecord_selectKinds h hid⟩

-- Two kinds of nodes in turn, and a token below the innermost one.
def twoKindRecord : ParseRecord :=
  ⟨⟨10, [.node 11 [.node 10 [.token 0]], .node 10 [], .node 11 []]⟩, [⟨1, "a", 0⟩]⟩

-- The root is not below itself. A kind that is given twice or is unknown changes nothing, nor does the
-- order in which the kinds are given.
theorem twoKindRecord_selects :
    ∃ t, sampleGrammar.Made ∧ Tree.ofRecord sampleGrammar "a" twoKindRecord = .ok t ∧
      (t.descendants 0).filter (fun d => t.nodeName d = "ROOT") = [2, 3] ∧
      (t.descendants 0).filter (fun d => t.nodeName d = "") = [] ∧
      t.selectKinds 0 [11, 7, 10, 11] = [1, 2, 3, 4] ∧
      ([11, 7, 10, 11].flatMap (t.selectKind 0)).dedup.mergeSort (· ≤ ·) = [1, 2, 3, 4] := by
  have h : Tree.ofRecord sampleGrammar "a" twoKindRecord =
      .ok (Tree.layout sampleGrammar "a" twoKindRecord #[some 2]) := rfl
  obtain ⟨hnamed, hkinds⟩ := ofRecord_selects _ _ _ _ sampleGrammar_made h 0 (by decide)
  exact ⟨_, sampleGrammar_made, h, (hnamed "ROOT").symm, (hnamed "").symm, rfl,
    (hkinds [11, 7, 10, 11]).symm⟩

end ExternalParser
