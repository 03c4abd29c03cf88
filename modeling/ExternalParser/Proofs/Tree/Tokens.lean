import ExternalParser.Proofs.Tree.Spans
import Mathlib.Data.List.Perm.Subperm

namespace ExternalParser

-- A record inside a forest refers to a part of what the forest refers to, in the same order.
theorem references_sublist_of_mem {cs : List ChildRecord} {record : NodeRecord}
    (h : record ∈ recordsOf cs) : record.references.Sublist (referencesOf cs) := by
  induction cs using ChildRecord.forestInduction with
  | nil => simp at h
  | token index cs ih => exact (ih (by simpa using h)).cons index
  | node kind children cs ihc ih =>
      simp only [recordsOf, ChildRecord.records, List.cons_append, List.mem_cons,
        List.mem_append] at h
      simp only [referencesOf, ChildRecord.references]
      rcases h with rfl | h | h
      · exact List.sublist_append_left _ _
      · exact (ihc h).trans (List.sublist_append_left _ _)
      · exact (ih h).trans (List.sublist_append_right _ _)
  | invalid value cs ih => exact ih (by simpa using h)

theorem references_sublist_of_mem_records {r record : NodeRecord} (h : record ∈ r.records) :
    record.references.Sublist r.references := by
  rcases List.mem_cons.mp h with rfl | h
  · exact List.Sublist.refl _
  · exact references_sublist_of_mem h

-- A list of different positions of a stream is not longer than the stream.
theorem ParseRecord.Sound.length_references_le {g : Grammar} {source : String} {r : ParseRecord}
    (h : r.Sound g source) : r.tree.references.length ≤ r.stream.length := by
  have hsub : r.tree.references ⊆ List.range r.stream.length :=
    fun index hindex => List.mem_range.mpr (h.inStream index hindex)
  simpa using (h.once.subperm hsub).length_le

namespace Tree.Holds

variable {t : Tree} {spans : Array Span} {parent next : Nat} {cs : List ChildRecord}

theorem nodeCounts_le (h : t.Holds spans parent next cs) : nodeCounts cs ≤ t.nodeCount := by
  have hlength := h.length_le
  rw [length_nodesOf, List.length_drop, Array.length_toList] at hlength
  exact Nat.le_trans hlength (Nat.sub_le _ _)

-- A nested record costs one step and so does a position. What lies on the stack below the forest is
-- walked with the fuel that is left.
theorem walkTokens_childIds (h : t.Holds spans parent next cs) (fuel : Nat) (stack : List ChildId) :
    t.walkTokens (nodeCounts cs + (referencesOf cs).length + fuel) (childIds next cs ++ stack) =
      referencesOf cs ++ t.walkTokens fuel stack := by
  induction cs using ChildRecord.forestInduction generalizing parent next fuel stack with
  | nil => simp
  | token index cs ih =>
      have hfuel : nodeCounts (.token index :: cs) + (referencesOf (.token index :: cs)).length +
          fuel = nodeCounts cs + (referencesOf cs).length + fuel + 1 := by
        simp only [nodeCounts, ChildRecord.nodeCount, referencesOf, ChildRecord.references,
          List.length_append, List.length_singleton]
        omega
      rw [hfuel, childIds, List.cons_append, Tree.walkTokens, ih h.of_token]
      rfl
  | node kind children cs ihc ih =>
      obtain ⟨hnode, hchildren, hcs⟩ := h.of_node
      have hfuel : nodeCounts (.node kind children :: cs) +
          (referencesOf (.node kind children :: cs)).length + fuel =
          nodeCounts children + (referencesOf children).length +
            (nodeCounts cs + (referencesOf cs).length + fuel) + 1 := by
        simp only [nodeCounts, ChildRecord.nodeCount, referencesOf, ChildRecord.references,
          List.length_append]
        omega
      have hrest := ih hcs fuel stack
      rw [Nat.add_assoc next] at hrest
      rw [hfuel, childIds, List.cons_append, Tree.walkTokens, Tree.children_eq hnode,
        ihc hchildren, ChildRecord.nodeCount, hrest, referencesOf, ChildRecord.references,
        List.append_assoc]
  | invalid value cs ih => simpa using ih h.of_invalid fuel stack

end Tree.Holds

theorem Tree.walkTokens_nil (t : Tree) (fuel : Nat) : t.walkTokens fuel [] = [] := by
  cases fuel with
  | zero => rfl
  | succ fuel => rfl

section Built

variable {g : Grammar} {source : String} {r : ParseRecord} {t : Tree}

theorem ofRecord_sound (h : Tree.ofRecord g source r = .ok t) : r.Sound g source := by
  obtain ⟨owners, hcheck, -⟩ := ofRecord_eq_ok h
  exact (check_ok_iff_sound g source r).mp ⟨owners, hcheck⟩

theorem ofRecord_tokenCount (h : Tree.ofRecord g source r = .ok t) :
    t.tokenCount = r.stream.length := by
  obtain ⟨owners, hcheck, rfl⟩ := ofRecord_eq_ok h
  exact layout_tokenCount g source r owners (check_size g source r owners hcheck)

-- Neither a node nor a token is met twice, so that the fuel lasts.
theorem ofRecord_tokensOf (h : Tree.ofRecord g source r = .ok t) {id : Nat} {record : NodeRecord}
    (hrecord : r.tree.records[id]? = some record) : t.tokensOf id = record.references := by
  have hpart := references_sublist_of_mem_records (List.mem_of_getElem? hrecord)
  have htokens : (referencesOf record.children).length ≤ t.tokenCount := by
    rw [ofRecord_tokenCount h]
    exact Nat.le_trans hpart.length_le (ofRecord_sound h).length_references_le
  obtain ⟨owners, -, rfl⟩ := ofRecord_eq_ok h
  obtain ⟨hchildren, hold, -⟩ := layout_node_at g source r owners hrecord
  obtain ⟨fuel, hfuel⟩ := Nat.exists_eq_add_of_le (Nat.add_le_add hold.nodeCounts_le htokens)
  have hwalk := hold.walkTokens_childIds fuel []
  rw [List.append_nil, Tree.walkTokens_nil, List.append_nil, ← hfuel, ← hchildren] at hwalk
  exact hwalk

theorem ofRecord_record_at (h : Tree.ofRecord g source r = .ok t) {id : Nat}
    (hid : id < t.nodeCount) : ∃ record, r.tree.records[id]? = some record := by
  obtain ⟨owners, -, rfl⟩ := ofRecord_eq_ok h
  rw [layout_nodeCount] at hid
  exact ⟨_, List.getElem?_eq_getElem hid⟩

-- The tokens below a node are tokens of the stream.
theorem ofRecord_tokensOf_lt (h : Tree.ofRecord g source r = .ok t) {id k : Nat}
    (hid : id < t.nodeCount) (hk : k ∈ t.tokensOf id) : k < t.tokenCount := by
  obtain ⟨record, hrecord⟩ := ofRecord_record_at h hid
  have hpart := references_sublist_of_mem_records (List.mem_of_getElem? hrecord)
  rw [ofRecord_tokensOf h hrecord] at hk
  rw [ofRecord_tokenCount h]
  exact (ofRecord_sound h).inStream k (hpart.subset hk)

end Built

end ExternalParser
