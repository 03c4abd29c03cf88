import ExternalParser.Proofs.Tree.Leaves
import ExternalParser.Proofs.Tree.Offsets

namespace ExternalParser

-- Where larger entries have larger values, the least value is that of the least entry.
theorem min?_map_of_le {f : Nat → Nat} {ks : List Nat}
    (h : ∀ j ∈ ks, ∀ k ∈ ks, j ≤ k → f j ≤ f k) : (ks.map f).min? = ks.min?.map f := by
  cases hmin : ks.min? with
  | none => rw [List.min?_eq_none_iff.mp hmin]; rfl
  | some m =>
      obtain ⟨hm, hle⟩ := List.min?_eq_some_iff.mp hmin
      rw [Option.map_some, List.min?_eq_some_iff]
      refine ⟨List.mem_map_of_mem hm, ?_⟩
      intro value hvalue
      obtain ⟨k, hk, rfl⟩ := List.mem_map.mp hvalue
      exact h m hm k hk (hle k hk)

namespace Tree

-- A node is where its first token is.
structure Placed (t : Tree) (id : Nat) : Prop where
  line : t.nodeLine? id = (t.firstToken? id).map t.tokenLine
  start : t.hasTokens id → (t.firstToken? id).map t.tokenOffset = some (t.nodeSpan id).start

-- No token of a node begins before its first one.
def Leads (t : Tree) (id : Nat) : Prop :=
  ∀ first, t.firstToken? id = some first →
    ∀ k ∈ t.tokensOf id, t.tokenOffset first ≤ t.tokenOffset k

theorem nodeLine?_eq (t : Tree) (id : Nat) :
    t.nodeLine? id = ((t.nodeSpan? id).map Span.start).map t.lineOf := by
  rw [nodeLine?, Option.map_map]
  rfl

end Tree

section Built

variable {g : Grammar} {source : String} {r : ParseRecord} {t : Tree} {id : Nat}

-- The offsets do not fall along the stream, so the least one is that of the first token in it.
theorem ofRecord_nodeSpan?_start (h : Tree.ofRecord g source r = .ok t) (hid : id < t.nodeCount) :
    (t.nodeSpan? id).map Span.start = (t.tokensOf id).min?.map t.tokenOffset := by
  have horder := ofRecord_inOrder h
  have hoffsets : ∀ j ∈ t.tokensOf id, ∀ k ∈ t.tokensOf id, j ≤ k →
      t.tokenOffset j ≤ t.tokenOffset k := by
    intro j _ k hk hjk
    exact horder.start_le hjk (ofRecord_tokensOf_lt h hid hk)
  rw [← min?_map_of_le hoffsets]
  have hcover := ofRecord_nodeSpan? h hid
  cases hspan : t.nodeSpan? id with
  | none =>
      rw [(ofRecord_nodeSpan?_eq_none_iff h hid).mp hspan]
      rfl
  | some s =>
      rw [hspan] at hcover
      have hstart := (Span.cover?_ends hcover.symm).1
      rw [List.map_map] at hstart
      exact hstart.symm

theorem ofRecord_nodeLine? (h : Tree.ofRecord g source r = .ok t) (hid : id < t.nodeCount) :
    t.nodeLine? id = (t.tokensOf id).min?.map t.tokenLine := by
  rw [Tree.nodeLine?_eq, ofRecord_nodeSpan?_start h hid, Option.map_map]
  rfl

-- A node with tokens begins with one of them, and none of them begins before it.
theorem ofRecord_nodeSpan_start (h : Tree.ofRecord g source r = .ok t) (hid : id < t.nodeCount)
    {m : Nat} (hm : (t.tokensOf id).min? = some m) :
    t.hasTokens id ∧ (t.nodeSpan id).start = t.tokenOffset m ∧
      ∀ k ∈ t.tokensOf id, t.tokenOffset m ≤ t.tokenOffset k := by
  have hstart := ofRecord_nodeSpan?_start h hid
  rw [hm, Option.map_some] at hstart
  obtain ⟨s, hs, hoffset⟩ := Option.map_eq_some_iff.mp hstart
  obtain ⟨-, hle⟩ := List.min?_eq_some_iff.mp hm
  refine ⟨by simp [Tree.hasTokens, hs], by simp [Tree.nodeSpan, hs, hoffset], ?_⟩
  intro k hk
  exact (ofRecord_inOrder h).start_le (hle k hk) (ofRecord_tokensOf_lt h hid hk)

theorem ofRecord_placed_iff_leads (h : Tree.ofRecord g source r = .ok t) (hid : id < t.nodeCount) :
    t.Placed id ↔ t.Leads id := by
  have hline := ofRecord_nodeLine? h hid
  cases hmin : (t.tokensOf id).min? with
  | none =>
      have hnone : t.firstToken? id = none := by
        rw [Tree.firstToken?, List.min?_eq_none_iff.mp hmin]
        rfl
      have hbare := (ofRecord_firstToken?_eq_none_iff h hid).mp hnone
      rw [hmin] at hline
      constructor
      · intro _ first hfirst
        rw [hnone] at hfirst
        cases hfirst
      · intro _
        refine ⟨by rw [hline, hnone], ?_⟩
        intro htokens
        rw [hbare] at htokens
        cases htokens
  | some m =>
      obtain ⟨htokens, hstart, hleast⟩ := ofRecord_nodeSpan_start h hid hmin
      obtain ⟨hm, -⟩ := List.min?_eq_some_iff.mp hmin
      obtain ⟨first, hfirst⟩ : ∃ first, t.firstToken? id = some first := by
        rw [← Option.isSome_iff_exists, Tree.firstToken?, List.isSome_head?]
        exact List.ne_nil_of_mem hm
      have hmem : first ∈ t.tokensOf id := List.mem_of_head? hfirst
      constructor
      · intro hplaced other hother k hk
        have hsame := hplaced.start htokens
        rw [hother, Option.map_some, Option.some.injEq] at hsame
        rw [hsame, hstart]
        exact hleast k hk
      · intro hleads
        have hle := hleads first hfirst m hm
        have hge := hleast first hmem
        have hsame : t.tokenOffset first = t.tokenOffset m := by omega
        constructor
        · rw [hline, hmin, hfirst]
          simp [Tree.tokenLine, hsame]
        · intro _
          rw [hfirst, hstart, Option.map_some, hsame]

-- References in the order of the stream are so below every node.
theorem ofRecord_leads (h : Tree.ofRecord g source r = .ok t)
    (horder : r.tree.references.Pairwise (· < ·)) (hid : id < t.nodeCount) : t.Leads id := by
  obtain ⟨record, hrecord⟩ := ofRecord_record_at h hid
  have htokens := ofRecord_tokensOf h hrecord
  have hpart := references_sublist_of_mem_records (List.mem_of_getElem? hrecord)
  have hascends : (t.tokensOf id).Pairwise (· < ·) := by
    rw [htokens]
    exact horder.sublist hpart
  intro first hfirst k hk
  have hle : first ≤ k := by
    obtain ⟨rest, hlist⟩ := List.head?_eq_some_iff.mp hfirst
    rw [hlist] at hascends hk
    rcases List.mem_cons.mp hk with rfl | hk
    · exact Nat.le_refl _
    · exact Nat.le_of_lt ((List.pairwise_cons.mp hascends).1 k hk)
  exact (ofRecord_inOrder h).start_le hle (ofRecord_tokensOf_lt h hid hk)

end Built

-- A node of a built tree is where the one of its tokens is that comes first in the stream. So it is
-- where its first token is exactly when no token of its list begins before that one, which is so for
-- all nodes of a record that refers to the tokens in the order of the stream.
theorem ofRecord_positions (g : Grammar) (source : String) (r : ParseRecord) (t : Tree)
    (h : Tree.ofRecord g source r = .ok t) :
    (∀ id < t.nodeCount,
        t.nodeLine? id = (t.tokensOf id).min?.map t.tokenLine ∧
          (t.nodeSpan? id).map Span.start = (t.tokensOf id).min?.map t.tokenOffset) ∧
      (∀ id < t.nodeCount, t.Placed id ↔ t.Leads id) ∧
      (r.tree.references.Pairwise (· < ·) → ∀ id < t.nodeCount, t.Placed id) := by
  refine ⟨?_, ?_, ?_⟩
  · intro id hid
    exact ⟨ofRecord_nodeLine? h hid, ofRecord_nodeSpan?_start h hid⟩
  · intro id hid
    exact ofRecord_placed_iff_leads h hid
  · intro horder id hid
    exact (ofRecord_placed_iff_leads h hid).mpr (ofRecord_leads h horder hid)

def twoLineRecord : ParseRecord :=
  ⟨⟨10, [.node 11 [.token 0], .token 1, .node 11 [.node 11 [], .token 2]]⟩,
    [⟨1, "é", 0⟩, ⟨2, "\n", 2⟩, ⟨1, "b", 3⟩]⟩

-- The third node begins with its token, on the second line.
theorem twoLineRecord_positions :
    ∃ t, Tree.ofRecord sampleGrammar "é\nb" twoLineRecord = .ok t ∧ (∀ id < 4, t.Placed id) ∧
      t.nodeLine? 2 = some 2 ∧ (t.nodeSpan 2).start = 3 ∧ t.nodeLine? 3 = none := by
  have h : Tree.ofRecord sampleGrammar "é\nb" twoLineRecord =
      .ok (Tree.layout sampleGrammar "é\nb" twoLineRecord #[some 1, some 0, some 2]) := rfl
  obtain ⟨-, -, hplaced⟩ := ofRecord_positions _ _ _ _ h
  exact ⟨_, h, hplaced (by decide), rfl, rfl, rfl⟩

-- The token of the first line stands behind the first one of the second line.
def crossedRecord : ParseRecord :=
  ⟨⟨10, [.token 1, .token 0, .token 2]⟩, [⟨1, "a", 0⟩, ⟨1, "b", 2⟩, ⟨1, "c", 3⟩]⟩

-- The root has its first token on the second line, and says that it begins on the first one.
theorem crossedRecord_misplaced :
    ∃ t, sampleGrammar.Made ∧ Tree.ofRecord sampleGrammar "a\nbc" crossedRecord = .ok t ∧
      t.firstToken? 0 = some 1 ∧ t.tokenLine 1 = 2 ∧ t.tokenOffset 1 = 2 ∧
      t.nodeLine? 0 = some 1 ∧ t.nodeSpan 0 = ⟨0, 4⟩ ∧
      t.nodeLine? 0 ≠ (t.firstToken? 0).map t.tokenLine ∧
      (t.firstToken? 0).map t.tokenOffset ≠ some (t.nodeSpan 0).start := by
  have h : Tree.ofRecord sampleGrammar "a\nbc" crossedRecord =
      .ok (Tree.layout sampleGrammar "a\nbc" crossedRecord #[some 0, some 0, some 0]) := rfl
  exact ⟨_, sampleGrammar_made, h, rfl, rfl, rfl, rfl, rfl, by decide, by decide⟩

end ExternalParser
