import ExternalParser.Proofs.Tree.Tokens
import ExternalParser.Tree.Materialize

namespace ExternalParser

namespace Span

-- The outer span leaves no byte of the inner one out.
def Encloses (outer inner : Span) : Prop :=
  outer.start ≤ inner.start ∧ inner.stop ≤ outer.stop

theorem Encloses.trans {s t u : Span} (hst : s.Encloses t) (htu : t.Encloses u) : s.Encloses u :=
  ⟨Nat.le_trans hst.1 htu.1, Nat.le_trans htu.2 hst.2⟩

theorem cover_assoc (s t u : Span) : (s.cover t).cover u = s.cover (t.cover u) := by
  simp [cover, Nat.min_assoc, Nat.max_assoc]

theorem cover?_some_cons (s : Span) (rest : List (Option Span)) :
    cover? (some s :: rest) = some ((cover? rest).elim s s.cover) := by
  rw [cover?]
  cases cover? rest with
  | none => rfl
  | some t => rfl

-- The cover of a list can be taken in parts, since no order and no grouping changes it.
theorem cover?_append (part rest : List (Option Span)) :
    cover? (part ++ rest) = cover? [cover? part, cover? rest] := by
  induction part with
  | nil => cases h : cover? rest <;> simp [cover?, h]
  | cons first part ih =>
      cases first with
      | none => simpa [cover?] using ih
      | some s =>
          rw [List.cons_append, cover?_some_cons, cover?_some_cons, ih]
          cases cover? part with
          | none => cases cover? rest <;> simp [cover?]
          | some t => cases cover? rest <;> simp [cover?, cover_assoc]

@[simp]
theorem cover?_singleton (s : Option Span) : cover? [s] = s := by
  cases s <;> rfl

theorem cover?_pair_cover? (first : Option Span) (rest : List (Option Span)) :
    cover? [first, cover? rest] = cover? (first :: rest) := by
  simpa using (cover?_append [first] rest).symm

theorem cover?_eq_none_iff (spans : List (Option Span)) :
    cover? spans = none ↔ ∀ s ∈ spans, s = none := by
  induction spans with
  | nil => simp [cover?]
  | cons first rest ih =>
      cases first with
      | none => simpa [cover?] using ih
      | some s => simp [cover?_some_cons]

-- Each end of a cover is the outermost of the ends that are covered.
theorem cover?_ends {spans : List Span} {s : Span} (h : cover? (spans.map some) = some s) :
    (spans.map start).min? = some s.start ∧ (spans.map stop).max? = some s.stop := by
  induction spans generalizing s with
  | nil => cases h
  | cons first rest ih =>
      rw [List.map_cons, cover?_some_cons] at h
      rw [List.map_cons, List.map_cons, List.min?_cons, List.max?_cons]
      cases hrest : cover? (rest.map some) with
      | none =>
          have hnil : rest = [] := by
            simpa [cover?_eq_none_iff, List.eq_nil_iff_forall_not_mem] using hrest
          rw [hrest] at h
          cases h
          simp [hnil]
      | some t =>
          obtain ⟨hmin, hmax⟩ := ih hrest
          rw [hrest] at h
          cases h
          rw [hmin, hmax]
          exact ⟨rfl, rfl⟩

-- What does not count can be left out.
theorem cover?_map_ite {α : Type} (p : α → Bool) (f : α → Span) (xs : List α) :
    cover? (xs.map fun x => if p x then some (f x) else none) =
      cover? ((xs.filter p).map fun x => some (f x)) := by
  induction xs with
  | nil => rfl
  | cons x xs ih =>
      by_cases hx : p x = true
      · simp [hx, cover?_some_cons, ih]
      · simpa [hx, cover?] using ih

theorem cover?_encloses {spans : List (Option Span)} {inner : Span} (h : some inner ∈ spans) :
    ∃ outer, cover? spans = some outer ∧ outer.Encloses inner := by
  induction spans with
  | nil => simp at h
  | cons first rest ih =>
      rcases List.mem_cons.mp h with rfl | h
      · refine ⟨_, cover?_some_cons inner rest, ?_⟩
        cases cover? rest with
        | none => exact ⟨Nat.le_refl _, Nat.le_refl _⟩
        | some t => exact ⟨Nat.min_le_left _ _, Nat.le_max_left _ _⟩
      · obtain ⟨outer, houter, hle⟩ := ih h
        cases first with
        | none => exact ⟨outer, houter, hle⟩
        | some s =>
            refine ⟨s.cover outer, by simp [cover?_some_cons, houter], ?_⟩
            exact ⟨Nat.le_trans (Nat.min_le_right _ _) hle.1,
              Nat.le_trans hle.2 (Nat.le_max_right _ _)⟩

end Span

-- The span of a forest is that of all positions it refers to.
theorem spansOf_eq_cover? (spans : Array Span) (cs : List ChildRecord) :
    spansOf spans cs = Span.cover? ((referencesOf cs).map fun k => spans[k]?) := by
  induction cs using ChildRecord.forestInduction with
  | nil => rfl
  | token index cs ih => rw [spansOf, ih, Span.cover?_pair_cover?]; rfl
  | node kind children cs ihc ih =>
      rw [spansOf, ChildRecord.span?, ihc, ih, referencesOf, ChildRecord.references,
        List.map_append, Span.cover?_append]
  | invalid value cs ih => rw [spansOf, ih, Span.cover?_pair_cover?]; rfl

-- The span of a forest is also that of its own children, as they are stored.
theorem Tree.Holds.spansOf_eq {t : Tree} {spans : Array Span} {parent next : Nat}
    {cs : List ChildRecord} (h : t.Holds spans parent next cs)
    (htokens : ∀ k : Nat, t.tokens[k]?.map TokenData.span = spans[k]?) :
    spansOf spans cs = Span.cover? ((childIds next cs).map (ChildId.span? t.tokens t.nodes)) := by
  induction cs using ChildRecord.forestInduction generalizing next with
  | nil => rfl
  | token index cs ih =>
      rw [spansOf, ih h.of_token, Span.cover?_pair_cover?, childIds, List.map_cons]
      rw [ChildRecord.span?, ← htokens index]
      rfl
  | node kind children cs _ ih =>
      obtain ⟨hnode, -, hcs⟩ := h.of_node
      have hrest := ih hcs
      rw [Nat.add_assoc] at hrest
      rw [spansOf, hrest, Span.cover?_pair_cover?, childIds, List.map_cons, ChildId.span?, hnode]
      rfl
  | invalid value cs ih =>
      rw [spansOf, ih h.of_invalid, Span.cover?_pair_cover?]
      rfl

def NodeData.unspanned (d : NodeData) : NodeData :=
  { d with span := none }

-- Children stand behind their parent, and a node covers what its children cover.
structure Nested (tokens : Array TokenData) (nodes : Array NodeData) : Prop where
  behind : ∀ (id c : Nat) (d : NodeData), nodes[id]? = some d → .node c ∈ d.children → id < c
  covers : ∀ (id : Nat) (d : NodeData), nodes[id]? = some d →
    d.span = Span.cover? (d.children.map (ChildId.span? tokens nodes))

-- The nodes from `done` on have their spans, and those before do not have them yet.
def SweptFrom (nodes : Array NodeData) (done : Nat) (current : Array NodeData) : Prop :=
  ∀ id : Nat, current[id]? = if done ≤ id then nodes[id]? else nodes[id]?.map NodeData.unspanned

section Sweep

variable {tokens : Array TokenData} {nodes current : Array NodeData} {done : Nat}

-- The children of a node have their spans when its turn comes.
theorem SweptFrom.storeSpan (hnested : Nested tokens nodes)
    (h : SweptFrom nodes (done + 1) current) :
    SweptFrom nodes done (storeSpan tokens current done) := by
  intro id
  rw [ExternalParser.storeSpan, Array.getElem?_modify, h id]
  by_cases hid : done = id
  · subst hid
    have hnot : ¬ done + 1 ≤ done := by omega
    rw [if_pos rfl, if_pos (Nat.le_refl _), if_neg hnot, Option.map_map]
    cases hd : nodes[done]? with
    | none => rfl
    | some d =>
        have hsame : d.children.map (ChildId.span? tokens current) =
            d.children.map (ChildId.span? tokens nodes) := by
          apply List.map_congr_left
          intro child hchild
          cases child with
          | token k => rfl
          | node c =>
              have hlt := hnested.behind done c d hd hchild
              have hc := h c
              rw [if_pos (by omega)] at hc
              simp only [ChildId.span?, hc]
        have hspan := hnested.covers done d hd
        rw [← hsame] at hspan
        simp only [Option.map_some, Function.comp, NodeData.unspanned, ← hspan]
  · rw [if_neg hid]
    by_cases hle : done ≤ id
    · rw [if_pos hle, if_pos (by omega)]
    · rw [if_neg hle, if_neg (by omega)]

theorem SweptFrom.foldl (hnested : Nested tokens nodes) (h : SweptFrom nodes done current) :
    SweptFrom nodes 0
      ((List.range done).reverse.foldl (ExternalParser.storeSpan tokens) current) := by
  induction done generalizing current with
  | zero => exact h
  | succ done ih =>
      rw [List.range_succ, List.reverse_append, List.reverse_singleton, List.singleton_append,
        List.foldl_cons]
      exact ih (h.storeSpan hnested)

theorem Nested.sweepSpans_eq (hnested : Nested tokens nodes) :
    sweepSpans tokens (nodes.map NodeData.unspanned) = nodes := by
  have hstart : SweptFrom nodes nodes.size (nodes.map NodeData.unspanned) := by
    intro id
    rw [Array.getElem?_map]
    by_cases hid : nodes.size ≤ id
    · rw [if_pos hid, Array.getElem?_eq_none hid]
      rfl
    · rw [if_neg hid]
  apply Array.ext_getElem?
  intro id
  have hend := hstart.foldl hnested id
  rw [if_pos (Nat.zero_le _)] at hend
  rwa [sweepSpans, Array.size_map]

end Sweep

namespace Tree

variable {t : Tree}

-- Whether a child is a token or has one below it.
def bears (t : Tree) : ChildId → Bool
  | .node id => !(t.tokensOf id).isEmpty
  | .token _ => true

-- The spans of a tree are those of its tokens.
structure Spanned (t : Tree) : Prop where
  bare : ∀ id < t.nodeCount, t.nodeSpan? id = none ↔ t.tokensOf id = []
  ends : ∀ id s, t.nodeSpan? id = some s →
    ((t.tokensOf id).map fun k => (t.tokenSpan k).start).min? = some s.start ∧
      ((t.tokensOf id).map fun k => (t.tokenSpan k).stop).max? = some s.stop
  inside : ∀ id s, t.nodeSpan? id = some s → ∀ steps above, t.climb? steps id = some above →
    ∃ outer, t.nodeSpan? above = some outer ∧ outer.Encloses s
  -- A child without tokens has a span to show, which does not count.
  skips : ∀ id < t.nodeCount, t.nodeSpan? id =
    Span.cover? (((t.children id).filter t.bears).map fun child => some (t.childSpan child))
  swept : sweepSpans t.tokens (t.nodes.map NodeData.unspanned) = t.nodes

theorem nodeSpan?_eq_of_nested (h : Nested t.tokens t.nodes) (id : Nat) :
    t.nodeSpan? id = Span.cover? ((t.children id).map (ChildId.span? t.tokens t.nodes)) := by
  unfold nodeSpan? children
  cases hd : t.nodes[id]? with
  | none => rfl
  | some d => exact h.covers id d hd

theorem tokenSpan_eq {k : Nat} (hk : k < t.tokenCount) :
    t.tokens[k]?.map TokenData.span = some (t.tokenSpan k) := by
  have hsome : t.tokens[k]? = some t.tokens[k] := Array.getElem?_eq_getElem hk
  simp [tokenSpan, hsome]

end Tree

section Built

variable {g : Grammar} {source : String} {r : ParseRecord} {t : Tree}

theorem ofRecord_tokens_span (h : Tree.ofRecord g source r = .ok t) (k : Nat) :
    t.tokens[k]?.map TokenData.span = (r.stream.map TokenRecord.span).toArray[k]? := by
  obtain ⟨owners, hcheck, rfl⟩ := ofRecord_eq_ok h
  have hspans : (r.stream.map TokenRecord.span).toArray[k]? = r.stream[k]?.map TokenRecord.span := by
    rw [List.getElem?_toArray, List.getElem?_map]
  rw [hspans, layout_token? g source r owners (check_size g source r owners hcheck), Option.map_map]
  rfl

theorem ofRecord_nested (h : Tree.ofRecord g source r = .ok t) : Nested t.tokens t.nodes := by
  have htokens := ofRecord_tokens_span h
  obtain ⟨owners, hcheck, rfl⟩ := ofRecord_eq_ok h
  constructor
  · intro id c d hd hc
    rw [← Tree.children_eq hd, node_mem_children_iff] at hc
    exact (parent_lists g source r owners hc).1
  · intro id d hd
    have hid := (Array.getElem?_eq_some_iff.mp hd).1
    obtain ⟨record, p, hrecord, hdata⟩ := layout_node_data g source r owners hid
    obtain ⟨-, hold, -⟩ := layout_node_at g source r owners hrecord
    rw [hd] at hdata
    cases hdata
    exact hold.spansOf_eq htokens

-- The span of a node is that of the tokens below it.
theorem ofRecord_nodeSpan? (h : Tree.ofRecord g source r = .ok t) {id : Nat}
    (hid : id < t.nodeCount) :
    t.nodeSpan? id = Span.cover? (((t.tokensOf id).map t.tokenSpan).map some) := by
  have hspans := ofRecord_tokens_span h
  obtain ⟨record, hrecord⟩ := ofRecord_record_at h hid
  have htokens : t.tokensOf id = referencesOf record.children := ofRecord_tokensOf h hrecord
  have hspan : t.nodeSpan? id =
      spansOf (r.stream.map TokenRecord.span).toArray record.children := by
    obtain ⟨owners, -, rfl⟩ := ofRecord_eq_ok h
    obtain ⟨other, p, hother, hdata⟩ := layout_node_data g source r owners hid
    rw [hrecord] at hother
    cases hother
    simp [Tree.nodeSpan?, hdata]
  rw [hspan, spansOf_eq_cover?, ← htokens, List.map_map]
  congr 1
  apply List.map_congr_left
  intro k hk
  rw [← hspans k]
  exact Tree.tokenSpan_eq (ofRecord_tokensOf_lt h hid hk)

theorem ofRecord_nodeSpan?_eq_none_iff (h : Tree.ofRecord g source r = .ok t) {id : Nat}
    (hid : id < t.nodeCount) : t.nodeSpan? id = none ↔ t.tokensOf id = [] := by
  rw [ofRecord_nodeSpan? h hid, Span.cover?_eq_none_iff]
  simp [List.eq_nil_iff_forall_not_mem]

-- A parent covers its children, and so does every node above.
theorem ofRecord_encloses_child (h : Tree.ofRecord g source r = .ok t) {c p : Nat} {s : Span}
    (hp : t.nodeParent? c = some p) (hs : t.nodeSpan? c = some s) :
    ∃ outer, t.nodeSpan? p = some outer ∧ outer.Encloses s := by
  have hchild : .node c ∈ t.children p := by
    obtain ⟨owners, -, rfl⟩ := ofRecord_eq_ok h
    exact (node_mem_children_iff g source r owners p c).mpr hp
  rw [Tree.nodeSpan?_eq_of_nested (ofRecord_nested h) p]
  apply Span.cover?_encloses
  exact List.mem_map.mpr ⟨.node c, hchild, hs⟩

theorem ofRecord_encloses_of_climb? (h : Tree.ofRecord g source r = .ok t) {steps id above : Nat}
    {s : Span} (hs : t.nodeSpan? id = some s) (habove : t.climb? steps id = some above) :
    ∃ outer, t.nodeSpan? above = some outer ∧ outer.Encloses s := by
  induction steps generalizing id s with
  | zero =>
      cases habove
      exact ⟨s, hs, Nat.le_refl _, Nat.le_refl _⟩
  | succ steps ih =>
      obtain ⟨p, hp, habove⟩ := Option.bind_eq_some_iff.mp habove
      obtain ⟨outer, houter, hle⟩ := ofRecord_encloses_child h hp hs
      obtain ⟨outermost, houtermost, hle'⟩ := ih houter habove
      exact ⟨outermost, houtermost, hle'.trans hle⟩

-- What is stored for a child is what it shows, or nothing if it bears no token.
theorem ofRecord_child_span? (h : Tree.ofRecord g source r = .ok t) {child : ChildId}
    (hchild : t.Has child) :
    child.span? t.tokens t.nodes = if t.bears child then some (t.childSpan child) else none := by
  cases child with
  | token k => exact Tree.tokenSpan_eq hchild
  | node id =>
      have hbare := ofRecord_nodeSpan?_eq_none_iff h hchild
      change t.nodeSpan? id = _
      by_cases htokens : t.tokensOf id = []
      · simp [Tree.bears, htokens, hbare.mpr htokens]
      · obtain ⟨s, hs⟩ := Option.ne_none_iff_exists'.mp (mt hbare.mp htokens)
        simp [Tree.bears, htokens, Tree.childSpan, Tree.nodeSpan, hs]

end Built

-- Every tree that is built has the spans of its tokens.
theorem ofRecord_spanned (g : Grammar) (source : String) (r : ParseRecord) (t : Tree)
    (h : Tree.ofRecord g source r = .ok t) : t.Spanned := by
  have hnested := ofRecord_nested h
  refine ⟨?_, ?_, ?_, ?_, hnested.sweepSpans_eq⟩
  · exact fun id hid => ofRecord_nodeSpan?_eq_none_iff h hid
  · intro id s hs
    have hid : id < t.nodeCount := by
      by_contra hout
      have hnone : t.nodes[id]? = none := Array.getElem?_eq_none (Nat.le_of_not_lt hout)
      simp [Tree.nodeSpan?, hnone] at hs
    rw [ofRecord_nodeSpan? h hid] at hs
    have hends := Span.cover?_ends hs
    rwa [List.map_map, List.map_map] at hends
  · exact fun id s hs steps above habove => ofRecord_encloses_of_climb? h hs habove
  · intro id hid
    rw [Tree.nodeSpan?_eq_of_nested hnested, ← Span.cover?_map_ite]
    congr 1
    apply List.map_congr_left
    intro child hchild
    have hhas : t.Has child := by
      obtain ⟨owners, hcheck, rfl⟩ := ofRecord_eq_ok h
      exact layout_has_of_mem_children hcheck hchild
    exact ofRecord_child_span? h hhas

-- The first token reaches over the second one, the last one comes first in the tree, and two nodes have
-- no tokens.
def overlappingRecord : ParseRecord :=
  ⟨⟨10, [.node 11 [.node 11 [], .token 2], .node 11 [.node 11 [.token 0]], .token 1, .node 11 []]⟩,
    [⟨1, "é b", 0⟩, ⟨2, " ", 2⟩, ⟨1, "c", 4⟩]⟩

theorem overlappingRecord_spanned :
    ∃ t, Tree.ofRecord sampleGrammar "é bc" overlappingRecord = .ok t ∧ t.Spanned ∧
      t.tokensOf 0 = [2, 0, 1] ∧ t.nodeSpan? 0 = some ⟨0, 5⟩ ∧ t.nodeSpan? 1 = some ⟨4, 5⟩ ∧
      t.climb? 2 4 = some 0 ∧ t.nodeSpan? 4 = some ⟨0, 4⟩ ∧ t.nodeSpan? 5 = none := by
  have h : Tree.ofRecord sampleGrammar "é bc" overlappingRecord =
      .ok (Tree.layout sampleGrammar "é bc" overlappingRecord #[some 4, some 0, some 1]) := rfl
  exact ⟨_, h, ofRecord_spanned _ _ _ _ h, rfl, rfl, rfl, rfl, rfl, rfl⟩

end ExternalParser
