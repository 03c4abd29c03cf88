import ExternalParser.Proofs.Grammar.Origin
import ExternalParser.Proofs.Text.Slice
import ExternalParser.Proofs.Tree.Links

namespace ExternalParser

-- Between two places where a text can be cut there is a text.
theorem Text.exists_slice? {s : String} {start stop : Nat} (hle : start ≤ stop)
    (hstart : Text.Boundary s start) (hstop : Text.Boundary s stop) :
    ∃ part, Text.slice? s start stop = some part := by
  obtain ⟨before, tail, hs, rfl⟩ := hstart
  obtain ⟨upTo, after, hs', rfl⟩ := hstop
  have hlists : before.toList ++ tail.toList = upTo.toList ++ after.toList := by
    rw [← String.toList_append, ← String.toList_append, ← hs, hs']
  rcases List.append_eq_append_iff.mp hlists with ⟨mid, hupTo, htail⟩ | ⟨mid, hbefore, -⟩
  · refine ⟨String.ofList mid, (Text.slice?_eq_some_iff _ _ _ _).mpr ⟨before, after, ?_, rfl, ?_⟩⟩
    · rw [String.append_assoc, hs, ← String.toList_inj]
      simp [htail]
    · have hsize := congrArg (fun cs => (String.ofList cs).utf8ByteSize) hupTo
      simpa using hsize.symm
  · -- The second offset is not before the first, so both are the same.
    have hsize := congrArg (fun cs => (String.ofList cs).utf8ByteSize) hbefore
    simp only [String.ofList_toList, String.ofList_append, String.utf8ByteSize_append] at hsize
    refine ⟨"", (Text.slice?_eq_some_iff _ _ _ _).mpr ⟨before, tail, by simpa using hs, rfl, ?_⟩⟩
    rw [String.utf8ByteSize_empty]
    omega

-- A span that can be cut out of a text.
structure Span.Within (source : String) (s : Span) : Prop where
  ordered : s.start ≤ s.stop
  inside : s.stop ≤ source.utf8ByteSize
  begins : Text.Boundary source s.start
  ends : Text.Boundary source s.stop

namespace Span

variable {source : String} {s t : Span}

theorem Within.start_add_length (h : s.Within source) : s.start + s.length = s.stop :=
  Nat.add_sub_of_le h.ordered

theorem empty_within (source : String) : Span.empty.Within source := by
  have hcut : Text.Boundary source 0 := ⟨"", source, by simp, rfl⟩
  exact ⟨Nat.le_refl _, Nat.zero_le _, hcut, hcut⟩

-- Each end of a cover is an end of one of the two spans.
theorem Within.cover (hs : s.Within source) (ht : t.Within source) : (s.cover t).Within source := by
  refine ⟨?_, Nat.max_le.mpr ⟨hs.inside, ht.inside⟩, ?_, ?_⟩
  · have h := hs.ordered
    simp only [Span.cover]
    omega
  · simp only [Span.cover]
    rcases Nat.le_total s.start t.start with h | h
    · rw [Nat.min_eq_left h]
      exact hs.begins
    · rw [Nat.min_eq_right h]
      exact ht.begins
  · simp only [Span.cover]
    rcases Nat.le_total s.stop t.stop with h | h
    · rw [Nat.max_eq_right h]
      exact ht.ends
    · rw [Nat.max_eq_left h]
      exact hs.ends

theorem cover?_within {spans : List (Option Span)} (h : ∀ s, some s ∈ spans → s.Within source)
    (hcover : Span.cover? spans = some t) : t.Within source := by
  induction spans generalizing t with
  | nil => cases hcover
  | cons first rest ih =>
      have hrest : ∀ s, some s ∈ rest → s.Within source := fun s hs => h s (List.mem_cons_of_mem _ hs)
      cases first with
      | none => exact ih hrest hcover
      | some s =>
          have hs := h s List.mem_cons_self
          simp only [Span.cover?] at hcover
          split at hcover
          · cases hcover
            exact hs
          · rename_i u hu
            cases hcover
            exact hs.cover (ih hrest hu)

end Span

theorem TokenRecord.Fits.within {g : Grammar} {source : String} {t : TokenRecord}
    (h : t.Fits g source) : t.span.Within source :=
  ⟨Nat.le_add_right _ _, h.inSource, h.begins, h.ends⟩

theorem spansOf_within {source : String} {spans : Array Span} (h : ∀ s ∈ spans, s.Within source)
    (cs : List ChildRecord) {s : Span} (hs : spansOf spans cs = some s) : s.Within source := by
  induction cs using ChildRecord.forestInduction generalizing s with
  | nil => cases hs
  | token index cs ih =>
      refine Span.cover?_within ?_ hs
      simp only [ChildRecord.span?, List.mem_cons, List.not_mem_nil, or_false]
      rintro u (hu | hu)
      · exact h u (Array.mem_of_getElem? hu.symm)
      · exact ih hu.symm
  | node kind children cs ihc ih =>
      refine Span.cover?_within ?_ hs
      simp only [ChildRecord.span?, List.mem_cons, List.not_mem_nil, or_false]
      rintro u (hu | hu)
      · exact ihc hu.symm
      · exact ih hu.symm
  | invalid value cs ih =>
      refine Span.cover?_within ?_ hs
      simp only [ChildRecord.span?, List.mem_cons, List.not_mem_nil, or_false, reduceCtorEq, false_or]
      exact fun u hu => ih hu.symm

-- A record stands at its number, laid out with all its parts.
theorem Tree.Holds.data_at {t : Tree} {spans : Array Span} {parent next : Nat}
    {cs : List ChildRecord} (h : t.Holds spans parent next cs) {id : Nat} {record : NodeRecord}
    (hid : (record, id) ∈ (recordsOf cs).zipIdx next) :
    ∃ p, t.nodes[id]? =
      some ⟨record.kind, p, childIds (id + 1) record.children, spansOf spans record.children⟩ := by
  induction cs using ChildRecord.forestInduction generalizing parent next with
  | nil => simp at hid
  | token index cs ih => exact ih h.of_token (by simpa using hid)
  | node kind children cs ihc ih =>
      obtain ⟨hnode, hchildren, hcs⟩ := h.of_node
      simp only [recordsOf, ChildRecord.records, List.cons_append, List.zipIdx_cons,
        List.zipIdx_append, List.mem_cons, List.mem_append, Prod.mk.injEq, length_recordsOf] at hid
      rcases hid with ⟨rfl, rfl⟩ | hid | hid
      · exact ⟨some parent, hnode⟩
      · exact ihc hchildren hid
      · exact ih hcs hid
  | invalid value cs ih => exact ih h.of_invalid (by simpa using hid)

namespace Tree

variable {t : Tree}

theorem lt_nodeCount_of_mem_children {p : Nat} {child : ChildId} (h : child ∈ t.children p) :
    p < t.nodeCount := by
  by_contra hout
  have hnone : t.nodes[p]? = none := Array.getElem?_eq_none (Nat.le_of_not_lt hout)
  simp [children, hnone] at h

theorem lt_nodeCount_of_nodeParent? {c p : Nat} (h : t.nodeParent? c = some p) :
    c < t.nodeCount := by
  by_contra hout
  have hnone : t.nodes[c]? = none := Array.getElem?_eq_none (Nat.le_of_not_lt hout)
  simp [nodeParent?, hnone] at h

theorem lt_tokenCount_of_tokenParent? {k p : Nat} (h : t.tokenParent? k = some p) :
    k < t.tokenCount := by
  by_contra hout
  have hnone : t.tokens[k]? = none := Array.getElem?_eq_none (Nat.le_of_not_lt hout)
  simp [tokenParent?, hnone] at h

-- The tree has a node or a token at the position.
def Has (t : Tree) : ChildId → Prop
  | .node id => id < t.nodeCount
  | .token id => id < t.tokenCount

end Tree

section Layout

variable (g : Grammar) (source : String) (r : ParseRecord) (owners : Owners)

theorem layout_node_data {id : Nat} (hid : id < (Tree.layout g source r owners).nodeCount) :
    ∃ record p, r.tree.records[id]? = some record ∧
      (Tree.layout g source r owners).nodes[id]? =
        some ⟨record.kind, p, childIds (id + 1) record.children,
          spansOf (r.stream.map TokenRecord.span).toArray record.children⟩ := by
  rw [layout_nodeCount] at hid
  obtain ⟨record, hrecord⟩ : ∃ record, r.tree.records[id]? = some record :=
    ⟨_, List.getElem?_eq_getElem hid⟩
  rcases (getElem?_records_eq_some_iff r.tree record id).mp hrecord with ⟨rfl, rfl⟩ | hbelow
  · exact ⟨r.tree, none, hrecord, layout_root g source r owners⟩
  · obtain ⟨p, hdata⟩ := (layout_holds g source r owners).data_at hbelow
    exact ⟨record, p, hrecord, hdata⟩

theorem layout_tokenCount (hsize : owners.size = r.stream.length) :
    (Tree.layout g source r owners).tokenCount = r.stream.length := by
  simp [Tree.tokenCount, Tree.layout, hsize]

-- A token of the tree is that of the stream, with its owner.
theorem layout_token? (hsize : owners.size = r.stream.length) (k : Nat) :
    (Tree.layout g source r owners).tokens[k]? =
      r.stream[k]?.map fun t => ⟨t.kind, t.value, t.span, owners[k]?.join⟩ := by
  rw [Tree.layout, List.getElem?_toArray, List.getElem?_zipWith]
  by_cases hk : k < r.stream.length
  · have howner : owners.toList[k]? = some owners[k] :=
      List.getElem?_eq_getElem (by simpa [hsize] using hk)
    rw [List.getElem?_eq_getElem hk, Array.getElem?_eq_getElem (by omega), howner]
    rfl
  · rw [List.getElem?_eq_none (by omega)]
    rfl

theorem layout_token_data (hsize : owners.size = r.stream.length) {k : Nat}
    (hk : k < (Tree.layout g source r owners).tokenCount) :
    ∃ record owner, r.stream[k]? = some record ∧
      (Tree.layout g source r owners).tokens[k]? =
        some ⟨record.kind, record.value, record.span, owner⟩ := by
  rw [layout_tokenCount g source r owners hsize] at hk
  have hrecord : r.stream[k]? = some r.stream[k] := List.getElem?_eq_getElem hk
  refine ⟨r.stream[k], owners[k]?.join, hrecord, ?_⟩
  rw [layout_token? g source r owners hsize, hrecord]
  rfl

end Layout

-- No question to the tree needs a substitute for its answer.
structure Tree.Resolves (t : Tree) : Prop where
  -- Nothing is subtracted from something smaller in the length of a span.
  spans : ∀ e, t.Has e → (t.childSpan e).Within t.source ∧
    (t.childSpan e).start + (t.childSpan e).length = (t.childSpan e).stop ∧
    ∃ text, t.slice? (t.childSpan e) = some text
  texts : ∀ id < t.nodeCount, t.slice? (t.nodeSpan id) = some (t.nodeText id)
  nodeNames : ∀ id < t.nodeCount,
    (t.nodeKind? id).bind t.grammar.nodeKindName? = some (t.nodeName id) ∧ t.nodeName id ≠ ""
  tokenNames : ∀ k < t.tokenCount,
    (t.tokenKind? k).bind t.grammar.tokenKindName? = some (t.tokenName k) ∧ t.tokenName k ≠ ""
  children : ∀ p e, e ∈ t.children p → t.Has e
  parents : ∀ e p, t.parentOf? e = some p → t.Has (.node p)

-- A known kind has a name, which is the one that is shown.
theorem KindTable.name_shown {t : KindTable} (hnamed : t.Named) {kind? : Option Nat} {kind : Nat}
    (hkind : kind? = some kind) (hhas : t.Has kind) :
    kind?.bind t.name? = some ((kind?.bind t.name?).getD "") ∧ (kind?.bind t.name?).getD "" ≠ "" := by
  obtain ⟨name, hname⟩ := Option.isSome_iff_exists.mp ((t.contains_iff kind).mpr hhas)
  rw [hkind, Option.bind_some, hname]
  exact ⟨rfl, hnamed.name?_ne_empty hname⟩

section Built

variable {g : Grammar} {source : String} {r : ParseRecord} {owners : Owners}

theorem layout_nodeSpan_within (hsound : r.Sound g source) {id : Nat}
    (hid : id < (Tree.layout g source r owners).nodeCount) :
    ((Tree.layout g source r owners).nodeSpan id).Within source := by
  obtain ⟨record, p, -, hdata⟩ := layout_node_data g source r owners hid
  have htokens : ∀ s ∈ (r.stream.map TokenRecord.span).toArray, s.Within source := by
    intro s hs
    obtain ⟨token, htoken, rfl⟩ := List.mem_map.mp (List.mem_toArray.mp hs)
    exact (hsound.tokens token htoken).within
  simp only [Tree.nodeSpan, Tree.nodeSpan?, hdata, Option.bind_some]
  cases hspan : spansOf (r.stream.map TokenRecord.span).toArray record.children with
  | none => exact Span.empty_within source
  | some s => exact spansOf_within htokens record.children hspan

theorem layout_tokenSpan_within (hcheck : r.check g source = .ok owners)
    (hsound : r.Sound g source) {k : Nat} (hk : k < (Tree.layout g source r owners).tokenCount) :
    ((Tree.layout g source r owners).tokenSpan k).Within source := by
  obtain ⟨record, owner, hrecord, hdata⟩ :=
    layout_token_data g source r owners (check_size g source r owners hcheck) hk
  simp only [Tree.tokenSpan, hdata, Option.map_some, Option.getD_some]
  exact (hsound.tokens record (List.mem_of_getElem? hrecord)).within

theorem layout_span_within (hcheck : r.check g source = .ok owners) (hsound : r.Sound g source)
    {e : ChildId} (he : (Tree.layout g source r owners).Has e) :
    ((Tree.layout g source r owners).childSpan e).Within source := by
  cases e with
  | node id => exact layout_nodeSpan_within hsound he
  | token k => exact layout_tokenSpan_within hcheck hsound he

theorem layout_slice?_nodeSpan (hsound : r.Sound g source) {id : Nat}
    (hid : id < (Tree.layout g source r owners).nodeCount) :
    (Tree.layout g source r owners).slice? ((Tree.layout g source r owners).nodeSpan id) =
      some ((Tree.layout g source r owners).nodeText id) := by
  have hwithin : ((Tree.layout g source r owners).nodeSpan id).Within source :=
    layout_nodeSpan_within hsound hid
  obtain ⟨text, htext⟩ := Text.exists_slice? hwithin.ordered hwithin.begins hwithin.ends
  change (Tree.layout g source r owners).slice? _ = some text at htext
  rw [Tree.nodeText, htext]
  rfl

theorem layout_nodeName (hsound : r.Sound g source) (hnamed : g.nodeKinds.Named) {id : Nat}
    (hid : id < (Tree.layout g source r owners).nodeCount) :
    ((Tree.layout g source r owners).nodeKind? id).bind g.nodeKindName? =
        some ((Tree.layout g source r owners).nodeName id) ∧
      (Tree.layout g source r owners).nodeName id ≠ "" := by
  obtain ⟨record, p, hrecord, hdata⟩ := layout_node_data g source r owners hid
  have hkind : (Tree.layout g source r owners).nodeKind? id = some record.kind := by
    simp [Tree.nodeKind?, hdata]
  exact KindTable.name_shown hnamed hkind (hsound.nodeKinds record (List.mem_of_getElem? hrecord))

theorem layout_tokenName (hcheck : r.check g source = .ok owners) (hsound : r.Sound g source)
    (hnamed : g.tokenKinds.Named) {k : Nat} (hk : k < (Tree.layout g source r owners).tokenCount) :
    ((Tree.layout g source r owners).tokenKind? k).bind g.tokenKindName? =
        some ((Tree.layout g source r owners).tokenName k) ∧
      (Tree.layout g source r owners).tokenName k ≠ "" := by
  obtain ⟨record, owner, hrecord, hdata⟩ :=
    layout_token_data g source r owners (check_size g source r owners hcheck) hk
  have hkind : (Tree.layout g source r owners).tokenKind? k = some record.kind := by
    simp [Tree.tokenKind?, hdata]
  exact KindTable.name_shown hnamed hkind
    (hsound.tokens record (List.mem_of_getElem? hrecord)).kind

-- A child is in the arena because it has a parent, and a parent because it has a child.
theorem layout_has_of_mem_children (hcheck : r.check g source = .ok owners) {p : Nat} {e : ChildId}
    (he : e ∈ (Tree.layout g source r owners).children p) :
    (Tree.layout g source r owners).Has e := by
  cases e with
  | node c =>
      exact Tree.lt_nodeCount_of_nodeParent? ((node_mem_children_iff g source r owners p c).mp he)
  | token k =>
      exact Tree.lt_tokenCount_of_tokenParent?
        ((token_mem_children_iff g source r owners hcheck p k).mp he)

theorem layout_has_of_parentOf? (hcheck : r.check g source = .ok owners) {p : Nat} {e : ChildId}
    (he : (Tree.layout g source r owners).parentOf? e = some p) :
    (Tree.layout g source r owners).Has (.node p) := by
  cases e with
  | node c =>
      exact Tree.lt_nodeCount_of_mem_children ((node_mem_children_iff g source r owners p c).mpr he)
  | token k =>
      exact Tree.lt_nodeCount_of_mem_children
        ((token_mem_children_iff g source r owners hcheck p k).mpr he)

end Built

-- Whatever record a tree is built from, every question to the tree has an answer of its own.
theorem ofRecord_resolves (g : Grammar) (source : String) (r : ParseRecord) (t : Tree)
    (hg : g.Made) (h : Tree.ofRecord g source r = .ok t) : t.Resolves := by
  obtain ⟨owners, hcheck, rfl⟩ := ofRecord_eq_ok h
  have hsound := (check_ok_iff_sound g source r).mp ⟨owners, hcheck⟩
  obtain ⟨hnodes, htokens⟩ := hg.tables
  refine ⟨?_, ?_, ?_, ?_, ?_, ?_⟩
  · intro e he
    have hwithin := layout_span_within hcheck hsound he
    exact ⟨hwithin, hwithin.start_add_length,
      Text.exists_slice? hwithin.ordered hwithin.begins hwithin.ends⟩
  · exact fun id hid => layout_slice?_nodeSpan hsound hid
  · exact fun id hid => layout_nodeName hsound hnodes.named hid
  · exact fun k hk => layout_tokenName hcheck hsound htokens.named hk
  · exact fun p e he => layout_has_of_mem_children hcheck he
  · exact fun e p hp => layout_has_of_parentOf? hcheck hp

theorem sampleGrammar_made : sampleGrammar.Made :=
  .ofSketch ⟨"sample", sampleGrammar.nodeKinds, sampleGrammar.tokenKinds, "STATEMENT", "", ";",
      ["SPACE"]⟩ sampleGrammar
    ⟨[(11, "STATEMENT"), (10, "ROOT")], rfl⟩ ⟨[(1, "WORD"), (2, "SPACE")], rfl⟩ rfl

-- The last node has no tokens, and the second one ends behind a character of two bytes.
theorem sampleRecord_resolves :
    ∃ t, sampleGrammar.Made ∧ Tree.ofRecord sampleGrammar "é b" sampleRecord = .ok t ∧ t.Resolves ∧
      t.nodeSpan 1 = ⟨0, 2⟩ ∧ t.nodeText 1 = "é" ∧ t.nodeSpan 3 = Span.empty ∧
      t.nodeName 3 = "STATEMENT" := by
  have h : Tree.ofRecord sampleGrammar "é b" sampleRecord =
      .ok (Tree.layout sampleGrammar "é b" sampleRecord #[some 1, some 0, some 2]) := rfl
  exact ⟨_, sampleGrammar_made, h, ofRecord_resolves _ _ _ _ sampleGrammar_made h,
    rfl, rfl, rfl, rfl⟩

end ExternalParser
