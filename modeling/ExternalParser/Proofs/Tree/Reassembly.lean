import ExternalParser.Proofs.Tree.Cover
import Mathlib.Data.List.Chain

namespace ExternalParser

namespace Span

-- The spans fill the bytes from `start` to `stop`, each beginning where the one before it ends.
def Fill : Nat → Nat → List Span → Prop
  | start, stop, [] => start = stop
  | start, stop, s :: rest => s.start = start ∧ Fill s.stop stop rest

variable {s : Span} {rest spans : List Span} {start stop : Nat}

theorem fill_of_isChain (h : spans.IsChain fun s next => next.start = s.stop)
    (hstart : ∀ s ∈ spans.head?, s.start = start) (hstop : ∀ s ∈ spans.getLast?, s.stop = stop)
    (hempty : spans = [] → start = stop) : Fill start stop spans := by
  induction spans generalizing start with
  | nil => exact hempty rfl
  | cons s rest ih =>
      refine ⟨hstart s rfl, ?_⟩
      cases rest with
      | nil => exact hstop s rfl
      | cons next rest =>
          obtain ⟨hnext, hrest⟩ := List.isChain_cons_cons.mp h
          apply ih hrest
          · rintro _ ⟨⟩
            exact hnext
          · rwa [List.getLast?_cons_cons] at hstop
          · simp

theorem Fill.le (h : Fill start stop spans) (hordered : ∀ s ∈ spans, s.start ≤ s.stop) :
    start ≤ stop := by
  induction spans generalizing start with
  | nil => exact Nat.le_of_eq h
  | cons s rest ih =>
      obtain ⟨rfl, hrest⟩ := h
      have hs := hordered s List.mem_cons_self
      have hle := ih hrest fun s hs => hordered s (List.mem_cons_of_mem _ hs)
      omega

-- Spans that fill a range cover it and nothing else.
theorem Fill.cover? (h : Fill start stop (s :: rest))
    (hordered : ∀ s' ∈ s :: rest, s'.start ≤ s'.stop) :
    Span.cover? ((s :: rest).map some) = some ⟨start, stop⟩ := by
  induction rest generalizing s start with
  | nil =>
      obtain ⟨rfl, rfl⟩ := h
      rfl
  | cons next rest ih =>
      obtain ⟨rfl, hrest⟩ := h
      have hs := hordered s List.mem_cons_self
      have hrestOrdered : ∀ s' ∈ next :: rest, s'.start ≤ s'.stop :=
        fun s' hs' => hordered s' (List.mem_cons_of_mem _ hs')
      have hle := hrest.le hrestOrdered
      rw [List.map_cons, Span.cover?_some_cons, ih hrest hrestOrdered]
      simp only [Option.elim_some, Span.cover, Option.some.injEq, Span.mk.injEq]
      omega

end Span

namespace Tree

-- Each token comes next in the stream and begins where the one before it ends.
def Seamless (t : Tree) (ks : List Nat) : Prop :=
  ks.IsChain fun k next => next = k + 1 ∧ (t.tokenSpan next).start = (t.tokenSpan k).stop

-- The token says what the source has at its span.
def Quotes (t : Tree) (k : Nat) : Prop :=
  t.slice? (t.tokenSpan k) = some (t.tokenValue k)

variable {t : Tree} {k start stop : Nat} {ks : List Nat}

theorem Quotes.ordered (h : t.Quotes k) : (t.tokenSpan k).start ≤ (t.tokenSpan k).stop := by
  obtain ⟨_, _, -, -, hstop⟩ := (Text.slice?_eq_some_iff _ _ _ _).mp h
  omega

theorem Quotes.boundaries (h : t.Quotes k) :
    Text.Boundary t.source (t.tokenSpan k).start ∧ Text.Boundary t.source (t.tokenSpan k).stop := by
  obtain ⟨before, after, hs, hbefore, hstop⟩ := (Text.slice?_eq_some_iff _ _ _ _).mp h
  constructor
  · exact ⟨before, t.tokenValue k ++ after, by rw [hs, String.append_assoc], hbefore⟩
  · refine ⟨before ++ t.tokenValue k, after, hs, ?_⟩
    rw [String.utf8ByteSize_append]
    omega

theorem Seamless.exists_fill (h : t.Seamless (k :: ks)) :
    ∃ stop, Span.Fill (t.tokenSpan k).start stop ((k :: ks).map t.tokenSpan) := by
  have hchain : ((k :: ks).map t.tokenSpan).IsChain fun s next => next.start = s.stop := by
    rw [List.isChain_map]
    exact h.imp fun _ _ hnext => hnext.2
  obtain ⟨last, hlast⟩ : ∃ last, ((k :: ks).map t.tokenSpan).getLast? = some last :=
    ⟨_, List.getLast?_eq_some_getLast (by simp)⟩
  refine ⟨last.stop, Span.fill_of_isChain hchain ?_ ?_ (by simp)⟩
  · rintro _ ⟨⟩
    rfl
  · intro s hs
    rw [hlast] at hs
    cases hs
    rfl

-- The values of tokens that fill a range are what the source has there. The range may be empty, and so
-- its start has to be a place where the source can be cut.
theorem slice?_of_fill (h : Span.Fill start stop (ks.map t.tokenSpan))
    (hquotes : ∀ k ∈ ks, t.Quotes k) (hstart : Text.Boundary t.source start) :
    Text.slice? t.source start stop = some (String.join (ks.map t.tokenValue)) := by
  induction ks generalizing start with
  | nil =>
      cases h
      obtain ⟨before, after, hs, hbefore⟩ := hstart
      rw [Text.slice?_eq_some_iff]
      exact ⟨before, after, by simpa using hs, hbefore, rfl⟩
  | cons k ks ih =>
      obtain ⟨rfl, hrest⟩ := h
      have hk := hquotes k List.mem_cons_self
      have htail := ih hrest (fun k hk => hquotes k (List.mem_cons_of_mem _ hk)) hk.boundaries.2
      rw [List.map_cons, String.join_cons]
      exact Text.slice?_append hk htail

end Tree

-- The stream has no gaps, begins and ends with the source, and the nested description refers to all of
-- it in its order.
structure ParseRecord.Tiles (source : String) (r : ParseRecord) : Prop where
  seamless : r.stream.IsChain fun token next => next.offset = token.stop
  begins : ∀ token ∈ r.stream.head?, token.offset = 0
  ends : ∀ token ∈ r.stream.getLast?, token.stop = source.utf8ByteSize
  empty : r.stream = [] → source = ""
  complete : r.tree.references = List.range r.stream.length

theorem ParseRecord.Tiles.fill {source : String} {r : ParseRecord} (h : r.Tiles source) :
    Span.Fill 0 source.utf8ByteSize (r.stream.map TokenRecord.span) := by
  apply Span.fill_of_isChain
  · rw [List.isChain_map]
    exact h.seamless
  · intro s hs
    rw [List.head?_map] at hs
    obtain ⟨token, htoken, rfl⟩ := Option.map_eq_some_iff.mp hs
    exact h.begins token htoken
  · intro s hs
    rw [List.getLast?_map] at hs
    obtain ⟨token, htoken, rfl⟩ := Option.map_eq_some_iff.mp hs
    exact h.ends token htoken
  · intro hnil
    rw [h.empty (List.map_eq_nil_iff.mp hnil)]
    rfl

section Built

variable {g : Grammar} {source : String} {r : ParseRecord} {t : Tree}

theorem ofRecord_source (h : Tree.ofRecord g source r = .ok t) :
    t.source = source ∧ t.grammar = g := by
  obtain ⟨owners, -, rfl⟩ := ofRecord_eq_ok h
  exact ⟨rfl, rfl⟩

theorem ofRecord_tokenSpans (h : Tree.ofRecord g source r = .ok t) :
    (List.range t.tokenCount).map t.tokenSpan = r.stream.map TokenRecord.span := by
  have hspans := ofRecord_tokens_span h
  have hcount := ofRecord_tokenCount h
  apply List.ext_getElem?
  intro k
  by_cases hk : k < t.tokenCount
  · have hspan := hspans k
    rw [Tree.tokenSpan_eq hk] at hspan
    simpa [hk] using hspan
  · have hout : r.stream.length ≤ k := by omega
    simp [hk, hout]

-- The root refers to the whole stream in its order.
theorem ofRecord_tokensOf_root (h : Tree.ofRecord g source r = .ok t) (htiles : r.Tiles source) :
    t.tokensOf 0 = List.range t.tokenCount := by
  have hroot : r.tree.records[0]? = some r.tree := rfl
  rw [ofRecord_tokensOf h hroot, htiles.complete, ofRecord_tokenCount h]

theorem ofRecord_nodeSpan_of_fill (h : Tree.ofRecord g source r = .ok t) {id start stop : Nat}
    (hid : id < t.nodeCount) (htokens : t.tokensOf id ≠ [])
    (hordered : ∀ k ∈ t.tokensOf id, (t.tokenSpan k).start ≤ (t.tokenSpan k).stop)
    (hfill : Span.Fill start stop ((t.tokensOf id).map t.tokenSpan)) :
    t.nodeSpan id = ⟨start, stop⟩ := by
  obtain ⟨k, ks, hks⟩ := List.exists_cons_of_ne_nil htokens
  rw [hks] at hordered hfill
  have hcover := hfill.cover? (by simpa using hordered)
  rw [Tree.nodeSpan, ofRecord_nodeSpan? h hid, hks, List.map_cons, hcover]
  rfl

-- The text of a node without tokens is empty, because its span is.
theorem ofRecord_nodeText_of_bare (h : Tree.ofRecord g source r = .ok t) {id : Nat}
    (hid : id < t.nodeCount) (hbare : t.tokensOf id = []) : t.nodeText id = "" := by
  have hslice : Text.slice? t.source 0 0 = some "" := by
    rw [Text.slice?_eq_some_iff]
    exact ⟨"", t.source, by simp, rfl, rfl⟩
  have hspan : t.nodeSpan id = .empty := by
    rw [Tree.nodeSpan, (ofRecord_nodeSpan?_eq_none_iff h hid).mpr hbare]
    rfl
  rw [Tree.nodeText, hspan, Tree.slice?]
  simp [Span.empty, hslice]

theorem ofRecord_nodeText (h : Tree.ofRecord g source r = .ok t) {id : Nat} (hid : id < t.nodeCount)
    (hquotes : ∀ k ∈ t.tokensOf id, t.Quotes k) (hseamless : t.Seamless (t.tokensOf id)) :
    t.nodeText id = String.join ((t.tokensOf id).map t.tokenValue) := by
  by_cases htokens : t.tokensOf id = []
  · rw [ofRecord_nodeText_of_bare h hid htokens, htokens]
    rfl
  · obtain ⟨k, ks, hks⟩ := List.exists_cons_of_ne_nil htokens
    have hk : t.Quotes k := hquotes k (by simp [hks])
    obtain ⟨stop, hfill⟩ := Tree.Seamless.exists_fill (hks ▸ hseamless)
    rw [← hks] at hfill
    have hspan := ofRecord_nodeSpan_of_fill h hid htokens (fun k hk => (hquotes k hk).ordered) hfill
    rw [Tree.nodeText, hspan, Tree.slice?, Tree.slice?_of_fill hfill hquotes hk.boundaries.1]
    rfl

theorem ofRecord_semanticText (h : Tree.ofRecord g source r = .ok t) (id : Nat) :
    t.semanticText id = String.join (((t.tokensOf id).filter fun k =>
      (t.tokenKind? k).all fun kind => kind ∉ g.trivia).map t.tokenValue) := by
  have hmeans : ∀ k, (!t.isTrivia k) = (t.tokenKind? k).all fun kind => kind ∉ g.trivia := by
    intro k
    rw [Tree.isTrivia, (ofRecord_source h).2]
    cases t.tokenKind? k with
    | none => rfl
    | some kind => simp [Grammar.isTrivia]
  simp only [Tree.semanticText, hmeans]

-- A stream that tiles the source reads as the source, and so does the root.
theorem ofRecord_tiled (h : Tree.ofRecord g source r = .ok t)
    (hquotes : ∀ k < t.tokenCount, t.Quotes k) (htiles : r.Tiles source) :
    t.nodeText 0 = source ∧
      String.join ((List.range t.tokenCount).map t.tokenValue) = source := by
  have hroot : 0 < t.nodeCount := by
    obtain ⟨owners, -, rfl⟩ := ofRecord_eq_ok h
    rw [layout_nodeCount]
    exact Nat.succ_pos _
  have htokens := ofRecord_tokensOf_root h htiles
  have hall : ∀ k ∈ List.range t.tokenCount, t.Quotes k :=
    fun k hk => hquotes k (List.mem_range.mp hk)
  have hfill := htiles.fill
  rw [← ofRecord_tokenSpans h] at hfill
  have hwhole := Text.slice?_whole source
  constructor
  · by_cases hbare : t.tokensOf 0 = []
    · have hstream : r.stream = [] := by
        have hspans := ofRecord_tokenSpans h
        rw [← htokens, hbare] at hspans
        exact List.map_eq_nil_iff.mp hspans.symm
      rw [ofRecord_nodeText_of_bare h hroot hbare, htiles.empty hstream]
    · rw [← htokens] at hall hfill
      have hspan := ofRecord_nodeSpan_of_fill h hroot hbare (fun k hk => (hall k hk).ordered) hfill
      rw [Tree.nodeText, hspan, Tree.slice?, (ofRecord_source h).1, hwhole]
      rfl
  · have hjoined := Tree.slice?_of_fill hfill hall ⟨"", t.source, by simp, rfl⟩
    rw [(ofRecord_source h).1, hwhole] at hjoined
    exact (Option.some.inj hjoined).symm

end Built

-- Values that quote the source without a gap are the text of the node above them, its meaning is what is
-- left of them without trivia, and those of a stream that tiles the source are the source.
theorem ofRecord_reassembles (g : Grammar) (source : String) (r : ParseRecord) (t : Tree)
    (h : Tree.ofRecord g source r = .ok t) (hquotes : ∀ k < t.tokenCount, t.Quotes k) :
    (∀ id < t.nodeCount, t.Seamless (t.tokensOf id) →
      t.nodeText id = String.join ((t.tokensOf id).map t.tokenValue) ∧
        t.semanticText id = String.join (((t.tokensOf id).filter fun k =>
          (t.tokenKind? k).all fun kind => kind ∉ g.trivia).map t.tokenValue)) ∧
      (r.Tiles source → t.nodeText 0 = source ∧
        String.join ((List.range t.tokenCount).map t.tokenValue) = source) := by
  constructor
  · intro id hid hseamless
    have hbelow : ∀ k ∈ t.tokensOf id, t.Quotes k :=
      fun k hk => hquotes k (ofRecord_tokensOf_lt h hid hk)
    exact ⟨ofRecord_nodeText h hid hbelow hseamless, ofRecord_semanticText h id⟩
  · exact ofRecord_tiled h hquotes

-- The second token is empty, the third one is trivia, and the last node has no tokens.
def tiledRecord : ParseRecord :=
  ⟨⟨10, [.node 11 [.token 0, .token 1], .token 2, .node 11 [.token 3, .node 11 []]]⟩,
    [⟨1, "é", 0⟩, ⟨1, "", 2⟩, ⟨2, " ", 2⟩, ⟨1, "b", 3⟩]⟩

theorem tiledRecord_tiles : tiledRecord.Tiles "é b" := by
  refine ⟨?_, ?_, ?_, ?_, rfl⟩
  · decide
  · rintro _ ⟨⟩
    rfl
  · rintro _ ⟨⟩
    rfl
  · simp [tiledRecord]

def tiledTree : Tree :=
  Tree.layout sampleGrammar "é b" tiledRecord #[some 1, some 1, some 0, some 2]

theorem tiledRecord_reassembles :
    Tree.ofRecord sampleGrammar "é b" tiledRecord = .ok tiledTree ∧
      (∀ k < tiledTree.tokenCount, tiledTree.Quotes k) ∧ tiledRecord.Tiles "é b" ∧
      tiledTree.nodeText 0 = "é b" ∧ tiledTree.Seamless [0, 1, 2, 3] ∧
      tiledTree.semanticText 0 = "éb" ∧ tiledTree.Seamless (tiledTree.tokensOf 3) ∧
      tiledTree.nodeText 3 = "" := by
  have h : Tree.ofRecord sampleGrammar "é b" tiledRecord = .ok tiledTree := rfl
  have hquotes : ∀ k < tiledTree.tokenCount, tiledTree.Quotes k := by
    unfold Tree.Quotes
    decide
  have hwhole : tiledTree.Seamless [0, 1, 2, 3] := by
    unfold Tree.Seamless
    decide
  have hbare : tiledTree.Seamless (tiledTree.tokensOf 3) := .nil
  obtain ⟨hnodes, hroot⟩ := ofRecord_reassembles _ _ _ _ h hquotes
  exact ⟨h, hquotes, tiledRecord_tiles, (hroot tiledRecord_tiles).1, hwhole,
    (hnodes 0 (by decide) hwhole).2, hbare, (hnodes 3 (by decide) hbare).1⟩

end ExternalParser
