import ExternalParser.Proofs.Tree.Cover

namespace ExternalParser

-- Where a predicate holds up to some place and not behind it, the entries that are taken are all for
-- which it holds.
theorem lt_length_takeWhile_iff {α : Type} {p : α → Bool} {xs : List α}
    (h : xs.Pairwise fun x y => p y → p x) {k : Nat} {x : α} (hk : xs[k]? = some x) :
    k < (xs.takeWhile p).length ↔ p x := by
  induction xs generalizing k with
  | nil => simp at hk
  | cons y ys ih =>
      obtain ⟨hfirst, hrest⟩ := List.pairwise_cons.mp h
      cases hy : p y with
      | false =>
          have hx : p x ≠ true := by
            intro hx
            rcases List.mem_cons.mp (List.mem_of_getElem? hk) with rfl | hmem
            · simp [hx] at hy
            · simp [hfirst x hmem hx] at hy
          simp [hy, hx]
      | true =>
          cases k with
          | zero =>
              obtain rfl : y = x := by simpa using hk
              simp [hy]
          | succ k =>
              have hlater := ih hrest (k := k) (by simpa using hk)
              simpa [hy] using hlater

namespace Tree

-- The token has a byte at the offset.
def Covers (t : Tree) (id offset : Nat) : Prop :=
  id < t.tokenCount ∧ (t.tokenSpan id).contains offset

-- The tokens begin in the order of the stream, and none ends before it begins.
structure InOrder (t : Tree) : Prop where
  starts : (t.tokens.toList.map (·.span.start)).Pairwise (· ≤ ·)
  spans : ∀ k < t.tokenCount, (t.tokenSpan k).start ≤ (t.tokenSpan k).stop

-- The last token that begins at or before the offset.
structure LastBegun (t : Tree) (offset id : Nat) : Prop where
  inStream : id < t.tokenCount
  begins : (t.tokenSpan id).start ≤ offset
  later : ∀ k, id < k → k < t.tokenCount → offset < (t.tokenSpan k).start

-- Token `k` ends while token `j` before it still goes on, and no other token begins by then.
structure Hides (t : Tree) (k j : Nat) : Prop where
  before : j < k
  longer : (t.tokenSpan k).stop < (t.tokenSpan j).stop
  last : t.LastBegun (t.tokenSpan k).stop k

variable {t : Tree} {id j k offset : Nat}

theorem covers_iff : t.Covers id offset ↔
    id < t.tokenCount ∧ (t.tokenSpan id).start ≤ offset ∧ offset < (t.tokenSpan id).stop := by
  simp [Covers, Span.contains]

theorem exists_tokenData (hk : k < t.tokenCount) :
    ∃ d, t.tokens.toList[k]? = some d ∧ d.span = t.tokenSpan k := by
  obtain ⟨d, hd⟩ : ∃ d, t.tokens[k]? = some d := ⟨_, Array.getElem?_eq_getElem hk⟩
  exact ⟨d, by simpa using hd, by simp [tokenSpan, hd]⟩

theorem LastBegun.le (h : t.LastBegun offset k) (hj : j < t.tokenCount)
    (hbegins : (t.tokenSpan j).start ≤ offset) : j ≤ k := by
  by_contra hlt
  have hlater := h.later j (by omega) hj
  omega

theorem LastBegun.unique (h : t.LastBegun offset k) (h' : t.LastBegun offset j) : k = j :=
  Nat.le_antisymm (h'.le h.inStream h.begins) (h.le h'.inStream h'.begins)

namespace InOrder

theorem start_le (h : t.InOrder) (hjk : j ≤ k) (hk : k < t.tokenCount) :
    (t.tokenSpan j).start ≤ (t.tokenSpan k).start := by
  rcases Nat.eq_or_lt_of_le hjk with rfl | hlt
  · exact Nat.le_refl _
  · obtain ⟨d, hd, hdspan⟩ := exists_tokenData (t := t) (Nat.lt_trans hlt hk)
    obtain ⟨e, he, hespan⟩ := exists_tokenData hk
    obtain ⟨hj, hd⟩ := List.getElem?_eq_some_iff.mp hd
    obtain ⟨hk, he⟩ := List.getElem?_eq_some_iff.mp he
    rw [← hdspan, ← hespan, ← hd, ← he]
    exact List.pairwise_iff_getElem.mp (List.pairwise_map.mp h.starts) j k hj hk hlt

-- The offsets do not fall, so the tokens that the search counts are all that begin by then.
theorem lt_count_iff (h : t.InOrder) :
    k < (t.tokens.toList.takeWhile (·.span.start ≤ offset)).length ↔
      k < t.tokenCount ∧ (t.tokenSpan k).start ≤ offset := by
  by_cases hk : k < t.tokenCount
  · obtain ⟨d, hd, hspan⟩ := exists_tokenData hk
    have hpairs : t.tokens.toList.Pairwise fun x y =>
        decide (y.span.start ≤ offset) = true → decide (x.span.start ≤ offset) = true :=
      (List.pairwise_map.mp h.starts).imp fun hle hy => by
        simp only [decide_eq_true_eq] at hy ⊢
        omega
    rw [lt_length_takeWhile_iff hpairs hd, decide_eq_true_eq, hspan]
    exact ⟨fun hstart => ⟨hk, hstart⟩, And.right⟩
  · have htaken := List.takeWhile_prefix (l := t.tokens.toList) (·.span.start ≤ offset)
    have hle : (t.tokens.toList.takeWhile (·.span.start ≤ offset)).length ≤ t.tokenCount :=
      htaken.length_le
    constructor
    · intro hlt
      omega
    · exact fun hcovers => absurd hcovers.1 hk

-- The search ends before the first token, or at the last one that begins by then.
theorem search_cases (h : t.InOrder) (offset : Nat) :
    (t.tokenAt? offset = none ∧ ∀ k < t.tokenCount, offset < (t.tokenSpan k).start) ∨
      ∃ last, t.LastBegun offset last ∧
        t.tokenAt? offset = if (t.tokenSpan last).contains offset then some last else none := by
  have hcount : ∀ k, k < (t.tokens.toList.takeWhile (·.span.start ≤ offset)).length ↔
      k < t.tokenCount ∧ (t.tokenSpan k).start ≤ offset := fun _ => h.lt_count_iff
  unfold tokenAt?
  split
  · rename_i hnone
    refine .inl ⟨rfl, fun k hk => ?_⟩
    by_contra hstart
    have hlt := (hcount k).mpr ⟨hk, by omega⟩
    omega
  · rename_i last hlast
    obtain ⟨hin, hbegins⟩ := (hcount last).mp (by omega)
    refine .inr ⟨last, ⟨hin, hbegins, fun k hlt hk => ?_⟩, rfl⟩
    by_contra hstart
    have hcounted := (hcount k).mpr ⟨hk, by omega⟩
    omega

-- What is found covers the offset, and every later token begins behind the offset.
theorem tokenAt?_eq_some_iff (h : t.InOrder) :
    t.tokenAt? offset = some id ↔ t.Covers id offset ∧ t.LastBegun offset id := by
  rcases h.search_cases offset with ⟨hnone, hbehind⟩ | ⟨last, hlast, hfound⟩
  · simp only [hnone, reduceCtorEq, false_iff, not_and]
    rintro - hid
    have hstart := hbehind id hid.inStream
    have hbegins := hid.begins
    omega
  · rw [hfound]
    constructor
    · intro hsome
      split at hsome
      · rename_i hcontains
        cases hsome
        exact ⟨⟨hlast.inStream, hcontains⟩, hlast⟩
      · cases hsome
    · rintro ⟨hcovers, hid⟩
      obtain rfl := hlast.unique hid
      rw [if_pos hcovers.2]

-- A covered offset at which nothing is found lies behind the end of the last token that has begun.
theorem exists_hides (h : t.InOrder) (hcovers : t.Covers j offset) (hnone : t.tokenAt? offset = none) :
    ∃ k, t.Hides k j := by
  obtain ⟨hj, hstart, hstop⟩ := covers_iff.mp hcovers
  rcases h.search_cases offset with ⟨-, hbehind⟩ | ⟨last, hlast, hfound⟩
  · have hfirst := hbehind j hj
    omega
  · have hbegins := hlast.begins
    have hover : (t.tokenSpan last).stop ≤ offset := by
      by_contra hgoes
      have hlastCovers : t.Covers last offset := covers_iff.mpr ⟨hlast.inStream, hbegins, by omega⟩
      rw [hfound, if_pos hlastCovers.2] at hnone
      cases hnone
    have hle := hlast.le hj hstart
    have hne : j ≠ last := by
      rintro rfl
      omega
    refine ⟨last, by omega, by omega, hlast.inStream, h.spans last hlast.inStream, ?_⟩
    intro later hlater hin
    have hbehind := hlast.later later hlater hin
    omega

-- A hidden token covers the end of the one that hides it, where nothing is found.
theorem tokenAt?_of_hides (h : t.InOrder) (hhides : t.Hides k j) :
    t.Covers j (t.tokenSpan k).stop ∧ t.tokenAt? (t.tokenSpan k).stop = none := by
  have hbefore := hhides.before
  have hin := hhides.last.inStream
  have hstarts := h.start_le (Nat.le_of_lt hbefore) hin
  have hspan := h.spans k hin
  refine ⟨covers_iff.mpr ⟨by omega, by omega, hhides.longer⟩, ?_⟩
  rw [Option.eq_none_iff_forall_ne_some]
  intro id hfound
  obtain ⟨hcovers, hlast⟩ := h.tokenAt?_eq_some_iff.mp hfound
  obtain rfl := hlast.unique hhides.last
  obtain ⟨-, -, hstop⟩ := covers_iff.mp hcovers
  exact Nat.lt_irrefl _ hstop

-- Every covered offset has a token to find exactly when no token hides another.
theorem finds_iff (h : t.InOrder) :
    (∀ offset, (t.tokenAt? offset).isSome ↔ ∃ id, t.Covers id offset) ↔ ∀ k j, ¬ t.Hides k j := by
  constructor
  · intro hfinds k j hhides
    obtain ⟨hcovers, hnone⟩ := h.tokenAt?_of_hides hhides
    have hsome := (hfinds _).mpr ⟨j, hcovers⟩
    simp [hnone] at hsome
  · intro hclear offset
    constructor
    · intro hsome
      obtain ⟨id, hid⟩ := Option.isSome_iff_exists.mp hsome
      exact ⟨id, (h.tokenAt?_eq_some_iff.mp hid).1⟩
    · rintro ⟨j, hcovers⟩
      by_contra hnot
      obtain ⟨k, hhides⟩ := h.exists_hides hcovers (by simpa using hnot)
      exact hclear k j hhides

-- Tokens that do not overlap hide nothing, whether they are empty or not.
theorem not_hides_of_disjoint (h : t.InOrder)
    (hdisjoint : ∀ k, k + 1 < t.tokenCount → (t.tokenSpan k).stop ≤ (t.tokenSpan (k + 1)).start) :
    ¬ t.Hides k j := by
  intro hhides
  have hbefore := hhides.before
  have hin := hhides.last.inStream
  have hnext := hdisjoint j (by omega)
  have hstarts := h.start_le (j := j + 1) (by omega) hin
  have hspan := h.spans k hin
  have hlonger := hhides.longer
  omega

end InOrder

end Tree

theorem ofRecord_inOrder {g : Grammar} {source : String} {r : ParseRecord} {t : Tree}
    (h : Tree.ofRecord g source r = .ok t) : t.InOrder := by
  have hsound := ofRecord_sound h
  have hspans := ofRecord_tokens_span h
  constructor
  · have hstarts : t.tokens.toList.map (·.span.start) = r.stream.map (·.offset) := by
      apply List.ext_getElem?
      intro k
      have hk := congrArg (Option.map Span.start) (hspans k)
      simpa [Function.comp_def, TokenRecord.span] using hk
    rw [hstarts]
    exact hsound.ordered
  · obtain ⟨owners, hcheck, rfl⟩ := ofRecord_eq_ok h
    exact fun k hk => (layout_tokenSpan_within hcheck hsound hk).ordered

-- In a built tree the token that is found is the last one that begins at or before the offset, if it
-- covers the offset. So a token is found wherever there is one exactly when no token hides another, which
-- is so for tokens that do not overlap.
theorem ofRecord_tokenAt? (g : Grammar) (source : String) (r : ParseRecord) (t : Tree)
    (h : Tree.ofRecord g source r = .ok t) :
    (∀ offset id, t.tokenAt? offset = some id ↔ t.Covers id offset ∧ t.LastBegun offset id) ∧
      ((∀ offset, (t.tokenAt? offset).isSome ↔ ∃ id, t.Covers id offset) ↔
        ∀ k j, ¬ t.Hides k j) ∧
      ((∀ k, k + 1 < t.tokenCount → (t.tokenSpan k).stop ≤ (t.tokenSpan (k + 1)).start) →
        ∀ offset, (t.tokenAt? offset).isSome ↔ ∃ id, t.Covers id offset) := by
  have horder := ofRecord_inOrder h
  refine ⟨fun offset id => horder.tokenAt?_eq_some_iff, horder.finds_iff, ?_⟩
  intro hdisjoint
  exact horder.finds_iff.mpr fun k j => horder.not_hides_of_disjoint hdisjoint

-- Two tokens with an empty one between them, and one behind a gap.
def gappyRecord : ParseRecord :=
  ⟨⟨10, [.token 0, .token 1, .token 2, .token 3]⟩,
    [⟨1, "é", 0⟩, ⟨2, "", 2⟩, ⟨1, "b", 2⟩, ⟨1, "d", 4⟩]⟩

def gappyTree : Tree :=
  Tree.layout sampleGrammar "ébcd" gappyRecord #[some 0, some 0, some 0, some 0]

-- The second byte belongs to the first token, and at the third one the empty token is passed over.
theorem gappyRecord_tokenAt? :
    Tree.ofRecord sampleGrammar "ébcd" gappyRecord = .ok gappyTree ∧
      (∀ offset, (gappyTree.tokenAt? offset).isSome ↔ ∃ id, gappyTree.Covers id offset) ∧
      gappyTree.tokenAt? 1 = some 0 ∧ gappyTree.tokenAt? 2 = some 2 ∧ gappyTree.tokenAt? 3 = none := by
  have h : Tree.ofRecord sampleGrammar "ébcd" gappyRecord = .ok gappyTree := rfl
  have hgaps : ∀ k < 3, (gappyTree.tokenSpan k).stop ≤ (gappyTree.tokenSpan (k + 1)).start := by
    decide
  obtain ⟨-, -, hdisjoint⟩ := ofRecord_tokenAt? _ _ _ _ h
  exact ⟨h, hdisjoint fun k hk => hgaps k (Nat.lt_of_add_lt_add_right hk), rfl, rfl, rfl⟩

-- An empty token inside a word.
def hollowRecord : ParseRecord :=
  ⟨⟨10, [.token 0, .token 1]⟩, [⟨1, "ab", 0⟩, ⟨2, "", 1⟩]⟩

-- The word covers the second byte, but no token is found there.
theorem hollowRecord_misses :
    ∃ t, sampleGrammar.Made ∧ Tree.ofRecord sampleGrammar "ab" hollowRecord = .ok t ∧
      t.Covers 0 1 ∧ t.tokenAt? 1 = none ∧ t.tokenAt? 0 = some 0 ∧
      ¬ ∀ offset, (t.tokenAt? offset).isSome ↔ ∃ id, t.Covers id offset := by
  have h : Tree.ofRecord sampleGrammar "ab" hollowRecord =
      .ok (Tree.layout sampleGrammar "ab" hollowRecord #[some 0, some 0]) := rfl
  have hcovers : (Tree.layout sampleGrammar "ab" hollowRecord #[some 0, some 0]).Covers 0 1 :=
    ⟨by decide, rfl⟩
  refine ⟨_, sampleGrammar_made, h, hcovers, rfl, rfl, ?_⟩
  intro hfinds
  exact absurd ((hfinds 1).mpr ⟨0, hcovers⟩) (by decide)

end ExternalParser
