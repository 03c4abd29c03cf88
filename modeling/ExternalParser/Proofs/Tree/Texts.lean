import ExternalParser.Proofs.Tree.Spans

namespace ExternalParser

namespace TokenRecord

-- The source has the value at the offset.
def Quotes (source : String) (t : TokenRecord) : Prop :=
  ∃ before after : String, source = before ++ t.value ++ after ∧ before.utf8ByteSize = t.offset

theorem slice?_eq_value_iff (source : String) (t : TokenRecord) :
    Text.slice? source t.span.start t.span.stop = some t.value ↔ t.Quotes source := by
  rw [Text.slice?_eq_some_iff]
  constructor
  · rintro ⟨before, after, hs, hbefore, -⟩
    exact ⟨before, after, hs, hbefore⟩
  · rintro ⟨before, after, hs, hbefore⟩
    exact ⟨before, after, hs, hbefore, rfl⟩

-- What is looked at when a token is checked.
structure Shape where
  kind : Nat
  offset : Nat
  length : Nat

def shape (t : TokenRecord) : Shape :=
  ⟨t.kind, t.offset, t.value.utf8ByteSize⟩

theorem Fits.of_shape_eq {g : Grammar} {source : String} {t u : TokenRecord}
    (hshape : u.shape = t.shape) (h : t.Fits g source) : u.Fits g source := by
  obtain ⟨hkind, hoffset, hlength⟩ := Shape.mk.inj hshape
  obtain ⟨htable, hin, hbegins, hends⟩ := h
  rw [← hkind] at htable
  rw [← hoffset, ← hlength] at hin hends
  rw [← hoffset] at hbegins
  exact ⟨htable, hin, hbegins, hends⟩

end TokenRecord

theorem ParseRecord.Sound.of_shapes_eq {g : Grammar} {source : String} {r r' : ParseRecord}
    (htree : r'.tree = r.tree)
    (hshapes : r'.stream.map TokenRecord.shape = r.stream.map TokenRecord.shape)
    (h : r.Sound g source) : r'.Sound g source := by
  have hoffsets : r'.stream.map (·.offset) = r.stream.map (·.offset) := by
    have hmapped := congrArg (List.map TokenRecord.Shape.offset) hshapes
    rw [List.map_map, List.map_map] at hmapped
    exact hmapped
  have hlength : r'.stream.length = r.stream.length := by
    simpa using congrArg List.length hshapes
  refine ⟨?_, hoffsets ▸ h.ordered, htree ▸ h.nodeKinds, htree ▸ h.noOddity, ?_, htree ▸ h.once⟩
  · intro u hu
    have hmem : u.shape ∈ r.stream.map TokenRecord.shape := hshapes ▸ List.mem_map_of_mem hu
    obtain ⟨t, ht, hshape⟩ := List.mem_map.mp hmem
    exact (h.tokens t ht).of_shape_eq hshape.symm
  · rw [htree, hlength]
    exact h.inStream

theorem ofRecord_ok_of_sound {g : Grammar} {source : String} {r : ParseRecord}
    (h : r.Sound g source) : ∃ t, Tree.ofRecord g source r = .ok t := by
  obtain ⟨owners, hcheck⟩ := (check_ok_iff_sound g source r).mpr h
  exact ⟨Tree.layout g source r owners, by rw [Tree.ofRecord, hcheck]; rfl⟩

theorem layout_token_quotes_iff {g : Grammar} {source : String} {r : ParseRecord} {owners : Owners}
    (hsize : owners.size = r.stream.length) {k : Nat} {record : TokenRecord}
    (hrecord : r.stream[k]? = some record) :
    (Tree.layout g source r owners).slice? ((Tree.layout g source r owners).tokenSpan k) =
        some ((Tree.layout g source r owners).tokenValue k) ↔ record.Quotes source := by
  have hk : k < (Tree.layout g source r owners).tokenCount := by
    rw [layout_tokenCount g source r owners hsize]
    exact (List.getElem?_eq_some_iff.mp hrecord).1
  obtain ⟨record', owner, hrecord', hdata⟩ := layout_token_data g source r owners hsize hk
  rw [hrecord] at hrecord'
  cases hrecord'
  rw [← TokenRecord.slice?_eq_value_iff]
  simp only [Tree.tokenSpan, Tree.tokenValue, hdata, Option.map_some, Option.getD_some]
  rfl

-- The children of a built tree show the source text at their spans exactly when the stream quotes the
-- source. Whether it does is not checked: the values of a record that is accepted can be replaced by
-- any others of the same lengths.
theorem ofRecord_texts_iff_quotes (g : Grammar) (source : String) (r : ParseRecord) (t : Tree)
    (h : Tree.ofRecord g source r = .ok t) :
    ((∀ e, t.Has e → t.slice? (t.childSpan e) = some (t.childText e)) ↔
        ∀ record ∈ r.stream, record.Quotes source) ∧
      ∀ r' : ParseRecord, r'.tree = r.tree →
        r'.stream.map TokenRecord.shape = r.stream.map TokenRecord.shape →
        ∃ t', Tree.ofRecord g source r' = .ok t' := by
  obtain ⟨owners, hcheck, rfl⟩ := ofRecord_eq_ok h
  have hsound := (check_ok_iff_sound g source r).mp ⟨owners, hcheck⟩
  have hsize := check_size g source r owners hcheck
  refine ⟨⟨?_, ?_⟩, ?_⟩
  · intro htexts record hmem
    obtain ⟨k, hrecord⟩ := List.mem_iff_getElem?.mp hmem
    have hk : k < (Tree.layout g source r owners).tokenCount := by
      rw [layout_tokenCount g source r owners hsize]
      exact (List.getElem?_eq_some_iff.mp hrecord).1
    exact (layout_token_quotes_iff hsize hrecord).mp (htexts (.token k) hk)
  · intro hquotes e he
    cases e with
    | node id => exact layout_slice?_nodeSpan hsound he
    | token k =>
        obtain ⟨record, owner, hrecord, -⟩ := layout_token_data g source r owners hsize he
        exact (layout_token_quotes_iff hsize hrecord).mpr
          (hquotes record (List.mem_of_getElem? hrecord))
  · intro r' htree hshapes
    exact ofRecord_ok_of_sound (hsound.of_shapes_eq htree hshapes)

-- The values of the sample are those of the source, so its children show the source.
theorem sampleRecord_texts :
    ∃ t, Tree.ofRecord sampleGrammar "é b" sampleRecord = .ok t ∧
      ∀ e, t.Has e → t.slice? (t.childSpan e) = some (t.childText e) := by
  have h : Tree.ofRecord sampleGrammar "é b" sampleRecord =
      .ok (Tree.layout sampleGrammar "é b" sampleRecord #[some 1, some 0, some 2]) := rfl
  refine ⟨_, h, (ofRecord_texts_iff_quotes _ _ _ _ h).1.mpr ?_⟩
  intro record hmem
  simp only [sampleRecord, List.mem_cons, List.not_mem_nil, or_false] at hmem
  rcases hmem with rfl | rfl | rfl
  · exact ⟨"", " b", by decide, rfl⟩
  · exact ⟨"é", "b", by decide, rfl⟩
  · exact ⟨"é ", "", by decide, rfl⟩

-- One token, which says that it is another word than the source has.
def misquotedRecord : ParseRecord :=
  ⟨⟨10, [.token 0]⟩, [⟨1, "b", 0⟩]⟩

-- A record that misquotes its source becomes a tree, and the child and its span tell different texts.
theorem misquotedRecord_accepted :
    ∃ t, sampleGrammar.Made ∧ Tree.ofRecord sampleGrammar "a" misquotedRecord = .ok t ∧
      .token 0 ∈ t.children 0 ∧ t.slice? (t.childSpan (.token 0)) = some "a" ∧
      t.childText (.token 0) = "b" ∧ t.nodeText 0 = "a" ∧
      ¬ ∀ k < t.tokenCount, t.slice? (t.tokenSpan k) = some (t.tokenValue k) := by
  have h : Tree.ofRecord sampleGrammar "a" misquotedRecord =
      .ok (Tree.layout sampleGrammar "a" misquotedRecord #[some 0]) := rfl
  refine ⟨_, sampleGrammar_made, h, by decide, rfl, rfl, rfl, ?_⟩
  intro hagree
  have hfirst := hagree 0 (by decide)
  exact absurd hfirst (by decide)

end ExternalParser
