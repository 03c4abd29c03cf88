import ExternalParser.Record.Decode
import ExternalParser.Proofs.Json.Reading
import ExternalParser.Proofs.Json.Tokens
import ExternalParser.Proofs.Record.Assembly

namespace ExternalParser

open Json

namespace TokenRecord

theorem local_readField (d : Draft) (name : String) : Local fun e => readField e d name := by
  unfold readField
  split
  · exact (local_readOnce d.kind name (local_readNatural _ _)).bind fun kind => Local.pure _
  · split
    · exact (local_readOnce d.value name local_readText).bind fun value => Local.pure _
    · split
      · exact (local_readOnce d.offset name (local_readNatural _ _)).bind fun offset => Local.pure _
      · exact localSkip_skipField.bind (Local.pure d)

theorem local_read : Local read := by
  intro ts t rest h
  match ts with
  | .openBrace :: ts =>
      refine Local.behind ((local_allFields local_readField _).bind fun d => ?_) .openBrace h
      cases hd : ofDraft d with
      | error f =>
          intro ts t rest h
          simp only [hd] at h
          cases h
      | ok t =>
          simp only [hd]
          exact Local.pure t
  | .openBracket :: ts =>
      refine Local.behind ((local_readPosition (local_readNatural _ _) 0 _).bind fun kind => ?_)
        .openBracket h
      refine (local_readPosition local_readText 1 _).bind fun value => ?_
      refine (local_readPosition (local_readNatural _ _) 2 _).bind fun offset => ?_
      exact localSkip_endItems.bind (Local.pure _)
  | [] => cases h
  | .null :: _ | .bool _ :: _ | .num _ :: _ | .str _ :: _ | .closeBrace :: _ | .closeBracket :: _
  | .comma :: _ | .colon :: _ => cases h

end TokenRecord

namespace ParseRecord

theorem local_readStream : Local readStream :=
  local_readArray TokenRecord.local_read

theorem local_readField (d : Draft) (name : String) : Local fun e => readField e d name := by
  unfold readField
  split
  · exact (local_readOnce d.tree name local_readValue).bind fun tree => Local.pure _
  · split
    · exact (local_readOnce d.stream name local_readStream).bind fun stream => Local.pure _
    · exact localSkip_skipField.bind (Local.pure d)

theorem local_readRaw : Local readRaw := by
  intro ts x rest h
  match ts with
  | .openBrace :: ts =>
      refine Local.behind ((local_allFields local_readField _).bind fun d => ?_) .openBrace h
      obtain ⟨tree, stream⟩ := d
      cases tree with
      | none =>
          intro ts x rest h
          cases h
      | some tree =>
          cases stream with
          | none =>
              intro ts x rest h
              cases h
          | some stream => exact Local.pure (tree, stream)
  | .openBracket :: ts =>
      refine Local.behind ((local_readPosition local_readValue 0 _).bind fun tree => ?_)
        .openBracket h
      refine (local_readPosition local_readStream 1 _).bind fun stream => ?_
      exact localSkip_endItems.bind (Local.pure _)
  | [] => cases h
  | .null :: _ | .bool _ :: _ | .num _ :: _ | .str _ :: _ | .closeBrace :: _ | .closeBracket :: _
  | .comma :: _ | .colon :: _ => cases h

-- A record is over at the mark that closes it.
theorem readRaw_closes {ts rest : List Token} {x : Value × List TokenRecord}
    (h : readRaw .finished ts = .ok (x, rest)) :
    .closeBrace :: rest <:+ ts ∨ .closeBracket :: rest <:+ ts := by
  match ts with
  | .openBrace :: ts =>
      obtain ⟨⟨d, middle⟩, hfields, hx⟩ := bind_eq_ok_iff.mp h
      obtain ⟨tree, -, hx⟩ := bind_eq_ok_iff.mp hx
      obtain ⟨stream, -, hx⟩ := bind_eq_ok_iff.mp hx
      cases hx
      exact .inl ((readFields_closes local_readField hfields).trans (List.suffix_cons _ _))
  | .openBracket :: ts =>
      obtain ⟨⟨tree, middle⟩, htree, hx⟩ := bind_eq_ok_iff.mp h
      obtain ⟨⟨stream, last⟩, hstream, hx⟩ := bind_eq_ok_iff.mp hx
      obtain ⟨after, hend, hx⟩ := bind_eq_ok_iff.mp hx
      cases hx
      obtain rfl := endItems_eq_ok_iff.mp hend
      have hmiddle := (local_readPosition local_readValue 0 tupleName ts tree middle htree).1
      have hlast := (local_readPosition local_readStream 1 tupleName middle stream _ hstream).1
      exact .inr (hlast.trans (hmiddle.trans (List.suffix_cons _ _)))
  | [] => cases h
  | .null :: _ | .bool _ :: _ | .num _ :: _ | .str _ :: _ | .closeBrace :: _ | .closeBracket :: _
  | .comma :: _ | .colon :: _ => cases h

theorem readEnd_eq_ok_iff {e : Ending} {ts : List Token} :
    readEnd e ts = .ok () ↔ ts = [] ∧ e = .finished := by
  cases ts with
  | nil => simp [readEnd]
  | cons t ts => simp [readEnd]

-- A payload is decoded when it is lexed to its end, read to its end, and its tree is a node.
theorem decode_eq_ok_iff {bs : Bytes} {r : ParseRecord} :
    decode bs = .ok r ↔
      ∃ ts tree, tokens bs = (ts, .finished) ∧
        readRaw .finished ts = .ok ((tree, r.stream), []) ∧
        NodeRecord.ofValue? tree = some r.tree := by
  rcases htokens : tokens bs with ⟨ts, e⟩
  simp only [decode, htokens]
  constructor
  · intro h
    obtain ⟨⟨⟨tree, stream⟩, rest⟩, hread, h⟩ := bind_eq_ok_iff.mp h
    obtain ⟨_, hend, h⟩ := bind_eq_ok_iff.mp h
    obtain ⟨rfl, rfl⟩ := readEnd_eq_ok_iff.mp hend
    cases htree : NodeRecord.ofValue? tree with
    | none =>
        simp only [htree] at h
        cases h
    | some root =>
        simp only [htree] at h
        cases h
        exact ⟨ts, tree, rfl, hread, htree⟩
  · rintro ⟨_, tree, heq, hread, htree⟩
    cases heq
    refine bind_eq_ok_iff.mpr ⟨_, hread, bind_eq_ok_iff.mpr ⟨(), rfl, ?_⟩⟩
    simp only [htree]
    rfl

theorem getLast?_ne_num {ts : List Token} {x : Value × List TokenRecord}
    (h : readRaw .finished ts = .ok (x, [])) (n : Numeral) : ts.getLast? ≠ some (.num n) := by
  rcases readRaw_closes h with ⟨front, rfl⟩ | ⟨front, rfl⟩
  · simp
  · simp

theorem decode_append_spaces {bs spaces : Bytes} {r : ParseRecord} (h : decode bs = .ok r)
    (hs : ∀ b ∈ spaces, isSpace b = true) : decode (bs ++ spaces) = .ok r := by
  obtain ⟨ts, tree, htokens, hread, htree⟩ := decode_eq_ok_iff.mp h
  exact decode_eq_ok_iff.mpr ⟨ts, tree, tokens_append_spaces htokens hs, hread, htree⟩

-- The record is read as before, and what follows it is found behind it.
theorem decode_append_other {bs more : Bytes} {r : ParseRecord} (h : decode bs = .ok r)
    (hmore : ∃ b ∈ more, isSpace b = false) : ∃ f, decode (bs ++ more) = .error f := by
  obtain ⟨ts, tree, htokens, hread, htree⟩ := decode_eq_ok_iff.mp h
  obtain ⟨new, e, hall, hnew⟩ := tokens_append_other htokens (getLast?_ne_num hread) hmore
  cases hr : decode (bs ++ more) with
  | error f => exact ⟨f, rfl⟩
  | ok r' =>
      obtain ⟨_, tree', hall', hread', -⟩ := decode_eq_ok_iff.mp hr
      rw [hall] at hall'
      cases hall'
      rw [(local_readRaw ts _ [] hread).2 .finished new] at hread'
      simp only [List.nil_append, Except.ok.injEq, Prod.mk.injEq] at hread'
      simp [hread'.2] at hnew

-- The whitespace of JSON: space, tab, line feed and carriage return.
def spaces : List UInt8 := [0x20, 0x09, 0x0A, 0x0D]

theorem mem_spaces_iff (b : UInt8) : b ∈ spaces ↔ isSpace b = true := by
  simp [spaces, isSpace, or_assoc]

-- Behind a payload that is decoded whitespace changes nothing and all else is an error; so no part
-- of it that lacks more than whitespace at its end is decoded.
theorem decode_append (bs : Bytes) (r : ParseRecord) (h : decode bs = .ok r) :
    (∀ more : Bytes, (∀ b ∈ more, b ∈ spaces) → decode (bs ++ more) = .ok r) ∧
      (∀ more : Bytes, (∃ b ∈ more, b ∉ spaces) → ∃ f, decode (bs ++ more) = .error f) ∧
      ∀ front back : Bytes, front ++ back = bs → (∃ b ∈ back, b ∉ spaces) →
        ∃ f, decode front = .error f := by
  have hother : ∀ more : Bytes, (∃ b ∈ more, b ∉ spaces) → ∃ b ∈ more, isSpace b = false := by
    rintro more ⟨b, hb, hne⟩
    exact ⟨b, hb, by simpa [mem_spaces_iff] using hne⟩
  refine ⟨?_, ?_, ?_⟩
  · exact fun more hs => decode_append_spaces h fun b hb => (mem_spaces_iff b).mp (hs b hb)
  · exact fun more hmore => decode_append_other h (hother more hmore)
  · rintro front back rfl hback
    cases hfront : decode front with
    | error f => exact ⟨f, rfl⟩
    | ok r' =>
        obtain ⟨f, hf⟩ := decode_append_other hfront (hother back hback)
        rw [hf] at h
        cases h

-- A payload with a field that is skipped, whose value is beyond every number.
def annotated : Bytes :=
  Utf8.encode ("\x7b\"note\":1e999,\"tree\":\x7b\"kind\":7,\"children\":[0]\x7d," ++
    "\"stream\":[[1,\"\\u00e9\",0]]\x7d")

def annotatedRecord : ParseRecord :=
  ⟨⟨7, [.token 0]⟩, [⟨1, "é", 0⟩]⟩

theorem decode_annotated : decode annotated = .ok annotatedRecord := by
  have htokens : tokens annotated =
      ([.openBrace, .str "note", .colon, .num ⟨false, [1], none, some (false, [9, 9, 9])⟩, .comma,
        .str "tree", .colon, .openBrace, .str "kind", .colon, .num ⟨false, [7], none, none⟩, .comma,
        .str "children", .colon, .openBracket, .num ⟨false, [0], none, none⟩, .closeBracket,
        .closeBrace, .comma, .str "stream", .colon, .openBracket, .openBracket,
        .num ⟨false, [1], none, none⟩, .comma, .str "é", .comma, .num ⟨false, [0], none, none⟩,
        .closeBracket, .closeBracket, .closeBrace], .finished) := by
    decide +kernel
  have htree : NodeRecord.ofValue? annotatedRecord.tree.value = some annotatedRecord.tree :=
    NodeRecord.ofValue?_value _ rfl (by decide)
  exact decode_eq_ok_iff.mpr ⟨_, _, htokens, rfl, htree⟩

theorem decode_annotated_append :
    decode annotated = .ok annotatedRecord ∧
      decode (annotated ++ [0x20, 0x0A]) = .ok annotatedRecord ∧
      (∃ f, decode (annotated ++ [0x20, 0x7D]) = .error f) ∧
      ∃ f, decode annotated.dropLast = .error f := by
  obtain ⟨hspaces, hother, hcut⟩ := decode_append annotated annotatedRecord decode_annotated
  refine ⟨decode_annotated, hspaces _ (by simp [spaces]), hother _ ⟨0x7D, by decide, by decide⟩, ?_⟩
  exact hcut annotated.dropLast [0x7D] (by decide +kernel) ⟨0x7D, by decide, by decide⟩

end ParseRecord

end ExternalParser
