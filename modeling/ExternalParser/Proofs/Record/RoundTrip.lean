import ExternalParser.Proofs.Json.Compact
import ExternalParser.Proofs.Record.Assembly
import ExternalParser.Proofs.Record.Extension
import Mathlib.Algebra.Group.Nat.Defs
import Mathlib.Data.List.Permutation

namespace ExternalParser

open Json

-- A position is a number and a node an object with its two fields. What is neither has no text.
inductive ChildRecord.Laid : ChildRecord → List Token → Prop where
  | token (index : Nat) : Laid (.token index) [natural index]
  | node (kind : Nat) {children : List ChildRecord} {parts : List (List Token)}
      {entries : List Entry} (hchildren : List.Forall₂ Laid children parts)
      (horder : entries.Perm [("kind", [natural kind]), ("children", arrayOf parts)]) :
      Laid (.node kind children) (objectOf entries)

-- A token of the stream is an object with its three fields or the array of the three.
inductive TokenRecord.Laid (t : TokenRecord) : List Token → Prop where
  | object {entries : List Entry}
      (horder : entries.Perm
        [("kind", [natural t.kind]), ("value", [.str t.value]), ("offset", [natural t.offset])]) :
      Laid t (objectOf entries)
  | array : Laid t (arrayOf [[natural t.kind], [.str t.value], [natural t.offset]])

-- A record is an object with its two fields or the array of the two.
inductive ParseRecord.Laid (r : ParseRecord) : List Token → Prop where
  | object {tree : List Token} {parts : List (List Token)} {entries : List Entry}
      (htree : r.tree.asChild.Laid tree) (hstream : List.Forall₂ TokenRecord.Laid r.stream parts)
      (horder : entries.Perm [("tree", tree), ("stream", arrayOf parts)]) :
      Laid r (objectOf entries)
  | array {tree : List Token} {parts : List (List Token)} (htree : r.tree.asChild.Laid tree)
      (hstream : List.Forall₂ TokenRecord.Laid r.stream parts) :
      Laid r (arrayOf [tree, arrayOf parts])

-- A text writes a record when it spells the tokens of the record, one right behind the other.
def ParseRecord.Written (r : ParseRecord) (text : String) : Prop :=
  ∃ ts parts, r.Laid ts ∧ List.Forall₂ Spells ts parts ∧ text.toList = parts.flatten

-- What a record has to be for its text to hold it: no child is odd, and every number fits its word.
structure ParseRecord.Plain (r : ParseRecord) : Prop where
  noOddity : r.tree.oddities = []
  nodeKinds : ∀ n ∈ r.tree.records, n.kind < 2 ^ 32
  references : ∀ index ∈ r.tree.references, index < 2 ^ 64
  tokens : ∀ t ∈ r.stream, t.kind < 2 ^ 32 ∧ t.offset < 2 ^ 64

theorem perm_pair {entries : List Entry} {x y : Entry} (h : entries.Perm [x, y]) :
    entries = [x, y] ∨ entries = [y, x] := by
  have hmem := List.mem_permutations'.mpr h
  simpa [List.permutations', List.permutations'Aux] using hmem

theorem perm_triple {entries : List Entry} {x y z : Entry} (h : entries.Perm [x, y, z]) :
    entries = [x, y, z] ∨ entries = [y, x, z] ∨ entries = [y, z, x] ∨ entries = [x, z, y] ∨
      entries = [z, x, y] ∨ entries = [z, y, x] := by
  have hmem := List.mem_permutations'.mpr h
  simpa [List.permutations', List.permutations'Aux, or_assoc] using hmem

-- The numbers in a forest fit into words.
def Fits (cs : List ChildRecord) : Prop :=
  (∀ r ∈ recordsOf cs, r.kind ≤ maxWord) ∧ ∀ index ∈ referencesOf cs, index ≤ maxWord

theorem fits_token_iff {index : Nat} {cs : List ChildRecord} :
    Fits (.token index :: cs) ↔ index ≤ maxWord ∧ Fits cs := by
  simp only [Fits, recordsOf, ChildRecord.records, List.nil_append, referencesOf,
    ChildRecord.references, List.singleton_append, List.forall_mem_cons]
  exact and_left_comm

theorem fits_node_iff {kind : Nat} {children cs : List ChildRecord} :
    Fits (.node kind children :: cs) ↔ kind ≤ maxWord ∧ Fits children ∧ Fits cs := by
  simp only [Fits, recordsOf, ChildRecord.records, List.cons_append, List.forall_mem_cons,
    List.forall_mem_append, referencesOf, ChildRecord.references]
  constructor
  · rintro ⟨⟨hkind, hbelow, hcs⟩, hrefs, hrefs'⟩
    exact ⟨hkind, ⟨hbelow, hrefs⟩, hcs, hrefs'⟩
  · rintro ⟨hkind, ⟨hbelow, hrefs⟩, hcs, hrefs'⟩
    exact ⟨⟨hkind, hbelow, hcs⟩, hrefs, hrefs'⟩

-- The two fields of a node are put in order, whichever comes first.
theorem readsValue_node {e : Ending} {kind : Nat} {children : List ChildRecord}
    {parts : List (List Token)} {entries : List Entry} (hkind : kind ≤ maxWord)
    (hchildren : List.Forall₂ (ReadsValue e) (valuesOf children) parts)
    (horder : entries.Perm [("kind", [natural kind]), ("children", arrayOf parts)]) :
    ReadsValue e (ChildRecord.node kind children).value (objectOf entries) := by
  let items : String × Value := ("children", .arr (valuesOf children))
  let number : String × Value := ("kind", .num (.natural kind))
  have hnumber : ReadsEntry e number ("kind", [natural kind]) := ⟨rfl, readsValue_natural hkind⟩
  have hitems : ReadsEntry e items ("children", arrayOf parts) :=
    ⟨rfl, readsValue_arrayOf hchildren⟩
  rcases perm_pair horder with rfl | rfl
  · have hsorted : Fields.insertAll [] [number, items] = [items, number] := by
      have hlt : ("children" : String) < "kind" := by decide
      simp [Fields.insertAll, Fields.insert, number, items, hlt]
    have hread := readsValue_objectOf (.cons hnumber (.cons hitems .nil))
    rwa [hsorted] at hread
  · have hsorted : Fields.insertAll [] [items, number] = [items, number] := by
      have hge : ¬ ("kind" : String) < "children" := by decide
      simp [Fields.insertAll, Fields.insert, number, items, hge]
    have hread := readsValue_objectOf (.cons hitems (.cons hnumber .nil))
    rwa [hsorted] at hread

theorem readsValue_forest (e : Ending) (cs : List ChildRecord) {parts : List (List Token)}
    (h : List.Forall₂ ChildRecord.Laid cs parts) (hfits : Fits cs) :
    List.Forall₂ (ReadsValue e) (valuesOf cs) parts := by
  induction cs using ChildRecord.forestInduction generalizing parts with
  | nil =>
      cases h
      exact .nil
  | token index cs ih =>
      obtain ⟨hindex, hcs⟩ := fits_token_iff.mp hfits
      cases h with
      | cons hc htail =>
          cases hc
          exact .cons (readsValue_natural hindex) (ih htail hcs)
  | node kind children cs ihc ih =>
      obtain ⟨hkind, hbelow, hcs⟩ := fits_node_iff.mp hfits
      cases h with
      | cons hc htail =>
          cases hc with
          | node _ hchildren horder =>
              exact .cons (readsValue_node hkind (ihc hchildren hbelow) horder) (ih htail hcs)
  | invalid value cs ih =>
      cases h with
      | cons hc _ => cases hc

theorem tidy_perm {entries others : List Entry} (h : entries.Perm others)
    (hothers : ∀ x ∈ others, Tidy x.2) : ∀ x ∈ entries, Tidy x.2 :=
  fun x hx => hothers x (h.mem_iff.mp hx)

theorem tidy_forest (cs : List ChildRecord) {parts : List (List Token)}
    (h : List.Forall₂ ChildRecord.Laid cs parts) : ∀ part ∈ parts, Tidy part := by
  induction cs using ChildRecord.forestInduction generalizing parts with
  | nil =>
      cases h
      simp
  | token index cs ih =>
      cases h with
      | cons hc htail =>
          cases hc
          exact List.forall_mem_cons.mpr ⟨tidy_natural index, ih htail⟩
  | node kind children cs ihc ih =>
      cases h with
      | cons hc htail =>
          cases hc with
          | node _ hchildren horder =>
              have hentries := tidy_perm horder
                (by simpa using ⟨tidy_natural kind, tidy_arrayOf (ihc hchildren)⟩)
              exact List.forall_mem_cons.mpr ⟨tidy_objectOf hentries, ih htail⟩
  | invalid value cs ih =>
      cases h with
      | cons hc _ => cases hc

theorem exists_laid_forest (cs : List ChildRecord) (hodd : odditiesOf cs = []) :
    ∃ parts, List.Forall₂ ChildRecord.Laid cs parts := by
  induction cs using ChildRecord.forestInduction with
  | nil => exact ⟨[], .nil⟩
  | token index cs ih =>
      obtain ⟨parts, hparts⟩ := ih (by simpa using hodd)
      exact ⟨_, .cons (.token index) hparts⟩
  | node kind children cs ihc ih =>
      simp only [odditiesOf, ChildRecord.oddities, List.append_eq_nil_iff] at hodd
      obtain ⟨below, hbelow⟩ := ihc hodd.1
      obtain ⟨parts, hparts⟩ := ih hodd.2
      exact ⟨_, .cons (.node kind hbelow (.refl _)) hparts⟩
  | invalid value cs ih => simp at hodd

theorem TokenRecord.Laid.tidy {t : TokenRecord} {part : List Token} (h : t.Laid part) :
    Tidy part := by
  have hkind := tidy_natural t.kind
  have hvalue := tidy_str t.value
  have hoffset := tidy_natural t.offset
  cases h with
  | object horder =>
      exact tidy_objectOf (tidy_perm horder (by simpa using ⟨hkind, hvalue, hoffset⟩))
  | array => exact tidy_arrayOf (by simpa using ⟨hkind, hvalue, hoffset⟩)

theorem TokenRecord.Laid.readsPart {t : TokenRecord} {part : List Token} (h : t.Laid part)
    (hkind : t.kind ≤ maxHalfWord) (hoffset : t.offset ≤ maxWord) (e : Ending) :
    ReadsPart (TokenRecord.read e) t part := by
  have hword : t.kind ≤ maxWord := Nat.le_trans hkind (by decide)
  have hk : ReadsPart (readKind e) t.kind [natural t.kind] := readsPart_natural hkind hword _ e
  have hv := readsPart_str t.value e
  have ho : ReadsPart (readOffset e) t.offset [natural t.offset] :=
    readsPart_natural hoffset hoffset _ e
  cases h with
  | @object entries horder =>
      have hkindField : ∀ value offset rest, readField e ⟨none, value, offset⟩ "kind"
          (.colon :: ([natural t.kind] ++ rest)) = .ok (⟨some t.kind, value, offset⟩, rest) :=
        fun _ _ rest => bind_eq_ok_iff.mpr ⟨_, readOnce_colon hk "kind" e rest, rfl⟩
      have hvalueField : ∀ kind offset rest, readField e ⟨kind, none, offset⟩ "value"
          (.colon :: ([.str t.value] ++ rest)) = .ok (⟨kind, some t.value, offset⟩, rest) :=
        fun _ _ rest => bind_eq_ok_iff.mpr ⟨_, readOnce_colon hv "value" e rest, rfl⟩
      have hoffsetField : ∀ kind value rest, readField e ⟨kind, value, none⟩ "offset"
          (.colon :: ([natural t.offset] ++ rest)) = .ok (⟨kind, value, some t.offset⟩, rest) :=
        fun _ _ rest => bind_eq_ok_iff.mpr ⟨_, readOnce_colon ho "offset" e rest, rfl⟩
      have hfills : Fills (readField e) ⟨none, none, none⟩ entries
          ⟨some t.kind, some t.value, some t.offset⟩ := by
        rcases perm_triple horder with rfl | rfl | rfl | rfl | rfl | rfl
        · exact .cons (hkindField _ _) (.cons (hvalueField _ _) (.cons (hoffsetField _ _) (.nil _)))
        · exact .cons (hvalueField _ _) (.cons (hkindField _ _) (.cons (hoffsetField _ _) (.nil _)))
        · exact .cons (hvalueField _ _) (.cons (hoffsetField _ _) (.cons (hkindField _ _) (.nil _)))
        · exact .cons (hkindField _ _) (.cons (hoffsetField _ _) (.cons (hvalueField _ _) (.nil _)))
        · exact .cons (hoffsetField _ _) (.cons (hkindField _ _) (.cons (hvalueField _ _) (.nil _)))
        · exact .cons (hoffsetField _ _) (.cons (hvalueField _ _) (.cons (hkindField _ _) (.nil _)))
      refine ⟨opens_cons (by simp), fun rest => ?_⟩
      rw [objectOf_append]
      exact bind_eq_ok_iff.mpr ⟨_, readFields_objectOf hfills e rfl, rfl⟩
  | array =>
      refine ⟨opens_cons (by simp), fun rest => ?_⟩
      refine bind_eq_ok_iff.mpr ⟨_, readPosition_first hk _ e _, ?_⟩
      refine bind_eq_ok_iff.mpr ⟨_, readPosition_next hv 0 _ e _, ?_⟩
      exact bind_eq_ok_iff.mpr ⟨_, readPosition_next ho 1 _ e _, rfl⟩

namespace ParseRecord

theorem tidy_tree {c : ChildRecord} {part : List Token} (h : c.Laid part) : Tidy part :=
  tidy_forest [c] (.cons h .nil) part List.mem_cons_self

theorem tidy_stream {stream : List TokenRecord} {parts : List (List Token)}
    (h : List.Forall₂ TokenRecord.Laid stream parts) : Tidy (arrayOf parts) := by
  apply tidy_arrayOf
  induction h with
  | nil => simp
  | cons ht _ ih => exact List.forall_mem_cons.mpr ⟨ht.tidy, ih⟩

theorem Laid.tidy {r : ParseRecord} {ts : List Token} (h : r.Laid ts) : Tidy ts := by
  cases h with
  | object htree hstream horder =>
      exact tidy_objectOf (tidy_perm horder (by simpa using ⟨tidy_tree htree, tidy_stream hstream⟩))
  | array htree hstream =>
      exact tidy_arrayOf (by simpa using ⟨tidy_tree htree, tidy_stream hstream⟩)

theorem exists_laid {r : ParseRecord} (hodd : r.tree.oddities = []) : ∃ ts, r.Laid ts := by
  obtain ⟨parts, hparts⟩ := exists_laid_forest r.tree.children hodd
  have hstream : List.Forall₂ TokenRecord.Laid r.stream
      (r.stream.map fun t => arrayOf [[natural t.kind], [.str t.value], [natural t.offset]]) := by
    rw [List.forall₂_map_right_iff, List.forall₂_same]
    exact fun t _ => .array
  exact ⟨_, .array (.node r.tree.kind hparts (.refl _)) hstream⟩

theorem Plain.kind_le {r : ParseRecord} (h : r.Plain) : ∀ n ∈ r.tree.records, n.kind ≤ maxHalfWord :=
  fun n hn => Nat.le_sub_one_of_lt (h.nodeKinds n hn)

theorem Plain.readsTree {r : ParseRecord} (h : r.Plain) {tree : List Token}
    (htree : r.tree.asChild.Laid tree) (e : Ending) : ReadsPart (readValue e) r.tree.value tree := by
  have hkinds : ∀ n ∈ r.tree.records, n.kind ≤ maxWord :=
    fun n hn => Nat.le_trans (h.kind_le n hn) (by decide)
  have hfits : Fits [r.tree.asChild] := by
    simp only [Fits, NodeRecord.asChild, recordsOf, ChildRecord.records, referencesOf,
      ChildRecord.references, List.append_nil]
    exact ⟨hkinds, fun index hi => Nat.le_sub_one_of_lt (h.references index hi)⟩
  cases readsValue_forest e [r.tree.asChild] (.cons htree .nil) hfits with
  | cons hread _ => exact hread.readsPart

theorem Plain.readsStream {r : ParseRecord} (h : r.Plain) {parts : List (List Token)}
    (hstream : List.Forall₂ TokenRecord.Laid r.stream parts) (e : Ending) :
    ReadsPart (readStream e) r.stream (arrayOf parts) := by
  have hboth := (List.forall₂_and_left _ _).mpr ⟨h.tokens, hstream⟩
  apply readsPart_arrayOf
  refine hboth.imp ?_
  rintro t part ⟨⟨hkind, hoffset⟩, ht⟩
  exact ht.readsPart (Nat.le_sub_one_of_lt hkind) (Nat.le_sub_one_of_lt hoffset) e

theorem readRaw_laid {r : ParseRecord} (h : r.Plain) {ts : List Token} (hts : r.Laid ts)
    (e : Ending) : readRaw e ts = .ok ((r.tree.value, r.stream), []) := by
  cases hts with
  | @object tree parts entries htree hstream horder =>
      have ht := h.readsTree htree e
      have hs := h.readsStream hstream e
      have htreeField : ∀ stream rest, readField e ⟨none, stream⟩ "tree"
          (.colon :: (tree ++ rest)) = .ok (⟨some r.tree.value, stream⟩, rest) :=
        fun _ rest => bind_eq_ok_iff.mpr ⟨_, readOnce_colon ht "tree" e rest, rfl⟩
      have hstreamField : ∀ tree rest, readField e ⟨tree, none⟩ "stream"
          (.colon :: (arrayOf parts ++ rest)) = .ok (⟨tree, some r.stream⟩, rest) :=
        fun _ rest => bind_eq_ok_iff.mpr ⟨_, readOnce_colon hs "stream" e rest, rfl⟩
      have hfills : Fills (readField e) ⟨none, none⟩ entries ⟨some r.tree.value, some r.stream⟩ := by
        rcases perm_pair horder with rfl | rfl
        · exact .cons (htreeField _) (.cons (hstreamField _) (.nil _))
        · exact .cons (hstreamField _) (.cons (htreeField _) (.nil _))
      exact bind_eq_ok_iff.mpr ⟨_, readFields_objectOf hfills e rfl, rfl⟩
  | @array tree parts htree hstream =>
      have hall : arrayOf [tree, arrayOf parts] =
          .openBracket :: (tree ++ .comma :: (arrayOf parts ++ [.closeBracket])) := by
        simp [arrayOf, joined]
      rw [hall]
      refine bind_eq_ok_iff.mpr ⟨_, readPosition_first (h.readsTree htree e) _ e _, ?_⟩
      refine bind_eq_ok_iff.mpr ⟨_, readPosition_next (h.readsStream hstream e) 0 _ e _, ?_⟩
      rfl

-- Every text of a record is decoded as the record, and there is one.
theorem decode_written (r : ParseRecord) (h : r.Plain) :
    (∃ text, r.Written text) ∧ ∀ text, r.Written text → decode (Utf8.encode text) = .ok r := by
  constructor
  · obtain ⟨ts, hts⟩ := exists_laid h.noOddity
    obtain ⟨-, parts, hparts⟩ := hts.tidy.exists_spelling
    exact ⟨String.ofList parts.flatten, ts, parts, hts, hparts, String.toList_ofList⟩
  · rintro text ⟨ts, parts, hts, hparts, htext⟩
    refine decode_eq_ok_iff.mpr ⟨ts, r.tree.value, ?_, readRaw_laid h hts .finished, ?_⟩
    · exact tokens_encode_of_spelled hparts hts.tidy.exists_spelling.1 htext
    · exact NodeRecord.ofValue?_value r.tree h.noOddity h.kind_le

-- The largest numbers and a string with every kind of escape; the fields stand in other orders.
def knotty : ParseRecord where
  tree := ⟨4294967295, [.token 18446744073709551615, .node 0 []]⟩
  stream := [⟨4294967295, "é\"\n\x1f", 18446744073709551615⟩, ⟨0, "", 0⟩]

def knottyText : String :=
  "\x7b\"stream\":[\x7b\"offset\":18446744073709551615,\"value\":\"é\\\"\\n\\u001F\"," ++
    "\"kind\":4294967295\x7d,[0,\"\",0]],\"tree\":\x7b\"kind\":4294967295," ++
    "\"children\":[18446744073709551615,\x7b\"children\":[],\"kind\":0\x7d]\x7d\x7d"

theorem knotty_plain : knotty.Plain where
  noOddity := rfl
  nodeKinds := by decide
  references := by decide
  tokens := by decide

theorem knotty_written : knotty.Written knottyText := by
  have htree : knotty.tree.asChild.Laid _ :=
    .node 4294967295 (.cons (.token 18446744073709551615)
      (.cons (.node 0 .nil (.swap _ _ _)) .nil)) (.refl _)
  have hstream : List.Forall₂ TokenRecord.Laid knotty.stream _ :=
    .cons (.object (List.reverse_perm [_, _, _])) (.cons .array .nil)
  have hvalue : Spells (.str "é\"\n\x1f") _ :=
    .str _ _ (.cons (.plain 'é' (by decide)) <| .cons (.letter '"' '"' (by decide)) <|
      .cons (.letter '\n' 'n' (by decide)) <|
      .cons (.code '\x1f' (by decide) 1 15 '1' 'F' (by decide) (by decide) rfl) .nil)
  have name := spells_writeString
  exact ⟨_, _, .object htree hstream (.swap _ _ _),
    .cons .openBrace <| .cons (name "stream") <| .cons .colon <| .cons .openBracket <|
    .cons .openBrace <| .cons (name "offset") <| .cons .colon <| .cons (.num _) <| .cons .comma <|
    .cons (name "value") <| .cons .colon <| .cons hvalue <| .cons .comma <| .cons (name "kind") <|
    .cons .colon <| .cons (.num _) <| .cons .closeBrace <| .cons .comma <| .cons .openBracket <|
    .cons (.num _) <| .cons .comma <| .cons (name "") <| .cons .comma <| .cons (.num _) <|
    .cons .closeBracket <| .cons .closeBracket <| .cons .comma <| .cons (name "tree") <|
    .cons .colon <| .cons .openBrace <| .cons (name "kind") <| .cons .colon <| .cons (.num _) <|
    .cons .comma <| .cons (name "children") <| .cons .colon <| .cons .openBracket <|
    .cons (.num _) <| .cons .comma <| .cons .openBrace <| .cons (name "children") <| .cons .colon <|
    .cons .openBracket <| .cons .closeBracket <| .cons .comma <| .cons (name "kind") <|
    .cons .colon <| .cons (.num _) <| .cons .closeBrace <| .cons .closeBracket <|
    .cons .closeBrace <| .cons .closeBrace .nil,
    by decide +kernel⟩

theorem decode_knottyText :
    knotty.Plain ∧ knotty.Written knottyText ∧ decode (Utf8.encode knottyText) = .ok knotty :=
  ⟨knotty_plain, knotty_written, (decode_written knotty knotty_plain).2 knottyText knotty_written⟩

end ParseRecord

end ExternalParser
