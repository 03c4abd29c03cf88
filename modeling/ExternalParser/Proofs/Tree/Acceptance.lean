import ExternalParser.Client
import ExternalParser.Proofs.Record.Forest
import Mathlib.Data.List.Basic

namespace ExternalParser

-- A text can be cut at byte offset `n`.
def Text.Boundary (s : String) (n : Nat) : Prop :=
  ∃ before after : String, s = before ++ after ∧ before.utf8ByteSize = n

theorem Text.isBoundary_iff (s : String) (n : Nat) : Text.isBoundary s n ↔ Text.Boundary s n := by
  rw [Text.isBoundary, String.Pos.Raw.isValid_eq_true_iff, String.Pos.Raw.isValid_iff_exists_append]
  constructor
  · rintro ⟨before, after, hs, hn⟩
    exact ⟨before, after, hs, (congrArg String.Pos.Raw.byteIdx hn).symm⟩
  · rintro ⟨before, after, hs, hn⟩
    exact ⟨before, after, hs, String.Pos.Raw.ext hn.symm⟩

-- Some entry of a table has the number.
def KindTable.Has (t : KindTable) (id : Nat) : Prop :=
  ∃ name, (id, name) ∈ t.entries

theorem KindTable.contains_iff (t : KindTable) (id : Nat) : t.contains id ↔ t.Has id := by
  simp [KindTable.contains, KindTable.name?, KindTable.Has]

-- What is asked of a token by itself.
structure TokenRecord.Fits (g : Grammar) (source : String) (t : TokenRecord) : Prop where
  kind : g.tokenKinds.Has t.kind
  inSource : t.offset + t.value.utf8ByteSize ≤ source.utf8ByteSize
  begins : Text.Boundary source t.offset
  ends : Text.Boundary source (t.offset + t.value.utf8ByteSize)

-- What is asked of a record. The sum of an offset and a length is exact, so that no sum wraps.
structure ParseRecord.Sound (g : Grammar) (source : String) (r : ParseRecord) : Prop where
  tokens : ∀ t ∈ r.stream, t.Fits g source
  ordered : (r.stream.map (·.offset)).Pairwise (· ≤ ·)
  nodeKinds : ∀ n ∈ r.tree.records, g.nodeKinds.Has n.kind
  noOddity : r.tree.oddities = []
  inStream : ∀ index ∈ r.tree.references, index < r.stream.length
  once : r.tree.references.Nodup

theorem TokenRecord.defect?_eq_none_iff (g : Grammar) (source : String) (index previous : Nat)
    (t : TokenRecord) :
    t.defect? g source index previous = none ↔ t.Fits g source ∧ previous ≤ t.offset := by
  have hk := g.tokenKinds.contains_iff t.kind
  have hb := Text.isBoundary_iff source t.offset
  have he := Text.isBoundary_iff source t.stop
  unfold TokenRecord.defect?
  constructor
  · intro h
    split_ifs at h with h₁ h₂ h₃ h₄
    exact ⟨⟨hk.mp h₁, Nat.le_of_not_lt h₂, hb.mp h₃.1, he.mp h₃.2⟩,
      Nat.le_of_not_lt h₄⟩
  · rintro ⟨⟨h₁, h₂, h₃, h₄⟩, h₅⟩
    have hstop : ¬ source.utf8ByteSize < t.stop := Nat.not_lt_of_le h₂
    simp [hk.mpr h₁, hb.mpr h₃, he.mpr h₄, hstop, Nat.not_lt_of_le h₅]

-- The predecessor of a token is the one with the largest offset so far, because nothing before it
-- fell.
theorem streamDefect?_eq_none_iff (g : Grammar) (source : String) (index previous : Nat)
    (ts : List TokenRecord) :
    streamDefect? g source index previous ts = none ↔
      (∀ t ∈ ts, t.Fits g source) ∧ (previous :: ts.map (·.offset)).Pairwise (· ≤ ·) := by
  induction ts generalizing index previous with
  | nil => simp [streamDefect?]
  | cons t ts ih =>
      have hd := t.defect?_eq_none_iff g source index previous
      simp only [streamDefect?]
      split
      · rename_i d heq
        simp only [heq, reduceCtorEq, false_iff] at hd
        simp only [reduceCtorEq, List.mem_cons, forall_eq_or_imp, List.map_cons,
          List.pairwise_cons, false_iff]
        rintro ⟨⟨hfits, -⟩, hle, -⟩
        exact hd ⟨hfits, hle.1⟩
      · rename_i heq
        obtain ⟨hfits, hle⟩ := hd.mp heq
        rw [ih]
        simp only [List.mem_cons, forall_eq_or_imp, List.map_cons, List.pairwise_cons]
        constructor
        · rintro ⟨hrest, hfirst, hpairs⟩
          exact ⟨⟨hfits, hrest⟩, ⟨hle, fun x hx => Nat.le_trans hle (hfirst x hx)⟩, hfirst, hpairs⟩
        · rintro ⟨⟨-, hrest⟩, -, hfirst, hpairs⟩
          exact ⟨hrest, hfirst, hpairs⟩

namespace Visit

@[simp]
def kind? : Visit → Option Nat
  | .node _ kind => some kind
  | .token _ _ | .invalid _ _ => none

@[simp]
def index? : Visit → Option Nat
  | .token _ index => some index
  | .node _ _ | .invalid _ _ => none

@[simp]
def oddity? : Visit → Option Json.Value
  | .invalid _ value => some value
  | .node _ _ | .token _ _ => none

end Visit

attribute [simp] ChildRecord.visits visitsOf

-- The walk meets what the forest holds, and in the same order.
theorem visitsOf_contents (parent next : Nat) (cs : List ChildRecord) :
    (visitsOf parent next cs).filterMap Visit.kind? = (recordsOf cs).map (·.kind) ∧
    (visitsOf parent next cs).filterMap Visit.index? = referencesOf cs ∧
    (visitsOf parent next cs).filterMap Visit.oddity? = odditiesOf cs := by
  induction cs using ChildRecord.forestInduction generalizing parent next with
  | nil => exact ⟨rfl, rfl, rfl⟩
  | token index cs ih =>
      obtain ⟨hk, hi, ho⟩ := ih parent next
      simp [List.filterMap_cons, hk, hi, ho]
  | node kind children cs ihc ih =>
      obtain ⟨hk, hi, ho⟩ := ih parent (next + (1 + nodeCounts children))
      obtain ⟨hck, hci, hco⟩ := ihc next (next + 1)
      simp [List.filterMap_cons, hk, hi, ho, hck, hci, hco]
  | invalid value cs ih =>
      obtain ⟨hk, hi, ho⟩ := ih parent next
      simp [List.filterMap_cons, hk, hi, ho]

-- What the rest of a walk needs of the owners that it starts with.
structure Passable (g : Grammar) (owners : Owners) (visits : List Visit) : Prop where
  kinds : ∀ kind ∈ visits.filterMap Visit.kind?, g.nodeKinds.contains kind
  clean : visits.filterMap Visit.oddity? = []
  free : ∀ index ∈ visits.filterMap Visit.index?, owners[index]? = some none
  once : (visits.filterMap Visit.index?).Nodup

theorem passable_node_iff (g : Grammar) (owners : Owners) (id kind : Nat) (visits : List Visit) :
    Passable g owners (.node id kind :: visits) ↔
      g.nodeKinds.contains kind ∧ Passable g owners visits := by
  constructor
  · rintro ⟨hk, hc, hf, ho⟩
    simp only [List.filterMap_cons, Visit.kind?, Visit.oddity?, Visit.index?, List.mem_cons,
      forall_eq_or_imp] at hk hc hf ho
    exact ⟨hk.1, hk.2, hc, hf, ho⟩
  · rintro ⟨hkind, hk, hc, hf, ho⟩
    refine ⟨?_, by simpa [List.filterMap_cons] using hc, by simpa [List.filterMap_cons] using hf,
      by simpa [List.filterMap_cons] using ho⟩
    simp only [List.filterMap_cons, Visit.kind?, List.mem_cons, forall_eq_or_imp]
    exact ⟨hkind, hk⟩

-- Giving the token to its parent is what keeps a later visit from taking it again.
theorem passable_token_iff (g : Grammar) (owners : Owners) (parent index : Nat)
    (visits : List Visit) :
    Passable g owners (.token parent index :: visits) ↔
      owners[index]? = some none ∧
        Passable g (owners.setIfInBounds index (some parent)) visits := by
  have hset : ∀ i, (owners.setIfInBounds index (some parent))[i]? = some none ↔
      i ≠ index ∧ owners[i]? = some none := by
    intro i
    rw [Array.getElem?_setIfInBounds]
    by_cases hi : index = i
    · subst hi
      by_cases hlt : index < owners.size <;> simp [hlt]
    · simp [hi, Ne.symm hi]
  constructor
  · rintro ⟨hk, hc, hf, ho⟩
    simp only [List.filterMap_cons, Visit.kind?, Visit.oddity?, Visit.index?, List.mem_cons,
      forall_eq_or_imp, List.nodup_cons] at hk hc hf ho
    refine ⟨hf.1, hk, hc, ?_, ho.2⟩
    intro i hi
    exact (hset i).mpr ⟨fun heq => ho.1 (heq ▸ hi), hf.2 i hi⟩
  · rintro ⟨hfree, hk, hc, hf, ho⟩
    refine ⟨by simpa [List.filterMap_cons] using hk, by simpa [List.filterMap_cons] using hc, ?_, ?_⟩
    · simp only [List.filterMap_cons, Visit.index?, List.mem_cons, forall_eq_or_imp]
      exact ⟨hfree, fun i hi => ((hset i).mp (hf i hi)).2⟩
    · simp only [List.filterMap_cons, Visit.index?, List.nodup_cons]
      exact ⟨fun hi => ((hset index).mp (hf index hi)).1 rfl, ho⟩

theorem not_passable_invalid (g : Grammar) (owners : Owners) (parent : Nat) (value : Json.Value)
    (visits : List Visit) : ¬ Passable g owners (.invalid parent value :: visits) := by
  intro h
  simpa [List.filterMap_cons] using h.clean

theorem walk_ok_iff (g : Grammar) (owners : Owners) (visits : List Visit) :
    (∃ final, visits.foldlM (Visit.check g) owners = .ok final) ↔ Passable g owners visits := by
  induction visits generalizing owners with
  | nil => exact ⟨fun _ => ⟨by simp, rfl, by simp, by simp⟩, fun _ => ⟨owners, rfl⟩⟩
  | cons v visits ih =>
      simp only [List.foldlM_cons]
      cases v with
      | node id kind =>
          rw [passable_node_iff, ← ih]
          by_cases hk : g.nodeKinds.contains kind
          · simp [Visit.check, hk, bind, Except.bind]
          · simp [Visit.check, hk, bind, Except.bind]
      | token parent index =>
          rw [passable_token_iff, ← ih]
          simp only [Visit.check]
          rcases howner : owners[index]? with _ | _ | first
          · simp [bind, Except.bind]
          · simp [bind, Except.bind]
          · simp [bind, Except.bind]
      | invalid parent value =>
          simp [Visit.check, not_passable_invalid, bind, Except.bind]

theorem passable_visits_iff (g : Grammar) (r : NodeRecord) (count : Nat) :
    Passable g (Array.replicate count none) r.visits ↔
      (∀ n ∈ r.records, g.nodeKinds.Has n.kind) ∧ r.oddities = [] ∧
        (∀ index ∈ r.references, index < count) ∧ r.references.Nodup := by
  obtain ⟨hk, hi, ho⟩ := visitsOf_contents 0 1 r.children
  change _ = r.references at hi
  change _ = r.oddities at ho
  have hfree : ∀ index, (Array.replicate count (none : Option Nat))[index]? = some none ↔
      index < count := by
    intro index
    simp [Array.getElem?_replicate]
  rw [NodeRecord.visits, passable_node_iff, KindTable.contains_iff]
  constructor
  · rintro ⟨hroot, hkinds, hclean, hown, honce⟩
    rw [hk] at hkinds
    rw [hi] at hown honce
    refine ⟨?_, ho ▸ hclean, fun index hmem => (hfree index).mp (hown index hmem), honce⟩
    intro n hn
    rcases List.mem_cons.mp hn with rfl | hn
    · exact hroot
    · exact (KindTable.contains_iff _ _).mp (hkinds n.kind (List.mem_map_of_mem hn))
  · rintro ⟨hkinds, hclean, hrange, honce⟩
    refine ⟨hkinds r (List.mem_cons_self ..), ?_, ho ▸ hclean, ?_, hi ▸ honce⟩
    · rw [hk]
      intro kind hkind
      obtain ⟨n, hn, rfl⟩ := List.mem_map.mp hkind
      exact (KindTable.contains_iff _ _).mpr (hkinds n (List.mem_cons_of_mem _ hn))
    · rw [hi]
      exact fun index hmem => (hfree index).mpr (hrange index hmem)

theorem check_ok_iff_sound (g : Grammar) (source : String) (r : ParseRecord) :
    (∃ owners, r.check g source = .ok owners) ↔ r.Sound g source := by
  have hstream := streamDefect?_eq_none_iff g source 0 0 r.stream
  have htree := (walk_ok_iff g (Array.replicate r.stream.length none) r.tree.visits).trans
    (passable_visits_iff g r.tree r.stream.length)
  simp only [List.pairwise_cons, Nat.zero_le, implies_true, true_and] at hstream
  rw [ParseRecord.check]
  constructor
  · rintro ⟨owners, h⟩
    split at h
    · cases h
    · rename_i hnone
      obtain ⟨htokens, hordered⟩ := hstream.mp hnone
      obtain ⟨hkinds, hclean, hrange, honce⟩ := htree.mp ⟨owners, h⟩
      exact ⟨htokens, hordered, hkinds, hclean, hrange, honce⟩
  · rintro ⟨htokens, hordered, hkinds, hclean, hrange, honce⟩
    rw [hstream.mpr ⟨htokens, hordered⟩]
    exact htree.mpr ⟨hkinds, hclean, hrange, honce⟩

-- A record becomes a tree exactly when it is sound, and there is one kind of failure for all others.
theorem treeOf_ok_iff_sound (c : Config) (source : String) (r : ParseRecord) :
    ((∃ t, Client.treeOf c source r = .ok t) ↔ r.Sound c.grammar source) ∧
      ((∃ d : Defect, Client.treeOf c source r = .error (.malformedTree d.message)) ↔
        ¬ r.Sound c.grammar source) := by
  rw [← check_ok_iff_sound, Client.treeOf, Tree.ofRecord]
  cases r.check c.grammar source with
  | ok owners => simp [Except.map, Except.mapError]
  | error d => simp [Except.map, Except.mapError]

end ExternalParser
