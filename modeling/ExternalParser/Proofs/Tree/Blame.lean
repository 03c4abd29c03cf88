import ExternalParser.Proofs.Grammar.Origin
import ExternalParser.Proofs.Record.Places
import ExternalParser.Proofs.Tree.Links

namespace ExternalParser

-- What is said of a token that is wrong where its predecessor begins at `previous`. Of several things the
-- first is said.
inductive TokenRecord.Misfits (g : Grammar) (source : String) (index previous : Nat) (t : TokenRecord) :
    String → Prop
  | kind : ¬ g.tokenKinds.Has t.kind →
      Misfits g source index previous t
        s!"token {index} has kind {t.kind} which grammar '{g.name}' does not define"
  | bounds : g.tokenKinds.Has t.kind → source.utf8ByteSize < t.stop →
      Misfits g source index previous t
        s!"token {index} ({t.value.utf8ByteSize} bytes at offset {t.offset}) extends past the end of the {source.utf8ByteSize}-byte source"
  | boundary : g.tokenKinds.Has t.kind → t.stop ≤ source.utf8ByteSize →
      ¬ (Text.Boundary source t.offset ∧ Text.Boundary source t.stop) →
      Misfits g source index previous t
        s!"token {index} ({t.offset}..{t.stop}) splits a character of the source"
  | order : t.Fits g source → t.offset < previous →
      Misfits g source index previous t
        s!"token {index} at offset {t.offset} precedes the previous token at offset {previous}"

-- Where the token before a position begins. The first one has none before it, and nothing begins below 0.
def previousOffset (stream : List TokenRecord) : Nat → Nat
  | 0 => 0
  | i + 1 => (stream[i]?.map (·.offset)).getD 0

def TokenDefect (g : Grammar) (source : String) (stream : List TokenRecord) (i : Nat) (text : String) :
    Prop :=
  ∃ t, stream[i]? = some t ∧ t.Misfits g source i (previousOffset stream i) text

-- The place is the first one that refers to the token.
def NodeRecord.FirstReference (r : NodeRecord) (index : Nat) (p : Place) : Prop :=
  r.at? p = some (.token index) ∧ ∀ q, q.Before p → r.at? q ≠ some (.token index)

-- What is said of a child that is wrong at a place of a description of `count` tokens. A token that has a
-- parent already is reported with that parent and the one here.
inductive ChildRecord.Faulty (g : Grammar) (count : Nat) (r : NodeRecord) (p : Place) :
    ChildRecord → String → Prop
  | unknownKind (kind : Nat) (children : List ChildRecord) : ¬ g.nodeKinds.Has kind →
      Faulty g count r p (.node kind children)
        s!"node {r.number p} has kind {kind} which grammar '{g.name}' does not define"
  | invalid (value : Json.Value) :
      Faulty g count r p (.invalid value)
        s!"child of node {r.ownerNumber p} is neither a token index nor a node record: {value.compact}"
  | dangling (index : Nat) : count ≤ index →
      Faulty g count r p (.token index)
        s!"node {r.ownerNumber p} references token {index}, but the stream has {count} tokens"
  | shared (index : Nat) (first : Place) : index < count → r.FirstReference index first →
      first.Before p →
      Faulty g count r p (.token index)
        s!"token {index} is a child of both node {r.ownerNumber first} and node {r.ownerNumber p}"

def PlaceDefect (g : Grammar) (count : Nat) (r : NodeRecord) (p : Place) (text : String) : Prop :=
  ∃ x, r.at? p = some x ∧ x.Faulty g count r p text

namespace ParseRecord

-- The defect of the first token that has one.
def FirstTokenDefect (g : Grammar) (source : String) (r : ParseRecord) (i : Nat) (text : String) : Prop :=
  TokenDefect g source r.stream i text ∧ ∀ j < i, ∀ e, ¬ TokenDefect g source r.stream j e

-- The defect at the first place that has one.
def FirstPlaceDefect (g : Grammar) (r : ParseRecord) (p : Place) (text : String) : Prop :=
  PlaceDefect g r.stream.length r.tree p text ∧
    ∀ q : Place, q.Before p → ∀ e, ¬ PlaceDefect g r.stream.length r.tree q e

end ParseRecord

theorem TokenRecord.defect?_eq_some_iff {g : Grammar} {source : String} {index previous : Nat}
    {t : TokenRecord} {text : String} :
    (t.defect? g source index previous).map Defect.message = some text ↔
      t.Misfits g source index previous text := by
  have hk := g.tokenKinds.contains_iff t.kind
  have hb := Text.isBoundary_iff source t.offset
  have he := Text.isBoundary_iff source t.stop
  rw [Option.map_eq_some_iff]
  constructor
  · rintro ⟨d, h, rfl⟩
    unfold defect? at h
    split_ifs at h with hkind hstop hboundary horder
    · cases h
      exact .bounds (hk.mp hkind) hstop
    · cases h
      have hfits : t.Fits g source :=
        ⟨hk.mp hkind, Nat.le_of_not_lt hstop, hb.mp hboundary.1, he.mp hboundary.2⟩
      exact .order hfits horder
    · cases h
      refine .boundary (hk.mp hkind) (Nat.le_of_not_lt hstop) ?_
      rwa [← hb, ← he]
    · cases h
      exact .kind (mt hk.mpr hkind)
  · intro h
    cases h with
    | kind hkind =>
        exact ⟨.unknownTokenKind index t.kind g.name, by simp [defect?, mt hk.mp hkind], rfl⟩
    | bounds hkind hstop =>
        exact ⟨.pastEnd index t.value.utf8ByteSize t.offset source.utf8ByteSize,
          by simp [defect?, hk.mpr hkind, hstop], rfl⟩
    | boundary hkind hstop hboundary =>
        rw [← hb, ← he] at hboundary
        exact ⟨.splitCharacter index t.offset t.stop,
          by simp [defect?, hk.mpr hkind, Nat.not_lt_of_le hstop, hboundary], rfl⟩
    | order hfits horder =>
        have hstop : ¬ source.utf8ByteSize < t.stop := Nat.not_lt_of_le hfits.inSource
        have hboundary : Text.isBoundary source t.offset = true ∧ Text.isBoundary source t.stop = true :=
          ⟨hb.mpr hfits.begins, he.mpr hfits.ends⟩
        exact ⟨.outOfOrder index t.offset previous,
          by simp [defect?, hk.mpr hfits.kind, hstop, hboundary, horder], rfl⟩

theorem tokenDefect_iff {g : Grammar} {source : String} {stream : List TokenRecord} {i : Nat}
    {t : TokenRecord} (ht : stream[i]? = some t) {text : String} :
    TokenDefect g source stream i text ↔
      (t.defect? g source i (previousOffset stream i)).map Defect.message = some text := by
  rw [TokenRecord.defect?_eq_some_iff]
  constructor
  · rintro ⟨u, hu, hmisfits⟩
    rw [ht] at hu
    cases hu
    exact hmisfits
  · intro hmisfits
    exact ⟨t, ht, hmisfits⟩

-- The defect of the first token from a position on that has one.
def FirstDefectFrom (g : Grammar) (source : String) (stream : List TokenRecord) (start i : Nat)
    (text : String) : Prop :=
  start ≤ i ∧ TokenDefect g source stream i text ∧
    ∀ j, start ≤ j → j < i → ∀ e, ¬ TokenDefect g source stream j e

section First

variable {g : Grammar} {source : String} {stream : List TokenRecord} {start : Nat}
  {text e : String}

theorem exists_firstDefectFrom_iff_of_defect (h : TokenDefect g source stream start e) :
    (∃ i, FirstDefectFrom g source stream start i text) ↔ TokenDefect g source stream start text := by
  constructor
  · rintro ⟨i, hi, hd, hfirst⟩
    by_cases heq : i = start
    · exact heq ▸ hd
    · exact absurd h (hfirst start (Nat.le_refl _) (by omega) e)
  · intro hd
    refine ⟨start, Nat.le_refl _, hd, ?_⟩
    intro j hj hlt
    omega

theorem exists_firstDefectFrom_succ_iff (h : ∀ e, ¬ TokenDefect g source stream start e) :
    (∃ i, FirstDefectFrom g source stream (start + 1) i text) ↔
      ∃ i, FirstDefectFrom g source stream start i text := by
  constructor
  · rintro ⟨i, hi, hd, hfirst⟩
    refine ⟨i, by omega, hd, ?_⟩
    intro j hj hlt
    by_cases heq : j = start
    · exact heq ▸ h
    · exact hfirst j (by omega) hlt
  · rintro ⟨i, hi, hd, hfirst⟩
    have hne : i ≠ start := fun heq => h text (heq ▸ hd)
    exact ⟨i, by omega, hd, fun j hj => hfirst j (by omega)⟩

end First

-- The rest of a stream, behind the tokens that were checked before.
theorem streamDefect?_eq_some_iff (g : Grammar) (source : String) (before rest : List TokenRecord)
    (text : String) :
    (streamDefect? g source before.length (previousOffset (before ++ rest) before.length) rest).map
        Defect.message = some text ↔
      ∃ i, FirstDefectFrom g source (before ++ rest) before.length i text := by
  induction rest generalizing before with
  | nil =>
      simp only [streamDefect?, Option.map_none, reduceCtorEq, false_iff]
      rintro ⟨i, hi, ⟨t, ht, -⟩, -⟩
      have hlt := (List.getElem?_eq_some_iff.mp ht).1
      rw [List.append_nil] at hlt
      omega
  | cons t rest ih =>
      have ht : (before ++ t :: rest)[before.length]? = some t := by simp
      have hprevious : previousOffset (before ++ t :: rest) (before.length + 1) = t.offset := by
        simp [previousOffset]
      have hlater := ih (before ++ [t])
      rw [List.append_assoc, List.singleton_append, List.length_append, List.length_singleton,
        hprevious] at hlater
      rw [streamDefect?]
      cases hdefect : t.defect? g source before.length
          (previousOffset (before ++ t :: rest) before.length) with
      | some e =>
          have hhere : TokenDefect g source (before ++ t :: rest) before.length e.message := by
            rw [tokenDefect_iff ht, hdefect, Option.map_some]
          rw [exists_firstDefectFrom_iff_of_defect hhere, tokenDefect_iff ht, hdefect]
      | none =>
          have hnone : ∀ e, ¬ TokenDefect g source (before ++ t :: rest) before.length e := by
            intro e he
            rw [tokenDefect_iff ht, hdefect] at he
            cases he
          exact hlater.trans (exists_firstDefectFrom_succ_iff hnone)

theorem firstTokenDefect_iff (g : Grammar) (source : String) (r : ParseRecord)
    (text : String) :
    (streamDefect? g source 0 0 r.stream).map Defect.message = some text ↔
      ∃ i, r.FirstTokenDefect g source i text := by
  have hstream := streamDefect?_eq_some_iff g source [] r.stream text
  simpa [previousOffset, FirstDefectFrom, ParseRecord.FirstTokenDefect] using hstream

-- If a token has a defect, there is a first one.
theorem TokenDefect.exists_first {g : Grammar} {source : String} {r : ParseRecord} {i : Nat} {text : String}
    (h : TokenDefect g source r.stream i text) : ∃ j e, r.FirstTokenDefect g source j e := by
  induction i using Nat.strongRecOn generalizing text with
  | ind i ih =>
      by_cases hearlier : ∃ j e, j < i ∧ TokenDefect g source r.stream j e
      · obtain ⟨j, e, hj, he⟩ := hearlier
        exact ih j hj he
      · refine ⟨i, text, h, ?_⟩
        intro j hj e he
        exact hearlier ⟨j, e, hj, he⟩

theorem streamDefect?_eq_none_iff_forall (g : Grammar) (source : String) (r : ParseRecord) :
    streamDefect? g source 0 0 r.stream = none ↔ ∀ i e, ¬ TokenDefect g source r.stream i e := by
  constructor
  · intro hnone i e he
    obtain ⟨j, text, hfirst⟩ := he.exists_first
    have hsome := (firstTokenDefect_iff g source r text).mpr ⟨j, hfirst⟩
    rw [hnone] at hsome
    cases hsome
  · intro hclean
    cases hstream : streamDefect? g source 0 0 r.stream with
    | none => rfl
    | some d =>
        have hsome := congrArg (Option.map Defect.message) hstream
        obtain ⟨i, hfirst⟩ := (firstTokenDefect_iff g source r d.message).mp hsome
        exact absurd hfirst.1 (hclean i d.message)

theorem TokenDefect.congr {g : Grammar} {source : String} {stream other : List TokenRecord} {i : Nat}
    {text : String} (h : TokenDefect g source stream i text) (hsame : ∀ j ≤ i, other[j]? = stream[j]?) :
    TokenDefect g source other i text := by
  obtain ⟨t, ht, hmisfits⟩ := h
  have hprevious : previousOffset other i = previousOffset stream i := by
    cases i with
    | zero => rfl
    | succ i => rw [previousOffset, previousOffset, hsame i (Nat.le_succ i)]
  exact ⟨t, (hsame i (Nat.le_refl i)).trans ht, hprevious ▸ hmisfits⟩

-- The first defect of a stream is that of every stream that begins in the same way.
theorem ParseRecord.FirstTokenDefect.congr {g : Grammar} {source : String} {r other : ParseRecord}
    {i : Nat} {text : String} (h : r.FirstTokenDefect g source i text)
    (hsame : other.stream.take (i + 1) = r.stream.take (i + 1)) :
    other.FirstTokenDefect g source i text := by
  have hget : ∀ j ≤ i, other.stream[j]? = r.stream[j]? := by
    intro j hj
    have hj := congrArg (·[j]?) hsame
    simpa [List.getElem?_take, show j < i + 1 by omega] using hj
  refine ⟨h.1.congr hget, ?_⟩
  intro j hj e he
  exact h.2 j hj e (he.congr fun k hk => (hget k (by omega)).symm)

-- The walk up to a place refers to a token exactly when a place before it does.
theorem token_mem_map_visitAt_iff {c : ChildRecord} {spots : List (Place × ChildRecord)}
    {parent index : Nat} :
    Visit.token parent index ∈ spots.map (c.visitAt 0) ↔
      ∃ q, (q, .token index) ∈ spots ∧ parent = c.ownerNumber q := by
  rw [List.mem_map]
  constructor
  · rintro ⟨⟨q, x⟩, hq, hvisit⟩
    cases x with
    | node kind children => cases hvisit
    | invalid value => cases hvisit
    | token i =>
        rw [ChildRecord.visitAt, Nat.zero_add, Visit.token.injEq] at hvisit
        obtain ⟨rfl, rfl⟩ := hvisit
        exact ⟨q, hq, rfl⟩
  · rintro ⟨q, hq, rfl⟩
    exact ⟨(q, .token index), hq, by rw [ChildRecord.visitAt, Nat.zero_add]⟩

section Walk

variable {g : Grammar} {r : NodeRecord} {count : Nat} {owners : Owners} {p : Place} {x : ChildRecord}
  {before after : List (Place × ChildRecord)}

-- In a walk that gets through no token is referred to twice.
theorem firstReference_of_mem {q : Place} {index : Nat}
    (hspots : r.asChild.spots = before ++ after)
    (hwalk : (before.map (r.asChild.visitAt 0)).foldlM (Visit.check g) (Array.replicate count none) =
      .ok owners) (hq : (q, .token index) ∈ before) : r.FirstReference index q := by
  have honce := ((walk_ok_iff g _ _).mp ⟨owners, hwalk⟩).once
  obtain ⟨left, right, rfl⟩ := List.append_of_mem hq
  rw [List.append_assoc, List.cons_append] at hspots
  refine ⟨?_, ?_⟩
  · rw [NodeRecord.at?, ← ChildRecord.mem_spots_iff, hspots]
    exact List.mem_append_right _ List.mem_cons_self
  · intro earlier hearlier hsame
    have hmem : (earlier, .token index) ∈ left :=
      (ChildRecord.mem_before_iff hspots).mpr ⟨hearlier, hsame⟩
    have hindex : index ∈ (left.map (r.asChild.visitAt 0)).filterMap Visit.index? :=
      List.mem_filterMap.mpr ⟨_, List.mem_map_of_mem hmem, rfl⟩
    have hagain : index ∈ (((q, .token index) :: right).map (r.asChild.visitAt 0)).filterMap
        Visit.index? := List.mem_filterMap.mpr ⟨_, List.mem_map_of_mem List.mem_cons_self, rfl⟩
    rw [List.map_append, List.filterMap_append, List.nodup_append] at honce
    exact honce.2.2 index hindex index hagain rfl

-- What a walk that got through says about a token: the first place that refers to it owns it.
theorem owner_iff_firstReference
    (hspots : r.asChild.spots = before ++ (p, x) :: after)
    (hwalk : (before.map (r.asChild.visitAt 0)).foldlM (Visit.check g) (Array.replicate count none) =
      .ok owners) (index parent : Nat) :
    owners[index]? = some (some parent) ↔
      ∃ q, r.FirstReference index q ∧ q.Before p ∧ parent = r.ownerNumber q := by
  have hfree : (Array.replicate count (none : Option Nat))[index]? ≠ some (some parent) := by
    simp [Array.getElem?_replicate]
  rw [walk_owner_iff g _ owners _ hwalk, or_iff_right hfree, token_mem_map_visitAt_iff]
  constructor
  · rintro ⟨q, hq, rfl⟩
    exact ⟨q, firstReference_of_mem hspots hwalk hq, ((ChildRecord.mem_before_iff hspots).mp hq).1, rfl⟩
  · rintro ⟨q, hfirst, hbefore, rfl⟩
    exact ⟨q, (ChildRecord.mem_before_iff hspots).mpr ⟨hbefore, hfirst.1⟩, rfl⟩

-- The step at a place fails exactly with the defect of the place, if nothing before it failed.
theorem check_visitAt_iff (hspots : r.asChild.spots = before ++ (p, x) :: after)
    (hwalk : (before.map (r.asChild.visitAt 0)).foldlM (Visit.check g) (Array.replicate count none) =
      .ok owners) (text : String) :
    ((r.asChild.visitAt 0 (p, x)).check g owners).mapError Defect.message = .error text ↔
      x.Faulty g count r p text := by
  have hsize : owners.size = count := by
    simpa using walk_size g _ owners _ hwalk
  have howner : r.asChild.ownerNumber p = r.ownerNumber p := rfl
  rw [mapError_eq_error_iff]
  cases x with
  | node kind children =>
      have hnumber : r.asChild.number p = r.number p := rfl
      rw [ChildRecord.visitAt, Visit.check, Nat.zero_add, hnumber]
      constructor
      · rintro ⟨d, h, rfl⟩
        split at h
        · cases h
        · rename_i hkind
          cases h
          exact .unknownKind kind children (mt (g.nodeKinds.contains_iff kind).mpr hkind)
      · intro h
        cases h with
        | unknownKind _ _ hkind =>
            rw [if_neg (mt (g.nodeKinds.contains_iff kind).mp hkind)]
            exact ⟨_, rfl, rfl⟩
  | token index =>
      have hreference := owner_iff_firstReference hspots hwalk index
      rw [ChildRecord.visitAt, Visit.check, Nat.zero_add, howner]
      constructor
      · rintro ⟨d, h, rfl⟩
        split at h
        · rename_i hnone
          cases h
          rw [hsize]
          exact .dangling index (by rw [← hsize]; exact Array.getElem?_eq_none_iff.mp hnone)
        · rename_i first hsome
          cases h
          obtain ⟨q, hfirst, hbefore, rfl⟩ := (hreference first).mp hsome
          have hlt := (Array.getElem?_eq_some_iff.mp hsome).1
          exact .shared index q (by omega) hfirst hbefore
        · cases h
      · intro h
        cases h with
        | dangling _ hle =>
            have hnone : owners[index]? = none := Array.getElem?_eq_none (by omega)
            rw [hnone, hsize]
            exact ⟨_, rfl, rfl⟩
        | shared _ first hlt hfirst hbefore =>
            have hsome := (hreference _).mpr ⟨first, hfirst, hbefore, rfl⟩
            rw [hsome]
            exact ⟨_, rfl, rfl⟩
  | invalid value =>
      rw [ChildRecord.visitAt, Visit.check, Nat.zero_add, howner]
      constructor
      · rintro ⟨_, ⟨⟩, rfl⟩
        exact .invalid value
      · intro h
        cases h with
        | invalid => exact ⟨_, rfl, rfl⟩

-- A walk up to a place fails exactly when some place before it has a defect.
theorem walk_fails_iff (hspots : r.asChild.spots = before ++ after) :
    (∃ d, (before.map (r.asChild.visitAt 0)).foldlM (Visit.check g) (Array.replicate count none) =
      .error d) ↔ ∃ q y, (q, y) ∈ before ∧ ∃ e, y.Faulty g count r q e := by
  constructor
  · rintro ⟨d, hfails⟩
    rw [List.foldlM_map, foldlM_eq_error_iff] at hfails
    obtain ⟨left, ⟨q, y⟩, right, owners, rfl, hwalk, hstep⟩ := hfails
    rw [← List.foldlM_map] at hwalk
    rw [List.append_assoc, List.cons_append] at hspots
    exact ⟨q, y, by simp, d.message, (check_visitAt_iff hspots hwalk _).mp
      (mapError_eq_error_iff.mpr ⟨d, hstep, rfl⟩)⟩
  · rintro ⟨q, y, hq, e, hfaulty⟩
    obtain ⟨left, right, rfl⟩ := List.append_of_mem hq
    rw [List.append_assoc, List.cons_append] at hspots
    rw [List.map_append, List.foldlM_append]
    cases hwalk : (left.map (r.asChild.visitAt 0)).foldlM (Visit.check g)
        (Array.replicate count none) with
    | error d => exact ⟨d, rfl⟩
    | ok owners =>
        have hmessage := (check_visitAt_iff hspots hwalk e).mpr hfaulty
        obtain ⟨d, hstep, -⟩ := mapError_eq_error_iff.mp hmessage
        refine ⟨d, ?_⟩
        change (((q, y) :: right).map (r.asChild.visitAt 0)).foldlM (Visit.check g) owners = .error d
        rw [List.map_cons, List.foldlM_cons, hstep]
        rfl

end Walk

-- The walk fails with the defect of the first place that has one.
theorem walk_eq_error_iff (g : Grammar) (r : ParseRecord) (text : String) :
    (r.tree.visits.foldlM (Visit.check g) (Array.replicate r.stream.length none)).mapError
        Defect.message = .error text ↔
      ∃ p, r.FirstPlaceDefect g p text := by
  simp only [mapError_eq_error_iff, NodeRecord.visits_eq_map, List.foldlM_map, foldlM_eq_error_iff]
  constructor
  · rintro ⟨d, ⟨before, ⟨p, x⟩, after, owners, hspots, hwalk, hfails⟩, hmessage⟩
    rw [← List.foldlM_map] at hwalk
    have hat : r.tree.at? p = some x := by
      rw [NodeRecord.at?, ← ChildRecord.mem_spots_iff, hspots]
      exact List.mem_append_right _ List.mem_cons_self
    have hsaid := mapError_eq_error_iff.mpr ⟨d, hfails, hmessage⟩
    refine ⟨p, ⟨x, hat, (check_visitAt_iff hspots hwalk text).mp hsaid⟩, ?_⟩
    rintro q hq e ⟨y, hy, hfaulty⟩
    have hmem := (ChildRecord.mem_before_iff hspots).mpr ⟨hq, hy⟩
    obtain ⟨e', herror⟩ := (walk_fails_iff hspots).mpr ⟨q, y, hmem, e, hfaulty⟩
    cases hwalk.symm.trans herror
  · rintro ⟨p, ⟨x, hx, hfaulty⟩, hfirst⟩
    obtain ⟨before, after, hspots⟩ := List.append_of_mem (ChildRecord.mem_spots_iff.mpr hx)
    cases hwalk : (before.map (r.tree.asChild.visitAt 0)).foldlM (Visit.check g)
        (Array.replicate r.stream.length none) with
    | error e =>
        obtain ⟨q, y, hmem, e', hfaulty'⟩ := (walk_fails_iff hspots).mp ⟨e, hwalk⟩
        obtain ⟨hq, hy⟩ := (ChildRecord.mem_before_iff hspots).mp hmem
        exact absurd ⟨y, hy, hfaulty'⟩ (hfirst q hq e')
    | ok owners =>
        have hsaid := (check_visitAt_iff hspots hwalk text).mpr hfaulty
        obtain ⟨d, hstep, hmessage⟩ := mapError_eq_error_iff.mp hsaid
        rw [List.foldlM_map] at hwalk
        exact ⟨d, ⟨before, (p, x), after, owners, hspots, hwalk, hstep⟩, hmessage⟩

-- A description with a defect has a first one.
theorem PlaceDefect.exists_first {g : Grammar} {r : ParseRecord} {p : Place} {text : String}
    (h : PlaceDefect g r.stream.length r.tree p text) : ∃ q e, r.FirstPlaceDefect g q e := by
  obtain ⟨x, hx, hfaulty⟩ := h
  have hspots : r.tree.asChild.spots = r.tree.asChild.spots ++ [] := (List.append_nil _).symm
  obtain ⟨d, hfails⟩ := (walk_fails_iff hspots).mpr
    ⟨p, x, ChildRecord.mem_spots_iff.mpr hx, text, hfaulty⟩
  rw [← NodeRecord.visits_eq_map] at hfails
  obtain ⟨q, hq⟩ := (walk_eq_error_iff g r _).mp (mapError_eq_error_iff.mpr ⟨d, hfails, rfl⟩)
  exact ⟨q, d.message, hq⟩

theorem treeOf_eq_error_iff (c : Config) (source : String) (r : ParseRecord) (failure : Failure) :
    Client.treeOf c source r = .error failure ↔ ∃ text, failure = .malformedTree text ∧
      ((∃ i, r.FirstTokenDefect c.grammar source i text) ∨
        (∀ i e, ¬ TokenDefect c.grammar source r.stream i e) ∧
          ∃ p, r.FirstPlaceDefect c.grammar p text) := by
  simp only [← firstTokenDefect_iff, ← streamDefect?_eq_none_iff_forall, ← walk_eq_error_iff]
  rw [Client.treeOf, Tree.ofRecord, ParseRecord.check]
  cases streamDefect? c.grammar source 0 0 r.stream with
  | some d => simp [Except.map, Except.mapError, eq_comm]
  | none =>
      cases r.tree.visits.foldlM (Visit.check c.grammar) (Array.replicate r.stream.length none) with
      | ok owners => simp [Except.map, Except.mapError]
      | error d => simp [Except.map, Except.mapError, eq_comm]

-- A record that is rejected is blamed on its first defect: that of the first token that has one, and if
-- none has, that of the first place of the description that has one. A record with any defect is
-- rejected. What stands behind the first token with a defect has no say, nor has the description.
theorem treeOf_blames_first (c : Config) (source : String) (r : ParseRecord) :
    (∀ failure, Client.treeOf c source r = .error failure ↔ ∃ text, failure = .malformedTree text ∧
      ((∃ i, r.FirstTokenDefect c.grammar source i text) ∨
        (∀ i e, ¬ TokenDefect c.grammar source r.stream i e) ∧
          ∃ p, r.FirstPlaceDefect c.grammar p text)) ∧
    ((∃ failure, Client.treeOf c source r = .error failure) ↔
      (∃ i text, TokenDefect c.grammar source r.stream i text) ∨
        ∃ p text, PlaceDefect c.grammar r.stream.length r.tree p text) ∧
    ∀ i text, r.FirstTokenDefect c.grammar source i text → ∀ other : ParseRecord,
      other.stream.take (i + 1) = r.stream.take (i + 1) →
      Client.treeOf c source other = .error (.malformedTree text) := by
  refine ⟨treeOf_eq_error_iff c source r, ?_, ?_⟩
  · simp only [treeOf_eq_error_iff]
    constructor
    · rintro ⟨_, text, -, ⟨i, hfirst⟩ | ⟨-, p, hfirst⟩⟩
      · exact .inl ⟨i, text, hfirst.1⟩
      · exact .inr ⟨p, text, hfirst.1⟩
    · intro hdefect
      by_cases htokens : ∃ i e, TokenDefect c.grammar source r.stream i e
      · obtain ⟨i, e, he⟩ := htokens
        obtain ⟨j, text, hfirst⟩ := he.exists_first
        exact ⟨_, text, rfl, .inl ⟨j, hfirst⟩⟩
      · obtain ⟨p, e, he⟩ := hdefect.resolve_left htokens
        obtain ⟨q, text, hfirst⟩ := he.exists_first
        exact ⟨_, text, rfl, .inr ⟨fun i e he => htokens ⟨i, e, he⟩, q, hfirst⟩⟩
  · intro i text hfirst other hsame
    exact (treeOf_eq_error_iff c source other _).mpr ⟨text, rfl, .inl ⟨i, hfirst.congr hsame⟩⟩

-- Two tokens lie outside of a text of one byte. The description has a token twice, and then an unknown
-- kind.
def muddledRecord : ParseRecord :=
  ⟨⟨10, [.node 11 [.token 0], .node 11 [.token 0], .node 12 []]⟩,
    [⟨1, "a", 0⟩, ⟨1, "b", 1⟩, ⟨1, "c", 2⟩]⟩

def sampleConfig : Config := Config.new "S" "sample" sampleGrammar

-- Without the last token and the description the outcome is the same. In a text with room for all tokens
-- the one that comes twice is to blame, with its two parents.
theorem muddledRecord_blames_first :
    let outside := "token 1 (1 bytes at offset 1) extends past the end of the 1-byte source"
    let shared := "token 0 is a child of both node 1 and node 2"
    muddledRecord.FirstTokenDefect sampleGrammar "a" 1 outside ∧
      Client.treeOf sampleConfig "a" muddledRecord = .error (.malformedTree outside) ∧
      Client.treeOf sampleConfig "a" ⟨⟨10, []⟩, [⟨1, "a", 0⟩, ⟨1, "b", 1⟩]⟩ =
        .error (.malformedTree outside) ∧
      Client.treeOf sampleConfig "abc" muddledRecord = .error (.malformedTree shared) ∧
      ∃ p, muddledRecord.FirstPlaceDefect sampleGrammar p shared := by
  intro outside shared
  obtain ⟨-, -, hsame⟩ := treeOf_blames_first sampleConfig "a" muddledRecord
  obtain ⟨hreason, -, -⟩ := treeOf_blames_first sampleConfig "abc" muddledRecord
  have hfirst : muddledRecord.FirstTokenDefect sampleGrammar "a" 1 outside := by
    refine ⟨⟨_, rfl, .bounds ⟨"WORD", by decide⟩ (by decide)⟩, ?_⟩
    intro j hj e he
    obtain rfl : j = 0 := by omega
    have hdefect := (tokenDefect_iff (t := ⟨1, "a", 0⟩) rfl).mp he
    cases (show (none : Option String) = some e from hdefect)
  have hshared : Client.treeOf sampleConfig "abc" muddledRecord = .error (.malformedTree shared) := rfl
  refine ⟨hfirst, hsame 1 _ hfirst _ rfl, hsame 1 _ hfirst _ rfl, hshared, ?_⟩
  have hclean := (streamDefect?_eq_none_iff_forall sampleGrammar "abc" muddledRecord).mp rfl
  obtain ⟨text, htext, ⟨i, hdefect, -⟩ | ⟨-, hplace⟩⟩ := (hreason _).mp hshared
  · exact absurd hdefect (hclean i text)
  · cases htext
    exact hplace

end ExternalParser
