import ExternalParser.Proofs.Grammar.Tables
import Mathlib.Data.List.Induction

namespace ExternalParser.KindTable

-- No name is empty, and no number and no name stands twice.
structure Consistent (entries : List (Nat × String)) : Prop where
  named : ∀ entry ∈ entries, entry.2 ≠ ""
  ids : (entries.map Prod.fst).Nodup
  names : (entries.map Prod.snd).Nodup

-- What is said of an entry that does not go with those before it. Of several things the first is said.
inductive Conflicts (before : List (Nat × String)) : Nat × String → String → Prop
  | emptyName (id : Nat) : Conflicts before (id, "") s!"kind {id} has an empty name"
  | idTwice (id : Nat) (old new : String) : new ≠ "" → (id, old) ∈ before →
      Conflicts before (id, new) s!"kind {id} is named both '{old}' and '{new}'"
  | nameTwice (name : String) (old new : Nat) : name ≠ "" → new ∉ before.map Prod.fst →
      (old, name) ∈ before →
      Conflicts before (new, name) s!"kind name '{name}' is used by both {old} and {new}"

-- What is said of the first entry that does not go with those before it.
def FirstConflict (entries : List (Nat × String)) (text : String) : Prop :=
  ∃ before entry after, entries = before ++ entry :: after ∧ Conflicts before entry text ∧
    ∀ earlier other later, before = earlier ++ other :: later →
      ∀ c, ¬ Conflicts earlier other c

-- The table holds the entries, by ascending numbers.
structure Lists (t : KindTable) (entries : List (Nat × String)) : Prop where
  perm : t.entries.Perm entries
  ascends : (t.entries.map Prod.fst).Pairwise (· < ·)

theorem Consistent.not_conflicts {earlier later : List (Nat × String)} {entry : Nat × String}
    (h : Consistent (earlier ++ entry :: later)) (text : String) :
    ¬ Conflicts earlier entry text := by
  have hids := h.ids
  have hnames := h.names
  rw [List.map_append, List.map_cons, List.nodup_append] at hids hnames
  intro hconflict
  cases hconflict with
  | emptyName id => exact h.named (id, "") (by simp) rfl
  | idTwice id old new _ hold =>
      exact hids.2.2 id (List.mem_map_of_mem hold) id List.mem_cons_self rfl
  | nameTwice name old new _ _ hold =>
      exact hnames.2.2 name (List.mem_map_of_mem hold) name List.mem_cons_self rfl

theorem consistent_snoc_iff {entries : List (Nat × String)} {id : Nat} {name : String} :
    Consistent (entries ++ [(id, name)]) ↔ Consistent entries ∧ name ≠ "" ∧
      id ∉ entries.map Prod.fst ∧ name ∉ entries.map Prod.snd := by
  have hsnoc : ∀ {α : Type} (xs : List α) (x : α), (xs ++ [x]).Nodup ↔ xs.Nodup ∧ x ∉ xs := by
    intro α xs x
    rw [(List.perm_append_singleton x xs).nodup_iff, List.nodup_cons, and_comm]
  constructor
  · rintro ⟨hnamed, hids, hnames⟩
    rw [List.map_append, List.map_singleton, hsnoc] at hids hnames
    have hrest : ∀ entry ∈ entries, entry.2 ≠ "" := fun entry hentry =>
      hnamed entry (List.mem_append_left _ hentry)
    exact ⟨⟨hrest, hids.1, hnames.1⟩, hnamed (id, name) (by simp), hids.2, hnames.2⟩
  · rintro ⟨⟨hnamed, hids, hnames⟩, hname, hid, hfree⟩
    refine ⟨?_, ?_, ?_⟩
    · intro entry hentry
      rcases List.mem_append.mp hentry with hold | hnew
      · exact hnamed entry hold
      · rw [List.mem_singleton.mp hnew]
        exact hname
    · rw [List.map_append, List.map_singleton, hsnoc]
      exact ⟨hids, hid⟩
    · rw [List.map_append, List.map_singleton, hsnoc]
      exact ⟨hnames, hfree⟩

theorem Lists.distinct {t : KindTable} {entries : List (Nat × String)} (h : t.Lists entries)
    (hentries : Consistent entries) : t.Distinct :=
  ⟨(h.perm.map Prod.fst).nodup_iff.mpr hentries.ids,
    (h.perm.map Prod.snd).nodup_iff.mpr hentries.names⟩

-- A sorted list with given members is one list.
theorem Lists.unique {t t' : KindTable} {entries others : List (Nat × String)} (h : t.Lists entries)
    (h' : t'.Lists others) (hperm : others.Perm entries) : t' = t := by
  have hsame : t'.entries.Perm t.entries := h'.perm.trans (hperm.trans h.perm.symm)
  have hfirst : ∀ x y : Nat × String, x ∈ t'.entries → y ∈ t.entries → x.1 < y.1 → y.1 < x.1 →
      x = y := by
    intro x y _ _ hxy hyx
    omega
  have hentries : t'.entries = t.entries :=
    hsame.eq_of_pairwise hfirst (List.pairwise_map.mp h'.ascends) (List.pairwise_map.mp h.ascends)
  cases t
  cases t'
  exact congrArg KindTable.mk hentries

-- The new entry goes in front of the first one with a larger number, and none has its own.
theorem place_ascends {id : Nat} {name : String} {entries : List (Nat × String)}
    (h : (entries.map Prod.fst).Pairwise (· < ·)) (hid : id ∉ entries.map Prod.fst) :
    ((place id name entries).map Prod.fst).Pairwise (· < ·) := by
  induction entries with
  | nil => simp [place]
  | cons entry rest ih =>
      obtain ⟨other, label⟩ := entry
      rw [List.map_cons, List.pairwise_cons] at h
      rw [List.map_cons, List.mem_cons, not_or] at hid
      rw [place]
      by_cases hlt : id < other
      · rw [if_pos hlt, List.map_cons, List.map_cons, List.pairwise_cons, List.pairwise_cons]
        refine ⟨?_, h⟩
        intro later hlater
        rcases List.mem_cons.mp hlater with rfl | hlater
        · exact hlt
        · exact Nat.lt_trans hlt (h.1 later hlater)
      · rw [if_neg hlt, List.map_cons, List.pairwise_cons]
        refine ⟨?_, ih h.2 hid.2⟩
        intro later hlater
        have hmem := ((place_perm id name rest).map Prod.fst).mem_iff.mp hlater
        rcases List.mem_cons.mp hmem with heq | hmem
        · have hne : id ≠ other := hid.1
          rw [heq]
          omega
        · exact h.1 later hmem

-- An entry is taken exactly when it keeps the entries consistent.
theorem Lists.add_eq_ok {t t' : KindTable} {entries : List (Nat × String)} {entry : Nat × String}
    (h : t.Lists entries) (hentries : Consistent entries) (hadd : t.add entry = .ok t') :
    Consistent (entries ++ [entry]) ∧ t'.Lists (entries ++ [entry]) := by
  obtain ⟨id, name⟩ := entry
  obtain ⟨hname, hid, hfree, hplaced⟩ := KindTable.add_eq_ok hadd
  rw [name?_eq_none_iff] at hid
  rw [id?_eq_none_iff] at hfree
  have hids : id ∉ entries.map Prod.fst := by
    rwa [← (h.perm.map Prod.fst).mem_iff]
  have hnames : name ∉ entries.map Prod.snd := by
    rwa [← (h.perm.map Prod.snd).mem_iff]
  refine ⟨consistent_snoc_iff.mpr ⟨hentries, hname, hids, hnames⟩, ?_, ?_⟩
  · rw [hplaced]
    have hmoved := (List.perm_append_singleton (id, name) entries).symm
    exact (place_perm id name t.entries).trans ((h.perm.cons _).trans hmoved)
  · rw [hplaced]
    exact place_ascends h.ascends hid

theorem Lists.add_eq_error {t : KindTable} {entries : List (Nat × String)} {entry : Nat × String}
    {conflict : KindConflict} (h : t.Lists entries) (hadd : t.add entry = .error conflict) :
    Conflicts entries entry conflict.message := by
  obtain ⟨id, name⟩ := entry
  simp only [add] at hadd
  split at hadd
  · rename_i hname
    cases hadd
    rw [hname]
    exact .emptyName id
  · rename_i hname
    split at hadd
    · rename_i old hold
      cases hadd
      exact .idTwice id old name hname (h.perm.mem_iff.mp (mem_of_name? hold))
    · rename_i hid
      split at hadd
      · rename_i old hold
        cases hadd
        rw [name?_eq_none_iff, (h.perm.map Prod.fst).mem_iff] at hid
        exact .nameTwice name old id hname hid (h.perm.mem_iff.mp (mem_of_id? hold))
      · cases hadd

-- The converse needs that an entry is the only one with its number, and the only one with its name.
theorem Lists.add_of_conflicts {t : KindTable} {entries : List (Nat × String)} {entry : Nat × String}
    {text : String} (h : t.Lists entries) (hentries : Consistent entries)
    (hconflict : Conflicts entries entry text) :
    ∃ conflict, t.add entry = .error conflict ∧ conflict.message = text := by
  have hdistinct := h.distinct hentries
  cases hconflict with
  | emptyName id => exact ⟨.emptyName id, by simp [add], rfl⟩
  | idTwice id old new hnew hold =>
      have hfound := (hdistinct.name?_eq_some_iff id old).mpr (h.perm.mem_iff.mpr hold)
      exact ⟨.idTwice id old new, by simp [add, hnew, hfound], rfl⟩
  | nameTwice name old new hname hid hold =>
      have hfound := (hdistinct.id?_eq_some_iff old name).mpr (h.perm.mem_iff.mpr hold)
      have hnone : t.name? new = none := by
        rwa [name?_eq_none_iff, (h.perm.map Prod.fst).mem_iff]
      exact ⟨.nameTwice name old new, by simp [add, hname, hnone, hfound], rfl⟩

theorem ofEntries_snoc (entries : List (Nat × String)) (entry : Nat × String) :
    ofEntries (entries ++ [entry]) = ofEntries entries >>= (·.add entry) := by
  simp [ofEntries, List.foldlM_append]

-- What is kept from entry to entry: those so far are consistent, and the table lists them.
theorem lists_of_ofEntries {entries : List (Nat × String)} {t : KindTable}
    (h : ofEntries entries = .ok t) : Consistent entries ∧ t.Lists entries := by
  induction entries using List.reverseRecOn generalizing t with
  | nil =>
      cases h
      exact ⟨⟨by simp, List.nodup_nil, List.nodup_nil⟩, List.Perm.refl _, List.Pairwise.nil⟩
  | append_singleton entries entry ih =>
      rw [ofEntries_snoc] at h
      cases hbefore : ofEntries entries with
      | error conflict =>
          rw [hbefore] at h
          cases h
      | ok before =>
          rw [hbefore] at h
          obtain ⟨hentries, hlists⟩ := ih hbefore
          exact hlists.add_eq_ok hentries h

theorem ofEntries_eq_error_iff {entries : List (Nat × String)} {text : String} :
    (ofEntries entries).mapError KindConflict.message = .error text ↔ FirstConflict entries text := by
  simp only [mapError_eq_error_iff, ofEntries, foldlM_eq_error_iff]
  constructor
  · rintro ⟨conflict, ⟨before, entry, after, t, rfl, hbefore, hadd⟩, rfl⟩
    obtain ⟨hentries, hlists⟩ := lists_of_ofEntries hbefore
    refine ⟨before, entry, after, rfl, hlists.add_eq_error hadd, ?_⟩
    rintro earlier other later rfl
    exact hentries.not_conflicts
  · rintro ⟨before, entry, after, rfl, hconflict, hclear⟩
    cases hbefore : ofEntries before with
    | ok t =>
        obtain ⟨hentries, hlists⟩ := lists_of_ofEntries hbefore
        obtain ⟨conflict, hadd, hmessage⟩ := hlists.add_of_conflicts hentries hconflict
        exact ⟨conflict, ⟨before, entry, after, t, rfl, hbefore, hadd⟩, hmessage⟩
    | error c =>
        -- The entries before would have a conflict of their own.
        obtain ⟨earlier, other, later, t, hsplit, hok, hfails⟩ := foldlM_eq_error_iff.mp hbefore
        have hlists := (lists_of_ofEntries hok).2
        exact absurd (hlists.add_eq_error hfails) (hclear earlier other later hsplit c.message)

theorem exists_ofEntries_iff {entries : List (Nat × String)} :
    (∃ t, ofEntries entries = .ok t) ↔ Consistent entries := by
  constructor
  · rintro ⟨t, h⟩
    exact (lists_of_ofEntries h).1
  · intro hentries
    cases h : ofEntries entries with
    | ok t => exact ⟨t, rfl⟩
    | error conflict =>
        obtain ⟨before, entry, after, rfl, hconflict, -⟩ :=
          ofEntries_eq_error_iff.mp (mapError_eq_error_iff.mpr ⟨conflict, h, rfl⟩)
        exact absurd hconflict (hentries.not_conflicts conflict.message)

-- In another order the entries are as consistent, and they make the same table.
theorem ofEntries_perm {entries others : List (Nat × String)} {t : KindTable}
    (h : ofEntries entries = .ok t) (hperm : others.Perm entries) : ofEntries others = .ok t := by
  obtain ⟨hentries, hlists⟩ := lists_of_ofEntries h
  have hothers : Consistent others := by
    refine ⟨?_, ?_, ?_⟩
    · intro entry hentry
      exact hentries.named entry (hperm.mem_iff.mp hentry)
    · exact (hperm.map Prod.fst).nodup_iff.mpr hentries.ids
    · exact (hperm.map Prod.snd).nodup_iff.mpr hentries.names
  obtain ⟨t', h'⟩ := exists_ofEntries_iff.mpr hothers
  have hsame : t' = t := hlists.unique (lists_of_ofEntries h').2 hperm
  rw [h', hsame]

-- What a table says about the entries that it was made of.
structure Tabulates (t : KindTable) (entries : List (Nat × String)) : Prop where
  inverse : ∀ id name, t.name? id = some name ↔ t.id? name = some id
  found : ∀ id name, t.name? id = some name ↔ (id, name) ∈ entries
  contains : ∀ id, t.contains id ↔ ∃ name, t.name? id = some name
  size : t.size = entries.length
  listed : t.entries.Perm entries
  ascends : (t.entries.map Prod.fst).Pairwise (· < ·)
  anyOrder : ∀ others, others.Perm entries → ofEntries others = .ok t

theorem ofEntries_tabulates {entries : List (Nat × String)} {t : KindTable}
    (h : ofEntries entries = .ok t) : t.Tabulates entries := by
  obtain ⟨hentries, hlists⟩ := lists_of_ofEntries h
  have hdistinct := hlists.distinct hentries
  refine ⟨?_, ?_, ?_, hlists.perm.length_eq, hlists.perm, hlists.ascends, ?_⟩
  · intro id name
    rw [hdistinct.name?_eq_some_iff, hdistinct.id?_eq_some_iff]
  · intro id name
    rw [hdistinct.name?_eq_some_iff, hlists.perm.mem_iff]
  · intro id
    exact Option.isSome_iff_exists
  · intro others hperm
    exact ofEntries_perm h hperm

-- A list of entries makes a table exactly when it is consistent. The table pairs the numbers and the names
-- of the list, and the message about any other list is that of its first conflict.
theorem ofEntries_outcome (entries : List (Nat × String)) :
    ((∃ t, ofEntries entries = .ok t) ↔ Consistent entries) ∧
      (∀ t, ofEntries entries = .ok t → t.Tabulates entries) ∧
      ∀ text, (ofEntries entries).mapError KindConflict.message = .error text ↔
        FirstConflict entries text :=
  ⟨exists_ofEntries_iff, fun _ => ofEntries_tabulates, fun _ => ofEntries_eq_error_iff⟩

-- Three entries out of order, and a list whose third entry has the number of the second and the name of
-- the first; what is wrong with the fourth one does not count.
theorem ofEntries_outcome_sample :
    ∃ t, ofEntries [(3, "c"), (1, "a"), (2, "b")] = .ok t ∧
      t.Tabulates [(3, "c"), (1, "a"), (2, "b")] ∧ t.entries = [(1, "a"), (2, "b"), (3, "c")] ∧
      FirstConflict [(3, "c"), (1, "a"), (1, "c"), (5, "")] "kind 1 is named both 'a' and 'c'" := by
  have h : ofEntries [(3, "c"), (1, "a"), (2, "b")] = .ok ⟨[(1, "a"), (2, "b"), (3, "c")]⟩ := rfl
  have hfails : (ofEntries [(3, "c"), (1, "a"), (1, "c"), (5, "")]).mapError KindConflict.message =
      .error "kind 1 is named both 'a' and 'c'" := rfl
  exact ⟨_, h, (ofEntries_outcome _).2.1 _ h, rfl, ((ofEntries_outcome _).2.2 _).mp hfails⟩

end ExternalParser.KindTable
