import ExternalParser.Proofs.Grammar.Origin
import Mathlib.Data.List.Nodup

namespace ExternalParser.KindTable

-- The numbers of a table and its names lead to each other, by way of its entries.
structure Paired (t : KindTable) : Prop where
  inverse : ∀ id name, t.name? id = some name ↔ t.id? name = some id
  entries : ∀ id name, t.name? id = some name ↔ (id, name) ∈ t.entries
  named : ∀ id name, t.name? id = some name → name ≠ ""

-- No number and no name stands twice.
structure Distinct (t : KindTable) : Prop where
  ids : (t.entries.map Prod.fst).Nodup
  names : (t.entries.map Prod.snd).Nodup

theorem place_perm (id : Nat) (name : String) (entries : List (Nat × String)) :
    (place id name entries).Perm ((id, name) :: entries) := by
  induction entries with
  | nil => exact List.Perm.refl _
  | cons entry rest ih =>
      rw [place]
      split
      · exact List.Perm.refl _
      · exact (ih.cons entry).trans (List.Perm.swap ..)

theorem name?_eq_none_iff (t : KindTable) (id : Nat) :
    t.name? id = none ↔ id ∉ t.entries.map Prod.fst := by
  rw [name?, List.lookup_eq_none_iff]
  constructor
  · intro h hmem
    obtain ⟨entry, hentry, rfl⟩ := List.mem_map.mp hmem
    simpa using h entry hentry
  · intro h entry hentry
    apply bne_iff_ne.mpr
    rintro rfl
    exact h (List.mem_map_of_mem hentry)

theorem id?_eq_none_iff (t : KindTable) (name : String) :
    t.id? name = none ↔ name ∉ t.entries.map Prod.snd := by
  rw [id?, Option.map_eq_none_iff, List.find?_eq_none]
  constructor
  · intro h hmem
    obtain ⟨entry, hentry, rfl⟩ := List.mem_map.mp hmem
    simpa using h entry hentry
  · intro h entry hentry heq
    rw [← of_decide_eq_true heq] at h
    exact h (List.mem_map_of_mem hentry)

theorem mem_of_name? {t : KindTable} {id : Nat} {name : String} (h : t.name? id = some name) :
    (id, name) ∈ t.entries := by
  obtain ⟨before, after, hentries, -⟩ := List.lookup_eq_some_iff.mp h
  simp [hentries]

theorem mem_of_id? {t : KindTable} {id : Nat} {name : String} (h : t.id? name = some id) :
    (id, name) ∈ t.entries := by
  obtain ⟨⟨other, label⟩, hfind, rfl⟩ := Option.map_eq_some_iff.mp h
  have hlabel : label = name := by simpa using List.find?_some hfind
  exact hlabel ▸ List.mem_of_find?_eq_some hfind

namespace Distinct

variable {t : KindTable} (h : t.Distinct) (id : Nat) (name : String)

include h

-- An entry is found because no other has its number, or its name.
theorem name?_eq_some_iff : t.name? id = some name ↔ (id, name) ∈ t.entries := by
  refine ⟨mem_of_name?, fun hmem => ?_⟩
  obtain ⟨found, hfound⟩ : ∃ found, t.name? id = some found := by
    apply Option.ne_none_iff_exists'.mp
    rw [ne_eq, name?_eq_none_iff, not_not]
    exact List.mem_map_of_mem hmem
  have hsame := List.inj_on_of_nodup_map h.ids (mem_of_name? hfound) hmem rfl
  rw [hfound, (Prod.mk.inj hsame).2]

theorem id?_eq_some_iff : t.id? name = some id ↔ (id, name) ∈ t.entries := by
  refine ⟨mem_of_id?, fun hmem => ?_⟩
  obtain ⟨found, hfound⟩ : ∃ found, t.id? name = some found := by
    apply Option.ne_none_iff_exists'.mp
    rw [ne_eq, id?_eq_none_iff, not_not]
    exact List.mem_map_of_mem hmem
  have hsame := List.inj_on_of_nodup_map h.names (mem_of_id? hfound) hmem rfl
  rw [hfound, (Prod.mk.inj hsame).1]

end Distinct

-- A new entry has neither the number nor the name of one that is there.
theorem Distinct.add {t t' : KindTable} {entry : Nat × String} (h : t.add entry = .ok t')
    (ht : t.Distinct) : t'.Distinct := by
  obtain ⟨id, name⟩ := entry
  obtain ⟨-, hid, hname, hentries⟩ := add_eq_ok h
  have hperm := place_perm id name t.entries
  constructor
  · rw [hentries, (hperm.map Prod.fst).nodup_iff, List.map_cons, List.nodup_cons]
    exact ⟨(name?_eq_none_iff t id).mp hid, ht.ids⟩
  · rw [hentries, (hperm.map Prod.snd).nodup_iff, List.map_cons, List.nodup_cons]
    exact ⟨(id?_eq_none_iff t name).mp hname, ht.names⟩

theorem Made.distinct {t : KindTable} (h : t.Made) : t.Distinct := by
  obtain ⟨entries, hentries⟩ := h
  have hempty : empty.Distinct := ⟨List.nodup_nil, List.nodup_nil⟩
  exact foldlM_keeps (fun _ _ _ => Distinct.add) hentries hempty

theorem Made.paired {t : KindTable} (h : t.Made) : t.Paired := by
  have hdistinct := h.distinct
  refine ⟨?_, hdistinct.name?_eq_some_iff, fun id name => h.named.name?_ne_empty⟩
  intro id name
  rw [hdistinct.name?_eq_some_iff, hdistinct.id?_eq_some_iff]

theorem Paired.contains_of_id? {t : KindTable} (h : t.Paired) {id : Nat} {name : String}
    (hid : t.id? name = some id) : t.contains id := by
  have hname := (h.inverse id name).mpr hid
  simp [contains, hname]

end ExternalParser.KindTable
