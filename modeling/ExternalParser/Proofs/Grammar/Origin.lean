import ExternalParser.Grammar
import Mathlib.Data.List.Basic

namespace ExternalParser

theorem mapError_eq_ok_iff {ε ε' α : Type} {f : ε → ε'} {x : Except ε α} {a : α} :
    x.mapError f = .ok a ↔ x = .ok a := by
  cases x <;> simp [Except.mapError]

theorem mapError_eq_error_iff {ε ε' α : Type} {f : ε → ε'} {x : Except ε α} {e : ε'} :
    x.mapError f = .error e ↔ ∃ reason, x = .error reason ∧ f reason = e := by
  cases x <;> simp [Except.mapError]

-- What every step of a fold that gets through keeps, the fold keeps.
theorem foldlM_keeps {ε α β : Type} {f : β → α → Except ε β} {P : β → Prop}
    (hstep : ∀ b a b', f b a = .ok b' → P b → P b') {as : List α} {b b' : β}
    (h : as.foldlM f b = .ok b') (hb : P b) : P b' := by
  induction as generalizing b with
  | nil =>
      cases h
      exact hb
  | cons a as ih =>
      simp only [List.foldlM_cons, bind, Except.bind] at h
      split at h
      · cases h
      · rename_i next hnext
        exact ih h (hstep b a next hnext hb)

-- A fold fails at the first step that fails, with the failure of that step.
theorem foldlM_eq_error_iff {ε α β : Type} {f : β → α → Except ε β} {as : List α} {b : β} {e : ε} :
    as.foldlM f b = .error e ↔ ∃ before a after b', as = before ++ a :: after ∧
      before.foldlM f b = .ok b' ∧ f b' a = .error e := by
  induction as generalizing b with
  | nil => simp [pure, Except.pure]
  | cons a as ih =>
      rw [List.foldlM_cons]
      constructor
      · intro h
        cases hstep : f b a with
        | error e' =>
            rw [hstep] at h
            cases h
            exact ⟨[], a, as, b, rfl, rfl, hstep⟩
        | ok next =>
            rw [hstep] at h
            obtain ⟨before, a', after, b', rfl, hbefore, hfails⟩ := ih.mp h
            refine ⟨a :: before, a', after, b', rfl, ?_, hfails⟩
            rw [List.foldlM_cons, hstep]
            exact hbefore
      · rintro ⟨before, a', after, b', has, hbefore, hfails⟩
        cases before with
        | nil =>
            cases has
            cases hbefore
            rw [hfails]
            rfl
        | cons first before =>
            cases has
            rw [List.foldlM_cons] at hbefore
            cases hstep : f b a with
            | error e' =>
                rw [hstep] at hbefore
                cases hbefore
            | ok next =>
                rw [hstep] at hbefore
                exact ih.mpr ⟨before, a', after, b', rfl, hbefore, hfails⟩

namespace KindTable

-- The table is made of entries.
def Made (t : KindTable) : Prop :=
  ∃ entries, ofEntries entries = .ok t

-- No name is empty.
def Named (t : KindTable) : Prop :=
  ∀ entry ∈ t.entries, entry.2 ≠ ""

theorem mem_place_iff (id : Nat) (name : String) (entries : List (Nat × String))
    (entry : Nat × String) :
    entry ∈ place id name entries ↔ entry = (id, name) ∨ entry ∈ entries := by
  induction entries with
  | nil => simp [place]
  | cons first rest ih =>
      rw [place]
      split
      · simp
      · simp only [List.mem_cons, ih]
        exact or_left_comm

theorem add_eq_ok {t t' : KindTable} {id : Nat} {name : String} (h : t.add (id, name) = .ok t') :
    name ≠ "" ∧ t.name? id = none ∧ t.id? name = none ∧ t'.entries = place id name t.entries := by
  simp only [add] at h
  split at h
  · cases h
  · rename_i hname
    split at h
    · cases h
    · rename_i hid
      split at h
      · cases h
      · rename_i hfree
        cases h
        exact ⟨hname, hid, hfree, rfl⟩

theorem Named.add {t t' : KindTable} {entry : Nat × String} (h : t.add entry = .ok t')
    (ht : t.Named) : t'.Named := by
  obtain ⟨hname, -, -, hentries⟩ := add_eq_ok h
  intro other hmem
  rw [hentries, mem_place_iff] at hmem
  rcases hmem with rfl | hmem
  · exact hname
  · exact ht other hmem

theorem Made.named {t : KindTable} (h : t.Made) : t.Named := by
  obtain ⟨entries, hentries⟩ := h
  have hempty : empty.Named := by simp [Named, empty]
  exact foldlM_keeps (fun _ _ _ => Named.add) hentries hempty

theorem Named.name?_ne_empty {t : KindTable} (h : t.Named) {id : Nat} {name : String}
    (hname : t.name? id = some name) : name ≠ "" := by
  obtain ⟨before, after, hentries, -⟩ := List.lookup_eq_some_iff.mp hname
  exact h (id, name) (by simp [hentries])

end KindTable

namespace Grammar

-- The ways to come by a grammar. A new one has a sketch with the usual terminator, and one that is read
-- from a document has the sketch that the document gives.
inductive Made : Grammar → Prop
  | ofSketch (s : GrammarSketch) (g : Grammar) :
      s.nodeKinds.Made → s.tokenKinds.Made → Grammar.ofSketch s = .ok g → Made g
  | withOpening (g : Grammar) (opening : String) : Made g → Made (g.withOpening opening)
  | withTerminator (g g' : Grammar) (terminator : String) :
      Made g → g.withTerminator terminator = .ok g' → Made g'
  | withTrivia (g g' : Grammar) (names : List String) :
      Made g → g.withTrivia names = .ok g' → Made g'

theorem ofSketch_tables {s : GrammarSketch} {g : Grammar} (h : ofSketch s = .ok g) :
    g.nodeKinds = s.nodeKinds ∧ g.tokenKinds = s.tokenKinds := by
  simp only [ofSketch, bind, Except.bind] at h
  split at h
  · split at h
    · cases h
    · split at h
      · cases h
      · cases h
        exact ⟨rfl, rfl⟩
  · cases h

theorem withTerminator_tables {g g' : Grammar} {terminator : String}
    (h : g.withTerminator terminator = .ok g') :
    g'.nodeKinds = g.nodeKinds ∧ g'.tokenKinds = g.tokenKinds := by
  rw [withTerminator] at h
  split at h
  · cases h
  · cases h
    exact ⟨rfl, rfl⟩

theorem addTrivia_tables {g g' : Grammar} {name : String} (h : g.addTrivia name = .ok g') :
    g'.nodeKinds = g.nodeKinds ∧ g'.tokenKinds = g.tokenKinds := by
  rw [addTrivia] at h
  split at h
  · cases h
    exact ⟨rfl, rfl⟩
  · cases h

theorem withTrivia_tables {g g' : Grammar} {names : List String} (h : g.withTrivia names = .ok g') :
    g'.nodeKinds = g.nodeKinds ∧ g'.tokenKinds = g.tokenKinds := by
  refine foldlM_keeps (P := fun other => other.nodeKinds = g.nodeKinds ∧
    other.tokenKinds = g.tokenKinds) ?_ h ⟨rfl, rfl⟩
  intro other name next hnext hother
  obtain ⟨hnodes, htokens⟩ := addTrivia_tables hnext
  exact ⟨hnodes.trans hother.1, htokens.trans hother.2⟩

-- Whatever was done to a grammar, its tables are made of entries.
theorem Made.tables {g : Grammar} (h : g.Made) : g.nodeKinds.Made ∧ g.tokenKinds.Made := by
  induction h with
  | ofSketch s g hnodes htokens hg =>
      obtain ⟨hn, ht⟩ := ofSketch_tables hg
      rw [hn, ht]
      exact ⟨hnodes, htokens⟩
  | withOpening g opening _ ih => exact ih
  | withTerminator g g' terminator _ hg ih =>
      obtain ⟨hn, ht⟩ := withTerminator_tables hg
      rw [hn, ht]
      exact ih
  | withTrivia g g' names _ hg ih =>
      obtain ⟨hn, ht⟩ := withTrivia_tables hg
      rw [hn, ht]
      exact ih

end Grammar

end ExternalParser
