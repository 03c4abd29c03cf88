import ExternalParser.Proofs.Grammar.Routes
import ExternalParser.Proofs.Grammar.Tables

namespace ExternalParser.Grammar

-- What the rest relies on. The name is the one that was asked for as a statement.
structure Valid (statement : String) (g : Grammar) : Prop where
  nodeKinds : g.nodeKinds.Paired
  tokenKinds : g.tokenKinds.Paired
  statement : g.nodeKinds.name? g.statementKind = some statement
  trivia : ∀ kind ∈ g.trivia, g.tokenKinds.contains kind
  terminator : g.terminator ≠ ""

-- The ways to come by a grammar, with the name that is asked for as a statement.
inductive Obtained (statement : String) : Grammar → Prop
  | new (name : String) (nodeKinds tokenKinds : KindTable) (g : Grammar) :
      nodeKinds.Made → tokenKinds.Made → Grammar.new name nodeKinds tokenKinds statement = .ok g →
      Obtained statement g
  | ofSketch (s : GrammarSketch) (g : Grammar) :
      s.nodeKinds.Made → s.tokenKinds.Made → s.statement = statement →
      Grammar.ofSketch s = .ok g → Obtained statement g
  | withOpening (g : Grammar) (opening : String) :
      Obtained statement g → Obtained statement (g.withOpening opening)
  | withTerminator (g g' : Grammar) (terminator : String) :
      Obtained statement g → g.withTerminator terminator = .ok g' → Obtained statement g'
  | withTrivia (g g' : Grammar) (names : List String) :
      Obtained statement g → g.withTrivia names = .ok g' → Obtained statement g'

-- Every grammar that was made has a statement that was asked for.
theorem made_iff_exists_obtained (g : Grammar) : g.Made ↔ ∃ statement, g.Obtained statement := by
  constructor
  · intro h
    induction h with
    | ofSketch s g hnodes htokens hg =>
        exact ⟨s.statement, .ofSketch s g hnodes htokens rfl hg⟩
    | withOpening g opening _ ih =>
        obtain ⟨statement, hobtained⟩ := ih
        exact ⟨statement, .withOpening g opening hobtained⟩
    | withTerminator g g' terminator _ hg ih =>
        obtain ⟨statement, hobtained⟩ := ih
        exact ⟨statement, .withTerminator g g' terminator hobtained hg⟩
    | withTrivia g g' names _ hg ih =>
        obtain ⟨statement, hobtained⟩ := ih
        exact ⟨statement, .withTrivia g g' names hobtained hg⟩
  · rintro ⟨statement, h⟩
    induction h with
    | new name nodeKinds tokenKinds g hnodes htokens hg => exact .ofSketch _ g hnodes htokens hg
    | ofSketch s g hnodes htokens _ hg => exact .ofSketch s g hnodes htokens hg
    | withOpening g opening _ ih => exact .withOpening g opening ih
    | withTerminator g g' terminator _ hg ih => exact .withTerminator g g' terminator ih hg
    | withTrivia g g' names _ hg ih => exact .withTrivia g g' names ih hg

-- Marking kinds adds those that are named, and changes nothing else.
theorem withTrivia_changes {g g' : Grammar} {names : List String}
    (h : g.withTrivia names = .ok g') :
    g' = { g with trivia := g'.trivia } ∧
      ∀ kind, kind ∈ g'.trivia ↔
        kind ∈ g.trivia ∨ ∃ name ∈ names, g.tokenKind? name = some kind := by
  obtain ⟨kinds, hkinds, rfl⟩ := (withTrivia_eq_ok_iff g g' names).mp h
  refine ⟨rfl, ?_⟩
  intro kind
  have hnamed : kind ∈ kinds ↔ some kind ∈ names.map g.tokenKind? := by
    simp [hkinds]
  rw [mem_foldl_mark, hnamed, List.mem_map]

section Kept

variable {statement : String} {g g' : Grammar}

theorem valid_of_ofSketch {s : GrammarSketch} (hnodes : s.nodeKinds.Made)
    (htokens : s.tokenKinds.Made) (h : ofSketch s = .ok g) : g.Valid s.statement := by
  obtain ⟨kind, kinds, hkind, hkinds, hterminator, rfl⟩ := (ofSketch_eq_ok_iff s g).mp h
  refine ⟨hnodes.paired, htokens.paired, (hnodes.paired.inverse _ _).mpr hkind, ?_, hterminator⟩
  intro other hother
  have hmem : some other ∈ s.trivia.map s.tokenKinds.id? := by
    simpa [hkinds] using hother
  obtain ⟨name, -, hname⟩ := List.mem_map.mp hmem
  exact htokens.paired.contains_of_id? hname

theorem Valid.withTerminator {terminator : String} (hg : g.Valid statement)
    (h : g.withTerminator terminator = .ok g') : g'.Valid statement := by
  obtain ⟨hterminator, rfl⟩ := (withTerminator_eq_ok_iff g g' terminator).mp h
  exact ⟨hg.nodeKinds, hg.tokenKinds, hg.statement, hg.trivia, hterminator⟩

theorem Valid.withTrivia {names : List String} (hg : g.Valid statement)
    (h : g.withTrivia names = .ok g') : g'.Valid statement := by
  obtain ⟨hsame, hmarked⟩ := withTrivia_changes h
  rw [hsame]
  refine ⟨hg.nodeKinds, hg.tokenKinds, hg.statement, ?_, hg.terminator⟩
  intro kind hkind
  rcases (hmarked kind).mp hkind with hkind | ⟨name, -, hname⟩
  · exact hg.trivia kind hkind
  · exact hg.tokenKinds.contains_of_id? hname

theorem Obtained.valid (h : g.Obtained statement) : g.Valid statement := by
  induction h with
  | new name nodeKinds tokenKinds g hnodes htokens hg => exact valid_of_ofSketch hnodes htokens hg
  | ofSketch s g hnodes htokens hname hg =>
      rw [← hname]
      exact valid_of_ofSketch hnodes htokens hg
  | withOpening g opening _ ih =>
      exact ⟨ih.nodeKinds, ih.tokenKinds, ih.statement, ih.trivia, ih.terminator⟩
  | withTerminator g g' terminator _ hg ih => exact ih.withTerminator hg
  | withTrivia g g' names _ hg ih => exact ih.withTrivia hg

end Kept

end ExternalParser.Grammar
