import ExternalParser.Proofs.Grammar.Origin
import ExternalParser.Proofs.Json.Reading

namespace ExternalParser

open Json (bind_eq_ok_iff)

namespace Grammar

-- Marks one more kind, unless it is marked.
def mark (trivia : List Nat) (kind : Nat) : List Nat :=
  if trivia.contains kind then trivia else trivia ++ [kind]

-- Marking one kind after the other keeps the first of those that are repeated.
theorem foldl_mark (kinds trivia : List Nat) :
    kinds.foldl mark trivia = trivia ++ (kinds.filter fun kind => !trivia.contains kind).eraseDups := by
  induction kinds generalizing trivia with
  | nil => simp
  | cons kind kinds ih =>
      rw [List.foldl_cons, ih, mark]
      by_cases hmarked : trivia.contains kind = true
      · rw [if_pos hmarked, List.filter_cons_of_neg (by simpa using hmarked)]
      · have hpred : ∀ other, (!(trivia ++ [kind]).contains other) =
            (!(other == kind) && !trivia.contains other) := by
          intro other
          rw [List.contains_eq_mem, List.contains_eq_mem]
          by_cases hsame : other = kind <;> simp [hsame]
        rw [if_neg hmarked, List.filter_cons_of_pos (by simpa using hmarked), List.eraseDups_cons,
          List.filter_filter, List.append_assoc, List.singleton_append]
        simp only [hpred]

theorem mem_foldl_mark (kinds trivia : List Nat) (kind : Nat) :
    kind ∈ kinds.foldl mark trivia ↔ kind ∈ trivia ∨ kind ∈ kinds := by
  rw [foldl_mark, List.mem_append, List.mem_eraseDups, List.mem_filter]
  by_cases hmarked : kind ∈ trivia
  · simp [hmarked]
  · simp [hmarked]

theorem withTerminator_eq_ok_iff (g g' : Grammar) (terminator : String) :
    g.withTerminator terminator = .ok g' ↔
      terminator ≠ "" ∧ g' = { g with terminator := terminator } := by
  rw [withTerminator]
  by_cases hempty : terminator = ""
  · simp [hempty]
  · simp [hempty, eq_comm]

theorem addTrivia_eq_ok_iff (g g' : Grammar) (name : String) :
    g.addTrivia name = .ok g' ↔
      ∃ kind, g.tokenKind? name = some kind ∧ g' = { g with trivia := mark g.trivia kind } := by
  rw [addTrivia]
  cases g.tokenKind? name with
  | none => simp
  | some kind =>
      simp only [Except.ok.injEq, Option.some.injEq, exists_eq_left', eq_comm (b := g')]
      rfl

theorem withTrivia_eq_ok_iff (g g' : Grammar) (names : List String) :
    g.withTrivia names = .ok g' ↔
      ∃ kinds : List Nat, names.map g.tokenKind? = kinds.map some ∧
        g' = { g with trivia := kinds.foldl mark g.trivia } := by
  unfold withTrivia
  induction names generalizing g with
  | nil =>
      constructor
      · intro h
        cases h
        exact ⟨[], rfl, rfl⟩
      · rintro ⟨kinds, hkinds, rfl⟩
        rw [List.map_eq_nil_iff.mp hkinds.symm]
        rfl
  | cons name names ih =>
      rw [List.foldlM_cons, bind_eq_ok_iff]
      constructor
      · rintro ⟨next, hnext, hrest⟩
        obtain ⟨kind, hkind, rfl⟩ := (addTrivia_eq_ok_iff ..).mp hnext
        obtain ⟨kinds, hkinds, rfl⟩ := (ih _).mp hrest
        have hall : (name :: names).map g.tokenKind? = (kind :: kinds).map some := by
          rw [List.map_cons, List.map_cons, hkind]
          exact congrArg _ hkinds
        exact ⟨kind :: kinds, hall, rfl⟩
      · rintro ⟨kinds, hkinds, rfl⟩
        cases kinds with
        | nil => simp at hkinds
        | cons kind kinds =>
            obtain ⟨hkind, hrest⟩ := List.cons.inj hkinds
            have hnext := (addTrivia_eq_ok_iff ..).mpr ⟨kind, hkind, rfl⟩
            exact ⟨_, hnext, (ih _).mpr ⟨kinds, hrest, rfl⟩⟩

theorem triviaKinds_eq_ok_iff (grammar : String) (table : KindTable) (names : List String)
    (kinds : List Nat) :
    triviaKinds grammar table names = .ok kinds ↔ names.map table.id? = kinds.map some := by
  unfold triviaKinds
  induction names generalizing kinds with
  | nil => cases kinds <;> simp [pure, Except.pure]
  | cons name names ih =>
      rw [List.mapM_cons, bind_eq_ok_iff, List.map_cons]
      cases table.id? name with
      | none =>
          cases kinds <;> simp
      | some kind =>
          simp only [bind_eq_ok_iff, Except.ok.injEq, exists_eq_left', ih]
          constructor
          · rintro ⟨others, hothers, hkinds⟩
            cases hkinds
            rw [hothers, List.map_cons]
          · intro hkinds
            cases kinds with
            | nil => simp at hkinds
            | cons first others =>
                obtain ⟨hfirst, hothers⟩ := List.cons.inj hkinds
                cases hfirst
                exact ⟨others, hothers, rfl⟩

end Grammar

-- The grammar that a sketch asks for.
def GrammarSketch.Yields (s : GrammarSketch) (g : Grammar) : Prop :=
  ∃ (statement : Nat) (kinds : List Nat), s.nodeKinds.id? s.statement = some statement ∧
    s.trivia.map s.tokenKinds.id? = kinds.map some ∧ s.terminator ≠ "" ∧
    g = ⟨s.name, s.nodeKinds, s.tokenKinds, statement, s.opening, s.terminator, kinds.eraseDups⟩

theorem Grammar.ofSketch_eq_ok_iff (s : GrammarSketch) (g : Grammar) :
    Grammar.ofSketch s = .ok g ↔ s.Yields g := by
  unfold ofSketch GrammarSketch.Yields
  simp only [← triviaKinds_eq_ok_iff s.name]
  cases s.nodeKinds.id? s.statement with
  | none => simp [bind, Except.bind]
  | some statement =>
      cases triviaKinds s.name s.tokenKinds s.trivia with
      | error flaw => simp [bind, Except.bind]
      | ok kinds =>
          by_cases hempty : s.terminator = ""
          · simp [hempty, bind, Except.bind, throw, throwThe, MonadExceptOf.throw]
          · simp [hempty, bind, Except.bind, pure, Except.pure, eq_comm]

-- The same in steps: a new grammar, then its opening, its terminator and its trivia.
def GrammarSketch.assemble (s : GrammarSketch) : Except GrammarFlaw Grammar := do
  let g ← Grammar.new s.name s.nodeKinds s.tokenKinds s.statement
  let g ← (g.withOpening s.opening).withTerminator s.terminator
  g.withTrivia s.trivia

theorem Grammar.new_eq_ok_iff (name : String) (nodeKinds tokenKinds : KindTable) (statement : String)
    (g : Grammar) :
    Grammar.new name nodeKinds tokenKinds statement = .ok g ↔
      ∃ kind, nodeKinds.id? statement = some kind ∧
        g = ⟨name, nodeKinds, tokenKinds, kind, "", Grammar.defaultTerminator, []⟩ := by
  rw [new, ofSketch_eq_ok_iff]
  constructor
  · rintro ⟨kind, kinds, hkind, hkinds, -, rfl⟩
    rw [List.map_eq_nil_iff.mp hkinds.symm]
    exact ⟨kind, hkind, rfl⟩
  · rintro ⟨kind, hkind, rfl⟩
    have hdefault : Grammar.defaultTerminator ≠ "" := by decide
    exact ⟨kind, [], hkind, rfl, hdefault, rfl⟩

theorem GrammarSketch.assemble_eq_ok_iff (s : GrammarSketch) (g : Grammar) :
    s.assemble = .ok g ↔ s.Yields g := by
  have hmarked : ∀ kinds : List Nat, kinds.foldl Grammar.mark [] = kinds.eraseDups := by
    intro kinds
    rw [Grammar.foldl_mark, List.nil_append, List.filter_eq_self.mpr (by simp)]
  simp only [assemble, bind_eq_ok_iff, Grammar.new_eq_ok_iff, Grammar.withTerminator_eq_ok_iff,
    Grammar.withTrivia_eq_ok_iff]
  constructor
  · rintro ⟨_, ⟨statement, hstatement, rfl⟩, _, ⟨hterminator, rfl⟩, kinds, hkinds, rfl⟩
    refine ⟨statement, kinds, hstatement, hkinds, hterminator, ?_⟩
    rw [← hmarked]
    rfl
  · rintro ⟨statement, kinds, hstatement, hkinds, hterminator, rfl⟩
    refine ⟨_, ⟨statement, hstatement, rfl⟩, _, ⟨hterminator, rfl⟩, kinds, hkinds, ?_⟩
    rw [← hmarked]
    rfl

-- What a sketch needs to become a grammar.
structure GrammarSketch.Consistent (s : GrammarSketch) : Prop where
  statement : s.nodeKinds.id? s.statement ≠ none
  trivia : ∀ name ∈ s.trivia, s.tokenKinds.id? name ≠ none
  terminator : s.terminator ≠ ""

-- A grammar that has what the sketch asks for and nothing else.
structure GrammarSketch.Describes (s : GrammarSketch) (g : Grammar) : Prop where
  name : g.name = s.name
  nodeKinds : g.nodeKinds = s.nodeKinds
  tokenKinds : g.tokenKinds = s.tokenKinds
  statement : s.nodeKinds.id? s.statement = some g.statementKind
  opening : g.opening = s.opening
  terminator : g.terminator = s.terminator
  trivia : ∀ kind, g.isTrivia kind ↔ ∃ name ∈ s.trivia, s.tokenKinds.id? name = some kind

theorem exists_map_some_iff {f : String → Option Nat} {names : List String} :
    (∃ kinds : List Nat, names.map f = kinds.map some) ↔ ∀ name ∈ names, f name ≠ none := by
  constructor
  · rintro ⟨kinds, hkinds⟩ name hname hnone
    have hmem : f name ∈ kinds.map some := hkinds ▸ List.mem_map_of_mem hname
    simp [hnone] at hmem
  · intro h
    refine ⟨names.map fun name => (f name).getD 0, ?_⟩
    rw [List.map_map]
    apply List.map_congr_left
    intro name hname
    obtain ⟨kind, hkind⟩ := Option.ne_none_iff_exists'.mp (h name hname)
    simp [hkind]

theorem GrammarSketch.Yields.describes {s : GrammarSketch} {g : Grammar} (h : s.Yields g) :
    s.Describes g := by
  obtain ⟨statement, kinds, hstatement, hkinds, -, rfl⟩ := h
  refine ⟨rfl, rfl, rfl, hstatement, rfl, rfl, ?_⟩
  intro kind
  have hmem : kind ∈ kinds ↔ some kind ∈ s.trivia.map s.tokenKinds.id? := by
    simp [hkinds]
  simp [Grammar.isTrivia, List.mem_eraseDups, hmem]

theorem GrammarSketch.exists_yields_iff (s : GrammarSketch) : (∃ g, s.Yields g) ↔ s.Consistent := by
  constructor
  · rintro ⟨g, statement, kinds, hstatement, hkinds, hterminator, -⟩
    refine ⟨by simp [hstatement], exists_map_some_iff.mp ⟨kinds, hkinds⟩, hterminator⟩
  · rintro ⟨hstatement, htrivia, hterminator⟩
    obtain ⟨statement, hstatement⟩ := Option.ne_none_iff_exists'.mp hstatement
    obtain ⟨kinds, hkinds⟩ := exists_map_some_iff.mpr htrivia
    exact ⟨_, statement, kinds, hstatement, hkinds, hterminator, rfl⟩

-- A sketch becomes a grammar at once exactly when it does so in steps, and the grammar is the same. It
-- does when all that it names is there, and the grammar has what it asks for.
theorem ofSketch_agrees_with_steps (s : GrammarSketch) :
    (∀ g, Grammar.ofSketch s = .ok g ↔ s.assemble = .ok g) ∧
      ((∃ g, Grammar.ofSketch s = .ok g) ↔ s.Consistent) ∧
      ∀ g, Grammar.ofSketch s = .ok g → s.Describes g := by
  refine ⟨?_, ?_, ?_⟩
  · intro g
    rw [Grammar.ofSketch_eq_ok_iff, s.assemble_eq_ok_iff]
  · simp only [Grammar.ofSketch_eq_ok_iff]
    exact s.exists_yields_iff
  · intro g hg
    exact ((Grammar.ofSketch_eq_ok_iff s g).mp hg).describes

-- A kind of trivia is named twice, with another one between.
def repetitiveSketch : GrammarSketch :=
  ⟨"php", ⟨[(1, "PROGRAM"), (2, "STATEMENT")]⟩, ⟨[(1, "NAME"), (2, "SPACE"), (3, "COMMENT")]⟩,
    "STATEMENT", "<?php ", "; ", ["COMMENT", "SPACE", "COMMENT"]⟩

theorem repetitiveSketch_agrees :
    ∃ g, Grammar.ofSketch repetitiveSketch = .ok g ∧ repetitiveSketch.assemble = .ok g ∧
      repetitiveSketch.Describes g ∧ g.statementKind = 2 ∧ g.trivia = [3, 2] := by
  obtain ⟨hsame, -, hdescribes⟩ := ofSketch_agrees_with_steps repetitiveSketch
  have h : Grammar.ofSketch repetitiveSketch = .ok ⟨"php", repetitiveSketch.nodeKinds,
      repetitiveSketch.tokenKinds, 2, "<?php ", "; ", [3, 2]⟩ := rfl
  exact ⟨_, h, (hsame _).mp h, hdescribes _ h, rfl, rfl⟩

end ExternalParser
