import ExternalParser.Config.Load
import ExternalParser.Proofs.Grammar.Validity
import ExternalParser.Proofs.Text.Trim

namespace ExternalParser

open Json (bind_eq_ok_iff)

theorem pure_eq_ok_iff {ε α : Type} {a b : α} : (pure a : Except ε α) = .ok b ↔ a = b := by
  simp [pure, Except.pure]

-- Two results are compared by what they hold, whose equality can be computed.
theorem eq_ok_of_toOption {ε α : Type} {x : Except ε α} {a : α} (h : x.toOption = some a) :
    x = .ok a := by
  cases x with
  | ok b => simpa [Except.toOption] using h
  | error e => simp [Except.toOption] at h

namespace Yaml

-- The scalar that a node is, or that it is an alias of, has the text.
def Document.Says (d : Document) (n : Node Nat) (text : String) : Prop :=
  ∃ anchor s, d.follow n = .scalar anchor s ∧ s.text = text

-- The entry of a mapping with a name. No other entry has the name.
structure Document.Entry (d : Document) (n : Node Nat) (name : String) (key value : Node Nat) :
    Prop where
  named : d.Says key name
  only : ∃ anchor entries, d.follow n = .mapping anchor entries ∧ (key, value) ∈ entries ∧
    ∀ entry ∈ entries, d.Says entry.1 name → entry = (key, value)

theorem Document.Says.unique {d : Document} {n : Node Nat} {text other : String} (h : d.Says n text)
    (h' : d.Says n other) : text = other := by
  obtain ⟨anchor, s, hs, rfl⟩ := h
  obtain ⟨anchor', s', hs', rfl⟩ := h'
  cases hs.symm.trans hs'
  rfl

theorem says_of_readText {d : Document} {wanted text : String} {trail : Trail} {n : Node Nat}
    (h : readText d wanted trail n = .ok text) : d.Says n text := by
  unfold readText at h
  split at h
  · rename_i anchor s hs
    cases h
    exact ⟨anchor, s, hs, rfl⟩
  · cases h

theorem mapping_of_readMapping {d : Document} {wanted : String} {trail : Trail} {n : Node Nat}
    {entries : List (Node Nat × Node Nat)} (h : readMapping d wanted trail n = .ok entries)
    {entry : Node Nat × Node Nat} (hentry : entry ∈ entries) :
    ∃ anchor, d.follow n = .mapping anchor entries := by
  unfold readMapping at h
  split at h
  · rename_i anchor found hfound
    cases h
    exact ⟨anchor, hfound⟩
  · split at h
    · cases h
      cases hentry
    · cases h
  · cases h

section Fields

variable {σ ε : Type} {d : Document} {known : List String}
  {read : σ → String → Trail → Node Nat → Except ε σ} {misfit : Misfit → ε} {trail : Trail}
  {seen : List String} {draft final : σ} {key value : Node Nat} {entries : List (Node Nat × Node Nat)}

-- A field that is read has a name, which is known and new.
theorem readFields_cons
    (h : readFields d known read misfit trail seen draft ((key, value) :: entries) = .ok final) :
    ∃ name next, d.Says key name ∧ name ∈ known ∧ name ∉ seen ∧
      read draft name (stepTo key :: trail) value = .ok next ∧
      readFields d known read misfit trail (name :: seen) next entries = .ok final := by
  obtain ⟨name, hname, h⟩ := bind_eq_ok_iff.mp h
  cases hknown : known.contains name with
  | false =>
      rw [hknown] at h
      cases h
  | true =>
      cases hseen : seen.contains name with
      | true =>
          rw [hknown, hseen] at h
          cases h
      | false =>
          rw [hknown, hseen] at h
          obtain ⟨next, hnext, hrest⟩ := bind_eq_ok_iff.mp h
          have hsays := says_of_readText (mapError_eq_ok_iff.mp hname)
          exact ⟨name, next, hsays, by simpa using hknown, by simpa using hseen, hnext, hrest⟩

-- What every field keeps, all fields keep.
theorem readFields_keeps {P : σ → Prop}
    (hstep : ∀ draft name key value next, (key, value) ∈ entries → d.Says key name → name ∈ known →
      read draft name (stepTo key :: trail) value = .ok next → P draft → P next)
    (h : readFields d known read misfit trail seen draft entries = .ok final) (hdraft : P draft) :
    P final := by
  induction entries generalizing seen draft with
  | nil =>
      cases h
      exact hdraft
  | cons entry entries ih =>
      obtain ⟨key, value⟩ := entry
      obtain ⟨name, next, hsays, hknown, -, hnext, hrest⟩ := readFields_cons h
      refine ih ?_ hrest (hstep draft name key value next List.mem_cons_self hsays hknown hnext hdraft)
      intro draft name key value next hentry
      exact hstep draft name key value next (List.mem_cons_of_mem _ hentry)

theorem readFields_fresh
    (h : readFields d known read misfit trail seen draft entries = .ok final)
    {entry : Node Nat × Node Nat} (hentry : entry ∈ entries) {name : String}
    (hname : d.Says entry.1 name) : name ∉ seen := by
  induction entries generalizing seen draft with
  | nil => cases hentry
  | cons first entries ih =>
      obtain ⟨key, value⟩ := first
      obtain ⟨other, next, hsays, -, hseen, -, hrest⟩ := readFields_cons h
      rcases List.mem_cons.mp hentry with rfl | hentry
      · rwa [hname.unique hsays]
      · exact fun hold => ih hrest hentry (List.mem_cons_of_mem _ hold)

-- No two fields have one name.
theorem readFields_unique
    (h : readFields d known read misfit trail seen draft entries = .ok final)
    {entry other : Node Nat × Node Nat} (hentry : entry ∈ entries) (hother : other ∈ entries)
    {name : String} (hname : d.Says entry.1 name) (hname' : d.Says other.1 name) : entry = other := by
  induction entries generalizing seen draft with
  | nil => cases hentry
  | cons first entries ih =>
      obtain ⟨key, value⟩ := first
      obtain ⟨label, next, hsays, -, -, -, hrest⟩ := readFields_cons h
      rcases List.mem_cons.mp hentry with rfl | hentry
      · rcases List.mem_cons.mp hother with rfl | hother
        · rfl
        · have hfresh := readFields_fresh hrest hother hname'
          rw [hname.unique hsays] at hfresh
          exact absurd List.mem_cons_self hfresh
      · rcases List.mem_cons.mp hother with rfl | hother
        · have hfresh := readFields_fresh hrest hentry hname
          rw [hname'.unique hsays] at hfresh
          exact absurd List.mem_cons_self hfresh
        · exact ih hrest hentry hother

theorem entry_of_readFields {wanted name : String} {outer : Trail} {n : Node Nat}
    (hmapping : readMapping d wanted outer n = .ok entries)
    (h : readFields d known read misfit trail seen draft entries = .ok final)
    (hentry : (key, value) ∈ entries) (hname : d.Says key name) : d.Entry n name key value := by
  obtain ⟨anchor, hfollow⟩ := mapping_of_readMapping hmapping hentry
  refine ⟨hname, anchor, entries, hfollow, hentry, ?_⟩
  intro other hother hname'
  exact readFields_unique h hother hentry hname' hname

end Fields

theorem required_eq_ok_iff {α : Type} {trail : Trail} {name : String} {slot : Option α} {x : α} :
    required trail name slot = .ok x ↔ slot = some x := by
  cases slot <;> simp [required]

end Yaml

theorem KindTable.read_made {d : Yaml.Document} {trail : Yaml.Trail} {n : Yaml.Node Nat}
    {t : KindTable} (h : KindTable.read d trail n = .ok t) : t.Made := by
  obtain ⟨entries, -, h⟩ := bind_eq_ok_iff.mp h
  exact ⟨entries, mapError_eq_ok_iff.mp h⟩

namespace GrammarSketch

-- The tables of a draft are made of entries.
structure Draft.Made (draft : Draft) : Prop where
  nodeKinds : ∀ t ∈ draft.nodeKinds, t.Made
  tokenKinds : ∀ t ∈ draft.tokenKinds, t.Made

theorem readField_made {d : Yaml.Document} {draft next : Draft} {name : String} {trail : Yaml.Trail}
    {n : Yaml.Node Nat} (h : readField d draft name trail n = .ok next) (hdraft : draft.Made) :
    next.Made := by
  unfold readField at h
  split at h
  all_goals
    obtain ⟨x, hx, h⟩ := bind_eq_ok_iff.mp h
    cases h
  case h_2 =>
    refine ⟨?_, hdraft.tokenKinds⟩
    rintro _ ⟨⟩
    exact KindTable.read_made hx
  case h_3 =>
    refine ⟨hdraft.nodeKinds, ?_⟩
    rintro _ ⟨⟩
    exact KindTable.read_made hx
  all_goals exact ⟨hdraft.nodeKinds, hdraft.tokenKinds⟩

-- Only the field for it says what a statement is.
theorem readField_statement {d : Yaml.Document} {draft next : Draft} {name text : String}
    {trail : Yaml.Trail} {n : Yaml.Node Nat} (h : readField d draft name trail n = .ok next)
    (hstatement : next.statement = some text) :
    draft.statement = some text ∨ name = "statement_kind" ∧ d.Says n text := by
  unfold readField at h
  split at h
  all_goals
    obtain ⟨x, hx, h⟩ := bind_eq_ok_iff.mp h
    cases h
  case h_4 =>
    cases hstatement
    exact .inr ⟨rfl, Yaml.says_of_readText (mapError_eq_ok_iff.mp hx)⟩
  all_goals exact .inl hstatement

-- What a sketch takes from its mapping: tables that are made of entries, and the name of the statement.
structure TakenFrom (d : Yaml.Document) (n : Yaml.Node Nat) (s : GrammarSketch) : Prop where
  nodeKinds : s.nodeKinds.Made
  tokenKinds : s.tokenKinds.Made
  statement : ∃ key value, d.Entry n "statement_kind" key value ∧ d.Says value s.statement

theorem read_takenFrom {d : Yaml.Document} {trail : Yaml.Trail} {n : Yaml.Node Nat} {s : GrammarSketch}
    (h : GrammarSketch.read d trail n = .ok s) : s.TakenFrom d n := by
  obtain ⟨entries, hentries, h⟩ := bind_eq_ok_iff.mp h
  obtain ⟨draft, hfields, h⟩ := bind_eq_ok_iff.mp h
  have hstart : Draft.start.Made := ⟨by simp [Draft.start], by simp [Draft.start]⟩
  have hdraft := Yaml.readFields_keeps (fun _ _ _ _ _ _ _ _ => readField_made) hfields hstart
  have hnamed := Yaml.readFields_keeps
    (P := fun draft => ∀ text, draft.statement = some text →
      ∃ key value, (key, value) ∈ entries ∧ d.Says key "statement_kind" ∧ d.Says value text)
    (fun _ name key value _ hentry hsays _ hread hdraft text htext => by
      rcases readField_statement hread htext with hold | ⟨rfl, hvalue⟩
      · exact hdraft text hold
      · exact ⟨key, value, hentry, hsays, hvalue⟩)
    hfields (by simp [Draft.start])
  simp only [fits, mapError_eq_ok_iff, ofDraft, bind_eq_ok_iff, Yaml.required_eq_ok_iff,
    pure_eq_ok_iff] at h
  obtain ⟨name, -, nodeKinds, hnodes, tokenKinds, htokens, statement, hstatement, rfl⟩ := h
  obtain ⟨key, value, hentry, hkey, hvalue⟩ := hnamed statement hstatement
  have hmapping := mapError_eq_ok_iff.mp hentries
  exact ⟨hdraft.nodeKinds nodeKinds hnodes, hdraft.tokenKinds tokenKinds htokens, key, value,
    Yaml.entry_of_readFields hmapping hfields hentry hkey, hvalue⟩

end GrammarSketch

-- A grammar that is read has the statement that its description asks for.
theorem Grammar.read_obtained {d : Yaml.Document} {trail : Yaml.Trail} {n : Yaml.Node Nat}
    {g : Grammar} (h : Grammar.read d trail n = .ok g) :
    ∃ s, GrammarSketch.read d trail n = .ok s ∧ s.TakenFrom d n ∧ g.Obtained s.statement := by
  obtain ⟨s, hs, h⟩ := bind_eq_ok_iff.mp h
  have htaken := GrammarSketch.read_takenFrom hs
  exact ⟨s, hs, htaken,
    .ofSketch s g htaken.nodeKinds htaken.tokenKinds rfl (mapError_eq_ok_iff.mp h)⟩

namespace Config

-- Only the field for it sets the grammar.
theorem readField_grammar {d : Yaml.Document} {draft next : Draft} {name : String}
    {trail : Yaml.Trail} {n : Yaml.Node Nat} (hname : name ∈ fieldNames)
    (h : readField d draft name trail n = .ok next) {g : Grammar} (hg : next.grammar = some g) :
    draft.grammar = some g ∨ name = "grammar" ∧ Grammar.read d trail n = .ok g := by
  unfold readField at h
  split at h
  all_goals
    obtain ⟨x, hx, h⟩ := bind_eq_ok_iff.mp h
    cases h
  case h_10 =>
    cases hg
    exact .inr ⟨by simp_all [fieldNames], hx⟩
  all_goals exact .inl hg

theorem read_grammar {d : Yaml.Document} {c : Config} (h : Config.read d = .ok c) :
    ∃ root key n, d.root = some root ∧ d.Entry root "grammar" key n ∧
      Grammar.read d [Yaml.stepTo key] n = .ok c.grammar := by
  obtain ⟨entries, hentries, h⟩ := bind_eq_ok_iff.mp h
  obtain ⟨draft, hfields, h⟩ := bind_eq_ok_iff.mp h
  have hnamed := Yaml.readFields_keeps
    (P := fun draft => ∀ g, draft.grammar = some g → ∃ key n, (key, n) ∈ entries ∧
      d.Says key "grammar" ∧ Grammar.read d [Yaml.stepTo key] n = .ok g)
    (fun _ name key n _ hentry hsays hknown hread hdraft g hg => by
      rcases readField_grammar hknown hread hg with hold | ⟨rfl, hgrammar⟩
      · exact hdraft g hold
      · exact ⟨key, n, hentry, hsays, hgrammar⟩)
    hfields (by simp [Draft.start])
  simp only [fits, mapError_eq_ok_iff, ofDraft, bind_eq_ok_iff, Yaml.required_eq_ok_iff,
    pure_eq_ok_iff] at h
  obtain ⟨toolName, -, binary, -, grammar, hgrammar, rfl⟩ := h
  obtain ⟨key, n, hentry, hkey, hread⟩ := hnamed grammar hgrammar
  have hmapping := mapError_eq_ok_iff.mp hentries
  cases hroot : d.root with
  | none =>
      rw [Yaml.readRootMapping, hroot] at hmapping
      cases hmapping
      cases hentry
  | some root =>
      rw [Yaml.readRootMapping, hroot] at hmapping
      exact ⟨root, key, n, rfl, Yaml.entry_of_readFields hmapping hfields hentry hkey, hread⟩

-- A text gives the configuration its grammar, with the statement that the text asks for, and a tool name
-- that shows.
structure TakenFrom (text : String) (c : Config) : Prop where
  grammar : ∃ d root key n s, Yaml.Document.parse? text = some d ∧ d.root = some root ∧
    d.Entry root "grammar" key n ∧ GrammarSketch.read d [Yaml.stepTo key] n = .ok s ∧
    s.TakenFrom d n ∧ c.grammar.Obtained s.statement ∧ c.grammar.Valid s.statement
  toolName : ∃ ch ∈ c.toolName.toList, Text.isBlank ch = false

theorem ofYaml_takenFrom {text : String} {c : Config} (h : Config.ofYaml text = .ok c) :
    c.TakenFrom text := by
  unfold ofYaml at h
  split at h
  · cases h
  · rename_i d hd
    obtain ⟨read, hread, h⟩ := bind_eq_ok_iff.mp h
    by_cases hblank : Text.trimmed read.toolName = ""
    · rw [if_pos hblank] at h
      cases h
    · rw [if_neg hblank] at h
      cases h
      obtain ⟨root, key, n, hroot, hentry, hgrammar⟩ := read_grammar hread
      obtain ⟨s, hs, htaken, hobtained⟩ := Grammar.read_obtained hgrammar
      exact ⟨⟨d, root, key, n, s, hd, hroot, hentry, hs, htaken, hobtained, hobtained.valid⟩,
        Text.exists_not_blank_of_trimmed_ne_empty hblank⟩

theorem TakenFrom.resolvePaths {text : String} {c : Config} (h : c.TakenFrom text) (base : String) :
    (c.resolvePaths base).TakenFrom text :=
  ⟨h.grammar, h.toolName⟩

theorem TakenFrom.overrideBinary {text : String} {c : Config} (h : c.TakenFrom text)
    (binary : Option String) : (c.overrideBinary binary).TakenFrom text := by
  unfold Config.overrideBinary
  split
  · split
    · exact h
    · exact ⟨h.grammar, h.toolName⟩
  · exact h

theorem load_eq_ok_iff {read : TextReader} {path : String} {binary : Option String} {c : Config} :
    Config.load read path binary = .ok c ↔ ∃ text plain, read path = .ok text ∧
      Config.ofYaml text = .ok plain ∧
      Config.overrideBinary (((Path.parent? path).map plain.resolvePaths).getD plain) binary = c := by
  unfold load
  cases read path with
  | error e => simp
  | ok text =>
      cases hplain : Config.ofYaml text with
      | error flaw => simp [hplain]
      | ok plain => cases Path.parent? path <;> simp [hplain]

theorem load_takenFrom {read : TextReader} {path : String} {binary : Option String} {c : Config}
    (h : Config.load read path binary = .ok c) :
    ∃ text, read path = .ok text ∧ c.TakenFrom text := by
  obtain ⟨text, plain, htext, hplain, rfl⟩ := load_eq_ok_iff.mp h
  have hread := ofYaml_takenFrom hplain
  refine ⟨text, htext, TakenFrom.overrideBinary ?_ binary⟩
  cases Path.parent? path with
  | none => exact hread
  | some base => exact hread.resolvePaths base

end Config

-- Every grammar that can be come by is valid, a change reaches the part that it is for and no other, and
-- every configuration that is read or loaded holds such a grammar.
theorem grammars_stay_valid :
    (∀ statement g, Grammar.Obtained statement g → g.Valid statement) ∧
      (∀ (g : Grammar) opening, g.withOpening opening = { g with opening := opening }) ∧
      (∀ (g g' : Grammar) terminator, g.withTerminator terminator = .ok g' →
        g' = { g with terminator := terminator }) ∧
      (∀ (g g' : Grammar) names, g.withTrivia names = .ok g' →
        g' = { g with trivia := g'.trivia } ∧ ∀ kind, kind ∈ g'.trivia ↔
          kind ∈ g.trivia ∨ ∃ name ∈ names, g.tokenKind? name = some kind) ∧
      (∀ text c, Config.ofYaml text = .ok c → c.TakenFrom text) ∧
      ∀ read path binary c, Config.load read path binary = .ok c →
        ∃ text, read path = .ok text ∧ c.TakenFrom text := by
  refine ⟨fun _ _ => Grammar.Obtained.valid, fun _ _ => rfl, ?_,
    fun _ _ _ => Grammar.withTrivia_changes, fun _ _ => Config.ofYaml_takenFrom,
    fun _ _ _ _ => Config.load_takenFrom⟩
  intro g g' terminator h
  exact ((Grammar.withTerminator_eq_ok_iff g g' terminator).mp h).2

def smallText : String :=
  "tool_name: M\nbinary: b/m\ngrammar:\n name: g\n statement_kind: S\n node_kinds:\n  1: S\n" ++
    " token_kinds:\n  2: W\n  3: C\n trivia_tokens: [W]"

def smallGrammar : Grammar :=
  ⟨"g", ⟨[(1, "S")]⟩, ⟨[(2, "W"), (3, "C")]⟩, 1, "", ";\n", [2]⟩

theorem smallText_read :
    Config.ofYaml smallText = .ok (Config.new "M" "b/m" smallGrammar) :=
  eq_ok_of_toOption (by decide +kernel)

theorem smallGrammar_obtained : smallGrammar.Obtained "S" :=
  .ofSketch ⟨"g", smallGrammar.nodeKinds, smallGrammar.tokenKinds, "S", "", ";\n", ["W"]⟩ smallGrammar
    ⟨[(1, "S")], rfl⟩ ⟨[(3, "C"), (2, "W")], rfl⟩ rfl rfl

def smallFiles : TextReader := fun _ => .ok smallText

theorem smallFiles_loaded :
    Config.load smallFiles "etc/small.yaml" none = .ok (Config.new "M" "etc/b/m" smallGrammar) :=
  Config.load_eq_ok_iff.mpr ⟨smallText, _, rfl, smallText_read, rfl⟩

-- A grammar out of a document gets another kind of trivia, which is named with one that it has, and then
-- another terminator.
theorem smallGrammar_stays_valid :
    ∃ marked ended, smallGrammar.withTrivia ["C", "W"] = .ok marked ∧
      (∀ kind, kind ∈ marked.trivia ↔
        kind ∈ smallGrammar.trivia ∨ ∃ name ∈ ["C", "W"], smallGrammar.tokenKind? name = some kind) ∧
      marked.withTerminator "." = .ok ended ∧ ended = { marked with terminator := "." } ∧
      ended.Valid "S" ∧
      (Config.new "M" "b/m" smallGrammar).TakenFrom smallText ∧
      ∃ text, smallFiles "etc/small.yaml" = .ok text ∧
        (Config.new "M" "etc/b/m" smallGrammar).TakenFrom text := by
  obtain ⟨hvalid, -, hterminator, htrivia, hread, hload⟩ := grammars_stay_valid
  have hmarked : smallGrammar.withTrivia ["C", "W"] =
      .ok { smallGrammar with trivia := [2, 3] } := rfl
  have hended : ({ smallGrammar with trivia := [2, 3] } : Grammar).withTerminator "." =
      .ok { smallGrammar with trivia := [2, 3], terminator := "." } := rfl
  have hobtained := Grammar.Obtained.withTerminator _ _ _
    (.withTrivia _ _ _ smallGrammar_obtained hmarked) hended
  refine ⟨_, _, hmarked, (htrivia _ _ _ hmarked).2, hended, hterminator _ _ _ hended,
    hvalid _ _ hobtained, ?_, ?_⟩
  · exact hread _ _ smallText_read
  · exact hload _ _ _ _ smallFiles_loaded

end ExternalParser
