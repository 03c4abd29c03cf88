import ExternalParser.Proofs.Client.Parse
import ExternalParser.Proofs.Config.Reading
import ExternalParser.Proofs.Tree.Descent
import ExternalParser.Proofs.Tree.Reassembly

namespace ExternalParser

namespace Tree

-- The node has the kind, and it is not the root.
def BelowRoot (t : Tree) (kind id : Nat) : Prop :=
  1 ≤ id ∧ t.nodeKind? id = some kind

instance (t : Tree) (kind id : Nat) : Decidable (t.BelowRoot kind id) :=
  inferInstanceAs (Decidable (_ ∧ _))

-- How many nodes of the array have the kind, without the root.
def countBelow (t : Tree) (kind : Nat) : Nat :=
  (List.range t.nodeCount).countP fun id => t.BelowRoot kind id

-- What is said of a tree whose statements are the nodes of a kind.
structure Judged (t : Tree) (kind : Nat) (verdict : Except Failure Statement) : Prop where
  accepts : (∃ statement, verdict = .ok statement) ↔ t.countBelow kind = 1
  finds : ∀ statement, verdict = .ok statement →
    statement.tree = t ∧ ∀ id, t.BelowRoot kind id ↔ id = statement.node
  rejects : t.countBelow kind ≠ 1 → ∃ failure : Failure, verdict = .error failure ∧
    failure = .unexpected
      s!"fragment does not parse into exactly one statement (found {t.countBelow kind})" ∧
    failure.blame = .input

end Tree

section Built

variable {g : Grammar} {source : String} {r : ParseRecord} {t : Tree}

-- The walk down from the root lists the whole array, but for the root.
theorem ofRecord_range_nodeCount (h : Tree.ofRecord g source r = .ok t) :
    List.range t.nodeCount = 0 :: t.descendants 0 := by
  have hcount : t.nodeCount = nodeCounts r.tree.children + 1 := by
    obtain ⟨owners, -, rfl⟩ := ofRecord_eq_ok h
    rw [layout_nodeCount, NodeRecord.records, List.length_cons, length_recordsOf]
  rw [ofRecord_descendants h rfl, hcount, List.range_eq_range', List.range'_succ]

theorem ofRecord_selectKind_root (h : Tree.ofRecord g source r = .ok t) (kind : Nat) :
    t.selectKind 0 kind = (List.range t.nodeCount).filter fun id => t.BelowRoot kind id := by
  have hroot : ¬ t.BelowRoot kind 0 := fun hbelow => absurd hbelow.1 (by decide)
  rw [ofRecord_range_nodeCount h, List.filter_cons_of_neg (by simpa using hroot), Tree.selectKind]
  apply List.filter_congr
  intro id hid
  rw [ofRecord_descendants h rfl, List.mem_range'_1] at hid
  simp [Tree.nodeIs, Tree.BelowRoot, hid.1]

theorem ofRecord_mem_selectKind_root (h : Tree.ofRecord g source r = .ok t) {kind id : Nat} :
    id ∈ t.selectKind 0 kind ↔ t.BelowRoot kind id := by
  rw [ofRecord_selectKind_root h, List.mem_filter, List.mem_range, decide_eq_true_eq,
    and_iff_right_iff_imp]
  rintro ⟨-, hkind⟩
  obtain ⟨d, hd, -⟩ := Option.map_eq_some_iff.mp hkind
  exact (Array.getElem?_eq_some_iff.mp hd).1

theorem ofRecord_length_selectKind_root (h : Tree.ofRecord g source r = .ok t) (kind : Nat) :
    (t.selectKind 0 kind).length = t.countBelow kind := by
  rw [ofRecord_selectKind_root h, Tree.countBelow, List.countP_eq_length_filter]

end Built

namespace Client

theorem statementOf_of_singleton {t : Tree} {node : Nat} (h : statements t = [node]) :
    statementOf t = .ok ⟨t, node⟩ := by
  rw [statementOf, h]

theorem statementOf_of_length_ne {t : Tree} (h : (statements t).length ≠ 1) :
    statementOf t = .error (.unexpected
      s!"fragment does not parse into exactly one statement (found {(statements t).length})") := by
  unfold statementOf
  split
  · rename_i node hfound
    rw [hfound] at h
    exact absurd rfl h
  · rfl

theorem statementOf_judged {g : Grammar} {source : String} {r : ParseRecord} {t : Tree}
    (h : Tree.ofRecord g source r = .ok t) : t.Judged g.statementKind (statementOf t) := by
  have hgrammar := (ofRecord_source h).2
  have hlength : (statements t).length = t.countBelow g.statementKind := by
    rw [statements, hgrammar]
    exact ofRecord_length_selectKind_root h _
  have hmem : ∀ id, id ∈ statements t ↔ t.BelowRoot g.statementKind id := by
    intro id
    rw [statements, hgrammar]
    exact ofRecord_mem_selectKind_root h
  by_cases hone : t.countBelow g.statementKind = 1
  · obtain ⟨node, hnode⟩ := List.length_eq_one_iff.mp (hlength.trans hone)
    rw [statementOf_of_singleton hnode]
    refine ⟨⟨fun _ => hone, fun _ => ⟨_, rfl⟩⟩, ?_, fun hne => absurd hone hne⟩
    rintro _ ⟨⟩
    refine ⟨rfl, ?_⟩
    intro id
    rw [← hmem, hnode, List.mem_singleton]
  · rw [statementOf_of_length_ne (hlength ▸ hone), hlength]
    refine ⟨⟨?_, fun heq => absurd heq hone⟩, ?_, fun _ => ⟨_, rfl, rfl, rfl⟩⟩
    · rintro ⟨_, ⟨⟩⟩
    · rintro _ ⟨⟩

theorem parseStatement_run (c : Config) (fragment : String) (κ : Cache) :
    (parseStatement c fragment).run κ = (parse c (c.grammar.wrap fragment)).run κ >>= fun parsed =>
      .done (parsed.1.bind statementOf, parsed.2) :=
  rfl

-- Whatever is remembered and whatever the programs do, a fragment fares like the text that it is wrapped
-- into, up to a failure or a tree. A tree has to have one statement, nested ones counted.
theorem parseStatement_outcome {σ : Type} (c : Config) (fragment : String) (κ : Cache)
    (runner : σ → Invocation → Answer × σ) (s : σ) :
    let parsed := ((parse c (c.grammar.wrap fragment)).run κ).answeredBy runner s
    let judged := ((parseStatement c fragment).run κ).answeredBy runner s
    judged.1.2 = parsed.1.2 ∧ judged.2 = parsed.2 ∧
      (∀ failure, parsed.1.1 = .error failure → judged.1.1 = .error failure) ∧
      ∀ t, parsed.1.1 = .ok t →
        t.source = c.grammar.wrap fragment ∧ t.Judged c.grammar.statementKind judged.1.1 := by
  intro parsed judged
  have hjudged : judged = ((parsed.1.1.bind statementOf, parsed.1.2), parsed.2) := by
    have hbind := Dialogue.answeredBy_bind runner ((parse c (c.grammar.wrap fragment)).run κ)
      (fun parsed => .done (parsed.1.bind statementOf, parsed.2)) s
    rwa [← parseStatement_run] at hbind
  rw [hjudged]
  refine ⟨rfl, rfl, ?_, ?_⟩
  · intro failure hfailure
    simp only [hfailure]
    rfl
  · intro t ht
    obtain ⟨runs, hplays⟩ : ∃ runs, Dialogue.Plays _ runs parsed.1 :=
      Dialogue.answeredBy_plays runner _ s
    have hresult : parsed.1 = (.ok t, parsed.1.2) := Prod.ext ht rfl
    rw [hresult] at hplays
    obtain ⟨r, hr⟩ := exists_record_of_plays hplays
    refine ⟨(ofRecord_source hr).1, ?_⟩
    simp only [ht]
    exact statementOf_judged hr

def fragmentConfig : Config :=
  Config.new "Tool" "bin/tool" sampleGrammar

-- A parser that writes the same text for every source.
def writing (text : String) (_ : Unit) (_ : Invocation) : Answer × Unit :=
  (.ok ⟨some 0, Utf8.encode text, []⟩, ())

def resultOf {α : Type} (call : Session α) (text : String) : α :=
  ((call.run Cache.empty).answeredBy (writing text) ()).1.1

-- One statement, with a word in it.
def singleText : String :=
  "[\x7b\"kind\":10,\"children\":[\x7b\"kind\":11,\"children\":[0]\x7d]\x7d,[[1,\"a\",0]]]"

-- A statement inside of another one.
def nestedText : String :=
  "[\x7b\"kind\":10,\"children\":[\x7b\"kind\":11,\"children\":[" ++
    "\x7b\"kind\":11,\"children\":[]\x7d]\x7d]\x7d,[]]"

-- The fragment lacks the terminator that the source of the tree has.
theorem parseStatement_outcome_sample :
    ∃ t, resultOf (parse fragmentConfig "a;") singleText = .ok t ∧ t.source = "a;" ∧
      resultOf (parseStatement fragmentConfig "a") singleText = .ok ⟨t, 1⟩ ∧
      resultOf (parseStatement fragmentConfig "a") nestedText =
        .error (.unexpected "fragment does not parse into exactly one statement (found 2)") := by
  have hwrap : fragmentConfig.grammar.wrap "a" = "a;" := by decide +kernel
  have hone : (resultOf (parse fragmentConfig "a;") singleText).toOption.map (fun t =>
      (t.countBelow 11, decide (t.BelowRoot 11 1))) = some (1, true) := by decide +kernel
  have htwo : (resultOf (parse fragmentConfig "a;") nestedText).toOption.map (fun t =>
      t.countBelow 11) = some 2 := by decide +kernel
  obtain ⟨t, ht, hnumbers⟩ := Option.map_eq_some_iff.mp hone
  obtain ⟨nested, hnested, hcounted⟩ := Option.map_eq_some_iff.mp htwo
  obtain ⟨hcount, hbelow⟩ := Prod.mk.inj hnumbers
  have hsingle := (parseStatement_outcome fragmentConfig "a" Cache.empty (writing singleText) ()).2.2.2
  have hdouble := (parseStatement_outcome fragmentConfig "a" Cache.empty (writing nestedText) ()).2.2.2
  rw [hwrap] at hsingle hdouble
  obtain ⟨hsource, hverdict⟩ := hsingle t (eq_ok_of_toOption ht)
  obtain ⟨⟨tree, node⟩, hstatement⟩ := hverdict.accepts.mpr hcount
  obtain ⟨rfl, hunique⟩ := hverdict.finds _ hstatement
  obtain rfl : 1 = node := (hunique 1).mp (of_decide_eq_true hbelow)
  have hrejects := (hdouble nested (eq_ok_of_toOption hnested)).2.rejects
  rw [show nested.countBelow fragmentConfig.grammar.statementKind = 2 from hcounted] at hrejects
  obtain ⟨_, hfailure, rfl, -⟩ := hrejects (by decide)
  exact ⟨_, eq_ok_of_toOption ht, hsource, hstatement, hfailure⟩

end Client

end ExternalParser
