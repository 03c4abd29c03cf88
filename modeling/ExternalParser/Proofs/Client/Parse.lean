import ExternalParser.Client
import ExternalParser.Proofs.Availability.Check
import Mathlib.Data.List.Basic

namespace ExternalParser.Client

open Availability

-- What a finished run of the parser comes to.
def outcome (c : Config) (source : String) (answer : Answer) : Except Failure Tree :=
  (record c answer).bind (treeOf c source)

-- What is left of a parse when the parser was checked.
def remainder (c : Config) (source : String) (cancel : Option CancelToken) :
    Except Failure Unit → Dialogue (Except Failure Tree)
  | .error failure => .done (.error failure)
  | .ok () => .ask .parse (parseCall c source cancel) fun answer => .done (outcome c source answer)

theorem attempt_bind (c : Config) (source : String) (cancel : Option CancelToken)
    (checked : Except Failure Unit) :
    (attempt c source cancel checked >>= fun r => .done (r.bind (treeOf c source))) =
      remainder c source cancel checked := by
  cases checked with
  | error failure => rfl
  | ok _ => rfl

-- The cache stays as the check left it.
theorem parseWith_run (c : Config) (source : String) (cancel : Option CancelToken) (κ : Cache) :
    (parseWith c source cancel).run κ = (ensure c).run κ >>= fun checked =>
      remainder c source cancel checked.1 >>= fun result => .done (result, checked.2) := by
  simp only [← attempt_bind, parseWith, invoke, ensureAvailable, StateT.run_bind,
    StateT.run_monadLift, bind_assoc, Dialogue.done_bind]
  rfl

theorem plays_parseWith_iff {c : Config} {source : String} {cancel : Option CancelToken}
    {κ κ' : Cache} {runs : List Exchange} {result : Except Failure Tree} :
    Dialogue.Plays ((parseWith c source cancel).run κ) runs (result, κ') ↔
      ∃ checked answer rest, runs = checked ++ rest ∧
        Dialogue.Plays ((ensure c).run κ) checked (answer, κ') ∧
        Dialogue.Plays (remainder c source cancel answer) rest result := by
  rw [parseWith_run, Dialogue.plays_bind_iff]
  constructor
  · rintro ⟨checked, ⟨answer, after⟩, _, rfl, hensure, hplays⟩
    obtain ⟨rest, result', last, rfl, hrest, hdone⟩ := Dialogue.plays_bind_iff.mp hplays
    obtain ⟨rfl, ⟨⟩⟩ := Dialogue.plays_done_iff.mp hdone
    rw [List.append_nil]
    exact ⟨checked, answer, rest, rfl, hensure, hrest⟩
  · rintro ⟨checked, answer, rest, rfl, hensure, hrest⟩
    refine ⟨checked, (answer, κ'), rest, rfl, hensure, ?_⟩
    rw [Dialogue.plays_bind_iff]
    exact ⟨rest, result, [], (List.append_nil rest).symm, hrest, .done _⟩

theorem treeOf_eq_ok_iff {c : Config} {source : String} {r : ParseRecord} {t : Tree} :
    treeOf c source r = .ok t ↔ Tree.ofRecord c.grammar source r = .ok t := by
  rw [treeOf]
  cases Tree.ofRecord c.grammar source r with
  | error d => simp [Except.mapError]
  | ok tree => simp [Except.mapError]

theorem outcome_eq_ok_iff {c : Config} {source : String} {answer : Answer} {t : Tree} :
    outcome c source answer = .ok t ↔
      ∃ r, record c answer = .ok r ∧ Tree.ofRecord c.grammar source r = .ok t := by
  rw [outcome]
  cases record c answer with
  | error failure => simp [Except.bind]
  | ok r => simp [Except.bind, treeOf_eq_ok_iff]

-- A tree that a parse comes to is that of a record.
theorem exists_record_of_plays {c : Config} {source : String} {cancel : Option CancelToken}
    {κ κ' : Cache} {runs : List Exchange} {t : Tree}
    (h : Dialogue.Plays ((parseWith c source cancel).run κ) runs (.ok t, κ')) :
    ∃ r, Tree.ofRecord c.grammar source r = .ok t := by
  obtain ⟨checked, answer, rest, -, -, hrest⟩ := plays_parseWith_iff.mp h
  cases answer with
  | error failure =>
      obtain ⟨-, hfailed⟩ := Dialogue.plays_done_iff.mp hrest
      cases hfailed
  | ok _ =>
      obtain ⟨output, last, -, hdone⟩ := Dialogue.plays_ask_iff.mp hrest
      obtain ⟨-, houtcome⟩ := Dialogue.plays_done_iff.mp hdone
      obtain ⟨r, -, hr⟩ := outcome_eq_ok_iff.mp houtcome
      exact ⟨r, hr⟩

-- A parser with a version, and a way to build it.
def sampleConfig : Config :=
  ⟨"Tool", "bin/tool", "--version", some "1.0", ["make"], none, none, 600, true,
    ⟨"sample", ⟨[(1, "ROOT")]⟩, ⟨[]⟩, 1, "", ";", []⟩⟩

end ExternalParser.Client
