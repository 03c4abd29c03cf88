import ExternalParser.Availability
import ExternalParser.Proofs.Dialogue.Plays

namespace ExternalParser

theorem Cache.state?_store (κ : Cache) (k k' : ProbeKey) (state : Option ProbeState) :
    (κ.store k state).state? k' = if k' = k then state.or (κ.state? k) else κ.state? k' := by
  cases state with
  | none =>
      by_cases hk : k' = k
      · simp [store, hk]
      · simp [store, hk]
  | some st =>
      by_cases hk : k' = k
      · simp [store, state?, hk]
      · have hbeq : (k' == k) = false := by simpa using hk
        simp [store, state?, List.lookup_cons, hk, hbeq]

namespace Availability

-- The check of a parser with its runs written out: the probe, the build where there is something to
-- run and nothing was built before, and the probe after it.
theorem check_unrolled (c : Config) (expected : String) (previous : Option ProbeState) :
    check c expected previous =
      if previous = some .available then .done (.ok (), previous)
      else .ask .version (probeCall c) fun found =>
        if reported? found = some expected then .done (.ok (), some .available)
        else match c.buildCommand with
          | [] => .done (.error (.buildRequired c.buildInstructions none), previous)
          | program :: arguments =>
              if previous = some .buildFailed then
                .done (.error (.buildRequired c.buildInstructions none), previous)
              else .ask .build (buildCall c program arguments) fun built =>
                match buildOutcome program built with
                | .error failure =>
                    .done (.error (.buildRequired c.buildInstructions (some failure)),
                      some .buildFailed)
                | .ok () => .ask .version (probeCall c) fun again =>
                    if reported? again = some expected then .done (.ok (), some .available)
                    else .done (.error (.buildRequired c.buildInstructions
                      (some (.wrongVersion c.binary expected (reported? again)))),
                      some .buildFailed) := by
  unfold check
  by_cases hav : previous = some .available
  · simp only [hav, ite_true]
    rfl
  · simp only [hav, ite_false, probe, Dialogue.run_bind, Dialogue.pure_eq_done, Dialogue.ask_bind,
      Dialogue.done_bind]
    congr 1
    funext found
    by_cases hfound : reported? found = some expected
    · simp only [hfound, ite_true]
    · simp only [hfound, ite_false]
      cases c.buildCommand with
      | nil => rfl
      | cons program arguments =>
          by_cases hfailed : previous = some .buildFailed
          · simp only [hfailed, ite_true]
          · simp only [hfailed, ite_false, rebuild, Dialogue.run_bind, Dialogue.ask_bind]
            congr 1
            funext built
            cases buildOutcome program built with
            | error failure => rfl
            | ok _ =>
                simp only [probe, Dialogue.run_bind, Dialogue.pure_eq_done, Dialogue.ask_bind,
                  Dialogue.done_bind]
                congr 1
                funext again
                by_cases hagain : reported? again = some expected
                · simp only [hagain, ite_true, Dialogue.done_bind]
                · simp only [hagain, ite_false, Dialogue.done_bind]

def probeRun (c : Config) (answer : Answer) : Exchange :=
  ⟨.version, probeCall c, answer⟩

def buildRun (c : Config) (program : String) (arguments : List String) (answer : Answer) : Exchange :=
  ⟨.build, buildCall c program arguments, answer⟩

-- The ways a check can go: the programs that it runs, its answer, and what is to be remembered.
inductive Course (c : Config) (expected : String) (previous : Option ProbeState) :
    List Exchange → Except Failure Unit → Option ProbeState → Prop
  | known : previous = some .available → Course c expected previous [] (.ok ()) previous
  | found (first : Answer) : previous ≠ some .available → reported? first = some expected →
      Course c expected previous [probeRun c first] (.ok ()) (some .available)
  | refused (first : Answer) : previous ≠ some .available → reported? first ≠ some expected →
      c.buildCommand = [] ∨ previous = some .buildFailed →
      Course c expected previous [probeRun c first]
        (.error (.buildRequired c.buildInstructions none)) previous
  | unbuilt (first built : Answer) (program : String) (arguments : List String) (failure : Failure) :
      previous = none → reported? first ≠ some expected → c.buildCommand = program :: arguments →
      buildOutcome program built = .error failure →
      Course c expected previous [probeRun c first, buildRun c program arguments built]
        (.error (.buildRequired c.buildInstructions (some failure))) (some .buildFailed)
  | rebuilt (first built again : Answer) (program : String) (arguments : List String) :
      previous = none → reported? first ≠ some expected → c.buildCommand = program :: arguments →
      buildOutcome program built = .ok () → reported? again = some expected →
      Course c expected previous
        [probeRun c first, buildRun c program arguments built, probeRun c again]
        (.ok ()) (some .available)
  | misbuilt (first built again : Answer) (program : String) (arguments : List String) :
      previous = none → reported? first ≠ some expected → c.buildCommand = program :: arguments →
      buildOutcome program built = .ok () → reported? again ≠ some expected →
      Course c expected previous
        [probeRun c first, buildRun c program arguments built, probeRun c again]
        (.error (.buildRequired c.buildInstructions
          (some (.wrongVersion c.binary expected (reported? again))))) (some .buildFailed)

theorem course_of_plays {c : Config} {expected : String} {previous : Option ProbeState}
    {runs : List Exchange} {answer : Except Failure Unit} {state : Option ProbeState}
    (h : Dialogue.Plays (check c expected previous) runs (answer, state)) :
    Course c expected previous runs answer state := by
  rw [check_unrolled] at h
  split at h
  · rename_i hav
    obtain ⟨rfl, ⟨⟩⟩ := Dialogue.plays_done_iff.mp h
    exact .known hav
  · rename_i hav
    obtain ⟨first, _, rfl, hprobe⟩ := Dialogue.plays_ask_iff.mp h
    split at hprobe
    · rename_i hfirst
      obtain ⟨rfl, ⟨⟩⟩ := Dialogue.plays_done_iff.mp hprobe
      exact .found first hav hfirst
    · rename_i hfirst
      split at hprobe
      · rename_i hcommand
        obtain ⟨rfl, ⟨⟩⟩ := Dialogue.plays_done_iff.mp hprobe
        exact .refused first hav hfirst (.inl hcommand)
      · rename_i program arguments hcommand
        split at hprobe
        · rename_i hfailed
          obtain ⟨rfl, ⟨⟩⟩ := Dialogue.plays_done_iff.mp hprobe
          exact .refused first hav hfirst (.inr hfailed)
        · rename_i hfailed
          have hnone : previous = none := by
            rcases previous with _ | _ | _
            · rfl
            · exact absurd rfl hav
            · exact absurd rfl hfailed
          obtain ⟨built, _, rfl, hbuild⟩ := Dialogue.plays_ask_iff.mp hprobe
          split at hbuild
          · rename_i failure hbuilt
            obtain ⟨rfl, ⟨⟩⟩ := Dialogue.plays_done_iff.mp hbuild
            exact .unbuilt first built program arguments failure hnone hfirst hcommand hbuilt
          · rename_i hbuilt
            obtain ⟨again, _, rfl, hreprobe⟩ := Dialogue.plays_ask_iff.mp hbuild
            split at hreprobe
            · rename_i hagain
              obtain ⟨rfl, ⟨⟩⟩ := Dialogue.plays_done_iff.mp hreprobe
              exact .rebuilt first built again program arguments hnone hfirst hcommand hbuilt hagain
            · rename_i hagain
              obtain ⟨rfl, ⟨⟩⟩ := Dialogue.plays_done_iff.mp hreprobe
              exact .misbuilt first built again program arguments hnone hfirst hcommand hbuilt hagain

-- Every course can be taken.
theorem plays_of_course {c : Config} {expected : String} {previous : Option ProbeState}
    {runs : List Exchange} {answer : Except Failure Unit} {state : Option ProbeState}
    (h : Course c expected previous runs answer state) :
    Dialogue.Plays (check c expected previous) runs (answer, state) := by
  rw [check_unrolled]
  cases h with
  | known hav =>
      rw [if_pos hav]
      exact .done _
  | found first hav hfirst =>
      rw [if_neg hav]
      refine .ask _ _ _ first [] _ ?_
      simp [hfirst]
  | refused first hav hfirst hwhy =>
      rw [if_neg hav]
      refine .ask _ _ _ first [] _ ?_
      rcases hwhy with hcommand | hfailed
      · simp [hfirst, hcommand]
      · cases hcommand : c.buildCommand <;> simp [hfirst, hfailed]
  | unbuilt first built program arguments failure hnone hfirst hcommand hbuilt =>
      rw [if_neg (by simp [hnone])]
      refine .ask _ _ _ first _ _ ?_
      simp only [hfirst, hcommand, hnone, reduceCtorEq, if_false]
      refine .ask _ _ _ built _ _ ?_
      simp only [hbuilt]
      exact .done _
  | rebuilt first built again program arguments hnone hfirst hcommand hbuilt hagain =>
      rw [if_neg (by simp [hnone])]
      refine .ask _ _ _ first _ _ ?_
      simp only [hfirst, hcommand, hnone, reduceCtorEq, if_false]
      refine .ask _ _ _ built _ _ ?_
      simp only [hbuilt]
      refine .ask _ _ _ again _ _ ?_
      rw [if_pos hagain]
      exact .done _
  | misbuilt first built again program arguments hnone hfirst hcommand hbuilt hagain =>
      rw [if_neg (by simp [hnone])]
      refine .ask _ _ _ first _ _ ?_
      simp only [hfirst, hcommand, hnone, reduceCtorEq, if_false]
      refine .ask _ _ _ built _ _ ?_
      simp only [hbuilt]
      refine .ask _ _ _ again _ _ ?_
      rw [if_neg hagain]
      exact .done _

-- A run that shows the parser of a key to be there: the binary was asked with the flag, it ended well,
-- and what it wrote is the version.
def Confirms (run : Exchange) (k : ProbeKey) : Prop :=
  run.role = .version ∧ Path.route run.call.program = k.binary ∧
    run.call.arguments = [k.versionFlag] ∧
    ∃ output, run.answer = .ok output ∧ output.exitCode = some 0 ∧
      Text.trimmed (Utf8.lossy output.stdout) = k.expected

theorem confirms_probeRun {c : Config} {expected : String} {answer : Answer}
    (h : reported? answer = some expected) : Confirms (probeRun c answer) (key c expected) := by
  refine ⟨rfl, rfl, rfl, ?_⟩
  cases answer with
  | error failure => cases h
  | ok output =>
      simp only [reported?, Output.isSuccess, decide_eq_true_eq] at h
      split at h
      · rename_i hcode
        exact ⟨output, rfl, hcode, Option.some.inj h⟩
      · cases h

namespace Course

variable {c : Config} {expected : String} {previous state : Option ProbeState}
  {runs : List Exchange} {answer : Except Failure Unit}

-- A check does not parse anything.
theorem role_ne_parse (h : Course c expected previous runs answer state) :
    ∀ run ∈ runs, run.role ≠ .parse := by
  cases h <;> simp [probeRun, buildRun]

theorem of_available (h : Course c expected previous runs answer state)
    (hprevious : previous = some .available) :
    runs = [] ∧ answer = .ok () ∧ state = some .available := by
  cases h with
  | known => exact ⟨rfl, rfl, hprevious⟩
  | found _ hne | refused _ hne => exact absurd hprevious hne
  | unbuilt _ _ _ _ _ hnone | rebuilt _ _ _ _ _ hnone | misbuilt _ _ _ _ _ hnone =>
      rw [hnone] at hprevious
      cases hprevious

-- A success is remembered, and nothing else is remembered as one.
theorem available_iff (h : Course c expected previous runs answer state) :
    state = some .available ↔ answer = .ok () := by
  cases h with
  | known hav => simp [hav]
  | refused _ hne => simp [hne]
  | found | rebuilt | unbuilt | misbuilt => simp

-- A parser is found available by a run that shows it, in this check or before it.
theorem confirmed (h : Course c expected previous runs answer state)
    (hstate : state = some .available) :
    previous = some .available ∨ ∃ run ∈ runs, Confirms run (key c expected) := by
  cases h with
  | known hav => exact .inl hav
  | refused => exact .inl hstate
  | found first _ hfirst => exact .inr ⟨probeRun c first, by simp, confirms_probeRun hfirst⟩
  | rebuilt first built again program arguments _ _ _ _ hagain =>
      exact .inr ⟨probeRun c again, by simp, confirms_probeRun hagain⟩
  | unbuilt | misbuilt => cases hstate

end Course

-- Making sure of a parser is its check, from the slot of its key and back into it.
theorem ensure_run (c : Config) (κ : Cache) :
    (ensure c).run κ = match c.wantedVersion? with
      | none => .done (.ok (), κ)
      | some expected =>
          check c expected (κ.state? (key c expected)) >>= fun verdict =>
            .done (verdict.1, κ.store (key c expected) verdict.2) := by
  unfold ensure
  cases c.wantedVersion? with
  | none => rfl
  | some expected =>
      simp only [StateT.run_bind, StateT.run_get, StateT.run_monadLift, StateT.run_modify,
        StateT.run_pure, pure_bind, bind_assoc]
      rfl

-- What is known of a call that makes sure of a parser, whatever the programs answer.
section Ensure

variable {c : Config} {κ κ' : Cache} {runs : List Exchange} {answer : Except Failure Unit}
  {expected : String}

theorem ensure_unwanted (hwanted : c.wantedVersion? = none)
    (h : Dialogue.Plays ((ensure c).run κ) runs (answer, κ')) :
    runs = [] ∧ answer = .ok () ∧ κ' = κ := by
  rw [ensure_run, hwanted] at h
  obtain ⟨rfl, ⟨⟩⟩ := Dialogue.plays_done_iff.mp h
  exact ⟨rfl, rfl, rfl⟩

theorem plays_ensure_iff (hwanted : c.wantedVersion? = some expected) :
    Dialogue.Plays ((ensure c).run κ) runs (answer, κ') ↔
      ∃ state, Course c expected (κ.state? (key c expected)) runs answer state ∧
        κ' = κ.store (key c expected) state := by
  rw [ensure_run, hwanted, Dialogue.plays_bind_iff]
  constructor
  · rintro ⟨checked, ⟨answer', state⟩, rest, rfl, hcheck, hdone⟩
    obtain ⟨rfl, ⟨⟩⟩ := Dialogue.plays_done_iff.mp hdone
    rw [List.append_nil]
    exact ⟨state, course_of_plays hcheck, rfl⟩
  · rintro ⟨state, hcourse, rfl⟩
    refine ⟨runs, (answer, state), [], ?_, plays_of_course hcourse, .done _⟩
    rw [List.append_nil]

theorem ensure_role_ne_parse (h : Dialogue.Plays ((ensure c).run κ) runs (answer, κ')) :
    ∀ run ∈ runs, run.role ≠ .parse := by
  cases hwanted : c.wantedVersion? with
  | none =>
      obtain ⟨rfl, -⟩ := ensure_unwanted hwanted h
      simp
  | some expected =>
      obtain ⟨state, hcourse, -⟩ := (plays_ensure_iff hwanted).mp h
      exact hcourse.role_ne_parse

-- A parser that is available needs no program run.
theorem ensure_of_available (hwanted : c.wantedVersion? = some expected)
    (h : Dialogue.Plays ((ensure c).run κ) runs (answer, κ'))
    (hav : κ.state? (key c expected) = some .available) : answer = .ok () ∧ runs = [] := by
  obtain ⟨state, hcourse, -⟩ := (plays_ensure_iff hwanted).mp h
  obtain ⟨hruns, hanswer, -⟩ := hcourse.of_available hav
  exact ⟨hanswer, hruns⟩

theorem ensure_remembers (hwanted : c.wantedVersion? = some expected)
    (h : Dialogue.Plays ((ensure c).run κ) runs (.ok (), κ')) :
    κ'.state? (key c expected) = some .available := by
  obtain ⟨state, hcourse, rfl⟩ := (plays_ensure_iff hwanted).mp h
  rw [Cache.state?_store, if_pos rfl, hcourse.available_iff.mpr rfl]
  rfl

-- No parser stops being available.
theorem ensure_keeps (h : Dialogue.Plays ((ensure c).run κ) runs (answer, κ')) {k : ProbeKey}
    (hav : κ.state? k = some .available) : κ'.state? k = some .available := by
  cases hwanted : c.wantedVersion? with
  | none =>
      obtain ⟨-, -, rfl⟩ := ensure_unwanted hwanted h
      exact hav
  | some expected =>
      obtain ⟨state, hcourse, rfl⟩ := (plays_ensure_iff hwanted).mp h
      rw [Cache.state?_store]
      split
      · rename_i hk
        subst hk
        rw [(hcourse.of_available hav).2.2]
        rfl
      · exact hav

-- A parser becomes available by a run that shows it to be there.
theorem ensure_confirmed (h : Dialogue.Plays ((ensure c).run κ) runs (answer, κ')) {k : ProbeKey}
    (hav : κ'.state? k = some .available) :
    κ.state? k = some .available ∨ ∃ run ∈ runs, Confirms run k := by
  cases hwanted : c.wantedVersion? with
  | none =>
      obtain ⟨-, -, rfl⟩ := ensure_unwanted hwanted h
      exact .inl hav
  | some expected =>
      obtain ⟨state, hcourse, rfl⟩ := (plays_ensure_iff hwanted).mp h
      rw [Cache.state?_store] at hav
      split at hav
      · rename_i hk
        subst hk
        rcases Option.or_eq_some_iff.mp hav with hstate | ⟨-, hprevious⟩
        · exact hcourse.confirmed hstate
        · exact .inl hprevious
      · exact .inl hav

end Ensure

end Availability

end ExternalParser
