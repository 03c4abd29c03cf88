import ExternalParser.Proofs.Availability.Check

namespace ExternalParser.Availability

-- The programs of a check: none, the probe, the probe and the build, or these two and the probe again.
inductive Schedule (c : Config) : List (Role × Invocation) → Prop
  | nothing : Schedule c []
  | probe : Schedule c [(.version, probeCall c)]
  | build (program : String) (arguments : List String) : c.buildCommand = program :: arguments →
      Schedule c [(.version, probeCall c), (.build, buildCall c program arguments)]
  | rebuild (program : String) (arguments : List String) : c.buildCommand = program :: arguments →
      Schedule c [(.version, probeCall c), (.build, buildCall c program arguments),
        (.version, probeCall c)]

-- The build command was run.
def Built (runs : List Exchange) : Prop :=
  ∃ run ∈ runs, run.role = .build

-- What came of a build that did not help: the runner's own failure, the failure of the build command, or
-- the version that was found after it.
inductive Explains (c : Config) (expected : String) : List Exchange → Failure → Prop
  | unrun (first built : Exchange) (failure : Failure) : built.answer = .error failure →
      Explains c expected [first, built] failure
  | failed (first built : Exchange) (program : String) (arguments : List String) (output : Output) :
      c.buildCommand = program :: arguments → built.answer = .ok output → output.exitCode ≠ some 0 →
      Explains c expected [first, built]
        (.toolFailed program output.exitCode (Utf8.lossy output.stderr))
  | outdated (first built again : Exchange) : reported? again.answer ≠ some expected →
      Explains c expected [first, built, again]
        (.wrongVersion c.binary expected (reported? again.answer))

-- Everything about one call, from the cache before it to the cache after it.
structure Outcome (c : Config) (expected : String) (κ : Cache) (runs : List Exchange)
    (answer : Except Failure Unit) (κ' : Cache) : Prop where
  schedule : Schedule c (runs.map fun run => (run.role, run.call))
  -- No failure of an earlier call counts against a parser that reports its version.
  confirmed : ∀ first rest, runs = first :: rest → Confirms first (key c expected) → answer = .ok ()
  refused : ∀ failure, answer = .error failure →
    ∃ cause, failure = .buildRequired c.buildInstructions cause ∧ (cause.isSome ↔ Built runs) ∧
      ∀ why, cause = some why → Explains c expected runs why
  available : κ'.state? (key c expected) = some .available ↔ answer = .ok ()
  buildFailed : κ'.state? (key c expected) = some .buildFailed ∧
      κ.state? (key c expected) ≠ some .buildFailed ↔ Built runs ∧ answer ≠ .ok ()
  kept : answer ≠ .ok () → ¬ Built runs → κ'.state? (key c expected) = κ.state? (key c expected)
  others : ∀ k ≠ key c expected, κ'.state? k = κ.state? k

theorem reported?_eq_some_iff {answer : Answer} {version : String} :
    reported? answer = some version ↔ ∃ output, answer = .ok output ∧ output.exitCode = some 0 ∧
      Text.trimmed (Utf8.lossy output.stdout) = version := by
  cases answer with
  | error failure => simp [reported?]
  | ok output => simp [reported?, Output.isSuccess, Output.stdoutText]

theorem buildOutcome_eq_error_iff {program : String} {answer : Answer} {failure : Failure} :
    buildOutcome program answer = .error failure ↔ answer = .error failure ∨
      ∃ output, answer = .ok output ∧ output.exitCode ≠ some 0 ∧
        failure = .toolFailed program output.exitCode (Utf8.lossy output.stderr) := by
  cases answer with
  | error why => simp [buildOutcome]
  | ok output =>
      by_cases hcode : output.exitCode = some 0
      · simp [buildOutcome, Output.isSuccess, hcode]
      · simp [buildOutcome, Output.isSuccess, Output.stderrText, hcode, eq_comm]

namespace Course

variable {c : Config} {expected : String} {previous state : Option ProbeState}
  {runs : List Exchange} {answer : Except Failure Unit}

theorem schedule (h : Course c expected previous runs answer state) :
    Schedule c (runs.map fun run => (run.role, run.call)) := by
  cases h with
  | known => exact .nothing
  | found => exact .probe
  | refused => exact .probe
  | unbuilt _ _ program arguments _ _ _ hcommand => exact .build program arguments hcommand
  | rebuilt _ _ _ program arguments _ _ hcommand => exact .rebuild program arguments hcommand
  | misbuilt _ _ _ program arguments _ _ hcommand => exact .rebuild program arguments hcommand

theorem ok_of_confirms (h : Course c expected previous runs answer state) {first : Exchange}
    {rest : List Exchange} (hruns : runs = first :: rest)
    (hfirst : Confirms first (key c expected)) : answer = .ok () := by
  have hreports : reported? first.answer = some expected := reported?_eq_some_iff.mpr hfirst.2.2.2
  cases h with
  | known => rfl
  | found => rfl
  | rebuilt => rfl
  | refused _ _ hother | unbuilt _ _ _ _ _ _ hother | misbuilt _ _ _ _ _ _ hother =>
      cases hruns
      exact absurd hreports hother

theorem explained {failure : Failure} (h : Course c expected previous runs (.error failure) state) :
    ∃ cause, failure = .buildRequired c.buildInstructions cause ∧ (cause.isSome ↔ Built runs) ∧
      ∀ why, cause = some why → Explains c expected runs why := by
  cases h with
  | refused first => exact ⟨none, rfl, by simp [Built, probeRun], by simp⟩
  | unbuilt first built program arguments why _ _ hcommand hbuilt =>
      refine ⟨some why, rfl, by simp [Built, buildRun], ?_⟩
      rintro _ ⟨⟩
      rcases buildOutcome_eq_error_iff.mp hbuilt with hanswer | ⟨output, hanswer, hcode, rfl⟩
      · exact .unrun _ _ why hanswer
      · exact .failed _ _ program arguments output hcommand hanswer hcode
  | misbuilt first built again program arguments _ _ _ _ hagain =>
      refine ⟨_, rfl, by simp [Built, buildRun], ?_⟩
      rintro _ ⟨⟩
      exact .outdated _ _ (probeRun c again) hagain

-- A slot that was set is never cleared, so what the check hands over is what the slot holds after it.
theorem or_previous (h : Course c expected previous runs answer state) : state.or previous = state := by
  cases h with
  | known | refused => simp
  | found | unbuilt | rebuilt | misbuilt => rfl

theorem buildFailed_iff (h : Course c expected previous runs answer state) :
    state = some .buildFailed ∧ previous ≠ some .buildFailed ↔ Built runs ∧ answer ≠ .ok () := by
  cases h with
  | known | refused => simp [Built, probeRun]
  | found | rebuilt => simp
  | unbuilt _ _ _ _ _ hnone | misbuilt _ _ _ _ _ hnone => simp [Built, buildRun, hnone]

theorem state_eq_previous (h : Course c expected previous runs answer state) (hanswer : answer ≠ .ok ())
    (hbuilt : ¬ Built runs) : state = previous := by
  cases h with
  | known | refused => rfl
  | found | rebuilt => exact absurd rfl hanswer
  | unbuilt | misbuilt => exact absurd ⟨_, List.mem_cons_of_mem _ List.mem_cons_self, rfl⟩ hbuilt

theorem outcome {κ : Cache} (h : Course c expected (κ.state? (key c expected)) runs answer state) :
    Outcome c expected κ runs answer (κ.store (key c expected) state) := by
  have hslot : (κ.store (key c expected) state).state? (key c expected) = state := by
    rw [Cache.state?_store, if_pos rfl, h.or_previous]
  refine ⟨h.schedule, fun _ _ => h.ok_of_confirms, ?_, ?_, ?_, ?_, ?_⟩
  · rintro failure rfl
    exact h.explained
  · rw [hslot]
    exact h.available_iff
  · rw [hslot]
    exact h.buildFailed_iff
  · rw [hslot]
    exact h.state_eq_previous
  · intro k hk
    rw [Cache.state?_store, if_neg hk]

end Course

def outdatedConfig : Config :=
  ⟨"Tool", "bin/tool", "--version", some "2.0", ["make", "all"], none, some 5, 600, true,
    ⟨"sample", ⟨[(1, "ROOT")]⟩, ⟨[]⟩, 1, "", ";", []⟩⟩

-- The slot of another parser.
def otherCache : Cache :=
  ⟨[(⟨Path.route "bin/other", "-v", "1"⟩, .available)]⟩

end ExternalParser.Availability
