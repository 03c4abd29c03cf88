import ExternalParser.Proofs.Client.Parse

namespace ExternalParser

namespace Exchange

-- The program was started; a run that is cancelled before it begins starts nothing.
def isStarted (run : Exchange) : Bool :=
  !run.call.isCancelled

-- A cancelled run is answered by saying so.
def Heeds (run : Exchange) : Prop :=
  run.call.isCancelled → run.answer = .error (.cancelled run.call.program)

end Exchange

namespace Availability

variable {c : Config} {κ κ' : Cache} {runs : List Exchange} {answer : Except Failure Unit}

theorem Course.cancel_eq_none {expected : String} {previous state : Option ProbeState}
    (h : Course c expected previous runs answer state) : ∀ run ∈ runs, run.call.cancel = none := by
  cases h <;> simp [probeRun, buildRun, probeCall, buildCall, Invocation.plain]

theorem Course.error_eq {expected : String} {previous state : Option ProbeState} {failure : Failure}
    (h : Course c expected previous runs (.error failure) state) :
    ∃ cause, failure = .buildRequired c.buildInstructions cause := by
  cases h with
  | refused => exact ⟨_, rfl⟩
  | unbuilt => exact ⟨_, rfl⟩
  | misbuilt => exact ⟨_, rfl⟩

theorem Course.runs_eq_nil_iff {expected : String} {previous state : Option ProbeState}
    (h : Course c expected previous runs answer state) :
    runs = [] ↔ previous = some .available := by
  cases h with
  | known hav => simp [hav]
  | found _ hne => simp [hne]
  | refused _ hne => simp [hne]
  | unbuilt _ _ _ _ _ hnone => simp [hnone]
  | rebuilt _ _ _ _ _ hnone => simp [hnone]
  | misbuilt _ _ _ _ _ hnone => simp [hnone]

-- No run of a check can be cancelled.
theorem ensure_isStarted (h : Dialogue.Plays ((ensure c).run κ) runs (answer, κ')) :
    ∀ run ∈ runs, run.isStarted := by
  have hnone : ∀ run ∈ runs, run.call.cancel = none := by
    cases hwanted : c.wantedVersion? with
    | none =>
        obtain ⟨rfl, -⟩ := ensure_unwanted hwanted h
        simp
    | some expected =>
        obtain ⟨state, hcourse, -⟩ := (plays_ensure_iff hwanted).mp h
        exact hcourse.cancel_eq_none
  intro run hrun
  simp [Exchange.isStarted, Invocation.isCancelled, hnone run hrun]

theorem ensure_error_eq {failure : Failure}
    (h : Dialogue.Plays ((ensure c).run κ) runs (.error failure, κ')) :
    ∃ cause, failure = .buildRequired c.buildInstructions cause := by
  cases hwanted : c.wantedVersion? with
  | none =>
      obtain ⟨-, hanswer, -⟩ := ensure_unwanted hwanted h
      cases hanswer
  | some expected =>
      obtain ⟨state, hcourse, -⟩ := (plays_ensure_iff hwanted).mp h
      exact hcourse.error_eq

-- The version is not to be checked, or the parser is known to be there.
def Unasked (c : Config) (κ : Cache) : Prop :=
  ∀ expected, c.wantedVersion? = some expected → κ.state? (key c expected) = some .available

theorem ensure_runs_eq_nil_iff (h : Dialogue.Plays ((ensure c).run κ) runs (answer, κ')) :
    runs = [] ↔ Unasked c κ := by
  cases hwanted : c.wantedVersion? with
  | none =>
      obtain ⟨rfl, -⟩ := ensure_unwanted hwanted h
      simp [Unasked, hwanted]
  | some expected =>
      obtain ⟨state, hcourse, -⟩ := (plays_ensure_iff hwanted).mp h
      rw [hcourse.runs_eq_nil_iff]
      simp [Unasked, hwanted]

theorem ensure_ok_of_unasked (hunasked : Unasked c κ)
    (h : Dialogue.Plays ((ensure c).run κ) runs (answer, κ')) : answer = .ok () := by
  cases hwanted : c.wantedVersion? with
  | none => exact (ensure_unwanted hwanted h).2.1
  | some expected => exact (ensure_of_available hwanted h (hunasked expected hwanted)).1

end Availability

namespace Client

open Availability

-- What a parse with a cancelled token comes to after its check.
def cancelledResult (c : Config) : Except Failure Unit → Except Failure Tree
  | .ok () => .error (.cancelled c.binary)
  | .error failure => .error failure

theorem remainder_of_cancelled {c : Config} {source : String} {token : CancelToken}
    (htoken : token.isCancelled) {answer : Except Failure Unit} {rest : List Exchange}
    {result : Except Failure Tree} (hheeds : ∀ run ∈ rest, run.Heeds)
    (h : Dialogue.Plays (remainder c source (some token) answer) rest result) :
    (∀ run ∈ rest, run.isStarted = false) ∧ result = cancelledResult c answer := by
  cases answer with
  | error failure =>
      obtain ⟨rfl, rfl⟩ := Dialogue.plays_done_iff.mp h
      exact ⟨by simp, rfl⟩
  | ok _ =>
      obtain ⟨answer, _, rfl, hdone⟩ := Dialogue.plays_ask_iff.mp h
      obtain ⟨rfl, rfl⟩ := Dialogue.plays_done_iff.mp hdone
      have hcancelled : (parseCall c source (some token)).isCancelled := by
        simpa [Invocation.isCancelled, parseCall] using htoken
      have hanswer : answer = .error (.cancelled c.binary) :=
        hheeds _ List.mem_cons_self hcancelled
      refine ⟨?_, ?_⟩
      · simp [Exchange.isStarted, hcancelled]
      · rw [hanswer]
        rfl

theorem cancelledResult_eq_cancelled_iff {c : Config} {κ κ' : Cache} {runs : List Exchange}
    {answer : Except Failure Unit} (h : Dialogue.Plays ((ensure c).run κ) runs (answer, κ')) :
    cancelledResult c answer = .error (.cancelled c.binary) ↔ answer = .ok () := by
  cases answer with
  | ok _ => simp [cancelledResult]
  | error failure =>
      obtain ⟨cause, rfl⟩ := ensure_error_eq h
      simp [cancelledResult]

-- With a token that is cancelled before the call, and a runner that starts nothing then, the parser
-- does not get the source. What is started is what the check starts, and a check that fails is reported
-- in place of the cancellation. Nothing at all is started exactly when the check asks nothing.
theorem parseCancellable_of_cancelled (c : Config) (source : String) (token : CancelToken)
    (κ κ' : Cache) (runs : List Exchange) (result : Except Failure Tree)
    (htoken : token.isCancelled) (hheeds : ∀ run ∈ runs, run.Heeds)
    (h : Dialogue.Plays ((parseCancellable c source token).run κ) runs (result, κ')) :
    (∀ run ∈ runs, run.isStarted → run.role ≠ .parse) ∧
      (∃ answer, Dialogue.Plays ((ensure c).run κ) (runs.filter (·.isStarted)) (answer, κ') ∧
        result = cancelledResult c answer) ∧
      ((result = .error (.cancelled c.binary) ∧ ∀ run ∈ runs, run.isStarted = false) ↔
        Unasked c κ) := by
  obtain ⟨checked, answer, rest, rfl, hensure, hrest⟩ := plays_parseWith_iff.mp h
  have hstarted := ensure_isStarted hensure
  obtain ⟨hidle, rfl⟩ := remainder_of_cancelled htoken
    (fun run hrun => hheeds run (List.mem_append_right _ hrun)) hrest
  have hfilter : (checked ++ rest).filter (·.isStarted) = checked := by
    rw [List.filter_append, List.filter_eq_self.mpr hstarted, List.filter_eq_nil_iff.mpr ?_,
      List.append_nil]
    intro run hrun
    simp [hidle run hrun]
  refine ⟨?_, ⟨answer, hfilter.symm ▸ hensure, rfl⟩, ?_⟩
  · intro run hrun hrunStarted
    have hmem : run ∈ checked := by
      rw [← hfilter]
      exact List.mem_filter.mpr ⟨hrun, hrunStarted⟩
    exact ensure_role_ne_parse hensure run hmem
  · rw [cancelledResult_eq_cancelled_iff hensure, ← ensure_runs_eq_nil_iff hensure]
    constructor
    · rintro ⟨-, hnone⟩
      rw [← hfilter]
      refine List.filter_eq_nil_iff.mpr ?_
      intro run hrun
      simp [hnone run hrun]
    · intro hnil
      refine ⟨ensure_ok_of_unasked ((ensure_runs_eq_nil_iff hensure).mp hnil) hensure, ?_⟩
      rw [hnil]
      exact hidle

-- The version, and a line break.
def sampleAnswer : Answer := .ok ⟨some 0, [0x31, 0x2E, 0x30, 0x0A], []⟩

-- The first call for a parser that is there: it asks for the version, and then it is cancelled.
theorem parseCancellable_of_cancelled_sample :
    ∃ runs κ', (∀ run ∈ runs, run.Heeds) ∧ CancelToken.cancelled.isCancelled ∧
      Dialogue.Plays ((parseCancellable sampleConfig "x" .cancelled).run Cache.empty) runs
        (.error (.cancelled "bin/tool"), κ') ∧
      runs.map (·.role) = [.version, .parse] ∧ runs.map (·.isStarted) = [true, false] ∧
      ¬ Unasked sampleConfig Cache.empty := by
  have hreported : reported? sampleAnswer = some "1.0" := by decide
  have hensure : Dialogue.Plays ((ensure sampleConfig).run Cache.empty)
      [probeRun sampleConfig sampleAnswer] (.ok (), _) :=
    (plays_ensure_iff rfl).mpr ⟨_, .found sampleAnswer (by decide) hreported, rfl⟩
  have hplays : Dialogue.Plays ((parseCancellable sampleConfig "x" .cancelled).run Cache.empty) _
      (.error (.cancelled "bin/tool"), _) :=
    plays_parseWith_iff.mpr ⟨_, _, _, rfl, hensure, .ask _ _ _ (.error (.cancelled "bin/tool")) [] _
      (.done _)⟩
  have hheeds : ∀ run ∈ [probeRun sampleConfig sampleAnswer] ++
      [⟨.parse, parseCall sampleConfig "x" (some .cancelled), .error (.cancelled "bin/tool")⟩],
      run.Heeds := by
    intro run hrun
    simp only [List.singleton_append, List.mem_cons, List.not_mem_nil, or_false] at hrun
    rcases hrun with rfl | rfl
    · intro hcancelled
      cases hcancelled
    · exact fun _ => rfl
  refine ⟨_, _, hheeds, rfl, hplays, rfl, rfl, ?_⟩
  rw [← (parseCancellable_of_cancelled _ _ _ _ _ _ _ rfl hheeds hplays).2.2]
  rintro ⟨-, hnone⟩
  exact absurd (hnone _ List.mem_cons_self) (by decide)

-- A system on which no program is installed. It keeps the runs that it tried to start, the last one
-- first, and a cancelled run it does not try.
def bareSystem (tried : List Invocation) (call : Invocation) : Answer × List Invocation :=
  if call.isCancelled then (.error (.cancelled call.program), tried)
  else (.error (.notFound call.program), call :: tried)

-- A call that was cancelled beforehand asks for the version, runs the build, and reports that the
-- parser has to be built.
theorem cancelled_call_builds :
    ∃ κ', CancelToken.cancelled.isCancelled ∧
      ((parseCancellable sampleConfig "x" .cancelled).run Cache.empty).answeredBy bareSystem [] =
        ((.error (.buildRequired sampleConfig.buildInstructions (some (.notFound "make"))), κ'),
          [buildCall sampleConfig "make" [], probeCall sampleConfig]) :=
  ⟨_, rfl, rfl⟩

end Client

end ExternalParser
