import ExternalParser.Proofs.Availability.Check

namespace ExternalParser

-- What a run comes to when so many builds have ended well.
abbrev Behaviour := Nat → Invocation → Answer

-- The builds so far.
structure Builds where
  tried : Nat
  succeeded : Nat
deriving DecidableEq

namespace Builds

def after (b : Builds) : Role → Answer → Builds
  | .build, .ok output => ⟨b.tried + 1, if output.isSuccess then b.succeeded + 1 else b.succeeded⟩
  | .build, .error _ => ⟨b.tried + 1, b.succeeded⟩
  | .parse, _ | .version, _ => b

@[simp]
theorem after_version (b : Builds) (answer : Answer) : b.after .version answer = b := rfl

variable {b : Builds} {role : Role} {answer : Answer}

theorem tried_le_after : b.tried ≤ (b.after role answer).tried := by
  cases role with
  | build => cases answer <;> exact Nat.le_succ _
  | parse | version => exact Nat.le_refl _

theorem after_eq_self (h : (b.after role answer).tried ≤ b.tried) : b.after role answer = b := by
  cases role with
  | build => cases answer <;> exact absurd h (Nat.not_succ_le_self _)
  | parse | version => rfl

end Builds

namespace Dialogue

variable {α β : Type}

-- The result of a dialogue with programs that behave so, and the builds after it.
def under (m : Behaviour) : Dialogue α → Builds → α × Builds
  | .done x, b => (x, b)
  | .ask role call next, b =>
      (next (m b.succeeded call)).under m (b.after role (m b.succeeded call))

@[simp]
theorem under_done (m : Behaviour) (x : α) (b : Builds) : (Dialogue.done x).under m b = (x, b) := rfl

@[simp]
theorem under_ask (m : Behaviour) (role : Role) (call : Invocation) (next : Answer → Dialogue α)
    (b : Builds) :
    (Dialogue.ask role call next).under m b =
      (next (m b.succeeded call)).under m (b.after role (m b.succeeded call)) := rfl

theorem under_bind (m : Behaviour) (d : Dialogue α) (f : α → Dialogue β) (b : Builds) :
    (d >>= f).under m b = (f (d.under m b).1).under m (d.under m b).2 := by
  induction d generalizing b with
  | done x => rfl
  | ask role call next ih => exact ih _ _

theorem tried_le_under (m : Behaviour) (d : Dialogue α) (b : Builds) :
    b.tried ≤ (d.under m b).2.tried := by
  induction d generalizing b with
  | done x => exact Nat.le_refl _
  | ask role call next ih => exact Nat.le_trans Builds.tried_le_after (ih _ _)

-- In a dialogue that ends with as many builds as it began with, no program changes their number.
theorem under_ask_eq_self {m : Behaviour} {role : Role} {call : Invocation}
    {next : Answer → Dialogue α} {b : Builds} {x : α}
    (h : (Dialogue.ask role call next).under m b = (x, b)) :
    b.after role (m b.succeeded call) = b ∧ (next (m b.succeeded call)).under m b = (x, b) := by
  rw [under_ask] at h
  have hle := tried_le_under m (next (m b.succeeded call)) (b.after role (m b.succeeded call))
  rw [h] at hle
  have hself := Builds.after_eq_self hle
  rw [hself] at h
  exact ⟨hself, h⟩

end Dialogue

namespace Failure

-- The failure of a build behind a failure.
def cause? : Failure → Option Failure
  | .buildRequired _ cause => cause
  | _ => none

def withoutCause : Failure → Failure
  | .buildRequired instructions _ => .buildRequired instructions none
  | failure => failure

end Failure

-- An answer without the failure of a build behind it.
def blanked {α : Type} (answer : Except Failure α) : Except Failure α :=
  answer.mapError Failure.withoutCause

def causeOf? {α : Type} : Except Failure α → Option Failure
  | .error failure => failure.cause?
  | .ok _ => none

namespace Availability

variable {m : Behaviour} {c : Config} {expected : String} {b : Builds}

-- The version that the parser reports now is the one that is wanted.
def Shows (m : Behaviour) (c : Config) (expected : String) (b : Builds) : Prop :=
  reported? (m b.succeeded (probeCall c)) = some expected

theorem check_under_available :
    (check c expected (some .available)).under m b = ((.ok (), some .available), b) := by
  rw [check_unrolled, if_pos rfl]
  rfl

theorem check_under_found {previous : Option ProbeState} (hav : previous ≠ some .available)
    (hshows : Shows m c expected b) :
    (check c expected previous).under m b = ((.ok (), some .available), b) := by
  rw [Shows] at hshows
  rw [check_unrolled, if_neg hav, Dialogue.under_ask, if_pos hshows]
  rfl

-- A parser that cannot be built, or could not be built before, is refused.
theorem check_under_refused {previous : Option ProbeState} (hav : previous ≠ some .available)
    (hshows : ¬ Shows m c expected b) (hwhy : c.buildCommand = [] ∨ previous = some .buildFailed) :
    (check c expected previous).under m b =
      ((.error (.buildRequired c.buildInstructions none), previous), b) := by
  rw [Shows] at hshows
  rw [check_unrolled, if_neg hav, Dialogue.under_ask, if_neg hshows]
  rcases hwhy with hcommand | hfailed
  · rw [hcommand]
    rfl
  · cases hcommand : c.buildCommand with
    | nil => rfl
    | cons program arguments =>
        simp only [if_pos hfailed]
        rfl

-- The build ends without success.
theorem check_under_unbuilt (hshows : ¬ Shows m c expected b) {program : String}
    {arguments : List String} {failure : Failure} (hcommand : c.buildCommand = program :: arguments)
    (houtcome : buildOutcome program (m b.succeeded (buildCall c program arguments)) =
      .error failure) :
    (check c expected none).under m b =
      ((.error (.buildRequired c.buildInstructions (some failure)), some .buildFailed),
        b.after .build (m b.succeeded (buildCall c program arguments))) := by
  rw [Shows] at hshows
  rw [check_unrolled, if_neg (by simp), Dialogue.under_ask, if_neg hshows, hcommand]
  simp only [reduceCtorEq, if_false, Builds.after_version, Dialogue.under_ask, houtcome]
  rfl

-- The build ends well, and the parser is asked once more.
theorem check_under_built (hshows : ¬ Shows m c expected b) {program : String}
    {arguments : List String} (hcommand : c.buildCommand = program :: arguments)
    (houtcome : buildOutcome program (m b.succeeded (buildCall c program arguments)) = .ok ()) :
    let later := b.after .build (m b.succeeded (buildCall c program arguments))
    let again := reported? (m later.succeeded (probeCall c))
    (check c expected none).under m b =
      if again = some expected then ((.ok (), some .available), later)
      else ((.error (.buildRequired c.buildInstructions
        (some (.wrongVersion c.binary expected again))), some .buildFailed), later) := by
  intro later again
  rw [Shows] at hshows
  rw [check_unrolled, if_neg (by simp), Dialogue.under_ask, if_neg hshows, hcommand]
  simp only [reduceCtorEq, if_false, Builds.after_version, Dialogue.under_ask, houtcome]
  split <;> rfl

-- A build that fails is no reason for the parser to report another version than before.
theorem succeeded_after_build {program : String} {built : Answer} {failure : Failure}
    (h : buildOutcome program built = .error failure) :
    (b.after .build built).succeeded = b.succeeded := by
  cases built with
  | error _ => rfl
  | ok output =>
      simp only [buildOutcome] at h
      split at h
      · cases h
      · rename_i hcode
        simp [Builds.after, hcode]

-- What one check leaves behind, the next one finds settled.
structure Repeats (m : Behaviour) (c : Config) (expected : String)
    (first : (Except Failure Unit × Option ProbeState) × Builds) (verdict : Except Failure Unit) :
    Prop where
  again : (check c expected first.1.2).under m first.2 = ((verdict, first.1.2), first.2)
  alike : blanked verdict = blanked first.1.1
  plain : causeOf? verdict = none

theorem repeats_available : Repeats m c expected ((.ok (), some .available), b) (.ok ()) :=
  ⟨check_under_available, rfl, rfl⟩

theorem repeats_refused {previous : Option ProbeState} {cause : Option Failure}
    (hav : previous ≠ some .available) (hshows : ¬ Shows m c expected b)
    (hwhy : c.buildCommand = [] ∨ previous = some .buildFailed) :
    Repeats m c expected ((.error (.buildRequired c.buildInstructions cause), previous), b)
      (.error (.buildRequired c.buildInstructions none)) :=
  ⟨check_under_refused hav hshows hwhy, rfl, rfl⟩

theorem check_repeats (m : Behaviour) (c : Config) (expected : String)
    (previous : Option ProbeState) (b : Builds) :
    ∃ verdict, Repeats m c expected ((check c expected previous).under m b) verdict := by
  by_cases hav : previous = some .available
  · rw [hav, check_under_available]
    exact ⟨_, repeats_available⟩
  by_cases hshows : Shows m c expected b
  · rw [check_under_found hav hshows]
    exact ⟨_, repeats_available⟩
  by_cases hwhy : c.buildCommand = [] ∨ previous = some .buildFailed
  · rw [check_under_refused hav hshows hwhy]
    exact ⟨_, repeats_refused hav hshows hwhy⟩
  -- Nothing is remembered, and there is something to run.
  obtain ⟨hsome, hfailed⟩ := not_or.mp hwhy
  obtain ⟨program, arguments, hcommand⟩ := List.exists_cons_of_ne_nil hsome
  have hnone : previous = none := by
    rcases previous with _ | _ | _
    · rfl
    · exact absurd rfl hav
    · exact absurd rfl hfailed
  subst hnone
  cases houtcome : buildOutcome program (m b.succeeded (buildCall c program arguments)) with
  | error failure =>
      rw [check_under_unbuilt hshows hcommand houtcome]
      refine ⟨_, repeats_refused (by simp) ?_ (.inr rfl)⟩
      rw [Shows, succeeded_after_build houtcome]
      exact hshows
  | ok _ =>
      rw [check_under_built hshows hcommand houtcome]
      split
      · exact ⟨_, repeats_available⟩
      · rename_i hagain
        exact ⟨_, repeats_refused (by simp) hagain (.inr rfl)⟩

-- Nothing is forgotten by a check.
theorem check_under_state_ne_none {previous : Option ProbeState} (hprevious : previous ≠ none) :
    ((check c expected previous).under m b).1.2 ≠ none := by
  by_cases hav : previous = some .available
  · simp [hav, check_under_available]
  by_cases hshows : Shows m c expected b
  · simp [check_under_found hav hshows]
  have hfailed : previous = some .buildFailed := by
    rcases previous with _ | _ | _
    · exact absurd rfl hprevious
    · exact absurd rfl hav
    · rfl
  rw [check_under_refused hav hshows (.inr hfailed)]
  exact hprevious

variable {κ : Cache}

theorem ensure_under_unwanted (hwanted : c.wantedVersion? = none) :
    ((ensure c).run κ).under m b = ((.ok (), κ), b) := by
  rw [ensure_run, hwanted]
  rfl

theorem ensure_under_wanted (hwanted : c.wantedVersion? = some expected) :
    ((ensure c).run κ).under m b =
      let checked := (check c expected (κ.state? (key c expected))).under m b
      ((checked.1.1, κ.store (key c expected) checked.1.2), checked.2) := by
  rw [ensure_run, hwanted]
  exact Dialogue.under_bind ..

-- Making sure of the parser has this answer and changes nothing.
def Settled (m : Behaviour) (c : Config) (κ : Cache) (b : Builds) (verdict : Except Failure Unit) :
    Prop :=
  ∃ after, ((ensure c).run κ).under m b = ((verdict, after), b) ∧
    ∀ k, after.state? k = κ.state? k

-- What is remembered counts, and not how.
theorem Settled.congr {κ' : Cache} {verdict : Except Failure Unit} (h : Settled m c κ b verdict)
    (hκ : ∀ k, κ'.state? k = κ.state? k) : Settled m c κ' b verdict := by
  obtain ⟨after, hunder, hstates⟩ := h
  cases hwanted : c.wantedVersion? with
  | none =>
      rw [ensure_under_unwanted hwanted] at hunder
      cases hunder
      exact ⟨κ', ensure_under_unwanted hwanted, fun _ => rfl⟩
  | some expected =>
      have hsame := @ensure_under_wanted m c expected b κ' hwanted
      rw [ensure_under_wanted hwanted] at hunder
      rw [hκ] at hsame
      generalize (check c expected (κ.state? (key c expected))).under m b = checked at hunder hsame
      cases hunder
      refine ⟨_, hsame, ?_⟩
      intro k
      have hk := hstates k
      rw [Cache.state?_store] at hk ⊢
      rw [hκ, hκ]
      exact hk

theorem ensure_settles (m : Behaviour) (c : Config) (κ : Cache) (b : Builds) :
    ∃ verdict, Settled m c (((ensure c).run κ).under m b).1.2 (((ensure c).run κ).under m b).2
        verdict ∧
      blanked verdict = blanked (((ensure c).run κ).under m b).1.1 ∧ causeOf? verdict = none := by
  cases hwanted : c.wantedVersion? with
  | none =>
      rw [ensure_under_unwanted hwanted]
      exact ⟨.ok (), ⟨κ, ensure_under_unwanted hwanted, fun _ => rfl⟩, rfl, rfl⟩
  | some expected =>
      obtain ⟨verdict, hagain, halike, hplain⟩ :=
        check_repeats m c expected (κ.state? (key c expected)) b
      have hforgets := @check_under_state_ne_none m c expected b (κ.state? (key c expected))
      rw [ensure_under_wanted hwanted]
      generalize (check c expected (κ.state? (key c expected))).under m b = checked
        at hagain halike hforgets ⊢
      obtain ⟨⟨answer, state⟩, later⟩ := checked
      -- The next check begins where this one ended.
      have hslot : (κ.store (key c expected) state).state? (key c expected) = state := by
        rw [Cache.state?_store, if_pos rfl]
        cases state with
        | some state => rfl
        | none =>
            rw [Option.none_or]
            exact Decidable.byContradiction fun hsome => hforgets hsome rfl
      have hnext := @ensure_under_wanted m c expected later (κ.store (key c expected) state) hwanted
      rw [hslot, hagain] at hnext
      refine ⟨verdict, ⟨_, hnext, ?_⟩, halike, hplain⟩
      intro k
      rw [Cache.state?_store]
      by_cases hk : k = key c expected
      · rw [if_pos hk, hk, hslot, Option.or_self]
      · rw [if_neg hk]

end Availability

end ExternalParser
