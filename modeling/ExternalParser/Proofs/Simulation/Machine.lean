import ExternalParser.CommandLine.Run
import ExternalParser.Proofs.Dialogue.Plays
import ExternalParser.Proofs.Simulation.Shell
import ExternalParser.Simulation.Machine

namespace ExternalParser.Supervision

-- A run of the supervisor from a stage to its end, however many moves it takes.
inductive Ends {σ : Type} (system : System σ) (i : Invocation) : Stage → σ → Answer → σ → Prop
  | stop {stage : Stage} {s : σ} {answer : Answer} : move i stage = .stop answer →
      Ends system i stage s answer s
  | ask {stage : Stage} {s s' : σ} {answer : Answer} {request : Request}
      {resume : request.Reply → Stage} : move i stage = .ask request resume →
      Ends system i (resume (system s request).1) (system s request).2 answer s' →
      Ends system i stage s answer s'

-- One request with a reply that is known, and what follows it.
theorem Ends.ask_of_reply {σ : Type} {system : System σ} {i : Invocation} {stage : Stage}
    {s s' s'' : σ} {answer : Answer} {request : Request} {resume : request.Reply → Stage}
    {reply : request.Reply} (hmove : move i stage = .ask request resume)
    (hreply : system s request = (reply, s')) (h : Ends system i (resume reply) s' answer s'') :
    Ends system i stage s answer s'' := by
  refine .ask hmove ?_
  rw [hreply]
  exact h

-- Moves that suffice for some answer suffice for the answer at the end.
theorem Ends.run_eq {σ : Type} {system : System σ} {i : Invocation} {fuel : Nat} {stage : Stage}
    {s s' : σ} {answer : Answer} (h : Ends system i stage s answer s')
    (hsome : (run system i fuel stage s).1.isSome) :
    run system i fuel stage s = (some answer, s') := by
  induction h generalizing fuel with
  | stop hmove =>
      cases fuel with
      | zero => cases hsome
      | succ fuel => rw [run, hmove]
  | ask hmove _ ih =>
      cases fuel with
      | zero => cases hsome
      | succ fuel =>
          rw [run, hmove] at hsome ⊢
          exact ih hsome

end ExternalParser.Supervision

namespace ExternalParser.Simulation

open Supervision (Ends)

-- The time of a look at a child, counted from zero.
def lookTime (k : Nat) : Duration :=
  ⟨k * pollInterval.nanos⟩

-- Why a child that runs is given up at some time. The token comes before the limit.
def stopAt? (i : Invocation) (t : Duration) : Option Failure :=
  if i.cancel.any (·.isCancelledAt t) then some (.cancelled i.program)
  else match i.timeout with
    | some limit => if limit.nanos ≤ t.nanos then some (.timedOut i.program limit) else none
    | none => none

-- What comes of a child that is looked at from some look on: its output, if no look before its end gives
-- it up, and else the reason of the first one that does.
inductive Verdict (i : Invocation) (b : Behaviour) (start : Nat) : Answer → Prop
  | complete : (∀ k, start ≤ k → (lookTime k).nanos < b.duration.nanos → stopAt? i (lookTime k) = none) →
      Verdict i b start (.ok b.output)
  | stopped (k : Nat) (f : Failure) : start ≤ k → (lookTime k).nanos < b.duration.nanos →
      stopAt? i (lookTime k) = some f → (∀ j, start ≤ j → j < k → stopAt? i (lookTime j) = none) →
      Verdict i b start (.error f)

section Watch

variable {i : Invocation} {w : Watch}

-- What a child leaves behind is read to its end.
theorem ends_joining : Ends (Watch.reply i) i (.joiningWriter w.child.output.exitCode) w
    (.ok w.child.output) w :=
  .ask rfl (.ask rfl (.ask rfl (.stop rfl)))

theorem ends_killing (f : Failure) : Ends (Watch.reply i) i (.killing f) w (.error f) w :=
  .ask rfl (.ask rfl (.stop rfl))

-- Where a supervisor goes after it looked at a child that runs, once it asked all that it asks.
def afterLook (i : Invocation) (w : Watch) : Supervision.Stage :=
  match stopAt? i w.clock with
  | some f => .killing f
  | none => .pausing

theorem ends_askingClock {answer : Answer} {w' : Watch}
    (htoken : i.cancel.any (·.isCancelledAt w.clock) = false)
    (h : Ends (Watch.reply i) i (afterLook i w) w answer w') :
    Ends (Watch.reply i) i .askingClock w answer w' := by
  refine .ask rfl ?_
  simp only [afterLook, stopAt?, htoken, Bool.false_eq_true, if_false] at h
  cases htimeout : i.timeout with
  | none =>
      rw [htimeout] at h
      exact h
  | some limit =>
      rw [htimeout] at h
      change Ends (Watch.reply i) i (if limit.nanos ≤ w.clock.nanos then
        .killing (.timedOut i.program limit) else .pausing) w answer w'
      dsimp only at h
      by_cases hover : limit.nanos ≤ w.clock.nanos
      · rw [if_pos hover] at h ⊢
        exact h
      · rw [if_neg hover] at h ⊢
        exact h

theorem ends_askingToken {answer : Answer} {w' : Watch}
    (h : Ends (Watch.reply i) i (afterLook i w) w answer w') :
    Ends (Watch.reply i) i .askingToken w answer w' := by
  refine .ask rfl ?_
  change Ends (Watch.reply i) i (if i.cancel.any (·.isCancelledAt w.clock) then
    .killing (.cancelled i.program) else if i.timeout.isSome then .askingClock else .pausing) w answer w'
  cases htoken : i.cancel.any (·.isCancelledAt w.clock) with
  | true =>
      rw [if_pos rfl]
      simp only [afterLook, stopAt?, htoken, if_true] at h
      exact h
  | false =>
      rw [if_neg Bool.false_ne_true]
      split
      · exact ends_askingClock htoken h
      · rename_i htimeout
        have hnone : i.timeout = none := by simpa using htimeout
        simp only [afterLook, stopAt?, htoken, hnone, Bool.false_eq_true, if_false] at h
        exact h

-- With a token or a limit, a look at a child that runs leads to all questions that there are.
theorem ends_polling_of_running {answer : Answer} {w' : Watch}
    (hruns : w.clock.nanos < w.child.duration.nanos)
    (h : Ends (Watch.reply i) i (afterLook i w) w answer w') :
    Ends (Watch.reply i) i .polling w answer w' := by
  have hreply : w.reply i .poll = (.ok none, w) := by
    simp [Watch.reply, Nat.not_le_of_lt hruns]
  refine .ask_of_reply rfl hreply ?_
  change Ends (Watch.reply i) i (if i.cancel.isSome then .askingToken else .askingClock) w answer w'
  cases hcancel : i.cancel with
  | none => exact ends_askingClock (by rw [hcancel]; rfl) h
  | some token => exact ends_askingToken h

theorem ends_polling_of_over (hover : w.child.duration.nanos ≤ w.clock.nanos) :
    Ends (Watch.reply i) i .polling w (.ok w.child.output) w := by
  have hreply : w.reply i .poll = (.ok (some w.child.output.exitCode), w) := by
    simp [Watch.reply, hover]
  exact .ask_of_reply rfl hreply ends_joining

end Watch

section Looks

theorem lookTime_succ (k : Nat) :
    lookTime (k + 1) = ⟨(lookTime k).nanos + pollInterval.nanos⟩ := by
  rw [lookTime, Nat.succ_mul]
  rfl

theorem lookTime_mono {j k : Nat} (h : j ≤ k) : (lookTime j).nanos ≤ (lookTime k).nanos :=
  Nat.mul_le_mul_right _ h

theorem le_lookTime (k : Nat) : k ≤ (lookTime k).nanos :=
  Nat.le_mul_of_pos_right k (by decide)

variable {i : Invocation} {b : Behaviour} {k : Nat}

theorem Verdict.of_over (h : b.duration.nanos ≤ (lookTime k).nanos) : Verdict i b k (.ok b.output) := by
  refine .complete ?_
  intro j hj hruns
  have hle := lookTime_mono hj
  omega

-- A look that gives up nothing leaves it to the next one.
theorem Verdict.of_later {answer : Answer} (h : Verdict i b (k + 1) answer)
    (hgoes : stopAt? i (lookTime k) = none) : Verdict i b k answer := by
  have hbefore : ∀ j, k ≤ j → (k + 1 ≤ j → stopAt? i (lookTime j) = none) →
      stopAt? i (lookTime j) = none := by
    intro j hj hlater
    rcases Nat.eq_or_lt_of_le hj with rfl | hlt
    · exact hgoes
    · exact hlater hlt
  cases h with
  | complete hlater =>
      exact .complete fun j hj hruns => hbefore j hj fun hlt => hlater j hlt hruns
  | stopped l f hl hruns hstop hlater =>
      exact .stopped l f (by omega) hruns hstop fun j hj hlt => hbefore j hj fun hle => hlater j hle hlt

theorem Verdict.unique {answer other : Answer} (h : Verdict i b k answer) (h' : Verdict i b k other) :
    answer = other := by
  cases h with
  | complete hgoes =>
      cases h' with
      | complete _ => rfl
      | stopped l f hl hruns hstop _ => cases (hgoes l hl hruns).symm.trans hstop
  | stopped l f hl hruns hstop hbefore =>
      cases h' with
      | complete hgoes => cases (hgoes l hl hruns).symm.trans hstop
      | stopped l' f' hl' hruns' hstop' hbefore' =>
          rcases Nat.lt_trichotomy l l' with hlt | rfl | hlt
          · cases (hbefore' l hl hlt).symm.trans hstop
          · cases hstop.symm.trans hstop'
            rfl
          · cases (hbefore l' hl' hlt).symm.trans hstop'

-- One look after the other, up to the one that finds the child over. The induction is on their number.
theorem exists_ends_polling (i : Invocation) (m : Machine) (b : Behaviour) (k left : Nat)
    (hleft : b.duration.nanos ≤ (lookTime (k + left)).nanos) :
    ∃ answer w', Ends (Watch.reply i) i .polling ⟨m, lookTime k, b⟩ answer w' ∧ w'.machine = m ∧
      Verdict i b k answer := by
  induction left generalizing k with
  | zero => exact ⟨_, _, ends_polling_of_over hleft, rfl, .of_over hleft⟩
  | succ left ih =>
      by_cases hover : b.duration.nanos ≤ (lookTime k).nanos
      · exact ⟨_, _, ends_polling_of_over hover, rfl, .of_over hover⟩
      · have hruns : (lookTime k).nanos < b.duration.nanos := Nat.lt_of_not_le hover
        cases hstop : stopAt? i (lookTime k) with
        | some f =>
            have hnext : afterLook i ⟨m, lookTime k, b⟩ = .killing f := by rw [afterLook, hstop]
            refine ⟨_, _, ends_polling_of_running hruns (hnext ▸ ends_killing f), rfl,
              .stopped k f (Nat.le_refl k) hruns hstop ?_⟩
            intro j hj hlt
            omega
        | none =>
            have hnext : afterLook i ⟨m, lookTime k, b⟩ = .pausing := by rw [afterLook, hstop]
            obtain ⟨answer, w', hends, hmachine, hverdict⟩ := ih (k + 1) (by rwa [Nat.add_right_comm])
            rw [lookTime_succ] at hends
            exact ⟨answer, w', ends_polling_of_running hruns (hnext ▸ .ask rfl hends), hmachine,
              hverdict.of_later hstop⟩

end Looks

-- Without a token and a limit no look gives a child up.
theorem stopAt?_eq_none {i : Invocation} (htimeout : i.timeout = none) (hcancel : i.cancel = none)
    (t : Duration) : stopAt? i t = none := by
  simp [stopAt?, htimeout, hcancel]

theorem exists_ends_piping (i : Invocation) (m : Machine) (b : Behaviour) :
    ∃ answer w', Ends (Watch.reply i) i .piping ⟨m, ⟨0⟩, b⟩ answer w' ∧ w'.machine = m ∧
      Verdict i b 0 answer := by
  have hwatched : ∃ answer w', Ends (Watch.reply i) i (Supervision.watching i) ⟨m, ⟨0⟩, b⟩ answer w' ∧
      w'.machine = m ∧ Verdict i b 0 answer := by
    unfold Supervision.watching
    split
    · rename_i hlimits
      rw [Bool.and_eq_true, Option.isNone_iff_eq_none, Option.isNone_iff_eq_none] at hlimits
      have hends := ends_joining (i := i) (w := ⟨m, ⟨max 0 b.duration.nanos⟩, b⟩)
      exact ⟨.ok b.output, _, .ask rfl hends, rfl,
        .complete fun _ _ _ => stopAt?_eq_none hlimits.1 hlimits.2 _⟩
    · have hzero : (⟨0⟩ : Duration) = lookTime 0 := by rw [lookTime, Nat.zero_mul]
      rw [hzero]
      refine exists_ends_polling i m b 0 b.duration.nanos ?_
      rw [Nat.zero_add]
      exact le_lookTime _
  obtain ⟨answer, w', hends, hrest⟩ := hwatched
  exact ⟨answer, w', .ask rfl hends, hrest⟩

namespace Machine

variable {m after : Machine} {i : Invocation} {child : Behaviour}

theorem run_eq_of_ends {answer : Answer} {w : Watch}
    (h : Ends (Watch.reply i) i (Supervision.first i) ⟨m, ⟨0⟩, .ofOutput quiet⟩ answer w) :
    m.run i = (answer, w.machine) := by
  have hsome : (Supervision.run (Watch.reply i) i
      (Watch.movesLeft i (Supervision.first i) ⟨m, ⟨0⟩, .ofOutput quiet⟩ + 1) (Supervision.first i)
      ⟨m, ⟨0⟩, .ofOutput quiet⟩).1.isSome :=
    Supervision.run_isSome (Watch.movesLeft i) (fun _ _ _ _ => Watch.movesLeft_lt) (Nat.lt_succ_self _)
  have hrun := h.run_eq hsome
  simp only [run, hrun, Option.get_some]

theorem exists_ends_spawning (hlaunch : m.launch i = .ok (child, after)) :
    ∃ answer w, Ends (Watch.reply i) i .spawning ⟨m, ⟨0⟩, .ofOutput quiet⟩ answer w ∧
      w.machine = after ∧ Verdict i child 0 answer := by
  have hreply : (⟨m, ⟨0⟩, .ofOutput quiet⟩ : Watch).reply i .spawn = (.ok (), ⟨after, ⟨0⟩, child⟩) := by
    simp only [Watch.reply, hlaunch]
  obtain ⟨answer, w, hends, hrest⟩ := exists_ends_piping i after child
  exact ⟨answer, w, .ask_of_reply rfl hreply hends, hrest⟩

theorem ends_spawning_of_error {e : FileError} (hlaunch : m.launch i = .error e) :
    Ends (Watch.reply i) i .spawning ⟨m, ⟨0⟩, .ofOutput quiet⟩
      (.error (Supervision.spawnFailure i.program e)) ⟨m, ⟨0⟩, .ofOutput quiet⟩ := by
  have hreply : (⟨m, ⟨0⟩, .ofOutput quiet⟩ : Watch).reply i .spawn =
      (.error e, ⟨m, ⟨0⟩, .ofOutput quiet⟩) := by
    simp only [Watch.reply, hlaunch]
  exact .ask_of_reply rfl hreply (.stop rfl)

-- A token that is not cancelled is asked first, and then has no say.
theorem ends_first {answer : Answer} {w : Watch} (hcancelled : i.isCancelled = false)
    (h : Ends (Watch.reply i) i .spawning ⟨m, ⟨0⟩, .ofOutput quiet⟩ answer w) :
    Ends (Watch.reply i) i (Supervision.first i) ⟨m, ⟨0⟩, .ofOutput quiet⟩ answer w := by
  unfold Supervision.first
  split
  · refine .ask rfl ?_
    change Ends (Watch.reply i) i (if i.isCancelled then .finished (.error (.cancelled i.program))
      else .spawning) ⟨m, ⟨0⟩, .ofOutput quiet⟩ answer w
    rwa [hcancelled, if_neg Bool.false_ne_true]
  · exact h

theorem ends_first_of_cancelled (hcancelled : i.isCancelled = true) :
    Ends (Watch.reply i) i (Supervision.first i) ⟨m, ⟨0⟩, .ofOutput quiet⟩
      (.error (.cancelled i.program)) ⟨m, ⟨0⟩, .ofOutput quiet⟩ := by
  have hsome : i.cancel.isSome := by
    cases hcancel : i.cancel with
    | none => simp [Invocation.isCancelled, hcancel] at hcancelled
    | some token => rfl
  rw [Supervision.first, if_pos hsome]
  refine .ask rfl ?_
  change Ends (Watch.reply i) i (if i.isCancelled then .finished (.error (.cancelled i.program))
    else .spawning) ⟨m, ⟨0⟩, .ofOutput quiet⟩ _ _
  rw [hcancelled, if_pos rfl]
  exact .stop rfl

-- What a run on a machine comes to. Nothing is started for a token that is cancelled already, a program
-- that cannot be started is reported, and of one that runs the looks decide.
theorem run_outcome (m : Machine) (i : Invocation) :
    (i.isCancelled = true → m.run i = (.error (.cancelled i.program), m)) ∧
      (∀ e, i.isCancelled = false → m.launch i = .error e →
        m.run i = (.error (Supervision.spawnFailure i.program e), m)) ∧
      ∀ child after, i.isCancelled = false → m.launch i = .ok (child, after) →
        ∃ answer, m.run i = (answer, after) ∧ Verdict i child 0 answer := by
  refine ⟨fun hcancelled => run_eq_of_ends (ends_first_of_cancelled hcancelled), ?_, ?_⟩
  · intro e hcancelled hlaunch
    exact run_eq_of_ends (ends_first hcancelled (ends_spawning_of_error hlaunch))
  · intro child after hcancelled hlaunch
    obtain ⟨answer, w, hends, rfl, hverdict⟩ := exists_ends_spawning hlaunch
    exact ⟨answer, run_eq_of_ends (ends_first hcancelled hends), hverdict⟩

theorem exists_perform_of_launch (h : m.launch i = .ok (child, after)) :
    ∃ content, m.perform i content = (child, after) := by
  simp only [launch] at h
  split at h
  · cases h
  · cases hfind : m.find i.program with
    | error e =>
        rw [hfind] at h
        cases h
    | ok content =>
        rw [hfind] at h
        exact ⟨content, Except.ok.inj h⟩

theorem perform_files (m : Machine) (i : Invocation) (content : Content) :
    (m.perform i content).2.files = m.files := by
  cases content with
  | system name =>
      rw [perform]
      split <;> rfl
  | data _ | parser | builder => rfl

theorem startTime_le_perform (m : Machine) (i : Invocation) (content : Content) :
    startTime.nanos ≤ (m.perform i content).1.duration.nanos := by
  cases content with
  | system name =>
      rw [perform]
      split
      · exact Shell.startTime_le_run i.stdin i.arguments
      · exact le_time_runSimple (Console.start i.stdin) name i.arguments
  | data _ | parser | builder => exact Nat.le_refl _

-- Programs leave the files of a machine alone; only a builder changes what there is to run.
theorem run_files (m : Machine) (i : Invocation) : (m.run i).2.files = m.files := by
  obtain ⟨hdeclined, hfails, hends⟩ := run_outcome m i
  cases hcancelled : i.isCancelled with
  | true => rw [hdeclined hcancelled]
  | false =>
      cases hlaunch : m.launch i with
      | error e => rw [hfails e hcancelled hlaunch]
      | ok launched =>
          obtain ⟨answer, hrun, -⟩ := hends launched.1 launched.2 hcancelled hlaunch
          obtain ⟨content, hperform⟩ := exists_perform_of_launch hlaunch
          rw [hrun, ← perform_files m i content, hperform]

-- Every program takes some time, so that none ends within a limit of no time.
theorem run_ne_ok_of_no_time (m : Machine) {i : Invocation} (hlimit : i.timeout = some ⟨0⟩)
    (output : Output) : (m.run i).1 ≠ .ok output := by
  intro hok
  obtain ⟨hdeclined, hfails, hends⟩ := run_outcome m i
  cases hcancelled : i.isCancelled with
  | true =>
      rw [hdeclined hcancelled] at hok
      cases hok
  | false =>
      cases hlaunch : m.launch i with
      | error e =>
          rw [hfails e hcancelled hlaunch] at hok
          cases hok
      | ok launched =>
          obtain ⟨answer, hrun, hverdict⟩ := hends launched.1 launched.2 hcancelled hlaunch
          obtain ⟨content, hperform⟩ := exists_perform_of_launch hlaunch
          have htime : startTime.nanos ≤ launched.1.duration.nanos := by
            have hle := startTime_le_perform m i content
            rwa [hperform] at hle
          rw [hrun] at hok
          obtain rfl : answer = .ok output := hok
          cases hverdict with
          | complete hgoes =>
              have hzero : (lookTime 0).nanos = 0 := Nat.zero_mul _
              have hpos : 0 < startTime.nanos := by decide
              have hfirst := hgoes 0 (Nat.le_refl 0) (by omega)
              simp only [stopAt?, hlimit, hzero, Nat.le_refl, if_true] at hfirst
              split at hfirst <;> cases hfirst

-- Whatever the command line is asked to do, it leaves the files of the machine that it runs on alone.
theorem commandLine_files (m : Machine) (setting : CommandLine.Setting) (arguments : List String) :
    ((CommandLine.run setting arguments).answeredBy run m).2.files = m.files :=
  Dialogue.answeredBy_keeps (fun m' => m'.files = m.files)
    (fun m' i h => (run_files m' i).trans h) _ rfl

end Machine

end ExternalParser.Simulation
