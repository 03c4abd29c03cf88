import ExternalParser.Dialogue

namespace ExternalParser

-- One run of a program: what it was for, what was run, and what came of it.
structure Exchange where
  role : Role
  call : Invocation
  answer : Answer

namespace Dialogue

variable {α β σ : Type}

-- The dialogue comes to a result with these runs and their answers.
inductive Plays : Dialogue α → List Exchange → α → Prop
  | done (x : α) : Plays (.done x) [] x
  | ask (role : Role) (call : Invocation) (next : Answer → Dialogue α) (answer : Answer)
      (runs : List Exchange) (x : α) :
      Plays (next answer) runs x → Plays (.ask role call next) (⟨role, call, answer⟩ :: runs) x

@[simp]
theorem plays_done_iff {x y : α} {runs : List Exchange} :
    Plays (.done x) runs y ↔ runs = [] ∧ x = y := by
  constructor
  · rintro ⟨⟩
    exact ⟨rfl, rfl⟩
  · rintro ⟨rfl, rfl⟩
    exact .done x

@[simp]
theorem plays_ask_iff {role : Role} {call : Invocation} {next : Answer → Dialogue α}
    {runs : List Exchange} {x : α} :
    Plays (.ask role call next) runs x ↔
      ∃ answer rest, runs = ⟨role, call, answer⟩ :: rest ∧ Plays (next answer) rest x := by
  constructor
  · rintro ⟨⟩
    exact ⟨_, _, rfl, ‹_›⟩
  · rintro ⟨answer, rest, rfl, h⟩
    exact .ask role call next answer rest x h

@[simp]
theorem done_bind (x : α) (f : α → Dialogue β) : (Dialogue.done x >>= f) = f x := rfl

@[simp]
theorem ask_bind (role : Role) (call : Invocation) (next : Answer → Dialogue α)
    (f : α → Dialogue β) :
    (Dialogue.ask role call next >>= f) = .ask role call fun answer => next answer >>= f := rfl

@[simp]
theorem pure_eq_done (x : α) : (pure x : Dialogue α) = .done x := rfl

@[simp]
theorem run_bind (role : Role) (call : Invocation) (f : Answer → Dialogue β) :
    (Dialogue.run role call >>= f) = .ask role call f := rfl

instance : LawfulMonad Dialogue := by
  refine LawfulMonad.mk' Dialogue ?_ ?_ ?_
  · intro α d
    change Dialogue.bind d _ = d
    induction d with
    | done x => rfl
    | ask role call next ih =>
        simp only [Dialogue.bind, ih]
  · intro α β x f
    rfl
  · intro α β γ d f g
    change Dialogue.bind (Dialogue.bind d f) g = Dialogue.bind d fun x => Dialogue.bind (f x) g
    induction d with
    | done x => rfl
    | ask role call next ih =>
        simp only [Dialogue.bind, ih]

-- A play of two dialogues in a row is a play of the one followed by a play of the other.
theorem plays_bind_iff {d : Dialogue α} {f : α → Dialogue β} {runs : List Exchange} {y : β} :
    Plays (d >>= f) runs y ↔
      ∃ first x second, runs = first ++ second ∧ Plays d first x ∧ Plays (f x) second y := by
  induction d generalizing runs with
  | done x =>
      constructor
      · intro h
        exact ⟨[], x, runs, rfl, .done x, h⟩
      · rintro ⟨_, _, second, rfl, ⟨⟩, h⟩
        exact h
  | ask role call next ih =>
      simp only [ask_bind, plays_ask_iff, ih]
      constructor
      · rintro ⟨answer, _, rfl, first, x, second, rfl, hfirst, hsecond⟩
        exact ⟨_, x, second, rfl, ⟨answer, first, rfl, hfirst⟩, hsecond⟩
      · rintro ⟨_, x, second, rfl, ⟨answer, first, rfl, hfirst⟩, hsecond⟩
        exact ⟨answer, _, rfl, first, x, second, rfl, hfirst, hsecond⟩

-- A runner goes into the second of two dialogues with the state that the first one leaves.
theorem answeredBy_bind (runner : σ → Invocation → Answer × σ) (d : Dialogue α) (f : α → Dialogue β)
    (s : σ) :
    (d >>= f).answeredBy runner s =
      (f (d.answeredBy runner s).1).answeredBy runner (d.answeredBy runner s).2 := by
  induction d generalizing s with
  | done x => rfl
  | ask role call next ih => exact ih (runner s call).1 (runner s call).2

-- What every run keeps of the state of a runner, a dialogue keeps.
theorem answeredBy_keeps {runner : σ → Invocation → Answer × σ} (P : σ → Prop)
    (hrun : ∀ s call, P s → P (runner s call).2) (d : Dialogue α) {s : σ} (h : P s) :
    P (d.answeredBy runner s).2 := by
  induction d generalizing s with
  | done x => exact h
  | ask role call next ih => exact ih (runner s call).1 (hrun s call h)

-- Plays leave out nothing that a runner can do.
theorem answeredBy_plays (runner : σ → Invocation → Answer × σ) (d : Dialogue α) (s : σ) :
    ∃ runs, Plays d runs (d.answeredBy runner s).1 := by
  induction d generalizing s with
  | done x => exact ⟨[], .done x⟩
  | ask role call next ih =>
      obtain ⟨runs, h⟩ := ih (runner s call).1 (runner s call).2
      exact ⟨_, .ask role call next _ runs _ h⟩

-- Whatever the programs answer, one after the other, the dialogue comes to its end.
theorem exists_plays_answered (d : Dialogue α) (answers : Nat → Answer) :
    ∃ runs x, Plays d runs x ∧ ∀ (i : Nat) (run : Exchange), runs[i]? = some run →
      run.answer = answers i := by
  induction d generalizing answers with
  | done x => exact ⟨[], x, .done x, by simp⟩
  | ask role call next ih =>
      obtain ⟨runs, x, hplays, hanswers⟩ := ih (answers 0) fun i => answers (i + 1)
      refine ⟨_, x, .ask role call next (answers 0) runs x hplays, ?_⟩
      intro i run hrun
      cases i with
      | zero =>
          obtain rfl : _ = run := by simpa using hrun
          rfl
      | succ i => exact hanswers i run (by simpa using hrun)

end Dialogue

end ExternalParser
