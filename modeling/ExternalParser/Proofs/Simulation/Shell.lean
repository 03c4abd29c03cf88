import ExternalParser.Simulation.Shell
import Mathlib.Tactic.SplitIfs

namespace ExternalParser.Simulation

theorem time_copyFiles (c : Console) (files : List String) : (copyFiles c files).time = c.time := by
  fun_induction copyFiles c files with
  | case1 c => rfl
  | case2 c files ih => exact ih
  | case3 c files ih => exact ih
  | case4 c file files _ _ ih => exact ih

-- Of the simple programs only one takes its time, and it gives none back.
theorem le_time_runSimple (c : Console) (name : String) (arguments : List String) :
    c.time.nanos ≤ (runSimple c name arguments).time.nanos := by
  simp only [runSimple]
  generalize (if arguments = [] then ["-"] else arguments) = files
  split_ifs
  · rw [time_copyFiles]
    exact Nat.le_refl _
  · exact Nat.le_refl _
  · split
    · exact Nat.le_add_right _ _
    · exact Nat.le_refl _
  · exact Nat.le_refl _
  · split <;> exact Nat.le_refl _
  · split <;> exact Nat.le_refl _
  · exact Nat.le_refl _

namespace Shell

-- A step of the lexer gets on by a character at least.
theorem length_lexStep (s : Lexer) (c : Char) (cs : List Char) :
    (lexStep s (c :: cs)).2.length ≤ cs.length := by
  delta lexStep
  dsimp only
  split
  · split <;> exact Nat.le_refl _
  · split
    · exact Nat.le_refl _
    · split <;> simp
    · split <;> simp
    · exact Nat.le_refl _
  · split
    all_goals first | split | skip
    all_goals
      simp only [List.length_cons]
      omega

-- As many steps as there are characters see all of them, and further steps see nothing.
theorem lex_eq (s : Lexer) (cs : List Char) {fuel : Nat} (h : cs.length ≤ fuel) :
    lex fuel s cs = lex cs.length s cs := by
  induction fuel using Nat.strongRecOn generalizing s cs with
  | ind fuel ih =>
      cases cs with
      | nil => cases fuel <;> rfl
      | cons c cs =>
          obtain ⟨fuel, rfl⟩ : ∃ n, fuel = n + 1 := ⟨fuel - 1, by simp only [List.length_cons] at h; omega⟩
          have hstep := length_lexStep s c cs
          rw [List.length_cons, Nat.add_le_add_iff_right] at h
          have hfuel := ih fuel (by omega) (lexStep s (c :: cs)).1 (lexStep s (c :: cs)).2 (by omega)
          have hlength := ih cs.length (by omega) (lexStep s (c :: cs)).1 (lexStep s (c :: cs)).2 hstep
          rw [List.length_cons, lex, lex]
          · exact hfuel.trans hlength.symm
          · nofun
          · nofun

theorem time_kill (c : Console) (arguments : List String) : (kill c arguments).time = c.time := by
  unfold kill
  split
  · rfl
  · rfl
  · split <;> rfl

theorem time_leave (c : Console) (code : Option String) : (leave c code).time = c.time := by
  unfold leave
  split
  · rfl
  · split <;> rfl

theorem le_time_runWords (c : Console) (fuel : Nat) (words : List String) :
    c.time.nanos ≤ (runWords c fuel words).time.nanos := by
  induction fuel generalizing words with
  | zero => exact Nat.le_refl _
  | succ fuel ih =>
      cases words with
      | nil => exact Nat.le_refl _
      | cons name arguments =>
          simp only [runWords]
          split_ifs
          · exact Nat.le_of_eq (congrArg Duration.nanos (time_leave c _).symm)
          · exact Nat.le_refl _
          · exact Nat.le_of_eq (congrArg Duration.nanos (time_kill c _).symm)
          · exact Nat.le_refl _
          · exact ih arguments
          · exact ih arguments
          · exact le_time_runSimple c name arguments
          · exact Nat.le_refl _

theorem le_time_runCommand (p : Parameters) (c : Console) (command : Command) :
    c.time.nanos ≤ (runCommand p c command).time.nanos := by
  let input := if command.redirections.contains .inFromNowhere then [] else c.input
  exact le_time_runWords { c with input := input, stdout := [], stderr := [] } _ _

-- The commands of a pipeline run one after the other.
theorem le_time_runCommands (p : Parameters) (c : Console) (commands : List Command) :
    c.time.nanos ≤ (runCommands p c commands).time.nanos := by
  fun_induction runCommands p c commands with
  | case1 c => exact Nat.le_refl _
  | case2 c command => exact le_time_runCommand p c command
  | case3 c command rest _ d e ih =>
      have hfirst := le_time_runCommand p { c with stdout := [] } command
      exact Nat.le_trans hfirst ih

theorem le_time_runPipeline (p : Parameters) (c : Console) (l : Pipeline) :
    c.time.nanos ≤ (runPipeline p c l).time.nanos := by
  unfold runPipeline
  split_ifs
  · exact Nat.le_refl _
  · exact Nat.le_refl _
  · exact Nat.le_refl _
  · exact le_time_runCommands p c l.commands

theorem le_time_runScript (p : Parameters) (c : Console) (script : List Char) :
    c.time.nanos ≤ (runScript p c script).time.nanos := by
  unfold runScript
  generalize pipelines script = ls
  induction ls generalizing c with
  | nil => exact Nat.le_refl _
  | cons l ls ih => exact Nat.le_trans (le_time_runPipeline p c l) (ih _)

-- Whatever a shell is called with, it takes the time that it needs to start.
theorem startTime_le_run (input : Bytes) (arguments : List String) :
    startTime.nanos ≤ (run input arguments).time.nanos := by
  unfold run
  split
  · exact le_time_runScript _ (Console.start input) _
  · exact le_time_runScript _ (Console.start []) _
  · exact Nat.le_refl _
  · exact Nat.le_refl _

end Shell

end ExternalParser.Simulation
