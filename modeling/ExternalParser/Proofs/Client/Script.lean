import ExternalParser.Proofs.Client.Parse
import ExternalParser.Script

namespace ExternalParser

namespace Script

-- The cue that a list has when so many of it were taken.
def cueAt (cues : List Cue) (taken : Nat) : Cue :=
  cues[min taken (cues.length - 1)]?.getD .missing

theorem next_fst (cues : List Cue) : (next cues).1 = cueAt cues 0 := by
  match cues with
  | [] | [_] | _ :: _ :: _ => rfl

theorem cueAt_next (cues : List Cue) (taken : Nat) :
    cueAt (next cues).2 taken = cueAt cues (taken + 1) := by
  match cues with
  | [] | [_] => simp [next, cueAt]
  | cue :: cue' :: cues =>
      have hmin : min (taken + 1) (cues.length + 1) = min taken cues.length + 1 := by omega
      simp only [next, cueAt, List.length_cons, Nat.add_sub_cancel, hmin, List.getElem?_cons_succ]

def cues (s : Script) : Role → List Cue
  | .build => s.build
  | .parse => s.parse
  | .version => s.version

-- The cue for the source of a parse.
def ownCue? (s : Script) (i : Invocation) : Option Cue :=
  if s.role i = .parse then s.bySource.lookup (Utf8.lossy i.stdin) else none

-- The run takes a cue from the list of a role.
def takes (s : Script) (role : Role) (i : Invocation) : Bool :=
  !i.isCancelled && (s.ownCue? i).isNone && s.role i = role

-- The answer to a run that comes after others.
def answerAfter (s : Script) (earlier : List Invocation) (i : Invocation) : Answer :=
  if i.isCancelled then .error (.cancelled i.program)
  else
    let listed := cueAt (s.cues (s.role i)) (earlier.countP (s.takes (s.role i)))
    ((s.ownCue? i).getD listed).answer i

theorem take_fst (s : Script) (role : Role) : (s.take role).1 = cueAt (s.cues role) 0 := by
  cases role <;> exact next_fst _

theorem take_cues (s : Script) (role other : Role) :
    (s.take role).2.cues other = if role = other then (next (s.cues role)).2 else s.cues other := by
  cases role <;> cases other <;> rfl

-- A run changes nothing but the log and the list that it takes its cue from.
structure Follows (s : Script) (i : Invocation) (s' : Script) : Prop where
  builders : s'.builders = s.builders
  bySource : s'.bySource = s.bySource
  log : s'.log = (s.role i, i) :: s.log
  cues : ∀ role, s'.cues role = if s.takes role i then (next (s.cues role)).2 else s.cues role

variable {s s' : Script} {i : Invocation}

theorem follows_take (htakes : ∀ role, s.takes role i ↔ s.role i = role) :
    s.Follows i (take { s with log := (s.role i, i) :: s.log } (s.role i)).2 := by
  refine ⟨?_, ?_, ?_, ?_⟩
  · cases s.role i <;> rfl
  · cases s.role i <;> rfl
  · cases s.role i <;> rfl
  · intro role
    rw [take_cues]
    by_cases hrole : s.role i = role
    · rw [if_pos hrole, if_pos ((htakes role).mpr hrole), ← hrole]
      rfl
    · rw [if_neg hrole, if_neg fun h => hrole ((htakes role).mp h)]
      rfl

theorem play_spec (s : Script) (i : Invocation) :
    (s.play i).1 = s.answerAfter [] i ∧ s.Follows i (s.play i).2 := by
  have hidle (h : ∀ role, s.takes role i = false) :
      s.Follows i { s with log := (s.role i, i) :: s.log } := by
    refine ⟨rfl, rfl, rfl, ?_⟩
    intro role
    rw [h role, if_neg Bool.false_ne_true]
    rfl
  cases hcancelled : i.isCancelled with
  | true =>
      have hplay : s.play i =
          (.error (.cancelled i.program), { s with log := (s.role i, i) :: s.log }) := by
        rw [play, if_pos hcancelled]
      rw [hplay, answerAfter, if_pos hcancelled]
      exact ⟨rfl, hidle fun role => by simp [takes, hcancelled]⟩
  | false =>
      rw [answerAfter, hcancelled, if_neg Bool.false_ne_true]
      cases hcue : s.ownCue? i with
      | some cue =>
          have hplay : s.play i = (cue.answer i, { s with log := (s.role i, i) :: s.log }) := by
            rw [ownCue?] at hcue
            simp only [play, hcancelled, Bool.false_eq_true, if_false, hcue]
          rw [hplay]
          exact ⟨rfl, hidle fun role => by simp [takes, hcue]⟩
      | none =>
          have hplay : s.play i =
              ((take { s with log := (s.role i, i) :: s.log } (s.role i)).1.answer i,
                (take { s with log := (s.role i, i) :: s.log } (s.role i)).2) := by
            rw [ownCue?] at hcue
            simp only [play, hcancelled, Bool.false_eq_true, if_false, hcue]
          rw [hplay]
          refine ⟨?_, follows_take fun role => by simp [takes, hcancelled, hcue]⟩
          rw [take_fst]
          rfl

namespace Follows

theorem role_eq (h : s.Follows i s') (j : Invocation) : s'.role j = s.role j := by
  rw [role, role, h.builders]

theorem ownCue?_eq (h : s.Follows i s') (j : Invocation) : s'.ownCue? j = s.ownCue? j := by
  rw [ownCue?, ownCue?, h.role_eq, h.bySource]

theorem takes_eq (h : s.Follows i s') (role : Role) : s'.takes role = s.takes role := by
  funext j
  rw [takes, takes, h.role_eq, h.ownCue?_eq]

-- What a script answers later it answers after one run more.
theorem answerAfter_eq (h : s.Follows i s') (earlier : List Invocation) (j : Invocation) :
    s'.answerAfter earlier j = s.answerAfter (i :: earlier) j := by
  have hlisted : cueAt (s'.cues (s.role j)) (earlier.countP (s.takes (s.role j))) =
      cueAt (s.cues (s.role j)) ((i :: earlier).countP (s.takes (s.role j))) := by
    rw [h.cues, List.countP_cons]
    split
    · exact cueAt_next _ _
    · rfl
  simp only [answerAfter, h.role_eq, h.ownCue?_eq, h.takes_eq, hlisted]

end Follows

-- A dialogue with a script: the log has its runs in order, and each of them was answered as the script
-- says, from the cue that is left for it after the runs before it.
theorem exists_plays_play {α : Type} (d : Dialogue α) (s : Script) :
    ∃ runs, Dialogue.Plays d runs (d.answeredBy play s).1 ∧
      (d.answeredBy play s).2.log =
        (runs.map fun run => (s.role run.call, run.call)).reverse ++ s.log ∧
      ∀ earlier run later, runs = earlier ++ run :: later →
        run.answer = s.answerAfter (earlier.map (·.call)) run.call := by
  induction d generalizing s with
  | done x => exact ⟨[], .done x, rfl, by simp⟩
  | ask role call next ih =>
      obtain ⟨hanswer, hfollows⟩ := s.play_spec call
      obtain ⟨runs, hplays, hlog, hruns⟩ := ih (s.play call).1 (s.play call).2
      refine ⟨⟨role, call, (s.play call).1⟩ :: runs, .ask role call next _ runs _ hplays, ?_, ?_⟩
      · rw [Dialogue.answeredBy, hlog, hfollows.log]
        simp only [hfollows.role_eq, List.map_cons, List.reverse_cons, List.append_assoc,
          List.singleton_append]
      · intro earlier run later hsplit
        cases earlier with
        | nil =>
            obtain ⟨rfl, -⟩ := List.cons.inj hsplit
            exact hanswer
        | cons first earlier =>
            obtain ⟨rfl, hrest⟩ := List.cons.inj hsplit
            rw [hruns earlier run later hrest, hfollows.answerAfter_eq]
            rfl

-- The script knows the program that builds a parser, and does not take the parser for one.
structure Knows (s : Script) (c : Config) : Prop where
  binary : c.binary ∉ s.builders
  builder : ∀ program arguments, c.buildCommand = program :: arguments → program ∈ s.builders

section Knows

open Availability Client

variable {c : Config} {κ κ' : Cache} {runs : List Exchange}

theorem Knows.role_probe (h : s.Knows c) : s.role (probeCall c) = .version := by
  simp [role, probeCall, Invocation.plain, h.binary]

theorem Knows.role_parse (h : s.Knows c) (source : String) (cancel : Option CancelToken) :
    s.role (parseCall c source cancel) = .parse := by
  simp [role, parseCall, Invocation.plain, h.binary]

theorem Knows.role_build (h : s.Knows c) {program : String} {arguments : List String}
    (hcommand : c.buildCommand = program :: arguments) :
    s.role (buildCall c program arguments) = .build := by
  simp [role, buildCall, Invocation.plain, h.builder program arguments hcommand]

theorem Knows.role_course (h : s.Knows c) {expected : String} {previous state : Option ProbeState}
    {answer : Except Failure Unit} (hcourse : Course c expected previous runs answer state) :
    ∀ run ∈ runs, s.role run.call = run.role := by
  cases hcourse with
  | known => simp
  | found | refused => simp [probeRun, h.role_probe]
  | unbuilt _ _ _ _ _ _ _ hcommand => simp [probeRun, buildRun, h.role_probe, h.role_build hcommand]
  | rebuilt _ _ _ _ _ _ _ hcommand | misbuilt _ _ _ _ _ _ _ hcommand =>
      simp [probeRun, buildRun, h.role_probe, h.role_build hcommand]

theorem Knows.role_plays (h : s.Knows c) {source : String} {cancel : Option CancelToken}
    {result : Except Failure Tree}
    (hplays : Dialogue.Plays ((parseWith c source cancel).run κ) runs (result, κ')) :
    ∀ run ∈ runs, s.role run.call = run.role := by
  obtain ⟨checked, answer, rest, rfl, hensure, hrest⟩ := plays_parseWith_iff.mp hplays
  have hchecked : ∀ run ∈ checked, s.role run.call = run.role := by
    cases hwanted : c.wantedVersion? with
    | none =>
        obtain ⟨rfl, -⟩ := ensure_unwanted hwanted hensure
        simp
    | some expected =>
        obtain ⟨state, hcourse, -⟩ := (plays_ensure_iff hwanted).mp hensure
        exact h.role_course hcourse
  have hlast : ∀ run ∈ rest, s.role run.call = run.role := by
    cases answer with
    | error failure =>
        obtain ⟨rfl, -⟩ := Dialogue.plays_done_iff.mp hrest
        simp
    | ok _ =>
        obtain ⟨answer, _, rfl, hdone⟩ := Dialogue.plays_ask_iff.mp hrest
        obtain ⟨rfl, -⟩ := Dialogue.plays_done_iff.mp hdone
        simp [h.role_parse]
  exact List.forall_mem_append.mpr ⟨hchecked, hlast⟩

-- What a script logs of a parse is what the parse ran, and what for.
theorem Knows.parseWith_log (h : s.Knows c) (source : String) (cancel : Option CancelToken)
    (κ : Cache) :
    ∃ runs, Dialogue.Plays ((parseWith c source cancel).run κ) runs
        (((parseWith c source cancel).run κ).answeredBy play s).1 ∧
      (((parseWith c source cancel).run κ).answeredBy play s).2.log =
        (runs.map fun run => (run.role, run.call)).reverse ++ s.log := by
  obtain ⟨runs, hplays, hlog, -⟩ := exists_plays_play ((parseWith c source cancel).run κ) s
  refine ⟨runs, hplays, ?_⟩
  rw [hlog]
  congr 2
  refine List.map_congr_left fun run hrun => ?_
  rw [h.role_plays hplays run hrun]

end Knows

end Script

end ExternalParser
