import ExternalParser.Supervision

namespace ExternalParser.Supervision

-- A request with its reply.
structure Event where
  request : Request
  reply : request.Reply

variable {σ : Type} {i : Invocation} {stage : Stage} {log log' : List Event} {answer : Answer}

-- A system that also writes down what it is asked and what it replies.
def System.logged (system : System σ) : System (List Event × σ) :=
  fun (log, s) request =>
    let (reply, s) := system s request
    (reply, log ++ [⟨request, reply⟩], s)

-- The supervisor does not notice the record.
theorem run_logged (system : System σ) (i : Invocation) (fuel : Nat) (stage : Stage)
    (log : List Event) (s : σ) :
    ∃ log', run system.logged i fuel stage (log, s) =
      ((run system i fuel stage s).1, log', (run system i fuel stage s).2) := by
  induction fuel generalizing stage log s with
  | zero => exact ⟨log, rfl⟩
  | succ fuel ih =>
      rw [run, run]
      cases move i stage with
      | stop answer => exact ⟨log, rfl⟩
      | ask request resume => exact ih _ _ _

def Spawned (log : List Event) : Prop :=
  ⟨.spawn, .ok ()⟩ ∈ log

-- A wait or a look that shows how the child ended.
inductive Shows : Event → Option Int → Prop where
  | wait (status : Option Int) : Shows ⟨.wait, .ok status⟩ status
  | look (status : Option Int) : Shows ⟨.poll, .ok (some status)⟩ status

def Observed (log : List Event) : Prop :=
  ∃ event ∈ log, ∃ status, Shows event status

-- A child was killed and reaped, or that was tried, and nothing was done after it.
def PutDown (log : List Event) : Prop :=
  ∃ earlier killed reaped, Spawned earlier ∧
    log = earlier ++ [⟨.kill, killed⟩, ⟨.reap, reaped⟩]

-- A wait without limits failed, and nothing was done after it.
def WaitFailed (i : Invocation) (log : List Event) : Prop :=
  i.timeout = none ∧ i.cancel = none ∧
    ∃ reason, log = [⟨.spawn, .ok ()⟩, ⟨.takePipes, true⟩, ⟨.wait, .error reason⟩]

-- What comes before the child is started.
def opening (i : Invocation) : List Event :=
  if i.cancel.isSome then [⟨.isCancelled, false⟩] else []

-- Why the supervisor gives up on a child, seen from the last thing it was told.
inductive Provoked (i : Invocation) : List Event → Failure → Prop where
  | pipes (earlier : List Event) (reason : String) :
      Provoked i (earlier ++ [⟨.takePipes, false⟩]) (.io reason)
  | look (earlier : List Event) (reason : String) :
      Provoked i (earlier ++ [⟨.poll, .error reason⟩]) (.io reason)
  | token (earlier : List Event) :
      Provoked i (earlier ++ [⟨.isCancelled, true⟩]) (.cancelled i.program)
  | clock (earlier : List Event) (elapsed limit : Duration) :
      i.timeout = some limit → limit.nanos ≤ elapsed.nanos →
      Provoked i (earlier ++ [⟨.elapsed, elapsed⟩]) (.timedOut i.program limit)

-- How a run can end.
inductive Ending (i : Invocation) : List Event → Answer → Prop where
  -- A run that was cancelled already starts nothing.
  | declined : i.cancel.isSome → Ending i [⟨.isCancelled, true⟩] (.error (.cancelled i.program))
  | notStarted (e : FileError) :
      Ending i (opening i ++ [⟨.spawn, .error e⟩]) (.error (spawnFailure i.program e))
  | putDown (earlier : List Event) (failure : Failure) (killed : Except String Unit)
      (reaped : Except String (Option Int)) :
      Spawned earlier → Provoked i earlier failure →
      Ending i (earlier ++ [⟨.kill, killed⟩, ⟨.reap, reaped⟩]) (.error failure)
  | leftAlone (log : List Event) (reason : String) :
      WaitFailed i log → Ending i log (.error (.io reason))
  | unread (log : List Event) (reason : String) :
      Spawned log → Observed log → Ending i log (.error (.io reason))
  | complete (earlier : List Event) (seen : Event) (output : Output) :
      Spawned earlier → Shows seen output.exitCode →
      Ending i (earlier ++ [seen, ⟨.joinWriter, .ok ()⟩, ⟨.joinStdout, .ok output.stdout⟩,
        ⟨.joinStderr, .ok output.stderr⟩]) (.ok output)

-- What the record holds when a run is in a stage.
def Course (i : Invocation) : Stage → List Event → Prop
  | .starting, log => i.cancel.isSome ∧ log = []
  | .spawning, log => log = opening i
  | .piping, log => log = opening i ++ [⟨.spawn, .ok ()⟩]
  | .waiting, log =>
      i.timeout = none ∧ i.cancel = none ∧ log = [⟨.spawn, .ok ()⟩, ⟨.takePipes, true⟩]
  | .polling, log | .askingToken, log | .askingClock, log | .pausing, log => Spawned log
  | .killing failure, log => Spawned log ∧ Provoked i log failure
  | .reaping failure, log => ∃ earlier killed, Spawned earlier ∧ Provoked i earlier failure ∧
      log = earlier ++ [⟨.kill, killed⟩]
  | .joiningWriter status, log => ∃ earlier seen, Spawned earlier ∧ Shows seen status ∧
      log = earlier ++ [seen]
  | .joiningStdout status, log => ∃ earlier seen, Spawned earlier ∧ Shows seen status ∧
      log = earlier ++ [seen, ⟨.joinWriter, .ok ()⟩]
  | .joiningStderr status stdout, log => ∃ earlier seen, Spawned earlier ∧ Shows seen status ∧
      log = earlier ++ [seen, ⟨.joinWriter, .ok ()⟩, ⟨.joinStdout, .ok stdout⟩]
  | .finished answer, log => Ending i log answer

theorem Spawned.append (h : Spawned log) (later : List Event) : Spawned (log ++ later) :=
  List.mem_append_left later h

theorem Shows.observed {earlier later : List Event} {seen : Event} {status : Option Int}
    (h : Shows seen status) : Observed (earlier ++ seen :: later) :=
  ⟨seen, List.mem_append_right earlier List.mem_cons_self, status, h⟩

theorem course_first (i : Invocation) : Course i (first i) [] := by
  unfold first
  split
  · exact ⟨‹_›, rfl⟩
  · rename_i h
    exact (if_neg h).symm

-- A captured child is waited for without limits, or looked at.
theorem course_watching (h : log = opening i ++ [⟨.spawn, .ok ()⟩]) :
    Course i (watching i) (log ++ [⟨.takePipes, true⟩]) := by
  unfold watching
  split
  · rename_i hlimits
    rw [Bool.and_eq_true, Option.isNone_iff_eq_none, Option.isNone_iff_eq_none] at hlimits
    obtain ⟨htimeout, hcancel⟩ := hlimits
    refine ⟨htimeout, hcancel, ?_⟩
    rw [h, opening, hcancel]
    rfl
  · subst h
    exact Spawned.append (List.mem_append_right _ List.mem_cons_self) _

-- Whatever the system replies, the record of a stage leads to a record of the next one.
theorem course_move {request : Request} {resume : request.Reply → Stage}
    (h : Course i stage log) (hmove : move i stage = .ask request resume) (reply : request.Reply) :
    Course i (resume reply) (log ++ [⟨request, reply⟩]) := by
  cases stage with
  | starting =>
      obtain ⟨hcancel, rfl⟩ := h
      cases hmove
      cases (reply : Bool) with
      | true => exact .declined hcancel
      | false => exact (if_pos hcancel).symm
  | spawning =>
      obtain rfl := h
      cases hmove
      cases (reply : Except FileError Unit) with
      | ok _ => rfl
      | error e => exact .notStarted e
  | piping =>
      cases hmove
      cases (reply : Bool) with
      | true => exact course_watching h
      | false =>
          subst h
          exact ⟨Spawned.append (List.mem_append_right _ List.mem_cons_self) _, .pipes _ _⟩
  | waiting =>
      obtain ⟨htimeout, hcancel, rfl⟩ := h
      cases hmove
      cases (reply : Except String (Option Int)) with
      | ok status => exact ⟨_, _, List.mem_cons_self, .wait status, rfl⟩
      | error reason => exact .leftAlone _ reason ⟨htimeout, hcancel, reason, rfl⟩
  | polling =>
      cases hmove
      cases (reply : Except String (Option (Option Int))) with
      | ok seen =>
          cases seen with
          | some status => exact ⟨_, _, h, .look status, rfl⟩
          | none =>
              dsimp only
              split <;> exact Spawned.append h _
      | error reason => exact ⟨h.append _, .look _ _⟩
  | askingToken =>
      cases hmove
      cases (reply : Bool) with
      | true => exact ⟨Spawned.append h _, .token _⟩
      | false =>
          change Course i (if i.timeout.isSome then .askingClock else .pausing) _
          split <;> exact Spawned.append h _
  | askingClock =>
      cases hmove
      dsimp only
      split
      · rename_i limit hlimit
        split
        · rename_i hover
          exact ⟨Spawned.append h _, .clock _ _ limit hlimit hover⟩
        · exact Spawned.append h _
      · exact Spawned.append h _
  | pausing =>
      cases hmove
      exact Spawned.append h _
  | killing failure =>
      obtain ⟨hspawned, hreason⟩ := h
      cases hmove
      exact ⟨_, reply, hspawned, hreason, rfl⟩
  | reaping failure =>
      obtain ⟨earlier, killed, hspawned, hreason, rfl⟩ := h
      cases hmove
      rw [List.append_assoc]
      exact .putDown earlier failure killed reply hspawned hreason
  | joiningWriter status =>
      obtain ⟨earlier, seen, hspawned, hshows, rfl⟩ := h
      cases hmove
      rw [List.append_assoc]
      cases (reply : Except String Unit) with
      | ok _ => exact ⟨earlier, seen, hspawned, hshows, rfl⟩
      | error reason => exact .unread _ reason (hspawned.append _) hshows.observed
  | joiningStdout status =>
      obtain ⟨earlier, seen, hspawned, hshows, rfl⟩ := h
      cases hmove
      rw [List.append_assoc]
      cases (reply : Except String Bytes) with
      | ok stdout => exact ⟨earlier, seen, hspawned, hshows, rfl⟩
      | error reason => exact .unread _ reason (hspawned.append _) hshows.observed
  | joiningStderr status stdout =>
      obtain ⟨earlier, seen, hspawned, hshows, rfl⟩ := h
      cases hmove
      rw [List.append_assoc]
      cases (reply : Except String Bytes) with
      | ok stderr => exact .complete earlier seen ⟨status, stdout, stderr⟩ hspawned hshows
      | error reason => exact .unread _ reason (hspawned.append _) hshows.observed
  | finished answer => cases hmove

theorem eq_finished_of_move (hmove : move i stage = .stop answer) : stage = .finished answer := by
  cases stage with
  | finished answer' =>
      cases hmove
      rfl
  | _ => cases hmove

-- A run that is in the course of its stage comes to one of the ends, on every system.
theorem ending_of_run {system : System σ} {fuel : Nat} {s s' : σ} (h : Course i stage log)
    (hrun : run system.logged i fuel stage (log, s) = (some answer, log', s')) :
    Ending i log' answer := by
  induction fuel generalizing stage log s with
  | zero => cases hrun
  | succ fuel ih =>
      rw [run] at hrun
      cases hmove : move i stage with
      | stop last =>
          rw [hmove] at hrun
          cases hrun
          rw [eq_finished_of_move hmove] at h
          exact h
      | ask request resume =>
          rw [hmove] at hrun
          exact ih (course_move h hmove _) hrun

theorem not_spawned_opening (i : Invocation) : ¬ Spawned (opening i) := by
  intro h
  unfold Spawned opening at h
  split at h
  · cases List.mem_singleton.mp h
  · cases h

theorem Ending.settles (h : Ending i log answer) (hspawned : Spawned log) :
    Observed log ∨ PutDown log ∨ WaitFailed i log := by
  cases h with
  | declined _ => cases List.mem_singleton.mp hspawned
  | notStarted e =>
      rcases List.mem_append.mp hspawned with hopening | hspawn
      · exact absurd hopening (not_spawned_opening i)
      · cases List.mem_singleton.mp hspawn
  | putDown earlier _ killed reaped h _ => exact .inr (.inl ⟨earlier, killed, reaped, h, rfl⟩)
  | leftAlone _ _ h => exact .inr (.inr h)
  | unread _ _ _ h => exact .inl h
  | complete _ _ _ _ h => exact .inl h.observed

theorem Ending.timedOut {program : String} {limit : Duration} (h : Ending i log answer)
    (hanswer : answer = .error (.timedOut program limit)) : PutDown log := by
  cases h with
  | notStarted e => cases e <;> cases hanswer
  | putDown earlier _ killed reaped h _ => exact ⟨earlier, killed, reaped, h, rfl⟩
  | _ => cases hanswer

theorem Ending.cancelled {program : String} (h : Ending i log answer)
    (hanswer : answer = .error (.cancelled program)) :
    PutDown log ∨ log = [⟨.isCancelled, true⟩] := by
  cases h with
  | declined _ => exact .inr rfl
  | notStarted e => cases e <;> cases hanswer
  | putDown earlier _ killed reaped h _ => exact .inl ⟨earlier, killed, reaped, h, rfl⟩
  | _ => cases hanswer

theorem Ending.complete_of_ok {output : Output} (h : Ending i log answer)
    (hanswer : answer = .ok output) :
    ∃ earlier seen, Spawned earlier ∧ Shows seen output.exitCode ∧
      log = earlier ++ [seen, ⟨.joinWriter, .ok ()⟩, ⟨.joinStdout, .ok output.stdout⟩,
        ⟨.joinStderr, .ok output.stderr⟩] := by
  cases h with
  | complete earlier seen _ hspawned hshows =>
      cases hanswer
      exact ⟨earlier, seen, hspawned, hshows, rfl⟩
  | _ => cases hanswer

theorem not_putDown_of_getLast? {event : Event} (h : log.getLast? = some event)
    (hreap : event.request ≠ .reap) : ¬ PutDown log := by
  rintro ⟨earlier, killed, reaped, -, rfl⟩
  rw [List.getLast?_append] at h
  obtain rfl : _ = event := Option.some.inj h
  exact hreap rfl

theorem WaitFailed.abandons (h : WaitFailed i log) :
    Spawned log ∧ ¬ Observed log ∧ ¬ PutDown log := by
  obtain ⟨-, -, reason, rfl⟩ := h
  have hlast : List.getLast? [⟨.spawn, .ok ()⟩, ⟨.takePipes, true⟩, ⟨.wait, .error reason⟩] =
      some (⟨.wait, .error reason⟩ : Event) := rfl
  refine ⟨List.mem_cons_self, ?_, not_putDown_of_getLast? hlast nofun⟩
  rintro ⟨event, hmem, status, hshows⟩
  simp only [List.mem_cons, List.not_mem_nil, or_false] at hmem
  rcases hmem with rfl | rfl | rfl <;> cases hshows

-- A run on any system has a record.
theorem exists_ending {system : System σ} {fuel : Nat} {s s' : σ}
    (hrun : run system i fuel (first i) s = (some answer, s')) :
    ∃ log, run system.logged i fuel (first i) ([], s) = (some answer, log, s') ∧
      Ending i log answer := by
  obtain ⟨log, hlog⟩ := run_logged system i fuel (first i) [] s
  rw [hrun] at hlog
  exact ⟨log, hlog, ending_of_run (course_first i) hlog⟩

-- The only children that are left alone are those whose wait failed.
theorem run_abandons_iff {system : System σ} {fuel : Nat} {s s' : σ}
    (hrun : run system.logged i fuel (first i) ([], s) = (some answer, log, s')) :
    Spawned log ∧ ¬ Observed log ∧ ¬ PutDown log ↔ WaitFailed i log := by
  constructor
  · rintro ⟨hspawned, hobserved, hdown⟩
    have hend := ending_of_run (course_first i) hrun
    exact ((hend.settles hspawned).resolve_left hobserved).resolve_left hdown
  · exact WaitFailed.abandons

-- A run that times out was told by its clock, right before it killed the child, that the limit was over.
theorem run_timedOut_late {system : System σ} {fuel : Nat} {s s' : σ} {program : String}
    {limit : Duration} (hrun : run system.logged i fuel (first i) ([], s) =
      (some (.error (.timedOut program limit)), log, s')) :
    program = i.program ∧ i.timeout = some limit ∧
      ∃ earlier elapsed killed reaped, limit.nanos ≤ elapsed.nanos ∧
        log = earlier ++ [⟨.elapsed, elapsed⟩, ⟨.kill, killed⟩, ⟨.reap, reaped⟩] := by
  generalize hanswer : (.error (.timedOut program limit) : Answer) = answer at hrun
  cases ending_of_run (course_first i) hrun with
  | notStarted e => cases e <;> cases hanswer
  | putDown earlier failure killed reaped _ hreason =>
      cases hanswer
      cases hreason with
      | clock earlier elapsed _ hlimit hover =>
          exact ⟨rfl, hlimit, earlier, elapsed, killed, reaped, hover, List.append_assoc _ _ _⟩
  | _ => cases hanswer

-- A system on which a child cannot be waited for and does not end.
def stuck : System Duration := fun clock => fun
  | .isCancelled => (true, clock)
  | .spawn => (.ok (), clock)
  | .takePipes => (true, clock)
  | .wait => (.error "No child processes (os error 10)", clock)
  | .poll => (.ok none, clock)
  | .elapsed => (clock, clock)
  | .pause => ((), ⟨clock.nanos + 5⟩)
  | .kill => (.error "Operation not permitted (os error 1)", clock)
  | .reap => (.error "No child processes (os error 10)", clock)
  | .joinWriter => (.ok (), clock)
  | .joinStdout => (.ok [], clock)
  | .joinStderr => (.ok [], clock)

-- A run that started a child ends when it has seen how the child ended, or when it has killed and reaped
-- it, unless its wait failed. It is timed out or cancelled only after the latter, except that a run which
-- is cancelled already starts nothing. It succeeds only when it has seen the end of the child and has got
-- all of its output.
theorem run_settles_child (system : System σ) (i : Invocation) (fuel : Nat) (s s' : σ)
    (answer : Answer) (hrun : run system i fuel (first i) s = (some answer, s')) :
    ∃ log, run system.logged i fuel (first i) ([], s) = (some answer, log, s') ∧
      (Spawned log → Observed log ∨ PutDown log ∨ WaitFailed i log) ∧
      (∀ program limit, answer = .error (.timedOut program limit) → PutDown log) ∧
      (∀ program, answer = .error (.cancelled program) →
        PutDown log ∨ log = [⟨.isCancelled, true⟩]) ∧
      ∀ output, answer = .ok output → ∃ earlier seen, Spawned earlier ∧
        Shows seen output.exitCode ∧
        log = earlier ++ [seen, ⟨.joinWriter, .ok ()⟩, ⟨.joinStdout, .ok output.stdout⟩,
          ⟨.joinStderr, .ok output.stderr⟩] := by
  obtain ⟨log, hlog, hend⟩ := exists_ending hrun
  exact ⟨log, hlog, hend.settles, fun _ _ => hend.timedOut, fun _ => hend.cancelled,
    fun _ => hend.complete_of_ok⟩

-- The second look finds the time up. Neither the kill nor the wait for the end succeeds.
theorem stuck_times_out :
    ∃ log, run stuck.logged ⟨"sh", [], [], some ⟨5⟩, none⟩ 10 .spawning ([], ⟨0⟩) =
        (some (.error (.timedOut "sh" ⟨5⟩)), log, ⟨5⟩) ∧
      Spawned log ∧ PutDown log := by
  obtain ⟨log, hlog, -, htimedOut, -⟩ := run_settles_child stuck
    ⟨"sh", [], [], some ⟨5⟩, none⟩ 10 ⟨0⟩ ⟨5⟩ (.error (.timedOut "sh" ⟨5⟩)) rfl
  have hdown := htimedOut "sh" ⟨5⟩ rfl
  refine ⟨log, hlog, ?_, hdown⟩
  obtain ⟨earlier, _, _, hspawned, rfl⟩ := hdown
  exact hspawned.append _

-- A run that was cancelled before kills nothing, and the child of a run without limits is left alone.
theorem stuck_abandons :
    (∃ log, run stuck.logged ⟨"/nonexistent/x", [], [], none, some .cancelled⟩ 2 .starting ([], ⟨0⟩) =
        (some (.error (.cancelled "/nonexistent/x")), log, ⟨0⟩) ∧
      ¬ Spawned log ∧ ¬ PutDown log) ∧
    ∃ log, run stuck.logged (.plain "sh" []) 4 .spawning ([], ⟨0⟩) =
        (some (.error (.io "No child processes (os error 10)")), log, ⟨0⟩) ∧
      Spawned log ∧ ¬ Observed log ∧ ¬ PutDown log := by
  constructor
  · refine ⟨[⟨.isCancelled, true⟩], rfl, ?_, not_putDown_of_getLast? rfl nofun⟩
    intro h
    cases List.mem_singleton.mp h
  · have hfailed : WaitFailed (.plain "sh" []) [⟨.spawn, .ok ()⟩, ⟨.takePipes, true⟩,
        ⟨.wait, .error "No child processes (os error 10)"⟩] := ⟨rfl, rfl, _, rfl⟩
    exact ⟨_, rfl, hfailed.abandons⟩

end ExternalParser.Supervision
