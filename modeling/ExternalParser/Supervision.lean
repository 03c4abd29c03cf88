import ExternalParser.Dialogue
import ExternalParser.Files

namespace ExternalParser.Supervision

-- What the supervisor asks for once.
inductive Request where
  | isCancelled
  | spawn
  -- Whether the three pipes of the child were captured.
  | takePipes
  | wait
  | poll
  | elapsed
  | pause
  | kill
  | reap
  | joinWriter
  | joinStdout
  | joinStderr
deriving DecidableEq

-- The status of a child is its exit code, or none after a signal.
def Request.Reply : Request → Type
  | .isCancelled => Bool
  | .spawn => Except FileError Unit
  | .takePipes => Bool
  | .wait => Except String (Option Int)
  | .poll => Except String (Option (Option Int))
  | .elapsed => Duration
  | .pause => Unit
  | .kill => Except String Unit
  | .reap => Except String (Option Int)
  | .joinWriter => Except String Unit
  | .joinStdout => Except String Bytes
  | .joinStderr => Except String Bytes

-- In each stage the supervisor asks the system for one thing, and the reply leads to the next one.
inductive Stage where
  | starting
  | spawning
  | piping
  | waiting
  | polling
  | askingToken
  | askingClock
  | pausing
  | killing (failure : Failure)
  | reaping (failure : Failure)
  | joiningWriter (status : Option Int)
  | joiningStdout (status : Option Int)
  | joiningStderr (status : Option Int) (stdout : Bytes)
  | finished (answer : Answer)

-- The end, or a request with what follows each of its replies.
inductive Move where
  | stop (answer : Answer)
  | ask (request : Request) (resume : request.Reply → Stage)

-- Why a program could not be started.
def spawnFailure (program : String) : FileError → Failure
  | .missing => .notFound program
  | e => .notStarted program e.message

-- A token is asked first, because a run that is cancelled already starts nothing.
def first (i : Invocation) : Stage :=
  if i.cancel.isSome then .starting else .spawning

-- Without limits the supervisor just waits.
def watching (i : Invocation) : Stage :=
  if i.timeout.isNone && i.cancel.isNone then .waiting else .polling

-- What the supervisor does in a stage. When it gives up on a child, it kills the child and waits for
-- its end, and lets neither of the two change the answer; after a wait that failed it does nothing more.
def move (i : Invocation) : Stage → Move
  | .starting => .ask .isCancelled fun (cancelled : Bool) =>
      if cancelled then .finished (.error (.cancelled i.program)) else .spawning
  | .spawning => .ask .spawn fun
      | .ok () => .piping
      | .error e => .finished (.error (spawnFailure i.program e))
  | .piping => .ask .takePipes fun (captured : Bool) =>
      if captured then watching i
      else
        let program := i.program
        .killing (.io s!"pipes of '{program}' were not captured")
  | .waiting => .ask .wait fun
      | .ok status => .joiningWriter status
      | .error reason => .finished (.error (.io reason))
  | .polling => .ask .poll fun
      | .ok (some status) => .joiningWriter status
      | .ok none => if i.cancel.isSome then .askingToken else .askingClock
      | .error reason => .killing (.io reason)
  | .askingToken => .ask .isCancelled fun (cancelled : Bool) =>
      if cancelled then .killing (.cancelled i.program)
      else if i.timeout.isSome then .askingClock
      else .pausing
  | .askingClock => .ask .elapsed fun elapsed =>
      match i.timeout with
      | some limit =>
          if limit.nanos ≤ elapsed.nanos then .killing (.timedOut i.program limit) else .pausing
      | none => .pausing
  | .pausing => .ask .pause fun () => .polling
  | .killing failure => .ask .kill fun _ => .reaping failure
  | .reaping failure => .ask .reap fun _ => .finished (.error failure)
  | .joiningWriter status => .ask .joinWriter fun
      | .ok () => .joiningStdout status
      | .error reason => .finished (.error (.io reason))
  | .joiningStdout status => .ask .joinStdout fun
      | .ok stdout => .joiningStderr status stdout
      | .error reason => .finished (.error (.io reason))
  | .joiningStderr status stdout => .ask .joinStderr fun
      | .ok stderr => .finished (.ok ⟨status, stdout, stderr⟩)
      | .error reason => .finished (.error (.io reason))
  | .finished answer => .stop answer

-- A system with a state, which replies as it likes.
abbrev System (σ : Type) := σ → (r : Request) → r.Reply × σ

-- The answer of a run on a system, if it comes within so many moves, and the state of the system then.
def run {σ : Type} (system : System σ) (i : Invocation) :
    Nat → Stage → σ → Option Answer × σ
  | 0, _, s => (none, s)
  | fuel + 1, stage, s => match move i stage with
    | .stop answer => (some answer, s)
    | .ask request resume =>
        let (reply, s) := system s request
        run system i fuel (resume reply) s

-- Where every move leaves fewer of them to come, a run that may take so many comes to its end.
theorem run_isSome {σ : Type} {system : System σ} {i : Invocation} (movesLeft : Stage → σ → Nat)
    (hmove : ∀ stage s request resume, move i stage = .ask request resume →
      movesLeft (resume (system s request).1) (system s request).2 < movesLeft stage s)
    {fuel : Nat} {stage : Stage} {s : σ} (hfuel : movesLeft stage s < fuel) :
    (run system i fuel stage s).1.isSome := by
  induction fuel generalizing stage s with
  | zero => cases hfuel
  | succ fuel ih =>
      rw [run]
      cases hnext : move i stage with
      | stop answer => rfl
      | ask request resume =>
          have hless := hmove stage s request resume hnext
          exact ih (by omega)

end ExternalParser.Supervision
