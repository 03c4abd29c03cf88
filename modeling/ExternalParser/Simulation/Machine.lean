import ExternalParser.Simulation.Shell
import ExternalParser.Supervision

namespace ExternalParser.Simulation

-- An external parser with the program that builds it, and what each of them leaves behind.
structure Workshop where
  version : Output
  parse : Output
  build : Output
  -- What the parser says about its version once it was built.
  rebuilt : Option Output

inductive Content where
  | data (bytes : Bytes)
  -- One of the programs that every machine has.
  | system (name : String)
  | parser
  | builder

-- A simulated system, on which the supervisor can run programs.
structure Machine where
  files : Files Content
  workshop : Workshop

-- Where a machine keeps its own programs, data and directories.
def systemEntries : List (List String × Content) :=
  programNames.map (fun name => (["bin", name], .system name)) ++
    programNames.map (fun name => (["usr", "bin", name], .system name)) ++
    [(["etc", "passwd"], .data []), (["etc", "hosts"], .data []), (["dev", "null"], .data [])]

def systemFolders : List (List String) :=
  [["home"], ["opt"], ["proc"], ["root"], ["tmp"], ["usr", "lib"], ["var"]]

namespace Machine

def quiet : Output := ⟨some 0, [], []⟩

-- A machine without a parser.
def bare (files : List (String × Bytes)) : Machine :=
  let entries := files.map fun (path, bytes) => (Files.namesOf path, Content.data bytes)
  ⟨⟨entries, systemEntries, systemFolders⟩, ⟨quiet, quiet, quiet, none⟩⟩

-- Adds a parser under a name, and its builder.
def install (m : Machine) (name : String) (w : Workshop) : Machine :=
  let programs := [(Files.namesOf name, Content.parser), (["build"], .builder)]
  { m with
    files := { m.files with entries := programs ++ m.files.entries }
    workshop := w }

def readText (m : Machine) : TextReader := fun path => do
  match ← m.files.read path with
  | .data bytes => Files.textOf bytes
  | _ => return ""

-- What an invocation starts. A name without a slash is looked up among the installed programs only.
def find (m : Machine) (program : String) : Except FileError Content := do
  if program.toList.contains '\x00' then throw (.other "nul byte found in provided data")
  if program.toList.contains '/' then
    match ← m.files.locate program with
    | .file (.data _) | .folder _ => throw .denied
    | .file content => return content
  else if program = "." ∨ program = ".." then throw .denied
  else if Files.maxName < program.utf8ByteSize then throw .nameTooLong
  else if programNames.contains program then return .system program
  else throw .missing

-- What a program does, and the machine after it.
def perform (m : Machine) (i : Invocation) : Content → Behaviour × Machine
  | .data _ => (.ofOutput quiet, m)
  | .system name =>
      if name = "sh" then ((Shell.run i.stdin i.arguments).behaviour, m)
      else ((runSimple (Console.start i.stdin) name i.arguments).behaviour, m)
  | .parser =>
      (.ofOutput (if i.arguments = [] then m.workshop.parse else m.workshop.version), m)
  | .builder =>
      let version := m.workshop.rebuilt.getD m.workshop.version
      (.ofOutput m.workshop.build, { m with workshop := { m.workshop with version := version } })

-- Starts the program of an invocation.
def launch (m : Machine) (i : Invocation) : Except FileError (Behaviour × Machine) := do
  if i.arguments.any (·.toList.contains '\x00') then
    throw (.other "nul byte found in provided data")
  return m.perform i (← m.find i.program)

end Machine

-- A machine while a program is supervised.
structure Watch where
  machine : Machine
  clock : Duration
  child : Behaviour

-- How long the supervisor sleeps between two looks.
def pollInterval : Duration := .ofMillis 5

-- How the machine answers the supervisor.
def Watch.reply (i : Invocation) (w : Watch) : (r : Supervision.Request) → r.Reply × Watch
  | .isCancelled => (i.cancel.any (·.isCancelledAt w.clock), w)
  | .spawn => match w.machine.launch i with
    | .ok (child, machine) => (.ok (), { w with machine := machine, child := child })
    | .error e => (.error e, w)
  | .takePipes => (true, w)
  | .wait =>
      let clock := ⟨max w.clock.nanos w.child.duration.nanos⟩
      (.ok w.child.output.exitCode, { w with clock := clock })
  | .poll =>
      let isOver := w.child.duration.nanos ≤ w.clock.nanos
      (.ok (if isOver then some w.child.output.exitCode else none), w)
  | .elapsed => (w.clock, w)
  | .pause => ((), { w with clock := ⟨w.clock.nanos + pollInterval.nanos⟩ })
  | .kill => (.ok (), w)
  | .reap => (.ok w.child.output.exitCode, w)
  | .joinWriter => (.ok (), w)
  | .joinStdout => (.ok w.child.output.stdout, w)
  | .joinStderr => (.ok w.child.output.stderr, w)

namespace Watch

-- How many more looks find the child running.
def looks (w : Watch) : Nat :=
  (w.child.duration.nanos - w.clock.nanos + (pollInterval.nanos - 1)) / pollInterval.nanos

-- How many moves a supervisor has before it at most. A look at a child that runs is four of them.
def movesLeft (i : Invocation) : Supervision.Stage → Watch → Nat
  | .finished _, _ => 0
  | .joiningStderr _ _, _ | .reaping _, _ => 1
  | .joiningStdout _, _ | .killing _, _ => 2
  | .joiningWriter _, _ => 3
  | .waiting, _ => 4
  | .polling, w => 4 * w.looks + 4
  | .pausing, w => 4 * (w.looks - 1) + 5
  | .askingClock, w => 4 * (w.looks - 1) + 6
  | .askingToken, w => 4 * (w.looks - 1) + 7
  | .piping, w => 4 * w.looks + 5
  | .spawning, w => 4 * (w.reply i .spawn).2.looks + 6
  | .starting, w => 4 * (w.reply i .spawn).2.looks + 7

theorem looks_pos {w : Watch} (h : w.clock.nanos < w.child.duration.nanos) : 0 < w.looks := by
  simp only [looks, pollInterval, Duration.ofMillis]
  omega

theorem looks_pause (i : Invocation) (w : Watch) :
    (w.reply i .pause).2.looks ≤ w.looks - 1 := by
  simp only [looks, reply, pollInterval, Duration.ofMillis]
  omega

-- Every move leads on: a look at a child that runs is followed by a pause, and a pause by a later look.
theorem movesLeft_lt {i : Invocation} {stage : Supervision.Stage} {w : Watch}
    {request : Supervision.Request} {resume : request.Reply → Supervision.Stage}
    (hmove : Supervision.move i stage = .ask request resume) :
    movesLeft i (resume (w.reply i request).1) (w.reply i request).2 < movesLeft i stage w := by
  cases stage with
  | starting =>
      cases hmove
      change movesLeft i (if i.cancel.any (·.isCancelledAt w.clock) then
        .finished (.error (.cancelled i.program)) else .spawning) w < _
      split
      · rw [movesLeft, movesLeft]
        omega
      · rw [movesLeft, movesLeft]
        omega
  | spawning =>
      cases hmove
      cases hspawn : (w.reply i .spawn).1 with
      | ok _ => simp [movesLeft]
      | error e => simp [movesLeft]
  | piping =>
      cases hmove
      simp only [reply, if_true, Supervision.watching]
      split
      · simp only [movesLeft]
        omega
      · simp only [movesLeft]
        omega
  | polling =>
      cases hmove
      by_cases hover : w.child.duration.nanos ≤ w.clock.nanos
      · simp only [reply, hover, if_true, movesLeft]
        omega
      · have hpos := looks_pos (Nat.lt_of_not_le hover)
        simp only [reply, hover, if_false]
        split
        · simp only [movesLeft]
          omega
        · simp only [movesLeft]
          omega
  | askingToken =>
      cases hmove
      change movesLeft i (if i.cancel.any (·.isCancelledAt w.clock) then .killing (.cancelled i.program)
        else if i.timeout.isSome then .askingClock else .pausing) w < _
      split
      · rw [movesLeft, movesLeft]
        omega
      · split
        · rw [movesLeft, movesLeft]
          omega
        · rw [movesLeft, movesLeft]
          omega
  | askingClock =>
      cases hmove
      cases i.timeout with
      | none =>
          simp only [reply, movesLeft]
          omega
      | some limit =>
          change movesLeft i (if limit.nanos ≤ w.clock.nanos then .killing (.timedOut i.program limit)
            else .pausing) w < _
          split
          · rw [movesLeft, movesLeft]
            omega
          · rw [movesLeft, movesLeft]
            omega
  | pausing =>
      cases hmove
      have hlater := looks_pause i w
      simp only [movesLeft]
      omega
  | waiting | killing _ | reaping _ | joiningWriter _ | joiningStdout _ | joiningStderr _ _ =>
      cases hmove
      simp [reply, movesLeft]
  | finished answer => cases hmove

end Watch

-- Runs a program under supervision, which comes to its end.
def Machine.run (m : Machine) (i : Invocation) : Answer × Machine :=
  let w : Watch := ⟨m, ⟨0⟩, .ofOutput quiet⟩
  let stage := Supervision.first i
  let fuel := Watch.movesLeft i stage w + 1
  let ended := Supervision.run (Watch.reply i) i fuel stage w
  (ended.1.get (Supervision.run_isSome (Watch.movesLeft i) (fun _ _ _ _ => Watch.movesLeft_lt)
    (Nat.lt_succ_self _)), ended.2.machine)

end ExternalParser.Simulation
