import ExternalParser.Client
import ExternalParser.Proofs.Availability.Check
import ExternalParser.Proofs.Text.Encoding
import Mathlib.Logic.Relation

namespace ExternalParser.History

open Availability

-- The calls of a client.
inductive Request where
  | ensureAvailable (c : Config)
  | version (c : Config)
  | run (c : Config) (source : String)
  | parse (c : Config) (source : String)
  | parseCancellable (c : Config) (source : String) (cancel : CancelToken)
  | parseStatement (c : Config) (fragment : String)
  | parseMany (c : Config) (sources : List String)

-- What a client does for a call, but for its result.
def Request.session : Request → Session Unit
  | .ensureAvailable c => (fun _ => ()) <$> Client.ensureAvailable c
  | .version c => (fun _ => ()) <$> Client.version c
  | .run c source => (fun _ => ()) <$> Client.run c source
  | .parse c source => (fun _ => ()) <$> Client.parse c source
  | .parseCancellable c source cancel => (fun _ => ()) <$> Client.parseCancellable c source cancel
  | .parseStatement c fragment => (fun _ => ()) <$> Client.parseStatement c fragment
  | .parseMany c sources => (fun _ => ()) <$> Client.parseMany c sources

-- The part of a call that stands by itself: a check, a question for the version, or one parse.
inductive Task where
  | check (c : Config)
  | ask (c : Config)
  | parse (c : Config) (source : String) (cancel : Option CancelToken)

def Request.tasks : Request → List Task
  | .ensureAvailable c => [.check c]
  | .version c => [.ask c]
  | .run c source | .parse c source => [.parse c source none]
  | .parseCancellable c source cancel => [.parse c source (some cancel)]
  | .parseStatement c fragment => [.parse c (c.grammar.wrap fragment) none]
  | .parseMany c sources => sources.map (.parse c · none)

-- A job whose parser is still to be checked, or what is left of it.
inductive Phase where
  | fresh
  | going (rest : Dialogue Unit)

namespace Task

def config : Task → Config
  | .check c | .ask c | .parse c _ _ => c

def begin : Task → Phase
  | .ask c => .going ((fun _ => ()) <$> probe c)
  | .check _ | .parse _ _ _ => .fresh

-- What is left when the parser was checked.
def resume : Task → Except Failure Unit → Dialogue Unit
  | .check _, _ | .ask _, _ => .done ()
  | .parse c source cancel, answer => (fun _ => ()) <$> Client.attempt c source cancel answer

end Task

structure Job where
  task : Task
  phase : Phase

-- What is written down: a check with the programs that it ran and its answer, or a program that a job
-- ran otherwise.
inductive Event where
  | checked (job : Nat) (task : Task) (runs : List Exchange) (answer : Except Failure Unit)
  | ran (job : Nat) (task : Task) (run : Exchange)

namespace Event

def job : Event → Nat
  | .checked j _ _ _ | .ran j _ _ => j

def task : Event → Task
  | .checked _ t _ _ | .ran _ t _ => t

def runs : Event → List Exchange
  | .checked _ _ rs _ => rs
  | .ran _ _ r => [r]

end Event

-- Jobs go by their position. The last event comes last.
structure World where
  cache : Cache
  jobs : List Job
  events : List Event

namespace World

def start : World := ⟨Cache.empty, [], []⟩

-- A call brings new jobs.
def issue (w : World) (request : Request) : World :=
  { w with jobs := w.jobs ++ request.tasks.map fun task => ⟨task, task.begin⟩ }

-- The job of an event goes on with it.
def advance (w : World) (cache : Cache) (job : Job) (e : Event) : World :=
  ⟨cache, w.jobs.set e.job job, w.events ++ [e]⟩

-- The programs that were run, in order.
def runs (w : World) : List Exchange :=
  w.events.flatMap Event.runs

-- The events of one job.
def trail (w : World) (j : Nat) : List Event :=
  w.events.filter (·.job = j)

-- The runs of the parser on the source of a job.
def parses (w : World) (j : Nat) : List Exchange :=
  ((w.trail j).flatMap Event.runs).filter (·.role = .parse)

end World

-- One step of one job, or a new call. The answers of the programs are open.
inductive Step : World → World → Prop
  | issue (w : World) (request : Request) : Step w (w.issue request)
  | check (w : World) (j : Nat) (task : Task) (runs : List Exchange) (answer : Except Failure Unit)
      (cache : Cache) :
      w.jobs[j]? = some ⟨task, .fresh⟩ →
      Dialogue.Plays ((Client.ensureAvailable task.config).run w.cache) runs (answer, cache) →
      Step w (w.advance cache ⟨task, .going (task.resume answer)⟩ (.checked j task runs answer))
  | run (w : World) (j : Nat) (task : Task) (role : Role) (call : Invocation)
      (next : Answer → Dialogue Unit) (answer : Answer) :
      w.jobs[j]? = some ⟨task, .going (.ask role call next)⟩ →
      Step w (w.advance w.cache ⟨task, .going (next answer)⟩ (.ran j task ⟨role, call, answer⟩))

-- How far a job can have come, with what was written down about it.
inductive Stage (j : Nat) : Job → List Event → Prop
  | fresh (task : Task) : task.begin = .fresh → Stage j ⟨task, .fresh⟩ []
  | checked (c : Config) (runs : List Exchange) (answer : Except Failure Unit) :
      Stage j ⟨.check c, .going (.done ())⟩ [.checked j (.check c) runs answer]
  | asking (c : Config) :
      Stage j ⟨.ask c, .going (.ask .version (probeCall c) fun _ => .done ())⟩ []
  | asked (c : Config) (answer : Answer) :
      Stage j ⟨.ask c, .going (.done ())⟩ [.ran j (.ask c) (probeRun c answer)]
  | refused (c : Config) (source : String) (cancel : Option CancelToken) (runs : List Exchange)
      (failure : Failure) :
      Stage j ⟨.parse c source cancel, .going (.done ())⟩
        [.checked j (.parse c source cancel) runs (.error failure)]
  | cleared (c : Config) (source : String) (cancel : Option CancelToken) (runs : List Exchange) :
      Stage j ⟨.parse c source cancel,
          .going (.ask .parse (Client.parseCall c source cancel) fun _ => .done ())⟩
        [.checked j (.parse c source cancel) runs (.ok ())]
  | parsed (c : Config) (source : String) (cancel : Option CancelToken) (runs : List Exchange)
      (answer : Answer) :
      Stage j ⟨.parse c source cancel, .going (.done ())⟩
        [.checked j (.parse c source cancel) runs (.ok ()),
          .ran j (.parse c source cancel) ⟨.parse, Client.parseCall c source cancel, answer⟩]

-- A check of a key has succeeded.
def Passed (events : List Event) (k : ProbeKey) : Prop :=
  ∃ j task runs expected, .checked j task runs (.ok ()) ∈ events ∧
    task.config.wantedVersion? = some expected ∧ key task.config expected = k

-- What an event can be after those before it.
def Event.Follows (before : List Event) : Event → Prop
  | .checked _ task runs answer =>
      (∀ run ∈ runs, run.role ≠ .parse) ∧
        ∀ expected, task.config.wantedVersion? = some expected →
          Passed before (key task.config expected) → answer = .ok () ∧ runs = []
  | .ran _ task run =>
      run.role = .parse → ∀ expected, task.config.wantedVersion? = some expected →
        ∃ probe ∈ before.flatMap Event.runs, Confirms probe (key task.config expected)

-- The cache sums up the history: a parser is available in it if a run has shown it to be there, and
-- whatever has passed a check is available.
structure Faithful (w : World) : Prop where
  confirmed : ∀ k, w.cache.state? k = some .available → ∃ run ∈ w.runs, Confirms run k
  remembered : ∀ k, Passed w.events k → w.cache.state? k = some .available
  ordered : ∀ before e after, w.events = before ++ e :: after → e.Follows before
  known : ∀ e ∈ w.events, e.job < w.jobs.length
  staged : ∀ j job, w.jobs[j]? = some job → Stage j job (w.trail j)

theorem faithful_start : Faithful World.start where
  confirmed k h := by cases h
  remembered k h := by
    obtain ⟨j, task, runs, expected, hmem, -⟩ := h
    cases hmem
  ordered before e after h := by simp [World.start] at h
  known e h := by cases h
  staged j job h := by simp [World.start] at h

theorem passed_append_iff {events : List Event} {e : Event} {k : ProbeKey} :
    Passed (events ++ [e]) k ↔ Passed events k ∨ Passed [e] k := by
  constructor
  · rintro ⟨j, task, runs, expected, hmem, hkey⟩
    rcases List.mem_append.mp hmem with hmem | hmem
    · exact .inl ⟨j, task, runs, expected, hmem, hkey⟩
    · exact .inr ⟨j, task, runs, expected, hmem, hkey⟩
  · rintro (⟨j, task, runs, expected, hmem, hkey⟩ | ⟨j, task, runs, expected, hmem, hkey⟩)
    · exact ⟨j, task, runs, expected, List.mem_append_left _ hmem, hkey⟩
    · exact ⟨j, task, runs, expected, List.mem_append_right _ hmem, hkey⟩

-- An event of a longer history is one of those before, or the new one.
theorem split_append_singleton {events before after : List Event} {e last : Event}
    (h : events ++ [last] = before ++ e :: after) :
    (before = events ∧ e = last) ∨ ∃ rest, events = before ++ e :: rest := by
  rcases List.eq_nil_or_concat after with rfl | ⟨rest, x, rfl⟩
  · obtain ⟨rfl, hlast⟩ := List.append_inj' h rfl
    cases hlast
    exact .inl ⟨rfl, rfl⟩
  · rw [List.concat_eq_append, ← List.cons_append, ← List.append_assoc] at h
    exact .inr ⟨rest, (List.append_inj' h rfl).1⟩

namespace World

variable {w : World} {cache : Cache} {job : Job} {e : Event} {i : Nat}

theorem jobs_advance_self (w : World) (cache : Cache) (job : Job) (e : Event)
    (h : e.job < w.jobs.length) :
    (w.advance cache job e).jobs[e.job]? = some job := by
  exact List.getElem?_set_self h

theorem jobs_advance_of_ne (h : i ≠ e.job) :
    (w.advance cache job e).jobs[i]? = w.jobs[i]? := by
  exact List.getElem?_set_ne (Ne.symm h)

theorem runs_advance : (w.advance cache job e).runs = w.runs ++ e.runs := by
  simp [runs, advance]

theorem trail_advance_self : (w.advance cache job e).trail e.job = w.trail e.job ++ [e] := by
  simp [trail, advance]

theorem trail_advance_of_ne (h : i ≠ e.job) : (w.advance cache job e).trail i = w.trail i := by
  simp [trail, advance, Ne.symm h]

end World

-- A job goes on with an event.
theorem Faithful.advance {w : World} (h : Faithful w) (cache : Cache) (job : Job) (e : Event)
    (hjob : e.job < w.jobs.length) (hfollows : e.Follows w.events)
    (hstage : Stage e.job job (w.trail e.job ++ [e]))
    (hconfirmed : ∀ k, cache.state? k = some .available → ∃ run ∈ w.runs ++ e.runs, Confirms run k)
    (hremembered : ∀ k, Passed (w.events ++ [e]) k → cache.state? k = some .available) :
    Faithful (w.advance cache job e) where
  confirmed k hk := by
    rw [World.runs_advance]
    exact hconfirmed k hk
  remembered := hremembered
  ordered before e' after hsplit := by
    rcases split_append_singleton hsplit with ⟨rfl, rfl⟩ | ⟨rest, hrest⟩
    · exact hfollows
    · exact h.ordered before e' rest hrest
  known e' he' := by
    simp only [World.advance, List.length_set]
    rcases List.mem_append.mp he' with hold | hnew
    · exact h.known e' hold
    · rw [List.mem_singleton.mp hnew]
      exact hjob
  staged i job' hi := by
    by_cases hij : i = e.job
    · subst hij
      rw [w.jobs_advance_self cache job e hjob] at hi
      cases hi
      rw [World.trail_advance_self]
      exact hstage
    · rw [World.jobs_advance_of_ne hij] at hi
      rw [World.trail_advance_of_ne hij]
      exact h.staged i job' hi

theorem stage_begin (j : Nat) (task : Task) : Stage j ⟨task, task.begin⟩ [] := by
  cases task with
  | check c => exact .fresh (.check c) rfl
  | ask c => exact .asking c
  | parse c source cancel => exact .fresh (.parse c source cancel) rfl

theorem stage_resume (j : Nat) {task : Task} (hbegin : task.begin = .fresh) (runs : List Exchange)
    (answer : Except Failure Unit) :
    Stage j ⟨task, .going (task.resume answer)⟩ [.checked j task runs answer] := by
  cases task with
  | check c => exact .checked c runs answer
  | ask c => cases hbegin
  | parse c source cancel =>
      cases answer with
      | ok _ => exact .cleared c source cancel runs
      | error failure => exact .refused c source cancel runs failure

-- Nothing was written down about a job that does not exist.
theorem Faithful.trail_eq_nil {w : World} (h : Faithful w) {j : Nat} (hj : w.jobs[j]? = none) :
    w.trail j = [] := by
  refine List.filter_eq_nil_iff.mpr ?_
  intro e he
  have hknown := h.known e he
  have hlength := List.getElem?_eq_none_iff.mp hj
  simp only [decide_eq_true_eq]
  omega

theorem step_issue {w : World} (h : Faithful w) (request : Request) :
    Faithful (w.issue request) where
  confirmed := h.confirmed
  remembered := h.remembered
  ordered := h.ordered
  known e he := by
    have hold := h.known e he
    simp only [World.issue, List.length_append]
    omega
  staged j job hj := by
    change Stage j job (w.trail j)
    rw [World.issue] at hj
    by_cases hlt : j < w.jobs.length
    · rw [List.getElem?_append_left hlt] at hj
      exact h.staged j job hj
    · rw [List.getElem?_append_right (Nat.le_of_not_lt hlt)] at hj
      obtain ⟨task, -, rfl⟩ := List.mem_map.mp (List.mem_of_getElem? hj)
      rw [h.trail_eq_nil (List.getElem?_eq_none (Nat.le_of_not_lt hlt))]
      exact stage_begin j task

theorem step_check {w : World} (h : Faithful w) {j : Nat} {task : Task} {runs : List Exchange}
    {answer : Except Failure Unit} {cache : Cache} (hj : w.jobs[j]? = some ⟨task, .fresh⟩)
    (hplays : Dialogue.Plays ((ensure task.config).run w.cache) runs (answer, cache)) :
    Faithful (w.advance cache ⟨task, .going (task.resume answer)⟩
      (.checked j task runs answer)) := by
  have hlength : j < w.jobs.length := (List.getElem?_eq_some_iff.mp hj).1
  refine h.advance cache _ (.checked j task runs answer) hlength ⟨?_, ?_⟩ ?_ ?_ ?_
  · exact ensure_role_ne_parse hplays
  · intro expected hwanted hpassed
    exact ensure_of_available hwanted hplays (h.remembered _ hpassed)
  · have hstage := h.staged j _ hj
    change Stage j _ (w.trail j ++ _)
    generalize w.trail j = trail at hstage ⊢
    cases hstage with
    | fresh _ hbegin => exact stage_resume j hbegin runs answer
  · intro k hk
    rcases ensure_confirmed hplays hk with hold | ⟨run, hrun, hconfirms⟩
    · obtain ⟨run, hrun, hconfirms⟩ := h.confirmed k hold
      exact ⟨run, List.mem_append_left _ hrun, hconfirms⟩
    · exact ⟨run, List.mem_append_right _ hrun, hconfirms⟩
  · intro k hk
    rcases passed_append_iff.mp hk with hold | ⟨_, _, _, expected, hmem, hwanted, rfl⟩
    · exact ensure_keeps hplays (h.remembered k hold)
    · cases List.mem_singleton.mp hmem
      exact ensure_remembers hwanted hplays

theorem step_run {w : World} (h : Faithful w) {j : Nat} {task : Task} {role : Role}
    {call : Invocation} {next : Answer → Dialogue Unit}
    (hj : w.jobs[j]? = some ⟨task, .going (.ask role call next)⟩) (answer : Answer) :
    Faithful (w.advance w.cache ⟨task, .going (next answer)⟩
      (.ran j task ⟨role, call, answer⟩)) := by
  have hlength : j < w.jobs.length := (List.getElem?_eq_some_iff.mp hj).1
  have hstage := h.staged j _ hj
  have hmem : ∀ e ∈ w.trail j, e ∈ w.events := fun e he => (List.mem_filter.mp he).1
  refine h.advance w.cache _ (.ran j task ⟨role, call, answer⟩) hlength ?_ ?_ ?_ ?_
  · intro hrole expected hwanted
    dsimp only at hrole
    subst hrole
    -- Only a parse that was cleared runs the parser, and what cleared it is remembered.
    have hpassed : Passed w.events (key task.config expected) := by
      generalize w.trail j = trail at hstage hmem
      cases hstage with
      | cleared c source cancel runs =>
          exact ⟨j, .parse c source cancel, runs, expected, hmem _ (by simp), hwanted, rfl⟩
    exact h.confirmed _ (h.remembered _ hpassed)
  · change Stage j _ (w.trail j ++ _)
    generalize w.trail j = trail at hstage ⊢
    cases hstage with
    | asking c => exact .asked c answer
    | cleared c source cancel runs => exact .parsed c source cancel runs answer
  · intro k hk
    obtain ⟨run, hrun, hconfirms⟩ := h.confirmed k hk
    exact ⟨run, List.mem_append_left _ hrun, hconfirms⟩
  · intro k hk
    rcases passed_append_iff.mp hk with hold | ⟨_, _, _, _, hran, -⟩
    · exact h.remembered k hold
    · cases List.mem_singleton.mp hran

theorem step_faithful {w w' : World} (h : Faithful w) (hstep : Step w w') : Faithful w' := by
  cases hstep with
  | issue request => exact step_issue h request
  | check j task runs answer cache hj hplays => exact step_check h hj hplays
  | run j task role call next answer hj => exact step_run h hj answer

theorem run_faithful {w w' : World} (h : Faithful w) (hrun : Relation.ReflTransGen Step w w') :
    Faithful w' := by
  induction hrun with
  | refl => exact h
  | tail _ hstep ih => exact step_faithful ih hstep

def Task.session : Task → Session Unit
  | .check c => (fun _ => ()) <$> Client.ensureAvailable c
  | .ask c => (fun _ => ()) <$> Client.version c
  | .parse c source cancel => (fun _ => ()) <$> Client.invoke c source cancel

theorem discard_parseWith (c : Config) (source : String) (cancel : Option CancelToken) :
    (fun _ => ()) <$> Client.parseWith c source cancel = Task.session (.parse c source cancel) := by
  simp [Task.session, Client.parseWith]

-- A call does its tasks one after the other.
theorem session_eq_forM (request : Request) :
    request.session = request.tasks.forM Task.session := by
  cases request with
  | ensureAvailable c => simp [Request.session, Request.tasks, Task.session]
  | version c => simp [Request.session, Request.tasks, Task.session]
  | run c source => simp [Request.session, Request.tasks, Task.session, Client.run]
  | parse c source =>
      simp [Request.session, Request.tasks, Client.parse, discard_parseWith]
  | parseCancellable c source cancel =>
      simp [Request.session, Request.tasks, Client.parseCancellable, discard_parseWith]
  | parseStatement c fragment =>
      simp [Request.session, Request.tasks, Client.parseStatement, Client.parse, discard_parseWith]
  | parseMany c sources =>
      simp only [Request.session, Request.tasks, Client.parseMany]
      induction sources with
      | nil => simp
      | cons source sources ih =>
          calc (fun _ => ()) <$> (source :: sources).mapM (Client.parse c)
              = (do
                  (fun _ => ()) <$> Client.parseWith c source none
                  (fun _ => ()) <$> sources.mapM (Client.parse c)) := by simp [Client.parse]
            _ = (do
                  Task.session (.parse c source none)
                  (sources.map (Task.parse c · none)).forM Task.session) := by
                rw [discard_parseWith, ih]
            _ = ((source :: sources).map (Task.parse c · none)).forM Task.session := by simp

-- A task that begins with a check goes on with the answer, and the cache stays as the check left it.
theorem session_run_of_fresh {task : Task} (hbegin : task.begin = .fresh) (κ : Cache) :
    task.session.run κ = (ensure task.config).run κ >>= fun checked =>
      task.resume checked.1 >>= fun _ => .done ((), checked.2) := by
  cases task with
  | ask c => cases hbegin
  | check c => rfl
  | parse c source cancel =>
      simp only [Task.session, Task.resume, Task.config, Client.invoke, Client.ensureAvailable,
        StateT.run_bind, StateT.run_monadLift, map_eq_pure_bind, bind_assoc]
      rfl

theorem session_run_of_ask (c : Config) (κ : Cache) :
    (Task.ask c).session.run κ = ((fun _ => ()) <$> probe c) >>= fun _ => .done ((), κ) := by
  simp only [Task.session, Client.version, map_eq_pure_bind, StateT.run_bind,
    StateT.run_monadLift, bind_assoc]
  rfl

-- Steps that work on one job only.
structure Serves (w : World) (j : Nat) (runs : List Exchange) (cache : Cache) (w' : World) :
    Prop where
  steps : Relation.ReflTransGen Step w w'
  cache_eq : w'.cache = cache
  runs_eq : w'.runs = w.runs ++ runs
  others : ∀ i, i ≠ j → w'.jobs[i]? = w.jobs[i]?

-- The first of these steps is one with an event.
theorem Serves.head {w w' : World} {cache cache' : Cache} {job : Job} {e : Event}
    {runs : List Exchange} (hstep : Step w (w.advance cache job e))
    (h : Serves (w.advance cache job e) e.job runs cache' w') :
    Serves w e.job (e.runs ++ runs) cache' w' where
  steps := .head hstep h.steps
  cache_eq := h.cache_eq
  runs_eq := by rw [h.runs_eq, World.runs_advance, List.append_assoc]
  others i hi := by rw [h.others i hi, World.jobs_advance_of_ne hi]

-- A job can be brought to its end.
theorem serves_going {w : World} {j : Nat} {task : Task} {d : Dialogue Unit} {runs : List Exchange}
    (hj : w.jobs[j]? = some ⟨task, .going d⟩) (hplays : Dialogue.Plays d runs ()) :
    ∃ w', Serves w j runs w.cache w' := by
  induction d generalizing w runs with
  | done x =>
      obtain ⟨rfl, -⟩ := Dialogue.plays_done_iff.mp hplays
      exact ⟨w, .refl, rfl, by simp, fun _ _ => rfl⟩
  | ask role call next ih =>
      obtain ⟨answer, rest, rfl, hrest⟩ := Dialogue.plays_ask_iff.mp hplays
      have hlength : j < w.jobs.length := (List.getElem?_eq_some_iff.mp hj).1
      have hstep := Step.run w j task role call next answer hj
      have hnext := w.jobs_advance_self w.cache ⟨task, .going (next answer)⟩
        (.ran j task ⟨role, call, answer⟩) hlength
      obtain ⟨w', hserves⟩ := ih answer hnext hrest
      exact ⟨w', hserves.head hstep⟩

theorem serves_begin {w : World} {j : Nat} {task : Task} {runs : List Exchange} {cache : Cache}
    (hj : w.jobs[j]? = some ⟨task, task.begin⟩)
    (hplays : Dialogue.Plays (task.session.run w.cache) runs ((), cache)) :
    ∃ w', Serves w j runs cache w' := by
  cases hbegin : task.begin with
  | going rest =>
      cases task with
      | check c => cases hbegin
      | parse c source cancel => cases hbegin
      | ask c =>
          rw [session_run_of_ask, Dialogue.plays_bind_iff] at hplays
          obtain ⟨asked, _, last, rfl, hprobe, hdone⟩ := hplays
          obtain ⟨rfl, ⟨⟩⟩ := Dialogue.plays_done_iff.mp hdone
          rw [List.append_nil]
          exact serves_going hj hprobe
  | fresh =>
      rw [session_run_of_fresh hbegin, Dialogue.plays_bind_iff] at hplays
      obtain ⟨checked, ⟨answer, after⟩, _, rfl, hensure, hplays⟩ := hplays
      obtain ⟨rest, _, last, rfl, hresume, hdone⟩ := Dialogue.plays_bind_iff.mp hplays
      obtain ⟨rfl, ⟨⟩⟩ := Dialogue.plays_done_iff.mp hdone
      rw [hbegin] at hj
      have hlength : j < w.jobs.length := (List.getElem?_eq_some_iff.mp hj).1
      have hstep := Step.check w j task checked answer after hj hensure
      have hnext := w.jobs_advance_self after ⟨task, .going (task.resume answer)⟩
        (.checked j task checked answer) hlength
      obtain ⟨w', hserves⟩ := serves_going hnext hresume
      rw [List.append_nil]
      exact ⟨w', hserves.head hstep⟩

theorem reaches_tasks {w : World} {base : Nat} {tasks : List Task} {runs : List Exchange}
    {cache : Cache}
    (hjobs : ∀ i task, tasks[i]? = some task → w.jobs[base + i]? = some ⟨task, task.begin⟩)
    (hplays : Dialogue.Plays ((tasks.forM Task.session).run w.cache) runs ((), cache)) :
    ∃ w', Relation.ReflTransGen Step w w' ∧ w'.cache = cache ∧ w'.runs = w.runs ++ runs := by
  induction tasks generalizing w base runs with
  | nil =>
      obtain ⟨rfl, ⟨⟩⟩ := Dialogue.plays_done_iff.mp hplays
      exact ⟨w, .refl, rfl, by simp⟩
  | cons task tasks ih =>
      obtain ⟨first, ⟨_, after⟩, rest, rfl, hfirst, hrest⟩ := Dialogue.plays_bind_iff.mp hplays
      obtain ⟨w₁, hserves⟩ := serves_begin (hjobs 0 task rfl) hfirst
      rw [← hserves.cache_eq] at hrest
      -- The jobs that follow are still as they were.
      have hlater : ∀ i task', tasks[i]? = some task' →
          w₁.jobs[base + 1 + i]? = some ⟨task', task'.begin⟩ := by
        intro i task' htask
        rw [hserves.others (base + 1 + i) (by omega), Nat.add_assoc, Nat.add_comm 1 i]
        exact hjobs (i + 1) task' htask
      obtain ⟨w', hsteps, hcache, hruns⟩ := ih hlater hrest
      refine ⟨w', hserves.steps.trans hsteps, hcache, ?_⟩
      rw [hruns, hserves.runs_eq, List.append_assoc]

-- Whatever call a client makes, and whatever the programs answer, there are steps that do the same.
theorem reaches_session (w : World) (request : Request) {runs : List Exchange} {cache : Cache}
    (hplays : Dialogue.Plays (request.session.run w.cache) runs ((), cache)) :
    ∃ w', Relation.ReflTransGen Step w w' ∧ w'.cache = cache ∧ w'.runs = w.runs ++ runs := by
  rw [session_eq_forM] at hplays
  have hjobs : ∀ i task, request.tasks[i]? = some task →
      (w.issue request).jobs[w.jobs.length + i]? = some ⟨task, task.begin⟩ := by
    intro i task htask
    rw [World.issue, List.getElem?_append_right (Nat.le_add_right _ _), Nat.add_sub_cancel_left,
      List.getElem?_map, htask]
    rfl
  obtain ⟨w', hsteps, hcache, hruns⟩ := reaches_tasks hjobs hplays
  exact ⟨w', .head (.issue w request) hsteps, hcache, hruns⟩

namespace Faithful

variable {w : World}

theorem follows_of_mem (h : Faithful w) {e : Event} (he : e ∈ w.events) :
    ∃ before, e.Follows before := by
  obtain ⟨before, after, hsplit⟩ := List.append_of_mem he
  exact ⟨before, h.ordered before e after hsplit⟩

-- A job has not run its parser, or it is a parse that passed its check and ran the parser once.
theorem parses_cases (h : Faithful w) (j : Nat) :
    w.parses j = [] ∨
      ∃ c source cancel phase runs answer, w.jobs[j]? = some ⟨.parse c source cancel, phase⟩ ∧
        w.trail j = [.checked j (.parse c source cancel) runs (.ok ()),
          .ran j (.parse c source cancel) ⟨.parse, Client.parseCall c source cancel, answer⟩] ∧
        w.parses j = [⟨.parse, Client.parseCall c source cancel, answer⟩] := by
  have hquiet : ∀ task runs answer, .checked j task runs answer ∈ w.trail j →
      runs.filter (·.role = .parse) = [] := by
    intro task runs answer hmem
    obtain ⟨before, hfollows⟩ := h.follows_of_mem (List.mem_filter.mp hmem).1
    refine List.filter_eq_nil_iff.mpr ?_
    intro run hrun
    simpa using hfollows.1 run hrun
  rw [World.parses]
  cases hj : w.jobs[j]? with
  | none => exact .inl (by simp [h.trail_eq_nil hj])
  | some job =>
      have hstage := h.staged j job hj
      generalize w.trail j = trail at hstage hquiet ⊢
      cases hstage with
      | fresh | asking => exact .inl rfl
      | asked c answer => exact .inl rfl
      | checked c runs answer =>
          have hnone := hquiet _ _ _ List.mem_cons_self
          exact .inl (by simpa [Event.runs] using hnone)
      | refused c source cancel runs failure =>
          have hnone := hquiet _ _ _ List.mem_cons_self
          exact .inl (by simpa [Event.runs] using hnone)
      | cleared c source cancel runs =>
          have hnone := hquiet _ _ _ List.mem_cons_self
          exact .inl (by simpa [Event.runs] using hnone)
      | parsed c source cancel runs answer =>
          have hnone := hquiet _ _ _ List.mem_cons_self
          refine .inr ⟨c, source, cancel, _, runs, answer, rfl, rfl, ?_⟩
          simp [Event.runs, hnone]

end Faithful

-- What holds of the history of a process.
structure Gated (w : World) : Prop where
  -- Before a parser whose version is checked parses anything, a run has shown it to be there.
  confirmed : ∀ before e after run expected, w.events = before ++ e :: after → run ∈ e.runs →
    run.role = .parse → e.task.config.wantedVersion? = some expected →
    ∃ probe ∈ before.flatMap Event.runs, Confirms probe (key e.task.config expected)
  -- A job whose check fails does not run the parser.
  refused : ∀ j task runs failure, .checked j task runs (.error failure) ∈ w.events → w.parses j = []
  -- A job runs the parser at most once, without arguments and on the bytes of its source.
  once : ∀ j, (w.parses j).length ≤ 1 ∧ ∀ run ∈ w.parses j, ∃ c source cancel phase,
    w.jobs[j]? = some ⟨.parse c source cancel, phase⟩ ∧ run.call.program = c.binary ∧
      run.call.arguments = [] ∧ run.call.stdin = source.toUTF8.data.toList
  -- What has passed a check passes every later one, and no program is run for it.
  lasting : ∀ before j task runs answer after expected,
    w.events = before ++ .checked j task runs answer :: after →
    task.config.wantedVersion? = some expected → Passed before (key task.config expected) →
    answer = .ok () ∧ runs = []
  -- Every call that a client can make, with any answers of the programs, is made of such steps.
  complete : ∀ (request : Request) runs cache,
    Dialogue.Plays (request.session.run w.cache) runs ((), cache) →
    ∃ w', Relation.ReflTransGen Step w w' ∧ w'.cache = cache ∧ w'.runs = w.runs ++ runs

-- Whatever calls the clients make, in whatever order their jobs go on and whatever the programs answer.
theorem run_gated (w : World) (hrun : Relation.ReflTransGen Step World.start w) : Gated w := by
  have h := run_faithful faithful_start hrun
  refine ⟨?_, ?_, ?_, ?_, ?_⟩
  · intro before e after run expected hsplit hmem hrole hwanted
    have hfollows := h.ordered before e after hsplit
    cases e with
    | checked j task runs answer => exact absurd hrole (hfollows.1 run hmem)
    | ran j task only =>
        rw [List.mem_singleton.mp hmem] at hrole
        exact hfollows hrole expected hwanted
  · intro j task runs failure hmem
    rcases h.parses_cases j with hnone | ⟨c, source, cancel, phase, runs', answer, -, htrail, -⟩
    · exact hnone
    · have hfailed : .checked j task runs (.error failure) ∈ w.trail j :=
        List.mem_filter.mpr ⟨hmem, by simp [Event.job]⟩
      rw [htrail] at hfailed
      simp at hfailed
  · intro j
    rcases h.parses_cases j with hnone | ⟨c, source, cancel, phase, runs, answer, hj, -, hparses⟩
    · simp [hnone]
    · rw [hparses]
      refine ⟨Nat.le_refl 1, ?_⟩
      intro run hmem
      rw [List.mem_singleton.mp hmem]
      exact ⟨c, source, cancel, phase, hj, rfl, rfl, Utf8.encode_eq_toUTF8 source⟩
  · intro before j task runs answer after expected hsplit hwanted hpassed
    exact (h.ordered before _ after hsplit).2 expected hwanted hpassed
  · intro request runs cache hplays
    exact reaches_session w request hplays

def sampleConfig : Config :=
  ⟨"Tool", "bin/tool", "--version", some "1.0", [], none, none, 600, true,
    ⟨"sample", ⟨[(1, "ROOT")]⟩, ⟨[]⟩, 1, "", ";", []⟩⟩

-- The version, and a line break.
def sampleAnswer : Answer := .ok ⟨some 0, [0x31, 0x2E, 0x30, 0x0A], []⟩

def sampleTask (source : String) : Task := .parse sampleConfig source none

def sampleCache : Cache := Cache.empty.store (key sampleConfig "1.0") (some .available)

-- Two sources side by side: the first check asks the parser, the second one does not, and the source
-- that was checked last is parsed first.
theorem run_gated_sample :
    ∃ w, Relation.ReflTransGen Step World.start w ∧
      w.runs.map (·.role) = [.version, .parse, .parse] ∧ (w.parses 1).length = 1 ∧ Gated w := by
  have hreported : reported? sampleAnswer = some "1.0" := by decide
  have hasked : Dialogue.Plays ((ensure sampleConfig).run Cache.empty)
      [probeRun sampleConfig sampleAnswer] (.ok (), sampleCache) :=
    (plays_ensure_iff rfl).mpr ⟨_, .found sampleAnswer (by decide) hreported, rfl⟩
  have hknown : Dialogue.Plays ((ensure sampleConfig).run sampleCache) []
      (.ok (), sampleCache.store (key sampleConfig "1.0") (some .available)) :=
    (plays_ensure_iff rfl).mpr ⟨_, .known (by decide), rfl⟩
  have issued := Relation.ReflTransGen.single
    (Step.issue World.start (.parseMany sampleConfig ["a", "b"]))
  have checked := issued.tail (Step.check _ 0 (sampleTask "a") _ _ _ rfl hasked)
  have cleared := checked.tail (Step.check _ 1 (sampleTask "b") _ _ _ rfl hknown)
  have started := cleared.tail (Step.run _ 1 (sampleTask "b") _ _ _ sampleAnswer rfl)
  have parsed := started.tail (Step.run _ 0 (sampleTask "a") _ _ _ sampleAnswer rfl)
  exact ⟨_, parsed, rfl, rfl, run_gated _ parsed⟩

end ExternalParser.History
