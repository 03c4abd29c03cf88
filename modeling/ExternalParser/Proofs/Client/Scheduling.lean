import ExternalParser.Proofs.Availability.Settling
import ExternalParser.Proofs.Client.Parse
import Mathlib.Data.List.Basic

namespace ExternalParser

namespace Dialogue

variable {α : Type}

-- However it is answered, the dialogue runs no more than so many programs.
def Within (d : Dialogue α) (limit : Nat) : Prop :=
  ∀ runs x, Plays d runs x → runs.length ≤ limit

theorem exists_plays (d : Dialogue α) : ∃ runs x, Plays d runs x := by
  obtain ⟨runs, h⟩ := answeredBy_plays (fun s call => (.error (.notFound call.program), s)) d ()
  exact ⟨runs, _, h⟩

theorem Within.next {role : Role} {call : Invocation} {next : Answer → Dialogue α} {limit : Nat}
    (h : (Dialogue.ask role call next).Within limit) (answer : Answer) :
    ∃ less, limit = less + 1 ∧ (next answer).Within less := by
  have hlonger : ∀ runs x, Plays (next answer) runs x → runs.length + 1 ≤ limit :=
    fun runs x hplays => h _ x (.ask role call next answer runs x hplays)
  obtain ⟨runs, x, hplays⟩ := exists_plays (next answer)
  have hlimit := hlonger runs x hplays
  refine ⟨limit - 1, by omega, ?_⟩
  intro runs x hplays
  have hlength := hlonger runs x hplays
  omega

end Dialogue

namespace Availability

theorem Course.length_le {c : Config} {expected : String} {previous state : Option ProbeState}
    {runs : List Exchange} {answer : Except Failure Unit}
    (h : Course c expected previous runs answer state) : runs.length ≤ 3 := by
  cases h <;> simp

theorem ensure_within (c : Config) (κ : Cache) : ((ensure c).run κ).Within 3 := by
  rintro runs ⟨answer, after⟩ hplays
  cases hwanted : c.wantedVersion? with
  | none =>
      obtain ⟨rfl, -⟩ := ensure_unwanted hwanted hplays
      simp
  | some expected =>
      obtain ⟨state, hcourse, -⟩ := (plays_ensure_iff hwanted).mp hplays
      exact hcourse.length_le

end Availability

namespace Scheduling

open Availability Client

-- A parse before its check, in it, and after it.
inductive Phase where
  | fresh
  -- It holds the slot, and this is left of its check.
  | checking (rest : Dialogue (Except Failure Unit × Cache))
  | going (rest : Dialogue (Except Failure Tree))

def Phase.isChecking : Phase → Bool
  | .checking _ => true
  | .fresh | .going _ => false

structure Job where
  source : String
  phase : Phase

def Job.fresh (source : String) : Job := ⟨source, .fresh⟩

def Job.result? (job : Job) : Option (Except Failure Tree) :=
  match job.phase with
  | .going (.done result) => some result
  | _ => none

structure World where
  cache : Cache
  builds : Builds
  jobs : List Job

namespace World

def start (κ : Cache) (b : Builds) (sources : List String) : World :=
  ⟨κ, b, sources.map Job.fresh⟩

def put (w : World) (j : Nat) (job : Job) : World :=
  { w with jobs := w.jobs.set j job }

def results (w : World) : List (Option (Except Failure Tree)) :=
  w.jobs.map Job.result?

end World

theorem map_source_set {jobs : List Job} {j : Nat} {source : String} {old : Phase} (new : Phase)
    (hj : jobs[j]? = some ⟨source, old⟩) :
    (jobs.set j ⟨source, new⟩).map Job.source = jobs.map Job.source := by
  have hsource : (jobs.map Job.source)[j]? = some source := by
    rw [List.getElem?_map, hj]
    rfl
  obtain ⟨hlt, hget⟩ := List.getElem?_eq_some_iff.mp hsource
  rw [List.map_set, ← hget, List.set_getElem_self]

theorem getElem?_set_cases {jobs : List Job} {i j : Nat} {new job : Job}
    (h : (jobs.set j new)[i]? = some job) : (i = j ∧ job = new) ∨ (i ≠ j ∧ jobs[i]? = some job) := by
  rw [List.getElem?_set] at h
  by_cases hij : j = i
  · rw [if_pos hij] at h
    split at h
    · exact .inl ⟨hij.symm, (Option.some.inj h).symm⟩
    · cases h
  · rw [if_neg hij] at h
    exact .inr ⟨Ne.symm hij, h⟩

-- One turn of a parse: it takes the slot, runs a program of its check, gives the slot back with what
-- is to be remembered, or runs the parser. The slot is needed only where there is something to check.
inductive Turn (m : Behaviour) (c : Config) (w : World) (j : Nat) : World → Prop
  | lock (source : String) : w.jobs[j]? = some ⟨source, .fresh⟩ →
      (c.wantedVersion? ≠ none → ∀ job ∈ w.jobs, job.phase.isChecking = false) →
      Turn m c w j (w.put j ⟨source, .checking ((ensure c).run w.cache)⟩)
  | check (source : String) (role : Role) (call : Invocation)
      (next : Answer → Dialogue (Except Failure Unit × Cache)) :
      w.jobs[j]? = some ⟨source, .checking (.ask role call next)⟩ →
      Turn m c w j { w.put j ⟨source, .checking (next (m w.builds.succeeded call))⟩ with
        builds := w.builds.after role (m w.builds.succeeded call) }
  | unlock (source : String) (answer : Except Failure Unit) (after : Cache) :
      w.jobs[j]? = some ⟨source, .checking (.done (answer, after))⟩ →
      Turn m c w j { w.put j ⟨source, .going (remainder c source none answer)⟩ with cache := after }
  | parse (source : String) (role : Role) (call : Invocation)
      (next : Answer → Dialogue (Except Failure Tree)) :
      w.jobs[j]? = some ⟨source, .going (.ask role call next)⟩ →
      Turn m c w j { w.put j ⟨source, .going (next (m w.builds.succeeded call))⟩ with
        builds := w.builds.after role (m w.builds.succeeded call) }

-- The world after the parses took their turns in an order.
inductive Follows (m : Behaviour) (c : Config) (w : World) : List Nat → World → Prop
  | nil : Follows m c w [] w
  | snoc {order : List Nat} {w' w'' : World} (j : Nat) : Follows m c w order w' →
      Turn m c w' j w'' → Follows m c w (order ++ [j]) w''

-- Nobody waits for ever: as long as a parse has no result, there is one that can take its turn.
theorem exists_turn_or_done (m : Behaviour) (c : Config) (w : World) :
    (∃ j w', Turn m c w j w') ∨ ∀ job ∈ w.jobs, job.result? ≠ none := by
  by_cases hchecking : ∃ job ∈ w.jobs, job.phase.isChecking
  · obtain ⟨⟨source, phase⟩, hmem, hphase⟩ := hchecking
    obtain ⟨j, hj⟩ := List.mem_iff_getElem?.mp hmem
    rcases phase with _ | (⟨answer, after⟩ | ⟨role, call, next⟩) | _
    · cases hphase
    · exact .inl ⟨j, _, .unlock source answer after hj⟩
    · exact .inl ⟨j, _, .check source role call next hj⟩
    · cases hphase
  have hfree : ∀ job ∈ w.jobs, job.phase.isChecking = false := by
    intro job hmem
    exact Bool.eq_false_iff.mpr fun hphase => hchecking ⟨job, hmem, hphase⟩
  by_cases hdone : ∀ job ∈ w.jobs, job.result? ≠ none
  · exact .inr hdone
  · simp only [not_forall] at hdone
    obtain ⟨⟨source, phase⟩, hmem, hnone⟩ := hdone
    obtain ⟨j, hj⟩ := List.mem_iff_getElem?.mp hmem
    rcases phase with _ | _ | (result | ⟨role, call, next⟩)
    · exact .inl ⟨j, _, .lock source hj fun _ => hfree⟩
    · exact absurd (hfree _ hmem) (by simp [Phase.isChecking])
    · exact absurd (by simp [Job.result?]) hnone
    · exact .inl ⟨j, _, .parse source role call next hj⟩

-- Where a parse can be after so many turns: the slot is taken and given back, the check runs three
-- programs at most, and the parser is run once.
def Spent (turns : Nat) : Option Job → Prop
  | none | some ⟨_, .fresh⟩ => turns = 0
  | some ⟨_, .checking rest⟩ => ∃ limit, turns + limit ≤ 4 ∧ rest.Within limit
  | some ⟨_, .going rest⟩ => ∃ limit, turns + limit ≤ 6 ∧ rest.Within limit

theorem Spent.le {turns : Nat} {job? : Option Job} (h : Spent turns job?) : turns ≤ 6 := by
  rcases job? with _ | ⟨source, _ | rest | rest⟩
  · have hzero : turns = 0 := h
    omega
  · have hzero : turns = 0 := h
    omega
  · obtain ⟨limit, hsum, -⟩ := h
    omega
  · obtain ⟨limit, hsum, -⟩ := h
    omega

theorem remainder_within (c : Config) (source : String) (answer : Except Failure Unit) :
    (remainder c source none answer).Within 1 := by
  intro runs result hplays
  cases answer with
  | error failure =>
      obtain ⟨rfl, -⟩ := Dialogue.plays_done_iff.mp hplays
      simp
  | ok _ =>
      obtain ⟨answer, rest, rfl, hdone⟩ := Dialogue.plays_ask_iff.mp hplays
      obtain ⟨rfl, -⟩ := Dialogue.plays_done_iff.mp hdone
      simp

def Counted (order : List Nat) (w : World) : Prop :=
  ∀ j, Spent (order.count j) w.jobs[j]?

theorem counted_start (κ : Cache) (b : Builds) (sources : List String) :
    Counted [] (World.start κ b sources) := by
  intro j
  rw [World.start, List.getElem?_map]
  cases sources[j]? <;> rfl

theorem Counted.put {order : List Nat} {w w' : World} (h : Counted order w) {j : Nat} {old new : Job}
    (hj : w.jobs[j]? = some old) (hjobs : w'.jobs = w.jobs.set j new)
    (hnew : Spent (order.count j + 1) (some new)) : Counted (order ++ [j]) w' := by
  intro i
  rw [hjobs, List.getElem?_set, List.count_append]
  by_cases hij : j = i
  · have hlt : j < w.jobs.length := (List.getElem?_eq_some_iff.mp hj).1
    rw [if_pos hij, if_pos hlt, ← hij, List.count_singleton_self]
    exact hnew
  · rw [if_neg hij, List.count_singleton, if_neg (by simpa using hij)]
    exact h i

theorem turn_counted {m : Behaviour} {c : Config} {order : List Nat} {w w' : World} {j : Nat}
    (h : Counted order w) (hturn : Turn m c w j w') : Counted (order ++ [j]) w' := by
  have hspent := h j
  cases hturn with
  | lock source hj =>
      rw [hj] at hspent
      have hzero : order.count j = 0 := hspent
      exact h.put hj rfl ⟨3, by omega, ensure_within c _⟩
  | check source role call next hj =>
      rw [hj] at hspent
      obtain ⟨limit, hsum, hwithin⟩ := hspent
      obtain ⟨less, rfl, hless⟩ := hwithin.next (m w.builds.succeeded call)
      exact h.put hj rfl ⟨less, by omega, hless⟩
  | unlock source answer after hj =>
      rw [hj] at hspent
      obtain ⟨limit, hsum, -⟩ := hspent
      exact h.put hj rfl ⟨1, by omega, remainder_within c source answer⟩
  | parse source role call next hj =>
      rw [hj] at hspent
      obtain ⟨limit, hsum, hwithin⟩ := hspent
      obtain ⟨less, rfl, hless⟩ := hwithin.next (m w.builds.succeeded call)
      exact h.put hj rfl ⟨less, by omega, hless⟩

theorem follows_counted {m : Behaviour} {c : Config} {κ : Cache} {b : Builds} {sources : List String}
    {order : List Nat} {w : World} (h : Follows m c (World.start κ b sources) order w) :
    Counted order w := by
  induction h with
  | nil => exact counted_start κ b sources
  | snoc j _ hturn ih => exact turn_counted ih hturn

-- What a parse comes to when its check had this answer and nothing is built any more.
def final (m : Behaviour) (c : Config) (b : Builds) (source : String) :
    Except Failure Unit → Except Failure Tree
  | .error failure => .error failure
  | .ok () => outcome c source (m b.succeeded (parseCall c source none))

theorem remainder_under (m : Behaviour) (c : Config) (b : Builds) (source : String)
    (answer : Except Failure Unit) :
    (remainder c source none answer).under m b = (final m c b source answer, b) := by
  cases answer with
  | error failure => rfl
  | ok _ => rfl

-- The answer of the first check, and the one that all later checks have.
structure Forecast (m : Behaviour) (c : Config) (κ : Cache) (b : Builds) where
  opening : Except Failure Unit
  verdict : Except Failure Unit
  cache : Cache
  builds : Builds
  first : ((ensure c).run κ).under m b = ((opening, cache), builds)
  settled : Settled m c cache builds verdict
  alike : blanked verdict = blanked opening
  plain : causeOf? verdict = none

theorem exists_forecast (m : Behaviour) (c : Config) (κ : Cache) (b : Builds) :
    Nonempty (Forecast m c κ b) := by
  obtain ⟨verdict, hsettled, halike, hplain⟩ := ensure_settles m c κ b
  exact ⟨⟨_, verdict, _, _, rfl, hsettled, halike, hplain⟩⟩

namespace Forecast

variable {m : Behaviour} {c : Config} {κ : Cache} {b : Builds} (f : Forecast m c κ b)

-- The answer that a parse gets from its check when the leader came first.
def answer (leader j : Nat) : Except Failure Unit :=
  if j = leader then f.opening else f.verdict

def results (sources : List String) (leader : Nat) : List (Except Failure Tree) :=
  sources.mapIdx fun j source => final m c f.builds source (f.answer leader j)

-- What a parse will come to is decided, whoever takes the next turn.
def Keeps (leader j : Nat) (job : Job) : Prop :=
  match job.phase with
  | .fresh => j ≠ leader
  | .checking rest => j ≠ leader ∧ ∃ after,
      rest.under m f.builds = ((f.verdict, after), f.builds) ∧
        ∀ k, after.state? k = f.cache.state? k
  | .going rest => rest.under m f.builds =
      (final m c f.builds job.source (f.answer leader j), f.builds)

-- The first check is over.
structure Late (sources : List String) (leader : Nat) (w : World) : Prop where
  sources : w.jobs.map Job.source = sources
  states : ∀ k, w.cache.state? k = f.cache.state? k
  builds : w.builds = f.builds
  jobs : ∀ j job, w.jobs[j]? = some job → f.Keeps leader j job

-- How far the parses have come.
inductive Stage (sources : List String) : World → Prop
  | untouched : c.wantedVersion? ≠ none ∨ sources = [] → Stage sources (World.start κ b sources)
  | opening (leader : Nat) (source : String) (rest : Dialogue (Except Failure Unit × Cache))
      (b' : Builds) : c.wantedVersion? ≠ none → sources[leader]? = some source →
      rest.under m b' = ((f.opening, f.cache), f.builds) →
      Stage sources ⟨κ, b', (sources.map Job.fresh).set leader ⟨source, .checking rest⟩⟩
  | late (leader : Nat) (w : World) : sources ≠ [] → f.Late sources leader w → Stage sources w

variable {f} {sources : List String}

theorem Late.put {leader j : Nat} {w w' : World} {source : String} {old new : Phase}
    (h : f.Late sources leader w) (hj : w.jobs[j]? = some ⟨source, old⟩)
    (hjobs : w'.jobs = w.jobs.set j ⟨source, new⟩)
    (hstates : ∀ k, w'.cache.state? k = f.cache.state? k) (hbuilds : w'.builds = f.builds)
    (hnew : f.Keeps leader j ⟨source, new⟩) : f.Late sources leader w' := by
  refine ⟨?_, hstates, hbuilds, ?_⟩
  · rw [hjobs, map_source_set new hj, h.sources]
  · intro i job hi
    rw [hjobs] at hi
    obtain ⟨rfl, rfl⟩ | ⟨-, hi⟩ := getElem?_set_cases hi
    · exact hnew
    · exact h.jobs i job hi

theorem turn_late {leader j : Nat} {w w' : World} (h : f.Late sources leader w)
    (hturn : Turn m c w j w') : f.Late sources leader w' := by
  cases hturn with
  | lock source hj hfree =>
      have hne : j ≠ leader := h.jobs j _ hj
      obtain ⟨after, hunder, hstates⟩ := f.settled.congr h.states
      refine h.put hj rfl h.states h.builds ⟨hne, after, hunder, ?_⟩
      intro k
      rw [hstates k, h.states k]
  | check source role call next hj =>
      obtain ⟨hne, after, hunder, hafter⟩ := h.jobs j _ hj
      obtain ⟨hself, hnext⟩ := Dialogue.under_ask_eq_self hunder
      rw [h.builds]
      exact h.put hj rfl h.states hself ⟨hne, after, hnext, hafter⟩
  | unlock source answer after hj =>
      obtain ⟨hne, after, ⟨⟩, hafter⟩ := h.jobs j _ hj
      refine h.put hj rfl hafter h.builds ?_
      rw [Keeps, answer, if_neg hne]
      exact remainder_under ..
  | parse source role call next hj =>
      obtain ⟨hself, hnext⟩ := Dialogue.under_ask_eq_self (h.jobs j _ hj)
      rw [h.builds]
      exact h.put hj rfl h.states hself hnext

theorem ahead_mem {leader : Nat} {source : String} (ahead : Job)
    (hsource : sources[leader]? = some source) :
    ahead ∈ (sources.map Job.fresh).set leader ahead := by
  refine List.mem_set ?_ ahead
  rw [List.length_map]
  exact (List.getElem?_eq_some_iff.mp hsource).1

theorem getElem?_map_fresh {j : Nat} {job : Job} :
    (sources.map Job.fresh)[j]? = some job ↔
      ∃ source, sources[j]? = some source ∧ Job.fresh source = job := by
  rw [List.getElem?_map, Option.map_eq_some_iff]

-- Where only the leader has begun, a parse is the leader's or has not begun.
theorem job_cases {leader j : Nat} {ahead job : Job}
    (hj : ((sources.map Job.fresh).set leader ahead)[j]? = some job) :
    (j = leader ∧ job = ahead) ∨ (j ≠ leader ∧ ∃ source, job = Job.fresh source) := by
  obtain hleader | ⟨hne, hj⟩ := getElem?_set_cases hj
  · exact .inl hleader
  · obtain ⟨source, -, rfl⟩ := getElem?_map_fresh.mp hj
    exact .inr ⟨hne, source, rfl⟩

theorem map_source_fresh (sources : List String) :
    (sources.map Job.fresh).map Job.source = sources := by
  rw [List.map_map]
  exact List.map_id' sources

theorem late_of_opening {leader : Nat} {source : String} (hsource : sources[leader]? = some source) :
    f.Late sources leader ⟨f.cache, f.builds, (sources.map Job.fresh).set leader
      ⟨source, .going (remainder c source none f.opening)⟩⟩ := by
  refine ⟨?_, fun _ => rfl, rfl, ?_⟩
  · have hfresh : (sources.map Job.fresh)[leader]? = some ⟨source, .fresh⟩ :=
      getElem?_map_fresh.mpr ⟨source, hsource, rfl⟩
    rw [map_source_set _ hfresh, map_source_fresh]
  · intro j job hj
    obtain ⟨rfl, rfl⟩ | ⟨hne, source, rfl⟩ := job_cases hj
    · rw [Keeps, answer, if_pos rfl]
      exact remainder_under ..
    · exact hne

theorem turn_opening {leader j : Nat} {source : String}
    {rest : Dialogue (Except Failure Unit × Cache)} {b' : Builds} {w : World}
    (hwanted : c.wantedVersion? ≠ none) (hsource : sources[leader]? = some source)
    (hrest : rest.under m b' = ((f.opening, f.cache), f.builds))
    (hturn : Turn m c ⟨κ, b', (sources.map Job.fresh).set leader ⟨source, .checking rest⟩⟩ j w) :
    f.Stage sources w := by
  cases hturn with
  | lock own hj hfree =>
      -- The leader holds the slot.
      have hled := hfree hwanted _ (ahead_mem _ hsource)
      cases hled
  | check own role call next hj =>
      obtain ⟨rfl, ⟨⟩⟩ | ⟨-, _, ⟨⟩⟩ := job_cases hj
      rw [World.put, List.set_set]
      exact .opening j source _ _ hwanted hsource hrest
  | unlock own answer after hj =>
      obtain ⟨rfl, ⟨⟩⟩ | ⟨-, _, ⟨⟩⟩ := job_cases hj
      rw [Dialogue.under_done, Prod.mk.injEq, Prod.mk.injEq] at hrest
      obtain ⟨⟨rfl, rfl⟩, rfl⟩ := hrest
      have hne : sources ≠ [] := by
        rintro rfl
        cases hsource
      rw [World.put, List.set_set]
      exact .late j _ hne (late_of_opening hsource)
  | parse own role call next hj =>
      obtain ⟨rfl, ⟨⟩⟩ | ⟨-, _, ⟨⟩⟩ := job_cases hj

theorem turn_stage {j : Nat} {w w' : World} (h : f.Stage sources w) (hturn : Turn m c w j w') :
    f.Stage sources w' := by
  cases h with
  | untouched hwhy =>
      cases hturn with
      | lock source hj hfree =>
          obtain ⟨source, hsource, ⟨⟩⟩ := getElem?_map_fresh.mp hj
          have hwanted : c.wantedVersion? ≠ none := by
            refine hwhy.resolve_right ?_
            rintro rfl
            cases hsource
          exact .opening j source _ b hwanted hsource f.first
      | check source role call next hj =>
          obtain ⟨_, _, ⟨⟩⟩ := getElem?_map_fresh.mp hj
      | unlock source answer after hj =>
          obtain ⟨_, _, ⟨⟩⟩ := getElem?_map_fresh.mp hj
      | parse source role call next hj =>
          obtain ⟨_, _, ⟨⟩⟩ := getElem?_map_fresh.mp hj
  | opening leader source rest b' hwanted hsource hrest =>
      exact turn_opening hwanted hsource hrest hturn
  | late leader _ hne hlate => exact .late leader _ hne (turn_late hlate hturn)

variable (f) in
theorem stage_start (sources : List String) : f.Stage sources (World.start κ b sources) := by
  by_cases hwhy : c.wantedVersion? ≠ none ∨ sources = []
  · exact .untouched hwhy
  -- There is nothing to check, and it does not matter who comes first.
  obtain ⟨hwanted, hne⟩ := not_or.mp hwhy
  have hfirst := f.first
  rw [ensure_under_unwanted (Decidable.not_not.mp hwanted), Prod.mk.injEq, Prod.mk.injEq] at hfirst
  obtain ⟨⟨-, hcache⟩, hbuilds⟩ := hfirst
  refine .late sources.length _ hne ⟨?_, ?_, hbuilds, ?_⟩
  · exact map_source_fresh sources
  · intro k
    rw [← hcache]
    rfl
  · intro j job hj
    obtain ⟨source, hsource, rfl⟩ := getElem?_map_fresh.mp hj
    have hlt : j < sources.length := (List.getElem?_eq_some_iff.mp hsource).1
    exact Nat.ne_of_lt hlt

variable (f) in
theorem follows_stage {order : List Nat} {w : World}
    (h : Follows m c (World.start κ b sources) order w) : f.Stage sources w := by
  induction h with
  | nil => exact f.stage_start sources
  | snoc j _ hturn ih => exact turn_stage ih hturn

theorem Late.results_eq {leader : Nat} {w : World} (h : f.Late sources leader w)
    (hdone : ∀ job ∈ w.jobs, job.result? ≠ none) :
    w.results = (f.results sources leader).map some := by
  refine List.ext_getElem? ?_
  intro j
  rw [World.results, results, List.getElem?_map, List.getElem?_map, List.getElem?_mapIdx, ← h.sources,
    List.getElem?_map]
  cases hj : w.jobs[j]? with
  | none => rfl
  | some job =>
      have hkeeps := h.jobs j job hj
      have hresult := hdone job (List.mem_of_getElem? hj)
      obtain ⟨source, _ | _ | (result | _)⟩ := job
      · exact absurd rfl hresult
      · exact absurd rfl hresult
      · have hfinal : result = final m c f.builds source (f.answer leader j) :=
          congrArg Prod.fst hkeeps
        rw [hfinal]
        rfl
      · exact absurd rfl hresult

theorem blanked_final {answer other : Except Failure Unit} (h : blanked answer = blanked other)
    (source : String) :
    blanked (final m c b source answer) = blanked (final m c b source other) := by
  rcases answer with failure | _ <;> rcases other with failure' | _
  · have hfailure : failure.withoutCause = failure'.withoutCause := Except.error.inj h
    exact congrArg Except.error hfailure
  · cases h
  · cases h
  · rfl

-- Who came first is not to be seen but in the cause.
theorem blanked_results (sources : List String) (leader : Nat) :
    (f.results sources leader).map blanked =
      sources.map fun source => blanked (final m c f.builds source f.verdict) := by
  refine List.ext_getElem? ?_
  intro j
  rw [results, List.getElem?_map, List.getElem?_mapIdx, List.getElem?_map, Option.map_map]
  refine Option.map_congr ?_
  intro source _
  refine blanked_final ?_ source
  rw [answer]
  split
  · exact f.alike.symm
  · rfl

end Forecast

variable {m : Behaviour} {c : Config} {κ : Cache} {b : Builds}

theorem parse_under (source : String) {answer : Except Failure Unit} {after : Cache} {later : Builds}
    (h : ((ensure c).run κ).under m b = ((answer, after), later)) :
    ((parse c source).run κ).under m b = ((final m c later source answer, after), later) := by
  rw [parse, parseWith_run, Dialogue.under_bind, h, Dialogue.under_bind, remainder_under]
  rfl

theorem parseMany_cons_under (source : String) (rest : List String) :
    ((parseMany c (source :: rest)).run κ).under m b =
      let first := ((parse c source).run κ).under m b
      let others := ((parseMany c rest).run first.1.2).under m first.2
      ((first.1.1 :: others.1.1, others.1.2), others.2) := by
  rw [parseMany, List.mapM_cons, StateT.run_bind, Dialogue.under_bind]
  rw [StateT.run_bind, Dialogue.under_bind]
  rfl

theorem parseMany_under_settled {verdict : Except Failure Unit} (h : Settled m c κ b verdict)
    (sources : List String) :
    ∃ after, ((parseMany c sources).run κ).under m b =
        ((sources.map (final m c b · verdict), after), b) ∧
      ∀ k, after.state? k = κ.state? k := by
  induction sources generalizing κ with
  | nil => exact ⟨κ, rfl, fun _ => rfl⟩
  | cons source rest ih =>
      obtain ⟨after, hunder, hstates⟩ := h
      have hsettled : Settled m c after b verdict := Settled.congr ⟨after, hunder, hstates⟩ hstates
      obtain ⟨last, hrest, hlast⟩ := ih hsettled
      refine ⟨last, ?_, ?_⟩
      · rw [parseMany_cons_under, parse_under source hunder]
        simp only [hrest, List.map_cons]
      · intro k
        rw [hlast k, hstates k]

theorem parseMany_under (f : Forecast m c κ b) {sources : List String} (hne : sources ≠ []) :
    ∃ after, ((parseMany c sources).run κ).under m b = ((f.results sources 0, after), f.builds) ∧
      ∀ k, after.state? k = f.cache.state? k := by
  obtain ⟨source, rest, rfl⟩ := List.exists_cons_of_ne_nil hne
  obtain ⟨after, hrest, hstates⟩ := parseMany_under_settled f.settled rest
  refine ⟨after, ?_, hstates⟩
  have hresults : f.results (source :: rest) 0 = final m c f.builds source f.opening ::
      rest.map (final m c f.builds · f.verdict) := by
    rw [Forecast.results, List.mapIdx_cons]
    refine congrArg (_ :: ·) (List.ext_getElem? ?_)
    intro j
    rw [List.getElem?_mapIdx, List.getElem?_map]
    rfl
  rw [parseMany_cons_under, parse_under source f.first, hresults]
  simp only [hrest]

theorem outcome_source {source : String} {answer : Answer} {tree : Tree}
    (h : outcome c source answer = .ok tree) : tree.source = source := by
  obtain ⟨r, -, htree⟩ := outcome_eq_ok_iff.mp h
  rw [Tree.ofRecord] at htree
  cases hcheck : r.check c.grammar source with
  | error defect =>
      rw [hcheck] at htree
      cases htree
  | ok owners =>
      rw [hcheck] at htree
      cases htree
      rfl

theorem causeOf?_bind {α β : Type} {x : Except Failure α} {next : α → Except Failure β}
    (hx : causeOf? x = none) (hnext : ∀ a, causeOf? (next a) = none) :
    causeOf? (x.bind next) = none := by
  cases x with
  | error failure => exact hx
  | ok a => exact hnext a

theorem causeOf?_mapError {ε α : Type} {x : Except ε α} {wrap : ε → Failure}
    (h : ∀ e, (wrap e).cause? = none) : causeOf? (x.mapError wrap) = none := by
  cases x with
  | error e => exact h e
  | ok a => rfl

theorem causeOf?_classify (tool : String) (o : Output) :
    causeOf? (Report.classify tool o) = none := by
  simp only [Report.classify]
  split
  · rfl
  · split <;> rfl

-- Behind a failed run of the parser there is no build, unless the runner says so.
theorem causeOf?_outcome (c : Config) (source : String) {answer : Answer}
    (hanswer : causeOf? answer = none) : causeOf? (outcome c source answer) = none := by
  refine causeOf?_bind ?_ fun r => causeOf?_mapError fun _ => rfl
  refine causeOf?_bind hanswer fun output => ?_
  exact causeOf?_bind (causeOf?_classify _ output) fun stdout => causeOf?_mapError fun _ => rfl

theorem final_source {source : String} {answer : Except Failure Unit} {tree : Tree}
    (h : final m c b source answer = .ok tree) : tree.source = source := by
  cases answer with
  | error failure => cases h
  | ok _ => exact outcome_source h

-- The runner fails where a program cannot be run, is killed or loses its pipes, and not over a build.
def Plain (m : Behaviour) : Prop :=
  ∀ succeeded call, causeOf? (m succeeded call) = none

theorem Forecast.eq_leader (f : Forecast m c κ b) (hm : Plain m) {sources : List String}
    {leader j : Nat} {result : Except Failure Tree}
    (hj : (f.results sources leader)[j]? = some result) (hcause : causeOf? result ≠ none) :
    j = leader := by
  rw [Forecast.results, List.getElem?_mapIdx] at hj
  obtain ⟨source, -, rfl⟩ := Option.map_eq_some_iff.mp hj
  rw [Forecast.answer] at hcause
  by_cases hleader : j = leader
  · exact hleader
  · rw [if_neg hleader] at hcause
    have hplain := f.plain
    cases hverdict : f.verdict with
    | error failure =>
        rw [hverdict] at hcause hplain
        exact absurd hplain hcause
    | ok _ =>
        rw [hverdict] at hcause
        exact absurd (causeOf?_outcome c source (hm _ _)) hcause

-- The results that are reached, and the world they are reached in, against the parses one by one.
structure Agrees (m : Behaviour) (c : Config) (κ : Cache) (b : Builds) (sources : List String)
    (w : World) (results : List (Except Failure Tree)) : Prop where
  length : results.length = sources.length
  placed : ∀ (j : Nat) (tree : Tree), results[j]? = some (.ok tree) → sources[j]? = some tree.source
  alike : results.map blanked = (((parseMany c sources).run κ).under m b).1.1.map blanked
  once : Plain m → ∀ (i j : Nat) (one other : Except Failure Tree), results[i]? = some one →
    results[j]? = some other → causeOf? one ≠ none → causeOf? other ≠ none → i = j
  states : ∀ k, w.cache.state? k = (((parseMany c sources).run κ).under m b).1.2.state? k
  builds : w.builds = (((parseMany c sources).run κ).under m b).2

theorem agrees_nil : Agrees m c κ b [] (World.start κ b []) [] := by
  refine ⟨rfl, ?_, rfl, ?_, fun _ => rfl, rfl⟩
  · intro j tree hj
    cases hj
  · intro _ i j one other hi
    cases hi

theorem Forecast.Late.agrees {f : Forecast m c κ b} {sources : List String} {leader : Nat} {w : World}
    (h : f.Late sources leader w) (hne : sources ≠ []) :
    Agrees m c κ b sources w (f.results sources leader) := by
  obtain ⟨after, hunder, hafter⟩ := parseMany_under f hne
  refine ⟨List.length_mapIdx, ?_, ?_, ?_, ?_, ?_⟩
  · intro j tree hj
    rw [Forecast.results, List.getElem?_mapIdx] at hj
    obtain ⟨source, hsource, hfinal⟩ := Option.map_eq_some_iff.mp hj
    rw [hsource, final_source hfinal]
  · rw [hunder, Forecast.blanked_results, Forecast.blanked_results]
  · intro hm i j one other hi hj hone hother
    rw [f.eq_leader hm hi hone, f.eq_leader hm hj hother]
  · intro k
    rw [hunder, h.states k, hafter k]
  · rw [hunder, h.builds]

theorem Forecast.Stage.agrees {f : Forecast m c κ b} {sources : List String} {w : World}
    (h : f.Stage sources w) (hdone : ∀ job ∈ w.jobs, job.result? ≠ none) :
    ∃ results : List (Except Failure Tree), w.results = results.map some ∧
      Agrees m c κ b sources w results := by
  cases h with
  | untouched =>
      cases sources with
      | nil => exact ⟨[], rfl, agrees_nil⟩
      | cons source rest => exact absurd rfl (hdone _ List.mem_cons_self)
  | opening leader source rest b' _ hsource =>
      exact absurd rfl (hdone _ (Forecast.ahead_mem _ hsource))
  | late leader _ hne hlate => exact ⟨_, hlate.results_eq hdone, hlate.agrees hne⟩

theorem World.result?_ne_none {w : World} {results : List (Except Failure Tree)}
    (h : w.results = results.map some) : ∀ job ∈ w.jobs, job.result? ≠ none := by
  intro job hmem hnone
  have hresult : job.result? ∈ w.results := List.mem_map_of_mem hmem
  rw [h, hnone] at hresult
  obtain ⟨_, _, ⟨⟩⟩ := List.mem_map.mp hresult

-- Neither the parser nor the programs that build it are installed.
def bareBehaviour : Behaviour := fun _ call => .error (.notFound call.program)

-- A runner that hands on what another client reports.
def relayingBehaviour : Behaviour := fun _ call =>
  .error (.buildRequired call.program (some (.notFound "make")))

-- A parser that is built by running it, and that nobody asks for its version.
def selfBuiltConfig : Config :=
  { sampleConfig with expectedVersion := none, buildCommand := [sampleConfig.binary] }

-- A program that ends well once.
def fadingBehaviour : Behaviour := fun succeeded _ =>
  .ok ⟨some (if succeeded = 0 then 0 else 1), [], []⟩

-- A runner for which a run of the build command is a build, whatever it is run for.
def countingRunner (c : Config) (m : Behaviour) (b : Builds) (call : Invocation) : Answer × Builds :=
  let answer := m b.succeeded call
  (answer, if c.buildCommand = call.program :: call.arguments then b.after .build answer else b)

-- The parses of a parser that is its own build command, in the order of the sources.
def selfBuiltResults (sources : List String) : List (Except Failure Tree) :=
  (((parseMany selfBuiltConfig sources).run .empty).answeredBy
    (countingRunner selfBuiltConfig fadingBehaviour) ⟨0, 0⟩).1.1

end Scheduling

end ExternalParser
