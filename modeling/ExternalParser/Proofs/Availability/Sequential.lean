import ExternalParser.Proofs.Availability.Interleaving

namespace ExternalParser.Interleaving

open Availability

variable {ι : Type} [DecidableEq ι]

namespace World

-- What the slot of a key remembers.
def state? (w : World ι) (k : ProbeKey) : Option ProbeState :=
  (w.addresses k).bind fun a => (w.slots a).state

-- The programs that were started, in order.
def programs (w : World ι) : List (Role × Invocation) :=
  w.starts.reverse.map fun s => (s.role, s.call)

-- The cache and the slots say the same, and no slot is locked.
structure Mirrors (w : World ι) (κ : Cache) : Prop where
  states : ∀ k, κ.state? k = w.state? k
  free : ∀ a, (w.slots a).holder = none

end World

omit [DecidableEq ι] in
-- What a check stores in its slot is what is stored in the cache.
theorem World.Mirrors.store {w w' : World ι} (h : Consistent w) {κ : Cache} (hmirrors : w.Mirrors κ)
    {k : ProbeKey} {a : Nat} {state : Option ProbeState} (ha : w.addresses k = some a)
    (haddresses : w'.addresses = w.addresses)
    (hself : (w'.slots a).state = state.or (w.slots a).state)
    (hothers : ∀ b, b ≠ a → (w'.slots b).state = (w.slots b).state)
    (hfree : ∀ b, (w'.slots b).holder = none) : w'.Mirrors (κ.store k state) := by
  refine ⟨?_, hfree⟩
  intro k'
  rw [Cache.state?_store, hmirrors.states k, hmirrors.states k']
  by_cases hk : k' = k
  · subst hk
    simp [World.state?, haddresses, ha, hself]
  · cases hb : w.addresses k' with
    | none => simp [World.state?, haddresses, hk, hb]
    | some b =>
        -- Different keys have different slots.
        have hne : b ≠ a := by
          rintro rfl
          exact hk (h.apart k' k b hb ha)
        simp [World.state?, haddresses, hk, hb, hothers b hne]

-- The programs of a check are run and answered.
theorem reaches_verdict {w : World ι} {i : ι} {e : Errand} {rest : Dialogue Verdict}
    {calls : List Config} {runs : List Exchange} {verdict : Verdict}
    (hi : w.threads i = ⟨.deciding e rest, calls⟩) (hplays : Dialogue.Plays rest runs verdict) :
    ∃ w' : World ι, Relation.ReflTransGen Step w w' ∧
      w'.threads i = ⟨.deciding e (.done verdict), calls⟩ ∧ w'.slots = w.slots ∧
      w'.addresses = w.addresses ∧
      w'.programs = w.programs ++ runs.map fun run => (run.role, run.call) := by
  induction rest generalizing w runs with
  | done x =>
      obtain ⟨rfl, rfl⟩ := Dialogue.plays_done_iff.mp hplays
      exact ⟨w, .refl, hi, rfl, rfl, by simp⟩
  | ask role call next ih =>
      obtain ⟨answer, rest, rfl, hrest⟩ := Dialogue.plays_ask_iff.mp hplays
      have hrun := Step.run w i e role call next calls hi
      have hfinish := Step.finish ((w.put i ⟨.running e next, calls⟩).log ⟨e.key, role, call⟩) i e
        next answer calls (w.threads_put_self i _)
      obtain ⟨w', hsteps, hthread, hslots, haddresses, hprograms⟩ :=
        ih answer (World.threads_put_self _ i _) hrest
      refine ⟨w', .head hrun (.head hfinish hsteps), hthread, hslots, haddresses, ?_⟩
      rw [hprograms]
      simp [World.programs, World.put, World.log]

-- A thread takes the slot of its key from the map, which has it from then on.
theorem takes_slot {w : World ι} (h : Consistent w) {κ : Cache} (hmirrors : w.Mirrors κ) {i : ι}
    {c : Config} {calls : List Config} {expected : String}
    (hi : w.threads i = ⟨.idle, c :: calls⟩) (hwanted : c.wantedVersion? = some expected) :
    ∃ (w' : World ι) (a : Nat), Step w w' ∧ w'.threads i = ⟨.waiting ⟨c, expected, a⟩, calls⟩ ∧
      w'.addresses (key c expected) = some a ∧ w'.programs = w.programs ∧ w'.Mirrors κ := by
  cases haddress : w.addresses (key c expected) with
  | some a =>
      refine ⟨_, a, .takeKnown w i ⟨c, expected, a⟩ calls hi hwanted haddress, ?_, haddress, rfl,
        hmirrors.states, hmirrors.free⟩
      exact w.threads_put_self i _
  | none =>
      have hkey : Errand.key ⟨c, expected, w.allocated⟩ = key c expected := rfl
      refine ⟨_, w.allocated, .takeNew w i ⟨c, expected, w.allocated⟩ calls hi hwanted haddress rfl,
        ?_, ?_, rfl, ?_, ?_⟩
      · exact World.threads_put_self _ i _
      · simp [World.put, World.allocate, hkey]
      · -- A fresh slot remembers as much as no slot.
        intro k
        rw [hmirrors.states k]
        by_cases hk : k = key c expected
        · subst hk
          simp [World.state?, World.put, World.allocate, hkey, haddress]
        · cases ha : w.addresses k with
          | none => simp [World.state?, World.put, World.allocate, hkey, hk, ha]
          | some a =>
              have hne : a ≠ w.allocated := Nat.ne_of_lt (h.inUse k a ha)
              simp [World.state?, World.put, World.allocate, hkey, hk, ha, hne]
      · intro a
        by_cases ha : a = w.allocated
        · subst ha
          simp [World.put, World.allocate]
        · simp [World.put, World.allocate, ha, hmirrors.free a]

-- A call that is not disturbed does what the check of its parser does.
theorem reaches_ensure {w : World ι} (h : Consistent w) {κ κ' : Cache} (hmirrors : w.Mirrors κ)
    {i : ι} {c : Config} {calls : List Config} {runs : List Exchange} {answer : Except Failure Unit}
    (hi : w.threads i = ⟨.idle, c :: calls⟩)
    (hplays : Dialogue.Plays ((ensure c).run κ) runs (answer, κ')) :
    ∃ w' : World ι, Relation.ReflTransGen Step w w' ∧ w'.threads i = ⟨.idle, calls⟩ ∧
      w'.Mirrors κ' ∧ w'.programs = w.programs ++ runs.map fun run => (run.role, run.call) := by
  cases hwanted : c.wantedVersion? with
  | none =>
      obtain ⟨rfl, -, rfl⟩ := ensure_unwanted hwanted hplays
      refine ⟨_, .single (.skip w i c calls hi hwanted), w.threads_put_self i _, ?_, ?_⟩
      · exact ⟨hmirrors.states, hmirrors.free⟩
      · simp [World.programs, World.put]
  | some expected =>
      obtain ⟨state, hcourse, rfl⟩ := (plays_ensure_iff hwanted).mp hplays
      obtain ⟨w₁, a, htake, hwaiting, haddress, hprograms₁, hmirrors₁⟩ :=
        takes_slot h hmirrors hi hwanted
      have hslot : κ.state? (key c expected) = (w₁.slots a).state := by
        rw [hmirrors₁.states, World.state?, haddress]
        rfl
      rw [hslot] at hcourse
      have hlock := Step.lock w₁ i ⟨c, expected, a⟩ calls hwaiting (hmirrors₁.free a)
      obtain ⟨w₂, hsteps, hdeciding, hslots, haddresses, hprograms₂⟩ :=
        reaches_verdict ((w₁.setHolder a (some i)).threads_put_self i _) (plays_of_course hcourse)
      have hstore := Step.store w₂ i ⟨c, expected, a⟩ answer state calls hdeciding
      have hunlock := Step.unlock _ i ⟨c, expected, a⟩ calls
        ((w₂.remember a state).threads_put_self i _)
      refine ⟨_, .head htake (.head hlock ((hsteps.tail hstore).tail hunlock)), ?_, ?_, ?_⟩
      · exact World.threads_put_self _ i _
      · refine hmirrors₁.store (step_consistent h htake) haddress haddresses ?_ ?_ ?_
        · rw [World.state_setHolder]
          change ((w₂.remember a state).slots a).state = _
          rw [World.state_remember_self, hslots]
          exact congrArg state.or (w₁.state_setHolder a a (some i))
        · intro b hb
          rw [World.state_setHolder]
          change ((w₂.remember a state).slots b).state = _
          rw [w₂.slots_remember_of_ne a b state hb, hslots]
          exact w₁.state_setHolder a b (some i)
        · intro b
          by_cases hb : b = a
          · subst hb
            simp [World.setHolder]
          · rw [World.slots_setHolder_of_ne _ a b none hb]
            change ((w₂.remember a state).slots b).holder = _
            rw [World.holder_remember, hslots]
            change ((w₁.setHolder a (some i)).slots b).holder = _
            rw [w₁.slots_setHolder_of_ne a b (some i) hb]
            exact hmirrors₁.free b
      · exact hprograms₂.trans (congrArg (· ++ _) hprograms₁)

end ExternalParser.Interleaving
