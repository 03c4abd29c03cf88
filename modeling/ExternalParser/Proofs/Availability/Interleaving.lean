import ExternalParser.Proofs.Availability.Check
import Mathlib.Logic.Function.Basic
import Mathlib.Logic.Relation

namespace ExternalParser.Interleaving

open Availability

-- What a check ends with: its answer, and what is to be remembered.
abbrev Verdict := Except Failure Unit × Option ProbeState

-- A call under way: the parser, the version that is wanted, and where its slot lies.
structure Errand where
  config : Config
  expected : String
  address : Nat

def Errand.key (e : Errand) : ProbeKey :=
  Availability.key e.config e.expected

-- Where a thread is in its call. A thread is inside from `deciding` to `leaving`.
inductive Phase where
  | idle
  | waiting (e : Errand)
  | deciding (e : Errand) (rest : Dialogue Verdict)
  | running (e : Errand) (next : Answer → Dialogue Verdict)
  | leaving (e : Errand)

namespace Phase

def errand? : Phase → Option Errand
  | .idle => none
  | .waiting e | .deciding e _ | .running e _ | .leaving e => some e

-- The call of a thread between lock and unlock.
def inside? : Phase → Option Errand
  | .idle | .waiting _ => none
  | .deciding e _ | .running e _ | .leaving e => some e

theorem errand?_of_inside? {phase : Phase} {e : Errand} (h : phase.inside? = some e) :
    phase.errand? = some e := by
  cases phase <;> first | exact h | cases h

end Phase

-- The calls that a thread has yet to make follow the one under way.
structure Thread where
  phase : Phase
  calls : List Config

-- What is remembered about a parser, and the thread that has locked it.
structure Slot (ι : Type) where
  state : Option ProbeState
  holder : Option ι

-- A program that was started for a key.
structure Start where
  key : ProbeKey
  role : Role
  call : Invocation

-- The slots below `allocated` are in use. The last start comes first.
structure World (ι : Type) where
  addresses : ProbeKey → Option Nat
  slots : Nat → Slot ι
  allocated : Nat
  threads : ι → Thread
  starts : List Start

namespace World

variable {ι : Type} [DecidableEq ι]

-- Nothing is remembered, and no call has begun.
def start (calls : ι → List Config) : World ι :=
  ⟨fun _ => none, fun _ => ⟨none, none⟩, 0, fun i => ⟨.idle, calls i⟩, []⟩

def put (w : World ι) (i : ι) (t : Thread) : World ι :=
  { w with threads := Function.update w.threads i t }

def setHolder (w : World ι) (a : Nat) (holder : Option ι) : World ι :=
  { w with slots := Function.update w.slots a { w.slots a with holder := holder } }

-- Nothing is forgotten: without a state the slot stays as it is.
def remember (w : World ι) (a : Nat) (state : Option ProbeState) : World ι :=
  { w with slots := Function.update w.slots a { w.slots a with state := state.or (w.slots a).state } }

-- Gives a key a fresh slot.
def allocate (w : World ι) (k : ProbeKey) : World ι :=
  { w with
    addresses := Function.update w.addresses k (some w.allocated)
    slots := Function.update w.slots w.allocated ⟨none, none⟩
    allocated := w.allocated + 1 }

def log (w : World ι) (s : Start) : World ι :=
  { w with starts := s :: w.starts }

-- How often the parser of a key was built.
def builds (w : World ι) (k : ProbeKey) : Nat :=
  w.starts.countP fun s => s.role = .build ∧ s.key = k

end World

variable {ι : Type} [DecidableEq ι]

-- One step of one thread. The answer of a program is open, and other threads can go on while it runs.
inductive Step : World ι → World ι → Prop
  | skip (w : World ι) (i : ι) (c : Config) (calls : List Config) :
      w.threads i = ⟨.idle, c :: calls⟩ → c.wantedVersion? = none →
      Step w (w.put i ⟨.idle, calls⟩)
  | takeKnown (w : World ι) (i : ι) (e : Errand) (calls : List Config) :
      w.threads i = ⟨.idle, e.config :: calls⟩ → e.config.wantedVersion? = some e.expected →
      w.addresses e.key = some e.address →
      Step w (w.put i ⟨.waiting e, calls⟩)
  | takeNew (w : World ι) (i : ι) (e : Errand) (calls : List Config) :
      w.threads i = ⟨.idle, e.config :: calls⟩ → e.config.wantedVersion? = some e.expected →
      w.addresses e.key = none → e.address = w.allocated →
      Step w ((w.allocate e.key).put i ⟨.waiting e, calls⟩)
  | lock (w : World ι) (i : ι) (e : Errand) (calls : List Config) :
      w.threads i = ⟨.waiting e, calls⟩ → (w.slots e.address).holder = none →
      Step w ((w.setHolder e.address (some i)).put i
        ⟨.deciding e (check e.config e.expected (w.slots e.address).state), calls⟩)
  | run (w : World ι) (i : ι) (e : Errand) (role : Role) (call : Invocation)
      (next : Answer → Dialogue Verdict) (calls : List Config) :
      w.threads i = ⟨.deciding e (.ask role call next), calls⟩ →
      Step w ((w.put i ⟨.running e next, calls⟩).log ⟨e.key, role, call⟩)
  | finish (w : World ι) (i : ι) (e : Errand) (next : Answer → Dialogue Verdict)
      (answer : Answer) (calls : List Config) :
      w.threads i = ⟨.running e next, calls⟩ →
      Step w (w.put i ⟨.deciding e (next answer), calls⟩)
  | store (w : World ι) (i : ι) (e : Errand) (answer : Except Failure Unit)
      (state : Option ProbeState) (calls : List Config) :
      w.threads i = ⟨.deciding e (.done (answer, state)), calls⟩ →
      Step w ((w.remember e.address state).put i ⟨.leaving e, calls⟩)
  | unlock (w : World ι) (i : ι) (e : Errand) (calls : List Config) :
      w.threads i = ⟨.leaving e, calls⟩ →
      Step w ((w.put i ⟨.idle, calls⟩).setHolder e.address none)

-- After a build: no other build, and something is remembered in the end.
def Settles : Dialogue Verdict → Prop
  | .done (_, state) => state.isSome
  | .ask role _ next => role ≠ .build ∧ ∀ answer, Settles (next answer)

-- Before a build: it is run only if nothing is remembered, and what is remembered is not forgotten.
def Careful (previous : Option ProbeState) : Dialogue Verdict → Prop
  | .done (_, state) => previous.isSome → state.isSome
  | .ask .build _ next => previous = none ∧ ∀ answer, Settles (next answer)
  | .ask .parse _ next | .ask .version _ next => ∀ answer, Careful previous (next answer)

theorem careful_check (c : Config) (expected : String) (previous : Option ProbeState) :
    Careful previous (check c expected previous) := by
  rw [check_unrolled]
  split
  · exact id
  · rename_i hav
    intro found
    dsimp only
    split
    · exact fun _ => rfl
    · split
      · exact id
      · split
        · exact id
        · rename_i hfailed
          refine ⟨?_, ?_⟩
          · rcases previous with _ | _ | _
            · rfl
            · exact absurd rfl hav
            · exact absurd rfl hfailed
          · intro built
            dsimp only
            split
            · rfl
            · refine ⟨by simp, ?_⟩
              intro again
              dsimp only
              split <;> rfl

namespace Phase

-- What a thread may still do with a slot that remembers `state`.
def Mindful (state : Option ProbeState) : Phase → Prop
  | .deciding _ rest => Careful state rest ∨ Settles rest
  | .running _ next => (∀ answer, Careful state (next answer)) ∨ ∀ answer, Settles (next answer)
  | .idle | .waiting _ | .leaving _ => True

-- The thread has begun a build and has not yet stored what came of it.
def Rebuilding : Phase → Prop
  | .deciding _ rest => Settles rest
  | .running _ next => ∀ answer, Settles (next answer)
  | .idle | .waiting _ | .leaving _ => False

end Phase

-- A thread works on the slot of its key, and it holds the lock of the slot when it is inside.
structure World.Seats (w : World ι) (i : ι) (phase : Phase) : Prop where
  placed : ∀ e, phase.errand? = some e → w.addresses e.key = some e.address
  locked : ∀ e, phase.inside? = some e → (w.slots e.address).holder = some i
  mindful : ∀ e, phase.inside? = some e → phase.Mindful (w.slots e.address).state

-- The build of a key shows: it is remembered, or some thread will see to that.
def World.Spent (w : World ι) (k : ProbeKey) : Prop :=
  ∃ a, w.addresses k = some a ∧ ((w.slots a).state ≠ none ∨
    ∃ i e, (w.threads i).phase.inside? = some e ∧ e.address = a ∧ (w.threads i).phase.Rebuilding)

-- What every step keeps.
structure Consistent (w : World ι) : Prop where
  inUse : ∀ k a, w.addresses k = some a → a < w.allocated
  apart : ∀ k k' a, w.addresses k = some a → w.addresses k' = some a → k = k'
  seats : ∀ i, w.Seats i (w.threads i).phase
  once : ∀ k, w.builds k ≤ 1
  spent : ∀ k, 0 < w.builds k → w.Spent k

omit [DecidableEq ι] in
theorem consistent_start (calls : ι → List Config) : Consistent (World.start calls) where
  inUse k a h := by simp [World.start] at h
  apart k k' a h := by simp [World.start] at h
  seats i := ⟨fun _ h => (nomatch h), fun _ h => (nomatch h), fun _ h => (nomatch h)⟩
  once k := by simp [World.builds, World.start]
  spent k h := by simp [World.builds, World.start] at h

namespace World

variable (w : World ι) (a b : Nat)

@[simp]
theorem threads_put_self (i : ι) (t : Thread) : (w.put i t).threads i = t := by
  simp [put]

theorem threads_put_of_ne {i j : ι} (t : Thread) (h : j ≠ i) :
    (w.put i t).threads j = w.threads j := by
  simp [put, h]

-- Where a thread may be depends on the map and the slots only.
theorem seats_put_iff {i j : ι} {t : Thread} {phase : Phase} :
    (w.put i t).Seats j phase ↔ w.Seats j phase :=
  ⟨fun ⟨hp, hl, hm⟩ => ⟨hp, hl, hm⟩, fun ⟨hp, hl, hm⟩ => ⟨hp, hl, hm⟩⟩

omit [DecidableEq ι]

@[simp]
theorem state_setHolder (holder : Option ι) :
    ((w.setHolder a holder).slots b).state = (w.slots b).state := by
  by_cases h : b = a
  · subst h
    simp [setHolder]
  · simp [setHolder, h]

theorem slots_setHolder_of_ne (holder : Option ι) (h : b ≠ a) :
    (w.setHolder a holder).slots b = w.slots b := by
  simp [setHolder, h]

@[simp]
theorem holder_remember (state : Option ProbeState) :
    ((w.remember a state).slots b).holder = (w.slots b).holder := by
  by_cases h : b = a
  · subst h
    simp [remember]
  · simp [remember, h]

@[simp]
theorem state_remember_self (state : Option ProbeState) :
    ((w.remember a state).slots a).state = state.or (w.slots a).state := by
  simp [remember]

theorem slots_remember_of_ne (state : Option ProbeState) (h : b ≠ a) :
    (w.remember a state).slots b = w.slots b := by
  simp [remember, h]

end World

namespace Consistent

variable {w : World ι}

omit [DecidableEq ι] in
-- Two threads inside one slot would both hold its lock.
theorem alone (h : Consistent w) {i j : ι} {e f : Errand}
    (hi : (w.threads i).phase.inside? = some e) (hj : (w.threads j).phase.inside? = some f)
    (ha : e.address = f.address) : i = j := by
  have hli := (h.seats i).locked e hi
  have hlj := (h.seats j).locked f hj
  rw [ha, hlj] at hli
  exact (Option.some.inj hli).symm

-- A thread moves on within what the slots allow. If it was to store the outcome of a build, it still
-- is, or the slot remembers something already.
theorem put (h : Consistent w) (i : ι) (t : Thread) (hseat : w.Seats i t.phase)
    (hspent : ∀ e, (w.threads i).phase.inside? = some e → (w.threads i).phase.Rebuilding →
      (t.phase.inside? = some e ∧ t.phase.Rebuilding) ∨ (w.slots e.address).state ≠ none) :
    Consistent (w.put i t) where
  inUse := h.inUse
  apart := h.apart
  seats j := by
    rw [w.seats_put_iff]
    by_cases hj : j = i
    · subst hj
      rwa [w.threads_put_self]
    · rw [w.threads_put_of_ne t hj]
      exact h.seats j
  once := h.once
  spent k hk := by
    obtain ⟨a, ha, hstate | ⟨j, e, hin, rfl, hre⟩⟩ := h.spent k hk
    · exact ⟨a, ha, .inl hstate⟩
    · by_cases hj : j = i
      · subst hj
        rcases hspent e hin hre with ⟨hin', hre'⟩ | hstate
        · refine ⟨_, ha, .inr ⟨j, e, ?_, rfl, ?_⟩⟩ <;> rwa [w.threads_put_self]
        · exact ⟨_, ha, .inl hstate⟩
      · refine ⟨_, ha, .inr ⟨j, e, ?_, rfl, ?_⟩⟩ <;> rwa [w.threads_put_of_ne t hj]

omit [DecidableEq ι] in
-- The lock of a slot changes hands while nobody is inside.
theorem setHolder (h : Consistent w) (a : Nat) (holder : Option ι)
    (hfree : ∀ j e, (w.threads j).phase.inside? = some e → e.address ≠ a) :
    Consistent (w.setHolder a holder) where
  inUse := h.inUse
  apart := h.apart
  seats j := by
    refine ⟨(h.seats j).placed, ?_, ?_⟩
    · intro e he
      rw [w.slots_setHolder_of_ne a e.address holder (hfree j e he)]
      exact (h.seats j).locked e he
    · intro e he
      rw [w.slots_setHolder_of_ne a e.address holder (hfree j e he)]
      exact (h.seats j).mindful e he
  once := h.once
  spent k hk := by
    obtain ⟨b, hb, hcase⟩ := h.spent k hk
    refine ⟨b, hb, ?_⟩
    rwa [w.state_setHolder]

omit [DecidableEq ι] in
-- The one thread inside stores the end of its check; what the slot remembered it still remembers.
theorem remember (h : Consistent w) (i : ι) (e : Errand) (answer : Except Failure Unit)
    (state : Option ProbeState)
    (hi : (w.threads i).phase = .deciding e (.done (answer, state))) :
    Consistent (w.remember e.address state) where
  inUse := h.inUse
  apart := h.apart
  seats j := by
    refine ⟨(h.seats j).placed, ?_, ?_⟩
    · intro f hf
      rw [World.holder_remember]
      exact (h.seats j).locked f hf
    · intro f hf
      by_cases ha : f.address = e.address
      · have hin : (w.threads i).phase.inside? = some e := by rw [hi]; rfl
        have hji := h.alone hf hin ha
        subst hji
        have hm := (h.seats j).mindful e hin
        change (w.threads j).phase.Mindful _
        rw [ha, World.state_remember_self]
        rw [hi] at hm ⊢
        rcases hm with hcareful | hsettles
        · refine .inl fun hsome => ?_
          cases hst : state with
          | some _ => rfl
          | none =>
              rw [hst, Option.none_or] at hsome
              exact hst ▸ hcareful hsome
        · exact .inr hsettles
      · rw [w.slots_remember_of_ne e.address f.address state ha]
        exact (h.seats j).mindful f hf
  once := h.once
  spent k hk := by
    obtain ⟨b, hb, hstate | hre⟩ := h.spent k hk
    · refine ⟨b, hb, .inl ?_⟩
      by_cases hbe : b = e.address
      · subst hbe
        rw [World.state_remember_self]
        cases state with
        | some _ => simp
        | none => simpa using hstate
      · rwa [w.slots_remember_of_ne e.address b state hbe]
    · exact ⟨b, hb, .inr hre⟩

omit [DecidableEq ι] in
-- A fresh slot is nobody's, and no build of its key was run.
theorem allocate (h : Consistent w) (k : ProbeKey) (hnew : w.addresses k = none) :
    Consistent (w.allocate k) := by
  have hkey : ∀ k' a, w.addresses k' = some a → k' ≠ k ∧ a ≠ w.allocated := by
    intro k' a ha
    refine ⟨?_, Nat.ne_of_lt (h.inUse k' a ha)⟩
    rintro rfl
    simp [hnew] at ha
  have hold : ∀ k' a, w.addresses k' = some a → (w.allocate k).addresses k' = some a := by
    intro k' a ha
    simpa [World.allocate, (hkey k' a ha).1] using ha
  have hslot : ∀ k' a, w.addresses k' = some a → (w.allocate k).slots a = w.slots a := by
    intro k' a ha
    simp [World.allocate, (hkey k' a ha).2]
  have hcases : ∀ k' a, (w.allocate k).addresses k' = some a →
      (k' = k ∧ a = w.allocated) ∨ w.addresses k' = some a := by
    intro k' a ha
    by_cases hk : k' = k
    · subst hk
      simp only [World.allocate, Function.update_self, Option.some.injEq] at ha
      exact .inl ⟨rfl, ha.symm⟩
    · exact .inr (by simpa [World.allocate, hk] using ha)
  refine ⟨?_, ?_, ?_, h.once, ?_⟩
  · intro k' a ha
    rcases hcases k' a ha with ⟨-, rfl⟩ | ha
    · exact Nat.lt_succ_self _
    · exact Nat.lt_succ_of_lt (h.inUse k' a ha)
  · intro k₁ k₂ a h₁ h₂
    rcases hcases k₁ a h₁ with ⟨hk₁, ha₁⟩ | h₁ <;> rcases hcases k₂ a h₂ with ⟨hk₂, ha₂⟩ | h₂
    · exact hk₁.trans hk₂.symm
    · exact absurd ha₁ (hkey k₂ a h₂).2
    · exact absurd ha₂ (hkey k₁ a h₁).2
    · exact h.apart k₁ k₂ a h₁ h₂
  · intro j
    have hs := h.seats j
    refine ⟨fun e he => hold _ _ (hs.placed e he), ?_, ?_⟩
    · intro e he
      rw [hslot _ _ (hs.placed e (Phase.errand?_of_inside? he))]
      exact hs.locked e he
    · intro e he
      rw [hslot _ _ (hs.placed e (Phase.errand?_of_inside? he))]
      exact hs.mindful e he
  · intro k' hk
    obtain ⟨a, ha, hcase⟩ := h.spent k' hk
    refine ⟨a, hold _ _ ha, ?_⟩
    rwa [hslot _ _ ha]

omit [DecidableEq ι] in
-- A build may be noted once, and only when its thread is bound to store the outcome.
theorem log (h : Consistent w) (s : Start)
    (hbuild : s.role = .build → w.builds s.key = 0 ∧ w.Spent s.key) :
    Consistent (w.log s) := by
  have hcount : ∀ k, (w.log s).builds k = w.builds k + if s.role = .build ∧ s.key = k then 1 else 0 := by
    intro k
    simp [World.builds, World.log, List.countP_cons]
  refine ⟨h.inUse, h.apart, ?_, ?_, ?_⟩
  · intro j
    exact ⟨(h.seats j).placed, (h.seats j).locked, (h.seats j).mindful⟩
  · intro k
    rw [hcount]
    split
    · rename_i hs
      obtain ⟨hrole, rfl⟩ := hs
      have hzero := (hbuild hrole).1
      omega
    · exact h.once k
  · intro k hk
    rw [hcount] at hk
    split at hk
    · rename_i hs
      obtain ⟨hrole, rfl⟩ := hs
      exact (hbuild hrole).2
    · exact h.spent k hk

omit [DecidableEq ι] in
-- A thread that is about to build finds nothing remembered, and nobody else is inside.
theorem builds_eq_zero (h : Consistent w) {i : ι} {e : Errand} {call : Invocation}
    {next : Answer → Dialogue Verdict}
    (hi : (w.threads i).phase = .deciding e (.ask .build call next)) :
    w.builds e.key = 0 ∧ ∀ answer, Settles (next answer) := by
  have hin : (w.threads i).phase.inside? = some e := by rw [hi]; rfl
  have hm := (h.seats i).mindful e hin
  rw [hi] at hm
  obtain ⟨hnone, hsettles⟩ : (w.slots e.address).state = none ∧ ∀ answer, Settles (next answer) := by
    rcases hm with hcareful | hsettles
    · exact hcareful
    · exact absurd rfl hsettles.1
  refine ⟨?_, hsettles⟩
  by_contra hne
  obtain ⟨a, ha, hcase⟩ := h.spent e.key (Nat.pos_of_ne_zero hne)
  have hae : a = e.address := by
    have hp := (h.seats i).placed e (by rw [hi]; rfl)
    rw [ha] at hp
    exact Option.some.inj hp
  subst hae
  rcases hcase with hstate | ⟨j, f, hj, hf, hre⟩
  · exact hstate hnone
  · have hij := h.alone hj hin hf
    subst hij
    rw [hi] at hre
    exact hre.1 rfl

end Consistent

namespace Consistent

variable {w : World ι}

-- A thread that is not inside stays outside.
theorem putOutside (h : Consistent w) (i : ι) (t : Thread)
    (hold : (w.threads i).phase.inside? = none) (hnew : t.phase.inside? = none)
    (hplaced : ∀ e, t.phase.errand? = some e → w.addresses e.key = some e.address) :
    Consistent (w.put i t) := by
  refine h.put i t ⟨hplaced, ?_, ?_⟩ ?_
  · intro e he
    simp [hnew] at he
  · intro e he
    simp [hnew] at he
  · intro e he
    simp [hold] at he

-- A thread that is inside goes on with its call.
theorem putInside (h : Consistent w) (i : ι) (e : Errand) (t : Thread)
    (hold : (w.threads i).phase.inside? = some e) (hnew : t.phase.inside? = some e)
    (hmindful : t.phase.Mindful (w.slots e.address).state)
    (hrebuilding : (w.threads i).phase.Rebuilding → t.phase.Rebuilding) :
    Consistent (w.put i t) := by
  have hseats := h.seats i
  refine h.put i t ⟨?_, ?_, ?_⟩ ?_
  · intro f hf
    rw [Phase.errand?_of_inside? hnew] at hf
    cases hf
    exact hseats.placed e (Phase.errand?_of_inside? hold)
  · intro f hf
    rw [hnew] at hf
    cases hf
    exact hseats.locked e hold
  · intro f hf
    rw [hnew] at hf
    cases hf
    exact hmindful
  · intro f hf hre
    rw [hold] at hf
    cases hf
    exact .inl ⟨hnew, hrebuilding hre⟩

end Consistent

theorem step_consistent {w w' : World ι} (h : Consistent w) (hstep : Step w w') :
    Consistent w' := by
  cases hstep with
  | skip i c calls hi =>
      refine h.putOutside i _ (by rw [hi]; rfl) rfl ?_
      intro e he
      cases he
  | takeKnown i e calls hi _ ha =>
      refine h.putOutside i _ (by rw [hi]; rfl) rfl ?_
      intro f hf
      cases hf
      exact ha
  | takeNew i e calls hi _ hnew ha =>
      have hout : (w.threads i).phase.inside? = none := by rw [hi]; rfl
      refine (h.allocate e.key hnew).putOutside i _ hout rfl ?_
      intro f hf
      cases hf
      simp [World.allocate, ha]
  | lock i e calls hi hfree =>
      -- Whoever is inside the slot holds its lock, which is free.
      have hnobody : ∀ j f, (w.threads j).phase.inside? = some f → f.address ≠ e.address := by
        intro j f hj ha
        have hl := (h.seats j).locked f hj
        rw [ha, hfree] at hl
        cases hl
      refine (h.setHolder e.address (some i) hnobody).put i _ ⟨?_, ?_, ?_⟩ ?_
      · intro f hf
        cases hf
        exact (h.seats i).placed e (by rw [hi]; rfl)
      · intro f hf
        cases hf
        simp [World.setHolder]
      · intro f hf
        cases hf
        rw [World.state_setHolder]
        exact .inl (careful_check _ _ _)
      · intro f hf
        change (w.threads i).phase.inside? = _ at hf
        rw [hi] at hf
        cases hf
  | run i e role call next calls hi =>
      have hin : (w.threads i).phase.inside? = some e := by rw [hi]; rfl
      have hmindful : (Phase.running e next).Mindful (w.slots e.address).state := by
        have hm := (h.seats i).mindful e hin
        rw [hi] at hm
        rcases hm with hcareful | hsettles
        · cases role with
          | build => exact .inr hcareful.2
          | parse => exact .inl hcareful
          | version => exact .inl hcareful
        · exact .inr hsettles.2
      have hput : Consistent (w.put i ⟨.running e next, calls⟩) := by
        refine h.putInside i e _ hin rfl hmindful ?_
        rw [hi]
        exact fun hre => hre.2
      refine hput.log _ ?_
      rintro rfl
      obtain ⟨hzero, hsettles⟩ := h.builds_eq_zero (by rw [hi])
      have ha := (h.seats i).placed e (Phase.errand?_of_inside? hin)
      refine ⟨hzero, e.address, ha, .inr ⟨i, e, ?_, rfl, ?_⟩⟩
      · rw [w.threads_put_self]
        rfl
      · rw [w.threads_put_self]
        exact hsettles
  | finish i e next answer calls hi =>
      have hin : (w.threads i).phase.inside? = some e := by rw [hi]; rfl
      refine h.putInside i e _ hin rfl ?_ ?_
      · have hm := (h.seats i).mindful e hin
        rw [hi] at hm
        rcases hm with hcareful | hsettles
        · exact .inl (hcareful answer)
        · exact .inr (hsettles answer)
      · rw [hi]
        exact fun hre => hre answer
  | store i e answer state calls hi =>
      have hphase : (w.threads i).phase = .deciding e (.done (answer, state)) := by rw [hi]
      have hin : (w.threads i).phase.inside? = some e := by rw [hi]; rfl
      refine (h.remember i e answer state hphase).put i _ ⟨?_, ?_, fun _ _ => trivial⟩ ?_
      · intro f hf
        cases hf
        exact (h.seats i).placed e (Phase.errand?_of_inside? hin)
      · intro f hf
        cases hf
        rw [World.holder_remember]
        exact (h.seats i).locked e hin
      · -- A check that has built ends with a state, and the slot now remembers it.
        intro f hf hre
        change (w.threads i).phase.inside? = _ at hf
        change (w.threads i).phase.Rebuilding at hre
        rw [hi] at hf hre
        cases hf
        obtain ⟨st, rfl⟩ := Option.isSome_iff_exists.mp hre
        right
        simp
  | unlock i e calls hi =>
      have hin : (w.threads i).phase.inside? = some e := by rw [hi]; rfl
      have hput : Consistent (w.put i ⟨.idle, calls⟩) := by
        refine h.put i _ ⟨fun _ he => (nomatch he), fun _ he => (nomatch he),
          fun _ he => (nomatch he)⟩ ?_
        intro f _ hre
        rw [hi] at hre
        exact hre.elim
      refine hput.setHolder e.address none ?_
      intro j f hf ha
      by_cases hj : j = i
      · subst hj
        rw [w.threads_put_self] at hf
        cases hf
      · rw [w.threads_put_of_ne _ hj] at hf
        exact hj (h.alone hf hin ha)

theorem run_consistent {w w' : World ι} (h : Consistent w)
    (hrun : Relation.ReflTransGen Step w w') : Consistent w' := by
  induction hrun with
  | refl => exact h
  | tail _ hstep ih => exact step_consistent ih hstep

-- The key that a thread works on between lock and unlock.
def World.insideKey? (w : World ι) (i : ι) : Option ProbeKey :=
  (w.threads i).phase.inside?.map Errand.key

-- However the calls are interleaved, the parser of a key is built at most once, and no two threads
-- are inside one key at the same time. Calls of one key need not agree on how to build.
theorem builds_once_and_alone (calls : ι → List Config) (w : World ι)
    (hrun : Relation.ReflTransGen Step (World.start calls) w) :
    (∀ k, w.builds k ≤ 1) ∧
      ∀ i j k, w.insideKey? i = some k → w.insideKey? j = some k → i = j := by
  have h := run_consistent (consistent_start calls) hrun
  refine ⟨h.once, ?_⟩
  intro i j k hi hj
  obtain ⟨e, he, rfl⟩ := Option.map_eq_some_iff.mp hi
  obtain ⟨f, hf, hkey⟩ := Option.map_eq_some_iff.mp hj
  -- The map gives both the same slot, and a slot has one holder.
  have hae := (h.seats i).placed e (Phase.errand?_of_inside? he)
  have haf := (h.seats j).placed f (Phase.errand?_of_inside? hf)
  rw [hkey, hae] at haf
  exact h.alone he hf (Option.some.inj haf)

-- Two configurations of one parser that would build it in different ways.
def sampleConfig (builder : String) : Config :=
  ⟨"Tool", "bin/tool", "--version", some "1.0", [builder], none, none, 600, true,
    ⟨"sample", ⟨[(1, "ROOT")]⟩, ⟨[]⟩, 1, "", ";", []⟩⟩

def sampleCalls : Bool → List Config
  | false => [sampleConfig "make"]
  | true => [sampleConfig "ninja"]

def sampleErrand (builder : String) : Errand := ⟨sampleConfig builder, "1.0", 0⟩

-- Neither the parser nor the programs that build it are installed.
def sampleAnswer : Answer := .error (.notFound "bin/tool")

-- Both threads hold the slot when the first one locks it. Its build fails, and when the other one has
-- asked the parser in its turn, it does not build again.
theorem builds_once_and_alone_sample :
    ∃ w : World Bool, Relation.ReflTransGen Step (World.start sampleCalls) w ∧
      w.builds (sampleErrand "make").key = 1 ∧
      w.insideKey? true = some (sampleErrand "make").key ∧
      (∀ k, w.builds k ≤ 1) ∧
      ∀ i j k, w.insideKey? i = some k → w.insideKey? j = some k → i = j := by
  have taken := Relation.ReflTransGen.single
    (Step.takeNew (World.start sampleCalls) false (sampleErrand "make") [] rfl rfl rfl rfl)
  have shared := taken.tail (Step.takeKnown _ true (sampleErrand "ninja") [] rfl rfl rfl)
  have locked := shared.tail (Step.lock _ false (sampleErrand "make") [] rfl rfl)
  have probing := locked.tail (Step.run _ false (sampleErrand "make") .version _ _ [] rfl)
  have probed := probing.tail (Step.finish _ false (sampleErrand "make") _ sampleAnswer [] rfl)
  have building := probed.tail (Step.run _ false (sampleErrand "make") .build _ _ [] rfl)
  have built := building.tail (Step.finish _ false (sampleErrand "make") _ sampleAnswer [] rfl)
  have stored := built.tail (Step.store _ false (sampleErrand "make") _ _ [] rfl)
  have unlocked := stored.tail (Step.unlock _ false (sampleErrand "make") [] rfl)
  have relocked := unlocked.tail (Step.lock _ true (sampleErrand "ninja") [] rfl rfl)
  have reprobing := relocked.tail (Step.run _ true (sampleErrand "ninja") .version _ _ [] rfl)
  have reprobed := reprobing.tail (Step.finish _ true (sampleErrand "ninja") _ sampleAnswer [] rfl)
  have refused := reprobed.tail (Step.store _ true (sampleErrand "ninja") _ _ [] rfl)
  exact ⟨_, refused, rfl, rfl, builds_once_and_alone sampleCalls _ refused⟩

end ExternalParser.Interleaving
