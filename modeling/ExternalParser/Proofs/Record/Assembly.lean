import ExternalParser.Proofs.Record.Forest

namespace ExternalParser

open Json

mutual

-- The value that describes a child.
def ChildRecord.value : ChildRecord → Value
  | .token index => .num (.natural index)
  | .node kind children =>
      .obj [("children", .arr (valuesOf children)), ("kind", .num (.natural kind))]
  | .invalid value => value

def valuesOf : List ChildRecord → List Value
  | [] => []
  | c :: cs => c.value :: valuesOf cs

end

attribute [simp] ChildRecord.value valuesOf

namespace NodeRecord

def value (r : NodeRecord) : Value :=
  r.asChild.value

section Steps

variable {kind : Nat} {v : Value} {rest : List Value} {done : List ChildRecord}
  {ancestors : List Open}

theorem assemble_keep {c : ChildRecord} (hv : classify v = .inl c) :
    assemble ⟨kind, v :: rest, done⟩ ancestors = assemble ⟨kind, rest, c :: done⟩ ancestors := by
  rw [assemble]
  simp only
  split
  · rename_i hc
    rw [hv] at hc
    cases hc
    rfl
  · rename_i hc
    rw [hv] at hc
    cases hc

theorem assemble_enter {o : Open} (hv : classify v = .inr o) :
    assemble ⟨kind, v :: rest, done⟩ ancestors =
      assemble o (⟨kind, rest, done⟩ :: ancestors) := by
  rw [assemble]
  simp only
  split
  · rename_i hc
    rw [hv] at hc
    cases hc
  · rename_i hc
    rw [hv] at hc
    cases hc
    rfl

theorem assemble_leave (parent : Open) :
    assemble ⟨kind, [], done⟩ (parent :: ancestors) =
      assemble ⟨parent.kind, parent.rest, .node kind done.reverse :: parent.done⟩ ancestors := by
  rw [assemble]
  rfl

theorem assemble_end : assemble ⟨kind, [], done⟩ [] = ⟨kind, done.reverse⟩ := by
  rw [assemble]

end Steps

-- The children that a list of entries comes to, each entry classified by itself and those of a nested
-- node in the same way.
inductive Assembles : List Value → List ChildRecord → Prop
  | nil : Assembles [] []
  | keep {v : Value} {vs : List Value} {c : ChildRecord} {cs : List ChildRecord} :
      classify v = .inl c → Assembles vs cs → Assembles (v :: vs) (c :: cs)
  | enter {v : Value} {vs : List Value} {o : Open} {children cs : List ChildRecord} :
      classify v = .inr o → Assembles o.rest children → Assembles vs cs →
      Assembles (v :: vs) (.node o.kind children :: cs)

theorem Open.done_eq_nil {v : Value} {o : Open} (h : Open.ofValue v = .ok o) : o.done = [] := by
  unfold Open.ofValue at h
  split at h
  · split at h
    · unfold Open.ofFields at h
      split at h
      · cases h
        rfl
      · cases h
        rfl
      · cases h
    · cases h
  · cases h

theorem classify_eq_inr_iff {v : Value} {o : Open} : classify v = .inr o ↔ Open.ofValue v = .ok o := by
  unfold classify
  split
  · simp [Open.ofValue]
  · split
    · rename_i hopen
      simp [hopen]
    · rename_i hopen
      simp [hopen]

-- The nodes around the entries wait while these are assembled, so what waits does not matter.
theorem assemble_append {vs : List Value} {cs : List ChildRecord} (h : Assembles vs cs) (kind : Nat)
    (rest : List Value) (done : List ChildRecord) (ancestors : List Open) :
    assemble ⟨kind, vs ++ rest, done⟩ ancestors =
      assemble ⟨kind, rest, cs.reverse ++ done⟩ ancestors := by
  induction h generalizing kind rest done ancestors with
  | nil => rfl
  | keep hv _ ih =>
      rw [List.cons_append, assemble_keep hv, ih]
      simp
  | @enter v vs o children cs hv _ _ ihc ih =>
      obtain ⟨k, items, finished⟩ := o
      obtain rfl : finished = [] := Open.done_eq_nil (classify_eq_inr_iff.mp hv)
      have hchildren := ihc k [] [] (⟨kind, vs ++ rest, done⟩ :: ancestors)
      rw [List.append_nil, List.append_nil] at hchildren
      rw [List.cons_append, assemble_enter hv, hchildren, assemble_leave, ih]
      simp

theorem assemble_of_assembles {vs : List Value} {cs : List ChildRecord} (h : Assembles vs cs)
    (kind : Nat) : assemble ⟨kind, vs, []⟩ [] = ⟨kind, cs⟩ := by
  have hall := assemble_append h kind [] [] []
  rwa [List.append_nil, List.append_nil, assemble_end, List.reverse_reverse] at hall

theorem Open.ofValue_value {kind : Nat} {children : List ChildRecord} (hkind : kind ≤ maxHalfWord) :
    Open.ofValue (ChildRecord.node kind children).value = .ok ⟨kind, valuesOf children, []⟩ := by
  simp [Open.ofValue, Open.ofFields, kindOf?, Fields.get?, List.lookup_cons, hkind]

theorem classify_value {kind : Nat} {children : List ChildRecord} (hkind : kind ≤ maxHalfWord) :
    classify (ChildRecord.node kind children).value = .inr ⟨kind, valuesOf children, []⟩ := by
  have hopen := @Open.ofValue_value kind children hkind
  simp only [ChildRecord.value] at hopen
  simp [classify, hopen]

theorem assembles_valuesOf (cs : List ChildRecord) (hodd : odditiesOf cs = [])
    (hkinds : ∀ r ∈ recordsOf cs, r.kind ≤ maxHalfWord) : Assembles (valuesOf cs) cs := by
  induction cs using ChildRecord.forestInduction with
  | nil => exact .nil
  | token index cs ih => exact .keep rfl (ih (by simpa using hodd) (by simpa using hkinds))
  | node kind children cs ihc ih =>
      simp only [odditiesOf, ChildRecord.oddities, List.append_eq_nil_iff] at hodd
      simp only [recordsOf, ChildRecord.records, List.cons_append, List.mem_cons, List.mem_append,
        or_imp, forall_and, forall_eq] at hkinds
      obtain ⟨hk, hbelow, hrest⟩ := hkinds
      exact .enter (classify_value hk) (ihc hodd.1 hbelow) (ih hodd.2 hrest)
  | invalid value cs ih => simp at hodd

theorem ofValue?_value (r : NodeRecord) (hodd : r.oddities = [])
    (hkinds : ∀ n ∈ r.records, n.kind ≤ maxHalfWord) : ofValue? r.value = some r := by
  simp only [records, List.mem_cons, forall_eq_or_imp] at hkinds
  have hall := assembles_valuesOf r.children hodd hkinds.2
  rw [ofValue?, ofValue, value, asChild, Open.ofValue_value hkinds.1, Except.map,
    assemble_of_assembles hall]
  rfl

end NodeRecord

end ExternalParser
