import ExternalParser.Proofs.Json.Reading

namespace ExternalParser.Json

namespace Fields

-- No two fields have the same name, and they stand in the order of their names.
def Ascending (fields : Fields) : Prop :=
  fields.Pairwise (·.1 < ·.1)

variable {fields : Fields} {name : String} {v : Value}

theorem get?_cons (other : String) (w : Value) (rest : Fields) (name : String) :
    Fields.get? ((other, w) :: rest) name = if name = other then some w else rest.get? name := by
  by_cases h : name = other
  · simp [get?, h]
  · have hbeq : (name == other) = false := by simpa using h
    simp [get?, List.lookup_cons, h, hbeq]

theorem mem_of_get? (h : fields.get? name = some v) : (name, v) ∈ fields := by
  induction fields with
  | nil => simp [get?] at h
  | cons first rest ih =>
      obtain ⟨other, w⟩ := first
      rw [get?_cons] at h
      split at h
      · rename_i hname
        cases h
        exact hname ▸ List.mem_cons_self
      · exact List.mem_cons_of_mem _ (ih h)

theorem mem_of_mem_insert {f : String × Value} (h : f ∈ fields.insert name v) :
    f = (name, v) ∨ f ∈ fields := by
  induction fields with
  | nil => exact .inl (List.mem_singleton.mp h)
  | cons first rest ih =>
      obtain ⟨other, w⟩ := first
      rw [insert] at h
      split at h
      · exact (List.mem_cons.mp h).imp_right (List.mem_cons_of_mem _)
      · split at h
        · exact List.mem_cons.mp h
        · rcases List.mem_cons.mp h with rfl | h
          · exact .inr List.mem_cons_self
          · exact (ih h).imp_right (List.mem_cons_of_mem _)

theorem insert_of_lt (h : ∀ f ∈ fields, name < f.1) : fields.insert name v = (name, v) :: fields := by
  cases fields with
  | nil => rfl
  | cons first rest =>
      obtain ⟨other, w⟩ := first
      have hlt : name < other := h _ List.mem_cons_self
      have hne : name ≠ other := fun heq => String.lt_irrefl other (heq ▸ hlt)
      rw [insert, if_neg hne, if_pos hlt]

theorem Ascending.insert (h : fields.Ascending) : (fields.insert name v).Ascending := by
  induction fields with
  | nil => exact List.pairwise_singleton _ _
  | cons first rest ih =>
      obtain ⟨other, w⟩ := first
      obtain ⟨hfirst, hrest⟩ := List.pairwise_cons.mp h
      rw [Fields.insert]
      split
      · rename_i heq
        subst heq
        exact List.pairwise_cons.mpr ⟨hfirst, hrest⟩
      · rename_i hne
        split
        · rename_i hlt
          refine List.pairwise_cons.mpr ⟨?_, h⟩
          intro f hf
          rcases List.mem_cons.mp hf with rfl | hf
          · exact hlt
          · exact String.lt_trans hlt (hfirst f hf)
        · rename_i hnot
          refine List.pairwise_cons.mpr ⟨?_, ih hrest⟩
          intro f hf
          rcases mem_of_mem_insert hf with rfl | hf
          · exact Std.lt_of_le_of_ne (String.not_lt.mp hnot) (Ne.symm hne)
          · exact hfirst f hf

-- A field that is taken out and put in again stands where it stood.
theorem Ascending.insert_without (h : fields.Ascending) (hget : fields.get? name = some v) :
    (fields.without name).insert name v = fields := by
  induction fields with
  | nil => simp [get?] at hget
  | cons first rest ih =>
      obtain ⟨other, w⟩ := first
      obtain ⟨hfirst, hrest⟩ := List.pairwise_cons.mp h
      rw [get?_cons] at hget
      split at hget
      · rename_i heq
        subst heq
        cases hget
        have hkept : Fields.without ((name, v) :: rest) name = rest := by
          have hall : ∀ f ∈ rest, f.1 ≠ name := by
            intro f hf heq
            exact String.lt_irrefl name (heq ▸ hfirst f hf)
          simpa [without] using hall
        rw [hkept, insert_of_lt hfirst]
      · rename_i hne
        have hlt : other < name := hfirst _ (mem_of_get? hget)
        have hkept : Fields.without ((other, w) :: rest) name = (other, w) :: without rest name := by
          simp [without, Ne.symm hne]
        rw [hkept, Fields.insert, if_neg hne, if_neg (String.lt_asymm hlt), ih hrest hget]

end Fields

def Number.Legal : Number → Prop
  | .natural n => n ≤ maxWord
  | .negative n => 0 < n ∧ n ≤ Nat.pow 2 63
  | .real _ => True

-- The values that a text can hold: integers fit their words, and the names of an object ascend.
inductive Value.Legal : Value → Prop
  | null : Legal .null
  | bool (b : Bool) : Legal (.bool b)
  | num (n : Number) : n.Legal → Legal (.num n)
  | str (s : String) : Legal (.str s)
  | arr (items : List Value) : (∀ v ∈ items, Legal v) → Legal (.arr items)
  | obj (fields : Fields) : fields.Ascending → (∀ f ∈ fields, Legal f.2) → Legal (.obj fields)

theorem Value.Legal.get? {fields : Fields} {name : String} {v : Value} (h : (Value.obj fields).Legal)
    (hget : fields.get? name = some v) : v.Legal := by
  cases h with
  | obj _ _ hfields => exact hfields _ (Fields.mem_of_get? hget)

theorem Numeral.appendDigits_le {word : Nat} (ds : List Nat) (h : word ≤ maxWord) :
    (appendDigits word ds).1 ≤ maxWord := by
  induction ds generalizing word with
  | nil => exact h
  | cons d ds ih =>
      rw [appendDigits]
      split
      · rename_i hfits
        exact ih hfits
      · exact h

theorem Numeral.number?_legal {n : Numeral} {x : Number} (h : n.number? = some x) : x.Legal := by
  have hword : (appendDigits 0 n.whole).1 ≤ maxWord := appendDigits_le _ (Nat.zero_le _)
  unfold number? at h
  simp only at h
  split at h
  · split at h
    · obtain ⟨_, -, rfl⟩ := Option.map_eq_some_iff.mp h
      trivial
    · split at h
      · cases h
        exact hword
      · split at h
        · obtain ⟨_, -, rfl⟩ := Option.map_eq_some_iff.mp h
          trivial
        · rename_i hsmall
          cases h
          refine ⟨?_, ?_⟩ <;> omega
  · split at h
    · obtain ⟨_, -, rfl⟩ := Option.map_eq_some_iff.mp h
      trivial
    · obtain ⟨_, -, rfl⟩ := Option.map_eq_some_iff.mp h
      trivial

theorem numberOf_legal {m : Mode} {n : Numeral} {x : Number} (h : numberOf m n = .ok x) : x.Legal := by
  unfold numberOf at h
  split at h
  · cases h
    exact Nat.zero_le _
  · rename_i hnumber
    cases h
    exact Numeral.number?_legal hnumber
  · cases h

-- What was read so far of an open container.
def Frame.Legal : Frame → Prop
  | .items done => ∀ v ∈ done, v.Legal
  | .fields done _ => done.Ascending ∧ ∀ f ∈ done, f.2.Legal

def Progress.Legal : Progress → Prop
  | .whole v => v.Legal
  | .more _ stack => ∀ frame ∈ stack, frame.Legal

section Steps

variable {m : Mode} {stack : List Frame} {p : Progress}

theorem complete_legal {v : Value} (hv : v.Legal) (hstack : ∀ frame ∈ stack, frame.Legal) :
    (complete v stack).Legal := by
  match stack with
  | [] => exact hv
  | .items done :: stack =>
      obtain ⟨hdone, hrest⟩ := List.forall_mem_cons.mp hstack
      exact List.forall_mem_cons.mpr ⟨List.forall_mem_cons.mpr ⟨hv, hdone⟩, hrest⟩
  | .fields done name :: stack =>
      obtain ⟨⟨hascending, hdone⟩, hrest⟩ := List.forall_mem_cons.mp hstack
      refine List.forall_mem_cons.mpr ⟨⟨hascending.insert, ?_⟩, hrest⟩
      intro f hf
      rcases Fields.mem_of_mem_insert hf with rfl | hf
      · exact hv
      · exact hdone f hf

theorem beginValue_legal {t : Token} (h : beginValue m stack t = .ok p)
    (hstack : ∀ frame ∈ stack, frame.Legal) : p.Legal := by
  cases t with
  | null =>
      cases h
      exact complete_legal .null hstack
  | bool b =>
      cases h
      exact complete_legal (.bool b) hstack
  | num n =>
      obtain ⟨x, hx, ⟨⟩⟩ := bind_eq_ok_iff.mp h
      exact complete_legal (.num x (numberOf_legal hx)) hstack
  | str text =>
      obtain ⟨s, -, ⟨⟩⟩ := bind_eq_ok_iff.mp h
      exact complete_legal (.str s) hstack
  | openBracket =>
      cases h
      exact List.forall_mem_cons.mpr ⟨by simp [Frame.Legal], hstack⟩
  | openBrace =>
      cases h
      exact List.forall_mem_cons.mpr ⟨⟨List.Pairwise.nil, by simp⟩, hstack⟩
  | closeBracket | closeBrace | comma | colon => cases h

theorem beginField_legal {text : Option String} (h : beginField m text stack = .ok p)
    (hstack : ∀ frame ∈ stack, frame.Legal) : p.Legal := by
  match stack with
  | .fields done _ :: stack =>
      obtain ⟨s, -, ⟨⟩⟩ := bind_eq_ok_iff.mp h
      obtain ⟨hdone, hrest⟩ := List.forall_mem_cons.mp hstack
      exact List.forall_mem_cons.mpr ⟨hdone, hrest⟩
  | [] | .items _ :: _ => cases h

theorem closeItems_legal (h : closeItems stack = .ok p) (hstack : ∀ frame ∈ stack, frame.Legal) :
    p.Legal := by
  match stack with
  | .items done :: stack =>
      cases h
      obtain ⟨hdone, hrest⟩ := List.forall_mem_cons.mp hstack
      exact complete_legal (.arr _ fun v hv => hdone v (List.mem_reverse.mp hv)) hrest
  | [] | .fields _ _ :: _ => cases h

theorem closeFields_legal (h : closeFields stack = .ok p) (hstack : ∀ frame ∈ stack, frame.Legal) :
    p.Legal := by
  match stack with
  | .fields done _ :: stack =>
      cases h
      obtain ⟨⟨hascending, hdone⟩, hrest⟩ := List.forall_mem_cons.mp hstack
      exact complete_legal (.obj done hascending hdone) hrest
  | [] | .items _ :: _ => cases h

theorem advance_legal {want : Want} {t : Token} (h : advance m stack want t = .ok p)
    (hstack : ∀ frame ∈ stack, frame.Legal) : p.Legal := by
  cases want with
  | value => exact beginValue_legal h hstack
  | firstItem =>
      by_cases ht : t = .closeBracket
      · subst ht
        exact closeItems_legal h hstack
      · have hbegin : advance m stack .firstItem t = beginValue m stack t := by
          simp [advance]
        rw [hbegin] at h
        exact beginValue_legal h hstack
  | nextItem =>
      cases t with
      | closeBracket => exact closeItems_legal h hstack
      | comma =>
          cases h
          exact hstack
      | _ => cases h
  | firstName =>
      cases t with
      | closeBrace => exact closeFields_legal h hstack
      | str text => exact beginField_legal h hstack
      | _ => cases h
  | name =>
      cases t with
      | str text => exact beginField_legal h hstack
      | _ => cases h
  | nextName =>
      cases t with
      | closeBrace => exact closeFields_legal h hstack
      | comma =>
          cases h
          exact hstack
      | _ => cases h
  | colon =>
      cases t with
      | colon =>
          cases h
          exact hstack
      | _ => cases h

end Steps

theorem readFrom_legal {m : Mode} {e : Ending} {want : Want} {stack : List Frame}
    {ts rest : List Token} {v : Value} (h : readFrom m e want stack ts = .ok (v, rest))
    (hstack : ∀ frame ∈ stack, frame.Legal) : v.Legal := by
  induction ts generalizing want stack with
  | nil => cases h
  | cons t ts ih =>
      rw [readFrom] at h
      cases hstep : advance m stack want t with
      | error f => simp [hstep] at h
      | ok p =>
          have hp := advance_legal hstep hstack
          simp only [hstep] at h
          cases p with
          | whole w =>
              cases h
              exact hp
          | more want stack => exact ih h hp

theorem readValue_legal {e : Ending} {ts rest : List Token} {v : Value}
    (h : readValue e ts = .ok (v, rest)) : v.Legal :=
  readFrom_legal h (by simp)

end ExternalParser.Json
