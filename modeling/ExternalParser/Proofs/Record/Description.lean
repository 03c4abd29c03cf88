import ExternalParser.Proofs.Json.Legality
import ExternalParser.Proofs.Record.Assembly
import Mathlib.Algebra.Group.Nat.Defs

namespace ExternalParser.NodeRecord

open Json

-- The value has the shape of a node: an object whose kind fits 32 bits and whose children are missing or
-- an array.
def NodeShaped (v : Value) (kind : Nat) (items : List Value) : Prop :=
  ∃ fields : Fields, v = .obj fields ∧
    fields.get? "kind" = some (.num (.natural kind)) ∧ kind < 2 ^ 32 ∧
    (fields.get? "children" = none ∧ items = [] ∨ fields.get? "children" = some (.arr items))

-- The value is an integer of 64 bits without a sign.
def IsIndex (v : Value) (index : Nat) : Prop :=
  v = .num (.natural index) ∧ index < 2 ^ 64

-- The children that a list of entries describes, in the same order.
inductive Describes : List Value → List ChildRecord → Prop
  | nil : Describes [] []
  | token {v : Value} {vs : List Value} {index : Nat} {cs : List ChildRecord} :
      IsIndex v index → Describes vs cs → Describes (v :: vs) (.token index :: cs)
  | node {v : Value} {vs items : List Value} {kind : Nat} {children cs : List ChildRecord} :
      NodeShaped v kind items → Describes items children → Describes vs cs →
      Describes (v :: vs) (.node kind children :: cs)
  | invalid {v : Value} {vs : List Value} {cs : List ChildRecord} :
      (∀ index, ¬ IsIndex v index) → (∀ kind items, ¬ NodeShaped v kind items) → Describes vs cs →
      Describes (v :: vs) (.invalid v :: cs)

variable {v w : Value} {vs : List Value} {cs : List ChildRecord} {o : Open}

theorem kindOf?_eq_some_iff {fields : Fields} {kind : Nat} :
    kindOf? fields = some kind ↔
      fields.get? "kind" = some (.num (.natural kind)) ∧ kind < 2 ^ 32 := by
  have hmax : ∀ n, n ≤ maxHalfWord ↔ n < 2 ^ 32 := fun n => Nat.le_sub_one_iff_lt (by decide)
  unfold kindOf?
  split
  · rename_i n hget
    rw [hget, Option.ite_none_right_eq_some, hmax]
    constructor
    · rintro ⟨hlt, ⟨⟩⟩
      exact ⟨rfl, hlt⟩
    · rintro ⟨⟨⟩, hlt⟩
      exact ⟨hlt, rfl⟩
  · rename_i hother
    simp only [reduceCtorEq, false_iff]
    exact fun hkind => hother kind hkind.1

theorem Open.ofValue_of_shaped {kind : Nat} {items : List Value} (h : NodeShaped v kind items) :
    Open.ofValue v = .ok ⟨kind, items, []⟩ := by
  obtain ⟨fields, rfl, hkind, hlt, hchildren⟩ := h
  simp only [Open.ofValue, kindOf?_eq_some_iff.mpr ⟨hkind, hlt⟩, Open.ofFields]
  rcases hchildren with ⟨hnone, rfl⟩ | hsome
  · rw [hnone]
  · rw [hsome]

-- A value that is not a node comes back as it was, even if something was taken out of it on the way.
theorem Open.ofValue_of_not_shaped (hv : v.Legal) (h : ∀ kind items, ¬ NodeShaped v kind items) :
    Open.ofValue v = .error v := by
  cases hv with
  | null | bool | num | str | arr => rfl
  | obj fields hascending _ =>
      simp only [Open.ofValue]
      split
      · rename_i kind hkind
        obtain ⟨hget, hlt⟩ := kindOf?_eq_some_iff.mp hkind
        unfold Open.ofFields
        split
        · rename_i hnone
          exact absurd ⟨fields, rfl, hget, hlt, .inl ⟨hnone, rfl⟩⟩ (h kind [])
        · rename_i items harr
          exact absurd ⟨fields, rfl, hget, hlt, .inr harr⟩ (h kind items)
        · rename_i other _ hother
          rw [hascending.insert_without hother]
      · rfl

theorem classify_of_index {index : Nat} (h : IsIndex v index) : classify v = .inl (.token index) := by
  rw [h.1]
  rfl

theorem classify_of_shaped {kind : Nat} {items : List Value} (h : NodeShaped v kind items) :
    classify v = .inr ⟨kind, items, []⟩ :=
  classify_eq_inr_iff.mpr (Open.ofValue_of_shaped h)

theorem classify_of_neither (hv : v.Legal) (hindex : ∀ index, ¬ IsIndex v index)
    (hshape : ∀ kind items, ¬ NodeShaped v kind items) : classify v = .inl (.invalid v) := by
  have hopen := Open.ofValue_of_not_shaped hv hshape
  unfold classify
  split
  · rename_i n
    cases hv with
    | num _ hlegal =>
        have hlt : n < 2 ^ 64 := Nat.lt_of_le_sub_one (by decide) hlegal
        exact absurd ⟨rfl, hlt⟩ (hindex n)
  · rw [hopen]

theorem legal_of_shaped {kind : Nat} {items : List Value} (hv : v.Legal)
    (h : NodeShaped v kind items) : ∀ item ∈ items, item.Legal := by
  obtain ⟨fields, rfl, -, -, hchildren⟩ := h
  rcases hchildren with ⟨-, rfl⟩ | hsome
  · simp
  · cases hv.get? hsome with
    | arr _ hitems => exact hitems

theorem sizeOf_items_lt {kind : Nat} {items : List Value} (h : NodeShaped v kind items) :
    sizeOf items < sizeOf v + 1 :=
  sizeOf_rest_lt (Open.ofValue_of_shaped h)

-- Every entry is of one of the three sorts, and the entries of a node are smaller than it.
theorem exists_describes (vs : List Value) : ∃ cs, Describes vs cs := by
  match vs with
  | [] => exact ⟨[], .nil⟩
  | v :: vs =>
      obtain ⟨cs, hcs⟩ := exists_describes vs
      by_cases hindex : ∃ index, IsIndex v index
      · obtain ⟨index, hindex⟩ := hindex
        exact ⟨_, .token hindex hcs⟩
      · by_cases hshape : ∃ kind items, NodeShaped v kind items
        · obtain ⟨kind, items, hshape⟩ := hshape
          have hlt := sizeOf_items_lt hshape
          obtain ⟨children, hchildren⟩ := exists_describes items
          exact ⟨_, .node hshape hchildren hcs⟩
        · exact ⟨_, .invalid (not_exists.mp hindex) (by simpa using hshape) hcs⟩
termination_by sizeOf vs
decreasing_by
  · simp only [List.cons.sizeOf_spec]
    omega
  · simp only [List.cons.sizeOf_spec]
    omega

theorem Describes.assembles (h : Describes vs cs) (hlegal : ∀ v ∈ vs, v.Legal) : Assembles vs cs := by
  induction h with
  | nil => exact .nil
  | token hindex _ ih =>
      obtain ⟨-, hrest⟩ := List.forall_mem_cons.mp hlegal
      exact .keep (classify_of_index hindex) (ih hrest)
  | node hshape _ _ ihc ih =>
      obtain ⟨hv, hrest⟩ := List.forall_mem_cons.mp hlegal
      exact .enter (classify_of_shaped hshape) (ihc (legal_of_shaped hv hshape)) (ih hrest)
  | invalid hindex hshape _ ih =>
      obtain ⟨hv, hrest⟩ := List.forall_mem_cons.mp hlegal
      exact .keep (classify_of_neither hv hindex hshape) (ih hrest)

theorem ofValue_of_describes {kind : Nat} {items : List Value} (hv : v.Legal)
    (hshape : NodeShaped v kind items) (h : Describes items cs) : ofValue v = .ok ⟨kind, cs⟩ := by
  rw [ofValue, Open.ofValue_of_shaped hshape, Except.map,
    assemble_of_assembles (h.assembles (legal_of_shaped hv hshape))]

-- A value in the shape of a node becomes the one record that it describes, and any other value is handed
-- back unchanged.
theorem ofValue_agrees (v : Value) (hv : v.Legal) :
    (∀ kind items, NodeShaped v kind items →
        ∃ children, ofValue v = .ok ⟨kind, children⟩ ∧ ∀ cs, Describes items cs ↔ cs = children) ∧
      ((∀ kind items, ¬ NodeShaped v kind items) → ofValue v = .error v) := by
  constructor
  · intro kind items hshape
    obtain ⟨children, hchildren⟩ := exists_describes items
    have hvalue := ofValue_of_describes hv hshape hchildren
    refine ⟨children, hvalue, fun cs => ⟨fun hcs => ?_, fun heq => heq ▸ hchildren⟩⟩
    have hsame := ofValue_of_describes hv hshape hcs
    rw [hvalue] at hsame
    cases hsame
    rfl
  · intro hshape
    rw [ofValue, Open.ofValue_of_not_shaped hv hshape]
    rfl

-- An object with a kind, but with a number for its children.
def oddValue : Value :=
  .obj [("children", .num (.natural 5)), ("kind", .num (.natural 2)), ("note", .null)]

def mixedItems : List Value :=
  [.num (.natural 0), oddValue, .obj [("kind", .num (.natural 3))], .num (.negative 1)]

def mixedValue : Value :=
  .obj [("children", .arr mixedItems), ("kind", .num (.natural 7))]

-- The fields of the text stand in other orders.
theorem readValue_mixed : readValue .finished
    [.openBrace, .str "kind", .colon, .num ⟨false, [7], none, none⟩, .comma, .str "children", .colon,
      .openBracket, .num ⟨false, [0], none, none⟩, .comma,
      .openBrace, .str "note", .colon, .null, .comma, .str "children", .colon,
      .num ⟨false, [5], none, none⟩, .comma, .str "kind", .colon, .num ⟨false, [2], none, none⟩,
      .closeBrace, .comma,
      .openBrace, .str "kind", .colon, .num ⟨false, [3], none, none⟩, .closeBrace, .comma,
      .num ⟨true, [1], none, none⟩, .closeBracket, .closeBrace] = .ok (mixedValue, []) := rfl

theorem not_shaped_odd (kind : Nat) (items : List Value) : ¬ NodeShaped oddValue kind items := by
  rintro ⟨fields, ⟨⟩, -, -, hchildren⟩
  simp [Fields.get?_cons] at hchildren

theorem mixedValue_agrees :
    mixedValue.Legal ∧ NodeShaped mixedValue 7 mixedItems ∧
      ofValue mixedValue = .ok ⟨7, [.token 0, .invalid oddValue, .node 3 [],
        .invalid (.num (.negative 1))]⟩ ∧
      ofValue oddValue = .error oddValue := by
  have hv : mixedValue.Legal := readValue_legal readValue_mixed
  have hshape : NodeShaped mixedValue 7 mixedItems := ⟨_, rfl, rfl, by decide, .inr rfl⟩
  have hitems := legal_of_shaped hv hshape
  have hodd : oddValue.Legal := hitems _ (by simp [mixedItems])
  obtain ⟨children, hvalue, honly⟩ := (ofValue_agrees mixedValue hv).1 7 mixedItems hshape
  have hdescribes : Describes mixedItems [.token 0, .invalid oddValue, .node 3 [],
      .invalid (.num (.negative 1))] :=
    .token ⟨rfl, by decide⟩ <| .invalid (by rintro index ⟨⟨⟩, -⟩) not_shaped_odd <|
      .node ⟨_, rfl, rfl, by decide, .inl ⟨rfl, rfl⟩⟩ .nil <|
      .invalid (by rintro index ⟨⟨⟩, -⟩) (by rintro kind items ⟨fields, ⟨⟩, -⟩) .nil
  obtain rfl := (honly _).mp hdescribes
  exact ⟨hv, hshape, hvalue, (ofValue_agrees oddValue hodd).2 not_shaped_odd⟩

end ExternalParser.NodeRecord
