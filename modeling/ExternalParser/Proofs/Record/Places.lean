import ExternalParser.Proofs.Record.Forest
import Mathlib.Data.List.Basic

namespace ExternalParser

-- The way down to a child; the root is at the empty one.
abbrev Place := List Nat

-- A node comes before what is below it, and a child before the children to its right.
def Place.Before (p q : Place) : Prop :=
  List.Lex (· < ·) p q

instance (p q : Place) : Decidable (p.Before q) :=
  List.decidableLex (· < ·) p q

namespace ChildRecord

@[simp]
def branches : ChildRecord → List ChildRecord
  | .node _ children => children
  | .token _ | .invalid _ => []

-- What stands at a place.
def at? (c : ChildRecord) : Place → Option ChildRecord
  | [] => some c
  | i :: p => c.branches[i]?.bind (·.at? p)

end ChildRecord

-- The same, seen from the node that has the child at position `i`.
def deeper (i : Nat) (spot : Place × ChildRecord) : Place × ChildRecord :=
  (i :: spot.1, spot.2)

@[simp]
theorem deeper_fst (i : Nat) (spot : Place × ChildRecord) : (deeper i spot).1 = i :: spot.1 := rfl

mutual

-- All places of a child, each with what stands there, in the order of a walk.
def ChildRecord.spots : ChildRecord → List (Place × ChildRecord)
  | .node kind children => ([], .node kind children) :: spotsFrom 0 children
  | .token index => [([], .token index)]
  | .invalid value => [([], .invalid value)]

-- The places of children of which the first is at position `i`.
def spotsFrom (i : Nat) : List ChildRecord → List (Place × ChildRecord)
  | [] => []
  | c :: cs => c.spots.map (deeper i) ++ spotsFrom (i + 1) cs

end

-- A node record stands there.
def holdsNode : Place × ChildRecord → Bool
  | (_, .node _ _) => true
  | (_, .token _) | (_, .invalid _) => false

namespace ChildRecord

-- The number of node records before a place.
def number (c : ChildRecord) (p : Place) : Nat :=
  c.spots.countP fun spot => spot.1.Before p && holdsNode spot

-- The number of the node record that a place is right below.
def ownerNumber (c : ChildRecord) (p : Place) : Nat :=
  c.number p.dropLast

end ChildRecord

namespace Place

variable {i j : Nat} {p q : Place}

@[simp]
theorem not_before_nil : ¬ p.Before [] :=
  List.not_lex_nil

@[simp]
theorem nil_before_cons : Before [] (i :: p) :=
  .nil

@[simp]
theorem cons_before_cons_iff : Before (i :: p) (j :: q) ↔ i < j ∨ i = j ∧ p.Before q :=
  List.cons_lex_cons_iff

theorem Before.irrefl (p : Place) : ¬ p.Before p :=
  List.lt_irrefl p

theorem Before.asymm (h : p.Before q) : ¬ q.Before p :=
  List.lt_asymm h

end Place

theorem mem_spotsFrom_iff {i : Nat} {cs : List ChildRecord} {p : Place} {x : ChildRecord} :
    (p, x) ∈ spotsFrom i cs ↔
      ∃ j q c, p = (i + j) :: q ∧ cs[j]? = some c ∧ (q, x) ∈ c.spots := by
  induction cs generalizing i with
  | nil => simp [spotsFrom]
  | cons c cs ih =>
      rw [spotsFrom, List.mem_append, ih]
      constructor
      · rintro (hfirst | ⟨j, q, d, rfl, hd, hq⟩)
        · obtain ⟨⟨q, y⟩, hq, heq⟩ := List.mem_map.mp hfirst
          cases heq
          exact ⟨0, q, c, rfl, rfl, hq⟩
        · exact ⟨j + 1, q, d, by rw [Nat.add_right_comm, Nat.add_assoc], hd, hq⟩
      · rintro ⟨j, q, d, rfl, hd, hq⟩
        cases j with
        | zero =>
            cases hd
            exact .inl (List.mem_map.mpr ⟨(q, x), hq, rfl⟩)
        | succ j => exact .inr ⟨j, q, d, by rw [Nat.add_right_comm, Nat.add_assoc], hd, hq⟩

namespace ChildRecord

-- The list has what can be looked up.
theorem mem_spots_iff {c x : ChildRecord} {p : Place} : (p, x) ∈ c.spots ↔ c.at? p = some x := by
  induction p generalizing c with
  | nil =>
      have hbelow : ∀ cs, ([], x) ∉ spotsFrom 0 cs := by
        intro cs hmem
        obtain ⟨j, q, d, hp, -⟩ := mem_spotsFrom_iff.mp hmem
        cases hp
      cases c with
      | node kind children => simp [spots, at?, hbelow, eq_comm]
      | token index => simp [spots, at?, eq_comm]
      | invalid value => simp [spots, at?, eq_comm]
  | cons i p ih =>
      cases c with
      | node kind children =>
          rw [spots, List.mem_cons, mem_spotsFrom_iff, at?, Option.bind_eq_some_iff, branches]
          constructor
          · rintro (heq | ⟨j, q, d, hp, hd, hq⟩)
            · cases heq
            · rw [Nat.zero_add] at hp
              cases hp
              exact ⟨d, hd, ih.mp hq⟩
          · rintro ⟨d, hd, hx⟩
            exact .inr ⟨i, p, d, by rw [Nat.zero_add], hd, ih.mpr hx⟩
      | token index => simp [spots, at?]
      | invalid value => simp [spots, at?]

end ChildRecord

-- The children stand side by side, and each before what is in those to its right.
theorem spotsFrom_cons_ascends {i : Nat} {c : ChildRecord} {cs : List ChildRecord}
    (hc : (c.spots.map Prod.fst).Pairwise Place.Before)
    (hcs : ((spotsFrom (i + 1) cs).map Prod.fst).Pairwise Place.Before) :
    ((spotsFrom i (c :: cs)).map Prod.fst).Pairwise Place.Before := by
  rw [spotsFrom, List.map_append, List.map_map, List.pairwise_append]
  refine ⟨?_, hcs, ?_⟩
  · rw [List.pairwise_map] at hc ⊢
    apply hc.imp
    intro spot other hbefore
    exact Place.cons_before_cons_iff.mpr (.inr ⟨rfl, hbefore⟩)
  · intro p hp q hq
    obtain ⟨spot, -, rfl⟩ := List.mem_map.mp hp
    obtain ⟨⟨_, x⟩, hx, rfl⟩ := List.mem_map.mp hq
    obtain ⟨j, q, d, rfl, -⟩ := mem_spotsFrom_iff.mp hx
    exact Place.cons_before_cons_iff.mpr (.inl (by omega))

theorem spotsFrom_ascends (i : Nat) (cs : List ChildRecord) :
    ((spotsFrom i cs).map Prod.fst).Pairwise Place.Before := by
  induction cs using ChildRecord.forestInduction generalizing i with
  | nil => exact List.Pairwise.nil
  | token index cs ih => exact spotsFrom_cons_ascends (List.pairwise_singleton _ _) (ih _)
  | node kind children cs ihc ih =>
      refine spotsFrom_cons_ascends ?_ (ih _)
      rw [ChildRecord.spots, List.map_cons, List.pairwise_cons]
      refine ⟨?_, ihc 0⟩
      intro p hp
      obtain ⟨⟨_, x⟩, hx, rfl⟩ := List.mem_map.mp hp
      obtain ⟨j, q, d, rfl, -⟩ := mem_spotsFrom_iff.mp hx
      exact Place.nil_before_cons
  | invalid value cs ih => exact spotsFrom_cons_ascends (List.pairwise_singleton _ _) (ih _)

theorem ChildRecord.spots_ascend (c : ChildRecord) :
    (c.spots.map Prod.fst).Pairwise Place.Before := by
  have hsingle := spotsFrom_ascends 0 [c]
  rw [spotsFrom, spotsFrom, List.append_nil, List.map_map, List.pairwise_map] at hsingle
  rw [List.pairwise_map]
  apply hsingle.imp
  intro spot other hbefore
  simpa using hbefore

-- What stands before a place in the list is what comes before it.
theorem ChildRecord.mem_before_iff {c x y : ChildRecord} {p q : Place}
    {before after : List (Place × ChildRecord)} (h : c.spots = before ++ (p, x) :: after) :
    (q, y) ∈ before ↔ q.Before p ∧ c.at? q = some y := by
  have hsorted := c.spots_ascend
  rw [h, List.map_append, List.map_cons, List.pairwise_append, List.pairwise_cons] at hsorted
  obtain ⟨-, ⟨hafter, -⟩, hbefore⟩ := hsorted
  rw [← mem_spots_iff, h]
  constructor
  · intro hq
    exact ⟨hbefore q (List.mem_map_of_mem hq) p List.mem_cons_self, List.mem_append_left _ hq⟩
  · rintro ⟨hqp, hq⟩
    rcases List.mem_append.mp hq with hq | hq
    · exact hq
    · rcases List.mem_cons.mp hq with heq | hq
      · cases heq
        exact absurd hqp (Place.Before.irrefl p)
      · exact absurd hqp (hafter q (List.mem_map_of_mem hq)).asymm

theorem spotsFrom_append (i : Nat) (cs ds : List ChildRecord) :
    spotsFrom i (cs ++ ds) = spotsFrom i cs ++ spotsFrom (i + cs.length) ds := by
  induction cs generalizing i with
  | nil => rfl
  | cons c cs ih =>
      rw [List.cons_append, spotsFrom, spotsFrom, ih, List.append_assoc, List.length_cons,
        Nat.add_assoc, Nat.add_comm 1]

theorem nodeCounts_append (cs ds : List ChildRecord) :
    nodeCounts (cs ++ ds) = nodeCounts cs + nodeCounts ds := by
  induction cs with
  | nil => simp
  | cons c cs ih =>
      rw [List.cons_append, nodeCounts, nodeCounts, ih, Nat.add_assoc]

@[simp]
theorem holdsNode_deeper (i : Nat) (spot : Place × ChildRecord) :
    holdsNode (deeper i spot) = holdsNode spot := by
  obtain ⟨p, x⟩ := spot
  cases x with
  | node kind children => rfl
  | token index => rfl
  | invalid value => rfl

theorem countP_holdsNode_spotsFrom (i : Nat) (cs : List ChildRecord) :
    (spotsFrom i cs).countP holdsNode = nodeCounts cs := by
  have hdeeper : ∀ i, holdsNode ∘ deeper i = holdsNode := fun i => funext (holdsNode_deeper i)
  induction cs using ChildRecord.forestInduction generalizing i with
  | nil => rfl
  | token index cs ih => simp [spotsFrom, ChildRecord.spots, holdsNode, deeper, ih]
  | node kind children cs ihc ih =>
      rw [spotsFrom, List.countP_append, List.countP_map, hdeeper, ih,
        ChildRecord.spots, List.countP_cons_of_pos rfl, ihc, nodeCounts, ChildRecord.nodeCount,
        Nat.add_comm 1]
  | invalid value cs ih => simp [spotsFrom, ChildRecord.spots, holdsNode, deeper, ih]

namespace ChildRecord

@[simp]
theorem number_nil (c : ChildRecord) : c.number [] = 0 := by
  simp [number]

-- Before a place inside a child come the node around it, what is in the children to the left, and what
-- comes before it in the child itself.
theorem number_cons (kind : Nat) (left right : List ChildRecord) (c : ChildRecord) (p : Place) :
    (node kind (left ++ c :: right)).number (left.length :: p) =
      1 + nodeCounts left + c.number p := by
  have hleft : (spotsFrom 0 left).countP
      (fun spot => spot.1.Before (left.length :: p) && holdsNode spot) = nodeCounts left := by
    rw [← countP_holdsNode_spotsFrom 0 left]
    apply List.countP_congr
    rintro ⟨q, x⟩ hx
    obtain ⟨j, q, d, rfl, hd, -⟩ := mem_spotsFrom_iff.mp hx
    have hj : j < left.length := (List.getElem?_eq_some_iff.mp hd).1
    simp [hj]
  have hinside : (c.spots.map (deeper left.length)).countP
      (fun spot => spot.1.Before (left.length :: p) && holdsNode spot) = c.number p := by
    rw [List.countP_map]
    apply List.countP_congr
    simp
  have hright : (spotsFrom (left.length + 1) right).countP
      (fun spot => spot.1.Before (left.length :: p) && holdsNode spot) = 0 := by
    rw [List.countP_eq_zero]
    rintro ⟨q, x⟩ hx
    obtain ⟨j, q, d, rfl, -⟩ := mem_spotsFrom_iff.mp hx
    have hlt : ¬ left.length + 1 + j < left.length := by omega
    have hne : left.length + 1 + j ≠ left.length := by omega
    simp [hlt, hne]
  rw [number, spots, spotsFrom_append, Nat.zero_add, spotsFrom,
    List.countP_cons_of_pos (by simp [holdsNode]), List.countP_append, List.countP_append, hleft,
    hinside, hright]
  omega

-- How the walk goes by a place of a child whose own number is `next`.
def visitAt (c : ChildRecord) (next : Nat) : Place × ChildRecord → Visit
  | (p, .node kind _) => .node (next + c.number p) kind
  | (p, .token index) => .token (next + c.ownerNumber p) index
  | (p, .invalid value) => .invalid (next + c.ownerNumber p) value

-- A place inside a child is gone by as it is in the child by itself.
theorem visitAt_cons (kind next : Nat) (left right : List ChildRecord) (c x : ChildRecord) {p : Place}
    (hp : p ≠ []) :
    (node kind (left ++ c :: right)).visitAt next (left.length :: p, x) =
      c.visitAt (next + (1 + nodeCounts left)) (p, x) := by
  cases x with
  | node kind children => simp only [visitAt, number_cons, Nat.add_assoc]
  | token index =>
      simp only [visitAt, ownerNumber, List.dropLast_cons_of_ne_nil hp, number_cons, Nat.add_assoc]
  | invalid value =>
      simp only [visitAt, ownerNumber, List.dropLast_cons_of_ne_nil hp, number_cons, Nat.add_assoc]

end ChildRecord

-- The walk goes by a child, and then by those to its right.
theorem visitsOf_cons_eq_map {kind next : Nat} {left cs : List ChildRecord} {c : ChildRecord}
    (hc : c.visits next (next + (1 + nodeCounts left)) = (c.spots.map (deeper left.length)).map
      ((ChildRecord.node kind (left ++ c :: cs)).visitAt next))
    (hcs : visitsOf next (next + (1 + nodeCounts (left ++ [c]))) cs =
      (spotsFrom (left ++ [c]).length cs).map
        ((ChildRecord.node kind (left ++ [c] ++ cs)).visitAt next)) :
    visitsOf next (next + (1 + nodeCounts left)) (c :: cs) = (spotsFrom left.length (c :: cs)).map
      ((ChildRecord.node kind (left ++ c :: cs)).visitAt next) := by
  simp only [nodeCounts_append, nodeCounts, Nat.add_zero, List.length_append, List.length_singleton,
    List.append_assoc, List.singleton_append, ← Nat.add_assoc] at hcs
  rw [visitsOf, hc, ← Nat.add_assoc, hcs, spotsFrom, List.map_append]

theorem visitsOf_eq_map (kind next : Nat) (left cs : List ChildRecord) :
    visitsOf next (next + (1 + nodeCounts left)) cs =
      (spotsFrom left.length cs).map ((ChildRecord.node kind (left ++ cs)).visitAt next) := by
  induction cs using ChildRecord.forestInduction generalizing kind next left with
  | nil => rfl
  | token index cs ih =>
      apply visitsOf_cons_eq_map ?_ (ih kind next _)
      simp [ChildRecord.visits, ChildRecord.spots, deeper, ChildRecord.visitAt, ChildRecord.ownerNumber]
  | node inner children cs ihc ih =>
      apply visitsOf_cons_eq_map ?_ (ih kind next _)
      have hbelow := ihc inner (next + (1 + nodeCounts left)) []
      rw [nodeCounts, Nat.add_zero, List.length_nil, List.nil_append] at hbelow
      have hinside : ((spotsFrom 0 children).map (deeper left.length)).map
          ((ChildRecord.node kind (left ++ .node inner children :: cs)).visitAt next) =
            (spotsFrom 0 children).map
              ((ChildRecord.node inner children).visitAt (next + (1 + nodeCounts left))) := by
        rw [List.map_map]
        apply List.map_congr_left
        rintro ⟨_, x⟩ hx
        obtain ⟨j, q, d, rfl, -⟩ := mem_spotsFrom_iff.mp hx
        exact ChildRecord.visitAt_cons kind next left cs _ x (List.cons_ne_nil _ _)
      rw [ChildRecord.visits, hbelow, ChildRecord.spots, List.map_cons, List.map_cons, hinside, deeper,
        ChildRecord.visitAt, ChildRecord.number_cons, ChildRecord.number_nil, Nat.add_zero]
  | invalid value cs ih =>
      apply visitsOf_cons_eq_map ?_ (ih kind next _)
      simp [ChildRecord.visits, ChildRecord.spots, deeper, ChildRecord.visitAt, ChildRecord.ownerNumber]

namespace NodeRecord

def at? (r : NodeRecord) (p : Place) : Option ChildRecord :=
  r.asChild.at? p

-- The number of node records before a place; that of a node record is its own.
def number (r : NodeRecord) (p : Place) : Nat :=
  r.asChild.number p

-- The number of the node record that has the place among its children.
def ownerNumber (r : NodeRecord) (p : Place) : Nat :=
  r.number p.dropLast

-- The walk stops at all places in their order, and goes by their numbers.
theorem visits_eq_map (r : NodeRecord) :
    r.visits = r.asChild.spots.map (r.asChild.visitAt 0) := by
  have hbelow := visitsOf_eq_map r.kind 0 [] r.children
  rw [nodeCounts, Nat.zero_add, List.length_nil, List.nil_append] at hbelow
  rw [visits, hbelow, asChild, ChildRecord.spots, List.map_cons, ChildRecord.visitAt,
    ChildRecord.number_nil]

end NodeRecord

end ExternalParser
