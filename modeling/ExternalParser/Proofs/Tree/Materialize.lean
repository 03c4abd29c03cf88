import ExternalParser.Proofs.Tree.Cover

namespace ExternalParser

section Arrays

variable {α : Type} {xs ys : Array α} {x : α} {i : Nat} {f g : α → α}

theorem modify_append (h : i < xs.size) : (xs ++ ys).modify i f = xs.modify i f ++ ys := by
  apply Array.ext_getElem?
  intro j
  rw [Array.getElem?_modify, Array.getElem?_append, Array.getElem?_append, Array.size_modify,
    Array.getElem?_modify]
  split_ifs <;> first | rfl | omega

theorem modify_push_last (h : xs.size = i) : (xs.push x).modify i f = xs.push (f x) := by
  subst h
  apply Array.ext_getElem?
  intro j
  rw [Array.getElem?_modify, Array.getElem?_push, Array.getElem?_push]
  split_ifs <;> first | rfl | omega

theorem modify_modify : (xs.modify i f).modify i g = xs.modify i (g ∘ f) := by
  apply Array.ext_getElem?
  intro j
  rw [Array.getElem?_modify, Array.getElem?_modify, Array.getElem?_modify]
  split_ifs
  · rw [Option.map_map]
  · rfl

end Arrays

def NodeData.adopting (cs : List ChildId) (d : NodeData) : NodeData :=
  { d with children := d.children ++ cs }

theorem NodeData.adopting_comp (cs more : List ChildId) :
    adopting more ∘ adopting cs = adopting (cs ++ more) := by
  funext d
  exact congrArg (fun children => { d with children := children }) (List.append_assoc ..)

theorem modify_adopting_nil (nodes : Array NodeData) (i : Nat) :
    nodes.modify i (NodeData.adopting []) = nodes := by
  have hsame : NodeData.adopting [] = id := by
    funext d
    exact congrArg (fun children => { d with children := children }) (List.append_nil _)
  apply Array.ext_getElem?
  intro j
  rw [Array.getElem?_modify, hsame, Option.map_id]
  exact ite_self _

-- The tokens with other owners.
def markedBy (tokens : Array TokenData) (owners : Owners) : Array TokenData :=
  tokens.mapIdx fun i t => { t with parent := (owners[i]?).join }

section Marks

variable {tokens : Array TokenData} {owners others : Owners}

theorem getElem?_markedBy (i : Nat) : (markedBy tokens owners)[i]? =
    tokens[i]?.map fun t => { t with parent := (owners[i]?).join } := by
  rw [markedBy, Array.getElem?_mapIdx]

theorem markedBy_markedBy : markedBy (markedBy tokens owners) others = markedBy tokens others := by
  apply Array.ext_getElem?
  intro i
  rw [getElem?_markedBy, getElem?_markedBy, getElem?_markedBy, Option.map_map]
  rfl

theorem markedBy_parents : markedBy tokens (tokens.map TokenData.parent) = tokens := by
  apply Array.ext_getElem?
  intro i
  rw [getElem?_markedBy, Array.getElem?_map]
  cases tokens[i]? <;> rfl

theorem parents_markedBy (h : owners.size = tokens.size) :
    (markedBy tokens owners).map TokenData.parent = owners := by
  apply Array.ext_getElem?
  intro i
  rw [Array.getElem?_map, getElem?_markedBy, Option.map_map]
  by_cases hi : i < owners.size
  · rw [Array.getElem?_eq_getElem hi, Array.getElem?_eq_getElem (by omega : i < tokens.size)]
    rfl
  · rw [Array.getElem?_eq_none (by omega : owners.size ≤ i),
      Array.getElem?_eq_none (by omega : tokens.size ≤ i)]
    rfl

theorem markedBy_setIfInBounds {i : Nat} {t : TokenData} {p : Option Nat} (ht : tokens[i]? = some t) :
    markedBy (tokens.setIfInBounds i { t with parent := p }) owners = markedBy tokens owners := by
  apply Array.ext_getElem?
  intro j
  rw [getElem?_markedBy, getElem?_markedBy, Array.getElem?_setIfInBounds]
  have hi := (Array.getElem?_eq_some_iff.mp ht).1
  by_cases hij : i = j
  · rw [if_pos hij, if_pos hi, ← hij, ht]
    rfl
  · rw [if_neg hij]

end Marks

namespace Arena

def owners (a : Arena) : Owners :=
  a.tokens.map TokenData.parent

-- The nodes of a forest of children of `parent`, without their spans.
def bareNodes (parent next : Nat) (cs : List ChildRecord) : Array NodeData :=
  ((nodesOf #[] parent next cs).map NodeData.unspanned).toArray

-- The arena when the children of a node are through, and with them all below.
def filled (parent : Nat) (cs : List ChildRecord) (a : Arena) (owners : Owners) : Arena :=
  ⟨a.nodes.modify parent (NodeData.adopting (childIds a.nodes.size cs)) ++
    bareNodes parent a.nodes.size cs, markedBy a.tokens owners⟩

-- What the children of a node come to, by the walk through them.
def fill (g : Grammar) (parent : Nat) (cs : List ChildRecord) (a : Arena) : Except Defect Arena :=
  ((visitsOf parent a.nodes.size cs).foldlM (Visit.check g) a.owners).map (a.filled parent cs)

section Fill

variable {g : Grammar} {parent : Nat} {cs : List ChildRecord} {a : Arena}

theorem nodes_adopt (child : ChildId) :
    (a.adopt parent child).nodes = a.nodes.modify parent (NodeData.adopting [child]) :=
  rfl

theorem size_adopt (child : ChildId) : (a.adopt parent child).nodes.size = a.nodes.size :=
  Array.size_modify

theorem owners_adopt (child : ChildId) : (a.adopt parent child).owners = a.owners :=
  rfl

theorem filled_token {index : Nat} {t : TokenData} (ht : a.tokens[index]? = some t) (owners : Owners) :
    (Arena.adopt parent (.token index)
        { a with tokens := a.tokens.setIfInBounds index { t with parent := some parent } }).filled
      parent cs owners = a.filled parent (.token index :: cs) owners := by
  rw [filled, filled, nodes_adopt, Array.size_modify, modify_modify, NodeData.adopting_comp]
  exact congrArg (Arena.mk _) (markedBy_setIfInBounds ht)

theorem fill_nil : a.fill g parent [] = .ok a := by
  have hnodes : a.nodes.modify parent (NodeData.adopting []) ++ bareNodes parent a.nodes.size [] =
      a.nodes := by
    rw [modify_adopting_nil]
    exact Array.append_empty
  have hfilled : a.filled parent [] a.owners = a := by
    rw [filled, childIds, hnodes, owners, markedBy_parents]
  exact congrArg Except.ok hfilled

theorem fill_token {index : Nat} : a.fill g parent (.token index :: cs) =
    a.claim parent index >>= fun b => (b.adopt parent (.token index)).fill g parent cs := by
  have howner : a.owners[index]? = a.tokens[index]?.map TokenData.parent := Array.getElem?_map
  have hsize : a.owners.size = a.tokens.size := Array.size_map
  rw [fill, visitsOf, ChildRecord.visits, List.singleton_append, List.foldlM_cons, Visit.check, howner,
    claim, hsize]
  cases htoken : a.tokens[index]? with
  | none => rfl
  | some t =>
      cases hparent : t.parent with
      | some owner =>
          simp only [Option.map_some, hparent]
          rfl
      | none =>
          simp only [Option.map_some, hparent]
          let b : Arena :=
            { a with tokens := a.tokens.setIfInBounds index { t with parent := some parent } }
          have howners : b.owners = a.owners.setIfInBounds index (some parent) :=
            Array.map_setIfInBounds
          have hfill : (b.adopt parent (.token index)).fill g parent cs =
              ((visitsOf parent a.nodes.size cs).foldlM (Visit.check g) b.owners).map
                (a.filled parent (.token index :: cs)) := by
            rw [fill, size_adopt, owners_adopt, funext (filled_token htoken)]
          rw [howners] at hfill
          exact hfill.symm

theorem size_filled (owners : Owners) :
    (a.filled parent cs owners).nodes.size = a.nodes.size + nodeCounts cs := by
  simp [filled, bareNodes, length_nodesOf]

-- The arena with a new node, which its parent has as a child.
def entered (kind parent : Nat) (a : Arena) : Arena :=
  ({ a with nodes := a.nodes.push ⟨kind, some parent, [], none⟩ } : Arena).adopt parent
    (.node a.nodes.size)

theorem size_entered (kind parent : Nat) (a : Arena) :
    (a.entered kind parent).nodes.size = a.nodes.size + 1 := by
  rw [entered, size_adopt]
  exact Array.size_push ..

theorem nodes_entered (kind : Nat) (h : parent < a.nodes.size) :
    (a.entered kind parent).nodes =
      (a.nodes.modify parent (NodeData.adopting [.node a.nodes.size])).push
        ⟨kind, some parent, [], none⟩ := by
  rw [entered, nodes_adopt, Array.push_eq_append, modify_append h, ← Array.push_eq_append]

theorem bareNodes_node (kind : Nat) (children : List ChildRecord) (next : Nat) :
    bareNodes parent next (.node kind children :: cs) =
      #[⟨kind, some parent, childIds (next + 1) children, none⟩] ++ bareNodes next (next + 1) children ++
        bareNodes parent (next + 1 + nodeCounts children) cs := by
  simp [bareNodes, NodeData.unspanned, Nat.add_assoc]

-- The children of a new node, and then the rest of those of its parent.
theorem filled_node {kind : Nat} {children : List ChildRecord} {inner owners : Owners}
    (h : parent < a.nodes.size) :
    ((a.entered kind parent).filled a.nodes.size children inner).filled parent cs owners =
      a.filled parent (.node kind children :: cs) owners := by
  let named := a.nodes.modify parent (NodeData.adopting [.node a.nodes.size])
  let d : NodeData := ⟨kind, some parent, childIds (a.nodes.size + 1) children, none⟩
  have hnamed : named.size = a.nodes.size := Array.size_modify
  have hinner : ((a.entered kind parent).filled a.nodes.size children inner).nodes =
      named ++ (#[d] ++ bareNodes a.nodes.size (a.nodes.size + 1) children) := by
    rw [filled, size_entered, nodes_entered kind h, modify_push_last hnamed, Array.push_eq_append,
      Array.append_assoc]
    rfl
  have hsize : ((a.entered kind parent).filled a.nodes.size children inner).nodes.size =
      a.nodes.size + 1 + nodeCounts children := by
    rw [size_filled, size_entered]
  have hnodes : ((a.entered kind parent).filled a.nodes.size children inner).nodes.modify parent
        (NodeData.adopting (childIds (a.nodes.size + 1 + nodeCounts children) cs)) ++
          bareNodes parent (a.nodes.size + 1 + nodeCounts children) cs =
      (a.filled parent (.node kind children :: cs) owners).nodes := by
    rw [hinner, modify_append (hnamed ▸ h), modify_modify, NodeData.adopting_comp, filled,
      bareNodes_node]
    simp only [Array.append_assoc, childIds, ChildRecord.nodeCount, Nat.add_assoc,
      List.singleton_append]
    rfl
  rw [filled, hsize, hnodes]
  exact congrArg (Arena.mk _) markedBy_markedBy

theorem fill_node {kind : Nat} {children : List ChildRecord} (h : parent < a.nodes.size) :
    a.fill g parent (.node kind children :: cs) =
      a.pushNode g kind (some parent) >>= fun b =>
        (b.adopt parent (.node a.nodes.size)).fill g a.nodes.size children >>= fill g parent cs := by
  rw [fill, visitsOf, ChildRecord.visits, List.cons_append, List.foldlM_cons, Visit.check, pushNode]
  by_cases hkind : g.nodeKinds.contains kind
  · rw [if_pos hkind, if_pos hkind]
    change _ = (a.entered kind parent).fill g a.nodes.size children >>= fill g parent cs
    have hcheck : (.ok a.owners >>= fun owners =>
        (visitsOf a.nodes.size (a.nodes.size + 1) children ++ visitsOf parent
          (a.nodes.size + (ChildRecord.node kind children).nodeCount) cs).foldlM (Visit.check g) owners) =
        (visitsOf a.nodes.size (a.nodes.size + 1) children).foldlM (Visit.check g) a.owners >>=
          fun owners => (visitsOf parent (a.nodes.size + (1 + nodeCounts children)) cs).foldlM
            (Visit.check g) owners := List.foldlM_append
    rw [hcheck, fill, size_entered]
    change _ = Except.map _ (List.foldlM (Visit.check g) a.owners _) >>= _
    cases hinner : (visitsOf a.nodes.size (a.nodes.size + 1) children).foldlM (Visit.check g)
        a.owners with
    | error d => rfl
    | ok owners =>
        have hmarked : ((a.entered kind parent).filled a.nodes.size children owners).owners = owners :=
          parents_markedBy ((walk_size g _ _ _ hinner).trans Array.size_map)
        have hfilled : ((a.entered kind parent).filled a.nodes.size children owners).filled parent cs =
            a.filled parent (.node kind children :: cs) := funext fun _ => filled_node h
        change _ = fill g parent cs _
        rw [fill, size_filled, size_entered, hmarked, hfilled, Nat.add_assoc]
        rfl
  · rw [if_neg hkind, if_neg hkind]
    rfl

theorem fill_invalid {value : Json.Value} :
    a.fill g parent (.invalid value :: cs) = .error (.invalidChild parent value) :=
  rfl

end Fill

-- What every turn keeps: the open nodes are in the arena, and what is still to come on the stack makes
-- the outcome of it.
structure Building (g : Grammar) (outcome : Except Defect Arena) (a : Arena) (stack : List OpenNode) :
    Prop where
  inArena : ∀ o ∈ stack, o.id < a.nodes.size
  comesTo : stack.foldlM (fun a o => a.fill g o.id o.rest) a = outcome

section Turns

variable {g : Grammar} {outcome : Except Defect Arena} {a b : Arena} {o : OpenNode}
  {inner stack : List OpenNode}

-- A turn changes nothing about what the children of a node come to.
theorem turn_fill (h : o.id < a.nodes.size) : a.fill g o.id o.rest =
    turn g a o >>= fun next => next.2.foldlM (fun a o => a.fill g o.id o.rest) next.1 := by
  obtain ⟨parent, rest⟩ := o
  cases rest with
  | nil => exact fill_nil
  | cons c rest =>
      cases c with
      | token index =>
          simp only [fill_token, turn]
          cases a.claim parent index with
          | error d => rfl
          | ok b => exact (bind_pure _).symm
      | node kind children =>
          simp only [fill_node h, turn]
          cases a.pushNode g kind (some parent) with
          | error d => rfl
          | ok b =>
              have hlast : (fun c => fill g parent rest c >>= pure) = fill g parent rest :=
                funext fun _ => bind_pure _
              change _ = (b.adopt parent (.node a.nodes.size)).fill g a.nodes.size children >>=
                fun c => fill g parent rest c >>= pure
              rw [hlast]
              rfl
      | invalid value => exact fill_invalid

theorem nodes_of_claim {parent index : Nat} (h : a.claim parent index = .ok b) : b.nodes = a.nodes := by
  unfold claim at h
  split at h
  · cases h
  · split at h
    · cases h
    · cases h
      rfl

theorem size_of_pushNode {kind : Nat} {parent : Option Nat} (h : a.pushNode g kind parent = .ok b) :
    b.nodes.size = a.nodes.size + 1 := by
  unfold pushNode at h
  split at h
  · cases h
    exact Array.size_push ..
  · cases h

-- The nodes that a turn leaves open are in the arena, and no node goes out of it.
theorem turn_inArena (hturn : turn g a o = .ok (b, inner)) (h : o.id < a.nodes.size) :
    a.nodes.size ≤ b.nodes.size ∧ ∀ o' ∈ inner, o'.id < b.nodes.size := by
  obtain ⟨parent, rest⟩ := o
  cases rest with
  | nil =>
      cases hturn
      simp
  | cons c rest =>
      cases c with
      | token index =>
          simp only [turn] at hturn
          cases hclaim : a.claim parent index with
          | error d =>
              rw [hclaim] at hturn
              cases hturn
          | ok c =>
              rw [hclaim] at hturn
              cases hturn
              simpa [size_adopt, nodes_of_claim hclaim] using h
      | node kind children =>
          simp only [turn] at hturn
          cases hpush : a.pushNode g kind (some parent) with
          | error d =>
              rw [hpush] at hturn
              cases hturn
          | ok c =>
              rw [hpush] at hturn
              cases hturn
              have hsize := size_of_pushNode hpush
              simp only [size_adopt, List.mem_cons, List.not_mem_nil, or_false, forall_eq_or_imp,
                forall_eq]
              simp only at h
              omega
      | invalid value => cases hturn

theorem Building.turn_ok (h : Building g outcome a (o :: stack)) (hturn : turn g a o = .ok (b, inner)) :
    Building g outcome b (inner ++ stack) := by
  have ho := h.inArena o List.mem_cons_self
  obtain ⟨hgrows, hinner⟩ := turn_inArena hturn ho
  refine ⟨?_, ?_⟩
  · intro o' ho'
    rcases List.mem_append.mp ho' with hnew | hold
    · exact hinner o' hnew
    · exact Nat.lt_of_lt_of_le (h.inArena o' (List.mem_cons_of_mem _ hold)) hgrows
  · have hcomes := h.comesTo
    rw [List.foldlM_cons, turn_fill ho, hturn] at hcomes
    rw [List.foldlM_append]
    exact hcomes

theorem Building.turn_error {d : Defect} (h : Building g outcome a (o :: stack))
    (hturn : turn g a o = .error d) : outcome = .error d := by
  have hcomes := h.comesTo
  rw [List.foldlM_cons, turn_fill (h.inArena o List.mem_cons_self), hturn] at hcomes
  exact hcomes.symm

theorem Building.materialize_eq (h : Building g outcome a stack) : a.materialize g stack = outcome := by
  fun_induction materialize g a stack with
  | case1 a => exact h.comesTo
  | case2 a o others d hturn => exact (h.turn_error hturn).symm
  | case3 a o others b inner hturn ih => exact ih (h.turn_ok hturn)

end Turns

end Arena

section Whole

variable {g : Grammar} {source : String} {r : ParseRecord} {tokens : Array TokenData}

theorem nodes_unspanned (spans : Array Span) (parent next : Nat) (cs : List ChildRecord) :
    (nodesOf spans parent next cs).map NodeData.unspanned =
      (nodesOf #[] parent next cs).map NodeData.unspanned := by
  induction cs using ChildRecord.forestInduction generalizing parent next with
  | nil => rfl
  | token index cs ih => simpa using ih parent next
  | node kind children cs ihc ih => simp [ihc, ih, NodeData.unspanned]
  | invalid value cs ih => simpa using ih parent next

theorem filled_root (owners : Owners) :
    (⟨#[⟨r.tree.kind, none, [], none⟩], tokens⟩ : Arena).filled 0 r.tree.children owners =
      ⟨((Tree.layout g source r owners).nodes.map NodeData.unspanned), markedBy tokens owners⟩ := by
  simp [Arena.filled, Arena.bareNodes, Tree.layout, NodeRecord.nodes, nodes_unspanned,
    NodeData.unspanned, NodeData.adopting]

-- Without its spans, what is laid out for a record is what the walk fills an arena with.
theorem materialize_root (source : String) (tokens : Array TokenData) :
    (Arena.pushNode g r.tree.kind none ⟨#[], tokens⟩ >>= (·.materialize g [⟨0, r.tree.children⟩])) =
      (r.tree.visits.foldlM (Visit.check g) (tokens.map TokenData.parent)).map fun owners =>
        ⟨(Tree.layout g source r owners).nodes.map NodeData.unspanned, markedBy tokens owners⟩ := by
  rw [NodeRecord.visits, List.foldlM_cons, Visit.check, Arena.pushNode]
  by_cases hkind : g.nodeKinds.contains r.tree.kind
  · rw [if_pos hkind, if_pos hkind]
    let a : Arena := ⟨#[⟨r.tree.kind, none, [], none⟩], tokens⟩
    have hbuilding : a.Building g (a.fill g 0 r.tree.children) [⟨0, r.tree.children⟩] := by
      refine ⟨?_, bind_pure _⟩
      intro o ho
      rw [List.mem_singleton.mp ho]
      exact Nat.zero_lt_one
    change a.materialize g [⟨0, r.tree.children⟩] = _
    rw [hbuilding.materialize_eq, Arena.fill, funext filled_root]
    rfl
  · rw [if_neg hkind, if_neg hkind]
    rfl

theorem parents_data : (r.stream.map TokenRecord.data).toArray.map TokenData.parent =
    Array.replicate r.stream.length none := by
  rw [List.map_toArray, List.map_map, ← List.toArray_replicate]
  exact congrArg List.toArray (List.map_const' ..)

theorem markedBy_data {owners : Owners} (h : owners.size = r.stream.length) :
    markedBy (r.stream.map TokenRecord.data).toArray owners =
      (Tree.layout g source r owners).tokens := by
  apply Array.ext_getElem?
  intro i
  have hstream : (r.stream.map TokenRecord.data).toArray[i]? = r.stream[i]?.map TokenRecord.data := by
    rw [List.getElem?_toArray, List.getElem?_map]
  rw [getElem?_markedBy, hstream, layout_token? g source r owners h, Option.map_map]
  rfl

-- Building a tree node by node, with a stack of open nodes and a pass for the spans, is checking the
-- record as a whole and laying it out.
theorem build_eq_ofRecord (g : Grammar) (source : String) (r : ParseRecord) :
    Tree.build g source r = Tree.ofRecord g source r := by
  cases hstream : streamDefect? g source 0 0 r.stream with
  | some d =>
      simp only [Tree.build, Tree.ofRecord, ParseRecord.check, hstream]
      rfl
  | none =>
      have hcheck : r.check g source =
          r.tree.visits.foldlM (Visit.check g) (Array.replicate r.stream.length none) := by
        rw [ParseRecord.check, hstream]
      have hroot := materialize_root (g := g) (r := r) source (r.stream.map TokenRecord.data).toArray
      have hbuild : Tree.build g source r =
          (Arena.pushNode g r.tree.kind none ⟨#[], (r.stream.map TokenRecord.data).toArray⟩ >>=
            (·.materialize g [⟨0, r.tree.children⟩])).map fun a =>
              ⟨source, g, a.tokens, sweepSpans a.tokens a.nodes, 0 :: lineStartsFrom 0 source.toList⟩ := by
        simp only [Tree.build, hstream]
        cases Arena.pushNode g r.tree.kind none ⟨#[], (r.stream.map TokenRecord.data).toArray⟩ with
        | error d => rfl
        | ok a => rfl
      rw [hbuild, hroot, parents_data, ← hcheck]
      cases howners : r.check g source with
      | error d =>
          rw [Tree.ofRecord, howners]
          rfl
      | ok owners =>
          have htree : Tree.ofRecord g source r = .ok (Tree.layout g source r owners) := by
            rw [Tree.ofRecord, howners]
            rfl
          have htokens : markedBy (r.stream.map TokenRecord.data).toArray owners =
              (Tree.layout g source r owners).tokens :=
            markedBy_data (check_size g source r owners howners)
          simp only [Except.map]
          rw [htree, htokens, (ofRecord_nested htree).sweepSpans_eq]
          rfl

end Whole

end ExternalParser
