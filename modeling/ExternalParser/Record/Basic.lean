import ExternalParser.Json.Value

namespace ExternalParser

-- A child of a node: a position in the stream, a nested node, or anything else, kept as it was
-- reported.
inductive ChildRecord where
  | token (index : Nat)
  | node (kind : Nat) (children : List ChildRecord)
  | invalid (value : Json.Value)

structure NodeRecord where
  kind : Nat
  children : List ChildRecord

-- A token: its kind, its text, and the byte offset where it begins.
structure TokenRecord where
  kind : Nat
  value : String
  offset : Nat
deriving DecidableEq

structure ParseRecord where
  tree : NodeRecord
  stream : List TokenRecord

namespace NodeRecord

def asChild (r : NodeRecord) : ChildRecord :=
  .node r.kind r.children

-- A node whose children are still being assembled, the finished ones in reverse.
structure Open where
  kind : Nat
  rest : List Json.Value
  done : List ChildRecord

-- The kind of a node-shaped object.
def kindOf? (fields : Json.Fields) : Option Nat :=
  match fields.get? "kind" with
  | some (.num (.natural n)) => if n ≤ Json.maxHalfWord then some n else none
  | _ => none

-- The children are taken out of an object, where they are an array or missing. Otherwise they are put
-- back, and the object is handed back.
def Open.ofFields (kind : Nat) (fields : Json.Fields) : Except Json.Value Open :=
  match fields.get? "children" with
  | none => .ok ⟨kind, [], []⟩
  | some (.arr items) => .ok ⟨kind, items, []⟩
  | some other => .error (.obj ((fields.without "children").insert "children" other))

-- A node is an object with a kind and, if it has the field, an array of children. Any other value is
-- handed back.
def Open.ofValue : Json.Value → Except Json.Value Open
  | .obj fields => match kindOf? fields with
    | some kind => Open.ofFields kind fields
    | none => .error (.obj fields)
  | v => .error v

-- An entry of a list of children: finished, or a node to be assembled.
def classify (v : Json.Value) : ChildRecord ⊕ Open :=
  match v with
  | .num (.natural n) => .inl (.token n)
  | v => match Open.ofValue v with
    | .ok o => .inr o
    | .error w => .inl (.invalid w)

theorem sizeOf_get? {fields : Json.Fields} {name : String} {v : Json.Value}
    (h : fields.get? name = some v) : sizeOf v < sizeOf fields := by
  induction fields with
  | nil => simp [Json.Fields.get?] at h
  | cons f fs ih =>
      obtain ⟨k, w⟩ := f
      simp only [Json.Fields.get?, List.lookup_cons] at h ih
      split at h
      · cases h
        simp only [List.cons.sizeOf_spec, Prod.mk.sizeOf_spec]
        omega
      · have := ih h
        simp only [List.cons.sizeOf_spec]
        omega

-- A node is assembled from a part of its value.
theorem sizeOf_rest_lt {v : Json.Value} {o : Open} (h : Open.ofValue v = .ok o) :
    sizeOf o.rest < sizeOf v + 1 := by
  match v with
  | .obj fields =>
      simp only [Open.ofValue] at h
      simp only [Json.Value.obj.sizeOf_spec]
      split at h
      · unfold Open.ofFields at h
        split at h
        · cases h
          simp only [List.nil.sizeOf_spec]
          omega
        · rename_i items hget
          cases h
          have := sizeOf_get? hget
          simp only [Json.Value.arr.sizeOf_spec] at this ⊢
          omega
        · cases h
      · cases h
  | .null | .bool _ | .num _ | .str _ | .arr _ => cases h

-- Assembles a node and all below it. The nodes that contain it wait on a stack.
def assemble (current : Open) (ancestors : List Open) : NodeRecord :=
  match _hc : current.rest with
  | [] =>
      let record : NodeRecord := ⟨current.kind, current.done.reverse⟩
      match ancestors with
      | [] => record
      | parent :: others => assemble { parent with done := record.asChild :: parent.done } others
  | v :: rest =>
      match _hv : classify v with
      | .inl c => assemble { current with rest := rest, done := c :: current.done } ancestors
      | .inr o => assemble o ({ current with rest := rest } :: ancestors)
termination_by sizeOf current.rest + ancestors.foldr (sizeOf ·.rest + ·) 0
decreasing_by
  · simp only [_hc, List.foldr_cons, List.nil.sizeOf_spec]
    omega
  · simp only [_hc, List.cons.sizeOf_spec]
    omega
  · have : sizeOf o.rest < sizeOf v + 1 := by
      unfold classify at _hv
      split at _hv
      · cases _hv
      · split at _hv
        · cases _hv
          exact sizeOf_rest_lt (by assumption)
        · cases _hv
    simp only [_hc, List.foldr_cons, List.cons.sizeOf_spec]
    omega

-- The node that a value describes. A value that describes none is handed back.
def ofValue (v : Json.Value) : Except Json.Value NodeRecord :=
  (Open.ofValue v).map (assemble · [])

def ofValue? (v : Json.Value) : Option NodeRecord :=
  (ofValue v).toOption

end NodeRecord

end ExternalParser
