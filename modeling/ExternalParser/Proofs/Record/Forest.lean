import ExternalParser.Tree.Build

namespace ExternalParser

-- One induction for all functions on lists of children: a nested record brings the hypothesis for
-- its own children and the one for what follows it.
@[elab_as_elim]
theorem ChildRecord.forestInduction {motive : List ChildRecord → Prop}
    (nil : motive [])
    (token : ∀ index cs, motive cs → motive (.token index :: cs))
    (node : ∀ kind children cs, motive children → motive cs → motive (.node kind children :: cs))
    (invalid : ∀ value cs, motive cs → motive (.invalid value :: cs)) :
    ∀ cs, motive cs :=
  @ChildRecord.rec_1 (fun c => ∀ cs, motive cs → motive (c :: cs)) motive
    token (fun kind children hchildren cs => node kind children cs hchildren) invalid
    nil (fun _ cs hc hcs => hc cs hcs)

mutual

-- The node records in a child, each before those below it.
def ChildRecord.records : ChildRecord → List NodeRecord
  | .node kind children => ⟨kind, children⟩ :: recordsOf children
  | .token _ | .invalid _ => []

def recordsOf : List ChildRecord → List NodeRecord
  | [] => []
  | c :: cs => c.records ++ recordsOf cs

end

mutual

-- The positions of the stream that a child refers to.
def ChildRecord.references : ChildRecord → List Nat
  | .token index => [index]
  | .node _ children => referencesOf children
  | .invalid _ => []

def referencesOf : List ChildRecord → List Nat
  | [] => []
  | c :: cs => c.references ++ referencesOf cs

end

mutual

-- The values in a child that are neither positions nor records.
def ChildRecord.oddities : ChildRecord → List Json.Value
  | .invalid value => [value]
  | .node _ children => odditiesOf children
  | .token _ => []

def odditiesOf : List ChildRecord → List Json.Value
  | [] => []
  | c :: cs => c.oddities ++ odditiesOf cs

end

namespace NodeRecord

def records (r : NodeRecord) : List NodeRecord :=
  r :: recordsOf r.children

def references (r : NodeRecord) : List Nat :=
  referencesOf r.children

def oddities (r : NodeRecord) : List Json.Value :=
  odditiesOf r.children

end NodeRecord

-- Functions on children unfold at the head of a list.
attribute [simp] ChildRecord.records recordsOf ChildRecord.references referencesOf
  ChildRecord.oddities odditiesOf ChildRecord.nodeCount nodeCounts

theorem length_recordsOf (cs : List ChildRecord) : (recordsOf cs).length = nodeCounts cs := by
  induction cs using ChildRecord.forestInduction with
  | nil => rfl
  | token index cs ih => simpa using ih
  | node kind children cs ihc ih =>
      simp only [recordsOf, ChildRecord.records, nodeCounts, ChildRecord.nodeCount,
        List.cons_append, List.length_cons, List.length_append, ihc, ih]
      omega
  | invalid value cs ih => simpa using ih

end ExternalParser
