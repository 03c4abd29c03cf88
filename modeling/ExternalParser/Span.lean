namespace ExternalParser

-- The bytes of a source from the start up to, but without, the stop.
structure Span where
  start : Nat
  stop : Nat
deriving DecidableEq

namespace Span

-- The span of a node without tokens.
def empty : Span := ⟨0, 0⟩

-- The span between two offsets, if they are in order.
def between? (start stop : Nat) : Option Span :=
  if start ≤ stop then some ⟨start, stop⟩ else none

def length (s : Span) : Nat :=
  s.stop - s.start

def isEmpty (s : Span) : Bool :=
  s.start = s.stop

def contains (s : Span) (offset : Nat) : Bool :=
  s.start ≤ offset && offset < s.stop

-- The smallest span that covers both.
def cover (s t : Span) : Span :=
  ⟨min s.start t.start, max s.stop t.stop⟩

-- The span that covers all of those that there are.
def cover? : List (Option Span) → Option Span
  | [] => none
  | none :: rest => cover? rest
  | some s :: rest => match cover? rest with
    | none => some s
    | some t => some (s.cover t)

def describe (s : Span) : String :=
  s!"Span \x7b start: {s.start}, end: {s.stop} \x7d"

end Span

end ExternalParser
