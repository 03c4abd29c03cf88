import ExternalParser.Dialogue

namespace ExternalParser

-- What comes of a run in a script.
inductive Cue where
  | finish (output : Output)
  | missing
  | timeout
  | cancelled
  | refused (reason : String)
  | broken (reason : String)

def Cue.answer (i : Invocation) : Cue → Answer
  | .finish output => .ok output
  | .missing => .error (.notFound i.program)
  | .timeout => .error (.timedOut i.program (i.timeout.getD ⟨0⟩))
  | .cancelled => .error (.cancelled i.program)
  | .refused reason => .error (.notStarted i.program reason)
  | .broken reason => .error (.io reason)

-- A runner that plays answers instead of running programs.
structure Script where
  -- The programs that build parsers.
  builders : List String
  -- Replies to sources.
  bySource : List (String × Cue)
  version : List Cue
  parse : List Cue
  build : List Cue
  -- The runs asked for, the last one first.
  log : List (Role × Invocation)

namespace Script

-- Programs that build parsers are known; else a run without arguments is a parse.
def role (s : Script) (i : Invocation) : Role :=
  if s.builders.contains i.program then .build
  else if i.arguments = [] then .parse
  else .version

-- The next cue of a list, of which the last one stays.
def next : List Cue → Cue × List Cue
  | [] => (.missing, [])
  | [cue] => (cue, [cue])
  | cue :: cues => (cue, cues)

-- The next cue for a role.
def take (s : Script) : Role → Cue × Script
  | .build => let (cue, cues) := next s.build; (cue, { s with build := cues })
  | .parse => let (cue, cues) := next s.parse; (cue, { s with parse := cues })
  | .version => let (cue, cues) := next s.version; (cue, { s with version := cues })

-- Plays the next cue. A cancelled run uses none, and a parse prefers the one for its source.
def play (s : Script) (i : Invocation) : Answer × Script :=
  let role := s.role i
  let s := { s with log := (role, i) :: s.log }
  if i.isCancelled then (.error (.cancelled i.program), s)
  else match if role = .parse then s.bySource.lookup (Utf8.lossy i.stdin) else none with
    | some cue => (cue.answer i, s)
    | none =>
        let (cue, s) := s.take role
        (cue.answer i, s)

end Script

end ExternalParser
