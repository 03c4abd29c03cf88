import ExternalParser.Failure
import ExternalParser.Invocation

namespace ExternalParser

abbrev Answer := Except Failure Output

-- What a program is run for.
inductive Role where
  | build
  | parse
  | version
deriving DecidableEq

-- A result, or a program to be run and what to do with what comes of it. A runner is not told what the
-- program is run for.
inductive Dialogue (α : Type) where
  | done (x : α)
  | ask (role : Role) (call : Invocation) (next : Answer → Dialogue α)

namespace Dialogue

def bind {α β : Type} : Dialogue α → (α → Dialogue β) → Dialogue β
  | .done x, f => f x
  | .ask role call next, f => .ask role call fun answer => bind (next answer) f

instance : Monad Dialogue where
  pure := .done
  bind := bind

-- Runs a program.
def run (role : Role) (call : Invocation) : Dialogue Answer :=
  .ask role call .done

-- The result of a dialogue with a runner, and the runner's state after it.
def answeredBy {σ α : Type} (runner : σ → Invocation → Answer × σ) : Dialogue α → σ → α × σ
  | .done x, s => (x, s)
  | .ask _ call next, s =>
      let (answer, s) := runner s call
      (next answer).answeredBy runner s

end Dialogue

end ExternalParser
