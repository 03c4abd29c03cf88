import ExternalParser.Duration
import ExternalParser.Text.Utf8

namespace ExternalParser

-- A request to stop, which is made some time after a run has begun, or never.
structure CancelToken where
  after : Option Duration
deriving DecidableEq

namespace CancelToken

def idle : CancelToken := ⟨none⟩

-- The request was made before the run.
def cancelled : CancelToken := ⟨some ⟨0⟩⟩

def isCancelledAt (token : CancelToken) (elapsed : Duration) : Bool :=
  token.after.any (·.nanos ≤ elapsed.nanos)

def isCancelled (token : CancelToken) : Bool :=
  token.isCancelledAt ⟨0⟩

end CancelToken

structure Invocation where
  program : String
  arguments : List String
  stdin : Bytes
  -- The program is killed when it runs longer than this.
  timeout : Option Duration
  -- The program is killed when this token is cancelled.
  cancel : Option CancelToken
deriving DecidableEq

namespace Invocation

-- No input, no limits.
def plain (program : String) (arguments : List String) : Invocation :=
  ⟨program, arguments, [], none, none⟩

-- The run is to be stopped before it begins.
def isCancelled (i : Invocation) : Bool :=
  i.cancel.any CancelToken.isCancelled

end Invocation

-- What a program that has ended leaves behind. Without a code a signal ended it.
structure Output where
  exitCode : Option Int
  stdout : Bytes
  stderr : Bytes
deriving DecidableEq

namespace Output

def isSuccess (o : Output) : Bool :=
  o.exitCode = some 0

def stdoutText (o : Output) : String :=
  Utf8.lossy o.stdout

def stderrText (o : Output) : String :=
  Utf8.lossy o.stderr

end Output

end ExternalParser
