import ExternalParser.Failure
import ExternalParser.Invocation
import ExternalParser.Text.Blank
import ExternalParser.Text.Digit

namespace ExternalParser.Report

-- What every report of a tool begins with.
def opening (tool : String) : List Char :=
  tool.toList ++ " Parse Error: ".toList

-- What stands between the message and the line.
def divider : List Char := " on line ".toList

-- The digits after a divider that begins the text.
def lineDigits? (cs : List Char) : Option (List Char) :=
  if divider.isPrefixOf cs then
    let digits := (cs.drop divider.length).takeWhile Text.isDecimalDigit
    if digits = [] then none else some digits
  else none

-- The longest message that a line follows, with the digits of the line. What was passed is in
-- reverse, and `best` is the longest one that ends in it.
def lastLine (passed : List Char) (best : Option (List Char × List Char)) :
    List Char → Option (List Char × List Char)
  | [] => best
  | c :: cs =>
      let here := (lineDigits? (c :: cs)).map (passed.reverse, ·)
      lastLine (c :: passed) (here.or best) cs

-- The number of a line, which has to fit 32 bits.
def lineNumber? (digits : List Char) : Option Nat := do
  let n ← digits.foldlM (fun n d =>
    if d.isDigit then some (n * 10 + (d.toNat - '0'.toNat)) else none) 0
  if n < Nat.pow 2 32 then return n else none

-- The message and the line of a report.
def read? (tool : String) (stderr : List Char) : Option (List Char × Nat) :=
  if (opening tool).isPrefixOf stderr then do
    let (message, digits) ← lastLine [] none (stderr.drop (opening tool).length)
    return (message, ← lineNumber? digits)
  else none

-- The output of a run of the parser, or why there is none.
def classify (tool : String) (o : Output) : Except Failure Bytes :=
  if o.exitCode = some 0 then .ok o.stdout
  else
    let stderr := o.stderrText
    match if o.exitCode = some 1 then read? tool stderr.toList else none with
    | some (message, line) =>
        .error (.rejected tool line (String.ofList (Text.trim message)) (Text.trimmed stderr))
    | none => .error (.toolFailed tool o.exitCode stderr)

end ExternalParser.Report
