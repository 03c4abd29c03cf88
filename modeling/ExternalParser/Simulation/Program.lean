import ExternalParser.Invocation

namespace ExternalParser.Simulation

-- A program that runs to its end.
structure Behaviour where
  duration : Duration
  output : Output
deriving DecidableEq

-- A program that does nothing but start and end takes this long.
def startTime : Duration := .ofMillis 1

def Behaviour.ofOutput (o : Output) : Behaviour := ⟨startTime, o⟩

-- What runs in a shell or in place of one: the time so far, the input that is left, both outputs in
-- reverse, and the status of the last command.
structure Console where
  time : Duration
  input : Bytes
  stdout : Bytes
  stderr : Bytes
  status : Nat
  -- How it ended, if it did; a signal leaves no code.
  ended : Option (Option Int)
deriving DecidableEq

namespace Console

def start (input : Bytes) : Console := ⟨startTime, input, [], [], 0, none⟩

def write (c : Console) (bytes : Bytes) : Console :=
  { c with stdout := bytes.reverse ++ c.stdout }

def complain (c : Console) (text : String) : Console :=
  { c with stderr := (Utf8.encode text).reverse ++ c.stderr }

def withStatus (c : Console) (status : Nat) : Console := { c with status := status }

def exit (c : Console) (code : Nat) : Console :=
  { c with ended := some (some (code % 256)) }

def behaviour (c : Console) : Behaviour :=
  ⟨c.time, ⟨c.ended.getD (some c.status), c.stdout.reverse, c.stderr.reverse⟩⟩

end Console

def number? (cs : List Char) : Option Nat :=
  if cs ≠ [] ∧ cs.all Char.isDigit then
    some (cs.foldl (fun n d => n * 10 + (d.toNat - '0'.toNat)) 0)
  else none

-- Seconds with at most nine decimals.
def seconds? (text : String) : Option Duration := do
  let cs := text.toList
  let whole := cs.takeWhile Char.isDigit
  match cs.dropWhile Char.isDigit with
  | [] => return Duration.ofSeconds (← number? whole)
  | '.' :: fraction =>
      let digits := (fraction ++ List.replicate 9 '0').take 9
      return Duration.ofParts ((number? whole).getD 0) (← number? digits)
  | _ => none

def octalDigit? (c : Char) : Option Nat :=
  if '0' ≤ c ∧ c ≤ '7' then some (c.toNat - '0'.toNat) else none

-- The character of a one-letter escape.
def escapedChar? : Char → Option Char
  | 'a' => some '\x07'
  | 'b' => some '\x08'
  | 'f' => some '\x0C'
  | 'n' => some '\n'
  | 'r' => some '\r'
  | 't' => some '\t'
  | 'v' => some '\x0B'
  | '\\' => some '\\'
  | _ => none

-- Up to `count` octal digits, as a number, and what follows.
def octal (count : Nat) (value : Nat) : List Char → Nat × List Char
  | [] => (value, [])
  | c :: cs => match count, octalDigit? c with
    | count + 1, some d => octal count (value * 8 + d) cs
    | _, _ => (value, c :: cs)

-- What a text stands for after its escapes, and whether one of them ends the output.
def unescape : Nat → List Char → Bytes × Bool
  | 0, _ | _, [] => ([], false)
  | fuel + 1, '\\' :: c :: cs =>
      if c = 'c' then ([], true)
      else if c = '0' then
        let (value, rest) := octal 3 0 cs
        let (bytes, stop) := unescape fuel rest
        (value.toUInt8 :: bytes, stop)
      else
        let (bytes, stop) := unescape fuel cs
        match escapedChar? c with
        | some x => (Utf8.encodeChar x ++ bytes, stop)
        | none => (0x5C :: (Utf8.encodeChar c ++ bytes), stop)
  | fuel + 1, c :: cs =>
      let (bytes, stop) := unescape fuel cs
      (Utf8.encodeChar c ++ bytes, stop)

-- What is echoed for a list of words.
def echoed (words : List String) (ending : Bytes) : Bytes :=
  let text := (" ".intercalate words).toList
  let (bytes, stop) := unescape (text.length + 1) text
  if stop then bytes else bytes ++ ending

-- A format with the arguments that it takes, and whether it took any.
def format (arguments : List String) (took : Bool) : Nat → List Char → Bytes × List String × Bool
  | 0, _ | _, [] => ([], arguments, took)
  | fuel + 1, '\\' :: c :: cs =>
      match octalDigit? c, escapedChar? c with
      | some _, _ =>
          let (value, rest) := octal 3 0 (c :: cs)
          let (bytes, left, took) := format arguments took fuel rest
          (value.toUInt8 :: bytes, left, took)
      | none, some x =>
          let (bytes, left, took) := format arguments took fuel cs
          (Utf8.encodeChar x ++ bytes, left, took)
      | none, none =>
          let (bytes, left, took) := format arguments took fuel cs
          (0x5C :: (Utf8.encodeChar c ++ bytes), left, took)
  | fuel + 1, '%' :: '%' :: cs =>
      let (bytes, left, took) := format arguments took fuel cs
      (0x25 :: bytes, left, took)
  | fuel + 1, '%' :: 's' :: cs =>
      let (bytes, left, took) := format (arguments.drop 1) true fuel cs
      (Utf8.encode (arguments.headD "") ++ bytes, left, took)
  | fuel + 1, '%' :: 'd' :: cs =>
      let (bytes, left, took) := format (arguments.drop 1) true fuel cs
      (Utf8.encode (arguments.headD "0") ++ bytes, left, took)
  | fuel + 1, c :: cs =>
      let (bytes, left, took) := format arguments took fuel cs
      (Utf8.encodeChar c ++ bytes, left, took)

-- A format is used again as long as it takes arguments and there are any.
def formatAll (text : List Char) : Nat → List String → Bytes
  | 0, _ => []
  | fuel + 1, arguments =>
      let (bytes, left, took) := format arguments false (text.length + 1) text
      if took ∧ left ≠ [] then bytes ++ formatAll text fuel left else bytes

def formatted (text : String) (arguments : List String) : Bytes :=
  formatAll text.toList (arguments.length + 1) arguments

def isSpaceByte (b : UInt8) : Bool :=
  b = 0x20 || 0x09 ≤ b && b ≤ 0x0D

def lineCount (bytes : Bytes) : Nat :=
  bytes.count 0x0A

-- Words are runs of bytes that are no blanks. The first part counts them, the second says whether
-- the last byte was in one.
def wordCount (bytes : Bytes) : Nat :=
  (bytes.foldl (fun (count, inside) b =>
    if isSpaceByte b then (count, false)
    else if inside then (count, true)
    else (count + 1, true)) (0, false)).1

def padded (n : Nat) : String :=
  let digits := toString n
  String.ofList (List.replicate (7 - digits.length) ' ') ++ digits

def counts (option : Option String) (bytes : Bytes) : String :=
  let lines := lineCount bytes
  let words := wordCount bytes
  let size := bytes.length
  if option = some "-c" then s!"{size}\n"
  else if option = some "-l" then s!"{lines}\n"
  else if option = some "-w" then s!"{words}\n"
  else padded lines ++ " " ++ padded words ++ " " ++ padded size ++ "\n"

-- Copies files, of which only the empty device is there, or the input.
def copyFiles (c : Console) : List String → Console
  | [] => c
  | "/dev/null" :: files => copyFiles c files
  | "-" :: files => copyFiles { (c.write c.input) with input := [] } files
  | file :: files =>
      copyFiles ((c.complain s!"cat: {file}: No such file or directory\n").withStatus 1) files

-- The programs that every machine has.
def programNames : List String :=
  ["sh", "cat", "wc", "sleep", "true", "false", "echo", "printf"]

-- Runs one of the simple programs.
def runSimple (c : Console) (name : String) (arguments : List String) : Console :=
  let c := c.withStatus 0
  if name = "cat" then copyFiles c (if arguments = [] then ["-"] else arguments)
  else if name = "wc" then
    { c.write (Utf8.encode (counts arguments.head? c.input)) with input := [] }
  else if name = "sleep" then
    match arguments.head?.bind seconds? with
    | some d => { c with time := ⟨c.time.nanos + d.nanos⟩ }
    | none => (c.complain "sleep: missing operand\n").withStatus 1
  else if name = "false" then c.withStatus 1
  else if name = "echo" then
    match arguments with
    | "-n" :: words => c.write (echoed words [])
    | words => c.write (echoed words [0x0A])
  else if name = "printf" then
    match arguments with
    | text :: arguments => c.write (formatted text arguments)
    | [] => (c.complain "printf: usage: printf format [arg ...]\n").withStatus 2
  else c

end ExternalParser.Simulation
