import ExternalParser.Json.Numeral

namespace ExternalParser.Json

-- Why a text is no document: it ended too early, it breaks the grammar, or its shape is wrong. A
-- record that holds no tree is the last kind.
inductive Fault where
  | truncated
  | malformed
  | mismatch (m : Mismatch)
  | noTree
deriving DecidableEq

-- A string without a text and a numeral without a number are tokens too: whether they will do depends on
-- whether their value is kept.
inductive Token where
  | openBrace
  | closeBrace
  | openBracket
  | closeBracket
  | comma
  | colon
  | null
  | bool (b : Bool)
  | num (n : Numeral)
  -- The text is missing when the quoted bytes are no text.
  | str (text : Option String)
deriving DecidableEq

-- What follows the last token: nothing, or something that is no token. The two faults are those of
-- a reader who wants the value and of one who skips it; a skipping reader takes any quoted bytes.
inductive Ending where
  | finished
  | broken (quoted : Bool) (kept skipped : Fault)
deriving DecidableEq

end ExternalParser.Json
