import ExternalParser.Text.Blank
import ExternalParser.Text.Cut

namespace ExternalParser.CommandLine

-- The first line without its ending, which is a line feed or a carriage return and a line feed.
def firstLine (text : List Char) : List Char :=
  let line := text.takeWhile (· ≠ '\n')
  if line.length < text.length ∧ line.getLast? = some '\r' then line.dropLast else line

-- At most `max` characters of the first line. The mark says that there is more than blanks behind
-- them.
def preview (text : List Char) (max : Nat) : List Char :=
  let line := firstLine text
  -- Both are beginnings of the text, so the longer one reaches further.
  let more := Text.byteLength line < Text.byteLength (Text.trimEnd text)
  if max < line.length ∨ more then line.take max ++ ['…'] else line.take max

end ExternalParser.CommandLine
