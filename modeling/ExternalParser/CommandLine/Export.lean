import ExternalParser.Json.Writer
import ExternalParser.Tree.Query

namespace ExternalParser.CommandLine

open Json

def tokenExport (t : Tree) (id : Nat) : Value :=
  .obj [("offset", .num (.natural (t.tokenOffset id))), ("token", .str (t.tokenName id)),
    ("value", .str (t.tokenValue id))]

-- The fuel bounds the depth.
def nodeExport (t : Tree) : Nat → Nat → Value
  | 0, _ => .null
  | fuel + 1, id =>
      let span := t.nodeSpan id
      let children := (t.children id).map fun
        | .node child => nodeExport t fuel child
        | .token child => tokenExport t child
      .obj [("children", .arr children), ("kind", .str (t.nodeName id)),
        ("span", .arr [.num (.natural span.start), .num (.natural span.stop)])]

def treeExport (t : Tree) : Value :=
  nodeExport t (t.nodeCount + 1) 0

end ExternalParser.CommandLine
