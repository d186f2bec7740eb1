import Transmux.Yaml.Reading
import Transmux.Yaml.Token.Lexer

/-! YAML documents: a root and what its aliases stand for, read from a text. -/

namespace Transmux.Yaml

structure Document where
  root : Node
  leaves : List (Nat × Option Leaf)

/-- The scalar that a node is or stands for. -/
def Document.leaf? (d : Document) : Node → Option Leaf
  | .leaf l => some l
  | .alias number => (d.leaves.lookup number).join
  | _ => none

/-- The document, if nothing is open after the last token. -/
def Reading.finish (r : Reading) : Option Document :=
  let r := match r.outer, r.expected with
    | [], .node none none => if r.announced then r.put Node.empty else r
    | [], .node anchor tag => r.putLeaf anchor ⟨tag, .plain, ""⟩
    | _, _ => r
  r.root.map fun root => ⟨root, r.anchors.leaves⟩

/-- Takes the directives in front of a document: one version at most, and no handle twice. -/
def directives (versioned : Bool) (handles : List (String × Bytes)) :
    List Token → Option (List (String × Bytes) × List Token)
  | .version :: rest => if versioned then none else directives true handles rest
  | .handle h e :: rest =>
    if (handles.lookup h).isSome then none else directives versioned ((h, e) :: handles) rest
  | rest => some (handles, rest)

namespace Document

/-- Starts to read a document, which its directives or three hyphens may announce. -/
def announce? (tokens : List Token) : Option (Reading × List Token) :=
  match tokens with
  | .version :: _ | .handle _ _ :: _ | .documentStart :: _ =>
    match directives false [] tokens with
    | some (handles, .documentStart :: rest) =>
      some ({ handles := handles, announced := true }, rest)
    | _ => none
  | _ => some ({}, tokens)

/-- The only document of a text, `none` inside for a text without one. -/
def ofTokens? (tokens : List Token) : Option (Option Document) :=
  if tokens.isEmpty then some none
  else do
    let (r, tokens) ← announce? tokens
    let r ← tokens.foldlM Reading.step r
    r.finish.map some

/-- Reads a text that holds one document at most. -/
def read? (bytes : Bytes) : Option (Option Document) :=
  (Utf8.decode? bytes).bind fun s => (tokens? s).bind ofTokens?

end Document

end Transmux.Yaml
