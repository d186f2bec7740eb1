import Transmux.Text.Utf8
import Transmux.Yaml.Node

/-! The nodes of a YAML document, read token by token. The collections around a place are held in a
list, innermost first, so that a document may be as deep as it is long. -/

namespace Transmux.Yaml

/-- How the end of a collection shows. -/
inductive Extent where
  /-- By the end of its own block. -/
  | block
  /-- By its closing bracket. -/
  | flow
  /-- By what follows it, since it has neither: a list no deeper than the record that it is a part
  of, or a record of one member in a list between brackets. -/
  | bare
deriving DecidableEq

/-- What the next node is to the record around it. -/
inductive Role where
  | name
  /-- A name that stands alone and has nothing as its value. -/
  | loneName
  | value (name : Node)

/-- A collection that is not complete yet, with what it holds so far, last first. -/
inductive Open where
  | list (extent : Extent) (tag : Option Bytes) (items : List Node)
  | record (extent : Extent) (tag : Option Bytes) (members : List (Node × Node)) (role : Role)

/-- What may come next in the innermost collection. -/
inductive Expected where
  /-- A node, after its anchor and its tag if it has them. -/
  | node (anchor : Option String) (tag : Option Bytes)
  /-- The colon after a name. -/
  | colon
  /-- What separates the parts of a collection, or ends it. -/
  | more
  /-- A part of a collection between brackets, or its end. -/
  | entry

/-- The reading so far: the collections around the place, what may come next, and the root of the
document once it is complete. -/
structure Reading where
  /-- What tag handles stand for. -/
  handles : List (String × Bytes) := []
  /-- A document that is announced may be empty. -/
  announced : Bool := false
  outer : List Open := []
  expected : Expected := .node none none
  anchors : Anchors := {}
  root : Option Node := none

namespace Reading

/-- What a tag stands for. -/
def expand (r : Reading) (handle : String) (suffix : Bytes) : Option Bytes :=
  if handle = "" then some suffix
  else
    let known := r.handles ++ [("!", [0x21]), ("!!", Utf8.encode "tag:yaml.org,2002:")]
    (known.lookup handle).map fun expansion => expansion ++ suffix

/-- A node is complete: it goes into the innermost open collection. -/
def put (r : Reading) (n : Node) : Reading :=
  match r.outer with
  | [] => { r with root := some n, expected := .more }
  | .list e t items :: outer =>
    { r with outer := .list e t (n :: items) :: outer, expected := .more }
  | .record e t members .name :: outer =>
    { r with outer := .record e t members (.value n) :: outer, expected := .colon }
  | .record e t members .loneName :: outer =>
    { r with outer := .record e t ((n, Node.empty) :: members) .name :: outer, expected := .more }
  | .record e t members (.value name) :: outer =>
    { r with outer := .record e t ((name, n) :: members) .name :: outer, expected := .more }

def addAnchor (r : Reading) (anchor : Option String) (leaf : Option Leaf) : Reading :=
  { r with anchors := anchor.elim r.anchors fun name => r.anchors.add name leaf }

def putLeaf (r : Reading) (anchor : Option String) (l : Leaf) : Reading :=
  (r.addAnchor anchor (some l)).put (.leaf l)

/-- Begins a collection. -/
def enter (r : Reading) (anchor : Option String) (p : Open) (expected : Expected) : Reading :=
  { r.addAnchor anchor none with outer := p :: r.outer, expected := expected }

/-- The innermost collection is complete. -/
def leave (r : Reading) : Reading :=
  match r.outer with
  | .list _ t items :: outer => { r with outer := outer }.put (.list t items.reverse)
  | .record _ t members _ :: outer => { r with outer := outer }.put (.record t members.reverse)
  | [] => r

/-- The part that follows plays a role in the innermost record. -/
def expectPart (r : Reading) (role : Role) : Reading :=
  match r.outer with
  | .record e t members _ :: outer =>
    { r with outer := .record e t members role :: outer, expected := .node none none }
  | _ => r

/-- Blocks stand in blocks only, and not between brackets. -/
def allowsBlock (r : Reading) : Bool :=
  match r.outer with
  | [] | .list .block _ _ :: _ | .list .bare _ _ :: _ | .record .block _ _ _ :: _ => true
  | _ => false

/-- A list may be no deeper than the record that it is a part of. -/
def allowsBareList (r : Reading) : Bool :=
  match r.outer with
  | .record .block _ _ _ :: _ => true
  | _ => false

/-- Whether a token goes on with a node whose anchor or tag is known. -/
def continues (r : Reading) (anchor : Option String) (tag : Option Bytes) : Token → Bool
  | .anchor _ => anchor.isNone
  | .tag _ _ => tag.isNone
  | .scalar _ _ | .openList | .openRecord => true
  | .openBlockList | .openBlockRecord => r.allowsBlock
  | .item => r.allowsBareList
  | _ => false

/-- The tokens before which a node may be left out. -/
def ends (r : Reading) : List Token :=
  match r.outer with
  | [] => if r.announced then [.documentStart, .documentEnd] else []
  | .list .block _ _ :: _ => [.item, .closeBlock]
  | .list .bare _ _ :: _ => [.item, .name, .value, .closeBlock]
  | .list .flow _ _ :: _ => []
  | .record .block _ _ _ :: _ => [.name, .value, .closeBlock]
  | .record .flow _ _ (.value _) :: _ => [.comma, .closeRecord]
  | .record .flow _ _ _ :: _ => [.value, .comma, .closeRecord]
  | .record .bare _ _ (.value _) :: _ => [.comma, .closeList]
  | .record .bare _ _ _ :: _ => []

/-- Puts nothing in place of a node that is left out before a token. -/
def fillNode (r : Reading) (t : Token) : Reading :=
  match r.expected with
  | .node none none => if r.ends.contains t then r.put Node.empty else r
  | .node anchor tag =>
    if r.continues anchor tag t then r else r.putLeaf anchor ⟨tag, .plain, ""⟩
  | _ => r

/-- Puts nothing in place of a value without a colon. -/
def fillValue (r : Reading) (t : Token) : Reading :=
  match r.expected with
  | .colon => if t = .value then r else r.put Node.empty
  | _ => r

/-- Leaves a collection whose end shows by what follows it. -/
def leaveBare (r : Reading) (t : Token) : Reading :=
  match r.expected, r.outer with
  | .more, .list .bare _ _ :: _ => if t = .item then r else r.leave
  | .more, .record .bare _ _ _ :: _ => r.leave
  | _, _ => r

/-- Completes all that a token shows to be complete. -/
def settle (r : Reading) (t : Token) : Reading :=
  (((r.fillNode t).fillValue t).leaveBare t).fillValue t

/-- A token of a node, after its anchor and its tag. -/
def startNode (r : Reading) (anchor : Option String) (tag : Option Bytes) :
    Token → Option Reading
  | .anchor name =>
    if anchor.isSome then none else some { r with expected := .node (some name) tag }
  | .tag handle suffix =>
    if tag.isSome then none
    else (r.expand handle suffix).map fun t => { r with expected := .node anchor (some t) }
  | .alias name =>
    if anchor.isSome || tag.isSome then none
    else (r.anchors.numbers.lookup name).map fun number => r.put (.alias number)
  | .scalar form text => some (r.putLeaf anchor ⟨tag, form, text⟩)
  | .openList => some (r.enter anchor (.list .flow tag []) .entry)
  | .openRecord => some (r.enter anchor (.record .flow tag [] .name) .entry)
  | .openBlockList =>
    if r.allowsBlock then some (r.enter anchor (.list .block tag []) .more) else none
  | .openBlockRecord =>
    if r.allowsBlock then some (r.enter anchor (.record .block tag [] .name) .more) else none
  | .item =>
    if r.allowsBareList then some (r.enter anchor (.list .bare tag []) (.node none none)) else none
  | _ => none

/-- The first token of a part. Where the name of a lone member in a list is left out, the token that
shows this is left out with it. -/
def startPart (r : Reading) (t : Token) : Option Reading :=
  match r.outer, t with
  | .record .bare _ _ .name :: _, .value | .record .bare _ _ .name :: _, .comma
  | .record .bare _ _ .name :: _, .closeList => some (r.put Node.empty)
  | _, t => r.startNode none none t

/-- A token between the parts of a collection. -/
def separate (r : Reading) (t : Token) : Option Reading :=
  match r.outer, t with
  | [], .documentEnd => some r
  | .list .block _ _ :: _, .item | .list .bare _ _ :: _, .item =>
    some { r with expected := .node none none }
  | .record .block _ _ _ :: _, .name => some (r.expectPart .name)
  | .list .flow _ _ :: _, .comma | .record .flow _ _ _ :: _, .comma =>
    some { r with expected := .entry }
  | .list .block _ _ :: _, .closeBlock | .record .block _ _ _ :: _, .closeBlock
  | .list .flow _ _ :: _, .closeList | .record .flow _ _ _ :: _, .closeRecord => some r.leave
  | _, _ => none

/-- The first token of a part between brackets, or their end. -/
def startEntry (r : Reading) (t : Token) : Option Reading :=
  match r.outer, t with
  | .list .flow _ _ :: _, .closeList | .record .flow _ _ _ :: _, .closeRecord => some r.leave
  | .list .flow _ _ :: _, .name =>
    some (r.enter none (.record .bare none [] .name) (.node none none))
  | .record .flow _ _ _ :: _, .name => some (r.expectPart .name)
  | .record .flow _ _ _ :: _, t => (r.expectPart .loneName).startNode none none t
  | _, t => r.startNode none none t

def step (r : Reading) (t : Token) : Option Reading :=
  let r := r.settle t
  match r.expected with
  | .node none none => r.startPart t
  | .node anchor tag => r.startNode anchor tag t
  | .colon =>
    if t = .value then some { r with expected := .node none none } else none
  | .more => r.separate t
  | .entry => r.startEntry t

end Reading

end Transmux.Yaml
