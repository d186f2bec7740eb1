import Transmux.Bytes

/-! The tokens of a YAML text. Indentation shows as tokens that open and close blocks, and a token
stands in front of the name and of the value of every member. -/

namespace Transmux.Yaml

/-- How a scalar is written, as far as what it reads as depends on that. -/
inductive ScalarForm where
  | plain
  /-- A block that keeps its line breaks. -/
  | literal
  /-- Between quotes, or a block that folds its lines. -/
  | other
deriving DecidableEq

/-- Tags are byte strings, because their escapes need not spell text. -/
inductive Token where
  | openBlockList
  | openBlockRecord
  | closeBlock
  | openList
  | closeList
  | openRecord
  | closeRecord
  | item
  | comma
  | name
  | value
  | alias (anchor : String)
  | anchor (anchor : String)
  | tag (handle : String) (suffix : Bytes)
  | scalar (form : ScalarForm) (text : String)
  | version
  | handle (handle : String) (expansion : Bytes)
  | documentStart
  | documentEnd
deriving DecidableEq

end Transmux.Yaml
