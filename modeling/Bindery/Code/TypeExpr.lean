import Bindery.Value.Text

/-!
# Type expressions

The expressions that stand for types in the emitted package.  They are built as
trees and printed in one place, so that what an expression says is settled
before how it is spelled.
-/

namespace Bindery

inductive Mark where
  | limits (limits : List (String × Scalar))
  | pattern (pattern : String)
  | email
  | unique
  | fromText (kinds : List String)
deriving DecidableEq

/-- Whether a property has to be given, and what stands for it if it is not. -/
inductive Presence where
  | required
  | default (value : Value)
  | optional
deriving DecidableEq

inductive TypeExpr where
  | any
  | none
  | base (name : String)
  | marked (inner : TypeExpr) (marks : List Mark)
  | formatted (format : String) (inner : TypeExpr)
  | literal (values : List Value)
  | choice (values : List Value)
  | list (item : TypeExpr)
  | dict (item : TypeExpr)
  | optional (inner : TypeExpr)
  | union (members : List TypeExpr)
  | oneOf (members : List TypeExpr)
  | allOf (members : List TypeExpr)
  | tagged (property : String) (branches : List (Scalar × TypeExpr))
  | model (name : String) (properties : List (String × TypeExpr × Presence)) (closed : Bool)
      (extra : Option TypeExpr)
  | named (name : String)
  | lazy (name : String)

open Text

def Mark.text : Mark → String
  | .limits bounds =>
    "Field(" ++ join ", " (bounds.map fun limit => limit.1 ++ "=" ++ limit.2.literal) ++ ")"
  | .pattern source => "pattern(" ++ quoted source ++ ")"
  | .email => "email"
  | .unique => "unique"
  | .fromText kinds => "from_text(" ++ join ", " kinds ++ ")"

def Presence.text : Presence → String
  | .required => ", required=True"
  | .default value => ", default=" ++ value.literal
  | .optional => ""

namespace TypeExpr

def mark (inner : TypeExpr) (marks : List Mark) : TypeExpr :=
  if marks.isEmpty then inner else .marked inner marks

mutual

def text : TypeExpr → String
  | .any => "Any"
  | .none => "None"
  | .base name => name
  | .marked inner marks => "Annotated[" ++ join ", " (text inner :: marks.map Mark.text) ++ "]"
  | .formatted format inner => "formatted(" ++ format ++ ", " ++ text inner ++ ")"
  | .literal values => "Literal[" ++ join ", " (values.map Value.literal) ++ "]"
  | .choice values => "choice(" ++ join ", " (values.map Value.literal) ++ ")"
  | .list item => "list[" ++ text item ++ "]"
  | .dict item => "dict[str, " ++ text item ++ "]"
  | .optional inner => "Optional[" ++ text inner ++ "]"
  | .union members => "union(" ++ join ", " (textList members) ++ ")"
  | .oneOf members => "one_of(" ++ join ", " (textList members) ++ ")"
  | .allOf members => "all_of(" ++ join ", " (textList members) ++ ")"
  | .tagged property branches =>
    "tagged(" ++ quoted property ++ ", \x7b" ++ join ", " (textBranches branches) ++ "\x7d)"
  | .model name properties closed extra =>
    "model(" ++ quoted name ++ ", \x7b" ++ join ", " (textProperties properties) ++
      "\x7d, extra=" ++ (if closed then "'forbid'" else "'allow'") ++ textExtra extra ++ ")"
  | .named name => name
  | .lazy name => "lazy(" ++ quoted name ++ ")"

def textList : List TypeExpr → List String
  | [] => []
  | member :: rest => text member :: textList rest

def textBranches : List (Scalar × TypeExpr) → List String
  | [] => []
  | (tag, branch) :: rest => (tag.literal ++ ": " ++ text branch) :: textBranches rest

def textProperties : List (String × TypeExpr × Presence) → List String
  | [] => []
  | (name, type, presence) :: rest =>
    (quoted name ++ ": prop(" ++ text type ++ presence.text ++ ")") :: textProperties rest

def textExtra : Option TypeExpr → String
  | Option.none => ""
  | some type => ", extra_type=" ++ text type

end

end TypeExpr

end Bindery
