/-
PagedMemory.Text.Shape — the text of a structured value, for diagnostics.

  - `Shape`          — a value as it is to be shown: an atom, a record with
                       named fields, a list, or one value inside a name.
  - `Shape.inline`   — everything on one line: `Name { a: 1, b: [2, 3] }`.
  - `Shape.indented` — one field or element a line, four blanks a level,
                       each line ended by a comma; an empty list is `[]`.
-/
namespace PagedMemory

/-- A structured value as it is to be shown. -/
inductive Shape where
  | atom (text : String)
  | record (name : String) (fields : List (String × Shape))
  | list (items : List Shape)
  | wrapped (name : String) (inner : Shape)

namespace Shape

/-- A number in decimal. -/
def number (n : Nat) : Shape := .atom (toString n)

/-- A value that may be missing. -/
def optional : Option Shape → Shape
  | none => .atom "None"
  | some inner => .wrapped "Some" inner

mutual

/-- The value on one line. -/
def inline : Shape → String
  | .atom text => text
  | .record name fields => name ++ " \x7b " ++ inlineFields fields ++ " \x7d"
  | .list items => "[" ++ inlineItems items ++ "]"
  | .wrapped name inner => name ++ "(" ++ inner.inline ++ ")"

/-- Named fields on one line, separated by commas. -/
def inlineFields : List (String × Shape) → String
  | [] => ""
  | [(name, value)] => name ++ ": " ++ value.inline
  | (name, value) :: rest => name ++ ": " ++ value.inline ++ ", " ++ inlineFields rest

/-- Elements on one line, separated by commas. -/
def inlineItems : List Shape → String
  | [] => ""
  | [value] => value.inline
  | value :: rest => value.inline ++ ", " ++ inlineItems rest

end

/-- The blanks before a line at a nesting depth. -/
def margin (depth : Nat) : String := String.ofList (List.replicate (4 * depth) ' ')

mutual

/-- The value with one field or element a line; its first line stands at
`depth`. -/
def indentedAt (depth : Nat) : Shape → String
  | .atom text => text
  | .record name fields =>
    name ++ " \x7b\n" ++ indentedFields (depth + 1) fields ++ margin depth ++ "\x7d"
  | .list [] => "[]"
  | .list (first :: rest) =>
    "[\n" ++ margin (depth + 1) ++ first.indentedAt (depth + 1) ++ ",\n"
      ++ indentedItems (depth + 1) rest ++ margin depth ++ "]"
  | .wrapped name inner =>
    name ++ "(\n" ++ margin (depth + 1) ++ inner.indentedAt (depth + 1) ++ ",\n"
      ++ margin depth ++ ")"

/-- Named fields, one a line. -/
def indentedFields (depth : Nat) : List (String × Shape) → String
  | [] => ""
  | (name, value) :: rest =>
    margin depth ++ name ++ ": " ++ value.indentedAt depth ++ ",\n" ++ indentedFields depth rest

/-- Elements, one a line. -/
def indentedItems (depth : Nat) : List Shape → String
  | [] => ""
  | value :: rest =>
    margin depth ++ value.indentedAt depth ++ ",\n" ++ indentedItems depth rest

end

/-- The value over several lines. -/
def indented (shape : Shape) : String := shape.indentedAt 0

end Shape

/-- Whether a value is shown on one line or over several. -/
inductive Layout where
  | inline
  | indented
  deriving DecidableEq, Repr

/-- A value as text in the given layout. -/
def Shape.render (shape : Shape) : Layout → String
  | .inline => shape.inline
  | .indented => shape.indented

end PagedMemory
