/-
NativeTypes.Text.Literal — plain values as the literals that stand for them.

What is told about a problem may be any plain value. A value is shown as its
literal: texts between quotes, lists and tables in brackets with a comma and a
blank between items. A text that stands alone is shown as it is. A value
holds something unless it is nothing, false, zero or empty.
-/
import NativeTypes.Decimal.Shortest
import NativeTypes.Text.Quoted

namespace NativeTypes.Text

/-- A plain value. -/
inductive Literal
  | nothing
  | truth (value : Bool)
  | integer (value : Int)
  | real (value : Float)
  | text (value : String)
  | list (items : List Literal)
  | table (entries : List (String × Literal))
  deriving Inhabited

/-- A truth value as a literal. -/
def truthText (b : Bool) : String := if b then "True" else "False"

namespace Literal

/-- Reals are written positionally between a ten-thousandth and 10^16. -/
def realLayout : Decimal.Layout := ⟨-4, 16, 2⟩

mutual
/-- A value as a literal. -/
def shown : Literal → String
  | nothing => "None"
  | truth value => truthText value
  | integer value => toString value
  | real value => realLayout.renderFloat value
  | text value => quoted value
  | list items => "[" ++ ", ".intercalate (shownItems items) ++ "]"
  | table entries => "\x7b" ++ ", ".intercalate (shownEntries entries) ++ "\x7d"

/-- Each item as a literal. -/
def shownItems : List Literal → List String
  | [] => []
  | x :: xs => x.shown :: shownItems xs

/-- Each entry as the literals of its key and its value. -/
def shownEntries : List (String × Literal) → List String
  | [] => []
  | (key, x) :: rest => (quoted key ++ ": " ++ x.shown) :: shownEntries rest
end

/-- A value that stands alone: a text as it is, any other as a literal. -/
def alone : Literal → String
  | text value => value
  | x => x.shown

/-- A value holds something unless it is nothing, false, zero or empty. -/
def holds : Literal → Bool
  | nothing => false
  | truth value => value
  | integer value => value != 0
  | real value => value != 0
  | text value => !value.isEmpty
  | list items => !items.isEmpty
  | table entries => !entries.isEmpty

/-- The word for the kind of a value. -/
def kindWord : Literal → String
  | nothing => "NoneType"
  | truth _ => "bool"
  | integer _ => "int"
  | real _ => "float"
  | text _ => "str"
  | list _ => "list"
  | table _ => "dict"

/-- What a value is made of, one by one: the characters of a text, the items of a list, the
keys of a table. Other values are not made of anything. -/
def items? : Literal → Option (List Literal)
  | text value => some (value.toList.map fun c => text (String.singleton c))
  | list items => some items
  | table entries => some (entries.map fun e => text e.1)
  | _ => none

end Literal

end NativeTypes.Text
