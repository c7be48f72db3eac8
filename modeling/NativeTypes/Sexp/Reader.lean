/-
NativeTypes.Sexp.Reader — S-expressions, how messages show them and how they
are read.

The reader goes through the text once, a character at a time. It keeps the
lists that are open, innermost first, and what it is in the middle of: an
atom, a string, an escape or a comment. A `'` makes the next expression of
its list a quotation. The text of a file is read inside one more pair of
parentheses, which has to be exactly one expression. So a stray closer or an
open quotation is a fault, and so is a last line with a comment but no line
end, which hides the closer of that pair: unless the text has closed it by
itself.

Blanks are the space and the controls 9 to 13. An atom reads as `nil`, `t`,
an integer, a real or, failing all that, a symbol.
-/
import NativeTypes.Decimal.Read
import NativeTypes.Text.Literal

namespace NativeTypes

/-- An S-expression. The atom `nil` is the empty list and `t` is the truth. -/
inductive Sexp
  | integer (value : Int)
  | real (value : Float)
  | truth
  | symbol (name : String)
  | text (value : String)
  | list (items : List Sexp)
  | brackets (items : List Sexp)
  | quote (inner : Sexp)
  deriving Inhabited

namespace Sexp

mutual
/-- An expression as messages show it. -/
def shown : Sexp → String
  | integer value => toString value
  | real value => Text.Literal.realLayout.renderFloat value
  | truth => Text.truthText true
  | symbol name => "Symbol(" ++ Text.quoted name ++ ")"
  | text value => Text.quoted value
  | list items => "[" ++ shownItems items ++ "]"
  | brackets items => "Brackets(I=[" ++ shownItems items ++ "])"
  | quote inner => "Quoted(" ++ shown inner ++ ")"

/-- Expressions with commas between them. -/
def shownItems : List Sexp → String
  | [] => ""
  | [x] => shown x
  | x :: y :: rest => shown x ++ ", " ++ shownItems (y :: rest)
end

/-- Expressions as a list in brackets. -/
def shownList (items : List Sexp) : String := "[" ++ shownItems items ++ "]"

end Sexp

end NativeTypes

namespace NativeTypes.Sexp.Reader

/-- A list that is not closed yet. -/
structure Frame where
  /-- The list is closed by `]`. -/
  square : Bool
  /-- What was read of it, latest first. -/
  items : List Sexp
  /-- How many quotations the next item goes into. -/
  quotes : Nat

/-- What the reader is in the middle of; texts are kept latest character first. -/
inductive Mode
  | between
  | atom (text : List Char)
  | atomEscape (text : List Char)
  | string (text : List Char)
  | stringEscape (text : List Char)
  | comment

/-- Open lists, innermost first; the last frame stands for the outside. -/
structure State where
  frames : List Frame
  mode : Mode

/-- Blanks between expressions. -/
def isSpace (c : Char) : Bool := c == ' ' || (9 ≤ c.toNat && c.toNat ≤ 13)

/-- Characters that end an atom. -/
def endsAtom (c : Char) : Bool :=
  isSpace c || c == '(' || c == ')' || c == '[' || c == ']' || c == '"' || c == ';'

/-- Characters that a backslash in an atom makes ordinary. -/
def isAtomEscape (c : Char) : Bool := "\\'`\"()[] ,?;#".toList.contains c

/-- What an escape in a string stands for. -/
def stringEscape (c : Char) : List Char :=
  if c == '\\' || c == '"' then [c]
  else if c == 'b' then [Char.ofNat 8]
  else if c == 'f' then [Char.ofNat 12]
  else if c == 'n' then ['\n']
  else if c == 'r' then ['\r']
  else if c == 't' then ['\t']
  else ['\\', c]

/-- The expression that an atom is. -/
def atomValue (text : List Char) : Sexp :=
  if text == ['n', 'i', 'l'] then .list []
  else if text == ['t'] then .truth
  else
    match Decimal.readInt? text with
    | some n => .integer n
    | none =>
      match Decimal.readReal? text with
      | some x => .real x
      | none => .symbol (String.ofList text)

/-- `x` inside `n` quotations. -/
def quoteTimes : Nat → Sexp → Sexp
  | 0, x => x
  | n + 1, x => .quote (quoteTimes n x)

/-- One more expression in the innermost open list. -/
def push (x : Sexp) : List Frame → Option (List Frame)
  | [] => none
  | f :: fs => some ({ f with items := quoteTimes f.quotes x :: f.items, quotes := 0 } :: fs)

/-- Closes the innermost list, which must be of the right kind and owe no quotation. The
frame of the outside is never closed. -/
def close (square : Bool) : List Frame → Option (List Frame)
  | f :: g :: fs =>
    if f.square == square && f.quotes == 0 then
      push (if square then .brackets f.items.reverse else .list f.items.reverse) (g :: fs)
    else none
  | _ => none

/-- One character between expressions. -/
def stepBetween (frames : List Frame) (c : Char) : Option State :=
  if isSpace c then some ⟨frames, .between⟩
  else if c == '(' then some ⟨⟨false, [], 0⟩ :: frames, .between⟩
  else if c == '[' then some ⟨⟨true, [], 0⟩ :: frames, .between⟩
  else if c == ')' then (close false frames).map fun fs => ⟨fs, .between⟩
  else if c == ']' then (close true frames).map fun fs => ⟨fs, .between⟩
  else if c == '"' then some ⟨frames, .string []⟩
  else if c == ';' then some ⟨frames, .comment⟩
  else if c == '\'' then
    match frames with
    | [] => none
    | f :: fs => some ⟨{ f with quotes := f.quotes + 1 } :: fs, .between⟩
  else if c == '\\' then some ⟨frames, .atomEscape []⟩
  else some ⟨frames, .atom [c]⟩

/-- One character. -/
def step (s : State) (c : Char) : Option State :=
  match s.mode with
  | .between => stepBetween s.frames c
  | .atom cs =>
    if endsAtom c then
      (push (atomValue cs.reverse) s.frames).bind fun fs => stepBetween fs c
    else if c == '\\' then some { s with mode := .atomEscape cs }
    else some { s with mode := .atom (c :: cs) }
  | .atomEscape cs =>
    some { s with mode := .atom (if isAtomEscape c then c :: cs else c :: '\\' :: cs) }
  | .string cs =>
    if c == '"' then (push (.text (String.ofList cs.reverse)) s.frames).map fun fs => ⟨fs, .between⟩
    else if c == '\\' then some { s with mode := .stringEscape cs }
    else some { s with mode := .string (c :: cs) }
  | .stringEscape cs => some { s with mode := .string ((stringEscape c).reverse ++ cs) }
  | .comment => some (if c == '\n' then { s with mode := .between } else s)

/-- All characters of a text. -/
def run (s : State) : List Char → Option State
  | [] => some s
  | c :: cs => (step s c).bind fun s => run s cs

/-- A text may end here: between two expressions or in a comment. -/
def Mode.mayEnd : Mode → Bool
  | .between | .comment => true
  | _ => false

/-- The expressions of a whole text: the items of the one list that the text makes when
parentheses are put around it. -/
def readAll? (text : String) : Option (List Sexp) :=
  match run ⟨[⟨false, [], 0⟩], .between⟩ ('(' :: text.toList ++ [')']) with
  | some ⟨[⟨_, [.list items], 0⟩], mode⟩ => if mode.mayEnd then some items else none
  | _ => none

end NativeTypes.Sexp.Reader
