/-
NativeTypes.Writer.Emitter — source text written line by line, indented.

A line that is blank is written without indentation. Documentation strings
stand between triple quotes; such quotes inside them are escaped.
-/
import NativeTypes.Text.Letter

namespace NativeTypes

/-- Text written so far, and how the next line is indented. -/
structure Emitter where
  unit : String := "    "
  level : Int := 0
  text : String := ""

namespace Emitter

/-- The indentation of the next line. -/
def indentation (e : Emitter) : String :=
  String.join (List.replicate e.level.toNat e.unit)

/-- One line. -/
def emit (e : Emitter) (line : String) : Emitter :=
  if line.toList.all Text.isBlank then { e with text := e.text ++ "\n" }
  else { e with text := e.text ++ e.indentation ++ line ++ "\n" }

/-- Several lines. -/
def emitLines (e : Emitter) (lines : List String) : Emitter := lines.foldl emit e

/-- Empty lines, none for a number that is not positive. -/
def emitBlank (e : Emitter) (count : Int) : Emitter :=
  { e with text := e.text ++ String.join (List.replicate count.toNat "\n") }

/-- A comment, line by line. -/
def emitComment (e : Emitter) (text : String) : Emitter :=
  e.emitLines ((text.splitOn "\n").map fun line => if line.isEmpty then "#" else "# " ++ line)

/-- Three quotes in a row escaped, from the left. -/
def escapeQuotes : List Char → List Char
  | '"' :: '"' :: '"' :: cs => '\\' :: '"' :: '\\' :: '"' :: '\\' :: '"' :: escapeQuotes cs
  | c :: cs => c :: escapeQuotes cs
  | [] => []

/-- A documentation string, on one line if it has one. -/
def emitDocstring (e : Emitter) (text : String) : Emitter :=
  let inner := String.ofList (escapeQuotes (Text.trim text.toList))
  match inner.splitOn "\n" with
  | [line] => e.emit ("\"\"\"" ++ line ++ "\"\"\"")
  | lines => ((e.emit "\"\"\"").emitLines lines).emit "\"\"\""

/-- One level deeper. -/
def indent (e : Emitter) : Emitter := { e with level := e.level + 1 }

/-- One level back, not beyond the margin. -/
def dedent (e : Emitter) : Emitter := { e with level := max 0 (e.level - 1) }

/-- A header with lines one level deeper behind it. -/
def block (e : Emitter) (header : String) (body : Emitter → Emitter) : Emitter :=
  (body (e.emit header).indent).dedent

end Emitter

end NativeTypes
