/-
NativeTypes.Sexp.Form — forms `(tag ...)` and the atoms inside them.

Snapshots and configurations are made of forms. What is not a form, not a
text or not an integer where one is expected is a fault that shows what was
found instead. The truth is no integer.
-/
import NativeTypes.Sexp.Reader

namespace NativeTypes

/-- What is wrong with a text of forms. -/
inductive FormError
  | unreadable
  | notForm (found : Sexp)
  | notText (what : String) (found : Sexp)
  | notInteger (what : String) (found : Sexp)

/-- The words for a fault. -/
def FormError.message : FormError → String
  | unreadable => "malformed snapshot: unreadable text"
  | notForm found => "expected a (tag ...) form, got " ++ found.shown
  | notText what found => "expected " ++ what ++ " as a string, got " ++ found.shown
  | notInteger what found => "expected integer " ++ what ++ ", got " ++ found.shown

namespace Sexp

/-- The expressions of a text. -/
def readForms (text : String) : Except FormError (List Sexp) :=
  match Reader.readAll? text with
  | some forms => .ok forms
  | none => .error .unreadable

/-- A form taken apart: its tag and what follows. -/
def form : Sexp → Except FormError (String × List Sexp)
  | list (symbol tag :: items) => .ok (tag, items)
  | x => .error (.notForm x)

/-- A symbol or a string as text. -/
def asText (what : String) : Sexp → Except FormError String
  | symbol name => .ok name
  | text value => .ok value
  | x => .error (.notText what x)

theorem form_eq_ok_iff {x : Sexp} {tag : String} {items : List Sexp} :
    x.form = .ok (tag, items) ↔ x = list (symbol tag :: items) := by
  constructor
  · intro h
    unfold form at h
    split at h
    · cases h
      rfl
    · cases h
  · rintro rfl
    rfl

theorem asText_eq_ok_iff {what : String} {x : Sexp} {s : String} :
    x.asText what = .ok s ↔ x = symbol s ∨ x = text s := by
  cases x <;> simp [asText]

/-- An integer. -/
def asInteger (what : String) : Sexp → Except FormError Int
  | integer value => .ok value
  | x => .error (.notInteger what x)

theorem asInteger_eq_ok_iff {what : String} {x : Sexp} {n : Int} :
    x.asInteger what = .ok n ↔ x = integer n := by
  cases x <;> simp [asInteger]

/-- The symbol with this name. -/
def isSymbol (name : String) : Sexp → Bool
  | symbol s => s = name
  | _ => false

end Sexp

end NativeTypes
