/-
NativeTypes.Text.Utf8 — UTF-8 octets as text.

The reader goes octet by octet. Inside a character it knows the bits read
so far, how many octets are still owed, and the least and the greatest
octet the next one may be; these bounds keep out overlong forms, surrogates
and numbers beyond the last code point. An octet outside the bounds ends
the character early: what was read of it becomes one replacement character,
and the octet starts anew.

* `decode` — reads anything, with replacement characters.
* `read` — refuses what is no text, and says where and why.
-/
import NativeTypes.Text.Quoted

namespace NativeTypes.Text.Utf8

/-- What stands for octets that are no character. -/
def replacement : Char := '\ufffd'

/-- A character that is not complete yet. -/
structure Pending where
  /-- The bits read so far. -/
  bits : Nat
  /-- How many octets are owed. -/
  owed : Nat
  /-- The least next octet. -/
  least : Nat := 0x80
  /-- The greatest next octet. -/
  greatest : Nat := 0xBF
  deriving DecidableEq, Repr

/-- What an octet starts: a character of one octet, or one of several; nothing for an octet
that no character starts with. -/
def start (b : Nat) : Option (Char ⊕ Pending) :=
  if b < 0x80 then some (.inl (Char.ofNat b))
  else if 0xC2 ≤ b && b ≤ 0xDF then some (.inr ⟨b - 0xC0, 1, 0x80, 0xBF⟩)
  else if b = 0xE0 then some (.inr ⟨0, 2, 0xA0, 0xBF⟩)
  else if b = 0xED then some (.inr ⟨0xD, 2, 0x80, 0x9F⟩)
  else if 0xE1 ≤ b && b ≤ 0xEF then some (.inr ⟨b - 0xE0, 2, 0x80, 0xBF⟩)
  else if b = 0xF0 then some (.inr ⟨0, 3, 0x90, 0xBF⟩)
  else if b = 0xF4 then some (.inr ⟨4, 3, 0x80, 0x8F⟩)
  else if 0xF1 ≤ b && b ≤ 0xF3 then some (.inr ⟨b - 0xF0, 3, 0x80, 0xBF⟩)
  else none

/-- The octet goes on with the character. -/
def Pending.accepts (p : Pending) (b : Nat) : Bool := p.least ≤ b && b ≤ p.greatest

/-- The bits with those of one more octet. -/
def Pending.join (p : Pending) (b : Nat) : Nat := p.bits * 64 + (b - 0x80)

/-- The text of octets, read from inside a character or between two. -/
def decodeFrom : Option Pending → List Nat → List Char
  | none, [] => []
  | some _, [] => [replacement]
  | none, b :: bs =>
    match start b with
    | none => replacement :: decodeFrom none bs
    | some (.inl c) => c :: decodeFrom none bs
    | some (.inr p) => decodeFrom (some p) bs
  | some p, b :: bs =>
    if p.accepts b then
      if p.owed ≤ 1 then Char.ofNat (p.join b) :: decodeFrom none bs
      else decodeFrom (some ⟨p.join b, p.owed - 1, 0x80, 0xBF⟩) bs
    else
      match start b with
      | none => replacement :: replacement :: decodeFrom none bs
      | some (.inl c) => replacement :: c :: decodeFrom none bs
      | some (.inr p) => replacement :: decodeFrom (some p) bs

/-- The text of octets; whatever is no character is replaced. -/
def decode (bs : List Nat) : String := String.ofList (decodeFrom none bs)

/-! ## The strict reader -/

/-- What is wrong with octets. -/
inductive FaultKind
  /-- No character starts with the octet. -/
  | start
  /-- The octet after these does not go on with them. -/
  | continuation
  /-- The octets end inside a character. -/
  | truncated
  deriving DecidableEq, Repr

/-- Octets that are no character, and where they stand. -/
structure Fault where
  kind : FaultKind
  position : Nat
  octets : List Nat
  deriving DecidableEq, Repr

/-- The words for a kind of fault. -/
def FaultKind.words : FaultKind → String
  | start => "invalid start byte"
  | continuation => "invalid continuation byte"
  | truncated => "unexpected end of data"

/-- The message for a fault: one octet is shown, of several the places of the first and last. -/
def Fault.message (e : Fault) : String :=
  "'utf-8' codec can't decode " ++
    (match e.octets with
      | [b] => "byte 0x" ++ String.ofList (hexFilled 2 b) ++ " in position " ++ toString e.position
      | bs => "bytes in position " ++ toString e.position ++ "-" ++
          toString (e.position + bs.length - 1)) ++
    ": " ++ e.kind.words

/-- The text of the octets from the place `n` on. Inside a character the octets of it that
were read are at hand. -/
def readFrom : Nat → Option (Pending × List Nat) → List Nat → Except Fault (List Char)
  | _, none, [] => .ok []
  | n, some (_, seen), [] => .error ⟨.truncated, n - seen.length, seen⟩
  | n, none, b :: bs =>
    match start b with
    | none => .error ⟨.start, n, [b]⟩
    | some (.inl c) => (readFrom (n + 1) none bs).map (c :: ·)
    | some (.inr p) => readFrom (n + 1) (some (p, [b])) bs
  | n, some (p, seen), b :: bs =>
    if p.accepts b then
      if p.owed ≤ 1 then (readFrom (n + 1) none bs).map (Char.ofNat (p.join b) :: ·)
      else readFrom (n + 1) (some (⟨p.join b, p.owed - 1, 0x80, 0xBF⟩, seen ++ [b])) bs
    else .error ⟨.continuation, n - seen.length, seen⟩

/-- The text of octets, if they are one. -/
def read (bs : List Nat) : Except Fault String := (readFrom 0 none bs).map String.ofList

/-- The octets of a text. -/
def encode (s : String) : List Nat := s.toUTF8.toList.map UInt8.toNat

end NativeTypes.Text.Utf8
