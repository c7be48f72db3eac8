/-
NativeTypes.Digest.Sha1 — the SHA-1 digest of a byte string (FIPS 180-4).

The message is padded with a set bit, zeros and its length to whole blocks
of sixteen words; each block is stretched to eighty words and mixed into
five words of state. All arithmetic is on 32-bit words.
-/
namespace NativeTypes.Digest.Sha1

/-- The five words of state. -/
structure State where
  a : UInt32
  b : UInt32
  c : UInt32
  d : UInt32
  e : UInt32

/-- The state before the first block. -/
def start : State := ⟨0x67452301, 0xEFCDAB89, 0x98BADCFE, 0x10325476, 0xC3D2E1F0⟩

/-- Rotation to the left by `n` bits. -/
def rotate (n : UInt32) (x : UInt32) : UInt32 := (x <<< n) ||| (x >>> (32 - n))

/-- The bytes of `n` in `width` places, the highest first. -/
def bigEndian (width n : Nat) : List UInt8 :=
  (List.range width).reverse.map fun i => UInt8.ofNat (n / Nat.pow 256 i % 256)

/-- The message with its padding: whole blocks of 64 bytes. -/
def pad (message : List UInt8) : List UInt8 :=
  let zeros := (119 - message.length % 64) % 64
  message ++ [0x80] ++ List.replicate zeros 0 ++ bigEndian 8 (8 * message.length)

/-- The 32-bit words of a byte string; a rest of fewer than four bytes is dropped. -/
def toWords : List UInt8 → List UInt32
  | w :: x :: y :: z :: rest =>
    (w.toUInt32 <<< 24 ||| x.toUInt32 <<< 16 ||| y.toUInt32 <<< 8 ||| z.toUInt32) :: toWords rest
  | _ => []

/-- Blocks of sixteen words, at most `count` of them. -/
def blocks : Nat → List UInt32 → List (List UInt32)
  | 0, _ => []
  | count + 1, ws => ws.take 16 :: blocks count (ws.drop 16)

/-- The schedule of a block: each word from the seventeenth on is the rotated exclusive or of
four earlier ones. -/
def stretch (block : List UInt32) : Array UInt32 :=
  (List.range 64).foldl (fun ws i =>
    ws.push (rotate 1 (ws.getD (i + 13) 0 ^^^ ws.getD (i + 8) 0 ^^^ ws.getD (i + 2) 0 ^^^
      ws.getD i 0))) block.toArray

/-- The mixing function and constant of round `t`. -/
def round (t : Nat) (b c d : UInt32) : UInt32 × UInt32 :=
  if t < 20 then ((b &&& c) ||| (~~~b &&& d), 0x5A827999)
  else if t < 40 then (b ^^^ c ^^^ d, 0x6ED9EBA1)
  else if t < 60 then ((b &&& c) ||| (b &&& d) ||| (c &&& d), 0x8F1BBCDC)
  else (b ^^^ c ^^^ d, 0xCA62C1D6)

/-- One block mixed into the state. -/
def mix (s : State) (block : List UInt32) : State :=
  let ws := stretch block
  let last := (List.range 80).foldl (fun s t =>
    let (f, k) := round t s.b s.c s.d
    State.mk (rotate 5 s.a + f + s.e + k + ws.getD t 0) s.a (rotate 30 s.b) s.c s.d) s
  ⟨s.a + last.a, s.b + last.b, s.c + last.c, s.d + last.d, s.e + last.e⟩

/-- The digest in lower-case hex. -/
def hex (message : List UInt8) : String :=
  let padded := pad message
  let s := (blocks (padded.length / 64) (toWords padded)).foldl mix start
  let word (w : UInt32) : List Char :=
    let ds := Nat.toDigits 16 w.toNat
    List.replicate (8 - ds.length) '0' ++ ds
  String.ofList ([s.a, s.b, s.c, s.d, s.e].flatMap word)

/-- The digest of a text in UTF-8. -/
def hexOfText (s : String) : String := hex s.toUTF8.toList

end NativeTypes.Digest.Sha1
