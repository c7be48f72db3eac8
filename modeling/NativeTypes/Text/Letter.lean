/-
NativeTypes.Text.Letter — what counts as blank or as a digit in any script.

Spaces are the characters that Unicode gives the property White_Space. Blank
are besides them the four ASCII separators 28 to 31: they part the words of
a text, but stand between the parts of no name and of no number.

Each script that counts in tens owns ten consecutive code points, its zero
first. The table lists the zeros beyond ASCII (Unicode version 14). An integer
is neither read from nor written with more than `mostDigits` digits.

Main statements: a word of `words` is non-empty and holds no blank
(`words_ne_nil`, `not_isBlank_of_mem_words`).
-/

namespace NativeTypes.Text

/-- The code points of spaces: the ASCII controls 9 to 13, the space, the next-line control
and the Unicode separators. -/
def spaces : List Nat :=
  [9, 10, 11, 12, 13, 32, 133, 160, 5760, 8192, 8193, 8194, 8195, 8196, 8197, 8198, 8199, 8200,
   8201, 8202, 8232, 8233, 8239, 8287, 12288]

/-- White space in any script. -/
def isSpace (c : Char) : Bool := spaces.contains c.toNat

/-- The text without the spaces at its start. -/
def skipSpaces (cs : List Char) : List Char := cs.dropWhile isSpace

/-- A space or one of the ASCII separators. -/
def isBlank (c : Char) : Bool := isSpace c || (28 ≤ c.toNat && c.toNat ≤ 31)

/-- The text without the characters of a class at its two ends. -/
def trimBy (p : Char → Bool) (cs : List Char) : List Char :=
  ((cs.dropWhile p).reverse.dropWhile p).reverse

/-- The text without the blanks at its two ends. -/
def trim (cs : List Char) : List Char := trimBy isBlank cs

/-- Puts `c` in front: it joins the first word if the text goes on without a blank. -/
def consWord (c : Char) (goesOn : Bool) : List (List Char) → List (List Char)
  | [] => [[c]]
  | w :: ws => if goesOn then (c :: w) :: ws else [c] :: w :: ws

/-- The maximal runs of characters that are not blank, in order. -/
def words : List Char → List (List Char)
  | [] => []
  | c :: cs =>
    if isBlank c then words cs
    else consWord c (cs.head?.any fun d => !isBlank d) (words cs)

/-- The words with a single space between them. -/
def collapse (cs : List Char) : List Char := List.intercalate [' '] (words cs)

theorem words_ne_nil : ∀ {cs w : List Char}, w ∈ words cs → w ≠ []
  | [], _, h => by simp [words] at h
  | c :: cs, w, h => by
    rw [words] at h
    split at h
    · exact words_ne_nil h
    · cases hw : words cs with
      | nil => simp_all [consWord]
      | cons v vs =>
        rw [hw, consWord] at h
        split at h
        · rcases List.mem_cons.1 h with rfl | hv
          · simp
          · exact words_ne_nil (hw ▸ List.mem_cons_of_mem v hv)
        · rcases List.mem_cons.1 h with rfl | hv
          · simp
          · exact words_ne_nil (hw ▸ hv)

theorem not_isBlank_of_mem_words :
    ∀ {cs w : List Char} {c : Char}, w ∈ words cs → c ∈ w → isBlank c = false
  | [], _, _, h, _ => by simp [words] at h
  | d :: cs, w, c, h, hc => by
    rw [words] at h
    split at h
    · exact not_isBlank_of_mem_words h hc
    · rename_i hd
      cases hw : words cs with
      | nil => simp_all [consWord]
      | cons v vs =>
        rw [hw, consWord] at h
        split at h
        · rcases List.mem_cons.1 h with rfl | hv
          · rcases List.mem_cons.1 hc with rfl | hc
            · simpa using hd
            · exact not_isBlank_of_mem_words (hw ▸ List.mem_cons_self) hc
          · exact not_isBlank_of_mem_words (hw ▸ List.mem_cons_of_mem v hv) hc
        · rcases List.mem_cons.1 h with rfl | hv
          · simp_all
          · exact not_isBlank_of_mem_words (hw ▸ hv) hc

/-- The code points of the zeros beyond ASCII. -/
def zeros : List Nat :=
  [1632, 1776, 1984, 2406, 2534, 2662, 2790, 2918, 3046, 3174, 3302, 3430,
   3558, 3664, 3792, 3872, 4160, 4240, 6112, 6160, 6470, 6608, 6784, 6800,
   6992, 7088, 7232, 7248, 42528, 43216, 43264, 43472, 43504, 43600, 44016, 65296,
   66720, 68912, 69734, 69872, 69942, 70096, 70384, 70736, 70864, 71248, 71360, 71472,
   71904, 72016, 72784, 73040, 73120, 92768, 92864, 93008, 120782, 120792, 120802, 120812,
   120822, 123200, 123632, 125264, 130032]

/-- The value of a decimal digit, or nothing for any other character. -/
def digitValue? (c : Char) : Option Nat :=
  if '0' ≤ c && c ≤ '9' then some (c.toNat - '0'.toNat)
  else (zeros.find? fun z => z ≤ c.toNat && c.toNat < z + 10).map (c.toNat - ·)

/-- The most decimal digits that an integer is read from or written with. -/
def mostDigits : Nat := 4300

/-- An integer can be written in decimal. -/
def isWritable (n : Int) : Bool := n.natAbs < Nat.pow 10 mostDigits

/-- The words for an integer that cannot be written. -/
def tooManyDigits : String :=
  "Exceeds the limit (" ++ toString mostDigits ++ " digits) for integer string conversion; " ++
    "use sys.set_int_max_str_digits() to increase the limit"

end NativeTypes.Text
