/-
NativeTypes.Proofs.TypeName.Grammar — which texts write which type name.

A type name is written as a row of tokens, with some freedom: qualifiers may
stand in front of a base and behind a base or a suffix, a path may begin
with a scope mark, a built-in type is named by its words in any order, and a
reference has one mark or two (`TypeName.Writes`). A text lays tokens out
when it puts any spaces, or none, behind each of them, as long as no two
words run together (`Lays`). Nothing here mentions how texts are read.

A name is well formed when each type name in it, at any depth, is spelled by
segments of the grammar, does not begin with a word that means something
else, and has no two references in a row, whose marks would be read as one
(`TypeName.WellFormed`).
-/
import NativeTypes.TypeName.Scanner

namespace NativeTypes

open NativeTypes.Text

/-! ## 1. Tokens in a text -/

namespace Text

/-- What holds of all characters of a text is decided character by character: there are too many
characters to go through all of them. -/
scoped instance decidableForallMem (cs : List Char) (p : Char → Prop) [DecidablePred p] :
    Decidable (∀ c ∈ cs, p c) :=
  List.decidableBAll p cs

/-- What holds of the character at an end of a text, if there is one. -/
scoped instance decidableForallMemOption (c? : Option Char) (p : Char → Prop)
    [DecidablePred p] : Decidable (∀ c ∈ c?, p c) :=
  match c? with
  | none => .isTrue (by simp)
  | some c => decidable_of_iff (p c) (by simp)

/-- There is a character at an end of a text, and something holds of it. -/
scoped instance decidableExistsMemOption (c? : Option Char) (p : Char → Prop)
    [DecidablePred p] : Decidable (∃ c ∈ c?, p c) :=
  match c? with
  | none => .isFalse (by simp)
  | some c => decidable_of_iff (p c) (by simp)

end Text

/-- A mark, a word or a number as it is written. -/
abbrev Token := List Char

/-- Words and numbers are made of these characters, and run on as long as they come. -/
def runsOn (c : Char) : Bool := Scanner.isNameStart c || isWord c

/-- Two texts side by side: no word at the end of the first runs on into the second. -/
def Apart (left right : List Char) : Prop :=
  ∀ c ∈ left.getLast?, ∀ d ∈ right.head?, (runsOn c && runsOn d) = false

/-- A text lays tokens out: each is followed by spaces, or by none where it does not run on. A
token is not empty and does not begin with a space. -/
inductive Lays : List Token → List Char → Prop
  | nil : Lays [] []
  | cons {c : Char} {cs gap : List Char} {tokens : List Token} {rest : List Char} :
      isSpace c = false → (∀ d ∈ gap, isSpace d = true) → Apart (c :: cs) (gap ++ rest) →
      Lays tokens rest → Lays ((c :: cs) :: tokens) ((c :: cs) ++ (gap ++ rest))

/-! ## 2. The tokens of a name -/

/-- The words that leave no trace in a name. -/
def qualifierWords : List Token := ["const".toList, "volatile".toList]

/-- The tokens of a suffix. -/
inductive Suffix.Writes : Suffix → List Token → Prop
  | pointer : Writes .pointer [['*']]
  | reference : Writes .reference [['&']]
  | doubleReference : Writes .reference [['&', '&']]
  | unsized : Writes (.array none) [['['], [']']]
  | sized (n : Int) : Writes (.array (some n)) [['['], Suffix.spellInt n, [']']]

/-- The tokens of suffixes, with any qualifiers in front of, between and behind them. -/
inductive SuffixesWritten : List Suffix → List Token → Prop
  | nil : SuffixesWritten [] []
  | qualifier {word : Token} {ss : List Suffix} {ts : List Token} : word ∈ qualifierWords →
      SuffixesWritten ss ts → SuffixesWritten ss (word :: ts)
  | suffix {s : Suffix} {ss : List Suffix} {xs ts : List Token} : s.Writes xs →
      SuffixesWritten ss ts → SuffixesWritten (s :: ss) (xs ++ ts)

mutual
/-- The tokens of a type name: qualifiers, a base, and suffixes. -/
def TypeName.Writes : TypeName → List Token → Prop
  | .mk base suffixes, ts =>
    ∃ qualifiers xs ys, (∀ q ∈ qualifiers, q ∈ qualifierWords) ∧ base.Writes xs ∧
      SuffixesWritten suffixes ys ∧ ts = qualifiers ++ (xs ++ ys)

/-- The tokens of a base: built-in words that name the type, or the segments of a path with a
scope mark between them and maybe one in front. -/
def BaseName.Writes : BaseName → List Token → Prop
  | .builtin type, ts =>
    ∃ words : List String, words ≠ [] ∧ (∀ w ∈ words, w ∈ Builtin.vocabulary) ∧
      Builtin.ofWords words = type ∧ ts = words.map String.toList
  | .path scopes last, ts =>
    ∃ mark xs ys, (mark = [] ∨ mark = [scopeMark]) ∧ scopesWritten scopes xs ∧ last.Writes ys ∧
      ts = mark ++ (xs ++ ys)

/-- The tokens of a segment. -/
def Segment.Writes : Segment → List Token → Prop
  | .plain name, ts => ts = [name.toList]
  | .template name arguments, ts =>
    ∃ xs, argumentsWritten arguments xs ∧ ts = name.toList :: ['<'] :: (xs ++ [['>']])

/-- The tokens of a template argument. -/
def Argument.Writes : Argument → List Token → Prop
  | .number value, ts => ts = [Suffix.spellInt value]
  | .type name, ts => name.Writes ts

/-- The tokens of scopes, each with the mark behind it. -/
def scopesWritten : List Segment → List Token → Prop
  | [], ts => ts = []
  | s :: ss, ts => ∃ xs ys, s.Writes xs ∧ scopesWritten ss ys ∧ ts = xs ++ scopeMark :: ys

/-- The tokens of template arguments. -/
def argumentsWritten : List Argument → List Token → Prop
  | [], ts => ts = []
  | a :: as, ts => ∃ xs ys, a.Writes xs ∧ moreWritten as ys ∧ ts = xs ++ ys

/-- The tokens of template arguments, each with the mark in front of it. -/
def moreWritten : List Argument → List Token → Prop
  | [], ts => ts = []
  | a :: as, ts => ∃ xs ys, a.Writes xs ∧ moreWritten as ys ∧ ts = [','] :: (xs ++ ys)
end

/-- A text writes a type name: behind spaces it lays out tokens of it. -/
def TypeName.Spells (t : TypeName) (text : List Char) : Prop :=
  ∃ gap ts rest, (∀ c ∈ gap, isSpace c = true) ∧ t.Writes ts ∧ Lays ts rest ∧ text = gap ++ rest

/-! ## 3. Well-formed names -/

/-- A word that is no mark and no number. -/
def isIdentifier : List Char → Bool
  | [] => false
  | c :: cs => Scanner.isNameStart c && cs.all Scanner.isNameChar

/-- A name that a compiler makes up: one of two fixed texts, or characters in angles. -/
def isSpecial (cs : List Char) : Bool :=
  cs == "(anonymous namespace)".toList || cs == "(anon namespace)".toList ||
    match cs with
    | '<' :: inner => !(inner.takeWhile Scanner.isSpecialChar).isEmpty &&
        inner.dropWhile Scanner.isSpecialChar == ['>']
    | _ => false

theorem isSpecial_cases {cs : List Char} (h : isSpecial cs = true) :
    cs = "(anonymous namespace)".toList ∨ cs = "(anon namespace)".toList ∨
      ∃ inner, inner ≠ [] ∧ (∀ c ∈ inner, Scanner.isSpecialChar c = true) ∧
        cs = '<' :: inner ++ ['>'] := by
  simp only [isSpecial, Bool.or_eq_true, beq_iff_eq] at h
  rcases h with (rfl | rfl) | hangled
  · exact .inl rfl
  · exact .inr (.inl rfl)
  · split at hangled
    · rename_i inner
      simp only [Bool.and_eq_true, Bool.not_eq_true', List.isEmpty_eq_false_iff,
        beq_iff_eq] at hangled
      obtain ⟨hne, hclose⟩ := hangled
      refine .inr (.inr ⟨inner.takeWhile Scanner.isSpecialChar, hne,
        List.all_eq_true.mp List.all_takeWhile, ?_⟩)
      rw [List.cons_append, ← hclose, List.takeWhile_append_dropWhile]
    · cases hangled

/-- A name that a segment can have. -/
def isSegmentName (cs : List Char) : Bool := isIdentifier cs || isSpecial cs

/-- The words that mean something else at the front of a name. -/
def keywords : List Token := qualifierWords ++ Builtin.vocabulary.map String.toList

/-- At the front of a name it is read as a keyword, or as one with more behind it: a keyword ends
in front of a `$`. -/
def isKeywordLike (cs : List Char) : Bool :=
  keywords.any fun w => cs == w || (w ++ ['$']).isPrefixOf cs

/-- Two references stand in a row somewhere. -/
def joinsReferences : List Suffix → Bool
  | .reference :: .reference :: _ => true
  | _ :: ss => joinsReferences ss
  | [] => false

namespace BaseName

/-- The segments of a path, outermost first; a built-in type has none. -/
def segments : BaseName → List Segment
  | builtin _ => []
  | path scopes last => scopes ++ [last]

end BaseName

mutual
/-- A type name and all type names in it, at any depth. -/
def TypeName.nested : TypeName → List TypeName
  | .mk base suffixes => .mk base suffixes :: base.nested

/-- The type names in a base. -/
def BaseName.nested : BaseName → List TypeName
  | .builtin _ => []
  | .path scopes last => nestedInSegments scopes ++ last.nested

/-- The type names in a segment. -/
def Segment.nested : Segment → List TypeName
  | .plain _ => []
  | .template _ arguments => nestedInArguments arguments

/-- The type names in a template argument. -/
def Argument.nested : Argument → List TypeName
  | .number _ => []
  | .type name => name.nested

/-- The type names in segments. -/
def nestedInSegments : List Segment → List TypeName
  | [] => []
  | s :: ss => s.nested ++ nestedInSegments ss

/-- The type names in template arguments. -/
def nestedInArguments : List Argument → List TypeName
  | [] => []
  | a :: as => a.nested ++ nestedInArguments as
end

namespace TypeName

/-- The segments of the base have names of the grammar. -/
def isNamed (t : TypeName) : Bool := t.base.segments.all fun s => isSegmentName s.name.toList

/-- The spelling of the name alone, whatever is nested in it, is read as it is meant: the first
segment is no keyword and no two references are joined. -/
def isDistinct (t : TypeName) : Bool :=
  !(t.base.segments.head?.any fun s => isKeywordLike s.name.toList) && !joinsReferences t.suffixes

/-- Every type name in the name is spelled by the grammar and read as it is meant. -/
def WellFormed (t : TypeName) : Prop := ∀ u ∈ t.nested, u.isNamed = true ∧ u.isDistinct = true

instance (t : TypeName) : Decidable t.WellFormed :=
  inferInstanceAs (Decidable (∀ u ∈ t.nested, _))

end TypeName

end NativeTypes
