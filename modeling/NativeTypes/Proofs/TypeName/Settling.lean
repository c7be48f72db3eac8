/-
NativeTypes.Proofs.TypeName.Settling — respelling a name ends.

The canonical spelling of a name may be read as another name, whose spelling is
another text again: a scope mark in front is dropped, and what stood behind it
becomes a keyword. One step can make a text longer, since the words of built-in
types are completed, but never heavier, as the scanners for names weigh what
they read (`spends_typeName`; the induction is on the levels of template
arguments).

A name that is as heavy as its text was dropped nothing of. So it is read as
itself, unless it begins with a keyword that is not read as one; behind such a
keyword stands a letter of another script, which no grammar takes
(`IsForeign`), so the name does not end there. Canonical spellings are tidy, so
from the second step on a text gets lighter or is read as itself:
`settlesIn_or_overlong`.

It is tempting to say that respelling twice is respelling once. That is false,
as each step may uncover a keyword that the next one reads. Nor does the length
of a text go down. What is left is a weight that completed words do not add to,
and the two facts that go with it through every scanner are kept in one
statement (`Spends`): what was read weighs no more than the text it was read
off, and if it weighs as much, all of it is read as itself. One alone would not
be kept, since a piece that lost weight may do so next to a piece that is not
read as itself.

The last section is about the texts that are left out. Numbers in base sixteen
are read at any length and written in base ten, and may then be too long.
-/
import NativeTypes.Proofs.TypeName.Weighed

namespace NativeTypes

open NativeTypes.Text

namespace Scanner

variable {cs rest : List Char}

/-! ## 1. Template arguments -/

/-- What holds of all scanners for template arguments: off a tidy text they read what can be
written, unless a number in base sixteen comes first, and what is read as itself, if no weight is
lost and the argument is ended. -/
def SpendsArguments (argument : Scanner (Option Argument)) : Prop :=
  ∀ {cs rest : List Char} {a : Argument}, argument cs = some (some a, rest) →
    Spends cs rest (weight a.spell) (beginsHex cs = false → a.isWritable = true)
      (Ended rest → ∀ u ∈ a.nested, u.isDistinct = true)

variable {argument : Scanner (Option Argument)}

theorem spends_nextArgument (h : SpendsArguments argument) {a : Argument}
    (hread : nextArgument argument cs = some (some a, rest)) :
    Spends cs rest (weight a.spell) (a.isWritable = true)
      (Ended rest → ∀ u ∈ a.nested, u.isDistinct = true) := by
  obtain ⟨⟨_, start⟩, hcomma, hargument⟩ := Option.bind_eq_some_iff.mp hread
  obtain ⟨behind, rfl, rfl⟩ := eq_cons_of_token hcomma
  exact ((spends_token hcomma).trans (h hargument)).mono (Nat.le_add_left _ _)
    (fun ht hsure => hsure.2 (ht.decimal (by simp))) fun _ hkept => hkept.2

/-- An argument is followed by a comma or by the end of the list. -/
theorem ended_of_nextArgument {r : Option Argument × List Char}
    (h : nextArgument argument cs = some r) : Ended cs := by
  obtain ⟨cs, rfl⟩ := List.head?_eq_some_iff.mp (head?_of_nextArgument h)
  exact ended_comma cs

/-- The arguments of a list that is closed. -/
theorem spends_argumentList (h : SpendsArguments argument) {as : List Argument}
    (hall : allSome (argumentList argument cs).1 = some as)
    (hend : Ended (argumentList argument cs).2) :
    Spends cs (argumentList argument cs).2 (as.map fun a => weight a.spell).sum
      (beginsHex cs = false → ∀ a ∈ as, a.isWritable = true)
      (∀ a ∈ as, ∀ u ∈ a.nested, u.isDistinct = true) := by
  unfold argumentList at hall hend ⊢
  cases hfirst : argument cs with
  | none =>
    simp only [hfirst] at hall hend ⊢
    cases hall
    exact (Spends.nothing cs).mono (Nat.le_refl _) (by simp) (by simp)
  | some r =>
    obtain ⟨first, left⟩ := r
    simp only [hfirst] at hall hend ⊢
    cases first with
    | none => cases hall
    | some first =>
      obtain ⟨as, has, rfl⟩ := Option.map_eq_some_iff.mp hall
      have hmore := spends_many (spends_nextArgument h) ended_of_nextArgument has
      refine ((h hfirst).trans hmore).mono (by simp) (fun _ hsure hhex => ?_) fun _ hkept => ?_
      · exact List.forall_mem_cons.mpr ⟨hsure.1 hhex, hsure.2⟩
      · exact List.forall_mem_cons.mpr
          ⟨hkept.1 (next_of_many ended_of_nextArgument hend), hkept.2 hend⟩

theorem spends_arguments (h : SpendsArguments argument) {as : List Argument}
    (hread : arguments argument cs = some (some as, rest)) :
    ∃ behind, cs = '<' :: behind ∧
      Spends cs rest (as.map fun a => weight a.spell).sum
        (hexAhead behind = false → ∀ a ∈ as, a.isWritable = true)
        (∀ a ∈ as, ∀ u ∈ a.nested, u.isDistinct = true) := by
  rw [arguments_eq] at hread
  obtain ⟨⟨_, start⟩, hopen, hread⟩ := Option.bind_eq_some_iff.mp hread
  obtain ⟨⟨_, left⟩, hclose, heq⟩ := Option.map_eq_some_iff.mp hread
  obtain ⟨hall, rfl⟩ := Prod.mk.inj heq
  obtain ⟨behind, rfl, rfl⟩ := eq_cons_of_token hopen
  have hend : Ended (argumentList argument (skipSpaces behind)).2 := by
    obtain ⟨cs, hcs⟩ := List.head?_eq_some_iff.mp (exists_head_of_token hclose)
    rw [hcs]
    exact ended_close cs
  have hlist := spends_argumentList h hall hend
  exact ⟨behind, rfl, (((spends_token hopen).trans hlist).trans (spends_token hclose)).mono
    (by omega) (fun _ hsure => hsure.1.2) fun _ hkept => hkept.1.2⟩

/-! ## 2. Paths

Segments with scope marks between them. A mark in front of the first one is dropped, which is the
only place where a path loses weight of its own. -/

/-- A name, with arguments or without. -/
theorem spends_segment (h : SpendsArguments argument) {s : Segment}
    (hread : segment argument cs = some (some s, rest)) :
    Spends cs rest (weight s.spell) (s.isWritable = true)
      (∀ u ∈ s.nested, u.isDistinct = true) := by
  obtain ⟨⟨n, left⟩, hname, heq⟩ := Option.map_eq_some_iff.mp hread
  have hn := isSegmentName_of_name hname
  obtain rfl := eq_append_of_name hname
  have hfront := (Spends.part n left).trans (.spaces left)
  simp only at heq
  split at heq
  · rename_i found behind harguments
    obtain ⟨hs, rfl⟩ := Prod.mk.inj heq
    obtain ⟨as, rfl, rfl⟩ := Option.map_eq_some_iff.mp hs
    obtain ⟨start, hstart, hspends⟩ := spends_arguments h harguments
    refine (hfront.trans hspends).mono ?_ (fun ht hsure => ?_) fun _ hkept => ?_
    · rw [weight_template, String.toList_ofList]
      exact Nat.le_refl _
    · rw [Segment.isWritable, argumentsWritable_eq, List.all_eq_true]
      exact hsure.2 (ht.firstArgument hn hstart)
    · rw [Segment.nested, nestedInArguments_eq]
      intro u hu
      obtain ⟨a, ha, hu⟩ := List.mem_flatMap.mp hu
      exact hkept.2 a ha u hu
  · cases heq
    refine hfront.mono ?_ (fun _ _ => rfl) fun _ _ u hu => by cases hu
    rw [Segment.spell, String.toList_ofList]
    exact Nat.le_refl _

theorem spends_scopeTail (h : SpendsArguments argument) {s : Segment}
    (hread : scopeTail argument cs = some (some s, rest)) :
    Spends cs rest (weight s.spell + 2) (s.isWritable = true)
      (True → ∀ u ∈ s.nested, u.isDistinct = true) := by
  obtain ⟨⟨_, start⟩, hmark, hsegment⟩ := Option.bind_eq_some_iff.mp hread
  have hweight : weight scopeMark = 2 := rfl
  exact ((spends_token hmark).trans (spends_segment h hsegment)).mono (by omega)
    (fun _ hsure => hsure.2) fun _ hkept _ => hkept.2

/-- Unless weight is lost, there is no scope mark in front. -/
theorem spends_pathStart (cs : List Char) :
    Spends cs (pathStart cs) 0 True (pathStart cs = cs) := by
  unfold pathStart
  split
  · rename_i rest hmark
    have hweight : weight scopeMark = 2 := rfl
    exact (spends_token hmark).lose (by omega)
  · exact (Spends.nothing cs).mono (Nat.le_refl _) (fun _ => id) fun _ _ => rfl

theorem isWritable_pathBase (first : Segment) (tail : List Segment) :
    (pathBase first tail).isWritable = (first :: tail).all Segment.isWritable := by
  rw [← segments_pathBase first tail]
  cases pathBase first tail with
  | builtin type => rfl
  | path scopes last =>
    simp [BaseName.isWritable, BaseName.segments, segmentsWritable_eq]

theorem nested_pathBase (first : Segment) (tail : List Segment) :
    (pathBase first tail).nested = (first :: tail).flatMap Segment.nested := by
  rw [← segments_pathBase first tail]
  cases pathBase first tail with
  | builtin type => rfl
  | path scopes last => simp [BaseName.nested, BaseName.segments, nestedInSegments_eq]

/-- A path without a mark in front is read as itself if its segments are. -/
theorem spends_path (h : SpendsArguments argument) {b : BaseName}
    (hread : path argument cs = some (some b, rest)) :
    Spends cs rest (weight b.spell) (b.isWritable = true)
      (pathStart cs = cs ∧ ∀ u ∈ b.nested, u.isDistinct = true) := by
  rw [path_eq] at hread
  obtain ⟨⟨first, left⟩, hfirst, heq⟩ := Option.map_eq_some_iff.mp hread
  obtain ⟨hb, rfl⟩ := Prod.mk.inj heq
  obtain ⟨s, rfl, hb⟩ := Option.bind_eq_some_iff.mp hb
  obtain ⟨tail, htail, rfl⟩ := Option.map_eq_some_iff.mp hb
  have hmany := spends_many (q := fun _ => True) (spends_scopeTail h) (fun _ => trivial) htail
  have hwhole := ((spends_pathStart cs).trans (spends_segment h hfirst)).trans hmany
  refine hwhole.mono ?_ (fun _ hsure => ?_) fun _ hkept => ⟨hkept.1.1, ?_⟩
  · rw [weight_pathBase]
    omega
  · rw [isWritable_pathBase, List.all_eq_true]
    exact List.forall_mem_cons.mpr ⟨hsure.1.2, hsure.2⟩
  · rw [nested_pathBase]
    intro u hmem
    obtain ⟨part, hpart, hu⟩ := List.mem_flatMap.mp hmem
    rcases List.mem_cons.mp hpart with rfl | htail
    · exact hkept.1.2 u hu
    · exact hkept.2 trivial part htail u hu

/-! ## 3. Keywords that are not read -/

/-- A letter of another script: no word ends in front of it, and no name goes on with it. -/
def IsForeign (c : Char) : Prop := isWord c = true ∧ isNameChar c = false

theorem IsForeign.ne {c d : Char} (h : IsForeign c)
    (hd : d ∈ [' ', '<', ':', '&', '*', '[', ',', '>']) : c ≠ d := by
  have hmarks : ∀ d ∈ [' ', '<', ':', '&', '*', '[', ',', '>'], isWord d = false := by decide
  rintro rfl
  rw [IsForeign, hmarks c hd] at h
  cases h.1

theorem IsForeign.skipSpaces {c : Char} (h : IsForeign c) : skipSpaces (c :: cs) = c :: cs := by
  have hspace : isSpace c = false := isSpace_of_runsOn (by simp [runsOn, h.1])
  exact List.dropWhile_cons_of_neg (by simp [hspace])

/-- Where a keyword stands that is not read as one, a foreign letter follows. -/
theorem foreign_of_keyword {n : List Char} (hname : name cs = some (n, rest))
    (hkey : isKeywordLike n = true) (hword : ∀ w ∈ keywords, word w cs = none) :
    ∃ c ∈ rest.head?, IsForeign c := by
  obtain ⟨w, hw, hlike⟩ := List.any_eq_true.mp hkey
  have hnone := hword w hw
  obtain rfl := eq_append_of_name hname
  rcases Bool.or_eq_true_iff.mp hlike with heq | hprefix
  · obtain rfl : n = w := beq_iff_eq.mp heq
    have hstart : ∀ c ∈ (n ++ rest).head?, isNameStart c = true := by
      obtain ⟨c, cs, rfl⟩ : ∃ c cs, n = c :: cs := List.exists_cons_of_ne_nil fun hnil => by
        subst hnil
        cases isIdentifier_of_mem_keywords hw
      simpa using (Bool.and_eq_true_iff.mp (isIdentifier_of_mem_keywords hw)).1
    rw [name, orElse, special_eq_none hstart] at hname
    have hstop := (eq_append_of_identifier hname).2
    rw [word, after?_append, Option.bind_some] at hnone
    cases rest with
    | nil => cases hnone
    | cons c rest => exact ⟨c, rfl, by simpa using hnone, hstop c rfl⟩
  · -- a keyword ends in front of the dollar
    obtain ⟨more, rfl⟩ := List.isPrefixOf_iff_prefix.mp hprefix
    have hdollar : isWord '$' = false := by decide
    simp [word, hdollar] at hnone

/-- It is behind the first segment then, which has no arguments. -/
theorem foreign_of_segment {s : Segment} (hread : segment argument cs = some (some s, rest))
    (hkey : isKeywordLike s.name.toList = true) (hword : ∀ w ∈ keywords, word w cs = none) :
    ∃ c ∈ rest.head?, IsForeign c := by
  obtain ⟨⟨n, left⟩, hname, heq⟩ := Option.map_eq_some_iff.mp hread
  have hn : s.name.toList = n := by
    simp only at heq
    split at heq
    · obtain ⟨as, -, rfl⟩ := Option.map_eq_some_iff.mp (Prod.mk.inj heq).1
      exact String.toList_ofList
    · cases heq
      exact String.toList_ofList
  obtain ⟨c, hc, hforeign⟩ := foreign_of_keyword hname (hn ▸ hkey) hword
  obtain ⟨ds, rfl⟩ := List.head?_eq_some_iff.mp hc
  have harguments : arguments argument (c :: ds) = none := by
    rw [arguments, token_eq_none (by simpa using hforeign.ne (d := '<') (by simp)),
      Option.bind_none]
  simp only [hforeign.skipSpaces, harguments] at heq
  cases heq
  exact ⟨c, rfl, hforeign⟩

/-- The path ends in front of it. -/
theorem foreign_of_path {b : BaseName} (hread : path argument cs = some (some b, rest))
    (hstart : pathStart cs = cs) (hword : ∀ w ∈ keywords, word w cs = none) {s : Segment}
    (hs : s ∈ b.segments.head?) (hkey : isKeywordLike s.name.toList = true) :
    ∃ c ∈ rest.head?, IsForeign c := by
  rw [path_eq, hstart] at hread
  obtain ⟨⟨found, left⟩, hsegment, heq⟩ := Option.map_eq_some_iff.mp hread
  obtain ⟨hb, rfl⟩ := Prod.mk.inj heq
  obtain ⟨first, rfl, hb⟩ := Option.bind_eq_some_iff.mp hb
  obtain ⟨tail, -, rfl⟩ := Option.map_eq_some_iff.mp hb
  rw [segments_pathBase] at hs
  obtain rfl : first = s := Option.some.inj hs
  obtain ⟨c, hc, hforeign⟩ := foreign_of_segment hsegment hkey hword
  obtain ⟨ds, rfl⟩ := List.head?_eq_some_iff.mp hc
  have hmark : scopeTail argument (c :: ds) = none := by
    rw [scopeTail, token_scopeMark_eq_none (by simpa using hforeign.ne (d := ':') (by simp)),
      Option.bind_none]
  refine ⟨c, ?_, hforeign⟩
  rw [many_eq_nil hmark]
  rfl

/-- And no suffix is read off it. -/
theorem foreign_of_suffixes {c : Char} (hc : IsForeign c) :
    skipSpaces (many suffix (skipSpaces (c :: cs))).2 = c :: cs := by
  have halpha : c.isAlpha = false := by
    have hname := hc.2
    simp only [isNameChar, Char.isAlphanum, Bool.or_eq_false_iff] at hname
    exact hname.1.1.1
  have hqualifier : qualifier (c :: cs) = none := qualifier_eq_none fun w hw =>
    word_eq_none_of_head (mem_keywords_of_qualifier hw) (by simpa using halpha)
  have hbrackets : brackets (c :: cs) = none := by
    rw [brackets, token_eq_none (by simpa using hc.ne (d := '[') (by simp)), Option.bind_none]
  have hsuffix : suffix (c :: cs) = none := by
    rw [suffix_eq (by simpa using ⟨hc.ne (d := '&') (by simp), hc.ne (d := '*') (by simp)⟩),
      hbrackets, hqualifier]
    rfl
  rw [hc.skipSpaces, many_eq_nil hsuffix]
  exact hc.skipSpaces

/-! ## 4. Type names -/

/-- Where neither a qualifier nor a built-in type is read, there is no keyword. -/
theorem keywords_none (hqualifier : qualifierToken cs = none) (hbuiltin : builtin cs = none) :
    ∀ w ∈ keywords, word w cs = none := by
  have hqualifiers : ∀ w ∈ qualifierWords, word w cs = none := by
    have hnone : orElse (word "const".toList) (word "volatile".toList) cs = none :=
      Option.map_eq_none_iff.mp hqualifier
    simp only [orElse] at hnone
    split at hnone
    · cases hnone
    · rename_i hconst
      simpa [qualifierWords] using ⟨hconst, hnone⟩
  have hword : builtinWord cs = none := by
    cases hread : builtinWord cs with
    | none => rfl
    | some r =>
      rw [builtin, many_eq_cons hread (spends_builtinWord hread).2] at hbuiltin
      cases hbuiltin
  intro w hw
  rcases List.mem_append.mp hw with hw | hw
  · exact hqualifiers w hw
  · obtain ⟨v, hv, rfl⟩ := List.mem_map.mp hw
    exact Option.map_eq_none_iff.mp (List.findSome?_eq_none_iff.mp hword v hv)

theorem spends_base (h : SpendsArguments argument) {b : BaseName}
    (hread : orElse builtin (path argument) cs = some (some b, rest))
    (hqualifier : qualifierToken cs = none) :
    Spends cs rest (weight b.spell) (b.isWritable = true)
      ((∀ u ∈ b.nested, u.isDistinct = true) ∧ ∀ s ∈ b.segments.head?,
        isKeywordLike s.name.toList = true → ∃ c ∈ rest.head?, IsForeign c) := by
  unfold orElse at hread
  split at hread
  · rename_i hbuiltin
    cases hread
    obtain ⟨type, heq, hspends⟩ := spends_builtin hbuiltin
    obtain rfl : b = .builtin type := Option.some.inj heq
    exact hspends.mono (Nat.le_refl _) (fun _ _ => rfl)
      fun _ _ => ⟨fun u hu => (by cases hu), fun s hs => by cases hs⟩
  · rename_i hbuiltin
    have hword := keywords_none hqualifier hbuiltin
    exact (spends_path h hread).mono (Nat.le_refl _) (fun _ => id) fun _ hkept =>
      ⟨hkept.2, fun s hs hkey => foreign_of_path hread hkept.1 hword hs hkey⟩

/-- Qualifiers are dropped, the base is read, and suffixes behind it. -/
theorem spends_typeName (h : SpendsArguments argument) {t : TypeName}
    (hread : typeName argument cs = some (some t, rest)) :
    Spends cs rest (weight t.spell) (t.isWritable = true)
      (Ended rest → ∀ u ∈ t.nested, u.isDistinct = true) := by
  obtain ⟨base, left, hbase, ht, rfl⟩ := typeName_eq_some_iff.mp hread
  obtain ⟨b, rfl, hfound⟩ := Option.bind_eq_some_iff.mp ht.symm
  obtain ⟨found, hall, rfl⟩ := Option.map_eq_some_iff.mp hfound
  obtain ⟨hqualifiers, hnone⟩ := spends_qualifiers (skipSpaces cs)
  have hfront := (Spends.spaces cs).trans hqualifiers
  have hback := ((Spends.spaces left).trans (spends_suffixes hall)).trans (Spends.spaces _)
  refine ((hfront.trans (spends_base h hbase hnone)).trans hback).mono ?_ (fun _ hsure => ?_)
    fun _ hkept hend => ?_
  · rw [TypeName.spell, weight_append, weight_suffixes]
    omega
  · rw [TypeName.isWritable, Bool.and_eq_true, List.all_eq_true]
    exact ⟨hsure.1.2, hsure.2.1.2⟩
  · obtain ⟨⟨-, hnested, hkeyword⟩, ⟨-, hjoins, -⟩, -⟩ := hkept
    rw [TypeName.nested]
    refine List.forall_mem_cons.mpr ⟨isDistinct_iff.mpr ⟨fun s hs => ?_, hjoins⟩, hnested⟩
    by_contra hkey
    obtain ⟨c, hc, hforeign⟩ := hkeyword s hs (by simpa using hkey)
    obtain ⟨cs, rfl⟩ := List.head?_eq_some_iff.mp hc
    rw [foreign_of_suffixes hforeign] at hend
    rcases hend c rfl with rfl | rfl
    · exact hforeign.ne (by simp) rfl
    · exact hforeign.ne (by simp) rfl

/-- **Scanners for template arguments weigh what they read**, at every level. -/
theorem argument_spends (n : Nat) : SpendsArguments (Scanner.argument n) := by
  induction n with
  | zero =>
    intro cs rest a h
    cases h
  | succ n ih =>
    intro cs rest a h
    rw [Scanner.argument] at h
    simp only at h
    split at h
    · rename_i value left hnumber
      obtain ⟨hvalue, rfl⟩ := Prod.mk.inj (Option.some.inj h)
      obtain ⟨v, rfl, rfl⟩ := Option.map_eq_some_iff.mp hvalue
      exact (spends_number hnumber).mono (Nat.le_of_eq (weight_spellInt v)) (fun _ => id)
        fun _ _ _ u hu => by cases hu
    · obtain ⟨⟨found, left⟩, hname, heq⟩ := Option.map_eq_some_iff.mp h
      obtain ⟨hfound, rfl⟩ := Prod.mk.inj heq
      obtain ⟨t, rfl, rfl⟩ := Option.map_eq_some_iff.mp hfound
      exact (spends_typeName ih hname).mono (Nat.le_refl _) (fun _ hsure _ => hsure) fun _ => id

end Scanner

namespace TypeName

variable {text : String} {t : TypeName}

/-- **What a text is read as weighs no more than the text.** The canonical spelling of any name is
read as a name that can be written, if it is read as one; and unless that makes it lighter, its
canonical spelling is read as itself. -/
theorem spends_of_parse (h : parse text = .ok t) :
    Spends text.toList [] (weight t.format.toList) (t.isWritable = true) t.WellFormed := by
  have hscan := (parseChars_eq_ok_iff.mp (parse_eq_ok_iff.mp h)).2
  rw [format, String.toList_ofList]
  exact (Scanner.spends_typeName (Scanner.argument_spends _) hscan).mono (Nat.le_refl _)
    (fun _ => id) fun _ hkept u hu => ⟨isNamed_of_parse h u hu, hkept ended_nil u hu⟩

/-- A canonical spelling has no space that could be left out. -/
theorem tidy_format (h : parse text = .ok t) : Tidy t.format.toList := by
  rw [format, String.toList_ofList]
  exact tidy_spell (isNamed_of_parse h)

/-! ## 5. Respelling again and again -/

/-- The text after this many respellings, unless one of them fails. -/
def respelled : Nat → String → Except SpellingFault String
  | 0, text => .ok text
  | n + 1, text => normalize text >>= respelled n

/-- Respelling changes the text no more, or does not apply to it. -/
def Settled (text : String) : Prop :=
  normalize text = .ok text ∨ ∃ fault, parse text = .error fault

/-- So many respellings lead to a text that is settled. -/
def SettlesIn (n : Nat) (text : String) : Prop :=
  ∃ last, respelled n text = .ok last ∧ Settled last

/-- One respelling, of what is read and can be written. -/
theorem normalize_of_parse (h : parse text = .ok t) (hwritable : t.isWritable = true) :
    normalize text = .ok t.format := by
  simp [normalize, h, written?, hwritable]

theorem settlesIn_of_error {fault : NameSyntaxError} (h : parse text = .error fault) :
    SettlesIn 0 text :=
  ⟨text, rfl, .inr ⟨fault, h⟩⟩

/-- One respelling more. -/
theorem SettlesIn.step {n : Nat} (h : parse text = .ok t) (hwritable : t.isWritable = true)
    (hrest : SettlesIn n t.format) : SettlesIn (n + 1) text := by
  obtain ⟨last, hlast, hsettled⟩ := hrest
  refine ⟨last, ?_, hsettled⟩
  rw [respelled, normalize_of_parse h hwritable]
  exact hlast

/-- A tidy text settles after as many steps as it weighs, and one. -/
theorem settlesIn_of_tidy (text : String) (htidy : Tidy text.toList) :
    ∃ n ≤ weight text.toList + 1, SettlesIn n text := by
  cases hparse : parse text with
  | error fault => exact ⟨0, Nat.zero_le _, settlesIn_of_error hparse⟩
  | ok t =>
    have hspends := spends_of_parse hparse
    have hwritable := hspends.sure htidy
    have hweight : weight t.format.toList ≤ weight text.toList := hspends.weight_le
    rcases Nat.lt_or_eq_of_le hweight with hlt | heq
    · obtain ⟨n, hn, hrest⟩ := settlesIn_of_tidy t.format (tidy_format hparse)
      exact ⟨n + 1, by omega, hrest.step hparse hwritable⟩
    · -- nothing is lost, so the canonical spelling is read as the name itself
      have hwf := hspends.kept htidy heq
      have hfixed := normalize_of_parse (parse_format hwf hwritable) hwritable
      exact ⟨1, by omega, SettlesIn.step hparse hwritable ⟨_, rfl, .inl hfixed⟩⟩
termination_by weight text.toList

/-- A number that cannot be written keeps a name from being respelled, although it is read. -/
theorem not_settlesIn_of_overlong (h : parse text = .ok t) (hlong : t.isWritable = false)
    (n : Nat) : ¬SettlesIn n text := by
  have hnormalize : normalize text = .error .tooManyDigits := by
    simp [normalize, h, written?, hlong]
  rintro ⟨last, hlast, hsettled⟩
  cases n with
  | zero =>
    cases hlast
    rcases hsettled with hfixed | ⟨fault, hfault⟩
    · cases hnormalize.symm.trans hfixed
    · cases h.symm.trans hfault
  | succ n =>
    rw [respelled, hnormalize] at hlast
    cases hlast

/-- **Respelling ends**, unless the text holds a number that is too long to be written. -/
theorem settlesIn_or_overlong (text : String) :
    (∃ n ≤ text.length + 2, SettlesIn n text) ∨
      ∃ t, parse text = .ok t ∧ t.isWritable = false ∧ ∀ n, ¬SettlesIn n text := by
  cases hparse : parse text with
  | error fault => exact .inl ⟨0, Nat.zero_le _, settlesIn_of_error hparse⟩
  | ok t =>
    cases hwritable : t.isWritable with
    | true =>
      obtain ⟨n, hn, hrest⟩ := settlesIn_of_tidy t.format (tidy_format hparse)
      have hweight : weight t.format.toList ≤ weight text.toList :=
        (spends_of_parse hparse).weight_le
      have hlength := weight_le_length text.toList
      rw [String.length_toList] at hlength
      exact .inl ⟨n + 1, by omega, hrest.step hparse hwritable⟩
    | false => exact .inr ⟨t, rfl, hwritable, not_settlesIn_of_overlong hparse hwritable⟩

/-- The mark goes first, then the qualifier, and then the words are completed. -/
example : respelled 3 ":: volatile::unsigned" = .ok "unsigned int" := by decide +kernel

end TypeName

/-! ## 6. Numbers in base sixteen -/

/-- The value of digits in base sixteen. -/
def hexValue (ds : List Char) : Nat := ds.foldl (fun n c => 16 * n + Scanner.hexDigit c) 0

/-- The text of an only template argument in base sixteen, with what closes the list. -/
def hexArgument (ds : List Char) : List Char := '0' :: 'x' :: (ds ++ ['>'])

section

variable {ds : List Char}

namespace Scanner

theorem number_hex (hne : ds ≠ []) (hds : ∀ c ∈ ds, isHexDigit c = true) :
    number (hexArgument ds) = some (some (hexValue ds : Int), ['>']) := by
  obtain ⟨htake, hdrop⟩ := takeWhile_eq_of_head (r := ['>']) hds (by decide)
  have hrest : skipSpaces (List.dropWhile isNumberSuffix ['>']) = ['>'] := by decide
  simp [hexArgument, number, signFactor, magnitude, hexDigits, htake, hdrop, hne, hrest, hexValue]

theorem arguments_hex (hne : ds ≠ []) (hds : ∀ c ∈ ds, isHexDigit c = true) (n : Nat) :
    arguments (Scanner.argument (n + 1)) ('<' :: hexArgument ds) =
      some (some [.number (hexValue ds)], []) := by
  have hfirst : Scanner.argument (n + 1) (hexArgument ds) =
      some (some (.number (hexValue ds)), ['>']) := by
    simp [Scanner.argument, number_hex hne hds]
  have hopen : token ['<'] ('<' :: hexArgument ds) = some ((), hexArgument ds) := rfl
  have hclose : token ['>'] ['>'] = some ((), []) := rfl
  have hmore : many (nextArgument (Scanner.argument (n + 1))) ['>'] = ([], ['>']) :=
    many_eq_nil rfl
  rw [arguments_eq, hopen, Option.bind_some]
  simp [argumentList, hfirst, hmore, hclose, allSome]

theorem segment_hex (hne : ds ≠ []) (hds : ∀ c ∈ ds, isHexDigit c = true) (n : Nat) :
    segment (Scanner.argument (n + 1)) ('T' :: '<' :: hexArgument ds) =
      some (some (.template "T" [.number (hexValue ds)]), []) := by
  have hname : name ('T' :: '<' :: hexArgument ds) = some (['T'], '<' :: hexArgument ds) :=
    name_of_identifier (n := ['T']) (by decide) (by simp; decide)
  have hskip : skipSpaces ('<' :: hexArgument ds) = '<' :: hexArgument ds := rfl
  simp only [segment, hname, Option.map_some, hskip, arguments_hex hne hds]

theorem base_hex (hne : ds ≠ []) (hds : ∀ c ∈ ds, isHexDigit c = true) (n : Nat) :
    (many qualifierToken (skipSpaces ('T' :: '<' :: hexArgument ds))).2 =
        'T' :: '<' :: hexArgument ds ∧
      orElse builtin (path (Scanner.argument (n + 1))) ('T' :: '<' :: hexArgument ds) =
        some (some (.path [] (.template "T" [.number (hexValue ds)])), []) := by
  have hword : ∀ w ∈ keywords, word w ('T' :: '<' :: hexArgument ds) = none := by
    have hapart : ∀ w ∈ keywords, ['T'] ≠ w ∧ ¬w ++ ['$'] <+: ['T'] := by decide
    intro w hw
    exact word_eq_none (n := ['T']) hw (by decide) (hapart w hw).1 (hapart w hw).2 (by simp; decide)
  have hqualifier := qualifierToken_eq_none fun w hw => hword w (mem_keywords_of_qualifier hw)
  have hskip : skipSpaces ('T' :: '<' :: hexArgument ds) = 'T' :: '<' :: hexArgument ds := rfl
  refine ⟨by rw [hskip, many_eq_nil hqualifier], ?_⟩
  have hstart : pathStart ('T' :: '<' :: hexArgument ds) = 'T' :: '<' :: hexArgument ds := rfl
  have hmore : many (scopeTail (Scanner.argument (n + 1))) [] = ([], []) := many_eq_nil rfl
  rw [orElse, builtin_eq_none hword]
  simp only [path_eq, hstart, segment_hex hne hds, Option.map_some, hmore]
  rfl

end Scanner

/-- A template argument in base sixteen is read, however long it is. -/
theorem TypeName.parse_hex (hne : ds ≠ []) (hds : ∀ c ∈ ds, Scanner.isHexDigit c = true) :
    parse (String.ofList ('T' :: '<' :: hexArgument ds)) =
      .ok (.mk (.path [] (.template "T" [.number (hexValue ds)])) []) := by
  refine parse_eq_ok_iff.mpr (parseChars_eq_ok_iff.mpr ⟨?_, ?_⟩)
  · rw [String.toList_ofList, List.all_cons]
    rfl
  · have hsuffix : Scanner.many Scanner.suffix (skipSpaces []) = ([], []) :=
      Scanner.many_eq_nil rfl
    rw [String.toList_ofList, scan, List.length_cons]
    obtain ⟨hstart, hbase⟩ := Scanner.base_hex hne hds ('<' :: hexArgument ds).length
    refine Scanner.typeName_eq_some_iff.mpr ⟨_, [], hstart ▸ hbase, ?_, ?_⟩
    · rw [hsuffix]
      rfl
    · rw [hsuffix]
      rfl

end

theorem hexValue_zeros (k : Nat) : hexValue ('1' :: List.replicate k '0') = 16 ^ k := by
  induction k with
  | zero => rfl
  | succ k ih =>
    rw [List.replicate_succ', ← List.cons_append, hexValue, List.foldl_append, ← hexValue, ih,
      Nat.pow_succ, Nat.mul_comm]
    rfl

/-- The one with a one in front of zeros. -/
theorem TypeName.parse_powerOfSixteen (k : Nat) :
    parse (String.ofList ('T' :: '<' :: hexArgument ('1' :: List.replicate k '0'))) =
      .ok (.mk (.path [] (.template "T" [.number ((16 ^ k : Nat) : Int)])) []) := by
  have hdigits : ∀ c ∈ '1' :: List.replicate k '0', Scanner.isHexDigit c = true := by
    have hone : Scanner.isHexDigit '1' = true ∧ Scanner.isHexDigit '0' = true := by decide
    refine List.forall_mem_cons.mpr ⟨hone.1, fun c hc => ?_⟩
    rw [List.eq_of_mem_replicate hc]
    exact hone.2
  rw [parse_hex (List.cons_ne_nil _ _) hdigits, hexValue_zeros]

end NativeTypes
