/-
NativeTypes.Proofs.TypeName.Canonical — every spelling of a type name is read
as that name, the canonical one among them.

The canonical spelling puts one space between built-in words and behind the
mark between template arguments, and none anywhere else. So it lays out tokens
of the name wherever what follows does not run on (`Renders`), which goes by
recursion over the syntax (`TypeName.exists_writes`). The rest is what reading
guarantees for all spellings.

What follows a piece decides whether it ends where it should: behind `int`
another word character would make another word of it. A statement about a piece
on its own is therefore of no use where the piece stands inside another one,
and `Renders` speaks of the piece in front of every text that does not run on.
Such a text is what stands behind each piece of a spelling: the end, a mark, a
space or a bracket (`Stops`).

The canonical spelling needs no reading of its own. It is shown to be one of
the spellings (`spells_format`), and that every spelling is read as its name is
shown once for all of them.

Main statement: `parse_of_spells`.
-/
import NativeTypes.Proofs.TypeName.Reading

namespace NativeTypes

open NativeTypes.Text

/-! ## 1. Laying out one token more -/

/-- No word runs on into this text. -/
def Stops (rest : List Char) : Prop := ∀ c ∈ rest.head?, runsOn c = false

instance (rest : List Char) : Decidable (Stops rest) :=
  inferInstanceAs (Decidable (∀ c ∈ rest.head?, runsOn c = false))

theorem stops_cons {c : Char} (h : runsOn c = false) (rest : List Char) : Stops (c :: rest) := by
  intro d hd
  cases hd
  exact h

/-- A text lays out tokens in front of every text that does not run on. -/
def Renders (cs : List Char) (ts : List Token) : Prop :=
  ∀ {rest : List Char} {more : List Token}, Lays more rest → Stops rest →
    Lays (ts ++ more) (cs ++ rest)

namespace Lays

variable {more : List Token} {rest : List Char}

/-- A token with spaces behind it. -/
theorem spaced {token gap : List Char} (hstart : ∃ c ∈ token.head?, isSpace c = false)
    (hgap : ∀ d ∈ gap, isSpace d = true) (hstop : Stops (gap ++ rest)) (h : Lays more rest) :
    Lays (token :: more) (token ++ (gap ++ rest)) := by
  obtain ⟨c, hc, hspace⟩ := hstart
  obtain ⟨cs, rfl⟩ := List.head?_eq_some_iff.mp hc
  refine .cons hspace hgap (fun x _ d hd => ?_) h
  rw [hstop d hd, Bool.and_false]

/-- A token that nothing runs on from. -/
theorem word (token : Token) (hstart : ∃ c ∈ token.head?, isSpace c = false) (h : Lays more rest)
    (hstop : Stops rest) : Lays (token :: more) (token ++ rest) :=
  show Lays (token :: more) (token ++ ([] ++ rest)) from spaced hstart (by simp) hstop h

/-- Behind a mark anything may follow, with spaces in front or without. -/
theorem mark (c : Char) (cs gap : List Char) (hspace : isSpace c = false)
    (hmark : ∀ d ∈ c :: cs, runsOn d = false) (hgap : ∀ d ∈ gap, isSpace d = true)
    (h : Lays more rest) : Lays ((c :: cs) :: more) (c :: cs ++ (gap ++ rest)) := by
  refine .cons hspace hgap (fun d hd e _ => ?_) h
  rw [hmark d (List.mem_of_getLast? hd), Bool.false_and]

end Lays

theorem Scanner.isSpace_of_opensName {c : Char} (h : opensName c = true) : isSpace c = false :=
  (Bool.or_eq_false_iff.mp (opensName_apart h).1).1

theorem isSpace_of_runsOn {c : Char} (h : runsOn c = true) : isSpace c = false := by
  by_contra hspace
  rw [Bool.not_eq_false] at hspace
  rw [not_runsOn_of_isSpace hspace] at h
  cases h

theorem isSpace_head?_spellInt (n : Int) : ∃ c ∈ (Suffix.spellInt n).head?, isSpace c = false := by
  have hne : Nat.toDigits 10 n.natAbs ≠ [] := Nat.toDigits_ne_nil
  rw [Suffix.spellInt]
  split
  · exact ⟨'-', rfl, by decide⟩
  · exact ⟨_, List.head?_eq_some_head hne,
      isSpace_of_runsOn (runsOn_of_isDigit (Scanner.isDigit_of_mem _ (List.head_mem hne)))⟩

theorem isSpace_head?_name {n : List Char} (hn : isSegmentName n = true) :
    ∃ c ∈ n.head?, isSpace c = false := by
  obtain ⟨c, hc, hstart⟩ := Scanner.head?_of_isSegmentName hn
  refine ⟨c, hc, Scanner.isSpace_of_opensName ?_⟩
  rcases hstart with hstart | rfl | rfl
  · rw [Scanner.opensName, hstart]
    rfl
  · decide
  · decide

/-! ## 2. Suffixes and built-in types -/

/-- Suffixes begin with marks. -/
theorem stops_spell (s : Suffix) (rest : List Char) : Stops (s.spell ++ rest) := by
  intro c hc
  rcases s with _ | _ | _ | n <;> cases hc <;> decide

theorem Suffix.exists_writes (s : Suffix) : ∃ ts, s.Writes ts ∧ Renders s.spell ts := by
  have hone (c : Char) (hspace : isSpace c = false) (hmark : runsOn c = false) :
      Renders [c] [[c]] := fun h _ =>
        Lays.mark c [] [] hspace (by simpa) (by simp) h
  cases s with
  | pointer => exact ⟨_, .pointer, hone '*' (by decide) (by decide)⟩
  | reference => exact ⟨_, .reference, hone '&' (by decide) (by decide)⟩
  | array length =>
    cases length with
    | none =>
      refine ⟨_, .unsized, fun h hstop => ?_⟩
      exact (hone ']' (by decide) (by decide) h hstop).mark '[' [] [] (by decide) (by decide)
        (by simp)
    | some n =>
      refine ⟨_, .sized n, fun {rest} _ h hstop => ?_⟩
      have hclose := hone ']' (by decide) (by decide) h hstop
      have hnumber := hclose.word _ (isSpace_head?_spellInt n) (stops_cons (by decide) rest)
      simpa [Suffix.spell] using hnumber.mark '[' [] [] (by decide) (by decide) (by simp)

theorem exists_suffixesWritten (ss : List Suffix) :
    ∃ ts, SuffixesWritten ss ts ∧ Renders (ss.flatMap Suffix.spell) ts ∧
      ∀ rest, Stops rest → Stops (ss.flatMap Suffix.spell ++ rest) := by
  induction ss with
  | nil => exact ⟨[], .nil, fun h _ => h, fun rest h => h⟩
  | cons s ss ih =>
    obtain ⟨xs, hs, hlays⟩ := s.exists_writes
    obtain ⟨ys, hss, hlays', hstops⟩ := ih
    refine ⟨xs ++ ys, .suffix hs hss, fun h hstop => ?_, fun rest _ => ?_⟩
    · rw [List.flatMap_cons, List.append_assoc, List.append_assoc]
      exact hlays (hlays' h hstop) (hstops _ hstop)
    · rw [List.flatMap_cons, List.append_assoc]
      exact stops_spell s _

/-- The words that a built-in type is shown with. -/
def Builtin.shownWords (b : Builtin) : List String := (words b.spelling.toList).map String.ofList

theorem Builtin.shownWords_spec (b : Builtin) : b.shownWords ≠ [] ∧
    (∀ w ∈ b.shownWords, w ∈ Builtin.vocabulary) ∧ Builtin.ofWords b.shownWords = b ∧
      List.intercalate [' '] (b.shownWords.map String.toList) = b.spelling.toList := by
  cases b <;> decide

/-- Built-in words with one space between them. -/
theorem renders_words {ws : List String} (hw : ∀ w ∈ ws, w ∈ Builtin.vocabulary) :
    Renders (List.intercalate [' '] (ws.map String.toList)) (ws.map String.toList) := by
  have hstart : ∀ w ∈ Builtin.vocabulary, ∃ c ∈ w.toList.head?, isSpace c = false := by decide
  intro rest more h hstop
  induction ws with
  | nil => exact h
  | cons w ws ih =>
    have hthis := hstart w (hw w List.mem_cons_self)
    have hnext := ih fun v hv => hw v (List.mem_cons_of_mem w hv)
    cases ws with
    | nil =>
      rw [List.map_cons, List.map_nil, List.intercalate_singleton]
      exact h.word _ hthis hstop
    | cons v vs =>
      rw [List.map_cons, List.map_cons, List.intercalate_cons_cons, List.append_assoc,
        List.append_assoc]
      exact hnext.spaced hthis (by decide) (stops_cons (by decide) _)

/-! ## 3. Bases and arguments

Mutual recursion over the syntax, a case for each constructor. Lists of segments and of arguments
are laid out from the left, each element with its mark in front or behind. -/

theorem flatMap_intercalate {sep x : List Char} {xs : List (List Char)} :
    List.intercalate sep (x :: xs) = x ++ xs.flatMap (sep ++ ·) := by
  induction xs generalizing x with
  | nil => simp
  | cons y ys ih => rw [List.intercalate_cons_cons, ih, List.flatMap_cons, List.append_assoc,
      List.append_assoc]

theorem intercalate_concat {sep x : List Char} {xs : List (List Char)} :
    List.intercalate sep (xs ++ [x]) = xs.flatMap (· ++ sep) ++ x := by
  induction xs with
  | nil => simp
  | cons y ys ih =>
    rw [List.cons_append, List.intercalate_cons_of_ne_nil (by simp), ih, List.flatMap_cons]
    simp only [List.append_assoc]

mutual
/-- The canonical spelling lays out tokens of a name whose segments are named by the grammar. -/
theorem TypeName.exists_writes : (t : TypeName) → (∀ u ∈ t.nested, u.isNamed = true) →
    ∃ ts, t.Writes ts ∧ Renders t.spell ts
  | .mk b ss, hnamed => by
    rw [TypeName.nested] at hnamed
    have hname := Scanner.isNamed_iff.mp (hnamed _ List.mem_cons_self)
    obtain ⟨xs, hb, hlays⟩ := b.exists_writes hname fun u hu => hnamed u (List.mem_cons_of_mem _ hu)
    obtain ⟨ys, hss, hlays', hstops⟩ := exists_suffixesWritten ss
    refine ⟨xs ++ ys, ⟨[], xs, ys, by simp, hb, hss, rfl⟩, fun h hstop => ?_⟩
    rw [TypeName.spell, List.append_assoc, List.append_assoc]
    exact hlays (hlays' h hstop) (hstops _ hstop)

theorem BaseName.exists_writes : (b : BaseName) →
    (∀ s ∈ b.segments, isSegmentName s.name.toList = true) → (∀ u ∈ b.nested, u.isNamed = true) →
    ∃ ts, b.Writes ts ∧ Renders b.spell ts
  | .builtin type, _, _ => by
    obtain ⟨hne, hvocabulary, hwords, hspelling⟩ := type.shownWords_spec
    refine ⟨_, ⟨type.shownWords, hne, hvocabulary, hwords, rfl⟩, ?_⟩
    rw [BaseName.spell, ← hspelling]
    exact renders_words hvocabulary
  | .path scopes last, hname, hnamed => by
    rw [BaseName.nested] at hnamed
    obtain ⟨xs, hscopes, hlays⟩ := exists_scopesWritten scopes
      (fun s hs => hname s (List.mem_append_left _ hs))
      fun u hu => hnamed u (List.mem_append_left _ hu)
    obtain ⟨ys, hlast, hlays'⟩ := last.exists_writes
      (hname last (List.mem_append_right _ List.mem_cons_self))
      fun u hu => hnamed u (List.mem_append_right _ hu)
    refine ⟨xs ++ ys, ⟨[], xs, ys, .inl rfl, hscopes, hlast, rfl⟩, fun h hstop => ?_⟩
    rw [BaseName.spell, intercalate_concat, List.append_assoc, List.append_assoc]
    exact hlays (hlays' h hstop)

theorem Segment.exists_writes : (s : Segment) → isSegmentName s.name.toList = true →
    (∀ u ∈ s.nested, u.isNamed = true) → ∃ ts, s.Writes ts ∧ Renders s.spell ts
  | .plain n, hname, _ =>
    ⟨[n.toList], rfl, fun h hstop => h.word _ (isSpace_head?_name hname) hstop⟩
  | .template n as, hname, hnamed => by
    obtain ⟨xs, has, hlays⟩ := exists_argumentsWritten as hnamed
    refine ⟨_, ⟨xs, has, rfl⟩, fun {rest more} h hstop => ?_⟩
    have hclose : Lays (['>'] :: more) ('>' :: rest) :=
      h.mark '>' [] [] (by decide) (by decide) (by simp)
    have hargs := hlays hclose (stops_cons (by decide) rest)
    have hopen := hargs.mark '<' [] [] (by decide) (by decide) (by simp)
    have hall := hopen.word _ (isSpace_head?_name hname) (stops_cons (by decide) _)
    simpa [Segment.spell, Segment.name] using hall

theorem Argument.exists_writes : (a : Argument) → (∀ u ∈ a.nested, u.isNamed = true) →
    ∃ ts, a.Writes ts ∧ Renders a.spell ts
  | .number n, _ => ⟨_, rfl, fun h hstop => h.word _ (isSpace_head?_spellInt n) hstop⟩
  | .type t, hnamed => t.exists_writes hnamed

theorem exists_scopesWritten : (ss : List Segment) →
    (∀ s ∈ ss, isSegmentName s.name.toList = true) →
    (∀ u ∈ nestedInSegments ss, u.isNamed = true) →
    ∃ ts, scopesWritten ss ts ∧ ∀ {rest : List Char} {more : List Token}, Lays more rest →
      Lays (ts ++ more) ((spellSegments ss).flatMap (· ++ scopeMark) ++ rest)
  | [], _, _ => ⟨[], rfl, fun h => h⟩
  | s :: ss, hname, hnamed => by
    rw [nestedInSegments] at hnamed
    obtain ⟨xs, hs, hlays⟩ := s.exists_writes (hname s List.mem_cons_self)
      fun u hu => hnamed u (List.mem_append_left _ hu)
    obtain ⟨ys, hss, hlays'⟩ := exists_scopesWritten ss
      (fun s' hs' => hname s' (List.mem_cons_of_mem s hs'))
      fun u hu => hnamed u (List.mem_append_right _ hu)
    refine ⟨xs ++ scopeMark :: ys, ⟨xs, ys, hs, hss, rfl⟩, fun {rest more} h => ?_⟩
    have hmark := (hlays' h).mark ':' [':'] [] (by decide) (by decide) (by simp)
    simpa [spellSegments, scopeMark] using hlays hmark (stops_cons (by decide) _)

theorem exists_argumentsWritten : (as : List Argument) →
    (∀ u ∈ nestedInArguments as, u.isNamed = true) →
    ∃ ts, argumentsWritten as ts ∧
      Renders (List.intercalate argumentMark (spellArguments as)) ts
  | [], _ => ⟨[], rfl, fun h _ => h⟩
  | a :: as, hnamed => by
    rw [nestedInArguments] at hnamed
    obtain ⟨xs, ha, hlays⟩ := a.exists_writes fun u hu => hnamed u (List.mem_append_left _ hu)
    obtain ⟨ys, has, hlays', hstops⟩ :=
      exists_moreWritten as fun u hu => hnamed u (List.mem_append_right _ hu)
    refine ⟨xs ++ ys, ⟨xs, ys, ha, has, rfl⟩, fun h hstop => ?_⟩
    rw [spellArguments, flatMap_intercalate, List.append_assoc, List.append_assoc]
    exact hlays (hlays' h hstop) (hstops _ hstop)

theorem exists_moreWritten : (as : List Argument) →
    (∀ u ∈ nestedInArguments as, u.isNamed = true) →
    ∃ ts, moreWritten as ts ∧ Renders ((spellArguments as).flatMap (argumentMark ++ ·)) ts ∧
      ∀ rest, Stops rest → Stops ((spellArguments as).flatMap (argumentMark ++ ·) ++ rest)
  | [], _ => ⟨[], rfl, fun h _ => h, fun _ h => h⟩
  | a :: as, hnamed => by
    rw [nestedInArguments] at hnamed
    obtain ⟨xs, ha, hlays⟩ := a.exists_writes fun u hu => hnamed u (List.mem_append_left _ hu)
    obtain ⟨ys, has, hlays', hstops⟩ :=
      exists_moreWritten as fun u hu => hnamed u (List.mem_append_right _ hu)
    refine ⟨[','] :: (xs ++ ys), ⟨xs, ys, ha, has, rfl⟩, fun h hstop => ?_, fun rest _ => ?_⟩
    · have hmark := (hlays (hlays' h hstop) (hstops _ hstop)).mark ',' [] [' ']
        (by decide) (by decide) (by decide)
      simpa [spellArguments, argumentMark] using hmark
    · exact stops_cons (by decide) _
end

/-! ## 4. Reading every spelling -/

namespace TypeName

/-- The canonical spelling is one of the spellings. -/
theorem spells_format {t : TypeName} (hnamed : ∀ u ∈ t.nested, u.isNamed = true) :
    t.Spells t.format.toList := by
  obtain ⟨ts, hw, hlays⟩ := t.exists_writes hnamed
  have hwhole := hlays .nil fun c hc => by cases hc
  rw [List.append_nil, List.append_nil] at hwhole
  exact ⟨[], ts, t.spell, by simp, hw, hwhole, by
    rw [format, String.toList_ofList, List.nil_append]⟩

theorem parse_eq_of_spells {t : TypeName} (ht : t.WellFormed) {text : String}
    (htext : t.Spells text.toList) :
    parse text = if t.isWritable then .ok t else .error ⟨text, .number⟩ := by
  rw [parse, parseChars_of_spells ht htext]
  cases t.isWritable <;> rfl

/-- The canonical spelling is read back, if it can be written. -/
theorem parse_format {t : TypeName} (ht : t.WellFormed) (hwritable : t.isWritable = true) :
    parse t.format = .ok t := by
  rw [parse_eq_of_spells ht (spells_format fun u hu => (ht u hu).1), if_pos hwritable]

/-- **Every spelling of a well-formed name is read as that name**, wherever it has spaces,
qualifiers and a mark in front, and its canonical spelling is one of them. Only a name with a
number that is too long to be written is refused, under every spelling, and for that number. -/
theorem parse_of_spells {t : TypeName} (ht : t.WellFormed) :
    (∀ text : String, t.Spells text.toList →
      parse text = if t.isWritable then .ok t else .error ⟨text, .number⟩) ∧
    (t.isWritable = true → parse t.format = .ok t) :=
  ⟨fun _ htext => parse_eq_of_spells ht htext, parse_format ht⟩

/-- The name `Foo<int, 3>*&`. -/
def fooReference : TypeName :=
  .mk (.path [] (.template "Foo" [.type (.mk (.builtin .int) []), .number 3]))
    [.pointer, .reference]

/-- A spelling with a mark in front, qualifiers, other spaces and the other mark of a reference. -/
theorem spells_fooReference : fooReference.Spells " ::Foo<const int ,3>*volatile&&".toList := by
  have hreference : Lays [['&', '&']] ['&', '&'] :=
    Lays.nil.mark '&' ['&'] [] (by decide) (by decide) (by simp)
  have hpointer : Lays [['*'], "volatile".toList, ['&', '&']] "*volatile&&".toList :=
    (hreference.word "volatile".toList (by decide) (by decide)).mark '*' [] [] (by decide)
      (by decide) (by simp)
  have hopen : Lays ([['<'], "const".toList, "int".toList, [','], ['3'], ['>']] ++
      [['*'], "volatile".toList, ['&', '&']]) "<const int ,3>*volatile&&".toList := by
    have hclose := hpointer.mark '>' [] [] (by decide) (by decide) (by simp)
    have hcomma := (hclose.word ['3'] (by decide) (by decide)).mark ',' [] [] (by decide)
      (by decide) (by simp)
    have hint : Lays _ ("int".toList ++ ([' '] ++ _)) := hcomma.spaced (by decide) (by decide)
      (by decide)
    have hconst : Lays _ ("const".toList ++ ([' '] ++ _)) := hint.spaced (by decide) (by decide)
      (by decide)
    exact hconst.mark '<' [] [] (by decide) (by decide) (by simp)
  have hlays := (hopen.word "Foo".toList (by decide) (by decide)).mark ':' [':'] []
    (by decide) (by decide) (by simp)
  have hint : (TypeName.mk (.builtin .int) []).Writes ["const".toList, "int".toList] :=
    ⟨["const".toList], ["int".toList], [], by decide,
      ⟨["int"], by decide, by decide, by decide, rfl⟩, .nil, rfl⟩
  have harguments : argumentsWritten [.type (.mk (.builtin .int) []), .number 3]
      ["const".toList, "int".toList, [','], ['3']] :=
    ⟨_, [[','], ['3']], hint, ⟨[['3']], [], rfl, rfl, rfl⟩, rfl⟩
  have hsuffixes : SuffixesWritten [.pointer, .reference]
      [['*'], "volatile".toList, ['&', '&']] :=
    .suffix .pointer (.qualifier (by decide) (.suffix .doubleReference .nil))
  exact ⟨[' '], _, _, by decide,
    ⟨[], _, _, by simp, ⟨[scopeMark], [], _, .inr rfl, rfl, ⟨_, harguments, rfl⟩, rfl⟩, hsuffixes,
      rfl⟩, hlays, by decide⟩

theorem parse_fooReference :
    fooReference.WellFormed ∧ fooReference.Spells " ::Foo<const int ,3>*volatile&&".toList ∧
      parse " ::Foo<const int ,3>*volatile&&" = .ok fooReference ∧
      parse "Foo<int, 3>*&" = .ok fooReference := by
  have hwf : fooReference.WellFormed := by decide
  refine ⟨hwf, spells_fooReference, ?_, ?_⟩
  · exact ((parse_of_spells hwf).1 _ spells_fooReference).trans (if_pos (by decide +kernel))
  · exact (parse_of_spells hwf).2 (by decide +kernel)

/-- Not every well-formed name has a spelling that is read: a number with one digit more than
can be written is refused. -/
theorem exists_spelling_refused :
    ∃ (t : TypeName) (text : String), t.WellFormed ∧ t.Spells text.toList ∧ parse text ≠ .ok t := by
  let t : TypeName := .mk (.path [] (.template "Foo" [.number (10 ^ mostDigits)])) []
  have hwf : t.WellFormed := by decide
  have hspells := spells_format fun u hu => (hwf u hu).1
  have hwritable : t.isWritable = false := by decide +kernel
  refine ⟨t, t.format, hwf, hspells, ?_⟩
  rw [parse, parseChars_of_spells hwf hspells, hwritable]
  exact fun h => by cases h

end TypeName

end NativeTypes
