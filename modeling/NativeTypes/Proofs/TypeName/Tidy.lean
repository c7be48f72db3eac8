/-
NativeTypes.Proofs.TypeName.Tidy — what stands around the marks of a canonical
spelling.

A canonical spelling has no space behind the mark of a reference, and its
numbers are decimal. Digits of base sixteen occur in it inside of made-up names
only, as in `<0x1>`; such a name stands at the front of a path or behind a
scope mark, where no template argument is looked for. So no number that is read
off a canonical spelling, however it is taken apart, is in base sixteen.

This is said of each character by what stands before and behind it (`Fits`), so
that it goes by recursion over the syntax (`TypeName.placed_spell`) and is kept
when a scanner takes characters off the front (`Tidy`).

Why it is said at all: a canonical spelling may be read as another name than
the one it is the spelling of, and its pieces are then not the pieces of that
name. Nothing that is known of the name helps there. What remains true is that
the characters stand where they stand, and a scanner that reads a number does
so behind a comma, a bracket or an opening; at none of these do digits of base
sixteen follow.
-/
import NativeTypes.Proofs.Text.Decimal
import NativeTypes.Proofs.TypeName.Keys

namespace NativeTypes

open NativeTypes.Text

/-! ## 1. Marks in their places -/

/-- A number in base sixteen begins here, maybe with a sign. -/
def beginsHex (cs : List Char) : Bool := (Scanner.hexDigits (Scanner.signFactor cs).2).isSome

/-- A number in base sixteen comes next, maybe behind spaces. -/
def hexAhead (cs : List Char) : Bool := beginsHex (skipSpaces cs)

/-- Where this text ends a path begins: behind an opening, a scope mark or a comma. -/
def OpensPath (cs : List Char) : Prop :=
  ∀ c ∈ (cs.reverse.dropWhile isSpace).head?, c ∈ ['<', ':', ',']

/-- A character of a canonical spelling, with what stands before and behind it. -/
structure Fits (before : List Char) (c : Char) (behind : List Char) : Prop where
  reference : c = '&' → ∀ d ∈ behind.head?, isSpace d = false
  decimal : c ∈ [',', '['] → hexAhead behind = false
  made : c = '<' → hexAhead behind = true → OpensPath before

/-- Every character of the text in the middle fits where it stands. -/
def Placed (before : List Char) : List Char → List Char → Prop
  | [], _ => True
  | c :: cs, behind => Fits before c (cs ++ behind) ∧ Placed (before ++ [c]) cs behind

/-- The end of a text in which every character fits. -/
def Tidy (cs : List Char) : Prop := ∃ before, Placed before cs []

/-- A type name ends here: nothing follows, or the mark that ends a template argument. -/
def Ended (cs : List Char) : Prop := ∀ c ∈ cs.head?, c = ',' ∨ c = '>'

section

variable {before behind xs ys cs : List Char} {c : Char}

/-- Two texts, one behind the other, each with the other as its surroundings. -/
theorem placed_append :
    Placed before (xs ++ ys) behind ↔
      Placed before xs (ys ++ behind) ∧ Placed (before ++ xs) ys behind := by
  induction xs generalizing before with
  | nil => simp [Placed]
  | cons x xs ih =>
    simp only [List.cons_append, Placed, ih, List.append_assoc, List.nil_append, and_assoc]

/-- Most characters fit everywhere. -/
theorem fits_plain (h : c ∉ ['&', ',', '[', '<']) : Fits before c behind := by
  simp only [List.mem_cons, List.not_mem_nil, or_false, not_or] at h
  refine ⟨fun hc => absurd hc h.1, fun hc => ?_, fun hc => absurd hc h.2.2.2⟩
  simp [h.2.1, h.2.2.1] at hc

/-- The mark of a reference needs no space behind it. -/
theorem fits_reference (h : ∀ d ∈ behind.head?, isSpace d = false) : Fits before '&' behind :=
  ⟨fun _ => h, by simp, by simp⟩

theorem fits_decimal (hc : c = ',' ∨ c = '[') (h : hexAhead behind = false) :
    Fits before c behind := by
  rcases hc with rfl | rfl <;> exact ⟨by simp, fun _ => h, by simp⟩

theorem fits_angle (h : hexAhead behind = true → OpensPath before) : Fits before '<' behind :=
  ⟨by simp, by simp, fun _ => h⟩

theorem placed_plain (h : ∀ c ∈ cs, c ∉ ['&', ',', '[', '<']) : Placed before cs behind := by
  induction cs generalizing before with
  | nil => trivial
  | cons c cs ih =>
    exact ⟨fits_plain (h c List.mem_cons_self), ih fun d hd => h d (List.mem_cons_of_mem c hd)⟩

/-- Whether a path begins is said by the last character. -/
theorem opensPath_concat (h : isSpace c = false) :
    OpensPath (cs ++ [c]) ↔ c ∈ ['<', ':', ','] := by
  simp [OpensPath, h]

theorem opensPath_mark (hc : c ∈ ['<', ':', ',']) : OpensPath (cs ++ [c]) := by
  have hspace : ∀ c ∈ ['<', ':', ','], isSpace c = false := by decide
  exact (opensPath_concat (hspace c hc)).mpr hc

/-- Spaces at the end are of no account. -/
theorem opensPath_append_spaces (h : ∀ c ∈ xs, isSpace c = true) :
    OpensPath (cs ++ xs) ↔ OpensPath cs := by
  unfold OpensPath
  rw [List.reverse_append, List.dropWhile_append_of_pos (by simpa using h)]

theorem opensPath_argumentMark (cs : List Char) : OpensPath (cs ++ argumentMark) := by
  rw [argumentMark, List.append_cons, opensPath_append_spaces (by decide)]
  exact opensPath_mark (by simp)

theorem ended_nil : Ended [] := fun c hc => by cases hc

theorem ended_close (cs : List Char) : Ended ('>' :: cs) := by simp [Ended]

theorem ended_comma (cs : List Char) : Ended (',' :: cs) := by simp [Ended]

theorem Ended.isSpace (h : Ended cs) : ∀ c ∈ cs.head?, isSpace c = false := by
  intro c hc
  rcases h c hc with rfl | rfl <;> decide

theorem Ended.stops (h : Ended cs) : Stops cs := by
  intro c hc
  rcases h c hc with rfl | rfl <;> decide

/-! ## 2. Where no number in base sixteen comes -/

theorem hexAhead_cons (h : isSpace c = false ∧ (c.isDigit || c == '-' || c == '+') = false) :
    hexAhead (c :: cs) = false := by
  simp only [Bool.or_eq_false_iff, beq_eq_false_iff_ne] at h
  obtain ⟨hspace, ⟨hdigit, hminus⟩, hplus⟩ := h
  have hzero : c ≠ '0' := by
    rintro rfl
    cases hdigit
  have hskip : skipSpaces (c :: cs) = c :: cs := List.dropWhile_cons_of_neg (by simp [hspace])
  rw [hexAhead, hskip, beginsHex, Scanner.signFactor_eq_self (by simp [hminus, hplus])]
  cases cs <;> simp [Scanner.hexDigits, hzero]

theorem Ended.hexAhead (h : Ended cs) : hexAhead cs = false := by
  cases cs with
  | nil => rfl
  | cons c cs =>
    rcases h c rfl with rfl | rfl <;> exact hexAhead_cons (by decide)

theorem hexAhead_of_opensName (h : ∃ c ∈ cs.head?, Scanner.opensName c = true) :
    hexAhead cs = false := by
  obtain ⟨c, hc, hopens⟩ := h
  obtain ⟨cs, rfl⟩ := List.head?_eq_some_iff.mp hc
  exact hexAhead_cons ⟨Scanner.isSpace_of_opensName hopens, (Scanner.opensName_apart hopens).2⟩

/-- A number that is written in decimal is not read in base sixteen. -/
theorem hexAhead_spellInt (n : Int) (hstop : Stops cs) :
    hexAhead (Suffix.spellInt n ++ cs) = false := by
  have hskip : skipSpaces (Suffix.spellInt n ++ cs) = Suffix.spellInt n ++ cs := by
    obtain ⟨c, hc, hspace⟩ := isSpace_head?_spellInt n
    obtain ⟨ds, hds⟩ := List.head?_eq_some_iff.mp hc
    rw [hds]
    exact List.dropWhile_cons_of_neg (by simp [hspace])
  have hhex := Scanner.hexDigits_toDigits n.natAbs hstop
  rw [hexAhead, hskip, beginsHex, Suffix.spellInt]
  by_cases hn : n < 0
  · simp [hn, Scanner.signFactor, hhex]
  · have hne : Nat.toDigits 10 n.natAbs ≠ [] := Nat.toDigits_ne_nil
    have hsign : ∀ c ∈ (Nat.toDigits 10 n.natAbs ++ cs).head?, c ≠ '-' ∧ c ≠ '+' := by
      intro c hc
      rw [List.head?_append_of_ne_nil _ hne] at hc
      have hdigit := Scanner.isDigit_of_mem c (List.mem_of_head? hc)
      constructor <;> rintro rfl <;> exact absurd hdigit (by decide)
    simp [hn, Scanner.signFactor_eq_self hsign, hhex]

end

/-! ## 3. Names and marks -/

section

variable {before behind cs : List Char}

/-- What a class of characters holds that has none of the marks fits everywhere. -/
theorem placed_of_class {p : Char → Bool} (hp : ∀ d ∈ ['&', ',', '[', '<'], p d = false)
    (h : ∀ c ∈ cs, p c = true) : Placed before cs behind := by
  refine placed_plain fun c hc hmark => ?_
  have hclass := h c hc
  rw [hp c hmark] at hclass
  cases hclass

/-- A number has no mark in it. -/
theorem placed_spellInt (n : Int) : Placed before (Suffix.spellInt n) behind := by
  refine placed_of_class (p := fun c => c == '-' || c.isDigit) (by decide) fun c hc => ?_
  simpa using eq_minus_or_isDigit_of_mem_spellInt hc

/-- The name of a segment, also one that is made up, fits where a path begins. -/
theorem placed_name (h : isSegmentName cs = true) (hbefore : OpensPath before) :
    Placed before cs behind := by
  rcases Bool.or_eq_true_iff.mp h with hidentifier | hspecial
  · exact placed_of_class (by decide) fun c hc => runsOn_of_mem_identifier hidentifier hc
  · rcases isSpecial_cases hspecial with rfl | rfl | ⟨inner, -, hinner, rfl⟩
    · exact placed_plain (by decide)
    · exact placed_plain (by decide)
    · refine placed_append.mpr ⟨⟨fits_angle fun _ => hbefore, ?_⟩, placed_plain (by decide)⟩
      exact placed_of_class (by decide) hinner

/-- No path begins directly behind the name of a segment. -/
theorem not_opensPath_name (h : isSegmentName cs = true) : ¬OpensPath (before ++ cs) := by
  suffices hlast : ∃ ds c, cs = ds ++ [c] ∧ isSpace c = false ∧ c ∉ ['<', ':', ','] by
    obtain ⟨ds, c, rfl, hspace, hmark⟩ := hlast
    rw [← List.append_assoc, opensPath_concat hspace]
    exact hmark
  rcases Bool.or_eq_true_iff.mp h with hidentifier | hspecial
  · have hne : cs ≠ [] := by
      rintro rfl
      cases hidentifier
    have hrun := runsOn_of_mem_identifier hidentifier (List.getLast_mem hne)
    refine ⟨cs.dropLast, cs.getLast hne, (List.dropLast_append_getLast hne).symm,
      isSpace_of_runsOn hrun, fun hmark => ?_⟩
    have hmarks : ∀ c ∈ ['<', ':', ','], runsOn c = false := by decide
    rw [hmarks _ hmark] at hrun
    cases hrun
  · rcases isSpecial_cases hspecial with rfl | rfl | ⟨inner, -, -, rfl⟩
    · exact ⟨"(anonymous namespace".toList, ')', rfl, by decide, by decide⟩
    · exact ⟨"(anon namespace".toList, ')', rfl, by decide, by decide⟩
    · exact ⟨'<' :: inner, '>', rfl, by decide, by decide⟩

/-- Suffixes, and what stands behind each of them. -/
theorem placed_suffixes (ss : List Suffix) (h : ∀ c ∈ behind.head?, isSpace c = false) :
    Placed before (ss.flatMap Suffix.spell) behind ∧
      ∀ c ∈ (ss.flatMap Suffix.spell ++ behind).head?, isSpace c = false := by
  induction ss generalizing before with
  | nil => exact ⟨trivial, h⟩
  | cons s ss ih =>
    rw [List.flatMap_cons, placed_append]
    refine ⟨⟨?_, ih.1⟩, ?_⟩
    · cases s with
      | pointer => exact placed_plain (by decide)
      | reference =>
        have hrest := (@ih before).2
        exact ⟨fits_reference hrest, trivial⟩
      | array length =>
        cases length with
        | none =>
          exact ⟨fits_decimal (.inr rfl) (hexAhead_cons (by decide)), placed_plain (by decide)⟩
        | some n =>
          refine ⟨fits_decimal (.inr rfl) ?_, ?_⟩
          · rw [List.append_eq, List.append_assoc]
            exact hexAhead_spellInt n (stops_cons (by decide) _)
          · exact placed_append.mpr ⟨placed_spellInt n, placed_plain (by decide)⟩
    · rcases s with _ | _ | _ | n <;> simp [Suffix.spell] <;> decide

/-! ## 4. Canonical spellings -/

/-- The spelling of a name begins as a type name does. -/
theorem head?_spell_segment {s : Segment} (h : isSegmentName s.name.toList = true)
    (more : List Char) : ∃ c ∈ (s.spell ++ more).head?, Scanner.opensName c = true := by
  obtain ⟨c, hc, hstart⟩ := Scanner.head?_of_isSegmentName h
  obtain ⟨cs, hcs⟩ := List.head?_eq_some_iff.mp hc
  refine ⟨c, ?_, ?_⟩
  · cases s <;> simp_all [Segment.spell, Segment.name]
  · rcases hstart with hstart | rfl | rfl
    · simp [Scanner.opensName, hstart]
    · decide
    · decide

theorem TypeName.head?_spell {t : TypeName} (h : t.isNamed = true) (more : List Char) :
    ∃ c ∈ (t.spell ++ more).head?, Scanner.opensName c = true := by
  obtain ⟨b, ss⟩ := t
  rw [TypeName.spell, List.append_assoc]
  have hname := Scanner.isNamed_iff.mp h
  cases b with
  | builtin type =>
    have hshown : ∃ c ∈ type.spelling.toList.head?, Scanner.opensName c = true := by
      cases type <;> decide
    obtain ⟨c, hc, hopens⟩ := hshown
    obtain ⟨cs, hcs⟩ := List.head?_eq_some_iff.mp hc
    exact ⟨c, by simp [BaseName.spell, hcs], hopens⟩
  | path scopes last =>
    rw [BaseName.spell, intercalate_concat]
    cases scopes with
    | nil => exact head?_spell_segment (hname last List.mem_cons_self) _
    | cons s scopes =>
      simp only [spellSegments, List.flatMap_cons, List.append_assoc]
      exact head?_spell_segment (hname s List.mem_cons_self) _

/-- No number in base sixteen comes where a template argument is spelled. -/
theorem Argument.hexAhead_spell {a : Argument} (hnamed : ∀ u ∈ a.nested, u.isNamed = true)
    (hbehind : Ended behind) : hexAhead (a.spell ++ behind) = false := by
  cases a with
  | number n => exact hexAhead_spellInt n hbehind.stops
  | type t =>
    obtain ⟨b, ss⟩ := t
    rw [Argument.nested, TypeName.nested] at hnamed
    exact hexAhead_of_opensName (TypeName.head?_spell (hnamed _ List.mem_cons_self) behind)

theorem ended_moreArguments (as : List Argument) (hbehind : Ended behind) :
    Ended ((spellArguments as).flatMap (argumentMark ++ ·) ++ behind) := by
  cases as with
  | nil => exact hbehind
  | cons a as => exact ended_comma _

mutual
/-- In the canonical spelling of a name whose segments are named by the grammar every character
fits, where a type name may stand. -/
theorem TypeName.placed_spell : (t : TypeName) → (∀ u ∈ t.nested, u.isNamed = true) →
    {before behind : List Char} → OpensPath before → Ended behind → Placed before t.spell behind
  | .mk b ss, hnamed, before, behind, hbefore, hbehind => by
    rw [TypeName.nested] at hnamed
    have hname := Scanner.isNamed_iff.mp (hnamed _ List.mem_cons_self)
    rw [TypeName.spell, placed_append]
    exact ⟨b.placed_spell hname (fun u hu => hnamed u (List.mem_cons_of_mem _ hu)) hbefore,
      (placed_suffixes ss hbehind.isSpace).1⟩

theorem BaseName.placed_spell : (b : BaseName) →
    (∀ s ∈ b.segments, isSegmentName s.name.toList = true) → (∀ u ∈ b.nested, u.isNamed = true) →
    {before behind : List Char} → OpensPath before → Placed before b.spell behind
  | .builtin type, _, _, _, _, _ => by
    cases type <;> exact placed_plain (by decide)
  | .path scopes last, hname, hnamed, before, behind, hbefore => by
    rw [BaseName.nested] at hnamed
    obtain ⟨hscopes, hopens⟩ := placed_scopes scopes
      (fun s hs => hname s (List.mem_append_left _ hs))
      (fun u hu => hnamed u (List.mem_append_left _ hu)) hbefore (last.spell ++ behind)
    rw [BaseName.spell, intercalate_concat, placed_append]
    exact ⟨hscopes, last.placed_spell (hname last (List.mem_append_right _ List.mem_cons_self))
      (fun u hu => hnamed u (List.mem_append_right _ hu)) hopens⟩

theorem Segment.placed_spell : (s : Segment) → isSegmentName s.name.toList = true →
    (∀ u ∈ s.nested, u.isNamed = true) →
    {before behind : List Char} → OpensPath before → Placed before s.spell behind
  | .plain _, hname, _, _, _, hbefore => placed_name hname hbefore
  | .template name as, hname, hnamed, before, behind, hbefore => by
    have hopens : OpensPath (before ++ name.toList ++ ['<']) := opensPath_mark (by simp)
    obtain ⟨harguments, hhex⟩ := placed_arguments as hnamed hopens (ended_close behind)
    rw [Segment.spell, List.append_assoc, placed_append]
    refine ⟨placed_name hname hbefore, fits_angle fun h => ?_, ?_⟩
    · rw [List.append_eq, List.append_assoc, List.singleton_append, hhex] at h
      cases h
    · exact placed_append.mpr ⟨harguments, placed_plain (by decide)⟩

theorem Argument.placed_spell : (a : Argument) → (∀ u ∈ a.nested, u.isNamed = true) →
    {before behind : List Char} → OpensPath before → Ended behind → Placed before a.spell behind
  | .number n, _, _, _, _, _ => placed_spellInt n
  | .type t, hnamed, _, _, hbefore, hbehind => t.placed_spell hnamed hbefore hbehind

theorem placed_scopes : (ss : List Segment) →
    (∀ s ∈ ss, isSegmentName s.name.toList = true) →
    (∀ u ∈ nestedInSegments ss, u.isNamed = true) →
    {before : List Char} → OpensPath before → (behind : List Char) →
    Placed before ((spellSegments ss).flatMap (· ++ scopeMark)) behind ∧
      OpensPath (before ++ (spellSegments ss).flatMap (· ++ scopeMark))
  | [], _, _, _, hbefore, _ => ⟨trivial, by simpa [spellSegments] using hbefore⟩
  | s :: ss, hname, hnamed, before, hbefore, behind => by
    rw [nestedInSegments] at hnamed
    have hmark : OpensPath (before ++ (s.spell ++ scopeMark)) := by
      rw [scopeMark, ← List.append_assoc, List.append_cons]
      exact opensPath_mark (by simp)
    obtain ⟨hrest, hopens⟩ := placed_scopes ss
      (fun s' hs' => hname s' (List.mem_cons_of_mem s hs'))
      (fun u hu => hnamed u (List.mem_append_right _ hu)) hmark behind
    rw [spellSegments, List.flatMap_cons, ← List.append_assoc]
    refine ⟨placed_append.mpr ⟨placed_append.mpr ⟨?_, placed_plain (by decide)⟩, hrest⟩, hopens⟩
    exact s.placed_spell (hname s List.mem_cons_self)
      (fun u hu => hnamed u (List.mem_append_left _ hu)) hbefore

theorem placed_arguments : (as : List Argument) →
    (∀ u ∈ nestedInArguments as, u.isNamed = true) →
    {before behind : List Char} → OpensPath before → Ended behind →
    Placed before (List.intercalate argumentMark (spellArguments as)) behind ∧
      hexAhead (List.intercalate argumentMark (spellArguments as) ++ behind) = false
  | [], _, _, _, _, hbehind => ⟨trivial, hbehind.hexAhead⟩
  | a :: as, hnamed, before, behind, hbefore, hbehind => by
    rw [nestedInArguments] at hnamed
    have ha : ∀ u ∈ a.nested, u.isNamed = true := fun u hu => hnamed u (List.mem_append_left _ hu)
    have hends := ended_moreArguments as hbehind
    rw [spellArguments, flatMap_intercalate, placed_append, List.append_assoc]
    exact ⟨⟨a.placed_spell ha hbefore hends, placed_moreArguments as
      (fun u hu => hnamed u (List.mem_append_right _ hu)) hbehind⟩, a.hexAhead_spell ha hends⟩

theorem placed_moreArguments : (as : List Argument) →
    (∀ u ∈ nestedInArguments as, u.isNamed = true) →
    {before behind : List Char} → Ended behind →
    Placed before ((spellArguments as).flatMap (argumentMark ++ ·)) behind
  | [], _, _, _, _ => trivial
  | a :: as, hnamed, before, behind, hbehind => by
    rw [nestedInArguments] at hnamed
    have ha : ∀ u ∈ a.nested, u.isNamed = true := fun u hu => hnamed u (List.mem_append_left _ hu)
    have hends := ended_moreArguments as hbehind
    have hcomma : hexAhead (' ' :: (a.spell ++
        ((spellArguments as).flatMap (argumentMark ++ ·) ++ behind))) = false :=
      a.hexAhead_spell ha hends
    rw [spellArguments, List.flatMap_cons, placed_append, placed_append]
    exact ⟨⟨⟨fits_decimal (.inl rfl) hcomma, placed_plain (by decide)⟩,
      a.placed_spell ha (opensPath_argumentMark before) hends⟩,
      placed_moreArguments as (fun u hu => hnamed u (List.mem_append_right _ hu)) hbehind⟩
end

end

/-- **The canonical spelling of a name is tidy**, whether or not it is read as that name. -/
theorem TypeName.tidy_spell {t : TypeName} (h : ∀ u ∈ t.nested, u.isNamed = true) :
    Tidy t.spell :=
  ⟨[], t.placed_spell h (fun c hc => by cases hc) ended_nil⟩

namespace Tidy

variable {xs : List Char} {c : Char}

/-- What is left behind a part of a text is as tidy as the text. -/
theorem append (h : Tidy (xs ++ cs)) : Tidy cs := by
  obtain ⟨before, h⟩ := h
  exact ⟨before ++ xs, (placed_append.mp h).2⟩

theorem of_suffix (h : Tidy cs) (hsuffix : xs <:+ cs) : Tidy xs := by
  obtain ⟨ys, rfl⟩ := hsuffix
  exact h.append

/-- No space stands behind the mark of a reference. -/
theorem reference (h : Tidy ('&' :: cs)) : ∀ c ∈ cs.head?, isSpace c = false := by
  obtain ⟨before, hfits, -⟩ := h
  simpa using hfits.reference rfl

/-- The numbers behind commas and in the brackets of arrays are decimal. -/
theorem decimal (h : Tidy (c :: cs)) (hc : c ∈ [',', '[']) : hexAhead cs = false := by
  obtain ⟨before, hfits, -⟩ := h
  simpa using hfits.decimal hc

/-- A first template argument is a decimal number, if it is one. -/
theorem firstArgument {name left : List Char} (h : Tidy (name ++ left))
    (hname : isSegmentName name = true) (hleft : skipSpaces left = '<' :: cs) :
    hexAhead cs = false := by
  obtain ⟨before, h⟩ := h
  have hgap : ∀ c ∈ left.takeWhile isSpace, isSpace c = true :=
    List.all_eq_true.mp List.all_takeWhile
  rw [← List.takeWhile_append_dropWhile (p := isSpace) (l := left), ← skipSpaces, hleft] at h
  obtain ⟨-, hfits, -⟩ := placed_append.mp (placed_append.mp h).2
  rw [List.append_nil] at hfits
  by_contra hhex
  have hopens := hfits.made rfl (by simpa using hhex)
  exact not_opensPath_name hname ((opensPath_append_spaces hgap).mp hopens)

end Tidy

end NativeTypes
