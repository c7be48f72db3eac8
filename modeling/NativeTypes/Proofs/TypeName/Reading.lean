/-
NativeTypes.Proofs.TypeName.Reading — what writes a well-formed type name is
read as that name.

The grammar is given twice: as scanners, which read, and as the relations
`Writes`, which say of a name by which rows of tokens it may be spelled. Here
it is shown that the scanners read what the relations write. Each scanner has
one statement: off a text that lays out tokens of what it looks for, it reads
just that, and it leaves a text that lays out the tokens behind
(`suffix_reads`, `segment_reads`, `path_reads`, `typeName_reads`).

What is behind matters everywhere, since scanners take as much as they can. So
each statement has a condition on the first character of the tokens that
follow. Behind a segment no argument list may begin, behind a base none and no
further segment (`FollowsBase`), and behind a name comes its end or the mark
that ends a template argument (`Ends`). These conditions follow from each other
from the outside in: what writes the suffixes begins with a mark that may
follow a base.

Template arguments are type names again. The scanner for them is a parameter of
the scanners for lists, segments, paths and names, and the argument on
recursion is made once at the end. `argument_reads` is by induction on the
levels of arguments: a text that is shorter than their number has enough of
them, because each level takes at least one character, the `<`. The length of
the text therefore goes through all statements as a bound (`ReadsArguments`).

Not every well-formed name is given back. A number with too many digits is read
as improper, and with it whatever it stands in; the values are read to the end
all the same. `Option.guard` with the test for what can be written says both at
once, and section 2 has the rules for putting such values together. In the end
a text that spells a name is read as that name or refused for the number
(`parseChars_of_spells`).
-/
import NativeTypes.Proofs.TypeName.Tokens
import NativeTypes.TypeName.Parser

namespace NativeTypes

open NativeTypes.Text

/-! ## 1. What may follow

Only the first character of what follows is ever looked at, so a condition on it is enough, and
it is known from the tokens without the text. -/

/-- The first character of the first token. -/
def firstChar? (ts : List Token) : Option Char := ts.head?.bind List.head?

/-- A type name ends here: nothing follows, or the mark that ends a template argument. -/
def Ends (ts : List Token) : Prop := ∀ c ∈ firstChar? ts, c = ',' ∨ c = '>'

/-- What may follow a base: a qualifier, a suffix, or the end of the type name. -/
def FollowsBase (ts : List Token) : Prop :=
  (∃ q ∈ qualifierWords, ts.head? = some q) ∨
    ∀ c ∈ firstChar? ts, c ∈ ['&', '*', '[', ',', '>']

/-- The mark that closes a list of arguments ends the last of them. -/
theorem ends_close (more : List Token) : Ends (['>'] :: more) := by
  intro c hc
  cases hc
  exact .inr rfl

/-- The text begins with the first character of its tokens. -/
theorem Lays.head?_eq_firstChar? {ts : List Token} {cs : List Char} (h : Lays ts cs) :
    cs.head? = firstChar? ts :=
  h.head?_eq

/-- The first token decides. -/
theorem firstChar?_append {xs ys : List Token} (hxs : xs ≠ []) :
    firstChar? (xs ++ ys) = firstChar? xs := by
  cases xs with
  | nil => exact absurd rfl hxs
  | cons x xs => rfl

/-- A suffix begins with its mark, and only a reference with that of references. -/
theorem Suffix.Writes.firstChar? {s : Suffix} {xs : List Token} (h : s.Writes xs) :
    ∃ c ∈ NativeTypes.firstChar? xs, c ∈ ['&', '*', '['] ∧ (s ≠ .reference → c ≠ '&') := by
  cases h with
  | pointer => exact ⟨'*', rfl, by decide, by decide⟩
  | reference => exact ⟨'&', rfl, by decide, fun h => absurd rfl h⟩
  | doubleReference => exact ⟨'&', rfl, by decide, fun h => absurd rfl h⟩
  | unsized => exact ⟨'[', rfl, by decide, by decide⟩
  | sized n => exact ⟨'[', rfl, by decide, fun _ => by decide⟩

/-- A suffix is never written by nothing. -/
theorem Suffix.Writes.ne_nil {s : Suffix} {xs : List Token} (h : s.Writes xs) : xs ≠ [] := by
  cases h <;> exact List.cons_ne_nil _ _

namespace SuffixesWritten

variable {ss : List Suffix} {ts more : List Token}

/-- Suffixes, and qualifiers between them, may follow a base. -/
theorem followsBase (h : SuffixesWritten ss ts) (hmore : Ends more) : FollowsBase (ts ++ more) := by
  cases h with
  | nil =>
    refine .inr fun c hc => ?_
    rcases hmore c hc with rfl | rfl <;> decide
  | qualifier hw _ => exact .inl ⟨_, hw, rfl⟩
  | suffix hs _ =>
    obtain ⟨c, hc, hmem, -⟩ := hs.firstChar?
    refine .inr fun d hd => ?_
    rw [List.append_assoc, firstChar?_append hs.ne_nil] at hd
    cases Option.mem_unique hc hd
    simp only [List.mem_cons, List.not_mem_nil, or_false] at hmem ⊢
    tauto

/-- No mark of a reference comes next, unless a reference does. -/
theorem firstChar?_ne (h : SuffixesWritten ss ts) (hhead : ss.head? ≠ some .reference)
    (hmore : Ends more) : ∀ c ∈ firstChar? (ts ++ more), c ≠ '&' := by
  cases h with
  | nil =>
    rintro c hc rfl
    rcases hmore _ hc with h | h <;> exact absurd h (by decide)
  | qualifier hw _ =>
    have hall : ∀ w ∈ qualifierWords, ∀ c ∈ w.head?, c ≠ '&' := by decide
    exact hall _ hw
  | suffix hs _ =>
    obtain ⟨c, hc, -, hne⟩ := hs.firstChar?
    intro d hd
    rw [List.append_assoc, firstChar?_append hs.ne_nil] at hd
    cases Option.mem_unique hc hd
    exact hne fun he => hhead (by rw [he]; rfl)

end SuffixesWritten

namespace Scanner

variable {cs rest : List Char} {ts xs more : List Token} {n : Nat}

/-- Keywords are not read off the marks that follow a name. -/
theorem word_eq_none_of_mark {w : Token} (hw : w ∈ keywords)
    (h : ∀ c ∈ cs.head?, c ∈ ['&', '*', '[', ',', '>', ']', ':']) : word w cs = none := by
  have hmarks : ∀ c ∈ ['&', '*', '[', ',', '>', ']', ':'], c.isAlpha = false := by decide
  exact word_eq_none_of_head hw fun c hc => hmarks c (h c hc)

/-- No built-in word follows a base. -/
theorem word_eq_none_of_followsBase (h : Lays ts cs) (hfollows : FollowsBase ts) {w : String}
    (hw : w ∈ Builtin.vocabulary) : word w.toList cs = none := by
  rcases hfollows with ⟨q, hq, hhead⟩ | hmark
  · obtain ⟨ts', rfl⟩ := List.head?_eq_some_iff.mp hhead
    have hapart : ∀ q ∈ qualifierWords, ∀ w ∈ Builtin.vocabulary, q ≠ w.toList := by decide
    exact word_eq_none_of_lays (mem_keywords_of_vocabulary hw) (mem_keywords_of_qualifier hq)
      (hapart q hq w hw) h
  · refine word_eq_none_of_mark (mem_keywords_of_vocabulary hw) fun c hc => ?_
    have := hmark c (h.head?_eq_firstChar? ▸ hc)
    simp only [List.mem_cons, List.not_mem_nil, or_false] at this ⊢
    tauto

/-- Neither a template argument list nor a scope mark follows a base. -/
theorem ne_of_followsBase (hfollows : FollowsBase ts) : ∀ c ∈ firstChar? ts, c ≠ '<' ∧ c ≠ ':' := by
  intro c hc
  rcases hfollows with ⟨q, hq, hhead⟩ | hmark
  · have hall : ∀ q ∈ qualifierWords, ∀ c ∈ q.head?, c ≠ '<' ∧ c ≠ ':' := by decide
    rw [firstChar?, hhead] at hc
    exact hall q hq c hc
  · have hall : ∀ c ∈ ['&', '*', '[', ',', '>'], c ≠ '<' ∧ c ≠ ':' := by decide
    exact hall c (hmark c hc)

/-! ## 2. Proper values

A row of values is proper if all of them are. -/

/-- A row of guarded values is the guarded row. -/
theorem allSome_map_guard {α : Type} (p : α → Bool) (as : List α) :
    allSome (as.map (Option.guard p)) = Option.guard (fun as => as.all p) as := by
  induction as with
  | nil => rfl
  | cons a as ih =>
    cases ha : p a with
    | false => simp [Option.guard, ha, allSome]
    | true =>
      rw [List.map_cons, Option.guard, if_pos ha, allSome, ih]
      cases has : as.all p <;> simp [Option.guard, ha, has]

/-! ## 3. Suffixes

A reference, a pointer, the brackets of an array, or a qualifier, which is read as no suffix at
all. Two references in a row would be read as one mark, which is why names that have them are
left out (`joinsReferences`). -/

/-- An empty pair of brackets holds no number. -/
theorem number_eq_none_of_close (h : Lays ([']'] :: more) cs) : number cs = none := by
  refine number_eq_none fun c hc => ?_
  rw [h.head?_eq_firstChar?] at hc
  cases hc
  decide

/-- What is left behind the brackets of an array, spaces included. -/
theorem brackets_of_lays {length : Option Int} (hw : (Suffix.array length).Writes xs)
    (h : Lays (xs ++ more) cs) :
    ∃ gap rest, brackets cs =
        some (Option.guard Suffix.isWritable (.array length), gap ++ rest) ∧
      (∀ c ∈ gap, isSpace c = true) ∧ Lays more rest ∧ rest.length < cs.length := by
  cases hw with
  | unsized =>
    obtain ⟨rest, hopen, hrest, hlt⟩ := token_reads h
    obtain ⟨gap, rest', rfl, -, hgap, -, hrest'⟩ := hrest.uncons
    refine ⟨gap, rest', ?_, hgap, hrest', ?_⟩
    · simp only [brackets, hopen, Option.bind_some, number_eq_none_of_close hrest, after?_append]
      rfl
    · simp only [List.length_append] at hlt
      omega
  | sized n =>
    obtain ⟨rest, hopen, hrest, hlt⟩ := token_reads h
    obtain ⟨rest', hnumber, hrest', hlt'⟩ := number_reads hrest
    obtain ⟨gap, rest'', rfl, -, hgap, -, hrest''⟩ := hrest'.uncons
    refine ⟨gap, rest'', ?_, hgap, hrest'', ?_⟩
    · simp only [brackets, hopen, Option.bind_some, hnumber, after?_append, Option.map_some]
      cases hn : Text.isWritable n <;> simp [Option.guard, Suffix.isWritable, hn]
    · simp only [List.length_append] at hlt'
      omega

/-- A single mark of a reference is read as such, if no second one follows. -/
theorem suffix_single (h : ∀ c ∈ rest.head?, c ≠ '&') :
    suffix ('&' :: rest) = some (some [.reference], skipSpaces rest) := by
  cases rest with
  | nil => rfl
  | cons c rest =>
    unfold suffix
    split
    · rename_i heq
      exact absurd (List.cons.inj (List.cons.inj heq).2).1 (h c rfl)
    · rename_i heq
      rw [(List.cons.inj heq).2]
      rfl
    · rename_i heq
      exact absurd (List.cons.inj heq).1 (by decide)
    · rename_i hsingle _
      exact absurd rfl (hsingle _)

/-- Without a mark of a reference or pointer, brackets come, or a qualifier. -/
theorem suffix_eq (h : ∀ c ∈ cs.head?, c ≠ '&' ∧ c ≠ '*') :
    suffix cs =
      match brackets cs with
      | some (s, rest) => some (s.map ([·]), skipSpaces rest)
      | none => (qualifier cs).map fun found => (some [], skipSpaces found.2) := by
  have hother (c : Char) (rest : List Char) (heq : cs = c :: rest) : c ≠ '&' ∧ c ≠ '*' :=
    h c (by rw [heq]; rfl)
  unfold suffix
  split
  · exact absurd rfl (hother _ _ rfl).1
  · exact absurd rfl (hother _ _ rfl).1
  · exact absurd rfl (hother _ _ rfl).2
  · cases brackets cs with
    | none =>
      cases qualifier cs with
      | none => rfl
      | some found => rfl
    | some found => rfl

/-- A suffix is read, and one that cannot be written is improper. -/
theorem suffix_reads {s : Suffix} (hw : s.Writes xs) (h : Lays (xs ++ more) cs)
    (hjoin : s = .reference → ∀ c ∈ firstChar? more, c ≠ '&') :
    Reads suffix cs ((Option.guard Suffix.isWritable s).map ([·])) more := by
  cases s with
  | pointer =>
    cases hw
    obtain ⟨gap, rest, rfl, -, hgap, -, hrest⟩ := h.uncons
    refine ⟨rest, ?_, hrest, by simp only [List.length_append, List.length_cons]; omega⟩
    show some (some [Suffix.pointer], skipSpaces (gap ++ rest)) = _
    rw [hrest.skipSpaces_append hgap]
    rfl
  | reference =>
    cases hw with
    | reference =>
      obtain ⟨gap, rest, rfl, -, hgap, -, hrest⟩ := h.uncons
      refine ⟨rest, ?_, hrest, by simp only [List.length_append, List.length_cons]; omega⟩
      have hnext : ∀ c ∈ (gap ++ rest).head?, c ≠ '&' := by
        intro c hc
        cases gap with
        | nil => exact hjoin rfl c (hrest.head?_eq_firstChar? ▸ hc)
        | cons d gap =>
          cases hc
          rintro rfl
          exact absurd (hgap _ List.mem_cons_self) (by decide)
      rw [List.singleton_append, suffix_single hnext, hrest.skipSpaces_append hgap]
      rfl
    | doubleReference =>
      obtain ⟨gap, rest, rfl, -, hgap, -, hrest⟩ := h.uncons
      refine ⟨rest, ?_, hrest, by simp only [List.length_append, List.length_cons]; omega⟩
      show some (some [Suffix.reference], skipSpaces (gap ++ rest)) = _
      rw [hrest.skipSpaces_append hgap]
      rfl
  | array length =>
    obtain ⟨gap, rest, hbrackets, hgap, hrest, hlt⟩ := brackets_of_lays hw h
    have hopen : ∀ c ∈ cs.head?, c ≠ '&' ∧ c ≠ '*' := by
      intro c hc
      rw [h.head?_eq_firstChar?, firstChar?_append hw.ne_nil] at hc
      have hfirst : firstChar? xs = some '[' := by cases hw <;> rfl
      rw [hfirst] at hc
      cases hc
      decide
    refine ⟨rest, ?_, hrest, hlt⟩
    rw [suffix_eq hopen, hbrackets]
    simp only [hrest.skipSpaces_append hgap]

/-- A qualifier behind a base or a suffix is read as no suffix. -/
theorem suffix_reads_qualifier {q : Token} (hq : q ∈ qualifierWords) (h : Lays (q :: more) cs) :
    Reads suffix cs (some []) more := by
  obtain ⟨gap, rest, hqualifier, hgap, hrest, hlt⟩ := qualifier_of_lays hq h
  have hall : ∀ q ∈ qualifierWords, ∀ c ∈ firstChar? [q], c ≠ '&' ∧ c ≠ '*' ∧ c ≠ '[' := by decide
  have hhead : ∀ c ∈ cs.head?, c ≠ '&' ∧ c ≠ '*' ∧ c ≠ '[' := by
    intro c hc
    exact hall q hq c (h.head?_eq_firstChar? ▸ hc)
  have hbrackets : brackets cs = none := by
    rw [brackets, token_eq_none fun c hc => (hhead c hc).2.2, Option.bind_none]
  refine ⟨rest, ?_, hrest, hlt⟩
  rw [suffix_eq fun c hc => ⟨(hhead c hc).1, (hhead c hc).2.1⟩, hbrackets, hqualifier]
  simp only [Option.map_some, hrest.skipSpaces_append hgap]

/-- No suffix is read where a type name ends. -/
theorem suffix_eq_none (h : Lays more cs) (hends : Ends more) : suffix cs = none := by
  have hhead : ∀ c ∈ cs.head?, c = ',' ∨ c = '>' := by
    rw [h.head?_eq_firstChar?]
    exact hends
  have hne (d : Char) (hd : d ≠ ',' ∧ d ≠ '>') : ∀ c ∈ cs.head?, c ≠ d := by
    rintro c hc rfl
    rcases hhead _ hc with h | h
    · exact hd.1 h
    · exact hd.2 h
  have hbrackets : brackets cs = none := by
    rw [brackets, token_eq_none (hne '[' (by decide)), Option.bind_none]
  have hqualifier : qualifier cs = none := by
    refine qualifier_eq_none fun w hw => word_eq_none_of_mark (mem_keywords_of_qualifier hw) ?_
    intro c hc
    rcases hhead c hc with rfl | rfl <;> decide
  rw [suffix_eq fun c hc => ⟨hne '&' (by decide) c hc, hne '*' (by decide) c hc⟩, hbrackets,
    hqualifier]
  rfl

/-- What holds of a row of suffixes holds of the rest of it. -/
theorem not_joins_tail {s : Suffix} {ss : List Suffix} (h : joinsReferences (s :: ss) = false) :
    joinsReferences ss = false ∧ (s = .reference → ss.head? ≠ some .reference) := by
  unfold joinsReferences at h
  split at h
  · cases h
  · rename_i s' ss' hnot heq
    obtain ⟨rfl, rfl⟩ := List.cons.inj heq
    refine ⟨h, fun hs hhead => ?_⟩
    obtain ⟨rest, rfl⟩ := List.head?_eq_some_iff.mp hhead
    exact hnot rest hs rfl
  · rename_i heq
    cases heq

/-- Suffixes and qualifiers are read one after the other. -/
theorem many_suffix {ss : List Suffix} (hw : SuffixesWritten ss xs) (h : Lays (xs ++ more) cs)
    (hends : Ends more) (hjoins : joinsReferences ss = false) :
    ∃ found rest, many suffix cs = (found, rest) ∧
      (allSome found).map List.flatten = Option.guard (fun ss => ss.all Suffix.isWritable) ss ∧
      Lays more rest ∧ rest.length ≤ cs.length := by
  induction hw generalizing cs with
  | nil => exact ⟨[], cs, many_eq_nil (suffix_eq_none h hends), rfl, h, Nat.le_refl _⟩
  | qualifier hq hss ih =>
    obtain ⟨rest, hread, hrest, hlt⟩ := suffix_reads_qualifier hq h
    obtain ⟨found, rest', hmany, hfound, hrest', hle⟩ := ih hrest hjoins
    refine ⟨some [] :: found, rest', ?_, ?_, hrest', by omega⟩
    · rw [many_eq_cons hread hlt, hmany]
    · rw [← hfound]
      cases hall : allSome found <;> simp [allSome, hall]
  | @suffix s ss xs ts hs hss ih =>
    obtain ⟨htail, hjoin⟩ := not_joins_tail hjoins
    rw [List.append_assoc] at h
    obtain ⟨rest, hread, hrest, hlt⟩ :=
      suffix_reads hs h fun he => hss.firstChar?_ne (hjoin he) hends
    obtain ⟨found, rest', hmany, hfound, hrest', hle⟩ := ih hrest htail
    refine ⟨(Option.guard Suffix.isWritable s).map ([·]) :: found, rest', ?_, ?_, hrest',
      by omega⟩
    · rw [many_eq_cons hread hlt, hmany]
    · cases hs : s.isWritable with
      | false => simp [Option.guard, hs, allSome]
      | true =>
        simp only [Option.guard, hs, if_pos, Option.map_some, allSome, List.all_cons,
          Bool.true_and, Option.map_map]
        have hcons : List.flatten ∘ (fun as => [s] :: as) = (s :: ·) ∘ List.flatten := rfl
        rw [hcons, ← Option.map_map, hfound]
        cases hss : ss.all Suffix.isWritable <;> simp [Option.guard, hss]

/-! ## 4. Segments and their arguments

The scanner for arguments is any that reads those of short enough texts. Arguments behind the
first one come with a comma in front. -/

/-- A scanner reads the template arguments of texts shorter than a bound. -/
def ReadsArguments (argument : Scanner (Option Argument)) (bound : Nat) : Prop :=
  ∀ {a : Argument} {ts more : List Token} {cs : List Char},
    (∀ u ∈ a.nested, u.isNamed = true ∧ u.isDistinct = true) → a.Writes ts →
    Lays (ts ++ more) cs → Ends more → cs.length < bound →
    Reads argument cs (Option.guard Argument.isWritable a) more

/-- At the end of a type name no template argument is read. -/
def RefusesEnd (argument : Scanner (Option Argument)) : Prop :=
  ∀ {more : List Token} {cs : List Char}, Lays more cs → Ends more → argument cs = none

/-- What comes behind an argument ends it: a comma, or what follows the list. -/
theorem more_arguments_ends {as : List Argument} {ts : List Token} (hw : moreWritten as ts)
    (hmore : Ends more) : Ends (ts ++ more) := by
  cases as with
  | nil =>
    rw [moreWritten] at hw
    rwa [hw]
  | cons a as =>
    obtain ⟨xs, ys, -, -, rfl⟩ := hw
    intro c hc
    cases hc
    exact .inl rfl

/-- Template arguments behind the first one are read one after the other. -/
theorem many_argument {argument : Scanner (Option Argument)} {bound : Nat}
    (hargument : ReadsArguments argument bound) {as : List Argument}
    (hnested : ∀ u ∈ nestedInArguments as, u.isNamed = true ∧ u.isDistinct = true)
    (hw : moreWritten as ts) (h : Lays (ts ++ ['>'] :: more) cs) (hlt : cs.length < bound) :
    ∃ rest, many (fun cs => (token [','] cs).bind fun (_, cs) => argument cs) cs =
        (as.map (Option.guard Argument.isWritable), rest) ∧
      Lays (['>'] :: more) rest ∧ rest.length ≤ cs.length := by
  induction as generalizing ts cs with
  | nil =>
    rw [moreWritten] at hw
    subst hw
    have hcomma : ∀ c ∈ cs.head?, c ≠ ',' := by
      intro c hc
      rw [h.head?_eq_firstChar?] at hc
      cases hc
      decide
    refine ⟨cs, many_eq_nil ?_, h, Nat.le_refl _⟩
    rw [token_eq_none hcomma, Option.bind_none]
  | cons a as ih =>
    obtain ⟨xs, ys, ha, has, rfl⟩ := hw
    simp only [nestedInArguments, List.mem_append] at hnested
    obtain ⟨rest, hcomma, hrest, hlt'⟩ := token_reads h
    rw [List.append_eq, List.append_assoc] at hrest
    obtain ⟨rest', hread, hrest', hlt''⟩ := hargument (fun u hu => hnested u (.inl hu)) ha hrest
      (more_arguments_ends has (ends_close more)) (by omega)
    obtain ⟨rest'', hmany, hrest'', hle⟩ :=
      ih (fun u hu => hnested u (.inr hu)) has hrest' (by omega)
    refine ⟨rest'', ?_, hrest'', by omega⟩
    have hone : (token [','] cs).bind (fun (_, cs) => argument cs) =
        some (Option.guard Argument.isWritable a, rest') := by
      simp only [hcomma, Option.bind_some, hread]
    rw [many_eq_cons hone (by omega), hmany, List.map_cons]

/-- Arguments can be written if each of them can. -/
theorem argumentsWritable_eq (as : List Argument) :
    argumentsWritable as = as.all Argument.isWritable := by
  induction as with
  | nil => rfl
  | cons a as ih => rw [argumentsWritable, ih, List.all_cons]

/-- A list of template arguments is read. -/
theorem arguments_reads {argument : Scanner (Option Argument)} {bound : Nat}
    (hargument : ReadsArguments argument bound) (hend : RefusesEnd argument) {as : List Argument}
    (hnested : ∀ u ∈ nestedInArguments as, u.isNamed = true ∧ u.isDistinct = true)
    (hw : argumentsWritten as ts) (h : Lays (['<'] :: (ts ++ ['>'] :: more)) cs)
    (hle : cs.length ≤ bound) :
    Reads (arguments argument) cs (Option.guard argumentsWritable as) more := by
  obtain ⟨rest, hopen, hrest, hlt⟩ := token_reads h
  have hguard : allSome (as.map (Option.guard Argument.isWritable)) =
      Option.guard argumentsWritable as := by
    rw [allSome_map_guard]
    congr 1
    funext as
    exact (argumentsWritable_eq as).symm
  rw [← hguard]
  cases as with
  | nil =>
    rw [argumentsWritten] at hw
    subst hw
    obtain ⟨rest', hshut, hrest', hlt'⟩ := token_reads hrest
    refine ⟨rest', ?_, hrest', by omega⟩
    simp only [arguments, hopen, Option.bind_some, hend hrest (ends_close more), hshut,
      Option.map_some, List.map_nil]
  | cons a as =>
    obtain ⟨xs, ys, ha, has, rfl⟩ := hw
    simp only [nestedInArguments, List.mem_append] at hnested
    rw [List.append_assoc] at hrest
    obtain ⟨rest', hread, hrest', hlt'⟩ := hargument (fun u hu => hnested u (.inl hu)) ha hrest
      (more_arguments_ends has (ends_close more)) (by omega)
    obtain ⟨rest'', hmany, hrest'', hle'⟩ :=
      many_argument hargument (fun u hu => hnested u (.inr hu)) has hrest' (by omega)
    obtain ⟨rest₃, hshut, hrest₃, hlt₃⟩ := token_reads hrest''
    refine ⟨rest₃, ?_, hrest₃, by omega⟩
    simp only [arguments, hopen, Option.bind_some, hread, hmany, hshut, Option.map_some,
      List.map_cons]

/-- A segment is read. -/
theorem segment_reads {argument : Scanner (Option Argument)} {bound : Nat}
    (hargument : ReadsArguments argument bound) (hend : RefusesEnd argument) {s : Segment}
    (hname : isSegmentName s.name.toList = true)
    (hnested : ∀ u ∈ s.nested, u.isNamed = true ∧ u.isDistinct = true)
    (hw : s.Writes ts) (h : Lays (ts ++ more) cs) (hangle : ∀ c ∈ firstChar? more, c ≠ '<')
    (hle : cs.length ≤ bound) :
    Reads (segment argument) cs (Option.guard Segment.isWritable s) more := by
  cases s with
  | plain n =>
    rw [Segment.Writes] at hw
    subst hw
    obtain ⟨gap, rest, hread, hgap, hrest, hlt⟩ := name_of_lays hname h
    have hplain : arguments argument rest = none := by
      rw [arguments, token_eq_none fun c hc => hangle c (hrest.head?_eq_firstChar? ▸ hc),
        Option.bind_none]
    refine ⟨rest, ?_, hrest, hlt⟩
    simp only [segment, Segment.name] at hread ⊢
    simp only [hread, Option.map_some, hrest.skipSpaces_append hgap, hplain, String.ofList_toList]
    rfl
  | template n as =>
    obtain ⟨xs, has, rfl⟩ := hw
    rw [List.cons_append, List.cons_append, List.append_assoc] at h
    obtain ⟨gap, rest, hread, hgap, hrest, hlt⟩ := name_of_lays hname h
    obtain ⟨rest', hargs, hrest', hlt'⟩ :=
      arguments_reads hargument hend hnested has hrest (by omega)
    refine ⟨rest', ?_, hrest', by omega⟩
    simp only [segment, Segment.name] at hread ⊢
    simp only [hread, Option.map_some, hrest.skipSpaces_append hgap, hargs, String.ofList_toList]
    cases has : argumentsWritable as <;> simp [Option.guard, Segment.isWritable, has]

/-! ## 5. Bases

A base is a built-in type or a path. Built-in words are tried first, so of a path it has to be
known that it does not begin with one of them. -/

/-- Segments can be written if each of them can. -/
theorem segmentsWritable_eq (ss : List Segment) :
    segmentsWritable ss = ss.all Segment.isWritable := by
  induction ss with
  | nil => rfl
  | cons s ss ih => rw [segmentsWritable, ih, List.all_cons]

/-- A path is put together again. -/
theorem pathBase_eq {first last : Segment} {rest scopes : List Segment}
    (h : first :: rest = scopes ++ [last]) : pathBase first rest = .path scopes last := by
  induction scopes generalizing first rest with
  | nil =>
    obtain ⟨rfl, rfl⟩ := List.cons.inj h
    rfl
  | cons s scopes ih =>
    obtain ⟨rfl, hrest⟩ := List.cons.inj h
    cases rest with
    | nil => simp at hrest
    | cons t rest => rw [pathBase, ih hrest]

/-- The scanner for the segments behind the first one. -/
def scopeTail (argument : Scanner (Option Argument)) : Scanner (Option Segment) := fun cs =>
  (token scopeMark cs).bind fun (_, cs) => segment argument cs

/-- No scope mark is read where no colon stands. -/
theorem token_scopeMark_eq_none (h : ∀ c ∈ cs.head?, c ≠ ':') : token scopeMark cs = none :=
  token_eq_none h

/-- Segments with scope marks between them are read one after the other. -/
theorem segments_read {argument : Scanner (Option Argument)} {bound : Nat}
    (hargument : ReadsArguments argument bound) (hend : RefusesEnd argument)
    {scopes : List Segment} {last : Segment}
    (hname : ∀ s ∈ scopes ++ [last], isSegmentName s.name.toList = true)
    (hnested : ∀ u ∈ nestedInSegments scopes ++ last.nested,
      u.isNamed = true ∧ u.isDistinct = true)
    (hscopes : scopesWritten scopes xs) (hlast : last.Writes ts)
    (h : Lays (xs ++ (ts ++ more)) cs) (hfollows : FollowsBase more) (hle : cs.length ≤ bound) :
    ∃ first tail rest rest', first :: tail = scopes ++ [last] ∧
      segment argument cs = some (Option.guard Segment.isWritable first, rest) ∧
      many (scopeTail argument) rest = (tail.map (Option.guard Segment.isWritable), rest') ∧
      Lays more rest' ∧ rest.length < cs.length ∧ rest'.length ≤ rest.length := by
  induction scopes generalizing xs cs with
  | nil =>
    rw [scopesWritten] at hscopes
    subst hscopes
    obtain ⟨rest, hread, hrest, hlt⟩ := segment_reads hargument hend
      (hname last (List.mem_append_right _ List.mem_cons_self)) hnested hlast h
      (fun c hc => (ne_of_followsBase hfollows c hc).1) hle
    have hstop : scopeTail argument rest = none := by
      have hmark : ∀ c ∈ rest.head?, c ≠ ':' := fun c hc =>
        (ne_of_followsBase hfollows c (hrest.head?_eq_firstChar? ▸ hc)).2
      rw [scopeTail, token_scopeMark_eq_none hmark, Option.bind_none]
    exact ⟨last, [], rest, rest, rfl, hread, many_eq_nil hstop, hrest, hlt, Nat.le_refl _⟩
  | cons s scopes ih =>
    obtain ⟨ys, zs, hs, hscopes, rfl⟩ := hscopes
    simp only [nestedInSegments, List.mem_append, or_assoc] at hnested
    rw [List.append_assoc, List.cons_append] at h
    have hangle : ∀ c ∈ firstChar? (scopeMark :: (zs ++ (ts ++ more))), c ≠ '<' := by
      intro c hc
      cases hc
      decide
    obtain ⟨rest, hread, hrest, hlt⟩ := segment_reads hargument hend
      (hname s List.mem_cons_self) (fun u hu => hnested u (.inl hu)) hs h hangle hle
    obtain ⟨rest₁, hmark, hrest₁, hlt₁⟩ := token_reads hrest
    obtain ⟨first, tail, rest₂, rest₃, heq, hfirst, htail, hrest₃, hlt₂, hle₃⟩ :=
      ih (fun s' hs' => hname s' (List.mem_cons_of_mem s hs'))
        (fun u hu => hnested u (.inr (List.mem_append.mp hu))) hscopes hrest₁ (by omega)
    refine ⟨s, first :: tail, rest, rest₃, by rw [heq, List.cons_append], hread, ?_, hrest₃, hlt,
      by omega⟩
    have hnext : scopeTail argument rest = some (Option.guard Segment.isWritable first, rest₂) := by
      rw [scopeTail, hmark]
      exact hfirst
    rw [many_eq_cons hnext (by omega), htail, List.map_cons]

/-- Put together from its segments, a path that cannot be written is improper. -/
theorem allSome_pathBase {first last : Segment} {tail scopes : List Segment}
    (h : first :: tail = scopes ++ [last]) :
    ((Option.guard Segment.isWritable first).bind fun s =>
        (allSome (tail.map (Option.guard Segment.isWritable))).map (pathBase s)) =
      Option.guard BaseName.isWritable (.path scopes last) := by
  have hall : BaseName.isWritable (.path scopes last) = (first :: tail).all Segment.isWritable := by
    rw [BaseName.isWritable, segmentsWritable_eq, h, List.all_append, List.all_cons, List.all_nil,
      Bool.and_true]
  rw [allSome_map_guard]
  simp only [Option.guard, hall, List.all_cons]
  cases first.isWritable with
  | false => rfl
  | true =>
    rw [← pathBase_eq h]
    by_cases htail : tail.all Segment.isWritable = true <;> simp [htail]

/-- A special name begins with a bracket. -/
theorem head?_of_isSpecial {n : List Char} (hn : isSpecial n = true) :
    ∃ c ∈ n.head?, c = '(' ∨ c = '<' := by
  rcases isSpecial_cases hn with rfl | rfl | ⟨inner, -, -, rfl⟩
  · exact ⟨'(', rfl, .inl rfl⟩
  · exact ⟨'(', rfl, .inl rfl⟩
  · exact ⟨'<', rfl, .inr rfl⟩

/-- The name of a segment begins with a letter or a bracket. -/
theorem head?_of_isSegmentName {n : List Char} (hn : isSegmentName n = true) :
    ∃ c ∈ n.head?, isNameStart c = true ∨ c = '(' ∨ c = '<' := by
  rcases Bool.or_eq_true _ _ |>.mp hn with hid | hspecial
  · cases n with
    | nil => cases hid
    | cons c cs => exact ⟨c, rfl, .inl (Bool.and_eq_true _ _ |>.mp hid).1⟩
  · obtain ⟨c, hc, hopen⟩ := head?_of_isSpecial hspecial
    exact ⟨c, hc, .inr hopen⟩

/-- A path without a mark in front begins with the name of its first segment. -/
theorem head?_segments {scopes : List Segment} {last : Segment} (more : List Token)
    (hscopes : scopesWritten scopes xs) (hlast : last.Writes ts) :
    ∃ s ∈ (scopes ++ [last]).head?, (xs ++ (ts ++ more)).head? = some s.name.toList := by
  have hhead {s : Segment} {ts more : List Token} (hs : s.Writes ts) :
      (ts ++ more).head? = some s.name.toList := by
    cases s with
    | plain n =>
      rw [Segment.Writes] at hs
      rw [hs]
      rfl
    | template n as =>
      obtain ⟨ys, -, rfl⟩ := hs
      rfl
  cases scopes with
  | nil =>
    rw [scopesWritten] at hscopes
    rw [hscopes]
    exact ⟨last, rfl, by rw [List.nil_append]; exact hhead hlast⟩
  | cons s ss =>
    obtain ⟨ys, zs, hs, -, rfl⟩ := hscopes
    refine ⟨s, rfl, ?_⟩
    rw [List.append_assoc]
    exact hhead hs

/-- Where the segments of a path begin: behind the mark, if there is one. -/
def pathStart (cs : List Char) : List Char :=
  match token scopeMark cs with
  | some (_, rest) => rest
  | none => cs

/-- A path, taken apart: the mark in front, the first segment, and the rest. -/
theorem path_eq (argument : Scanner (Option Argument)) (cs : List Char) :
    path argument cs = (segment argument (pathStart cs)).map fun (s, rest) =>
      (s.bind fun s => (allSome (many (scopeTail argument) rest).1).map (pathBase s),
        (many (scopeTail argument) rest).2) :=
  rfl

/-- A path is read, with or without a mark in front. -/
theorem path_reads {argument : Scanner (Option Argument)} {bound : Nat}
    (hargument : ReadsArguments argument bound) (hend : RefusesEnd argument)
    {scopes : List Segment} {last : Segment}
    (hname : ∀ s ∈ scopes ++ [last], isSegmentName s.name.toList = true)
    (hnested : ∀ u ∈ (BaseName.path scopes last).nested, u.isNamed = true ∧ u.isDistinct = true)
    (hw : (BaseName.path scopes last).Writes xs) (h : Lays (xs ++ more) cs)
    (hfollows : FollowsBase more) (hle : cs.length ≤ bound) :
    Reads (path argument) cs (Option.guard BaseName.isWritable (.path scopes last)) more := by
  obtain ⟨mark, xs, ts, hmark, hscopes, hlast, rfl⟩ := hw
  rw [List.append_assoc, List.append_assoc] at h
  obtain ⟨hlays, hshorter⟩ : Lays (xs ++ (ts ++ more)) (pathStart cs) ∧
      (pathStart cs).length ≤ cs.length := by
    rcases hmark with rfl | rfl
    · have hcolon : ∀ c ∈ cs.head?, c ≠ ':' := by
        obtain ⟨s, hs, hhead⟩ := head?_segments more hscopes hlast
        obtain ⟨c, hc, hstart⟩ := head?_of_isSegmentName (hname s (List.mem_of_head? hs))
        intro d hd
        rw [h.head?_eq_firstChar?, firstChar?, List.nil_append, hhead] at hd
        cases Option.mem_unique hc hd
        rcases hstart with hstart | rfl | rfl
        · rintro rfl
          exact absurd hstart (by decide)
        · decide
        · decide
      rw [pathStart, token_scopeMark_eq_none hcolon]
      exact ⟨h, Nat.le_refl _⟩
    · obtain ⟨rest, hread, hrest, hlt⟩ := token_reads h
      rw [pathStart, hread]
      exact ⟨hrest, Nat.le_of_lt hlt⟩
  obtain ⟨first, tail, rest, rest', heq, hfirst, htail, hrest', hlt, hle'⟩ :=
    segments_read hargument hend hname hnested hscopes hlast hlays hfollows (by omega)
  refine ⟨rest', ?_, hrest', by omega⟩
  rw [← allSome_pathBase heq]
  simp only [path_eq, hfirst, Option.map_some, htail]

/-- Where a name stands that is no keyword, no keyword is read. -/
theorem word_eq_none_of_name {n w : Token} (hn : isSegmentName n = true)
    (hkey : isKeywordLike n = false) (hw : w ∈ keywords) (h : Lays (n :: more) cs) :
    word w cs = none := by
  rcases Bool.or_eq_true _ _ |>.mp hn with hid | hspecial
  · obtain ⟨gap, rest, rfl, hne, -, hapart, -⟩ := h.uncons
    simp only [isKeywordLike, List.any_eq_false, Bool.or_eq_true, beq_iff_eq, not_or,
      List.isPrefixOf_iff_prefix] at hkey
    exact word_eq_none hw hid (hkey w hw).1 (hkey w hw).2
      (hapart.not_runsOn hne fun c hc => runsOn_of_mem_identifier hid hc)
  · obtain ⟨c, hc, hopen⟩ := head?_of_isSpecial hspecial
    refine word_eq_none_of_head hw fun d hd => ?_
    rw [h.head?_eq_firstChar?, firstChar?, List.head?_cons, Option.bind_some] at hd
    cases Option.mem_unique hc hd
    rcases hopen with rfl | rfl <;> decide

/-- Where a path stands whose first name is no keyword, no keyword is read. -/
theorem word_eq_none_of_path {scopes : List Segment} {last : Segment}
    (hname : ∀ s ∈ scopes ++ [last], isSegmentName s.name.toList = true)
    (hkey : ∀ s ∈ (scopes ++ [last]).head?, isKeywordLike s.name.toList = false)
    (hw : (BaseName.path scopes last).Writes xs) {w : Token} (hword : w ∈ keywords)
    (h : Lays (xs ++ more) cs) : word w cs = none := by
  obtain ⟨mark, xs, ts, hmark, hscopes, hlast, rfl⟩ := hw
  rw [List.append_assoc, List.append_assoc] at h
  rcases hmark with rfl | rfl
  · obtain ⟨s, hs, hhead⟩ := head?_segments more hscopes hlast
    obtain ⟨ys, hys⟩ := List.head?_eq_some_iff.mp hhead
    rw [List.nil_append, hys] at h
    exact word_eq_none_of_name (hname s (List.mem_of_head? hs)) (hkey s hs) hword h
  · refine word_eq_none_of_mark hword fun c hc => ?_
    rw [h.head?_eq_firstChar?] at hc
    cases hc
    decide

/-- Built-in words are read as the type that they name. -/
theorem builtin_reads {type : Builtin} (hw : (BaseName.builtin type).Writes xs)
    (h : Lays (xs ++ more) cs) (hfollows : FollowsBase more) :
    Reads builtin cs (some (.builtin type)) more := by
  obtain ⟨words, hne, hvocabulary, rfl, rfl⟩ := hw
  obtain ⟨rest, hmany, hrest, hle⟩ := many_builtinWord hvocabulary h
    fun rest hrest w hw => word_eq_none_of_followsBase hrest hfollows hw
  obtain ⟨w, ws, rfl⟩ := List.exists_cons_of_ne_nil hne
  refine ⟨rest, ?_, hrest, by rw [List.length_cons] at hle; omega⟩
  rw [builtin, hmany]

/-- Where no keyword is read no built-in type is. -/
theorem builtin_eq_none (h : ∀ w ∈ keywords, word w cs = none) : builtin cs = none := by
  rw [builtin, many_eq_nil (builtinWord_eq_none fun w hw => h _ (mem_keywords_of_vocabulary hw))]

/-- A base is read. -/
theorem base_reads {argument : Scanner (Option Argument)} {bound : Nat}
    (hargument : ReadsArguments argument bound) (hend : RefusesEnd argument) {b : BaseName}
    (hname : ∀ s ∈ b.segments, isSegmentName s.name.toList = true)
    (hkey : ∀ s ∈ b.segments.head?, isKeywordLike s.name.toList = false)
    (hnested : ∀ u ∈ b.nested, u.isNamed = true ∧ u.isDistinct = true)
    (hw : b.Writes xs) (h : Lays (xs ++ more) cs) (hfollows : FollowsBase more)
    (hle : cs.length ≤ bound) :
    Reads (orElse builtin (path argument)) cs (Option.guard BaseName.isWritable b) more := by
  cases b with
  | builtin type =>
    obtain ⟨rest, hread, hrest, hlt⟩ := builtin_reads hw h hfollows
    refine ⟨rest, ?_, hrest, hlt⟩
    rw [orElse, hread]
    rfl
  | path scopes last =>
    obtain ⟨rest, hread, hrest, hlt⟩ := path_reads hargument hend hname hnested hw h hfollows hle
    refine ⟨rest, ?_, hrest, hlt⟩
    rw [orElse, builtin_eq_none fun w hword => word_eq_none_of_path hname hkey hw hword h, hread]

/-- No qualifier is read where a base stands. -/
theorem word_eq_none_of_base {b : BaseName}
    (hname : ∀ s ∈ b.segments, isSegmentName s.name.toList = true)
    (hkey : ∀ s ∈ b.segments.head?, isKeywordLike s.name.toList = false)
    (hw : b.Writes xs) {w : Token} (hword : w ∈ qualifierWords) (h : Lays (xs ++ more) cs) :
    word w cs = none := by
  cases b with
  | builtin type =>
    obtain ⟨words, hne, hvocabulary, -, rfl⟩ := hw
    obtain ⟨v, vs, rfl⟩ := List.exists_cons_of_ne_nil hne
    have hapart : ∀ v ∈ Builtin.vocabulary, ∀ w ∈ qualifierWords, v.toList ≠ w := by decide
    have hv := hvocabulary v List.mem_cons_self
    exact word_eq_none_of_lays (mem_keywords_of_qualifier hword) (mem_keywords_of_vocabulary hv)
      (hapart v hv w hword) h
  | path scopes last =>
    exact word_eq_none_of_path hname hkey hw (mem_keywords_of_qualifier hword) h

/-! ## 6. Type names

Qualifiers, a base, suffixes with qualifiers between them. That a template argument is a number
is tried before that it is a name, so of a name it has to be known that it does not begin like a
number. -/

/-- The test on names, unfolded. -/
theorem isNamed_iff {b : BaseName} {ss : List Suffix} : (TypeName.mk b ss).isNamed = true ↔
    ∀ s ∈ b.segments, isSegmentName s.name.toList = true :=
  List.all_eq_true

/-- The other test on names, unfolded. -/
theorem isDistinct_iff {b : BaseName} {ss : List Suffix} : (TypeName.mk b ss).isDistinct = true ↔
    (∀ s ∈ b.segments.head?, isKeywordLike s.name.toList = false) ∧
      joinsReferences ss = false := by
  rw [TypeName.isDistinct, Bool.and_eq_true, Bool.not_eq_true', Bool.not_eq_true', TypeName.base]
  cases b.segments.head? with
  | none => simp [TypeName.suffixes]
  | some s => simp [TypeName.suffixes]

/-- Put together from a base and suffixes, a name that cannot be written is improper. -/
theorem writable_mk {b : BaseName} {ss : List Suffix} {found : List (Option (List Suffix))}
    (h : (allSome found).map List.flatten = Option.guard (fun ss => ss.all Suffix.isWritable) ss) :
    ((Option.guard BaseName.isWritable b).bind fun b =>
        (allSome found).map fun ss => TypeName.mk b ss.flatten) =
      Option.guard TypeName.isWritable (.mk b ss) := by
  have hmap (b : BaseName) : (allSome found).map (fun ss => TypeName.mk b ss.flatten) =
      (Option.guard (fun ss => ss.all Suffix.isWritable) ss).map (TypeName.mk b) := by
    rw [← h, Option.map_map]
    rfl
  simp only [hmap, Option.guard, TypeName.isWritable]
  by_cases hb : b.isWritable = true <;> by_cases hss : ss.all Suffix.isWritable = true <;>
    simp [hb, hss]

/-- A type name is read up to where it ends. -/
theorem typeName_reads {argument : Scanner (Option Argument)} {bound : Nat}
    (hargument : ReadsArguments argument bound) (hend : RefusesEnd argument) {t : TypeName}
    (ht : t.WellFormed) (hw : t.Writes xs) (h : Lays (xs ++ more) cs) (hends : Ends more)
    (hle : cs.length ≤ bound) :
    Reads (typeName argument) cs (Option.guard TypeName.isWritable t) more := by
  obtain ⟨b, ss⟩ := t
  obtain ⟨qualifiers, xs, ys, hqualifiers, hbase, hsuffixes, rfl⟩ := hw
  obtain ⟨hnamed, hdistinct⟩ := ht _ (by rw [TypeName.nested]; exact List.mem_cons_self)
  have hname := isNamed_iff.mp hnamed
  obtain ⟨hkey, hjoins⟩ := isDistinct_iff.mp hdistinct
  rw [List.append_assoc, List.append_assoc] at h
  obtain ⟨units, rest, hquals, hrest, hle₁⟩ := many_qualifierToken hqualifiers h
    fun rest hrest w hword => word_eq_none_of_base hname hkey hbase hword hrest
  obtain ⟨rest₁, hread, hrest₁, hlt⟩ := base_reads hargument hend hname hkey
    (fun u hu => ht u (by rw [TypeName.nested]; exact List.mem_cons_of_mem _ hu)) hbase hrest
    (hsuffixes.followsBase hends) (by omega)
  obtain ⟨found, rest₂, hmany, hfound, hrest₂, hle₂⟩ := many_suffix hsuffixes hrest₁ hends hjoins
  refine ⟨rest₂, ?_, hrest₂, by omega⟩
  simp only [typeName, h.skipSpaces_eq, hquals, hread, Option.map_some, hrest₁.skipSpaces_eq, hmany,
    hrest₂.skipSpaces_eq]
  rw [← writable_mk hfound]

/-- Spaces in front of a type name are skipped. -/
theorem typeName_append {argument : Scanner (Option Argument)} {gap : List Char}
    (hgap : ∀ c ∈ gap, isSpace c = true) (h : Lays ts cs) :
    typeName argument (gap ++ cs) = typeName argument cs := by
  simp only [typeName, h.skipSpaces_append hgap, h.skipSpaces_eq]

/-- Type names begin with a name, or with the mark of a scope. -/
def opensName (c : Char) : Bool := isNameStart c || c == '(' || c == '<' || c == ':'

/-- What begins a type name is no blank and begins no number. -/
theorem opensName_apart {c : Char} (h : opensName c = true) :
    isBlank c = false ∧ (c.isDigit || c == '-' || c == '+') = false := by
  have hletter : c.isAlpha = true → c.toNat < 128 := by
    intro hc
    rcases Bool.or_eq_true_iff.mp hc with hc | hc
    · have hle : c.val ≤ 'Z'.val := (of_decide_eq_true hc).2
      exact Nat.lt_of_le_of_lt (UInt32.le_iff_toNat_le.mp hle) (by decide)
    · have hle : c.val ≤ 'z'.val := of_decide_eq_true (Bool.and_eq_true_iff.mp hc).2
      exact Nat.lt_of_le_of_lt (UInt32.le_iff_toNat_le.mp hle) (by decide)
  have hascii : c.toNat < 128 := by
    simp only [opensName, isNameStart, Bool.or_eq_true, beq_iff_eq] at h
    rcases h with ((((((h | rfl) | rfl) | rfl) | rfl) | rfl) | rfl)
    · exact hletter h
    all_goals decide
  have hall : ∀ n < 128, opensName (Char.ofNat n) = true → isBlank (Char.ofNat n) = false ∧
      ((Char.ofNat n).isDigit || Char.ofNat n == '-' || Char.ofNat n == '+') = false := by
    decide +kernel
  have hc := hall c.toNat hascii
  rw [Char.ofNat_toNat] at hc
  exact hc h

/-- What writes a name begins with a name or the mark of a scope. -/
theorem firstChar?_typeName {t : TypeName} (ht : t.WellFormed) (hw : t.Writes ts) :
    ∃ c ∈ firstChar? ts, opensName c = true := by
  obtain ⟨b, ss⟩ := t
  obtain ⟨qualifiers, xs, ys, hqualifiers, hbase, -, rfl⟩ := hw
  cases qualifiers with
  | cons q qs =>
    have hall : ∀ q ∈ qualifierWords, ∃ c ∈ q.head?, opensName c = true := by decide
    exact hall q (hqualifiers q List.mem_cons_self)
  | nil =>
    cases b with
    | builtin type =>
      obtain ⟨words, hne, hvocabulary, -, rfl⟩ := hbase
      obtain ⟨v, vs, rfl⟩ := List.exists_cons_of_ne_nil hne
      have hall : ∀ v ∈ Builtin.vocabulary, ∃ c ∈ v.toList.head?, opensName c = true := by decide
      exact hall v (hvocabulary v List.mem_cons_self)
    | path scopes last =>
      obtain ⟨mark, xs, ts, hmark, hscopes, hlast, rfl⟩ := hbase
      rcases hmark with rfl | rfl
      · obtain ⟨s, hs, hhead⟩ := head?_segments ys hscopes hlast
        have hname := isNamed_iff.mp (ht _ (by rw [TypeName.nested]; exact List.mem_cons_self)).1
        obtain ⟨c, hc, hstart⟩ := head?_of_isSegmentName (hname s (List.mem_of_head? hs))
        refine ⟨c, ?_, ?_⟩
        · rw [List.nil_append, List.nil_append, List.append_assoc, firstChar?, hhead]
          exact hc
        · rcases hstart with hstart | rfl | rfl
          · rw [opensName, hstart]
            rfl
          · decide
          · decide
      · exact ⟨':', rfl, by decide⟩

/-- No type name begins where one ends. -/
theorem typeName_eq_none {argument : Scanner (Option Argument)} (h : Lays more cs)
    (hends : Ends more) : typeName argument cs = none := by
  have hhead : ∀ c ∈ cs.head?, c = ',' ∨ c = '>' := by
    rw [h.head?_eq_firstChar?]
    exact hends
  have hword : ∀ w ∈ keywords, word w cs = none := by
    refine fun w hw => word_eq_none_of_mark hw fun c hc => ?_
    rcases hhead c hc with rfl | rfl <;> decide
  have hstart : pathStart cs = cs := by
    rw [pathStart, token_scopeMark_eq_none]
    rintro c hc rfl
    rcases hhead _ hc with h | h <;> exact absurd h (by decide)
  have hname : name cs = none := by
    cases cs with
    | nil => rfl
    | cons c cs => rcases hhead c rfl with rfl | rfl <;> rfl
  have hpath : path argument cs = none := by
    rw [path_eq, hstart, segment, hname]
    rfl
  have hqualifier : qualifierToken cs = none :=
    qualifierToken_eq_none fun w hw => hword w (mem_keywords_of_qualifier hw)
  simp only [typeName, h.skipSpaces_eq, many_eq_nil hqualifier, orElse, builtin_eq_none hword,
    hpath, Option.map_none]

/-- Where a list of arguments is closed no argument is read, at any level. -/
theorem argument_refusesEnd (n : Nat) : RefusesEnd (argument n) := by
  intro more cs h hends
  cases n with
  | zero => rfl
  | succ n =>
    have hnumber : number cs = none := by
      refine number_eq_none fun c hc => ?_
      rcases hends c (h.head?_eq_firstChar? ▸ hc) with rfl | rfl <;> decide
    simp only [argument, hnumber, typeName_eq_none h hends, Option.map_none]

/-- A template argument is read off every text that is shorter than the number of levels. -/
theorem argument_reads (n : Nat) : ReadsArguments (argument n) n := by
  induction n with
  | zero =>
    intro a ts more cs _ _ _ _ hlt
    exact absurd hlt (Nat.not_lt_zero _)
  | succ n ih =>
    intro a ts more cs hnested hw h hends hlt
    cases a with
    | number v =>
      rw [Argument.Writes] at hw
      subst hw
      obtain ⟨rest, hread, hrest, hlt'⟩ := number_reads h
      refine ⟨rest, ?_, hrest, hlt'⟩
      simp only [argument, hread]
      cases hv : Text.isWritable v <;> simp [Option.guard, Argument.isWritable, hv]
    | type t =>
      rw [Argument.Writes] at hw
      have ht : t.WellFormed := by rwa [Argument.nested] at hnested
      have hnumber : number cs = none := by
        obtain ⟨c, hc, hopens⟩ := firstChar?_typeName ht hw
        refine number_eq_none fun d hd => ?_
        have hne : ts ≠ [] := by
          rintro rfl
          cases hc
        rw [h.head?_eq_firstChar?, firstChar?_append hne] at hd
        rw [← Option.mem_unique hc hd]
        exact (opensName_apart hopens).2
      obtain ⟨rest, hread, hrest, hlt'⟩ :=
        typeName_reads ih (argument_refusesEnd n) ht hw h hends (Nat.le_of_lt_succ hlt)
      refine ⟨rest, ?_, hrest, hlt'⟩
      simp only [argument, hnumber, hread, Option.map_some]
      cases hv : t.isWritable <;> simp [Option.guard, Argument.isWritable, hv]

end Scanner

/-! ## 7. Whole texts -/

namespace TypeName

/-- What spells a well-formed name is read as it, or as improper if a number in it cannot be
written. -/
theorem parseChars_of_spells {t : TypeName} {text : List Char} (ht : t.WellFormed)
    (h : t.Spells text) :
    parseChars text = if t.isWritable then .ok t else .error .number := by
  obtain ⟨gap, ts, rest, hgap, hw, hlays, rfl⟩ := h
  have hends : Ends [] := by
    intro c hc
    cases hc
  have hwhole : Lays (ts ++ []) rest := by rwa [List.append_nil]
  obtain ⟨left, hread, hleft, -⟩ := Scanner.typeName_reads
    (Scanner.argument_reads (gap ++ rest).length) (Scanner.argument_refusesEnd _) ht hw hwhole hends
    (by simp)
  have hblank : (gap ++ rest).all isBlank = false := by
    obtain ⟨c, hc, hopens⟩ := Scanner.firstChar?_typeName ht hw
    have hmem : c ∈ rest := List.mem_of_head? (hlays.head?_eq_firstChar? ▸ hc)
    refine List.all_eq_false.mpr ⟨c, List.mem_append_right gap hmem, ?_⟩
    rw [(Scanner.opensName_apart hopens).1]
    decide
  rw [parseChars, hblank, scan, Scanner.typeName_append hgap hlays, hread, hleft.eq_nil]
  cases hv : t.isWritable <;> simp [Option.guard, hv]

end TypeName

end NativeTypes
