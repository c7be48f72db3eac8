/-
NativeTypes.Proofs.TypeName.Appended — a type name with the brackets of arrays
behind it.

An array type that the source describes as dimensions of an element gets the
element's name with one pair of brackets for each dimension behind it. Is that
name read as the element in these brackets? For a name without suffixes it is,
however it is spelled (`parse_withArrays`), and it does not follow from what is
known of canonical spellings: the name is any text that is read.

So it has to be shown of the scanners that they do not look further. A scanner
that stops in front of the end of a text does not see what is put behind that
end. Tokens are read alike in front of a bracket, since no word, number or mark
runs on into one (`Local`); this property goes through alternatives, rows and
what is built of tokens alone.

Suffixes do not have it: a bracket that is put behind a text with its own
brackets belongs to the same row. They are read alike where the row ends inside
the text (`many_suffix_tail`), and go on with the tail where it does not
(`many_suffix_whole`). Hence a type name is read alike only where something
follows that ends it. For a template argument that is always the case, as it is
followed by a comma or by the end of the list. `Reaches` says this of the
scanner for arguments, and it is carried through the levels: `reaches_argument`
is by induction on the depth to which arguments are read. The text with the
tail is longer and is read to a greater depth, which does not matter either;
that is why two scanners stand in `Reaches`.

Behind the outermost name the suffix scanner goes on with the brackets, each
read as the array it stands for (`exists_many_suffix_arrays`).
-/
import NativeTypes.Proofs.TypeName.Canonical

namespace NativeTypes

open NativeTypes.Text

namespace Scanner

variable {α β : Type} {tail : List Char} {p q : Scanner α} {cs rest : List Char} {a : α}
  {argument argument' : Scanner (Option Argument)}

/-! ## 1. Scanners that do not see what is put behind a text

The tail is fixed. What is read comes out the same, and what is left has the tail behind it. -/

/-- The scanner reads in front of the tail what it reads in front of the end. -/
def Local (tail : List Char) (p : Scanner α) : Prop :=
  ∀ cs, p (cs ++ tail) = (p cs).map fun r => (r.1, r.2 ++ tail)

namespace Local

/-- What it reads it reads in front of the tail. -/
theorem reads (h : Local tail p) (hread : p cs = some (a, rest)) :
    p (cs ++ tail) = some (a, rest ++ tail) := by
  rw [h, hread]
  rfl

/-- Where it fails it fails in front of the tail. -/
theorem fails (h : Local tail p) (hread : p cs = none) : p (cs ++ tail) = none := by
  rw [h, hread]
  rfl

/-- The second one is tried where the first one fails, and that is so with the tail too. -/
theorem orElse (hp : Local tail p) (hq : Local tail q) : Local tail (orElse p q) := by
  intro cs
  simp only [Scanner.orElse]
  cases hread : p cs with
  | none => rw [hp.fails hread, hq]
  | some r => rw [hp.reads hread]; rfl

/-- A choice among scanners. -/
theorem findSome? {f : β → Scanner α} {l : List β} (h : ∀ x ∈ l, Local tail (f x)) :
    Local tail fun cs => l.findSome? fun x => f x cs := by
  intro cs
  induction l with
  | nil => rfl
  | cons x l ih =>
    simp only [List.forall_mem_cons] at h
    have hrest := ih h.2
    simp only [List.findSome?_cons] at hrest ⊢
    cases hread : f x cs with
    | none => simpa [h.1.fails hread] using hrest
    | some r => simp [h.1.reads hread]

/-- A row ends where its scanner fails. -/
theorem many (h : Local tail p) (cs : List Char) :
    many p (cs ++ tail) = ((many p cs).1, (many p cs).2 ++ tail) := by
  fun_induction Scanner.many p cs with
  | case1 cs hread => simp [many_eq_nil (h.fails hread)]
  | case2 cs a rest hread hlt as left hrest ih =>
    rw [many_eq_cons (h.reads hread) (by simpa using hlt), ih]
    simp [hrest]
  | case3 cs a rest hread hle =>
    rw [Scanner.many, h.reads hread]
    simp [hle]

end Local

/-! ## 2. Tokens in front of a bracket

All that has to be known of the tail is that it starts with a bracket: no token has one in it, so
none goes on there. -/

variable (hopen : tail.head? = some '[')
include hopen

/-- A run of characters that are no bracket ends where it did. -/
theorem takeWhile_tail {f : Char → Bool} (hf : f '[' = false) (cs : List Char) :
    (cs ++ tail).takeWhile f = cs.takeWhile f ∧
      (cs ++ tail).dropWhile f = cs.dropWhile f ++ tail := by
  induction cs with
  | nil => exact takeWhile_eq_of_head (l := []) (by simp) (by simp [hopen, hf])
  | cons c cs ih => cases hc : f c <;> simp [hc, ih]

theorem skipSpaces_tail (cs : List Char) : skipSpaces (cs ++ tail) = skipSpaces cs ++ tail :=
  (takeWhile_tail hopen (by decide) cs).2

/-- A fixed text without brackets stands at the front or it does not. -/
theorem after?_tail {text : List Char} (h : '[' ∉ text) (cs : List Char) :
    after? text (cs ++ tail) = (after? text cs).map (· ++ tail) := by
  induction text generalizing cs with
  | nil => simp [after?]
  | cons t ts ih =>
    simp only [List.mem_cons, not_or] at h
    cases cs with
    | nil =>
      refine after?_eq_none fun c hc => ?_
      rw [List.nil_append, hopen] at hc
      cases hc
      exact h.1
    | cons c cs =>
      simp only [List.cons_append, after?]
      split
      · exact ih h.2 cs
      · rfl

theorem local_token {text : List Char} (h : '[' ∉ text) : Local tail (token text) := by
  intro cs
  simp only [token, after?_tail hopen h]
  cases after? text cs with
  | none => rfl
  | some rest => simp [skipSpaces_tail hopen]

/-- A bracket ends a word as the end of a text does. -/
theorem atWordEnd_tail (rest : List Char) : atWordEnd (rest ++ tail) = atWordEnd rest := by
  cases rest with
  | nil =>
    refine atWordEnd_of_not_runsOn fun c hc => ?_
    obtain rfl : c = '[' := by simpa [hopen, eq_comm] using hc
    decide
  | cons c rest => rfl

theorem local_word {text : List Char} (h : '[' ∉ text) : Local tail (word text) := by
  intro cs
  simp only [word, after?_tail hopen h]
  cases after? text cs with
  | none => rfl
  | some rest =>
    simp only [Option.map_some, Option.bind_some, atWordEnd_tail hopen]
    split <;> rfl

/-- A scanner that skips the spaces behind what another one reads. -/
theorem Local.skip (hp : Local tail p) (f : α → β) :
    Local tail fun cs => (p cs).map fun r => (f r.1, skipSpaces r.2) := by
  intro cs
  cases hread : p cs with
  | none => simp [hp.fails hread, hread]
  | some r => simp [hp.reads hread, hread, skipSpaces_tail hopen]

theorem local_builtinWord : Local tail builtinWord := by
  have hword : ∀ w ∈ Builtin.vocabulary, '[' ∉ w.toList := by decide
  refine Local.findSome? fun w hw => ?_
  exact (local_word hopen (hword w hw)).skip hopen fun _ => w

theorem local_qualifier : Local tail qualifier :=
  (local_word hopen (by decide)).orElse (local_word hopen (by decide))

theorem local_qualifierToken : Local tail qualifierToken :=
  (local_qualifier hopen).skip hopen fun _ => ()

theorem local_exactly {text : List Char} (h : '[' ∉ text) : Local tail (exactly text) := by
  intro cs
  simp only [exactly, after?_tail hopen h]
  cases after? text cs <;> rfl

/-- An identifier ends at a bracket. -/
theorem local_identifier : Local tail identifier := by
  intro cs
  cases cs with
  | nil =>
    obtain ⟨more, rfl⟩ := List.head?_eq_some_iff.mp hopen
    rfl
  | cons c cs =>
    obtain ⟨htake, hdrop⟩ := takeWhile_tail hopen (f := isNameChar) (by decide) cs
    simp only [List.cons_append, identifier, htake, hdrop]
    split <;> rfl

/-- A name in angle brackets ends at the closing one, which must stand in the text. -/
theorem local_angled : Local tail angled := by
  intro cs
  match cs with
  | [] =>
    obtain ⟨more, rfl⟩ := List.head?_eq_some_iff.mp hopen
    rfl
  | c :: cs =>
    by_cases hc : c = '<'
    · subst hc
      obtain ⟨htake, hdrop⟩ := takeWhile_tail hopen (f := isSpecialChar) (by decide) cs
      simp only [List.cons_append, angled, htake, hdrop]
      cases hinner : cs.takeWhile isSpecialChar with
      | nil => rfl
      | cons d ds =>
        cases hleft : cs.dropWhile isSpecialChar with
        | nil =>
          obtain ⟨more, rfl⟩ := List.head?_eq_some_iff.mp hopen
          rfl
        | cons x xs =>
          by_cases hx : x = '>'
          · subst hx
            rfl
          · simp [hx]
    · simp [angled, hc]

theorem local_name : Local tail name :=
  ((local_exactly hopen (by decide)).orElse
    ((local_exactly hopen (by decide)).orElse (local_angled hopen))).orElse (local_identifier hopen)

/-- Digits end at a bracket, in both bases. -/
theorem local_magnitude : Local tail magnitude := by
  have hhex : Local tail hexDigits := by
    intro cs
    match cs with
    | [] =>
      obtain ⟨more, rfl⟩ := List.head?_eq_some_iff.mp hopen
      rfl
    | [c] =>
      obtain ⟨more, rfl⟩ := List.head?_eq_some_iff.mp hopen
      by_cases hc : c = '0' <;> simp [hexDigits, hc]
    | c :: x :: cs =>
      by_cases hc : c = '0'
      · subst hc
        obtain ⟨htake, hdrop⟩ := takeWhile_tail hopen (f := isHexDigit) (by decide) cs
        simp only [List.cons_append, hexDigits, htake, hdrop]
        split <;> rfl
      · simp [hexDigits, hc]
  have hdecimal : Local tail decimalDigits := by
    intro cs
    obtain ⟨htake, hdrop⟩ := takeWhile_tail hopen (f := Char.isDigit) (by decide) cs
    simp only [decimalDigits, htake, hdrop]
    split <;> rfl
  intro cs
  simp only [magnitude]
  cases hread : hexDigits cs with
  | none => simp [hhex.fails hread, hdecimal cs]
  | some r => simp [hhex.reads hread]

theorem local_number : Local tail number := by
  have hsign (cs : List Char) :
      signFactor (cs ++ tail) = ((signFactor cs).1, (signFactor cs).2 ++ tail) := by
    cases cs with
    | nil =>
      refine signFactor_eq_self fun c hc => ?_
      obtain rfl : c = '[' := by simpa [hopen, eq_comm] using hc
      decide
    | cons c cs =>
      by_cases hminus : c = '-'
      · simp [signFactor, hminus]
      · by_cases hplus : c = '+' <;> simp [signFactor, hminus, hplus]
  intro cs
  simp only [number, hsign, local_magnitude hopen (signFactor cs).2]
  cases magnitude (signFactor cs).2 with
  | none => rfl
  | some r =>
    simp only [Option.map_some, (takeWhile_tail hopen (f := isNumberSuffix) (by decide) r.2).2,
      skipSpaces_tail hopen]

/-! ## 3. Suffixes

A row of suffixes is the one thing that may go on into the tail. -/

/-- Brackets that are opened in the text are closed in it, or are not read in either. -/
theorem brackets_tail (hne : cs ≠ []) :
    brackets (cs ++ tail) = (brackets cs).map fun r => (r.1, r.2 ++ tail) := by
  obtain ⟨c, cs, rfl⟩ := List.exists_cons_of_ne_nil hne
  by_cases hc : c = '['
  · subst hc
    have htoken (cs : List Char) : token ['['] ('[' :: cs) = some ((), skipSpaces cs) := by
      simp [token, after?]
    have hclose : '[' ∉ [']'] := by decide
    simp only [brackets, List.cons_append, htoken, Option.bind_some, skipSpaces_tail hopen,
      local_number hopen (skipSpaces cs)]
    cases number (skipSpaces cs) with
    | none =>
      simp only [Option.map_none, after?_tail hopen hclose, Option.map_map]
      rfl
    | some r =>
      simp only [Option.map_some, after?_tail hopen hclose, Option.map_map]
      rfl
  · have hnone (cs : List Char) : token ['['] (c :: cs) = none :=
      token_eq_none (by simpa using hc)
    simp [brackets, hnone]

/-- One suffix, as long as some of the text is left to read it from. -/
theorem suffix_tail (hne : cs ≠ []) :
    suffix (cs ++ tail) = (suffix cs).map fun r => (r.1, r.2 ++ tail) := by
  obtain ⟨c, cs, rfl⟩ := List.exists_cons_of_ne_nil hne
  by_cases hstar : c = '*'
  · subst hstar
    simp [suffix, skipSpaces_tail hopen]
  · by_cases hamp : c = '&'
    · subst hamp
      cases cs with
      | nil =>
        have hnext : ∀ c ∈ tail.head?, c ≠ '&' := by simp [hopen]
        have hspaces := skipSpaces_tail hopen []
        rw [List.cons_append, List.nil_append, suffix_single hnext, suffix_single (by simp)]
        simpa using hspaces
      | cons d ds =>
        by_cases hd : d = '&'
        · subst hd
          simp [suffix, skipSpaces_tail hopen]
        · rw [List.cons_append, suffix_single (by simpa using hd),
            suffix_single (by simpa using hd), skipSpaces_tail hopen]
          rfl
    · have hother (cs : List Char) : ∀ d ∈ (c :: cs).head?, d ≠ '&' ∧ d ≠ '*' := by
        simp [hstar, hamp]
      rw [List.cons_append, suffix_eq (hother _), suffix_eq (hother _), ← List.cons_append,
        brackets_tail hopen (List.cons_ne_nil c cs)]
      cases brackets (c :: cs) with
      | some r => simp [skipSpaces_tail hopen]
      | none =>
        exact (local_qualifier hopen).skip hopen (fun _ => some ([] : List Suffix)) (c :: cs)

/-- Suffixes that end in front of the end of a text end there too when it goes on. -/
theorem many_suffix_tail (hrest : (many suffix cs).2 ≠ []) :
    many suffix (cs ++ tail) = ((many suffix cs).1, (many suffix cs).2 ++ tail) := by
  fun_induction Scanner.many suffix cs with
  | case1 cs hread =>
    refine many_eq_nil ?_
    rw [suffix_tail hopen hrest, hread]
    rfl
  | case2 cs a rest hread hlt as left hmany ih =>
    have hne : cs ≠ [] := by
      rintro rfl
      cases hread
    have hnext : suffix (cs ++ tail) = some (a, rest ++ tail) := by
      rw [suffix_tail hopen hne, hread]
      rfl
    rw [many_eq_cons hnext (by simpa using hlt), ih (by simpa [hmany] using hrest)]
    simp [hmany]
  | case3 cs a rest hread hle =>
    have hnext : suffix (cs ++ tail) = some (a, rest ++ tail) := by
      rw [suffix_tail hopen hrest, hread]
      rfl
    rw [Scanner.many, hnext]
    simp [hle]

/-- Suffixes that go to the end of a text go on with those of the tail. -/
theorem many_suffix_whole (hrest : (many suffix cs).2 = []) :
    many suffix (cs ++ tail) =
      ((many suffix cs).1 ++ (many suffix tail).1, (many suffix tail).2) := by
  fun_induction Scanner.many suffix cs with
  | case1 cs hread =>
    obtain rfl : cs = [] := hrest
    rfl
  | case2 cs a rest hread hlt as left hmany ih =>
    have hne : cs ≠ [] := by
      rintro rfl
      cases hread
    have hnext : suffix (cs ++ tail) = some (a, rest ++ tail) := by
      rw [suffix_tail hopen hne, hread]
      rfl
    rw [many_eq_cons hnext (by simpa using hlt), ih (by simpa [hmany] using hrest)]
    simp [hmany]
  | case3 cs a rest hread hle =>
    obtain rfl : cs = [] := hrest
    cases hread

/-! ## 4. Names

A name is read alike where a comma or a closing mark follows, and as a whole where nothing does.
Each function of the scanner has one lemma, from lists of arguments up to whole names; in all of
them what stands behind the part that is read is what decides. -/

/-- The first scanner reads a template argument that is ended in the text, and the second one reads
it too when the tail follows; where a list of arguments is closed the second one reads none. -/
structure Reaches (tail : List Char) (argument argument' : Scanner (Option Argument)) : Prop where
  reads : ∀ {cs a rest}, argument cs = some (a, rest) → (∃ c ∈ rest.head?, c = ',' ∨ c = '>') →
    argument' (cs ++ tail) = some (a, rest ++ tail)
  refuses : ∀ cs, argument' ('>' :: cs) = none

/-- The scanner for the arguments behind the first one. -/
def nextArgument (argument : Scanner (Option Argument)) : Scanner (Option Argument) := fun cs =>
  (token [','] cs).bind fun (_, cs) => argument cs

omit hopen in
/-- A token is read from a text that starts with it. -/
theorem exists_head_of_token {t : Char} {ts : List Char} {r : Unit × List Char}
    (h : token (t :: ts) cs = some r) : cs.head? = some t := by
  by_contra hne
  have hother : ∀ c ∈ cs.head?, c ≠ t := by
    rintro c hc rfl
    exact hne hc
  rw [token_eq_none hother] at h
  cases h

omit hopen in
/-- A further argument starts with a comma. -/
theorem head?_of_nextArgument {r : Option Argument × List Char}
    (h : nextArgument argument cs = some r) : cs.head? = some ',' := by
  obtain ⟨_, htoken, -⟩ := Option.bind_eq_some_iff.mp h
  exact exists_head_of_token htoken

/-- What stands behind an argument ends it, as long as the list of arguments is closed. -/
theorem many_nextArgument_tail (h : Reaches tail argument argument')
    (hclose : (many (nextArgument argument) cs).2.head? = some '>') :
    many (nextArgument argument') (cs ++ tail) = ((many (nextArgument argument) cs).1,
      (many (nextArgument argument) cs).2 ++ tail) ∧ ∃ c ∈ cs.head?, c = ',' ∨ c = '>' := by
  fun_induction Scanner.many (nextArgument argument) cs with
  | case1 cs hread =>
    refine ⟨many_eq_nil ?_, '>', hclose, .inr rfl⟩
    have hcomma : ∀ c ∈ (cs ++ tail).head?, c ≠ ',' := by
      obtain ⟨cs, rfl⟩ := List.head?_eq_some_iff.mp hclose
      simp
    rw [nextArgument, token_eq_none hcomma, Option.bind_none]
  | case2 cs a rest hread hlt as left hmany ih =>
    obtain ⟨hrest, hend⟩ := ih (by simpa [hmany] using hclose)
    refine ⟨?_, ',', head?_of_nextArgument hread, .inl rfl⟩
    obtain ⟨r, htoken, hargument⟩ := Option.bind_eq_some_iff.mp hread
    have hnext : nextArgument argument' (cs ++ tail) = some (a, rest ++ tail) := by
      rw [nextArgument, (local_token hopen (by decide)).reads htoken, Option.bind_some]
      exact h.reads hargument hend
    rw [many_eq_cons hnext (by simpa using hlt), hrest]
    simp [hmany]
  | case3 cs a rest hread hle =>
    cases (head?_of_nextArgument hread).symm.trans hclose

/-- The arguments of a list, which is not opened or closed yet, and what stands behind them. -/
def argumentList (argument : Scanner (Option Argument)) (cs : List Char) :
    List (Option Argument) × List Char :=
  match argument cs with
  | none => ([], cs)
  | some (a, cs) =>
    (a :: (many (nextArgument argument) cs).1, (many (nextArgument argument) cs).2)

omit hopen in
/-- A list of arguments, taken apart at its marks. -/
theorem arguments_eq (argument : Scanner (Option Argument)) (cs : List Char) :
    arguments argument cs = (token ['<'] cs).bind fun r =>
      (token ['>'] (argumentList argument r.2).2).map fun s =>
        (allSome (argumentList argument r.2).1, s.2) := by
  unfold arguments argumentList
  cases token ['<'] cs with
  | none => rfl
  | some r =>
    simp only [Option.bind_some]
    cases argument r.2 with
    | none => rfl
    | some found => rfl

/-- The arguments of a list that is closed in the text. -/
theorem argumentList_tail (h : Reaches tail argument argument')
    (hclose : (argumentList argument cs).2.head? = some '>') :
    argumentList argument' (cs ++ tail) =
      ((argumentList argument cs).1, (argumentList argument cs).2 ++ tail) := by
  simp only [argumentList] at hclose ⊢
  cases hfirst : argument cs with
  | none =>
    simp only [hfirst] at hclose
    obtain ⟨cs, rfl⟩ := List.head?_eq_some_iff.mp hclose
    rw [List.cons_append, h.refuses]
  | some r =>
    simp only [hfirst] at hclose
    obtain ⟨hmany, hend⟩ := many_nextArgument_tail hopen h hclose
    rw [h.reads hfirst hend]
    simp only [hmany]

/-- A whole list of arguments. -/
theorem arguments_tail (h : Reaches tail argument argument') {as : Option (List Argument)}
    (hread : arguments argument cs = some (as, rest)) :
    arguments argument' (cs ++ tail) = some (as, rest ++ tail) := by
  rw [arguments_eq] at hread ⊢
  obtain ⟨r, hless, hread⟩ := Option.bind_eq_some_iff.mp hread
  obtain ⟨s, hshut, heq⟩ := Option.map_eq_some_iff.mp hread
  cases heq
  have hlist := argumentList_tail hopen h (exists_head_of_token hshut)
  have hclose : '[' ∉ ['>'] := by decide
  rw [(local_token hopen (by decide)).reads hless, Option.bind_some]
  simp only [hlist, (local_token hopen hclose).reads hshut, Option.map_some]

/-- A segment is read alike, unless an argument list is left unread behind it. -/
theorem segment_tail (h : Reaches tail argument argument') {s : Option Segment}
    (hread : segment argument cs = some (s, rest)) (hrest : rest.head? ≠ some '<') :
    segment argument' (cs ++ tail) = some (s, rest ++ tail) := by
  obtain ⟨⟨n, left⟩, hname, heq⟩ := Option.map_eq_some_iff.mp hread
  simp only at heq
  simp only [segment, (local_name hopen).reads hname, Option.map_some, skipSpaces_tail hopen]
  cases harguments : arguments argument (skipSpaces left) with
  | some r =>
    simp only [harguments] at heq
    cases heq
    rw [arguments_tail hopen h harguments]
  | none =>
    simp only [harguments] at heq
    cases heq
    have hless : ∀ c ∈ (skipSpaces left ++ tail).head?, c ≠ '<' := by
      cases hleft : skipSpaces left with
      | nil => simp [hopen]
      | cons c cs => simpa [hleft] using hrest
    rw [arguments, token_eq_none hless, Option.bind_none]

omit hopen in
/-- A further segment starts with a scope mark. -/
theorem head?_of_scopeTail {r : Option Segment × List Char} (h : scopeTail argument cs = some r) :
    cs.head? = some ':' := by
  obtain ⟨_, htoken, -⟩ := Option.bind_eq_some_iff.mp h
  exact exists_head_of_token htoken

/-- The segments behind the first one, up to where the path ends. -/
theorem many_scopeTail_tail (h : Reaches tail argument argument')
    (hrest : ∀ c ∈ (many (scopeTail argument) cs).2.head?, c ≠ '<' ∧ c ≠ ':') :
    many (scopeTail argument') (cs ++ tail) = ((many (scopeTail argument) cs).1,
      (many (scopeTail argument) cs).2 ++ tail) ∧ cs.head? ≠ some '<' := by
  fun_induction Scanner.many (scopeTail argument) cs with
  | case1 cs hread =>
    refine ⟨many_eq_nil ?_, fun hless => (hrest _ hless).1 rfl⟩
    cases htoken : token scopeMark cs with
    | none => rw [scopeTail, (local_token hopen (by decide)).fails htoken, Option.bind_none]
    | some r => exact absurd rfl (hrest ':' (exists_head_of_token htoken)).2
  | case2 cs a rest hread hlt as left hmany ih =>
    obtain ⟨htail, hless⟩ := ih (by simpa [hmany] using hrest)
    refine ⟨?_, by simp [head?_of_scopeTail hread]⟩
    obtain ⟨r, htoken, hsegment⟩ := Option.bind_eq_some_iff.mp hread
    have hnext : scopeTail argument' (cs ++ tail) = some (a, rest ++ tail) := by
      rw [scopeTail, (local_token hopen (by decide)).reads htoken, Option.bind_some]
      exact segment_tail hopen h hsegment hless
    rw [many_eq_cons hnext (by simpa using hlt), htail]
    simp [hmany]
  | case3 cs a rest hread hle =>
    exact absurd rfl (hrest ':' (head?_of_scopeTail hread)).2

/-- A path is read alike unless an argument list or a scope mark is left behind it. -/
theorem path_tail (h : Reaches tail argument argument') {b : Option BaseName}
    (hread : path argument cs = some (b, rest)) (hrest : ∀ c ∈ rest.head?, c ≠ '<' ∧ c ≠ ':') :
    path argument' (cs ++ tail) = some (b, rest ++ tail) := by
  have hstart : pathStart (cs ++ tail) = pathStart cs ++ tail := by
    have hmark : '[' ∉ scopeMark := by decide
    simp only [pathStart, local_token hopen hmark cs]
    cases token scopeMark cs <;> rfl
  rw [path_eq] at hread ⊢
  obtain ⟨⟨s, left⟩, hsegment, heq⟩ := Option.map_eq_some_iff.mp hread
  cases heq
  obtain ⟨htail, hless⟩ := many_scopeTail_tail hopen h hrest
  rw [hstart, segment_tail hopen h hsegment hless]
  simp [htail]

theorem local_builtin : Local tail builtin := by
  intro cs
  simp only [builtin, (local_builtinWord hopen).many]
  rcases many builtinWord cs with ⟨_ | ⟨w, ws⟩, left⟩
  · rfl
  · rfl

/-- A built-in type or a path. -/
theorem base_tail (h : Reaches tail argument argument') {b : Option BaseName}
    (hread : orElse builtin (path argument) cs = some (b, rest))
    (hrest : ∀ c ∈ rest.head?, c ≠ '<' ∧ c ≠ ':') :
    orElse builtin (path argument') (cs ++ tail) = some (b, rest ++ tail) := by
  simp only [orElse] at hread ⊢
  cases hbuiltin : builtin cs with
  | some r =>
    simp only [hbuiltin] at hread
    cases hread
    rw [(local_builtin hopen).reads hbuiltin]
  | none =>
    simp only [hbuiltin] at hread
    rw [(local_builtin hopen).fails hbuiltin]
    exact path_tail hopen h hread hrest

omit hopen in
/-- An argument list or a scope mark behind a base stays unread. -/
theorem head?_of_many_suffix
    (hrest : ∀ c ∈ (skipSpaces (many suffix (skipSpaces cs)).2).head?, c ≠ '<' ∧ c ≠ ':') :
    ∀ c ∈ cs.head?, c ≠ '<' ∧ c ≠ ':' := by
  intro c hc
  obtain ⟨cs, rfl⟩ := List.head?_eq_some_iff.mp hc
  have hstays (hspace : isSpace c = false) (halpha : c.isAlpha = false)
      (hmark : c ≠ '&' ∧ c ≠ '*' ∧ c ≠ '[') : c ≠ '<' ∧ c ≠ ':' := by
    have hskip : skipSpaces (c :: cs) = c :: cs := by simp [skipSpaces, hspace]
    have hqualifier : qualifier (c :: cs) = none := qualifier_eq_none fun w hw =>
      word_eq_none_of_head (mem_keywords_of_qualifier hw) (by simpa using halpha)
    have hbrackets : brackets (c :: cs) = none := by
      rw [brackets, token_eq_none (by simpa using hmark.2.2), Option.bind_none]
    have hsuffix : suffix (c :: cs) = none := by
      rw [suffix_eq (by simpa using ⟨hmark.1, hmark.2.1⟩), hbrackets, hqualifier]
      rfl
    refine hrest c ?_
    rw [hskip, many_eq_nil hsuffix]
    simp [hskip]
  constructor
  · rintro rfl
    exact (hstays (by decide) (by decide) (by decide)).1 rfl
  · rintro rfl
    exact (hstays (by decide) (by decide) (by decide)).2 rfl

omit hopen in
/-- A type name taken apart: what is read in front of its suffixes, and these. -/
theorem typeName_eq_some_iff {t : Option TypeName} : typeName argument cs = some (t, rest) ↔
    ∃ base left, orElse builtin (path argument) (many qualifierToken (skipSpaces cs)).2 =
        some (base, left) ∧
      t = (base.bind fun base => (allSome (many suffix (skipSpaces left)).1).map fun ss =>
        .mk base ss.flatten) ∧
      rest = skipSpaces (many suffix (skipSpaces left)).2 := by
  simp only [typeName, Option.map_eq_some_iff, Prod.exists, Prod.mk.injEq]
  constructor
  · rintro ⟨base, left, hbase, rfl, rfl⟩
    exact ⟨base, left, hbase, rfl, rfl⟩
  · rintro ⟨base, left, hbase, rfl, rfl⟩
    exact ⟨base, left, hbase, rfl, rfl⟩

/-- What stands in front of the suffixes of a type name is read alike. -/
theorem front_tail (h : Reaches tail argument argument') {b : Option BaseName}
    (hread : orElse builtin (path argument) (many qualifierToken (skipSpaces cs)).2 =
      some (b, rest)) (hrest : ∀ c ∈ rest.head?, c ≠ '<' ∧ c ≠ ':') :
    orElse builtin (path argument') (many qualifierToken (skipSpaces (cs ++ tail))).2 =
      some (b, rest ++ tail) := by
  rw [skipSpaces_tail hopen, (local_qualifierToken hopen).many]
  exact base_tail hopen h hread hrest

/-- A name that a comma or a closing mark ends, with its suffixes. -/
theorem typeName_tail (h : Reaches tail argument argument') {t : Option TypeName}
    (hread : typeName argument cs = some (t, rest)) (hrest : ∃ c ∈ rest.head?, c = ',' ∨ c = '>') :
    typeName argument' (cs ++ tail) = some (t, rest ++ tail) := by
  obtain ⟨base, left, hbase, rfl, rfl⟩ := typeName_eq_some_iff.mp hread
  obtain ⟨c, hc, hend⟩ := hrest
  have hleft : ∀ c ∈ left.head?, c ≠ '<' ∧ c ≠ ':' := by
    refine head?_of_many_suffix fun d hd => ?_
    obtain rfl := Option.mem_unique hc hd
    rcases hend with rfl | rfl <;> decide
  have hne : (many suffix (skipSpaces left)).2 ≠ [] := by
    intro hnil
    rw [hnil] at hc
    cases hc
  refine typeName_eq_some_iff.mpr ⟨base, left ++ tail, front_tail hopen h hbase hleft, ?_, ?_⟩
  · rw [skipSpaces_tail hopen, many_suffix_tail hopen hne]
  · rw [skipSpaces_tail hopen, many_suffix_tail hopen hne, skipSpaces_tail hopen]

omit hopen in
/-- A closing mark begins no name. -/
theorem typeName_close (argument : Scanner (Option Argument)) (cs : List Char) :
    typeName argument ('>' :: cs) = none := by
  have hword : ∀ w ∈ keywords, word w ('>' :: cs) = none := fun w hw =>
    word_eq_none_of_head hw (by simp)
  have hskip : skipSpaces ('>' :: cs) = '>' :: cs := List.dropWhile_cons_of_neg (by decide)
  have hqualifier : qualifierToken ('>' :: cs) = none :=
    qualifierToken_eq_none fun w hw => hword w (mem_keywords_of_qualifier hw)
  have hstart : pathStart ('>' :: cs) = '>' :: cs := by
    rw [pathStart, token_scopeMark_eq_none (by simp)]
  have hpath : path argument ('>' :: cs) = none := by
    rw [path_eq, hstart]
    rfl
  simp only [typeName, hskip, many_eq_nil hqualifier, orElse, builtin_eq_none hword, hpath,
    Option.map_none]

omit hopen in
/-- No argument of a template starts with what closes the list of them. -/
theorem argument_close (n : Nat) (cs : List Char) : Scanner.argument n ('>' :: cs) = none := by
  cases n with
  | zero => rfl
  | succ n =>
    have hnumber : number ('>' :: cs) = none := number_eq_none (by simp)
    simp [Scanner.argument, hnumber, typeName_close]

/-- The levels of template arguments: those that suffice for a text suffice with the tail. -/
theorem reaches_argument {n m : Nat} (hle : n ≤ m) :
    Reaches tail (Scanner.argument n) (Scanner.argument m) := by
  induction n generalizing m with
  | zero =>
    exact ⟨fun h => (by cases h), argument_close m⟩
  | succ n ih =>
    obtain ⟨m, rfl⟩ : ∃ k, m = k + 1 := ⟨m - 1, by omega⟩
    refine ⟨fun {cs a rest} h hrest => ?_, argument_close (m + 1)⟩
    simp only [Scanner.argument] at h ⊢
    cases hnumber : number cs with
    | some r =>
      simp only [hnumber] at h
      cases h
      rw [(local_number hopen).reads hnumber]
    | none =>
      simp only [hnumber] at h
      obtain ⟨⟨t, left⟩, hname, heq⟩ := Option.map_eq_some_iff.mp h
      cases heq
      rw [(local_number hopen).fails hnumber, typeName_tail hopen (ih (by omega)) hname hrest]
      rfl

omit hopen in
/-- Proper values in two rows. -/
theorem allSome_append {as bs : List (Option α)} {xs ys : List α} (h : allSome as = some xs)
    (h' : allSome bs = some ys) : allSome (as ++ bs) = some (xs ++ ys) := by
  induction as generalizing xs with
  | nil =>
    cases h
    exact h'
  | cons a as ih =>
    cases a with
    | none => cases h
    | some a =>
      obtain ⟨zs, hzs, rfl⟩ := Option.map_eq_some_iff.mp h
      simp [allSome, ih hzs]

omit hopen in
/-- Spaces are skipped once. -/
theorem skipSpaces_skipSpaces (cs : List Char) : skipSpaces (skipSpaces cs) = skipSpaces cs := by
  unfold skipSpaces
  induction cs with
  | nil => rfl
  | cons c cs ih => cases hc : isSpace c <;> simp [hc, ih]

omit hopen in
/-- Behind suffixes no spaces are left. -/
theorem skipSpaces_many_suffix (h : skipSpaces cs = cs) :
    skipSpaces (many suffix cs).2 = (many suffix cs).2 := by
  fun_induction Scanner.many suffix cs with
  | case1 cs hread => exact h
  | case2 cs a rest hread hlt as left hmany ih =>
    obtain ⟨r, -, heq⟩ := Option.map_eq_some_iff.mp hread
    cases heq
    simpa [hmany] using ih (skipSpaces_skipSpaces r.2)
  | case3 cs a rest hread hle => exact h

/-- A type name without suffixes that goes to the end of a text takes those of the tail. -/
theorem typeName_whole (h : Reaches tail argument argument') {b : BaseName}
    (hread : typeName argument cs = some (some (.mk b []), []))
    {found : List (Option (List Suffix))} {ss : List (List Suffix)}
    (hmany : many suffix tail = (found, [])) (hall : allSome found = some ss) :
    typeName argument' (cs ++ tail) = some (some (.mk b ss.flatten), []) := by
  obtain ⟨base, left, hbase, ht, hend⟩ := typeName_eq_some_iff.mp hread
  obtain ⟨b', hb, hmk⟩ := Option.bind_eq_some_iff.mp ht.symm
  obtain ⟨own, hown, heq⟩ := Option.map_eq_some_iff.mp hmk
  obtain ⟨rfl, hnil⟩ := TypeName.mk.inj heq
  have hrest : (many suffix (skipSpaces left)).2 = [] := by
    rw [hend, skipSpaces_many_suffix (skipSpaces_skipSpaces left)]
  have hleft : ∀ c ∈ left.head?, c ≠ '<' ∧ c ≠ ':' :=
    head?_of_many_suffix (by simp [← hend])
  have hwhole := many_suffix_whole hopen hrest
  refine typeName_eq_some_iff.mpr ⟨base, left ++ tail, front_tail hopen h hbase hleft, ?_, ?_⟩
  · rw [skipSpaces_tail hopen, hwhole, hmany, hb]
    simp [allSome_append hown hall, hnil]
  · rw [skipSpaces_tail hopen, hwhole, hmany]
    rfl

end Scanner

/-! ## 5. Whole names

The brackets are spelled as the suffixes of a canonical name are, so what is known of those
applies to the tail. -/

namespace TypeName

/-- A text with the brackets of arrays behind it, the outermost length first. -/
def withArrays (text : String) (lengths : List (Option Int)) : String :=
  String.ofList (text.toList ++ (lengths.map Suffix.array).flatMap Suffix.spell)

/-- The tail starts with a bracket. -/
theorem head?_spell_arrays {lengths : List (Option Int)} (hne : lengths ≠ []) :
    ((lengths.map Suffix.array).flatMap Suffix.spell).head? = some '[' := by
  obtain ⟨l, ls, rfl⟩ := List.exists_cons_of_ne_nil hne
  cases l <;> rfl

/-- No two of them would be read as one. -/
theorem joinsReferences_arrays (lengths : List (Option Int)) :
    joinsReferences (lengths.map Suffix.array) = false := by
  induction lengths with
  | nil => rfl
  | cons l ls ih => exact ih

/-- Brackets alone are read as the arrays that they stand for. -/
theorem exists_many_suffix_arrays {lengths : List (Option Int)}
    (hwritable : ∀ l ∈ lengths, (Suffix.array l).isWritable = true) :
    ∃ found ss, Scanner.many Scanner.suffix ((lengths.map Suffix.array).flatMap Suffix.spell) =
        (found, []) ∧
      Scanner.allSome found = some ss ∧ ss.flatten = lengths.map Suffix.array := by
  obtain ⟨ts, hwritten, hrenders, -⟩ := exists_suffixesWritten (lengths.map Suffix.array)
  have hends : NativeTypes.Ends [] := fun c hc => by cases hc
  have hlays := hrenders .nil fun c hc => by cases hc
  rw [List.append_nil (List.flatMap _ _)] at hlays
  obtain ⟨found, rest, hmany, hall, hrest, -⟩ :=
    Scanner.many_suffix hwritten hlays hends (joinsReferences_arrays lengths)
  have hguard : Option.guard (fun ss : List Suffix => ss.all Suffix.isWritable)
      (lengths.map Suffix.array) = some (lengths.map Suffix.array) := by
    simpa [Option.guard] using hwritable
  obtain ⟨ss, hss, hflatten⟩ := Option.map_eq_some_iff.mp (hall.trans hguard)
  exact ⟨found, ss, by rw [hmany, hrest.eq_nil], hss, hflatten⟩

/-- A name is read if no character is blank in the wrong way and nothing is left over. -/
theorem parseChars_eq_ok_iff {cs : List Char} {t : TypeName} :
    parseChars cs = .ok t ↔ cs.all isBlank = false ∧ scan cs = some (some t, []) := by
  unfold parseChars
  cases hblank : cs.all isBlank with
  | true => simp
  | false =>
    simp only [Bool.false_eq_true, if_false, true_and]
    split <;> simp_all

theorem parse_eq_ok_iff {text : String} {t : TypeName} :
    parse text = .ok t ↔ parseChars text.toList = .ok t := by
  unfold parse
  cases parseChars text.toList <;> simp [Except.mapError]

/-- **A name is read with the brackets behind it**, however it is spelled, if their lengths can be
written. -/
theorem parse_withArrays {text : String} {t : TypeName} (hparse : parse text = .ok t)
    (hsuffixes : t.suffixes = []) {lengths : List (Option Int)}
    (hwritable : ∀ l ∈ lengths, (Suffix.array l).isWritable = true) :
    parse (withArrays text lengths) = .ok (.mk t.base (lengths.map Suffix.array)) := by
  obtain ⟨b, ss⟩ := t
  obtain rfl : ss = [] := hsuffixes
  show parse (withArrays text lengths) = .ok (.mk b (lengths.map Suffix.array))
  by_cases hne : lengths = []
  · subst hne
    simpa [withArrays] using hparse
  · have hopen := head?_spell_arrays hne
    obtain ⟨found, ss, hmany, hall, hflatten⟩ := exists_many_suffix_arrays hwritable
    obtain ⟨hblank, hscan⟩ := parseChars_eq_ok_iff.mp (parse_eq_ok_iff.mp hparse)
    have hlevels : text.toList.length ≤ (withArrays text lengths).toList.length := by
      simp [withArrays]
    have hwhole := Scanner.typeName_whole hopen (Scanner.reaches_argument hopen hlevels) hscan hmany
      hall
    rw [hflatten] at hwhole
    refine parse_eq_ok_iff.mpr (parseChars_eq_ok_iff.mpr ⟨?_, ?_⟩)
    · simp [withArrays, hblank]
    · simpa [withArrays, scan] using hwhole

end TypeName

end NativeTypes
