/-
NativeTypes.Proofs.TypeName.Tokens — single tokens are read off a text as they
were laid out.

A name is spelled as a row of tokens with spaces between some of them; `Lays
tokens cs` says that the text `cs` lays out these tokens, with a space wherever
two would run together. A scanner takes a token and the spaces behind it, so it
leaves a text that lays out the tokens that follow. `Reads p cs a more` says
this of a scanner and a value, and the modules above use nothing else of single
tokens.

That words do not run together is what makes a scanner stop where its token
ends. A keyword of the grammar, a name or a number goes on with characters that
run on (`runsOn`), and no token behind it begins with one unless there is a
space (`Apart`). Hence the three lemmas that do the work: `word_eq_none` for a
keyword where a longer name begins, `name_of_identifier` for names, and
`number_append` for numbers. Marks need no such condition, since no other token
begins with what continues them.

A scanner also has to fail where its token does not stand, because the grammar
tries one scanner after the other and takes the first that does not fail. For
every kind of token there is a lemma about that too (`word_eq_none_of_lays`,
`special_eq_none`, `number_eq_none`), by the first character that the text has.
One case is not decided by it: the keyword `int` in front of a name such as
`intel`, which begins with all of the keyword.
-/
import Mathlib.Data.List.Basic
import NativeTypes.Proofs.TypeName.Grammar

namespace NativeTypes

open NativeTypes.Text

/-! ## 1. Characters

Which characters run on, and what that has to do with the test for the end of a word. The dollar
sign is the odd one: names may hold it, but it ends a word. -/

/-- A space never runs on. -/
theorem not_runsOn_of_isSpace {c : Char} (h : isSpace c = true) : runsOn c = false := by
  have hall : ∀ n ∈ spaces, runsOn (Char.ofNat n) = false := by decide +kernel
  have hc := hall c.toNat (by simpa [isSpace] using h)
  rwa [Char.ofNat_toNat] at hc

/-- All characters of names do. -/
theorem runsOn_of_isNameChar {c : Char} (h : Scanner.isNameChar c = true) : runsOn c = true := by
  simp only [Scanner.isNameChar, Bool.or_eq_true] at h
  simp only [runsOn, Scanner.isNameStart, isWord, Bool.or_eq_true]
  tauto

/-- So do digits. -/
theorem runsOn_of_isDigit {c : Char} (h : c.isDigit = true) : runsOn c = true :=
  runsOn_of_isNameChar (by simp [Scanner.isNameChar, Char.isAlphanum, h])

/-- Word characters are those of names but for the dollar sign. -/
theorem isWord_of_isNameChar {c : Char} (h : Scanner.isNameChar c = true) (hc : c ≠ '$') :
    isWord c = true := by
  simp only [Scanner.isNameChar, Bool.or_eq_true, beq_iff_eq] at h
  simp only [isWord, Bool.or_eq_true, beq_iff_eq]
  tauto

/-- A word ends where nothing runs on. -/
theorem atWordEnd_of_not_runsOn {rest : List Char} (h : ∀ c ∈ rest.head?, runsOn c = false) :
    atWordEnd rest = true := by
  cases rest with
  | nil => rfl
  | cons c rest =>
    have hc := h c rfl
    simp only [runsOn, Bool.or_eq_false_iff] at hc
    rw [atWordEnd_cons, hc.2, Bool.not_false]

/-- Every character of an identifier runs on. -/
theorem runsOn_of_mem_identifier {n : List Char} (hn : isIdentifier n = true) {c : Char}
    (hc : c ∈ n) : runsOn c = true := by
  cases n with
  | nil => cases hc
  | cons d ds =>
    simp only [isIdentifier, Bool.and_eq_true, List.all_eq_true] at hn
    rcases List.mem_cons.mp hc with rfl | hc
    · simp [runsOn, hn.1]
    · exact runsOn_of_isNameChar (hn.2 c hc)

/-- A run of characters ends where the first other one stands. -/
theorem takeWhile_eq_of_head {α : Type} {p : α → Bool} {l r : List α} (hl : ∀ x ∈ l, p x = true)
    (hr : ∀ x ∈ r.head?, p x = false) : (l ++ r).takeWhile p = l ∧ (l ++ r).dropWhile p = r := by
  rw [List.takeWhile_append_of_pos hl, List.dropWhile_append_of_pos hl]
  cases r with
  | nil => simp
  | cons x r => simp [hr x rfl]

/-! ## 2. Laid out texts

What is in front of a laid out text is never a space: the spaces stand behind the tokens. -/

namespace Apart

variable {left right : List Char}

/-- Behind a character that runs on stands one that does not. -/
theorem head?_stops (h : Apart left right) {c : Char} (hc : c ∈ left.getLast?)
    (hrun : runsOn c = true) : ∀ d ∈ right.head?, runsOn d = false := by
  intro d hd
  simpa [hrun] using h c hc d hd

/-- Behind a token that runs on throughout stands a character that does not. -/
theorem not_runsOn (h : Apart left right) (hne : left ≠ [])
    (hleft : ∀ c ∈ left, runsOn c = true) : ∀ d ∈ right.head?, runsOn d = false :=
  h.head?_stops (List.getLast?_eq_some_getLast hne) (hleft _ (List.getLast_mem hne))

end Apart

namespace Lays

variable {token : Token} {tokens more : List Token} {cs rest gap : List Char}

/-- No tokens, no text. -/
theorem eq_nil (h : Lays [] cs) : cs = [] := by
  cases h
  rfl

/-- The first token of a text, the spaces behind it, and the rest. -/
theorem uncons (h : Lays (token :: tokens) cs) :
    ∃ gap rest, cs = token ++ (gap ++ rest) ∧ token ≠ [] ∧ (∀ c ∈ gap, isSpace c = true) ∧
      Apart token (gap ++ rest) ∧ Lays tokens rest := by
  cases h with
  | cons hc hgap hapart hrest => exact ⟨_, _, rfl, List.cons_ne_nil _ _, hgap, hapart, hrest⟩

/-- The text begins as its first token does. -/
theorem head?_eq (h : Lays tokens cs) : cs.head? = tokens.head?.bind List.head? := by
  cases h with
  | nil => rfl
  | cons => rfl

/-- So it does not begin with a space. -/
theorem not_isSpace (h : Lays tokens cs) : ∀ c ∈ cs.head?, isSpace c = false := by
  cases h with
  | nil => intro c hc; cases hc
  | cons hc =>
    intro d hd
    cases hd
    exact hc

/-- Skipping the spaces behind a token leads to the next one. -/
theorem skipSpaces_append (h : Lays tokens rest) (hgap : ∀ c ∈ gap, isSpace c = true) :
    skipSpaces (gap ++ rest) = rest :=
  (takeWhile_eq_of_head hgap h.not_isSpace).2

/-- In front of a token there is nothing to skip. -/
theorem skipSpaces_eq (h : Lays tokens cs) : skipSpaces cs = cs :=
  show skipSpaces ([] ++ cs) = cs from h.skipSpaces_append (by simp)

end Lays

/-- A scanner reads `a` off a text and leaves one that lays out the tokens `more`. -/
def Reads {α : Type} (p : Scanner α) (cs : List Char) (a : α) (more : List Token) : Prop :=
  ∃ rest, p cs = some (a, rest) ∧ Lays more rest ∧ rest.length < cs.length

namespace Scanner

variable {α : Type} {p : Scanner α} {cs rest : List Char} {tokens more : List Token}

/-! ## 3. Fixed texts

Marks are read wherever they stand, whatever follows. -/

@[simp] theorem after?_append (text rest : List Char) : after? text (text ++ rest) = some rest := by
  induction text with
  | nil => rfl
  | cons t ts ih => simp [after?, ih]

/-- A text that is read stands in front. -/
theorem eq_append_of_after? {text : List Char} (h : after? text cs = some rest) :
    cs = text ++ rest := by
  induction text generalizing cs with
  | nil => simpa [after?] using h
  | cons t ts ih =>
    cases cs with
    | nil => cases h
    | cons c cs =>
      rw [after?] at h
      split at h
      · rename_i htc
        rw [htc, ih h, List.cons_append]
      · cases h

/-- A text that begins differently does not begin with this one. -/
theorem after?_eq_none {t : Char} {ts : List Char} (h : ∀ c ∈ cs.head?, c ≠ t) :
    after? (t :: ts) cs = none := by
  cases cs with
  | nil => rfl
  | cons c cs => exact if_neg (Ne.symm (h c rfl))

/-- A mark is not read where the text begins differently. -/
theorem token_eq_none {t : Char} {ts : List Char} (h : ∀ c ∈ cs.head?, c ≠ t) :
    token (t :: ts) cs = none := by
  rw [token, after?_eq_none h, Option.map_none]

/-- A mark is read as it was laid out. -/
theorem token_reads {text : Token} (h : Lays (text :: more) cs) :
    Reads (token text) cs () more := by
  obtain ⟨gap, rest, rfl, hne, hgap, -, hrest⟩ := h.uncons
  refine ⟨rest, ?_, hrest, ?_⟩
  · rw [token, after?_append, Option.map_some, hrest.skipSpaces_append hgap]
  · have := List.length_pos_iff.mpr hne
    simp only [List.length_append]
    omega

/-! ## 4. Repetition

A row goes on as long as its scanner takes something. -/

theorem many_eq_nil (h : p cs = none) : many p cs = ([], cs) := by
  rw [many, h]

theorem many_eq_cons {a : α} (h : p cs = some (a, rest)) (hlt : rest.length < cs.length) :
    many p cs = (a :: (many p rest).1, (many p rest).2) := by
  rw [many, h]
  simp only [if_pos hlt]

/-! ## 5. Keywords

A keyword is read only as a whole word. Where another word begins with it, the test for the end
of a word refuses it; where the two are different keywords, one of them differs in the first
place where both have a character. -/

/-- Keywords are identifiers, so what is proved of names applies. -/
theorem isIdentifier_of_mem_keywords : ∀ {w : Token}, w ∈ keywords → isIdentifier w = true := by
  decide

/-- A keyword is not read where a name begins that only starts with it. -/
theorem word_eq_none {w n : Token} (hw : w ∈ keywords) (hn : isIdentifier n = true)
    (hne : n ≠ w) (hdollar : ¬ w ++ ['$'] <+: n) (hrest : ∀ c ∈ rest.head?, runsOn c = false) :
    word w (n ++ rest) = none := by
  have hwid := isIdentifier_of_mem_keywords hw
  cases hafter : after? w (n ++ rest) with
  | none => rw [word, hafter, Option.bind_none]
  | some x =>
    suffices hend : atWordEnd x = false by
      rw [word, hafter, Option.bind_some, hend]
      rfl
    rcases List.append_eq_append_iff.mp (eq_append_of_after? hafter) with
      ⟨as, rfl, rfl⟩ | ⟨bs, rfl, rfl⟩
    · -- the keyword is longer than the name: it would go on behind it
      cases as with
      | nil => exact absurd (List.append_nil n).symm hne
      | cons a as =>
        have ha := runsOn_of_mem_identifier hwid (List.mem_append_right n List.mem_cons_self)
        rw [hrest a rfl] at ha
        cases ha
    · -- the name is longer: it goes on with a word character, or with a dollar
      cases bs with
      | nil => exact absurd (List.append_nil w) hne
      | cons b bs =>
        obtain ⟨d, ds, rfl⟩ : ∃ d ds, w = d :: ds := by
          cases w with
          | nil => cases hwid
          | cons d ds => exact ⟨d, ds, rfl⟩
        rw [List.cons_append, isIdentifier, Bool.and_eq_true, List.all_eq_true] at hn
        have hb := hn.2 b (List.mem_append_right ds List.mem_cons_self)
        have hbd : b ≠ '$' := by
          rintro rfl
          exact hdollar ⟨bs, by simp⟩
        rw [List.cons_append, atWordEnd_cons, isWord_of_isNameChar hb hbd]
        rfl

/-- Keywords begin with a letter. -/
theorem word_eq_none_of_head {w : Token} (hw : w ∈ keywords)
    (h : ∀ c ∈ cs.head?, c.isAlpha = false) : word w cs = none := by
  have hletter : ∀ w ∈ keywords, w.head?.any Char.isAlpha = true := by decide
  obtain ⟨d, ds, rfl⟩ : ∃ d ds, w = d :: ds := by
    cases w with
    | nil => exact absurd (hletter _ hw) (by simp)
    | cons d ds => exact ⟨d, ds, rfl⟩
  have hd : d.isAlpha = true := by simpa using hletter _ hw
  rw [word, after?_eq_none, Option.bind_none]
  rintro c hc rfl
  rw [h c hc] at hd
  cases hd

/-- A keyword is read as it was laid out. -/
theorem word_of_lays {w : Token} (hw : w ∈ keywords) (h : Lays (w :: more) cs) :
    ∃ gap rest, word w cs = some ((), gap ++ rest) ∧ (∀ c ∈ gap, isSpace c = true) ∧
      Lays more rest ∧ rest.length < cs.length := by
  obtain ⟨gap, rest, rfl, hne, hgap, hapart, hrest⟩ := h.uncons
  have hstop := hapart.not_runsOn hne fun c hc =>
    runsOn_of_mem_identifier (isIdentifier_of_mem_keywords hw) hc
  refine ⟨gap, rest, ?_, hgap, hrest, ?_⟩
  · rw [word, after?_append, Option.bind_some, atWordEnd_of_not_runsOn hstop]
    rfl
  · have := List.length_pos_iff.mpr hne
    simp only [List.length_append]
    omega

/-- Other keywords are not read where one is laid out. -/
theorem word_eq_none_of_lays {w v : Token} (hw : w ∈ keywords) (hv : v ∈ keywords) (hne : v ≠ w)
    (h : Lays (v :: more) cs) : word w cs = none := by
  have hid := isIdentifier_of_mem_keywords hv
  have hdollar : ∀ v ∈ keywords, ∀ w ∈ keywords, ¬ w ++ ['$'] <+: v := by decide
  obtain ⟨gap, rest, rfl, hnil, -, hapart, -⟩ := h.uncons
  exact word_eq_none hw hid hne (hdollar v hv w hw)
    (hapart.not_runsOn hnil fun c hc => runsOn_of_mem_identifier hid hc)

/-! ## 6. Qualifiers and built-in words

A choice among several keywords takes the one that was laid out, since all others fail there. A
row of them ends where none is read, which the caller has to know of what follows. -/

theorem mem_keywords_of_qualifier {w : Token} (hw : w ∈ qualifierWords) : w ∈ keywords :=
  List.mem_append_left _ hw

theorem mem_keywords_of_vocabulary {w : String} (hw : w ∈ Builtin.vocabulary) :
    w.toList ∈ keywords :=
  List.mem_append_right _ (List.mem_map_of_mem hw)

/-- A qualifier is found among the qualifiers. -/
theorem qualifier_of_lays {w : Token} (hw : w ∈ qualifierWords) (h : Lays (w :: more) cs) :
    ∃ gap rest, qualifier cs = some ((), gap ++ rest) ∧ (∀ c ∈ gap, isSpace c = true) ∧
      Lays more rest ∧ rest.length < cs.length := by
  obtain ⟨gap, rest, hword, hrest⟩ := word_of_lays (mem_keywords_of_qualifier hw) h
  refine ⟨gap, rest, ?_, hrest⟩
  simp only [qualifierWords, List.mem_cons, List.not_mem_nil, or_false] at hw
  rcases hw with rfl | rfl
  · rw [qualifier, orElse, hword]
  · have hother : word "const".toList cs = none :=
      word_eq_none_of_lays (by decide) (by decide) (by decide) h
    rw [qualifier, orElse, hother]
    exact hword

/-- It is read with the spaces behind it. -/
theorem qualifierToken_reads {w : Token} (hw : w ∈ qualifierWords) (h : Lays (w :: more) cs) :
    Reads qualifierToken cs () more := by
  obtain ⟨gap, rest, hq, hgap, hrest, hlt⟩ := qualifier_of_lays hw h
  refine ⟨rest, ?_, hrest, hlt⟩
  simp only [qualifierToken, hq, Option.map_some, hrest.skipSpaces_append hgap]

theorem qualifier_eq_none (h : ∀ w ∈ qualifierWords, word w cs = none) : qualifier cs = none := by
  rw [qualifier, orElse, h _ List.mem_cons_self]
  exact h _ (List.mem_cons_of_mem _ List.mem_cons_self)

theorem qualifierToken_eq_none (h : ∀ w ∈ qualifierWords, word w cs = none) :
    qualifierToken cs = none := by
  rw [qualifierToken, qualifier_eq_none h, Option.map_none]

/-- Qualifiers are read one after the other. -/
theorem many_qualifierToken {qualifiers : List Token} (hq : ∀ q ∈ qualifiers, q ∈ qualifierWords)
    (h : Lays (qualifiers ++ more) cs)
    (hstop : ∀ rest, Lays more rest → ∀ w ∈ qualifierWords, word w rest = none) :
    ∃ units rest, many qualifierToken cs = (units, rest) ∧ Lays more rest ∧
      rest.length ≤ cs.length := by
  induction qualifiers generalizing cs with
  | nil => exact ⟨[], cs, many_eq_nil (qualifierToken_eq_none (hstop cs h)), h, Nat.le_refl _⟩
  | cons q qs ih =>
    obtain ⟨rest, hread, hrest, hlt⟩ := qualifierToken_reads (hq q List.mem_cons_self) h
    obtain ⟨units, rest', hmany, hrest', hle⟩ :=
      ih (fun q hq' => hq q (List.mem_cons_of_mem _ hq')) hrest
    refine ⟨() :: units, rest', ?_, hrest', by omega⟩
    rw [many_eq_cons hread hlt, hmany]

/-- The first that succeeds is the only one that does. -/
theorem findSome?_eq_of_mem {α β : Type} {f : α → Option β} {l : List α} {a : α} {b : β}
    (ha : a ∈ l) (hfa : f a = some b) (hother : ∀ x ∈ l, x ≠ a → f x = none) :
    l.findSome? f = some b := by
  induction l with
  | nil => cases ha
  | cons x l ih =>
    by_cases hx : x = a
    · rw [List.findSome?_cons, hx, hfa]
    · rw [List.findSome?_cons, hother x List.mem_cons_self hx]
      exact ih ((List.mem_cons.mp ha).resolve_left (Ne.symm hx))
        fun y hy => hother y (List.mem_cons_of_mem _ hy)

/-- A built-in word is found in the vocabulary. -/
theorem builtinWord_reads {w : String} (hw : w ∈ Builtin.vocabulary)
    (h : Lays (w.toList :: more) cs) : Reads builtinWord cs w more := by
  obtain ⟨gap, rest, hword, hgap, hrest, hlt⟩ := word_of_lays (mem_keywords_of_vocabulary hw) h
  refine ⟨rest, ?_, hrest, hlt⟩
  refine findSome?_eq_of_mem hw ?_ fun x hx hne => ?_
  · simp only [hword, Option.map_some, hrest.skipSpaces_append hgap]
  · have hnone : word x.toList cs = none :=
      word_eq_none_of_lays (mem_keywords_of_vocabulary hx) (mem_keywords_of_vocabulary hw)
        (fun he => hne (String.toList_injective he).symm) h
    rw [hnone, Option.map_none]

theorem builtinWord_eq_none (h : ∀ w ∈ Builtin.vocabulary, word w.toList cs = none) :
    builtinWord cs = none := by
  refine List.findSome?_eq_none_iff.mpr fun w hw => ?_
  rw [h w hw, Option.map_none]

/-- Built-in words are read one after the other. -/
theorem many_builtinWord {words : List String} (hw : ∀ w ∈ words, w ∈ Builtin.vocabulary)
    (h : Lays (words.map String.toList ++ more) cs)
    (hstop : ∀ rest, Lays more rest → ∀ w ∈ Builtin.vocabulary, word w.toList rest = none) :
    ∃ rest, many builtinWord cs = (words, rest) ∧ Lays more rest ∧
      rest.length + words.length ≤ cs.length := by
  induction words generalizing cs with
  | nil => exact ⟨cs, many_eq_nil (builtinWord_eq_none (hstop cs h)), h, by simp⟩
  | cons w ws ih =>
    obtain ⟨rest, hread, hrest, hlt⟩ := builtinWord_reads (hw w List.mem_cons_self) h
    obtain ⟨rest', hmany, hrest', hle⟩ :=
      ih (fun w hw' => hw w (List.mem_cons_of_mem _ hw')) hrest
    refine ⟨rest', ?_, hrest', by simp only [List.length_cons]; omega⟩
    rw [many_eq_cons hread hlt, hmany]

/-! ## 7. Names

The name of a segment is an identifier or one of the special names, which begin with a mark. The
special ones are tried first. -/

/-- No special name begins like an identifier. -/
theorem special_eq_none (h : ∀ c ∈ cs.head?, isNameStart c = true) : special cs = none := by
  have hexact (text : List Char) (ht : text.head? = some '(') : exactly text cs = none := by
    obtain ⟨ts, rfl⟩ : ∃ ts, text = '(' :: ts := by
      cases text with
      | nil => cases ht
      | cons t ts => exact ⟨ts, by cases ht; rfl⟩
    rw [exactly, after?_eq_none, Option.map_none]
    rintro c hc rfl
    exact absurd (h _ hc) (by decide)
  have hangled : angled cs = none := by
    cases cs with
    | nil => rfl
    | cons c cs =>
      have hc : c ≠ '<' := by
        rintro rfl
        exact absurd (h _ rfl) (by decide)
      unfold angled
      split
      · rename_i heq
        exact absurd (List.cons.inj heq).1 hc
      · rfl
  rw [special, orElse, hexact _ (by decide), orElse, hexact _ (by decide)]
  exact hangled

/-- An identifier is read up to where nothing runs on. -/
theorem name_of_identifier {n : List Char} (hn : isIdentifier n = true)
    (hrest : ∀ c ∈ rest.head?, runsOn c = false) : name (n ++ rest) = some (n, rest) := by
  cases n with
  | nil => cases hn
  | cons c cs =>
    simp only [isIdentifier, Bool.and_eq_true, List.all_eq_true] at hn
    have hstop : ∀ d ∈ rest.head?, isNameChar d = false := by
      intro d hd
      by_contra hchar
      rw [Bool.not_eq_false] at hchar
      exact absurd (runsOn_of_isNameChar hchar) (by simp [hrest d hd])
    obtain ⟨htake, hdrop⟩ := takeWhile_eq_of_head hn.2 hstop
    have hspecial : special (c :: cs ++ rest) = none := special_eq_none (by simpa using hn.1)
    rw [name, orElse, hspecial, List.cons_append, identifier, if_pos hn.1, htake, hdrop]

/-- A name in angle brackets is read up to the closing one. -/
theorem angled_append {inner : List Char} (rest : List Char) (hne : inner ≠ [])
    (hinner : ∀ c ∈ inner, isSpecialChar c = true) :
    angled ('<' :: (inner ++ '>' :: rest)) = some ('<' :: inner ++ ['>'], rest) := by
  obtain ⟨htake, hdrop⟩ := takeWhile_eq_of_head (r := '>' :: rest) hinner (by simp; decide)
  rw [angled, htake, hdrop]
  cases inner with
  | nil => exact absurd rfl hne
  | cons c cs => rfl

/-- A special name is read wherever it stands. -/
theorem name_of_special {n : List Char} (hn : isSpecial n = true) :
    name (n ++ rest) = some (n, rest) := by
  suffices hspecial : special (n ++ rest) = some (n, rest) by rw [name, orElse, hspecial]
  rcases isSpecial_cases hn with rfl | rfl | ⟨inner, hne, hall, rfl⟩
  · rw [special, orElse, exactly, after?_append, Option.map_some]
  · have hother : exactly "(anonymous namespace)".toList ("(anon namespace)".toList ++ rest) =
        none := rfl
    rw [special, orElse, hother, orElse, exactly, after?_append, Option.map_some]
  · have hangled := angled_append rest hne hall
    rw [List.append_cons, ← List.cons_append, ← List.cons_append] at hangled
    have hexact (text : List Char) (ht : text.head? = some '(') :
        exactly text ('<' :: inner ++ ['>'] ++ rest) = none := by
      obtain ⟨ts, rfl⟩ := List.head?_eq_some_iff.mp ht
      rw [exactly, List.cons_append, List.cons_append, after?_eq_none (by simp), Option.map_none]
    rw [special, orElse, hexact _ (by decide), orElse, hexact _ (by decide)]
    exact hangled

/-- The name of a segment is read where it was laid out. -/
theorem name_of_lays {n : Token} (hn : isSegmentName n = true) (h : Lays (n :: more) cs) :
    ∃ gap rest, name cs = some (n, gap ++ rest) ∧ (∀ c ∈ gap, isSpace c = true) ∧
      Lays more rest ∧ rest.length < cs.length := by
  obtain ⟨gap, rest, rfl, hne, hgap, hapart, hrest⟩ := h.uncons
  refine ⟨gap, rest, ?_, hgap, hrest, ?_⟩
  · rcases Bool.or_eq_true _ _ |>.mp hn with hn | hn
    · exact name_of_identifier hn
        (hapart.not_runsOn hne fun c hc => runsOn_of_mem_identifier hn hc)
    · exact name_of_special hn
  · have := List.length_pos_iff.mpr hne
    simp only [List.length_append]
    omega

/-! ## 8. Numbers

A number is written in base ten, with its sign in front. Read back, its digits give its value;
with more digits than are allowed it is read as improper, and the name it stands in with it. -/

/-- Digits of a positive number do not begin with zero, so no number is refused for that. -/
theorem head?_toDigits {n : Nat} (hn : 0 < n) : (Nat.toDigits 10 n).head? ≠ some '0' := by
  induction n using Nat.strongRecOn with
  | ind n ih =>
    by_cases hlt : n < 10
    · have hdigit : ∀ n < 10, 0 < n → [Nat.digitChar n].head? ≠ some '0' := by decide
      rw [Nat.toDigits_of_lt_base hlt]
      exact hdigit n hlt hn
    · rw [Nat.toDigits_of_base_le (by decide) (by omega), List.head?_append_of_ne_nil _
        Nat.toDigits_ne_nil]
      exact ih (n / 10) (by omega) (by omega)

/-- Digits give the value back unless there are too many of them. -/
theorem decimalValue_toDigits (n : Nat) :
    decimalValue (Nat.toDigits 10 n) = if Text.isWritable n then some n else none := by
  have hwritable : Text.isWritable n = decide ((Nat.toDigits 10 n).length ≤ mostDigits) := by
    have hlength : (Nat.toDigits 10 n).length ≤ mostDigits ↔ n < 10 ^ mostDigits :=
      Nat.length_toDigits_le_iff (by decide) (by decide)
    rw [Text.isWritable, Int.natAbs_natCast, Nat.pow_eq, decide_eq_decide, hlength]
  have hlead : ((Nat.toDigits 10 n).length > 1 && (Nat.toDigits 10 n).head? == some '0' &&
      !(Nat.toDigits 10 n).all (· == '0')) = false := by
    by_cases hn : n = 0
    · rw [hn]
      decide
    · have := head?_toDigits (Nat.pos_of_ne_zero hn)
      simp [this]
  rw [decimalValue, hlead, hwritable, Nat.ofDigitChars_toDigits (by decide) (by decide)]
  by_cases hlen : (Nat.toDigits 10 n).length ≤ mostDigits
  · simp [hlen]
  · simp [hlen, Nat.lt_of_not_le hlen]

/-- The digits are digits. -/
theorem isDigit_of_mem {n : Nat} : ∀ c ∈ Nat.toDigits 10 n, c.isDigit = true :=
  fun _ => Nat.isDigit_of_mem_toDigits (by decide) (by decide)

/-- No number in base sixteen begins in front of decimal digits. -/
theorem hexDigits_toDigits (n : Nat) (hrest : ∀ c ∈ rest.head?, runsOn c = false) :
    hexDigits (Nat.toDigits 10 n ++ rest) = none := by
  by_cases hn : n = 0
  · rw [hn]
    show hexDigits ('0' :: rest) = none
    cases rest with
    | nil => rfl
    | cons x rest =>
      have hx : x ≠ 'x' ∧ x ≠ 'X' := by
        constructor <;> rintro rfl <;> exact absurd (hrest _ rfl) (by decide)
      simp [hexDigits, hx.1, hx.2]
  · have hhead := head?_toDigits (Nat.pos_of_ne_zero hn)
    unfold hexDigits
    split
    · rename_i heq
      rw [← List.head?_append_of_ne_nil (Nat.toDigits 10 n) Nat.toDigits_ne_nil, heq] at hhead
      exact absurd rfl hhead
    · rfl

/-- The digits of a number are read to their end. -/
theorem magnitude_append (n : Nat) (hrest : ∀ c ∈ rest.head?, runsOn c = false) :
    magnitude (Nat.toDigits 10 n ++ rest) =
      some (if Text.isWritable n then some n else none, rest) := by
  have hdigit : ∀ c ∈ rest.head?, c.isDigit = false := by
    intro c hc
    by_contra hd
    rw [Bool.not_eq_false] at hd
    exact absurd (runsOn_of_isDigit hd) (by simp [hrest c hc])
  obtain ⟨htake, hdrop⟩ := takeWhile_eq_of_head isDigit_of_mem hdigit
  rw [magnitude, hexDigits_toDigits n hrest, decimalDigits, htake, hdrop, decimalValue_toDigits]
  simp [Nat.toDigits_ne_nil]

/-- Without a sign in front nothing is taken. -/
theorem signFactor_eq_self (h : ∀ c ∈ cs.head?, c ≠ '-' ∧ c ≠ '+') : signFactor cs = (1, cs) := by
  unfold signFactor
  split
  · exact absurd rfl (h _ rfl).1
  · exact absurd rfl (h _ rfl).2
  · rfl

/-- A number is read as it was written, and is improper if it has too many digits. -/
theorem number_append (n : Int) (hrest : ∀ c ∈ rest.head?, runsOn c = false) :
    number (Suffix.spellInt n ++ rest) =
      some (Option.guard Text.isWritable n, skipSpaces rest) := by
  have hsuffix : rest.dropWhile isNumberSuffix = rest := by
    refine (takeWhile_eq_of_head (l := []) (by simp) fun c hc => ?_).2
    by_contra hs
    simp only [isNumberSuffix, Bool.not_eq_false, Bool.or_eq_true, beq_iff_eq] at hs
    rcases hs with ((rfl | rfl) | rfl) | rfl <;> exact absurd (hrest _ hc) (by decide)
  have hwritable : Text.isWritable (n.natAbs : Int) = Text.isWritable n := by
    rw [Text.isWritable, Text.isWritable, Int.natAbs_natCast]
  by_cases hn : n < 0
  · rw [Suffix.spellInt, if_pos hn, List.cons_append]
    have hvalue : -1 * (n.natAbs : Int) = n := by omega
    simp only [number, signFactor, magnitude_append _ hrest, hwritable, Option.map_some, hsuffix]
    cases hw : Text.isWritable n with
    | false => simp [Option.guard, hw]
    | true =>
      simp only [Option.guard, hw]
      exact congrArg (fun m => some (some m, skipSpaces rest)) hvalue
  · have hsign : signFactor (Nat.toDigits 10 n.natAbs ++ rest) =
        (1, Nat.toDigits 10 n.natAbs ++ rest) := by
      refine signFactor_eq_self fun c hc => ?_
      rw [List.head?_append_of_ne_nil _ Nat.toDigits_ne_nil] at hc
      have hdigit := isDigit_of_mem c (List.mem_of_head? hc)
      constructor <;> rintro rfl <;> exact absurd hdigit (by decide)
    rw [Suffix.spellInt, if_neg hn]
    have hvalue : (n.natAbs : Int) = n := by omega
    simp only [number, hsign, magnitude_append _ hrest, hwritable, Option.map_some, hsuffix]
    cases hw : Text.isWritable n <;> simp [Option.guard, hw, hvalue]

/-- A number ends with a digit, so it runs on. -/
theorem getLast?_spellInt (n : Int) : ∃ c ∈ (Suffix.spellInt n).getLast?, runsOn c = true := by
  have hne : Nat.toDigits 10 n.natAbs ≠ [] := Nat.toDigits_ne_nil
  refine ⟨(Nat.toDigits 10 n.natAbs).getLast hne, ?_,
    runsOn_of_isDigit (isDigit_of_mem _ (List.getLast_mem hne))⟩
  rw [Suffix.spellInt]
  split
  · rw [List.getLast?_cons_of_ne_nil hne]
    exact List.getLast?_eq_some_getLast hne
  · exact List.getLast?_eq_some_getLast hne

/-- A number is read as it was laid out. -/
theorem number_reads {n : Int} (h : Lays (Suffix.spellInt n :: more) cs) :
    Reads number cs (Option.guard Text.isWritable n) more := by
  obtain ⟨gap, rest, rfl, hne, hgap, hapart, hrest⟩ := h.uncons
  obtain ⟨c, hc, hrun⟩ := getLast?_spellInt n
  refine ⟨rest, ?_, hrest, ?_⟩
  · rw [number_append n (hapart.head?_stops hc hrun), hrest.skipSpaces_append hgap]
  · have := List.length_pos_iff.mpr hne
    simp only [List.length_append]
    omega

/-- No number begins with another character. -/
theorem number_eq_none (h : ∀ c ∈ cs.head?, (c.isDigit || c == '-' || c == '+') = false) :
    number cs = none := by
  have hsign : signFactor cs = (1, cs) := by
    refine signFactor_eq_self fun c hc => ?_
    have hc := h c hc
    simp only [Bool.or_eq_false_iff, beq_eq_false_iff_ne] at hc
    exact ⟨hc.1.2, hc.2⟩
  have hdigits : cs.takeWhile Char.isDigit = [] := by
    cases cs with
    | nil => rfl
    | cons c cs =>
      have hc := h c rfl
      simp only [Bool.or_eq_false_iff] at hc
      exact List.takeWhile_cons_of_neg (by simp [hc.1.1])
  have hhex : hexDigits cs = none := by
    unfold hexDigits
    split
    · exact absurd (h _ rfl) (by decide)
    · rfl
  simp only [number, hsign, magnitude, hhex, decimalDigits, hdigits]
  rfl

end Scanner

end NativeTypes
