/-
NativeTypes.Proofs.TypeName.Weighed — what tokens weigh, and what is lost when
they are read.

Spelling a name anew and reading it again comes to an end, and the question is
after how many steps. The length of the text is no measure for that: completing
the words of a built-in type makes a text longer. So it is weighed instead.

Reading a text drops what is not part of a name: scope marks in front, joined
references, qualifiers. What weighs is what can be dropped: the characters of
these marks, and the letter o, which both qualifiers have (`const`, `volatile`)
and which no word has that is filled in where a built-in type is completed
(`weight_ofWords`). The weight of a text then never goes up when it is read and
spelled again, and where it stays the same nothing was dropped, so that the new
spelling is one that reads back as it is.

Each scanner has one statement (`Spends`): what it reads weighs no more than
what it takes off the text. Off a tidy text, whose characters stand where those
of a spelling do, it reads only numbers that can be written (`sure`); and if no
weight is lost, then nothing was dropped (`kept`). These two are propositions
that each scanner fills in. The rules `Spends.trans`, `Spends.mono` and
`Spends.lose` put them together: in a row the weights add up, and where some
weight is lost nothing has to be shown of what is kept. That last rule is what
makes the cases short, since most ways to drop something lose weight at once.

Here are the statements for tokens, suffixes and rows; what they make up is in
`Settling`.
-/
import Mathlib.Algebra.Order.BigOperators.Group.List
import NativeTypes.Proofs.TypeName.Appended
import NativeTypes.Proofs.TypeName.Tidy

namespace NativeTypes

open NativeTypes.Text

/-! ## 1. Weights

How much the spelling of a name weighs, by the parts of the name. Commas, brackets and digits
weigh nothing. -/

/-- The characters of scope marks and references, and one letter of each qualifier. -/
def isHeavy (c : Char) : Bool := c == ':' || c == '&' || c == 'o'

/-- How many characters of a text weigh. -/
def weight (cs : List Char) : Nat := cs.countP isHeavy

@[simp] theorem weight_append (xs ys : List Char) : weight (xs ++ ys) = weight xs + weight ys :=
  List.countP_append

/-- There is no more weight than there are characters. -/
theorem weight_le_length (cs : List Char) : weight cs ≤ cs.length := List.countP_le_length

/-- Numbers weigh nothing. -/
theorem weight_spellInt (n : Int) : weight (Suffix.spellInt n) = 0 := by
  refine List.countP_eq_zero.mpr fun c hc hheavy => ?_
  simp only [isHeavy, Bool.or_eq_true, beq_iff_eq] at hheavy
  rcases eq_minus_or_isDigit_of_mem_spellInt hc with rfl | hdigit
  · simp at hheavy
  · rcases hheavy with (rfl | rfl) | rfl <;> cases hdigit

/-- Of the suffixes only references weigh. -/
theorem weight_suffixes (ss : List Suffix) :
    weight (ss.flatMap Suffix.spell) = ss.count .reference := by
  induction ss with
  | nil => rfl
  | cons s ss ih =>
    have hone : weight s.spell = if s = .reference then 1 else 0 := by
      rcases s with _ | _ | _ | n
      · decide
      · decide
      · decide
      · have hn := weight_spellInt n
        simp only [weight] at hn
        simp [weight, Suffix.spell, hn, isHeavy]
    rw [List.flatMap_cons, weight_append, ih, hone, List.count_cons, Nat.add_comm]
    simp

/-- Arguments weigh what each of them does. -/
theorem weight_arguments (as : List Argument) :
    weight (List.intercalate argumentMark (spellArguments as)) =
      (as.map fun a => weight a.spell).sum := by
  have hmark : weight argumentMark = 0 := rfl
  have hmore (as : List Argument) :
      weight ((spellArguments as).flatMap (argumentMark ++ ·)) =
        (as.map fun a => weight a.spell).sum := by
    induction as with
    | nil => rfl
    | cons a as ih => simp [spellArguments, ih, hmark]
  cases as with
  | nil => rfl
  | cons a as => simp [spellArguments, flatMap_intercalate, hmore]

/-- A template weighs what its name and its arguments do. -/
theorem weight_template (name : String) (as : List Argument) :
    weight (Segment.template name as).spell =
      weight name.toList + (as.map fun a => weight a.spell).sum := by
  have hopen (cs : List Char) : weight ('<' :: cs) = weight cs :=
    List.countP_cons_of_neg (by decide)
  have hclose : weight ['>'] = 0 := rfl
  rw [Segment.spell, weight_append, weight_append, hopen, weight_arguments, hclose, Nat.add_zero]

/-- A scope mark stands in front of each segment of a path but the first. -/
theorem weight_pathBase (first : Segment) (tail : List Segment) :
    weight (Scanner.pathBase first tail).spell =
      weight first.spell + (tail.map fun s => weight s.spell + 2).sum := by
  induction tail generalizing first with
  | nil => simp [Scanner.pathBase, BaseName.spell, spellSegments]
  | cons s ss ih =>
    have hs := ih s
    have hsegments := Scanner.segments_pathBase s ss
    have hmark : weight scopeMark = 2 := rfl
    rw [Scanner.pathBase]
    cases hpath : Scanner.pathBase s ss with
    | builtin type =>
      rw [hpath] at hsegments
      cases hsegments
    | path scopes last =>
      rw [hpath, BaseName.spell, intercalate_concat] at hs
      simp only [BaseName.spell, spellSegments, intercalate_concat, List.flatMap_cons,
        weight_append, List.map_cons, List.sum_cons] at hs ⊢
      omega

/-- In a list of words every `long` and every `double` has its own letter. -/
theorem count_le_weight (ws : List String) :
    ws.count "long" + ws.count "double" ≤ (ws.map fun w => weight w.toList).sum := by
  have hlong : weight "long".toList = 1 := rfl
  have hdouble : weight "double".toList = 1 := rfl
  induction ws with
  | nil => simp
  | cons w ws ih =>
    simp only [List.count_cons, List.map_cons, List.sum_cons, beq_iff_eq]
    split
    · rename_i h
      subst h
      rw [hlong, if_neg (by decide)]
      omega
    · split
      · rename_i h
        subst h
        simp only [hdouble]
        omega
      · omega

/-- Among the integer types the word `short` weighs one, and `long` does. -/
theorem weight_integer (unsigned short : Bool) (longs : Nat) :
    weight (Builtin.integer unsigned short longs).spelling.toList =
      if short then 1 else min longs 2 := by
  match unsigned, short, longs with
  | false, true, _ | true, true, _ =>
    simp only [Builtin.integer]
    rfl
  | false, false, 0 | true, false, 0 => rfl
  | false, false, 1 | true, false, 1 => rfl
  | false, false, n + 2 | true, false, n + 2 =>
    rw [if_neg (by decide), Nat.min_eq_right (Nat.le_add_left 2 n)]
    simp only [Builtin.integer]
    rfl

/-- Completing the words of a built-in type makes them no heavier. -/
theorem weight_ofWords (ws : List String) :
    weight (Builtin.ofWords ws).spelling.toList ≤ (ws.map fun w => weight w.toList).sum := by
  have hcount := count_le_weight ws
  have hmem {w : String} (hw : ws.contains w = true) :
      weight w.toList ≤ (ws.map fun w => weight w.toList).sum :=
    List.le_sum_of_mem (List.mem_map_of_mem (by simpa using hw))
  simp only [Builtin.ofWords]
  split
  · -- none of the three spellings of a character weighs anything
    split
    · exact Nat.zero_le _
    · split <;> exact Nat.zero_le _
  · split
    · rename_i hdouble
      split
      · exact hmem hdouble
      · have hpos : 0 < ws.count "double" := List.count_pos_iff.mpr (by simpa using hdouble)
        show 2 ≤ _
        omega
    · split
      · exact hmem ‹_›
      · split
        · exact hmem ‹_›
        · split
          · exact hmem ‹_›
          · split
            · exact Nat.zero_le _
            · rw [weight_integer]
              split
              · exact hmem ‹_›
              · omega

/-! ## 2. Reading without gain

The rules by which statements on scanners are put together. -/

/-- A scanner took a part off the front of a text. What it read there weighs `n`, which is no more
than what the part weighs. Off a tidy text it is `sure`, and if it weighs as much, it is `kept`. -/
structure Spends (cs rest : List Char) (n : Nat) (sure kept : Prop) : Prop where
  suffix : rest <:+ cs
  weight_le : n + weight rest ≤ weight cs
  sure : Tidy cs → sure
  kept : Tidy cs → n + weight rest = weight cs → kept

namespace Spends

variable {cs mid rest : List Char} {m n : Nat} {sure sure' kept kept' : Prop}

/-- One part behind the other. -/
theorem trans (h : Spends cs mid m sure kept) (h' : Spends mid rest n sure' kept') :
    Spends cs rest (m + n) (sure ∧ sure') (kept ∧ kept') where
  suffix := h'.suffix.trans h.suffix
  weight_le := by
    have := h.weight_le
    have := h'.weight_le
    omega
  sure ht := ⟨h.sure ht, h'.sure (ht.of_suffix h.suffix)⟩
  kept ht heq := by
    have hle := h.weight_le
    have hle' := h'.weight_le
    exact ⟨h.kept ht (by omega), h'.kept (ht.of_suffix h.suffix) (by omega)⟩

/-- Less weight and weaker promises. -/
theorem mono (h : Spends cs rest n sure kept) (hn : m ≤ n) (hsure : Tidy cs → sure → sure')
    (hkept : Tidy cs → kept → kept') : Spends cs rest m sure' kept' where
  suffix := h.suffix
  weight_le := Nat.le_trans (Nat.add_le_add_right hn _) h.weight_le
  sure ht := hsure ht (h.sure ht)
  kept ht heq := by
    have hle := h.weight_le
    exact hkept ht (h.kept ht (by omega))

/-- Where weight is lost, nothing has to be shown of what is kept. -/
theorem lose (h : Spends cs rest n sure kept) (hn : m < n) : Spends cs rest m sure kept' where
  suffix := h.suffix
  weight_le := by
    have := h.weight_le
    omega
  sure := h.sure
  kept ht heq := by
    have := h.weight_le
    omega

/-- What weighs has characters. -/
theorem shorter (h : Spends cs rest n sure kept) (hn : 0 < n) : rest.length < cs.length := by
  by_contra hlength
  have hle := h.weight_le
  rw [h.suffix.eq_of_length_le (Nat.le_of_not_lt hlength)] at hle
  omega

/-- Nothing was taken. -/
theorem nothing (cs : List Char) : Spends cs cs 0 True True :=
  ⟨List.suffix_rfl, by simp, fun _ => trivial, fun _ _ => trivial⟩

/-- A part that is read as it stands. -/
theorem part (xs rest : List Char) : Spends (xs ++ rest) rest (weight xs) True True :=
  ⟨List.suffix_append xs rest, by simp, fun _ => trivial, fun _ _ => trivial⟩

/-- A part that leaves no trace. -/
theorem dropped (h : rest <:+ cs) : Spends cs rest 0 True True := by
  obtain ⟨xs, rfl⟩ := h
  exact (part xs rest).mono (Nat.zero_le _) (fun _ => id) fun _ => id

/-- Spaces weigh nothing. -/
theorem spaces (cs : List Char) : Spends cs (skipSpaces cs) 0 True True :=
  dropped (List.dropWhile_suffix isSpace)

end Spends

/-! ## 3. Tokens

A token that is read stands in the text as it is, so it weighs there what it weighs. -/

namespace Scanner

variable {α : Type} {cs rest : List Char}

/-- A mark, with the spaces behind it. -/
theorem spends_token {text : List Char} {u : Unit} (h : token text cs = some (u, rest)) :
    Spends cs rest (weight text) True True := by
  obtain ⟨left, hafter, heq⟩ := Option.map_eq_some_iff.mp h
  cases heq
  rw [eq_append_of_after? hafter]
  exact ((Spends.part text left).trans (.spaces left)).mono (Nat.le_refl _) (fun _ _ => trivial)
    fun _ _ => trivial

/-- A single mark is the first character. -/
theorem eq_cons_of_token {c : Char} {u : Unit} (h : token [c] cs = some (u, rest)) :
    ∃ behind, cs = c :: behind ∧ rest = skipSpaces behind := by
  obtain ⟨left, hafter, heq⟩ := Option.map_eq_some_iff.mp h
  cases heq
  exact ⟨left, eq_append_of_after? hafter, rfl⟩

/-- A keyword stands in front. -/
theorem eq_append_of_word {w : List Char} {u : Unit} (h : word w cs = some (u, rest)) :
    cs = w ++ rest := by
  obtain ⟨left, hafter, hend⟩ := Option.bind_eq_some_iff.mp h
  split at hend
  · cases hend
    exact eq_append_of_after? hafter
  · cases hend

/-- A qualifier weighs. -/
theorem spends_qualifier {u : Unit} (h : qualifier cs = some (u, rest)) :
    Spends cs rest 1 True True := by
  have hweight : ∀ w ∈ qualifierWords, weight w = 1 := by decide
  suffices hword : ∃ w ∈ qualifierWords, cs = w ++ rest by
    obtain ⟨w, hw, rfl⟩ := hword
    exact hweight w hw ▸ Spends.part w rest
  unfold qualifier orElse at h
  split at h
  · rename_i hconst
    cases h
    exact ⟨_, List.mem_cons_self, eq_append_of_word hconst⟩
  · exact ⟨_, List.mem_cons_of_mem _ List.mem_cons_self, eq_append_of_word h⟩

/-- So does one with the spaces behind it. -/
theorem spends_qualifierToken {u : Unit} (h : qualifierToken cs = some (u, rest)) :
    Spends cs rest 1 True True := by
  obtain ⟨left, hqualifier, heq⟩ := Option.map_eq_some_iff.mp h
  cases heq
  exact ((spends_qualifier hqualifier).trans (.spaces left.2)).mono (Nat.le_refl _)
    (fun _ _ => trivial) fun _ _ => trivial

/-- Qualifiers leave no trace, and behind them no other one follows. -/
theorem spends_qualifiers (cs : List Char) :
    Spends cs (many qualifierToken cs).2 0 True True ∧
      qualifierToken (many qualifierToken cs).2 = none := by
  fun_induction many qualifierToken cs with
  | case1 cs hnone => exact ⟨.nothing cs, hnone⟩
  | case2 cs u rest hread hlt us left hmany ih =>
    rw [hmany] at ih
    exact ⟨.dropped (ih.1.suffix.trans (spends_qualifierToken hread).suffix), ih.2⟩
  | case3 cs u rest hread hle =>
    exact absurd ((spends_qualifierToken hread).shorter (Nat.succ_pos 0)) hle

/-- A built-in word weighs its letters. -/
theorem spends_builtinWord {w : String} (h : builtinWord cs = some (w, rest)) :
    Spends cs rest (weight w.toList) True True ∧ rest.length < cs.length := by
  have hlength : ∀ w ∈ Builtin.vocabulary, 0 < w.toList.length := by decide
  obtain ⟨v, hv, hword⟩ := List.exists_of_findSome?_eq_some h
  obtain ⟨⟨_, left⟩, hread, heq⟩ := Option.map_eq_some_iff.mp hword
  cases heq
  obtain rfl := eq_append_of_word hread
  have hspaces := (Spends.spaces left).suffix.length_le
  have hpos := hlength w hv
  refine ⟨((Spends.part w.toList left).trans (.spaces left)).mono (Nat.le_refl _)
    (fun _ _ => trivial) fun _ _ => trivial, ?_⟩
  rw [List.length_append]
  omega

/-- A row of built-in words weighs what they do together. -/
theorem spends_builtinWords (cs : List Char) :
    Spends cs (many builtinWord cs).2
      ((many builtinWord cs).1.map fun w => weight w.toList).sum True True := by
  fun_induction many builtinWord cs with
  | case1 cs hnone => exact .nothing cs
  | case2 cs w rest hread hlt ws left hmany ih =>
    rw [hmany] at ih
    exact ((spends_builtinWord hread).1.trans ih).mono (Nat.le_refl _) (fun _ _ => trivial)
      fun _ _ => trivial
  | case3 cs w rest hread hle => exact .nothing cs

/-- A built-in type weighs no more than the words that it was read from. -/
theorem spends_builtin {b : Option BaseName} (h : builtin cs = some (b, rest)) :
    ∃ type, b = some (.builtin type) ∧
      Spends cs rest (weight type.spelling.toList) True True := by
  have hwords := spends_builtinWords cs
  unfold builtin at h
  split at h
  · cases h
  · rename_i ws left hne hmany
    cases h
    rw [hmany] at hwords
    exact ⟨_, rfl, hwords.mono (weight_ofWords ws) (fun _ => id) fun _ => id⟩

/-! ## 4. Names and numbers

Names stand in the text as they are; numbers may stand there in another base or with more digits. -/

/-- A name in angle brackets stands in front. -/
theorem eq_append_of_angled {n : List Char} (h : angled cs = some (n, rest)) : cs = n ++ rest := by
  unfold angled at h
  split at h
  · rename_i cs
    split at h
    · cases h
    · rename_i hdrop hne
      cases h
      rw [List.cons_append, List.cons_append, List.append_assoc, List.singleton_append, ← hdrop,
        List.takeWhile_append_dropWhile]
    · cases h
  · cases h

/-- So does any other special name. -/
theorem eq_append_of_special {n : List Char} (h : special cs = some (n, rest)) :
    cs = n ++ rest := by
  have hexactly {text : List Char} (h : exactly text cs = some (n, rest)) : cs = n ++ rest := by
    obtain ⟨left, hafter, heq⟩ := Option.map_eq_some_iff.mp h
    cases heq
    exact eq_append_of_after? hafter
  unfold special orElse at h
  split at h
  · rename_i hfirst
    cases h
    exact hexactly hfirst
  · split at h
    · rename_i hsecond
      cases h
      exact hexactly hsecond
    · exact eq_append_of_angled h

/-- An identifier does, up to where it ends. -/
theorem eq_append_of_identifier {n : List Char} (h : identifier cs = some (n, rest)) :
    cs = n ++ rest ∧ ∀ c ∈ rest.head?, isNameChar c = false := by
  cases cs with
  | nil => cases h
  | cons c cs =>
    rw [identifier] at h
    split at h
    · cases h
      refine ⟨by rw [List.cons_append, List.takeWhile_append_dropWhile], fun d hd => ?_⟩
      have hstop := List.head?_dropWhile_not isNameChar cs
      rw [hd] at hstop
      exact hstop
    · cases h

/-- So the name of a segment does. -/
theorem eq_append_of_name {n : List Char} (h : name cs = some (n, rest)) : cs = n ++ rest := by
  unfold name orElse at h
  split at h
  · rename_i hspecial
    cases h
    exact eq_append_of_special hspecial
  · exact (eq_append_of_identifier h).1

/-- So many decimal digits have a value below the power of ten. -/
theorem ofDigitChars_lt {ds : List Char} (hdigits : ∀ c ∈ ds, c.isDigit = true) (n : Nat) :
    Nat.ofDigitChars 10 ds n < 10 ^ ds.length * (n + 1) := by
  induction ds generalizing n with
  | nil => simp [Nat.ofDigitChars_nil]
  | cons d ds ih =>
    have hd : d.toNat - '0'.toNat ≤ 9 := by
      have hle : d.val ≤ '9'.val :=
        of_decide_eq_true (Bool.and_eq_true_iff.mp (hdigits d List.mem_cons_self)).2
      exact Nat.sub_le_sub_right (UInt32.le_iff_toNat_le.mp hle) _
    rw [Nat.ofDigitChars_cons, List.length_cons]
    calc
      Nat.ofDigitChars 10 ds (10 * n + (d.toNat - '0'.toNat))
        < 10 ^ ds.length * (10 * n + (d.toNat - '0'.toNat) + 1) :=
          ih (fun c hc => hdigits c (List.mem_cons_of_mem d hc)) _
      _ ≤ 10 ^ ds.length * (10 * (n + 1)) := Nat.mul_le_mul_left _ (by omega)
      _ = 10 ^ (ds.length + 1) * (n + 1) := by rw [Nat.pow_succ, Nat.mul_assoc]

/-- What is read in decimal can be written in decimal. -/
theorem lt_of_decimalValue {ds : List Char} {n : Nat}
    (hdigits : ∀ c ∈ ds, c.isDigit = true) (h : decimalValue ds = some n) :
    n < 10 ^ mostDigits := by
  unfold decimalValue at h
  split at h
  · cases h
  · rename_i hlength
    split at h
    · cases h
    · cases h
      calc
        Nat.ofDigitChars 10 ds 0 < 10 ^ ds.length * (0 + 1) := ofDigitChars_lt hdigits 0
        _ = 10 ^ ds.length := Nat.mul_one _
        _ ≤ 10 ^ mostDigits := Nat.pow_le_pow_right (by decide) (Nat.le_of_not_lt hlength)

/-- What is left behind digits is the end of the text. -/
theorem suffix_magnitude {value : Option Nat} (h : magnitude cs = some (value, rest)) :
    rest <:+ cs := by
  unfold magnitude at h
  split at h
  · rename_i hhex
    cases h
    unfold hexDigits at hhex
    split at hhex
    · split at hhex
      · cases hhex
        exact ((List.dropWhile_suffix _).trans (List.suffix_cons _ _)).trans (List.suffix_cons _ _)
      · cases hhex
    · cases hhex
  · unfold decimalDigits at h
    split at h
    · cases h
    · cases h
      exact List.dropWhile_suffix _

/-- Digits that are not in base sixteen are decimal. -/
theorem lt_of_magnitude {m : Nat} (hhex : hexDigits cs = none)
    (h : magnitude cs = some (some m, rest)) : m < 10 ^ mostDigits := by
  rw [magnitude, hhex] at h
  simp only [decimalDigits] at h
  split at h
  · cases h
  · exact lt_of_decimalValue (List.all_eq_true.mp List.all_takeWhile)
      (Prod.mk.inj (Option.some.inj h)).1

/-- A number that is not in base sixteen can be written. -/
theorem spends_number {n : Int} (h : number cs = some (some n, rest)) :
    Spends cs rest 0 (beginsHex cs = false → Text.isWritable n = true) True := by
  simp only [number, Option.map_eq_some_iff, Prod.exists, Prod.mk.injEq] at h
  obtain ⟨value, left, hmagnitude, hvalue, rfl⟩ := h
  have hsign : (signFactor cs).2 <:+ cs ∧ (signFactor cs).1.natAbs = 1 := by
    unfold signFactor
    split
    · exact ⟨List.suffix_cons _ _, rfl⟩
    · exact ⟨List.suffix_cons _ _, rfl⟩
    · exact ⟨List.suffix_rfl, rfl⟩
  have hdropped := Spends.dropped ((((List.dropWhile_suffix isSpace).trans
    (List.dropWhile_suffix isNumberSuffix)).trans (suffix_magnitude hmagnitude)).trans hsign.1)
  refine hdropped.mono (Nat.le_refl _) (fun _ _ hhex => ?_) fun _ _ => trivial
  cases value with
  | none => simp at hvalue
  | some m =>
    obtain rfl : (signFactor cs).1 * (m : Int) = n := by simpa using hvalue
    have hpow (k : Nat) : Nat.pow 10 k = 10 ^ k := rfl
    rw [Text.isWritable, decide_eq_true_iff, Int.natAbs_mul, hsign.2, Int.natAbs_natCast,
      Nat.one_mul, hpow]
    exact lt_of_magnitude (by simpa [beginsHex] using hhex) hmagnitude

/-! ## 5. Repetition

A row of values, each of which spends. What can be said of one value may depend on whether a
further one follows. -/

/-- What holds at the end of a row or at the beginning of a value holds in front of the row. -/
theorem next_of_many {p : Scanner (Option α)} {q : List Char → Prop}
    (hnext : ∀ {cs r}, p cs = some r → q cs) (h : q (many p cs).2) : q cs := by
  cases hread : p cs with
  | none => rwa [many_eq_nil hread] at h
  | some r => exact hnext hread

/-- Repeating a scanner that weighs what it reads. What follows a value may be known to be the
beginning of the next one, or the end of the row. -/
theorem spends_many {p : Scanner (Option α)} {n : α → Nat} {sure kept : α → Prop}
    {q : List Char → Prop}
    (hp : ∀ {cs rest a}, p cs = some (some a, rest) →
      Spends cs rest (n a) (sure a) (q rest → kept a))
    (hnext : ∀ {cs r}, p cs = some r → q cs) {as : List α}
    (h : allSome (many p cs).1 = some as) :
    Spends cs (many p cs).2 (as.map n).sum (∀ a ∈ as, sure a)
      (q (many p cs).2 → ∀ a ∈ as, kept a) := by
  induction cs using many.induct p generalizing as with
  | case1 cs hnone =>
    rw [many_eq_nil hnone] at h ⊢
    cases h
    exact (Spends.nothing cs).mono (Nat.le_refl _) (by simp) (by simp)
  | case2 cs a rest hread hlt _ _ _ ih =>
    rw [many_eq_cons hread hlt] at h ⊢
    cases a with
    | none => cases h
    | some a =>
      obtain ⟨as, has, rfl⟩ := Option.map_eq_some_iff.mp h
      refine ((hp hread).trans (ih has)).mono (by simp) (fun _ hsure => ?_) fun _ hkept hend => ?_
      · simpa using hsure
      · have hfirst := hkept.1 (next_of_many hnext hend)
        simpa [hfirst] using hkept.2 hend
  | case3 cs a rest hread hle =>
    rw [many, hread] at h ⊢
    simp only [if_neg hle] at h ⊢
    cases h
    exact (Spends.nothing cs).mono (Nat.le_refl _) (by simp) (by simp)

/-! ## 6. Suffixes

The only suffixes that weigh are references, and reading them is where weight may be lost. -/

/-- The length of an array is decimal in a tidy text. -/
theorem spends_brackets {s : Suffix} (h : brackets cs = some (some s, rest)) :
    Spends cs rest 0 (s.isWritable = true) True ∧ s ≠ .reference := by
  obtain ⟨⟨_, start⟩, hopen, h⟩ := Option.bind_eq_some_iff.mp h
  obtain ⟨behind, rfl, rfl⟩ := eq_cons_of_token hopen
  have hstart := spends_token hopen
  have hclose {left : List Char} (h : after? [']'] left = some rest) :
      Spends left rest 0 True True := by
    rw [eq_append_of_after? h]
    exact .dropped (List.suffix_append _ _)
  simp only at h
  split at h
  · rename_i value left hnumber
    obtain ⟨_, hafter, heq⟩ := Option.map_eq_some_iff.mp h
    obtain ⟨hvalue, rfl⟩ := Prod.mk.inj heq
    obtain ⟨n, rfl, rfl⟩ := Option.map_eq_some_iff.mp hvalue
    refine ⟨((hstart.trans (spends_number hnumber)).trans (hclose hafter)).mono (Nat.zero_le _)
      (fun ht hsure => hsure.1.2 (ht.decimal (by simp))) fun _ _ => trivial, by simp⟩
  · obtain ⟨_, hafter, heq⟩ := Option.map_eq_some_iff.mp h
    cases heq
    exact ⟨(hstart.trans (hclose hafter)).mono (Nat.zero_le _) (fun _ _ => rfl)
      fun _ _ => trivial, by simp⟩

/-- One suffix was read, and if that is the mark of a reference, then no other one stands behind. -/
def ReadsOne (cs rest : List Char) (ss : List Suffix) : Prop :=
  ∃ s, ss = [s] ∧ (s = .reference → cs.head? = some '&' ∧ rest.head? ≠ some '&')

/-- A suffix that is no reference is one. -/
theorem readsOne_of_ne {s : Suffix} (h : s ≠ .reference) : ReadsOne cs rest [s] :=
  ⟨s, rfl, fun hs => absurd hs h⟩

/-- Two marks of references are read as one. -/
theorem spends_references {ss : List Suffix} (h : suffix ('&' :: cs) = some (some ss, rest)) :
    Spends ('&' :: cs) rest (ss.count .reference) (∀ s ∈ ss, s.isWritable = true)
      (ReadsOne ('&' :: cs) rest ss) := by
  by_cases hdouble : cs.head? = some '&'
  · obtain ⟨cs, rfl⟩ := List.head?_eq_some_iff.mp hdouble
    simp only [suffix, Option.map_some, Option.some.injEq, Prod.mk.injEq] at h
    obtain ⟨rfl, rfl⟩ := h
    have hmarks : Spends ('&' :: '&' :: cs) (skipSpaces cs) (2 + 0) _ _ :=
      (Spends.part ['&', '&'] cs).trans (.spaces cs)
    exact (hmarks.lose (by decide)).mono (Nat.le_refl _) (by simp [Suffix.isWritable])
      fun _ => id
  · rw [suffix_single (by rintro c hc rfl; exact hdouble hc)] at h
    simp only [Option.some.injEq, Prod.mk.injEq] at h
    obtain ⟨rfl, rfl⟩ := h
    have hmark : Spends ('&' :: cs) (skipSpaces cs) (1 + 0) _ _ :=
      (Spends.part ['&'] cs).trans (.spaces cs)
    refine hmark.mono (Nat.le_refl _) (by simp [Suffix.isWritable]) fun ht _ => ?_
    have hskip : skipSpaces cs = cs :=
      (takeWhile_eq_of_head (l := []) (by simp) ht.reference).2
    exact ⟨.reference, rfl, fun _ => ⟨rfl, by rwa [hskip]⟩⟩

/-- Unless weight is lost, a suffix is one: no qualifier, and no mark of a reference that has
another one behind it. -/
theorem spends_suffix {ss : List Suffix} (h : suffix cs = some (some ss, rest)) :
    Spends cs rest (ss.count .reference) (∀ s ∈ ss, s.isWritable = true) (ReadsOne cs rest ss) := by
  have hne : cs ≠ [] := by
    rintro rfl
    cases h
  obtain ⟨c, cs, rfl⟩ := List.exists_cons_of_ne_nil hne
  by_cases hstar : c = '*'
  · subst hstar
    simp only [suffix, Option.map_some, Option.some.injEq, Prod.mk.injEq] at h
    obtain ⟨rfl, rfl⟩ := h
    exact ((Spends.dropped (List.suffix_cons '*' cs)).trans (.spaces cs)).mono (Nat.le_refl _)
      (by simp [Suffix.isWritable]) fun _ _ => readsOne_of_ne (by decide)
  by_cases hamp : c = '&'
  · subst hamp
    exact spends_references h
  rw [suffix_eq (by simp [hstar, hamp])] at h
  split at h
  · rename_i s left hbrackets
    simp only [Option.some.injEq, Prod.mk.injEq] at h
    obtain ⟨hs, rfl⟩ := h
    obtain ⟨s, rfl, rfl⟩ := Option.map_eq_some_iff.mp hs
    obtain ⟨hspends, hreference⟩ := spends_brackets hbrackets
    refine (hspends.trans (.spaces left)).mono ?_ ?_ fun _ _ => readsOne_of_ne hreference
    · simp [hreference]
    · simp
  · obtain ⟨⟨_, left⟩, hqualifier, heq⟩ := Option.map_eq_some_iff.mp h
    simp only [Prod.mk.injEq, Option.some.injEq] at heq
    obtain ⟨rfl, rfl⟩ := heq
    exact (((spends_qualifier hqualifier).trans (.spaces left)).lose (by decide)).mono
      (Nat.le_refl _) (by simp) fun _ => id

/-- One more suffix in front joins nothing unless it is a reference before a reference. -/
theorem joinsReferences_cons {s : Suffix} {ss : List Suffix} (h : joinsReferences ss = false)
    (hs : s = .reference → ss.head? ≠ some .reference) : joinsReferences (s :: ss) = false := by
  cases ss with
  | nil => cases s <;> rfl
  | cons s' ss =>
    cases s <;> cases s' <;> simp_all [joinsReferences]

/-- Unless weight is lost, no references are joined. -/
theorem spends_suffixes {found : List (List Suffix)}
    (h : allSome (many suffix cs).1 = some found) :
    Spends cs (many suffix cs).2 (found.flatten.count .reference)
      (∀ s ∈ found.flatten, s.isWritable = true)
      (joinsReferences found.flatten = false ∧
        (found.flatten.head? = some .reference → cs.head? = some '&')) := by
  induction cs using many.induct suffix generalizing found with
  | case1 cs hnone =>
    rw [many_eq_nil hnone] at h ⊢
    cases h
    exact (Spends.nothing cs).mono (Nat.le_refl _) (by simp) (by simp [joinsReferences])
  | case2 cs ss rest hread hlt _ _ _ ih =>
    rw [many_eq_cons hread hlt] at h ⊢
    cases ss with
    | none => cases h
    | some ss =>
      obtain ⟨found, hfound, rfl⟩ := Option.map_eq_some_iff.mp h
      refine ((spends_suffix hread).trans (ih hfound)).mono (by simp) (fun _ hsure => ?_)
        fun _ hkept => ?_
      · simpa [or_imp, forall_and] using hsure
      · obtain ⟨⟨s, rfl, hmark⟩, hjoins, hhead⟩ := hkept
        refine ⟨joinsReferences_cons hjoins fun hs hnext => ?_, fun hs => ?_⟩
        · exact (hmark hs).2 (hhead hnext)
        · exact (hmark (Option.some.inj hs)).1
  | case3 cs ss rest hread hle =>
    rw [many, hread] at h ⊢
    simp only [if_neg hle] at h ⊢
    cases h
    exact (Spends.nothing cs).mono (Nat.le_refl _) (by simp) (by simp [joinsReferences])

end Scanner

end NativeTypes
