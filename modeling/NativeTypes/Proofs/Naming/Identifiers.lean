/-
NativeTypes.Proofs.Naming.Identifiers — what candidates look like.

`isIdentifier` is the pattern `[A-Za-z_][A-Za-z0-9_]*`. Every candidate matches
it, whatever the native name is made of (`isIdentifier_candidate?`): the parts
of a name hold nothing else, and a digit in front is guarded. A number behind a
candidate keeps the pattern, and different numbers lead to different names
(`suffixed_injective`), so the allocation can go on to the next number as long
as names are taken.

Sanitizing is cutting a name into parts at all characters that do not fit, with
some of them spelled out, and joining the parts by underscores. The lemmas
follow these steps: no part is empty and each holds only characters of
identifiers (`mem_parts`), so the joined text does too (`joined_parts`), and
then only its first character can be wrong (`areIdentifierChars_guardDigit`). A
name of which nothing is left becomes a fixed one.

Read the other way, a name that is an identifier goes through all steps
unchanged, and no other name does (`sanitize_eq_self_iff`). This is what
decides when two modules or types that differ end up under one name.
-/
import Mathlib.Data.List.Basic
import NativeTypes.Naming.Allocate

namespace NativeTypes.Naming

/-- The characters of an identifier: a letter or an underscore in front, digits too behind. -/
def areIdentifierChars : List Char → Bool
  | [] => false
  | c :: cs => (c.isAlpha || c == '_') && cs.all isIdentifierChar

/-- The text matches `[A-Za-z_][A-Za-z0-9_]*`. -/
def isIdentifier (s : String) : Bool := areIdentifierChars s.toList

/-- The pattern, for a text given by its characters. -/
theorem isIdentifier_ofList (cs : List Char) :
    isIdentifier (String.ofList cs) = areIdentifierChars cs := by
  rw [isIdentifier, String.toList_ofList]

/-- More characters of identifiers behind one. -/
theorem isIdentifier_append {s t : String} (hs : isIdentifier s)
    (ht : ∀ c ∈ t.toList, isIdentifierChar c) : isIdentifier (s ++ t) := by
  unfold isIdentifier at hs ⊢
  rw [String.toList_append]
  cases hchars : s.toList with
  | nil =>
    rw [hchars] at hs
    cases hs
  | cons c cs =>
    rw [hchars] at hs
    obtain ⟨hc, hcs⟩ := Bool.and_eq_true_iff.mp hs
    rw [List.cons_append, areIdentifierChars, hc, List.all_append, hcs,
      List.all_eq_true.mpr ht]
    rfl

/-! ## 1. Sanitized names

Step by step, first what comes out of each and then what it leaves alone. -/

/-- A part is never empty, and what separates parts is no character of identifiers. -/
theorem mem_parts {cs p : List Char} (hp : p ∈ parts cs) :
    p ≠ [] ∧ ∀ c ∈ p, isIdentifierChar c := by
  induction cs generalizing p with
  | nil => cases hp
  | cons c cs ih =>
    rw [parts] at hp
    split at hp
    · rename_i hc
      split at hp
      · rename_i q qs _ hparts
        rw [hparts] at ih
        rcases List.mem_cons.mp hp with rfl | hp
        · refine ⟨List.cons_ne_nil _ _, List.forall_mem_cons.mpr ⟨hc, ?_⟩⟩
          exact (ih List.mem_cons_self).2
        · exact ih (List.mem_cons_of_mem _ hp)
      · rcases List.mem_cons.mp hp with rfl | hp
        · exact ⟨List.cons_ne_nil _ _, List.forall_mem_singleton.mpr hc⟩
        · exact ih hp
    · exact ih hp

/-- Parts joined by underscores are not empty and hold such characters only. -/
theorem joined_parts {p : List Char} {ps : List (List Char)}
    (h : ∀ q ∈ p :: ps, q ≠ [] ∧ ∀ c ∈ q, isIdentifierChar c) :
    List.intercalate ['_'] (p :: ps) ≠ [] ∧
      ∀ c ∈ List.intercalate ['_'] (p :: ps), isIdentifierChar c := by
  induction ps generalizing p with
  | nil =>
    rw [List.intercalate_singleton]
    exact h p List.mem_cons_self
  | cons q ps ih =>
    obtain ⟨⟨hne, hp⟩, hps⟩ := List.forall_mem_cons.mp h
    rw [List.intercalate_cons_cons]
    refine ⟨by simp [hne], fun c hc => ?_⟩
    rcases List.mem_append.mp hc with hc | hc
    · rcases List.mem_append.mp hc with hc | hc
      · exact hp c hc
      · rw [List.mem_singleton.mp hc]
        rfl
    · exact (ih hps).2 c hc

/-- An underscore in front of a digit makes it an identifier. -/
theorem areIdentifierChars_guardDigit {cs : List Char} (hne : cs ≠ [])
    (h : ∀ c ∈ cs, isIdentifierChar c) : areIdentifierChars (guardDigit cs) := by
  cases cs with
  | nil => exact absurd rfl hne
  | cons c cs =>
    obtain ⟨hc, hcs⟩ := List.forall_mem_cons.mp h
    rw [guardDigit]
    split
    · rw [areIdentifierChars, List.all_eq_true.mpr h]
      rfl
    · rename_i hdigit
      unfold isIdentifierChar Char.isAlphanum at hc
      rw [Bool.not_eq_true] at hdigit
      rw [hdigit, Bool.or_false] at hc
      rw [areIdentifierChars, hc, List.all_eq_true.mpr hcs]
      rfl

/-- A sanitized name is an identifier, also when nothing of the native name is left. -/
theorem isIdentifier_sanitize (name : String) : isIdentifier (sanitize name) := by
  rw [sanitize, isIdentifier_ofList, sanitizeChars]
  cases hparts : parts (spellOut name.toList) with
  | nil => rfl
  | cons p ps =>
    have hmem : ∀ q ∈ p :: ps, q ≠ [] ∧ ∀ c ∈ q, isIdentifierChar c := fun q hq =>
      mem_parts (hparts ▸ hq)
    exact areIdentifierChars_guardDigit (joined_parts hmem).1 (joined_parts hmem).2

/-- Nothing is spelled out where all characters fit. -/
theorem spellOut_eq_self {cs : List Char} (h : ∀ c ∈ cs, isIdentifierChar c) :
    spellOut cs = cs := by
  induction cs with
  | nil => rfl
  | cons c cs ih =>
    obtain ⟨hc, hcs⟩ := List.forall_mem_cons.mp h
    have hstar : c ≠ '*' := by
      rintro rfl
      exact absurd hc (by decide)
    have hampersand : c ≠ '&' := by
      rintro rfl
      exact absurd hc (by decide)
    rw [spellOut, List.flatMap_cons, ← spellOut, ih hcs]
    simp [hstar, hampersand]

/-- Nothing is cut there either. -/
theorem parts_eq_singleton {cs : List Char} (hne : cs ≠ []) (h : ∀ c ∈ cs, isIdentifierChar c) :
    parts cs = [cs] := by
  induction cs with
  | nil => exact absurd rfl hne
  | cons c cs ih =>
    obtain ⟨hc, hcs⟩ := List.forall_mem_cons.mp h
    rw [parts, if_pos hc]
    cases cs with
    | nil => rfl
    | cons d ds => simp [ih (List.cons_ne_nil d ds) hcs, hcs d List.mem_cons_self]

/-- A letter is no digit. -/
theorem not_isDigit_of_isAlpha {c : Char} (h : c.isAlpha) : c.isDigit = false := by
  refine Bool.eq_false_iff.mpr fun hdigit => ?_
  have hle : c.val ≤ 57 := of_decide_eq_true (Bool.and_eq_true_iff.mp hdigit).2
  rcases Bool.or_eq_true_iff.mp h with hupper | hlower
  · have hge : 65 ≤ c.val := (of_decide_eq_true hupper).1
    exact absurd (UInt32.le_trans hge hle) (by decide)
  · have hge : 97 ≤ c.val := of_decide_eq_true (Bool.and_eq_true_iff.mp hlower).1
    exact absurd (UInt32.le_trans hge hle) (by decide)

/-- An identifier needs no guard. -/
theorem guardDigit_eq_self {cs : List Char} (h : areIdentifierChars cs) : guardDigit cs = cs := by
  cases cs with
  | nil => rfl
  | cons c cs =>
    rw [areIdentifierChars, Bool.and_eq_true, Bool.or_eq_true] at h
    have hdigit : c.isDigit = false := by
      rcases h.1 with hc | hc
      · exact not_isDigit_of_isAlpha hc
      · rw [beq_iff_eq.mp hc]
        rfl
    simp [guardDigit, hdigit]

/-- All characters of an identifier are such characters. -/
theorem isIdentifierChar_of_mem {cs : List Char} (h : areIdentifierChars cs) :
    ∀ c ∈ cs, isIdentifierChar c := by
  cases cs with
  | nil => exact fun c hc => by cases hc
  | cons c cs =>
    rw [areIdentifierChars, Bool.and_eq_true, Bool.or_eq_true] at h
    refine List.forall_mem_cons.mpr ⟨?_, List.all_eq_true.mp h.2⟩
    rw [isIdentifierChar, Char.isAlphanum]
    rcases h.1 with hc | hc
    · rw [hc, Bool.true_or, Bool.true_or]
    · rw [hc, Bool.or_true]

/-- An identifier stays as it is, and nothing else does. -/
theorem sanitize_eq_self_iff {name : String} : sanitize name = name ↔ isIdentifier name := by
  constructor
  · intro h
    exact h ▸ isIdentifier_sanitize name
  · intro h
    have hchars := isIdentifierChar_of_mem h
    have hne : name.toList ≠ [] := by
      intro hnil
      rw [isIdentifier, hnil] at h
      cases h
    have hparts : parts (spellOut name.toList) = [name.toList] := by
      rw [spellOut_eq_self hchars, parts_eq_singleton hne hchars]
    rw [sanitize, sanitizeChars, hparts]
    show String.ofList (guardDigit (List.intercalate ['_'] [name.toList])) = name
    rw [List.intercalate_singleton, guardDigit_eq_self h, String.ofList_toList]

/-! ## 2. Digests and numbers

A function without a name is called by the digest of its key, and names that collide are told
apart by a number. -/

/-- Digits in base sixteen are letters and digits. -/
theorem isAlphanum_digitChar {n : Nat} (h : n < 16) : n.digitChar.isAlphanum = true := by
  revert n
  decide

/-- So are those of a number written in it. -/
theorem isAlphanum_of_mem_toDigits {n : Nat} {c : Char} (h : c ∈ Nat.toDigits 16 n) :
    c.isAlphanum = true := by
  induction n using Nat.strongRecOn with
  | ind n ih =>
    rw [Nat.toDigits_eq_if (by decide)] at h
    split at h
    · rename_i hn
      rw [List.mem_singleton.mp h]
      exact isAlphanum_digitChar hn
    · rcases List.mem_append.mp h with h | h
      · exact ih (n / 16) (by omega) h
      · rw [List.mem_singleton.mp h]
        exact isAlphanum_digitChar (Nat.mod_lt _ (by decide))

/-- A digest is written in letters and digits. -/
theorem isAlphanum_of_mem_hex {text : String} {c : Char}
    (h : c ∈ (Digest.Sha1.hexOfText text).toList) : c.isAlphanum = true := by
  unfold Digest.Sha1.hexOfText Digest.Sha1.hex at h
  rw [String.toList_ofList] at h
  obtain ⟨w, _, hc⟩ := List.mem_flatMap.mp h
  rcases List.mem_append.mp hc with hc | hc
  · rw [(List.mem_replicate.mp hc).2]
    rfl
  · exact isAlphanum_of_mem_toDigits hc

/-- A function's own name is sanitized; without one the digest follows a fixed word. -/
theorem isIdentifier_functionCandidate (name : Option String) (keyText : String) :
    isIdentifier (functionCandidate name keyText) := by
  have hdigest : isIdentifier (functionCandidate.digest keyText) := by
    refine isIdentifier_append (by decide) fun c hc => ?_
    rw [String.toList_ofList] at hc
    rw [isIdentifierChar, isAlphanum_of_mem_hex (List.mem_of_mem_take hc), Bool.true_or]
  unfold functionCandidate
  split
  · split
    · exact hdigest
    · exact isIdentifier_sanitize _
  · exact hdigest

/-- Whether its namespace is kept or not, the name of a type is sanitized. -/
theorem isIdentifier_typeCandidate (truncate : Bool) (aliases : List Key) (scope name : String) :
    isIdentifier (typeCandidate truncate aliases scope name) := by
  unfold typeCandidate
  generalize (if truncate then name else qualified scope name) = own
  dsimp only
  split
  · cases typedefName? truncate aliases with
    | none => exact isIdentifier_sanitize own
    | some typedef => exact isIdentifier_sanitize typedef
  · exact isIdentifier_sanitize own

/-- **Every candidate is an identifier.** -/
theorem isIdentifier_candidate? {policy : Policy} {i : Instance} {keyText : String}
    {aliases : List Key} {name : String}
    (h : candidate? policy i keyText aliases = some name) : isIdentifier name := by
  unfold candidate? at h
  split at h
  · cases h
    exact isIdentifier_functionCandidate _ _
  · cases h
    exact isIdentifier_typeCandidate _ _ _ _
  · cases h
    exact isIdentifier_typeCandidate _ _ _ _
  · cases h

/-- The name with a number behind it. -/
def suffixed (base : String) (n : Nat) : String := base ++ "_" ++ toString n

/-- A number behind an identifier. -/
theorem isIdentifier_suffixed {base : String} (h : isIdentifier base) (n : Nat) :
    isIdentifier (suffixed base n) := by
  refine isIdentifier_append (isIdentifier_append h ?_) fun c hc => ?_
  · exact List.forall_mem_singleton.mpr rfl
  · rw [Nat.toString_eq_ofList_toDigits, String.toList_ofList] at hc
    have hdigit := Nat.isDigit_of_mem_toDigits (by decide) (by decide) hc
    rw [isIdentifierChar, Char.isAlphanum, hdigit, Bool.or_true, Bool.true_or]

/-- Different numbers lead to different names. -/
theorem suffixed_injective (base : String) : Function.Injective (suffixed base) := by
  intro m n h
  have hdigits : Nat.toDigits 10 m = Nat.toDigits 10 n := by
    have hlist := congrArg String.toList h
    simpa only [suffixed, String.toList_append, List.append_cancel_left_eq,
      Nat.toString_eq_ofList_toDigits, String.toList_ofList] using hlist
  calc
    m = Nat.ofDigitChars 10 (Nat.toDigits 10 m) 0 := Nat.ofDigitChars_ten_toDigits.symm
    _ = Nat.ofDigitChars 10 (Nat.toDigits 10 n) 0 := by rw [hdigits]
    _ = n := Nat.ofDigitChars_ten_toDigits

end NativeTypes.Naming
