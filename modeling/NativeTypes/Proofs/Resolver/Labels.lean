/-
NativeTypes.Proofs.Resolver.Labels — different described references have
different labels.

A name is its own label, an id is labelled by its hexadecimal digits behind a
mark. The mark begins no type name (`parse_mark`), and the digits say which
id it is (`hexInt_injective`), so a typedef that is open is known by its
label alone.
-/
import NativeTypes.Proofs.Resolver.Calls
import NativeTypes.Proofs.TypeName.Reading

namespace NativeTypes

/-! ## 1. Digits -/

namespace Text

/-- Digits of base sixteen are sixteen characters. -/
theorem digitChar_injective {m n : Nat} (hm : m < 16) (hn : n < 16)
    (h : Nat.digitChar m = Nat.digitChar n) : m = n := by
  have hall : ∀ i j : Fin 16, Nat.digitChar i = Nat.digitChar j → i = j := by decide
  exact congrArg Fin.val (hall ⟨m, hm⟩ ⟨n, hn⟩ h)

/-- A number is known by its digits. -/
theorem toDigits_injective {m n : Nat} (h : Nat.toDigits 16 m = Nat.toDigits 16 n) : m = n := by
  induction m using Nat.strongRecOn generalizing n with
  | ind m ih =>
    rw [Nat.toDigits_eq_if (by decide), Nat.toDigits_eq_if (n := n) (by decide)] at h
    have hne (k : Nat) (c c' : Char) : [c] ≠ Nat.toDigits 16 k ++ [c'] := fun heq => by
      have hlength := congrArg List.length heq
      have hpos := Nat.length_toDigits_pos (b := 16) (n := k)
      simp only [List.length_singleton, List.length_append] at hlength
      omega
    split at h
    · split at h
      · exact digitChar_injective ‹_› ‹_› (List.singleton_inj.mp h)
      · exact absurd h (hne _ _ _)
    · split at h
      · exact absurd h.symm (hne _ _ _)
      · obtain ⟨hfront, hlast⟩ := List.append_inj' h rfl
        have hquotient := ih (m / 16) (by omega) hfront
        have hrest := digitChar_injective (by omega) (by omega) (List.singleton_inj.mp hlast)
        omega

theorem exists_of_mem_toDigits {n : Nat} {c : Char} (h : c ∈ Nat.toDigits 16 n) :
    ∃ i : Fin 16, c = Nat.digitChar i := by
  induction n using Nat.strongRecOn with
  | ind n ih =>
    rw [Nat.toDigits_eq_if (by decide)] at h
    split at h
    · rename_i hlt
      exact ⟨⟨n, hlt⟩, List.mem_singleton.mp h⟩
    · rcases List.mem_append.mp h with h | h
      · exact ih (n / 16) (by omega) h
      · exact ⟨⟨n % 16, by omega⟩, List.mem_singleton.mp h⟩

/-- No digit is a sign. -/
theorem ne_minus_of_mem_toDigits {n : Nat} {c : Char} (h : c ∈ Nat.toDigits 16 n) : c ≠ '-' := by
  have hall : ∀ i : Fin 16, Nat.digitChar i ≠ '-' := by decide
  obtain ⟨i, rfl⟩ := exists_of_mem_toDigits h
  exact hall i

/-- A number is known by its hexadecimal digits and its sign. -/
theorem hexInt_injective : Function.Injective hexInt := by
  have hsign (k : Nat) (ds : List Char) : Nat.toDigits 16 k ≠ '-' :: ds := fun h =>
    ne_minus_of_mem_toDigits (h ▸ List.mem_cons_self) rfl
  intro m n h
  unfold hexInt at h
  split at h
  · split at h
    · have := toDigits_injective (List.tail_eq_of_cons_eq h)
      omega
    · exact absurd h.symm (hsign _ _)
  · split at h
    · exact absurd h (hsign _ _)
    · have := toDigits_injective h
      omega

end Text

/-! ## 2. The mark -/

open Scanner in
/-- The mark in front of an id begins no type name. -/
theorem TypeName.parse_mark (digits : String) (t : TypeName) :
    TypeName.parse ("#" ++ digits) ≠ .ok t := by
  have hword : ∀ w ∈ keywords, word w ('#' :: digits.toList) = none := by
    refine fun w hw => word_eq_none_of_head hw fun c hc => ?_
    obtain rfl := Option.some.inj hc
    decide
  have hqualifier : qualifierToken ('#' :: digits.toList) = none :=
    qualifierToken_eq_none fun w hw => hword w (mem_keywords_of_qualifier hw)
  have hpath (argument : Scanner (Option Argument)) :
      path argument ('#' :: digits.toList) = none := by
    have hstart : pathStart ('#' :: digits.toList) = '#' :: digits.toList := by
      rw [pathStart, token_scopeMark_eq_none (by simp)]
    rw [path_eq, hstart, Scanner.segment]
    rfl
  have hscan : scan ('#' :: digits.toList) = none := by
    have hskip : Text.skipSpaces ('#' :: digits.toList) = '#' :: digits.toList := rfl
    simp only [scan, typeName, hskip, many_eq_nil hqualifier, orElse, builtin_eq_none hword, hpath,
      Option.map_none]
  have hblank : ('#' :: digits.toList).all Text.isBlank = false := by
    rw [List.all_cons, show Text.isBlank '#' = false by decide, Bool.false_and]
  intro h
  have hlist : ("#" ++ digits).toList = '#' :: digits.toList := by simp
  rw [TypeName.parse, TypeName.parseChars, hlist, hscan, hblank] at h
  cases h

namespace Resolver

/-- **A described reference is known by its label.** -/
theorem eq_of_labelOf_eq {r r' : Ref} (hr : IsDescribed r) (hr' : IsDescribed r')
    (h : labelOf r = labelOf r') : r = r' := by
  cases r with
  | name text =>
    cases r' with
    | name text' => exact congrArg Ref.name h
    | id n =>
      obtain ⟨t, hparse, -⟩ := hr
      rw [show text = _ from h] at hparse
      exact absurd hparse (TypeName.parse_mark _ t)
  | id n =>
    cases r' with
    | name text =>
      obtain ⟨t, hparse, -⟩ := hr'
      rw [show text = _ from h.symm] at hparse
      exact absurd hparse (TypeName.parse_mark _ t)
    | id m =>
      have hlist := congrArg String.toList h
      simp only [labelOf, String.toList_append, List.append_cancel_left_eq,
        String.toList_ofList] at hlist
      exact congrArg Ref.id (Text.hexInt_injective hlist)

end Resolver

end NativeTypes
