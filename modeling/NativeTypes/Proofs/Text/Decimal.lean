/-
NativeTypes.Proofs.Text.Decimal — a number is known by its decimal text.

It stays known behind other text, if a mark stands before it that no number
is written with (`append_mark_inj`).
-/
import Mathlib.Data.Nat.Digits.Defs
import NativeTypes.TypeName.Basic

namespace NativeTypes.Text

theorem decimal_injective {m n : Nat} (h : toString m = toString n) : m = n := by
  have hdigits : Nat.toDigits 10 m = Nat.toDigits 10 n := by
    simpa only [Nat.toString_eq_ofList_toDigits, String.ofList_inj] using h
  calc
    m = Nat.ofDigitChars 10 (Nat.toDigits 10 m) 0 := Nat.ofDigitChars_ten_toDigits.symm
    _ = Nat.ofDigitChars 10 (Nat.toDigits 10 n) 0 := by rw [hdigits]
    _ = n := Nat.ofDigitChars_ten_toDigits

theorem sign_ne_decimal (m n : Nat) : "-" ++ toString m ≠ toString n := by
  intro h
  have hsign : '-' ∈ Nat.toDigits 10 n := by
    have hlist := congrArg String.toList h
    simp only [String.toList_append, Nat.toString_eq_ofList_toDigits, String.toList_ofList] at hlist
    rw [← hlist]
    exact List.mem_append_left _ (by decide)
  exact absurd (Nat.isDigit_of_mem_toDigits (by decide) (by decide) hsign) (by decide)

/-- A number is known by its decimal digits and its sign. -/
theorem decimalInt_injective {m n : Int} (h : toString m = toString n) : m = n := by
  cases m with
  | ofNat m =>
    cases n with
    | ofNat n => exact congrArg Int.ofNat (decimal_injective h)
    | negSucc n => exact absurd h.symm (sign_ne_decimal (n + 1) m)
  | negSucc m =>
    cases n with
    | ofNat n => exact absurd h (sign_ne_decimal (m + 1) n)
    | negSucc n =>
      have hnat := decimal_injective ((String.append_right_inj "-").mp h)
      exact congrArg Int.negSucc (Nat.succ.inj hnat)

theorem toList_toString (n : Int) : (toString n).toList = Suffix.spellInt n := by
  cases n with
  | ofNat n =>
    show (toString n).toList = _
    rw [Nat.toString_eq_ofList_toDigits, String.toList_ofList]
    rfl
  | negSucc n =>
    show ("-" ++ toString (n + 1)).toList = _
    rw [String.toList_append, Nat.toString_eq_ofList_toDigits, String.toList_ofList,
      String.toList_ofList, Suffix.spellInt, if_pos (Int.negSucc_lt_zero n)]
    rfl

theorem spellInt_injective : Function.Injective Suffix.spellInt := by
  intro m n h
  rw [← toList_toString, ← toList_toString] at h
  exact decimalInt_injective (String.toList_inj.mp h)

/-- It is written with digits and a sign. -/
theorem eq_minus_or_isDigit_of_mem_spellInt {n : Int} {c : Char} (h : c ∈ Suffix.spellInt n) :
    c = '-' ∨ c.isDigit = true := by
  unfold Suffix.spellInt at h
  split at h
  · rcases List.mem_cons.mp h with rfl | h
    · exact .inl rfl
    · exact .inr (Nat.isDigit_of_mem_toDigits (by decide) (by decide) h)
  · exact .inr (Nat.isDigit_of_mem_toDigits (by decide) (by decide) h)

/-- A text is split at the last of its marks in one way. -/
theorem append_mark_inj {c : Char} {x x' y y' : List Char} (hy : c ∉ y) (hy' : c ∉ y')
    (h : x ++ c :: y = x' ++ c :: y') : x = x' ∧ y = y' := by
  rcases List.append_eq_append_iff.mp h with ⟨mid, rfl, hmid⟩ | ⟨mid, rfl, hmid⟩
  · cases mid with
    | nil => simpa using hmid
    | cons d mid =>
      rw [List.cons_append, List.cons.injEq] at hmid
      exact absurd (hmid.2 ▸ List.mem_append_right _ List.mem_cons_self) hy
  · cases mid with
    | nil => simpa [eq_comm] using hmid
    | cons d mid =>
      rw [List.cons_append, List.cons.injEq] at hmid
      exact absurd (hmid.2 ▸ List.mem_append_right _ List.mem_cons_self) hy'

end NativeTypes.Text
