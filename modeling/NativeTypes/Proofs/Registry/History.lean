/-
NativeTypes.Proofs.Registry.History — what holds of a registry after any
history of calls.

A call registers an instance under a key, gives it one more key, or marks it
invalid; one that is refused leaves the registry as it is (`after`). The two
tables change in one way only: a free key is bound (`after_cases`). So one
call keeps them inverse (`Inverse.after`) and lengthens lists of keys at their
ends (`Extends.after`), and the first mark of an instance stays
(`get?_invalid_after`); by induction so does every history
(`afterAll_inverse`). None of this looks into a key, so it is said of keys of
any kind: those of one module, or of several.

Lists are another matter. They come in the order in which keys are written,
so a single primary key that cannot be written leaves no list at all, also
of the instances that have nothing to do with it (`unlisted_longKey`).
-/
import NativeTypes.Proofs.Registry

namespace NativeTypes.Registry

variable {κ : Type} [DecidableEq κ] {r r' : Registry κ} {key : κ} {h : Handle}

/-! ## 1. Calls -/

/-- A call on a registry. -/
inductive Call (κ : Type)
  | register (key : κ) (h : Handle)
  | addAlias (key : κ) (h : Handle)
  | markInvalid (h : Handle) (reason : String)

namespace Call

/-- What a call makes of a registry, unless it is refused. -/
def make (r : Registry κ) : Call κ → Except (RegistryFault κ) (Registry κ)
  | register key h => r.register key h
  | addAlias key h => r.addAlias key h
  | markInvalid h reason => .ok (r.markInvalid h reason)

/-- The call would take a key from another instance, or give one to an instance without keys. -/
def Refused (r : Registry κ) : Call κ → Prop
  | register key h => ∃ holder, r.get? key = some holder ∧ holder ≠ h
  | addAlias key h => r.get? key = none ∧ r.keysOf h = []
  | markInvalid _ _ => False

/-- The reason that a call gives for an instance to be invalid. -/
def reasonFor? (h : Handle) : Call κ → Option String
  | markInvalid h' reason => if h' = h then some reason else none
  | _ => none

end Call

/-- The registry after a call; a refused one leaves it as it is. -/
def after (r : Registry κ) (c : Call κ) : Registry κ :=
  match c.make r with
  | .ok r' => r'
  | .error _ => r

/-- The registry after a history of calls, the first one first. -/
def afterAll (r : Registry κ) (calls : List (Call κ)) : Registry κ := calls.foldl after r

theorem afterAll_append (r : Registry κ) (cs ds : List (Call κ)) :
    r.afterAll (cs ++ ds) = (r.afterAll cs).afterAll ds :=
  List.foldl_append

/-- What one call can do: nothing, bind a free key, or mark an instance. -/
theorem after_cases (r : Registry κ) (c : Call κ) :
    (r.after c = r ∧ ∀ h, c.reasonFor? h = none) ∨
    (∃ key h, r.get? key = none ∧ r.after c = r.bind key h ∧ ∀ h', c.reasonFor? h' = none) ∨
    ∃ h reason, c = .markInvalid h reason ∧ r.after c = r.markInvalid h reason := by
  cases c with
  | register key h =>
    cases hget : r.get? key with
    | none =>
      exact .inr (.inl ⟨key, h, hget, by simp [after, Call.make, register, hget], fun _ => rfl⟩)
    | some holder =>
      refine .inl ⟨?_, fun _ => rfl⟩
      by_cases hsame : holder = h <;> simp [after, Call.make, register, hget, hsame]
  | addAlias key h =>
    cases hget : r.get? key with
    | some holder => exact .inl ⟨by simp [after, Call.make, addAlias, hget], fun _ => rfl⟩
    | none =>
      by_cases hknown : (Assoc.get? r.keys h).isSome = true
      · exact .inr (.inl ⟨key, h, hget, by simp [after, Call.make, addAlias, hget, hknown],
          fun _ => rfl⟩)
      · exact .inl ⟨by simp [after, Call.make, addAlias, hget, hknown], fun _ => rfl⟩
  | markInvalid h reason => exact .inr (.inr ⟨h, reason, rfl, rfl⟩)

/-! ## 2. What one call keeps -/

/-- The tables are inverse to each other, and no list names a key twice. -/
structure Inverse (r : Registry κ) : Prop extends Coherent r where
  nodup_keysOf : ∀ h, (r.keysOf h).Nodup

namespace Inverse

theorem empty : Inverse ({} : Registry κ) := ⟨Coherent.empty, fun _ => List.nodup_nil⟩

theorem bind (hr : r.Inverse) (hfree : r.get? key = none) (h : Handle) :
    (r.bind key h).Inverse where
  toCoherent := hr.toCoherent.bind hfree h
  nodup_keysOf := by
    intro h'
    rw [keysOf_bind]
    split
    · -- a free key stands in no list yet
      have hnot : key ∉ r.keysOf h := by
        intro hmem
        rw [(hr.get?_iff key h).mpr hmem] at hfree
        cases hfree
      exact (List.perm_append_singleton key _).nodup_iff.mpr
        (List.nodup_cons.mpr ⟨hnot, hr.nodup_keysOf h⟩)
    · exact hr.nodup_keysOf h'

theorem after (hr : r.Inverse) (c : Call κ) : (r.after c).Inverse := by
  rcases after_cases r c with ⟨hsame, -⟩ | ⟨key, h, hfree, hbind, -⟩ | ⟨h, reason, -, hmark⟩
  · rw [hsame]
    exact hr
  · rw [hbind]
    exact hr.bind hfree h
  · rw [hmark]
    exact ⟨hr.toCoherent.markInvalid h reason, hr.nodup_keysOf⟩

theorem afterAll (hr : r.Inverse) (calls : List (Call κ)) : (r.afterAll calls).Inverse := by
  induction calls generalizing r with
  | nil => exact hr
  | cons c calls ih => exact ih (hr.after c)

/-- A key stands once in the list of its instance, and in no other one. -/
theorem count_keysOf (hr : r.Inverse) (key : κ) (h : Handle) :
    (r.keysOf h).count key = if r.get? key = some h then 1 else 0 := by
  rw [(hr.nodup_keysOf h).count]
  simp only [hr.get?_iff]

end Inverse

/-- What is bound stays bound, and lists of keys only get longer. -/
structure Extends (r r' : Registry κ) : Prop where
  get? : ∀ key h, r.get? key = some h → r'.get? key = some h
  keysOf : ∀ h, r.keysOf h <+: r'.keysOf h

namespace Extends

theorem refl (r : Registry κ) : Extends r r := ⟨fun _ _ h => h, fun _ => List.prefix_refl _⟩

theorem trans {r'' : Registry κ} (h : Extends r r') (h' : Extends r' r'') : Extends r r'' :=
  ⟨fun key x hx => h'.get? key x (h.get? key x hx), fun x => (h.keysOf x).trans (h'.keysOf x)⟩

theorem bind (hfree : r.get? key = none) (h : Handle) : Extends r (r.bind key h) where
  get? := by
    intro key' h' hget
    have hne : key ≠ key' := by
      rintro rfl
      rw [hfree] at hget
      cases hget
    rw [get?_bind, if_neg hne, hget]
  keysOf := keysOf_prefix_bind r key h

theorem after (r : Registry κ) (c : Call κ) : Extends r (r.after c) := by
  rcases after_cases r c with ⟨hsame, -⟩ | ⟨key, h, hfree, hbind, -⟩ | ⟨h, reason, -, hmark⟩
  · rw [hsame]
    exact refl r
  · rw [hbind]
    exact bind hfree h
  · rw [hmark]
    exact ⟨fun _ _ h => h, fun _ => List.prefix_refl _⟩

theorem afterAll (r : Registry κ) (calls : List (Call κ)) : Extends r (r.afterAll calls) := by
  induction calls generalizing r with
  | nil => exact refl r
  | cons c calls ih => exact (after r c).trans (ih (r.after c))

end Extends

/-- A mark stays, and an instance without one takes that of the call. -/
theorem get?_invalid_after (r : Registry κ) (c : Call κ) (h : Handle) :
    Assoc.get? (r.after c).invalid h = (Assoc.get? r.invalid h).or (c.reasonFor? h) := by
  rcases after_cases r c with ⟨hsame, hnone⟩ | ⟨key, h', -, hbind, hnone⟩ | ⟨h', reason, rfl, hmark⟩
  · rw [hsame, hnone, Option.or_none]
  · rw [hbind, hnone, Option.or_none, invalid_bind]
  · rw [hmark, get?_markInvalid, Call.reasonFor?]
    by_cases hh : h' = h
    · subst hh
      rw [if_pos rfl, if_pos rfl]
      cases Assoc.get? r.invalid h' <;> rfl
    · rw [if_neg hh, if_neg hh, Option.or_none]

theorem get?_invalid_afterAll (r : Registry κ) (calls : List (Call κ)) (h : Handle) :
    Assoc.get? (r.afterAll calls).invalid h =
      (Assoc.get? r.invalid h).or (calls.findSome? (Call.reasonFor? h)) := by
  induction calls generalizing r with
  | nil => rw [List.findSome?_nil, Option.or_none]; rfl
  | cons c calls ih =>
    have hrest := ih (r.after c)
    rw [get?_invalid_after, Option.or_assoc] at hrest
    refine hrest.trans (congrArg _ ?_)
    rw [List.findSome?_cons]
    cases c.reasonFor? h <;> rfl

/-! ## 3. Refused calls and listed instances -/

theorem keysOf_eq_nil_iff (hr : r.Coherent) (h : Handle) :
    r.keysOf h = [] ↔ (Assoc.get? r.keys h).isSome = false := by
  rw [keysOf]
  cases hget : Assoc.get? r.keys h with
  | none => simp
  | some keys => simpa using hr.ne_nil h keys hget

theorem make_eq_error_iff (hr : r.Coherent) (c : Call κ) :
    (∃ fault, c.make r = .error fault) ↔ c.Refused r := by
  cases c with
  | register key h =>
    simp only [Call.make, register, Call.Refused]
    cases r.get? key with
    | none => simp
    | some holder => by_cases hsame : holder = h <;> simp [hsame]
  | addAlias key h =>
    simp only [Call.make, addAlias, Call.Refused, keysOf_eq_nil_iff hr]
    cases r.get? key with
    | some holder => simp
    | none => cases (Assoc.get? r.keys h).isSome <;> simp
  | markInvalid h reason => simp [Call.make, Call.Refused]

/-! ## 4. Histories -/

/-- **The tables of a registry stay inverse to each other**, whatever was called before. A key
stands in the list of the instance that it is bound to, once, and in no other list. Whatever is
called later, a bound key stays with its instance and the first key of an instance stays the first.
Refused are the calls that would rebind a key or alias an unregistered instance, and they change
nothing. The reason for a mark is the first one that was given. A list of the instances is given as
long as every first key can be written; it holds every instance with a key, once, in the order of
the texts of first keys. -/
theorem afterAll_inverse (text? : κ → Option String) (before later : List (Call κ)) :
    let r := afterAll {} before
    let r' := afterAll {} (before ++ later)
    (∀ key h, (r.keysOf h).count key = if r.get? key = some h then 1 else 0) ∧
    (∀ key h, r.get? key = some h → r'.get? key = some h) ∧
    (∀ h key, r.keyOf? h = some key → r'.keyOf? h = some key) ∧
    (∀ c : Call κ, ((∃ fault, c.make r = .error fault) ↔ c.Refused r) ∧
      (c.Refused r → afterAll {} (before ++ [c]) = r)) ∧
    (∀ h, Assoc.get? r.invalid h = before.findSome? (Call.reasonFor? h)) ∧
    ((r.instances? text?).isSome ↔ ∀ h key, r.keyOf? h = some key → (text? key).isSome) ∧
    ∀ listed, r.instances? text? = some listed → listed.Nodup ∧
      (∀ h, h ∈ listed ↔ ∃ key, r.get? key = some h) ∧
      listed.Pairwise fun a b =>
        ∀ x ∈ r.keyText? text? a, ∀ y ∈ r.keyText? text? b, x ≤ y := by
  intro r r'
  have hr : r.Inverse := Inverse.empty.afterAll before
  have hgrows : Extends r r' := by
    simp only [r, r', afterAll_append]
    exact .afterAll _ later
  have hrefused := make_eq_error_iff hr.toCoherent
  refine ⟨hr.count_keysOf, hgrows.get?, fun h key => keyOf?_of_prefix (hgrows.keysOf h),
    fun c => ⟨hrefused c, fun hc => ?_⟩, fun h => get?_invalid_afterAll {} before h,
    hr.isSome_instances?_iff text?, fun listed hlisted => ⟨?_, hr.mem_instances?_iff hlisted,
      sorted_of_inTextOrder? hlisted⟩⟩
  · obtain ⟨fault, herror⟩ := (hrefused c).mpr hc
    rw [afterAll_append]
    show r.after c = r
    rw [after, herror]
  · exact (perm_of_inTextOrder? hlisted).nodup_iff.mpr hr.nodup

/-- A key with a number of 4301 digits among its arguments. -/
def longKey : Key := .mk "Foo" [.number (Nat.pow 10 Text.mostDigits)]

/-- **A registered instance that no list holds**: its key cannot be written. -/
theorem unlisted_longKey :
    (afterAll {} [.register longKey 0]).get? longKey = some 0 ∧
      (afterAll {} [.register longKey 0]).instances? (Key.text? "m") = none := by
  decide +kernel

end NativeTypes.Registry
