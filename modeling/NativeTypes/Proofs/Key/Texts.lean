/-
NativeTypes.Proofs.Key.Texts — when the texts of keys tell keys apart.

The text of a key is put together without escapes: in front of every name
stands the module and an exclamation mark, arguments stand in angles. It can be
read back where names are neat, that is, have no exclamation mark, close the
brackets that they open, and have no comma outside of brackets. What may be in
the name of the module is of no account: it stands in front of exclamation
marks only, so it can be left out (`stamp_injective`).

One ambiguity remains: arguments that are all numbers read like a part of the
name, as in `Foo<3>`. So keys are known by their texts in a set of keys with
neat names in which no key has the full name of another one
(`Legible.eq_of_text_eq`).

Reading back goes along two keys with one text. Their names are beginnings of
one text, so one of them goes on where the other one ends. If it goes on into
arguments, these arguments must be brackets and characters of a name, and a key
among them would bring an exclamation mark, which no name has; so they are
numbers, and the longer name is the full name of the shorter key
(`allNumbers_of_spellAll`). The set of keys excludes that. If neither goes on,
the arguments are compared one by one, and they are keys of the same set.

The depth of brackets does all the work of a grammar here. It is a fold over
the characters, so it can be taken apart wherever the text is.
-/
import Mathlib.Data.List.Induction
import NativeTypes.Key
import NativeTypes.Proofs.Text.Decimal
import NativeTypes.Proofs.TypeName.Tokens

namespace NativeTypes

/-! ## 1. Neat names -/

namespace Text

/-- The character opens a bracket. -/
def opens (c : Char) : Bool := c == '<' || c == '(' || c == '['

/-- The character closes a bracket. -/
def closes (c : Char) : Bool := c == '>' || c == ')' || c == ']'

/-- The character is no bracket and no exclamation mark. -/
def isInner (c : Char) : Bool := !opens c && !closes c && c != '!'

/-- How many brackets are open behind a text, given how many are in front of it. There is no
answer if one is closed too many, or if there is a comma outside of brackets or an exclamation
mark. -/
def depth? : Nat → List Char → Option Nat
  | d, [] => some d
  | d, c :: cs =>
    if opens c then depth? (d + 1) cs
    else if closes c then if d = 0 then none else depth? (d - 1) cs
    else if c = '!' ∨ c = ',' ∧ d = 0 then none
    else depth? d cs

/-- The text closes the brackets that it opens, has no comma outside of them, and no exclamation
mark. -/
def IsNeat (cs : List Char) : Prop := depth? 0 cs = some 0

instance (cs : List Char) : Decidable (IsNeat cs) :=
  inferInstanceAs (Decidable (_ = _))

variable {d e : Nat} {xs ys cs rest : List Char}

/-- The brackets of a text and then those of another one. -/
theorem depth?_append (d : Nat) (xs ys : List Char) :
    depth? d (xs ++ ys) = (depth? d xs).bind (depth? · ys) := by
  induction xs generalizing d with
  | nil => rfl
  | cons c cs ih =>
    rw [List.cons_append, depth?, depth?]
    split
    · exact ih _
    · split
      · split
        · rfl
        · exact ih _
      · split
        · rfl
        · exact ih _

theorem depth?_of_inner (hcs : ∀ c ∈ cs, isInner c = true) (d : Nat) :
    depth? (d + 1) cs = some (d + 1) := by
  induction cs with
  | nil => rfl
  | cons c cs ih =>
    have hc := hcs c List.mem_cons_self
    simp only [isInner, Bool.and_eq_true, Bool.not_eq_true', bne_iff_ne] at hc
    simp [depth?, hc, ih fun c hc => hcs c (List.mem_cons_of_mem _ hc)]

/-- Without commas it does not matter how many brackets are open. -/
theorem depth?_of_plain (hcs : ∀ c ∈ cs, isInner c = true ∧ c ≠ ',') (d : Nat) :
    depth? d cs = some d := by
  induction cs with
  | nil => rfl
  | cons c cs ih =>
    have hc := hcs c List.mem_cons_self
    simp only [isInner, Bool.and_eq_true, Bool.not_eq_true', bne_iff_ne] at hc
    simp [depth?, hc, ih fun c hc => hcs c (List.mem_cons_of_mem _ hc)]

/-- With more brackets around it, a text opens and closes the same. -/
theorem depth?_add (h : depth? d cs = some e) (n : Nat) : depth? (d + n) cs = some (e + n) := by
  induction cs generalizing d with
  | nil =>
    cases h
    rfl
  | cons c cs ih =>
    rw [depth?] at h ⊢
    split at h
    · rename_i hopens
      rw [if_pos hopens, Nat.add_right_comm]
      exact ih h
    · rename_i hopens
      rw [if_neg hopens]
      split at h
      · rename_i hcloses
        rw [if_pos hcloses]
        split at h
        · cases h
        · rw [if_neg (by omega), Nat.sub_add_comm (by omega)]
          exact ih h
      · rename_i hcloses
        rw [if_neg hcloses]
        split at h
        · cases h
        · rename_i hmark
          rw [if_neg fun hc => hmark (hc.imp_right fun ⟨hcomma, hd⟩ => ⟨hcomma, by omega⟩)]
          exact ih h

theorem IsNeat.depth? (h : IsNeat cs) (d : Nat) : Text.depth? d cs = some d := by
  have hd := depth?_add h d
  rwa [Nat.zero_add] at hd

/-- Neat texts one behind the other. -/
theorem IsNeat.append (hxs : IsNeat xs) (hys : IsNeat ys) : IsNeat (xs ++ ys) := by
  unfold IsNeat
  rw [depth?_append, hxs, Option.bind_some, hys]

/-- There is no depth behind an exclamation mark. -/
theorem not_mem_of_depth? (h : depth? d cs = some e) : '!' ∉ cs := by
  induction cs generalizing d with
  | nil => exact List.not_mem_nil
  | cons c cs ih =>
    rw [depth?] at h
    intro hmem
    rcases List.mem_cons.mp hmem with rfl | hmem
    · simp [opens, closes] at h
    · split at h
      · exact ih h hmem
      · split at h
        · split at h
          · cases h
          · exact ih h hmem
        · split at h
          · cases h
          · exact ih h hmem

/-- A text that no bracket is open behind does not end among characters that are no brackets. -/
theorem exists_of_depth?_inner (hxs : ∀ c ∈ xs, isInner c = true) (hys : depth? 1 ys = some 0)
    (h : xs ++ cs = ys ++ rest) : ∃ zs, ys = xs ++ zs ∧ depth? 1 zs = some 0 ∧ cs = zs ++ rest := by
  rcases List.append_eq_append_iff.mp h with ⟨zs, rfl, hcs⟩ | ⟨zs, rfl, -⟩
  · rw [depth?_append, depth?_of_inner hxs 0] at hys
    exact ⟨zs, rfl, hys, hcs⟩
  · rw [depth?_of_inner (fun c hc => hxs c (List.mem_append_left _ hc)) 0] at hys
    cases hys

/-- The characters that mean something in the text of a key. -/
def marks : List Char := ['<', '(', '[', '>', ')', ']', '!', ',']

/-- Characters of a kind that no mark is of. -/
theorem isInner_of_marks {p : Char → Bool} (hp : ∀ d ∈ marks, p d = false) {c : Char}
    (hc : p c = true) : isInner c = true ∧ c ≠ ',' := by
  have hne : ∀ d ∈ marks, c ≠ d := by
    rintro d hd rfl
    rw [hp c hd] at hc
    cases hc
  simp only [marks, List.forall_mem_cons] at hne
  simp [isInner, opens, closes, hne]

theorem isInner_of_mem_spellInt {n : Int} {c : Char} (h : c ∈ Suffix.spellInt n) :
    isInner c = true ∧ c ≠ ',' := by
  refine isInner_of_marks (p := fun c => c == '-' || c.isDigit) (by decide) ?_
  simpa using eq_minus_or_isDigit_of_mem_spellInt h

end Text

open Text

/-! ## 2. Texts without the module -/

mutual
/-- The text of a key, with nothing in front of the exclamation marks. -/
def Key.spell : Key → List Char
  | .mk name arguments => '!' :: (name.toList ++ KeyArgument.spellAll arguments)

/-- The text of an argument, likewise. -/
def KeyArgument.spell : KeyArgument → List Char
  | .key key => key.spell
  | .number n => Suffix.spellInt n

/-- The arguments of a key in their angles; nothing if there are none. -/
def KeyArgument.spellAll : List KeyArgument → List Char
  | [] => []
  | a :: as => '<' :: (a.spell ++ KeyArgument.spellRest as)

/-- The arguments behind the first one, each behind its mark, and the angle that closes. -/
def KeyArgument.spellRest : List KeyArgument → List Char
  | [] => ['>']
  | a :: as => ',' :: ' ' :: (a.spell ++ KeyArgument.spellRest as)
end

/-- The module is put in front of every exclamation mark. -/
def stamp (module : String) (cs : List Char) : List Char :=
  cs.flatMap fun c => (if c = '!' then module.toList else []) ++ [c]

theorem stamp_append (module : String) (xs ys : List Char) :
    stamp module (xs ++ ys) = stamp module xs ++ stamp module ys :=
  List.flatMap_append

theorem stamp_of_not_mem {cs : List Char} (module : String) (h : '!' ∉ cs) :
    stamp module cs = cs := by
  induction cs with
  | nil => rfl
  | cons c cs ih =>
    rw [List.mem_cons, not_or] at h
    rw [stamp, List.flatMap_cons, if_neg (Ne.symm h.1), List.nil_append]
    exact congrArg (c :: ·) (ih h.2)

/-- The text behind the last character is taken off, and the module with it. -/
theorem stamp_injective (module : String) : Function.Injective (stamp module) := by
  intro xs ys h
  induction xs using List.reverseRecOn generalizing ys with
  | nil =>
    cases ys with
    | nil => rfl
    | cons y ys => simp [stamp] at h
  | append_singleton xs x ih =>
    cases ys using List.reverseRecOn with
    | nil => simp [stamp] at h
    | append_singleton ys y =>
      have hlast (cs : List Char) (c : Char) : stamp module (cs ++ [c]) =
          stamp module cs ++ (if c = '!' then module.toList else []) ++ [c] := by
        simp [stamp]
      rw [hlast, hlast] at h
      obtain ⟨hfront, hxy⟩ := List.append_inj' h rfl
      obtain rfl : x = y := List.singleton_inj.mp hxy
      rw [ih (List.append_cancel_right hfront)]

namespace Key

/-- The name of a key with its arguments. -/
def fullName (k : Key) : String := String.ofList (k.name.toList ++ KeyArgument.spellAll k.arguments)

/-- What holds of a key if it holds of the keys among its arguments holds of every key. -/
theorem induction {P : Key → Prop}
    (h : ∀ name arguments, (∀ k, .key k ∈ arguments → P k) → P (.mk name arguments)) :
    ∀ k, P k
  | .mk name arguments => h name arguments fun k _ => induction h k
termination_by k => sizeOf k
decreasing_by
  rename_i hk
  have hlt := List.sizeOf_lt_of_mem hk
  simp only [KeyArgument.key.sizeOf_spec, mk.sizeOf_spec] at hlt ⊢
  omega

end Key

section

variable {module : String}

theorem KeyArgument.toList_restText {as : List KeyArgument}
    (has : ∀ a ∈ as, (a.text module).toList = stamp module a.spell) :
    (restText module as).toList ++ ['>'] = stamp module (spellRest as) := by
  induction as with
  | nil => rfl
  | cons a as ih =>
    have hmark : ", ".toList = [',', ' '] := rfl
    rw [restText, spellRest, String.toList_append, String.toList_append, hmark, List.append_assoc,
      ih fun b hb => has b (List.mem_cons_of_mem a hb), has a List.mem_cons_self, List.append_assoc,
      ← stamp_append]
    rfl

/-- The text of a key is the one without the module, with the module put in. -/
theorem Key.toList_text {name : String} {arguments : List KeyArgument} (hname : '!' ∉ name.toList)
    (harguments : ∀ a ∈ arguments, (a.text module).toList = stamp module a.spell) :
    ((mk name arguments).text module).toList = stamp module (mk name arguments).spell := by
  have hfront (cs : List Char) : stamp module ('!' :: (name.toList ++ cs)) =
      module.toList ++ "!".toList ++ name.toList ++ stamp module cs := by
    show stamp module (['!'] ++ (name.toList ++ cs)) = _
    rw [stamp_append, stamp_append, stamp_of_not_mem module hname]
    simp [stamp]
  rw [spell, hfront, ← String.toList_append, ← String.toList_append]
  cases arguments with
  | nil => exact (List.append_nil _).symm
  | cons a as =>
    have hrest := KeyArgument.toList_restText fun b hb => harguments b (List.mem_cons_of_mem a hb)
    rw [text, KeyArgument.spellAll]
    have hclose : ">".toList = ['>'] := rfl
    have hangle : stamp module ('<' :: (a.spell ++ KeyArgument.spellRest as)) =
        "<".toList ++ (stamp module a.spell ++ stamp module (KeyArgument.spellRest as)) := by
      rw [← stamp_append]
      rfl
    rw [hangle, ← harguments a List.mem_cons_self, ← hrest]
    simp only [String.toList_append, List.append_assoc, hclose]

end

/-! ## 3. Reading -/

/-- An argument ends in front of this: of nothing, of a comma or of a closing angle. -/
def EndsArgument (rest : List Char) : Prop := ∀ c ∈ rest.head?, c = ',' ∨ c = '>'

namespace KeyArgument

/-- The number that an argument is, if it is no key. -/
def number? : KeyArgument → Option Int
  | key _ => none
  | number n => some n

variable {as : List KeyArgument} {a : KeyArgument} {cs zs rest rest' : List Char}

/-- Behind an argument stands a comma or the closing angle. -/
theorem endsArgument_spellRest (as : List KeyArgument) (rest : List Char) :
    EndsArgument (spellRest as ++ rest) := by
  cases as with
  | nil =>
    rintro c ⟨⟩
    exact .inr rfl
  | cons a as =>
    rintro c ⟨⟩
    exact .inl rfl

/-- Arguments begin with an opening angle, which ends no argument. -/
theorem eq_nil_of_ends_spellAll (hend : EndsArgument (spellAll as ++ rest)) : as = [] := by
  cases as with
  | nil => rfl
  | cons a as =>
    rcases hend '<' rfl with h | h
    · cases h
    · cases h

/-- Outside of brackets nothing goes on where an argument ends. -/
theorem eq_nil_of_endsArgument (hend : EndsArgument (zs ++ rest)) (hz : IsNeat zs) :
    zs = [] := by
  cases zs with
  | nil => rfl
  | cons c zs =>
    rcases hend c rfl with rfl | rfl
    · cases hz
    · cases hz

/-- What closes the bracket in which an argument stands, and is not behind it, stands behind a
number. -/
theorem isSome_number?_of_depth? (hz : depth? 1 zs = some 0) (h : a.spell ++ cs = zs ++ rest) :
    a.number?.isSome = true ∧ ∃ ys, zs = a.spell ++ ys ∧ depth? 1 ys = some 0 ∧
      cs = ys ++ rest := by
  cases a with
  | key k =>
    -- a key begins with an exclamation mark
    obtain ⟨name, arguments⟩ := k
    cases zs with
    | nil => cases hz
    | cons c zs =>
      obtain rfl : '!' = c := (List.cons.inj h).1
      cases hz
  | number n =>
    exact ⟨rfl, exists_of_depth?_inner (fun c hc => (isInner_of_mem_spellInt hc).1) hz h⟩

theorem allNumbers_of_spellRest (hrest : EndsArgument rest) (hz : depth? 1 zs = some 0)
    (h : spellRest as ++ rest = zs ++ rest') :
    (∀ a ∈ as, a.number?.isSome = true) ∧ zs = spellRest as ∧ rest = rest' := by
  induction as generalizing zs with
  | nil =>
    cases zs with
    | nil => cases hz
    | cons c zs =>
      obtain ⟨rfl, rfl⟩ : '>' = c ∧ rest = zs ++ rest' := List.cons.inj h
      obtain rfl := eq_nil_of_endsArgument hrest hz
      exact ⟨by simp, rfl, rfl⟩
  | cons a as ih =>
    have hmark : ∀ c ∈ [',', ' '], isInner c = true := by decide
    have hline : [',', ' '] ++ (a.spell ++ (spellRest as ++ rest)) = zs ++ rest' := by
      simpa [spellRest] using h
    obtain ⟨ys, rfl, hys, hcs⟩ := exists_of_depth?_inner hmark hz hline
    obtain ⟨ha, xs, rfl, hxs, htail⟩ := isSome_number?_of_depth? hys hcs
    obtain ⟨has, rfl, rfl⟩ := ih hxs htail
    exact ⟨List.forall_mem_cons.mpr ⟨ha, has⟩, rfl, rfl⟩

/-- **Where a name could go on into the arguments behind it, these are all numbers.** -/
theorem allNumbers_of_spellAll (hrest : EndsArgument rest) (hne : zs ≠ [])
    (hz : IsNeat zs) (h : spellAll as ++ rest = zs ++ rest') :
    as ≠ [] ∧ (∀ a ∈ as, a.number?.isSome = true) ∧ zs = spellAll as ∧ rest = rest' := by
  cases as with
  | nil =>
    obtain rfl : rest = zs ++ rest' := h
    exact absurd (eq_nil_of_endsArgument hrest hz) hne
  | cons a as =>
    obtain ⟨c, zs, rfl⟩ := List.exists_cons_of_ne_nil hne
    simp only [spellAll, List.cons_append, List.append_assoc, List.cons.injEq] at h
    obtain ⟨rfl, h⟩ := h
    obtain ⟨ha, ys, rfl, hys, htail⟩ := isSome_number?_of_depth? hz h
    obtain ⟨has, rfl, rfl⟩ := allNumbers_of_spellRest hrest hys htail
    exact ⟨List.cons_ne_nil a as, List.forall_mem_cons.mpr ⟨ha, has⟩, rfl, rfl⟩

/-- An argument that is read in one way among these keys, whatever stands behind it. -/
def IsRead (keys : Key → Prop) (a : KeyArgument) : Prop :=
  ∀ b, (∀ k, b = .key k → keys k) → ∀ {rest rest'}, EndsArgument rest → EndsArgument rest' →
    a.spell ++ rest = b.spell ++ rest' → a = b ∧ rest = rest'

variable {keys : Key → Prop} {bs : List KeyArgument}

/-- A number ends where its digits do. -/
theorem ends_number {n : Int} {b : KeyArgument} (hrest : EndsArgument rest)
    (hrest' : EndsArgument rest') (h : Suffix.spellInt n ++ rest = b.spell ++ rest') :
    b = .number n ∧ rest = rest' := by
  have hnumber (n : Int) : ∀ c ∈ Suffix.spellInt n, (c != ',' && c != '>') = true := by
    intro c hc
    obtain ⟨hinner, hcomma⟩ := isInner_of_mem_spellInt hc
    have hangle : c ≠ '>' := by
      rintro rfl
      cases hinner
    simp [hcomma, hangle]
  have hstop {rest : List Char} (hrest : EndsArgument rest) :
      ∀ c ∈ rest.head?, (c != ',' && c != '>') = false := by
    intro c hc
    rcases hrest c hc with rfl | rfl
    · rfl
    · rfl
  obtain ⟨htake, hdrop⟩ := takeWhile_eq_of_head (hnumber n) (hstop hrest)
  cases b with
  | key k =>
    obtain ⟨name, arguments⟩ := k
    have hhead : '!' ∈ (Suffix.spellInt n ++ rest).takeWhile fun c => c != ',' && c != '>' := by
      rw [h]
      simp [spell, Key.spell]
    rw [htake] at hhead
    exact absurd (isInner_of_mem_spellInt hhead).1 (by decide)
  | number m =>
    obtain ⟨htake', hdrop'⟩ := takeWhile_eq_of_head (hnumber m) (hstop hrest')
    rw [h] at htake hdrop
    have hsame := htake.symm.trans htake'
    exact ⟨congrArg number (spellInt_injective hsame).symm, hdrop.symm.trans hdrop'⟩

/-- Arguments are compared from the left. -/
theorem spellRest_inj (has : ∀ a ∈ as, IsRead keys a) (hbs : ∀ k, .key k ∈ bs → keys k)
    (h : spellRest as ++ rest = spellRest bs ++ rest') : as = bs ∧ rest = rest' := by
  induction as generalizing bs with
  | nil =>
    cases bs with
    | nil => exact ⟨rfl, (List.cons.inj h).2⟩
    | cons b bs => cases (List.cons.inj h).1
  | cons a as ih =>
    cases bs with
    | nil => cases (List.cons.inj h).1
    | cons b bs =>
      simp only [spellRest, List.cons_append, List.append_assoc, List.cons.injEq, true_and] at h
      obtain ⟨rfl, hrest⟩ := has a List.mem_cons_self b
        (fun k hk => hbs k (hk ▸ List.mem_cons_self))
        (endsArgument_spellRest _ _) (endsArgument_spellRest _ _) h
      obtain ⟨rfl, rfl⟩ := ih (fun a ha => has a (List.mem_cons_of_mem _ ha))
        (fun k hk => hbs k (List.mem_cons_of_mem _ hk)) hrest
      exact ⟨rfl, rfl⟩

theorem spellAll_inj (has : ∀ a ∈ as, IsRead keys a) (hbs : ∀ k, .key k ∈ bs → keys k)
    (hrest : EndsArgument rest) (hrest' : EndsArgument rest')
    (h : spellAll as ++ rest = spellAll bs ++ rest') : as = bs ∧ rest = rest' := by
  cases as with
  | nil =>
    obtain rfl : rest = spellAll bs ++ rest' := h
    obtain rfl := eq_nil_of_ends_spellAll hrest
    exact ⟨rfl, rfl⟩
  | cons a as =>
    cases bs with
    | nil =>
      obtain rfl : spellAll (a :: as) ++ rest = rest' := h
      cases eq_nil_of_ends_spellAll hrest'
    | cons b bs =>
      -- but for its mark the first argument is written like the others
      refine spellRest_inj has hbs ?_
      simpa [spellAll, spellRest] using h

end KeyArgument

/-! ## 4. Sets of keys -/

/-- The set has neat names and has, with a key, the keys among its arguments. Where these are all
numbers, no key has the full name. -/
structure Legible (keys : Key → Prop) : Prop where
  neat : ∀ {name arguments}, keys (.mk name arguments) → IsNeat name.toList
  closed : ∀ {name arguments}, keys (.mk name arguments) → ∀ k, .key k ∈ arguments → keys k
  numbered : ∀ {name arguments}, keys (.mk name arguments) → arguments ≠ [] →
    (∀ a ∈ arguments, a.number?.isSome = true) → ¬keys (.named (Key.mk name arguments).fullName)

namespace Legible

variable {keys : Key → Prop} (hkeys : Legible keys)

include hkeys

theorem toList_text (module : String) {k : Key} (hk : keys k) :
    (k.text module).toList = stamp module k.spell := by
  induction k using Key.induction with
  | h name arguments ih =>
    refine Key.toList_text (not_mem_of_depth? (hkeys.neat hk)) fun a ha => ?_
    cases a with
    | key k =>
      rw [KeyArgument.text, KeyArgument.spell]
      exact ih k ha (hkeys.closed hk k ha)
    | number n =>
      rw [KeyArgument.text, KeyArgument.spell, toList_toString, stamp_of_not_mem module]
      exact fun h => absurd (isInner_of_mem_spellInt h).1 (by decide)

/-- No name goes on into the arguments of a key. -/
theorem not_goesOn {name name' : String} {zs rest rest' : List Char}
    {arguments arguments' : List KeyArgument} (hk : keys (.mk name arguments))
    (hk' : keys (.mk name' arguments')) (hname : name'.toList = name.toList ++ zs) (hne : zs ≠ [])
    (hrest : EndsArgument rest) (h : KeyArgument.spellAll arguments ++ rest =
      zs ++ (KeyArgument.spellAll arguments' ++ rest')) : False := by
  have hz : IsNeat zs := by
    have hneat := hkeys.neat hk'
    unfold IsNeat at hneat
    rwa [hname, depth?_append, hkeys.neat hk, Option.bind_some] at hneat
  obtain ⟨harguments, hnumbers, rfl, rfl⟩ := KeyArgument.allNumbers_of_spellAll hrest hne hz h
  -- the arguments of the other key would stand where an argument ends
  obtain rfl := KeyArgument.eq_nil_of_ends_spellAll hrest
  have hfull : (Key.mk name arguments).fullName = name' := by
    rw [Key.fullName, Key.name, Key.arguments, ← hname, String.ofList_toList]
  exact hkeys.numbered hk harguments hnumbers (hfull ▸ hk')

/-- By induction on the key, as its arguments are keys of the set. -/
theorem isRead (k : Key) (hk : keys k) : KeyArgument.IsRead keys (.key k) := by
  induction k using Key.induction with
  | h name arguments ih =>
    have hread : ∀ a ∈ arguments, KeyArgument.IsRead keys a := by
      intro a ha
      cases a with
      | key k => exact ih k ha (hkeys.closed hk k ha)
      | number n =>
        intro b _ rest rest' hrest hrest' h
        obtain ⟨rfl, hsame⟩ := KeyArgument.ends_number hrest hrest' h
        exact ⟨rfl, hsame⟩
    intro b hb rest rest' hrest hrest' h
    cases b with
    | number n =>
      obtain ⟨heq, hsame⟩ := KeyArgument.ends_number hrest' hrest h.symm
      exact ⟨heq, hsame.symm⟩
    | key k' =>
      have hk' := hb k' rfl
      obtain ⟨name', arguments'⟩ := k'
      simp only [KeyArgument.spell, Key.spell, List.cons_append, List.cons.injEq, true_and,
        List.append_assoc] at h
      have hsame : name = name' := by
        rcases List.append_eq_append_iff.mp h with ⟨zs, hname, htail⟩ | ⟨zs, hname, htail⟩
        · by_contra hne
          refine hkeys.not_goesOn hk hk' hname ?_ hrest htail
          rintro rfl
          exact hne (String.toList_inj.mp (by simpa using hname.symm))
        · by_contra hne
          refine hkeys.not_goesOn hk' hk hname ?_ hrest' htail
          rintro rfl
          exact hne (String.toList_inj.mp (by simpa using hname))
      subst hsame
      obtain ⟨rfl, rfl⟩ := KeyArgument.spellAll_inj hread (hkeys.closed hk') hrest hrest'
        (List.append_cancel_left h)
      exact ⟨rfl, rfl⟩

/-- **Keys with one text are one key.** -/
theorem eq_of_text_eq {module : String} {k k' : Key} (hk : keys k) (hk' : keys k')
    (h : k.text module = k'.text module) : k = k' := by
  have hspell : k.spell = k'.spell := by
    refine stamp_injective module ?_
    rw [← hkeys.toList_text module hk, ← hkeys.toList_text module hk', h]
  have hends : EndsArgument [] := by simp [EndsArgument]
  obtain ⟨heq, -⟩ := hkeys.isRead k hk (.key k') (fun _ h => by cases h; exact hk') hends hends
    (congrArg (· ++ []) hspell)
  exact KeyArgument.key.inj heq

end Legible

end NativeTypes
