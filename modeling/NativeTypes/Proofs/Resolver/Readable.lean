/-
NativeTypes.Proofs.Resolver.Readable — where the keys that arise are legible.

Names that are read as type names have neat canonical spellings, and so have
the names that are made up for pointers, arrays, functions and types without
name. What is left are names that are given and are no type names: those of
described types, and texts that were declared. If these are neat, and if
nothing else goes by the full name of a struct or union whose arguments are
numbers (`Readable`), then the keys that arise are known by their texts
(`Readable.legible`).

The two conditions are those under which two keys can have one text. A name
that is not neat may contain the marks that separate arguments. And a template
whose arguments are numbers is written with its canonical name, as its text and
as the name of something else alike; arguments that are types have the module
in their texts, with a mark that no neat name contains.
-/
import NativeTypes.Proofs.Resolver.Keying
import NativeTypes.Proofs.TypeName.Neat

namespace NativeTypes

open Text

/-! ## 1. Names that are made up -/

/-- Ids are written in hexadecimal digits. -/
theorem isNeat_hexInt (n : Int) : IsNeat (hexInt n) := by
  have hdigits (n : Nat) : IsNeat (Nat.toDigits 16 n) := by
    have hall : ∀ i : Fin 16, isInner (Nat.digitChar i) = true ∧ Nat.digitChar i ≠ ',' := by
      decide
    refine depth?_of_plain (fun c hc => ?_) 0
    obtain ⟨i, rfl⟩ := exists_of_mem_toDigits hc
    exact hall i
  unfold hexInt
  split
  · exact (show IsNeat ['-'] from rfl).append (hdigits _)
  · exact hdigits _

/-- A type without name is named by its id in angles. -/
theorem Shape.isNeat_title {shape : Shape} (hname : IsNeat shape.name.toList) :
    IsNeat shape.title.toList := by
  unfold title
  split
  · exact hname
  · split
    · rename_i id _
      have hmark : anonymousMark.toList = '<' :: "anonymous".toList := by decide
      have hinner : IsNeat ("anonymous".toList ++ ("-".toList ++ hexInt id)) :=
        IsNeat.append (by decide) (IsNeat.append (by decide) (isNeat_hexInt id))
      have htitle : IsNeat ('<' :: ("anonymous".toList ++ ("-".toList ++ hexInt id) ++ ['>'])) :=
        isNeat_brackets rfl ⟨rfl, rfl⟩ (hinner.depth? 1)
      simpa [String.toList_append, hmark] using htitle
    · exact rfl

/-- The names of derived types are fixed words and digits. -/
theorem isNeat_pointer (key : Key) : IsNeat (Key.pointer key).name.toList :=
  (by decide : IsNeat "*".toList)

theorem isNeat_array (key : Key) (length : Option Int) :
    IsNeat (Key.array key length).name.toList := by
  have hlength : IsNeat (Key.lengthText length).toList := by
    cases length with
    | none => rfl
    | some n =>
      rw [Key.lengthText, toList_toString]
      exact isNeat_spellInt n
  have hname : IsNeat ('[' :: ((Key.lengthText length).toList ++ [']'])) :=
    isNeat_brackets rfl ⟨rfl, rfl⟩ (hlength.depth? 1)
  simpa [Key.array, Key.name] using hname

theorem isNeat_token (kind : Primitive) : IsNeat (Key.primitive kind).name.toList := by
  cases kind <;> decide

/-! ## 2. Full names -/

/-- Numbers are spelled in the text of a key as they are in the name of a type. -/
theorem spellRest_of_fixedArguments? {as : List Argument} {keys : List KeyArgument}
    (h : fixedArguments? as = some keys) : KeyArgument.spellRest keys =
      (spellArguments as).flatMap (argumentMark ++ ·) ++ ['>'] := by
  induction as generalizing keys with
  | nil =>
    cases h
    rfl
  | cons a rest ih =>
    cases a with
    | type t => cases h
    | number n =>
      obtain ⟨keys', hrest, rfl⟩ := Option.map_eq_some_iff.mp h
      rw [KeyArgument.spellRest, ih hrest]
      simp [spellArguments, argumentMark, KeyArgument.spell, Argument.spell]

/-- **A template whose arguments are numbers has its canonical name as full name.** -/
theorem fullName_of_fixedArguments? {t : TypeName} {keys : List KeyArgument}
    (htemplate : t.isTemplate = true) (hsuffixes : t.suffixes = [])
    (h : fixedArguments? t.arguments = some keys) (hne : keys ≠ []) :
    (Key.mk t.baseName keys).fullName = t.format := by
  have hall : KeyArgument.spellAll keys =
      '<' :: (List.intercalate argumentMark (spellArguments t.arguments) ++ ['>']) := by
    cases harguments : t.arguments with
    | nil =>
      rw [harguments] at h
      cases h
      exact absurd rfl hne
    | cons a rest =>
      rw [harguments] at h
      cases a with
      | type u => cases h
      | number n =>
        obtain ⟨keys', hrest, rfl⟩ := Option.map_eq_some_iff.mp h
        rw [KeyArgument.spellAll, spellRest_of_fixedArguments? hrest, spellArguments,
          flatMap_intercalate, List.append_assoc]
        rfl
  rw [TypeName.format_of_isTemplate htemplate hsuffixes, Key.fullName, Key.name, Key.arguments,
    hall, String.ofList_append, String.ofList_toList]
  rfl

namespace Resolver

variable {describe : Description} {met : String → Prop}

/-- What names need so that keys can be told by their texts. -/
structure Readable (describe : Description) (met : String → Prop) : Prop where
  shapes : ∀ ref shape, describe ref = some shape → shape.kind ≠ .primitive →
    IsNeat shape.name.toList
  texts : ∀ text e, met text → TypeName.parse text = .error e → IsNeat (Text.trim text.toList)
  numbered : ∀ ref shape t keys, describe ref = some shape → shape.isAggregate = true →
    (TypeName.parsePlain? shape.title).filter TypeName.isTemplate = some t →
    fixedArguments? t.arguments = some keys → keys ≠ [] → ¬Arises describe met (.named t.format)

theorem isNeat_keyOfName {name : String} (h : IsNeat name.toList) :
    IsNeat (keyOfName name).name.toList := by
  unfold keyOfName
  cases hparse : TypeName.parsePlain? name with
  | none => exact h
  | some t =>
    obtain ⟨hok, -⟩ := Option.filter_eq_some_iff.mp hparse
    exact TypeName.isNeat_format (parse_of_parse? hok)

theorem isNeat_labelOf {ref : Ref} (h : IsDescribed ref) : IsNeat (labelOf ref).toList := by
  cases ref with
  | id n =>
    have hmark : IsNeat "#".toList := by decide
    simpa [labelOf] using hmark.append (isNeat_hexInt n)
  | name text =>
    obtain ⟨t, hparse, -, hformat⟩ := h
    exact hformat ▸ TypeName.isNeat_format hparse

variable {key : Key} {name : String} {arguments : List KeyArgument}

/-- Whatever arises has a neat name. -/
theorem Arises.isNeat (hread : Readable describe met) (h : Arises describe met key) :
    IsNeat key.name.toList := by
  have htitle {ref : Ref} {shape : Shape} (hshape : describe ref = some shape)
      (hkind : shape.kind ≠ .primitive) : IsNeat shape.title.toList :=
    Shape.isNeat_title (hread.shapes ref shape hshape hkind)
  cases h with
  | primitive kind => exact isNeat_token kind
  | pointer => exact isNeat_pointer _
  | array length => exact isNeat_array _ length
  | function variadic =>
    cases variadic with
    | false => exact (by decide : IsNeat "()".toList)
    | true => exact (by decide : IsNeat "(...)".toList)
  | enumeration hshape hkind => exact isNeat_keyOfName (htitle hshape (by simp [hkind]))
  | aggregate hshape hkind =>
    refine isNeat_keyOfName (htitle hshape fun hprimitive => ?_)
    simp [Shape.isAggregate, hprimitive] at hkind
  | template _ _ ht =>
    obtain ⟨hplain, -⟩ := Option.filter_eq_some_iff.mp ht
    obtain ⟨hok, -⟩ := Option.filter_eq_some_iff.mp hplain
    exact TypeName.isNeat_baseName (parse_of_parse? hok)
  | label hdescribed => exact isNeat_labelOf hdescribed
  | unmodelled hshape hkind =>
    refine hread.shapes _ _ hshape fun hprimitive => ?_
    simp [hprimitive] at hkind
  | refused hmet hparse =>
    rw [Key.named, Key.name, String.toList_ofList]
    exact hread.texts _ _ hmet hparse

theorem arguments_keyOfName (name : String) : (keyOfName name).arguments = [] := by
  unfold keyOfName
  split
  · rfl
  · rfl

/-- The keys among the arguments of a key arose before it. -/
theorem Arises.argument (h : Arises describe met key) {k : Key} (hk : .key k ∈ key.arguments) :
    Arises describe met k := by
  have hnone {name : String} (hk : .key k ∈ (Key.named name).arguments) :
      Arises describe met k := absurd hk List.not_mem_nil
  have hnamed {name : String} (hk : .key k ∈ (keyOfName name).arguments) :
      Arises describe met k := by
    rw [arguments_keyOfName] at hk
    exact absurd hk List.not_mem_nil
  cases h with
  | primitive => exact hnone hk
  | pointer htarget =>
    cases List.mem_singleton.mp hk
    exact htarget
  | array length helement =>
    cases List.mem_singleton.mp hk
    exact helement
  | function variadic hresult hparameters =>
    rcases List.mem_cons.mp hk with heq | hk
    · cases heq
      exact hresult
    · obtain ⟨p, hp, heq⟩ := List.mem_map.mp hk
      cases heq
      exact hparameters _ hp
  | enumeration => exact hnamed hk
  | aggregate => exact hnamed hk
  | template _ _ _ hkeys => exact hkeys k hk
  | label => exact hnone hk
  | unmodelled => exact hnone hk
  | refused => exact hnone hk

/-- Only a struct or union has arguments that are all numbers. -/
theorem Arises.numbered (hread : Readable describe met) (h : Arises describe met key)
    (hne : key.arguments ≠ []) (hall : ∀ a ∈ key.arguments, a.number?.isSome = true) :
    ¬Arises describe met (.named key.fullName) := by
  have hkey {k : Key} (hk : .key k ∈ key.arguments) : False := by
    cases hall _ hk
  cases h with
  | primitive => exact absurd rfl hne
  | pointer => exact (hkey List.mem_cons_self).elim
  | array => exact (hkey List.mem_cons_self).elim
  | function => exact (hkey List.mem_cons_self).elim
  | enumeration => exact absurd (arguments_keyOfName _) hne
  | aggregate => exact absurd (arguments_keyOfName _) hne
  | @template ref shape t keys hshape hkind ht _ hnumbers =>
    obtain ⟨hplain, htemplate⟩ := Option.filter_eq_some_iff.mp ht
    obtain ⟨-, hsuffixes⟩ := Option.filter_eq_some_iff.mp hplain
    have hfixed := fixedArguments?_of_map_number? hnumbers hall
    rw [fullName_of_fixedArguments? htemplate (List.isEmpty_iff.mp hsuffixes) hfixed hne]
    exact hread.numbered ref shape t keys hshape hkind ht hfixed hne
  | label => exact absurd rfl hne
  | unmodelled => exact absurd rfl hne
  | refused => exact absurd rfl hne

/-- **The keys that arise are legible.** -/
theorem Readable.legible (hread : Readable describe met) : Legible (Arises describe met) where
  neat := fun h => h.isNeat hread
  closed := fun h _ hk => h.argument hk
  numbered := fun h hne hall => h.numbered hread hne hall

end Resolver

end NativeTypes
