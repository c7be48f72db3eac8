/-
NativeTypes.Proofs.Source.Lookups — how a look-up in a catalog ends.

A look-up answers, or reports that its module is not known. Two things come
between (`lookup_documented_iff`): a name that cannot be written, and a
built-in name as wide as a pointer, such as `long`, in a module whose
pointers have a size that no integer has. Integers have 1, 2, 4, 8 or 16
bytes (`exists_integer_iff`), and nothing keeps a module from giving its
pointers another size (`exists_widthless`).

The size of pointers matters for no other names
(`ModuleTable.lookup_congr`).
-/
import NativeTypes.Proofs.Runs
import NativeTypes.Proofs.Text.Decimal
import NativeTypes.Snapshot

namespace NativeTypes

/-! ## 1. Integers by size -/

namespace Primitive

/-- The sizes, in bytes, that integers have. -/
def integerSizes : List Int := [1, 2, 4, 8, 16]

/-- What is left of a token behind the word for integers is a count of bits. -/
theorem drop_token (kind : Primitive) (signed : Bool) :
    let word := (if signed then "int" else "uint").toList
    ¬ word <+: kind.token.toList ∨
      ∃ size ∈ integerSizes, kind.token.toList.drop word.length = Suffix.spellInt (size * 8) := by
  cases kind <;> cases signed <;> decide

theorem bits_of_token {kind : Primitive} {signed : Bool} {bits : Int}
    (h : kind.token = (if signed then "int" else "uint") ++ toString bits) :
    ∃ size ∈ integerSizes, bits = size * 8 := by
  have hlist := congrArg String.toList h
  rw [String.toList_append, Text.toList_toString] at hlist
  obtain hword | ⟨size, hsize, hdrop⟩ := drop_token kind signed
  · exact absurd ⟨_, hlist.symm⟩ hword
  · rw [hlist, List.drop_left] at hdrop
    exact ⟨size, hsize, Text.spellInt_injective hdrop⟩

/-- An integer has one of five sizes, whether it is signed or not. -/
theorem exists_integer_iff (size : Int) (signed : Bool) :
    (∃ kind, integer size signed = .ok kind) ↔ size ∈ integerSizes := by
  constructor
  · rintro ⟨kind, h⟩
    unfold integer at h
    split at h
    · unfold ofToken at h
      split at h
      · rename_i found hfound
        obtain ⟨found, hmem, hbits⟩ := bits_of_token (token_of_ofToken? hfound)
        obtain rfl : size = found := by omega
        exact hmem
      · cases h
    · cases h
  · intro h
    have hkinds : ∀ size ∈ integerSizes, ∀ signed, ∃ kind ∈ all,
        integer size signed = .ok kind := by decide +kernel
    obtain ⟨kind, -, hkind⟩ := hkinds size h signed
    exact ⟨kind, hkind⟩

/-! ## 2. Built-in names -/

/-- The name of an integer as wide as a pointer; it may stand in the scope `std`. -/
def IsPointerWide (name : String) : Prop :=
  ∃ text, TypeName.normalize name = .ok text ∧
    (pointerWideNames.lookup (withoutStd text)).isSome

/-- A name without an answer, where pointers have this size. -/
def FailsAt (name : String) (pointerSize : Int) : Prop :=
  TypeName.normalize name = .error .tooManyDigits ∨
    IsPointerWide name ∧ pointerSize ∉ integerSizes

/-- No name as wide as a pointer is one with a kind of its own. -/
theorem fixedNames_lookup {text : String} {signed : Bool}
    (h : pointerWideNames.lookup text = some signed) : fixedNames.lookup text = none := by
  have hnone : ∀ entry ∈ pointerWideNames, fixedNames.lookup entry.1 = none := by decide +kernel
  obtain ⟨l₁, l₂, hsplit, -⟩ := List.lookup_eq_some_iff.mp h
  exact hnone (text, signed) (hsplit ▸ by simp)

theorem ofBuiltinName_of_pointerWide {name text : String} {signed : Bool}
    (htext : TypeName.normalize name = .ok text)
    (hwide : pointerWideNames.lookup (withoutStd text) = some signed) (pointerSize : Int) :
    ofBuiltinName name pointerSize = (integer pointerSize signed).map some := by
  simp only [ofBuiltinName, htext, fixedNames_lookup hwide, hwide]

/-- The size of pointers matters only for names as wide as a pointer. -/
theorem ofBuiltinName_congr {name : String} (h : ¬ IsPointerWide name) (m n : Int) :
    ofBuiltinName name m = ofBuiltinName name n := by
  cases htext : TypeName.normalize name with
  | error fault => cases fault <;> simp only [ofBuiltinName, htext]
  | ok text =>
    cases hwide : pointerWideNames.lookup (withoutStd text) with
    | none => simp only [ofBuiltinName, htext, hwide]
    | some signed => exact absurd ⟨text, htext, by rw [hwide]; rfl⟩ h

theorem exists_ofBuiltinName_iff (name : String) (pointerSize : Int) :
    (∃ answer, ofBuiltinName name pointerSize = .ok answer) ↔ ¬ FailsAt name pointerSize := by
  cases htext : TypeName.normalize name with
  | error fault =>
    have hnarrow : ¬ IsPointerWide name := by
      rintro ⟨text, hok, -⟩
      cases htext.symm.trans hok
    simp only [ofBuiltinName, FailsAt, htext, hnarrow, false_and, or_false]
    cases fault <;> simp
  | ok text =>
    have hwide : IsPointerWide name ↔ (pointerWideNames.lookup (withoutStd text)).isSome := by
      simp [IsPointerWide, htext]
    simp only [FailsAt, htext, hwide, reduceCtorEq, false_or]
    cases hlookup : pointerWideNames.lookup (withoutStd text) with
    | none =>
      simp only [ofBuiltinName, htext, hlookup]
      cases fixedNames.lookup (withoutStd text) <;> simp
    | some signed =>
      rw [ofBuiltinName_of_pointerWide htext hlookup]
      simp only [Option.isSome_some, true_and, not_not, ← exists_integer_iff pointerSize signed]
      cases integer pointerSize signed <;> simp [Except.map]

end Primitive

/-! ## 3. Look-ups -/

theorem TypeName.nameKey?_eq_none_iff (text : String) :
    nameKey? text = none ↔ normalize text = .error .tooManyDigits := by
  unfold nameKey? normalize
  cases parse text with
  | error fault => simp
  | ok t =>
    cases hwritten : t.written? <;> simp [hwritten]

namespace ModuleTable

/-- A reference that these tables neither find nor miss: a name that is not in them and has no
answer among the built-in ones. -/
def FailsAt (table : ModuleTable) : Ref → Prop
  | .id _ => False
  | .name text => Primitive.FailsAt text table.pointerSize ∧
      ∀ key, TypeName.nameKey? text = some key → table.byName.get? key = none

theorem exists_lookup_iff (table : ModuleTable) (ref : Ref) :
    (∃ answer, table.lookup ref = .ok answer) ↔ ¬ table.FailsAt ref := by
  cases ref with
  | id value => simp [lookup, FailsAt]
  | name text =>
    simp only [lookup, FailsAt]
    cases hkey : TypeName.nameKey? text with
    | none =>
      have hlong : Primitive.FailsAt text table.pointerSize :=
        .inl ((TypeName.nameKey?_eq_none_iff text).mp hkey)
      simp [hlong]
    | some key =>
      cases hfound : table.byName.get? key with
      | some shape => simp [hfound]
      | none =>
        have hbuiltin := Primitive.exists_ofBuiltinName_iff text table.pointerSize
        cases hanswer : Primitive.ofBuiltinName text table.pointerSize with
        | ok answer => simpa [hanswer, hfound, Except.map] using hbuiltin
        | error fault => simpa [hanswer, hfound, Except.map] using hbuiltin

/-- Tables with the same entries answer alike, save for names as wide as a pointer where the
sizes of pointers differ. -/
theorem lookup_congr {table table' : ModuleTable} (hname : table'.byName = table.byName)
    (hid : table'.byId = table.byId) {ref : Ref}
    (href : ∀ text, ref = .name text → ¬ Primitive.IsPointerWide text) :
    table'.lookup ref = table.lookup ref := by
  cases ref with
  | id value => simp only [lookup, hid]
  | name text =>
    simp only [lookup, hname,
      Primitive.ofBuiltinName_congr (href text rfl) table'.pointerSize table.pointerSize]

end ModuleTable

namespace Catalog

theorem lookup_eq_of_known {c : Catalog} {module : String} {table : ModuleTable}
    (h : c.tables.get? module = some table) (ref : Ref) :
    (c.lookup module ref).1 = (table.lookup ref).mapError .primitive := by
  rw [lookup, shape?, Catalog.table, h]
  rfl

theorem lookup_eq_of_unknown {c : Catalog} {module : String}
    (h : c.tables.get? module = none) (ref : Ref) :
    (c.lookup module ref).1 = .error (.unknownModule module (some ref)) := by
  rw [lookup, shape?, Catalog.table, h]
  rfl

/-- **A look-up answers or reports its failure, unless the tables of the module fail at the
reference**: the name cannot be written, or it is a built-in one as wide as pointers and no integer
has their size. What is reported is that the module is not known, and that alone. The built-in
names fail in the same two ways. -/
theorem lookup_documented_iff (c : Catalog) (module : String) (ref : Ref) :
    (((∃ answer, (c.lookup module ref).1 = .ok answer) ∨
        ∃ fault, (c.lookup module ref).1 = .error (.query fault)) ↔
      ¬ ∃ table, c.tables.get? module = some table ∧ table.FailsAt ref) ∧
    ((∃ fault, (c.lookup module ref).1 = .error (.query fault)) ↔
      c.tables.get? module = none) ∧
    ∀ name pointerSize, (∃ answer, Primitive.ofBuiltinName name pointerSize = .ok answer) ↔
      ¬ Primitive.FailsAt name pointerSize := by
  refine ⟨?_, ?_, Primitive.exists_ofBuiltinName_iff⟩
  · cases htable : c.tables.get? module with
    | none => simp [lookup_eq_of_unknown htable, SourceFault.unknownModule]
    | some table =>
      have hanswers := table.exists_lookup_iff ref
      rw [lookup_eq_of_known htable]
      cases hlookup : table.lookup ref <;> simp_all [Except.mapError]
  · cases htable : c.tables.get? module with
    | none => simp [lookup_eq_of_unknown htable, SourceFault.unknownModule]
    | some table =>
      -- What goes wrong inside the tables is never a report.
      rw [lookup_eq_of_known htable]
      cases table.lookup ref <;> simp [Except.mapError]

/-- A module may give its pointers a size that no integer has. -/
theorem exists_widthless : ∃ c, Snapshot.load "(module \"m\" (pointer-size 3))" {} = .ok () c ∧
    (c.lookup "m" (.name "long")).1 = .error (.primitive (.unknownToken ⟨"int24"⟩)) := by
  decide +kernel

end Catalog

end NativeTypes
