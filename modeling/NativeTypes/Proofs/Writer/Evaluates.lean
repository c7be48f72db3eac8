/-
NativeTypes.Proofs.Writer.Evaluates — which identifiers the code of packed
structures evaluates.

An expression for a type evaluates identifiers of instances that the type leads
to through instances without names (`exists_of_mem_uses`). One step of
`typeOf?` goes on behind a name: an enumeration that is not declared stands for
its underlying type. Such an enumeration embeds something invalid, and then
there is no expression for it at all (`typeOf?_eq_none`), so what is evaluated
is always reached as the order of declarations reaches it.

A member list evaluates nothing but identifiers that were given
(`layoutAs_given`); which instance they belong to does not matter there. The
class of an enumeration evaluates none at all (`enumerationBase_given`).

The declarations are bound one after the other, and what counts is whether an
identifier is bound when the text that contains it is evaluated. So the three
kinds of declarations are of different interest. A class of packed members is
declared empty first and gets its members at the end, when everything is bound;
so it is enough that the identifiers are bound at all. A prototype is evaluated
where it stands, and here it matters which instances its identifiers belong to,
since the order of declarations is about instances.
-/
import NativeTypes.Proofs.Export.Selection
import NativeTypes.Proofs.Naming.Identifiers
import NativeTypes.Proofs.Order.References
import NativeTypes.Proofs.Resolver.Reported
import NativeTypes.Proofs.TypeName.Tokens
import NativeTypes.Proofs.Writer.Steps

namespace NativeTypes.Ctypes

/-! ## 1. Expressions -/

/-- The expression for `u` is made of the one for `v`. -/
def GoesOn (g : Graph) (names : NameTable) (u v : Handle) : Prop :=
  match g.get u with
  | .pointer target _ => v = target
  | .array element _ => v = element
  | .enumeration e => v = e.underlying ∧ names.get? u = none ∧ (typeOf? g names u).isSome
  | _ => False

section

variable {g : Graph} {names : NameTable} {h : Handle} {ident : String}

/-- A pointer without a name is written with the expression for its target. -/
theorem goesOn_pointer {target : Handle} {size : Int} (hget : g.get h = .pointer target size) :
    GoesOn g names h target := by
  unfold GoesOn
  rw [hget]

/-- An array without a name is written with the expression for its element. -/
theorem goesOn_array {element : Handle} {length : Option Int}
    (hget : g.get h = .array element length) : GoesOn g names h element := by
  unfold GoesOn
  rw [hget]

theorem of_sized? {e : Option TypeExpression} {t : TypeExpression} (h : sized? e = some t) :
    e = some t :=
  (Option.filter_eq_some_iff.mp h).1

/-- What is evaluated where an instance stands for its declaration. -/
theorem get?_of_mem_uses (hident : ident ∈ (((names.get? h).map .declared).getD anyPointer).uses) :
    names.get? h = some ident := by
  cases hname : names.get? h with
  | none => simp [hname, anyPointer, TypeExpression.uses] at hident
  | some name =>
    rw [hname] at hident
    rw [List.mem_singleton.mp hident]

/-- What a pointer evaluates its target evaluates. -/
theorem mem_uses_pointerTo {e : Option TypeExpression}
    (hident : ident ∈ (((sized? e).map .pointerTo).getD anyPointer).uses) :
    ∃ t, e = some t ∧ ident ∈ t.uses := by
  cases he : sized? e with
  | none => simp [he, anyPointer, TypeExpression.uses] at hident
  | some t =>
    rw [he] at hident
    exact ⟨t, of_sized? he, hident⟩

/-- **An expression evaluates identifiers of instances that it is made of.** -/
theorem exists_of_mem_uses {t : TypeExpression} (ht : typeOf? g names h = some t)
    (hident : ident ∈ t.uses) :
    ∃ y, names.get? y = some ident ∧ Relation.ReflTransGen (GoesOn g names) h y := by
  induction h using Nat.strongRecOn generalizing t with
  | ind h ih =>
    have hself : ((names.get? h).map TypeExpression.declared) = some t →
        ∃ y, names.get? y = some ident ∧ Relation.ReflTransGen (GoesOn g names) h y := by
      intro hdeclared
      refine ⟨h, get?_of_mem_uses ?_, .refl⟩
      rw [hdeclared]
      exact hident
    have hsome : (typeOf? g names h).isSome := by rw [ht]; rfl
    rw [typeOf?] at ht
    cases hget : g.get h with
    | primitive kind =>
      rw [hget] at ht
      cases ht
      cases hident
    | pointer target size =>
      simp only [hget] at ht
      split at ht
      · rename_i hlt
        have hstep : GoesOn g names h target := goesOn_pointer hget
        split at ht
        · cases ht
          exact ⟨target, get?_of_mem_uses hident, .single hstep⟩
        · cases ht
          obtain ⟨t', ht', hident'⟩ := mem_uses_pointerTo hident
          obtain ⟨y, hy, hpath⟩ := ih target hlt ht' hident'
          exact ⟨y, hy, .head hstep hpath⟩
      · cases ht
        cases hident
    | array element length =>
      simp only [hget] at ht
      split at ht
      · rename_i hlt
        obtain ⟨t', ht', rfl⟩ := Option.map_eq_some_iff.mp ht
        obtain ⟨y, hy, hpath⟩ := ih element hlt (of_sized? ht') hident
        exact ⟨y, hy, .head (goesOn_array hget) hpath⟩
      · cases ht
    | enumeration e =>
      simp only [hget] at ht
      split at ht
      · rename_i name hname
        exact hself (by rw [hname]; exact ht)
      · rename_i hname
        split at ht
        · rename_i hlt
          obtain ⟨y, hy, hpath⟩ := ih e.underlying hlt ht hident
          refine ⟨y, hy, .head ?_ hpath⟩
          unfold GoesOn
          rw [hget]
          exact ⟨rfl, hname, hsome⟩
        · cases ht
    | aggregate a =>
      simp only [hget] at ht
      exact hself ht
    | function f =>
      simp only [hget] at ht
      exact hself ht
    | undefined name =>
      simp only [hget] at ht
      cases ht

/-- The same for a type in a signature. -/
theorem exists_of_mem_uses_signatureType (hident : ident ∈ (signatureType g names h).uses) :
    ∃ y, names.get? y = some ident ∧ Relation.ReflTransGen (GoesOn g names) h y := by
  unfold signatureType at hident
  split at hident
  · rename_i element length hget
    obtain ⟨t, ht, hident⟩ := mem_uses_pointerTo hident
    obtain ⟨y, hy, hpath⟩ := exists_of_mem_uses ht hident
    exact ⟨y, hy, .head (goesOn_array hget) hpath⟩
  · cases ht : typeOf? g names h with
    | none => simp [ht, anyPointer, TypeExpression.uses] at hident
    | some t =>
      rw [ht] at hident
      exact exists_of_mem_uses ht hident

theorem text_declared (ident : String) : (TypeExpression.declared ident).text = ident := rfl

theorem text_repeated (element : TypeExpression) (count : Int) :
    (TypeExpression.repeated element count).text =
      "(" ++ element.text ++ " * " ++ toString count ++ ")" := rfl

theorem text_pointerTo (target : TypeExpression) :
    (TypeExpression.pointerTo target).text = "ctypes.POINTER(" ++ target.text ++ ")" := rfl

/-- **An enumeration is based on a type that the library has**, so its class evaluates no
identifier. -/
theorem enumerationBase_given (hidentifiers : ∀ y name, names.get? y = some name →
    Naming.isIdentifier name) (e : Enumeration) : ∃ t, enumerationBase g names e = t.text ∧
      t.uses = [] ∧ (t = .given "ctypes.c_int32" ∨ typeOf? g names e.underlying = some t) := by
  unfold enumerationBase
  simp only
  split
  · rename_i hbase
    obtain ⟨rest, hrest⟩ := Option.isSome_iff_exists.mp hbase
    have hchars := Scanner.eq_append_of_after? hrest
    have hcommon : "ctypes.c_".toList = ['c', 't', 'y', 'p', 'e', 's', '.', 'c', '_'] := by decide
    rw [hcommon] at hchars
    cases htype : typeOf? g names e.underlying with
    | none =>
      rw [htype] at hchars
      cases hchars
    | some t =>
      rw [htype, Option.map_some, Option.getD_some] at hchars
      refine ⟨t, rfl, ?_, .inr rfl⟩
      cases t with
      | given text => rfl
      | declared name =>
        -- no identifier has a dot
        obtain ⟨y, hy, -⟩ := exists_of_mem_uses htype (List.mem_singleton_self name)
        have hall := hidentifiers y name hy
        rw [Naming.isIdentifier, ← text_declared name, hchars] at hall
        exact absurd hall (by simp [Naming.areIdentifierChars, Naming.isIdentifierChar])
      | repeated element count =>
        have hopen : "(".toList = ['('] := by decide
        simp [text_repeated, hopen] at hchars
      | pointerTo target =>
        have hopen : "ctypes.POINTER(".toList =
          ['c', 't', 'y', 'p', 'e', 's', '.', 'P', 'O', 'I', 'N', 'T', 'E', 'R', '('] := by decide
        simp [text_pointerTo, hopen] at hchars
  · exact ⟨.given "ctypes.c_int32", rfl, rfl, .inl rfl⟩

end

/-! ## 2. What is not declared -/

section

variable {σ : Type} {s : Resolver.State σ} {task : Resolver.Task σ} {names : NameTable}
  {h y : Handle} {ident : String}

/-- Identifiers are given to the selected instances. -/
def NamesSelected (task : Resolver.Task σ) (s : Resolver.State σ) (names : NameTable) : Prop :=
  ∀ h, (names.get? h).isSome ↔ h ∈ Export.selected task.module s.graph s.registry

variable (hs : Resolver.Reached task s) (hnames : NamesSelected task s names)
include hs hnames

/-- What embeds something invalid is not selected. -/
theorem get?_eq_none_of_invalid (hpath : Relation.ReflTransGen s.graph.Embeds h y)
    (hinvalid : s.registry.isInvalid y = true) : names.get? h = none := by
  rw [← Option.not_isSome_iff_eq_none, hnames,
    Export.mem_selected_iff hs.settled.coherent hs.settled.parts]
  rintro ⟨-, -, hvalid⟩
  rw [hvalid y hpath] at hinvalid
  cases hinvalid

/-- **There is no expression for what embeds something invalid**, unless it is by an aggregate
that is declared. -/
theorem typeOf?_eq_none (hpath : Relation.ReflTransGen s.graph.Embeds h y)
    (hinvalid : s.registry.isInvalid y = true) : typeOf? s.graph names h = none := by
  obtain ⟨a, ha⟩ := hs.aggregate_of_invalid hinvalid
  have hname := get?_eq_none_of_invalid hs hnames hpath hinvalid
  induction h using Nat.strongRecOn with
  | ind h ih =>
    -- what is no aggregate is not the invalid one itself
    have hstep : (∀ a, s.graph.get h ≠ .aggregate a) → ∃ z ∈ (s.graph.get h).valueParts,
        Relation.ReflTransGen s.graph.Embeds z y := by
      intro hnot
      rcases Relation.ReflTransGen.cases_head hpath with rfl | ⟨z, hz, hzy⟩
      · exact absurd ha (hnot a)
      · exact ⟨z, hz, hzy⟩
    rw [typeOf?]
    cases hget : s.graph.get h with
    | array element length =>
      obtain ⟨z, hz, hzy⟩ := hstep (by simp [hget])
      rw [hget] at hz
      cases List.mem_singleton.mp hz
      simp only
      split
      · rename_i hlt
        rw [ih element hlt hzy (get?_eq_none_of_invalid hs hnames hzy hinvalid)]
        rfl
      · rfl
    | enumeration e =>
      obtain ⟨z, hz, hzy⟩ := hstep (by simp [hget])
      rw [hget] at hz
      cases List.mem_singleton.mp hz
      simp only [hname]
      split
      · rename_i hlt
        exact ih e.underlying hlt hzy (get?_eq_none_of_invalid hs hnames hzy hinvalid)
      · rfl
    | aggregate b => simp only [hname, Option.map_none]
    | function f => simp only [hname, Option.map_none]
    | undefined name => rfl
    | primitive kind =>
      obtain ⟨z, hz, -⟩ := hstep (by simp [hget])
      rw [hget] at hz
      cases hz
    | pointer target size =>
      obtain ⟨z, hz, -⟩ := hstep (by simp [hget])
      rw [hget] at hz
      cases hz

/-- An enumeration that is not declared has no expression. -/
theorem typeOf?_enumeration {e : Enumeration} (hget : s.graph.get h = .enumeration e)
    (hname : names.get? h = none) : typeOf? s.graph names h = none := by
  have hnot : h ∉ Export.selected task.module s.graph s.registry := by
    rw [← hnames, hname]
    simp
  rw [Export.mem_selected_iff hs.settled.coherent hs.settled.parts] at hnot
  have hlt : h < s.graph.count := by
    refine Graph.lt_count_of_parts (Instance.mem_parts_of_valueParts (h := e.underlying) ?_)
    rw [hget]
    exact List.mem_singleton_self _
  have hkey := (hs.settled.registered h).mpr hlt
  have hinvalid : ∃ y, Relation.ReflTransGen s.graph.Embeds h y ∧
      s.registry.isInvalid y = true := by
    by_contra hnone
    refine hnot ⟨hkey, by rw [hget]; rfl, fun y hy => ?_⟩
    rw [← Bool.not_eq_true]
    exact fun hinvalid => hnone ⟨y, hy, hinvalid⟩
  obtain ⟨y, hpath, hinvalid⟩ := hinvalid
  exact typeOf?_eq_none hs hnames hpath hinvalid

/-- An expression goes on through instances without names. -/
theorem mem_steps_of_goesOn {u v : Handle} (hstep : GoesOn s.graph names u v) (byValue : Bool) :
    ∃ flag, (v, flag) ∈ s.graph.steps (u, byValue) := by
  unfold GoesOn at hstep
  split at hstep
  · rename_i target size hget
    cases hstep
    exact ⟨_, Graph.mem_steps_of_mem_parts (by simp [hget, Instance.isNamed])
      (Instance.mem_parts_of_referenceParts (by simp [hget, Instance.referenceParts]))⟩
  · rename_i element length hget
    cases hstep
    exact ⟨_, Graph.mem_steps_of_mem_parts (by simp [hget, Instance.isNamed])
      (Instance.mem_parts_of_valueParts (by simp [hget, Instance.valueParts]))⟩
  · rename_i e hget
    obtain ⟨-, hname, hsome⟩ := hstep
    rw [typeOf?_enumeration hs hnames hget hname] at hsome
    cases hsome
  · cases hstep

/-- So the parts of an expression are what the order of declarations leads to. -/
theorem leads_of_goesOn (hpath : Relation.ReflTransGen (GoesOn s.graph names) h y)
    (byValue : Bool) : ∃ flag, s.graph.Leads (h, byValue) (y, flag) := by
  induction hpath with
  | refl => exact ⟨byValue, .refl⟩
  | tail _ hstep ih =>
    obtain ⟨flag, hleads⟩ := ih
    obtain ⟨flag', hmem⟩ := mem_steps_of_goesOn hs hnames hstep flag
    exact ⟨flag', hleads.tail hmem⟩

/-- **A signature evaluates identifiers of instances that the function type mentions.** -/
theorem mentions_of_mem_signature {f : FunctionType} (hget : s.graph.get h = .function f)
    (hident : ident ∈ (signature s.graph names f).flatMap TypeExpression.uses) :
    ∃ y, names.get? y = some ident ∧ s.graph.Mentions h y := by
  obtain ⟨t, ht, hident⟩ := List.mem_flatMap.mp hident
  have hpart : ∃ part ∈ f.result :: f.parameters, t = signatureType s.graph names part := by
    unfold signature at ht
    rw [← List.map_cons] at ht
    obtain ⟨part, hpart, rfl⟩ := List.mem_map.mp ht
    exact ⟨part, hpart, rfl⟩
  obtain ⟨part, hpart, rfl⟩ := hpart
  obtain ⟨y, hy, hpath⟩ := exists_of_mem_uses_signatureType hident
  obtain ⟨flag, hleads⟩ := leads_of_goesOn hs hnames hpath false
  refine ⟨y, hy, (part, false), Instance.mem_parts_of_referenceParts ?_, flag, hleads⟩
  rw [hget]
  exact hpart

end

/-! ## 3. Member lists -/

section

variable {g : Graph} {names : NameTable}

/-- Every identifier in an expression was given to some instance. -/
theorem given_typeOf? {h : Handle} {t : TypeExpression} (ht : typeOf? g names h = some t) :
    ∀ ident ∈ t.uses, ∃ y, names.get? y = some ident := by
  intro ident hident
  obtain ⟨y, hy, -⟩ := exists_of_mem_uses ht hident
  exact ⟨y, hy⟩

variable (g) in
/-- **A member list evaluates nothing but identifiers that were given.** -/
theorem layoutAs_given (memberNames : List String) (a : Aggregate) :
    ∀ e ∈ (layoutAs g names memberNames a).entries, ∀ ident ∈ e.uses,
      ∃ h, names.get? h = some ident := by
  intro e he
  cases made_layoutAs g names memberNames a e he with
  | base _ htype _ => exact given_typeOf? htype
  | field _ _ htype => exact given_typeOf? htype
  | padding | bits | filler => exact fun _ hident => absurd hident List.not_mem_nil

end

end NativeTypes.Ctypes
