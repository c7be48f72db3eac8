/-
NativeTypes.Proofs.Writer.Natural — generated code does not depend on handles.

`Writer.Natural` — of a graph under other handles a writer makes the same code:
the same fragment for an instance, under its new handle, and the same source
from these fragments. The graphs are related by `Graph.Renames` and the name
tables by `NameTable.Renames`, for one bijection of handles. It is asked for a
bijection and not for an injection because the tables say what names the new
handles have and nothing about others.

What all writers say about a type and how they call it is the same
(`describe_rename`, `nameOf_rename`); the rest is the matter of each writer,
and the theorems on the order of roots take it as a hypothesis.

For accessor classes it is shown here. The functions of the writer read three
things: the aggregate's own parts, which are renamed; the name table, which is
looked up at the types of these parts; and the graph, for the names to show. So
for each of them there is one equation, and the proofs follow the recursion on
bases and members. What is read off an aggregate is the same under other
handles: the base that is inherited from (`inherited?_rename`), the bases that
are exposed (`exposed_rename`), the properties (`properties_rename`). How a
type is referred to is a parameter of these functions; that it is the same for
both graphs is the hypothesis `href`, which the theorem discharges with what is
known of type references.
-/
import NativeTypes.Proofs.Naming.Renaming
import NativeTypes.Writer.Accessor
import NativeTypes.Writer.Basic

namespace NativeTypes

/-- The fragment under another handle. -/
def Fragment.rename (f : Handle → Handle) (x : Fragment) : Fragment :=
  { x with handle := f x.handle }

/-- Of a graph under other handles the writer makes the same code. -/
structure Writer.Natural (w : Writer) : Prop where
  declare : ∀ {f : Handle ≃ Handle} {g g' : Graph} {names names' : NameTable},
    Graph.Renames f g g' → NameTable.Renames f names names' → ∀ h,
    w.declare g' names' (Naming.members g') (f h) =
      (w.declare g names (Naming.members g) h).map (Fragment.rename f)
  assemble : ∀ {f : Handle ≃ Handle} {g g' : Graph}, Graph.Renames f g g' →
    ∀ (module : String) (fragments : List Fragment),
    w.assemble g' module (fragments.map (Fragment.rename f)) = w.assemble g module fragments

section

variable {f : Handle ≃ Handle} {g g' : Graph} {names names' : NameTable}
  (hg : Graph.Renames f g g') (hn : NameTable.Renames f names names')

namespace Writer

include hg

/-- A type is shown by its words and names, without handles. -/
theorem shown_rename (h : Handle) : g'.shown (f h) = g.shown h := by
  unfold Graph.shown
  rw [hg.displayName, hg.get, Instance.label_rename]

/-- The line that describes a type. -/
theorem describe_rename (h : Handle) : describe g' (f h) = describe g h := by
  unfold describe
  rw [hg.byteSize, hg.displayName, hg.get]
  cases g.get h with
  | _ => rfl

/-- Why a type cannot be declared. -/
theorem undeclarable_rename (h : Handle) : undeclarable g' (f h) = undeclarable g h := by
  unfold undeclarable
  rw [hg.get, Instance.kindWord_rename, hg.displayName]

include hn

/-- The identifier of a type, or that it has none. -/
theorem nameOf_rename (h : Handle) : nameOf g' names' (f h) = nameOf g names h := by
  unfold nameOf
  rw [hn h, shown_rename hg]

end Writer

end

end NativeTypes

namespace NativeTypes.Accessor

section

variable {f : Handle ≃ Handle} {g g' : Graph} {names names' : NameTable}
  (hg : Graph.Renames f g g') (hn : NameTable.Renames f names names')

/-- The base under another handle. -/
def ExposedBase.rename (f : Handle → Handle) (b : ExposedBase) : ExposedBase :=
  { b with part := b.part.rename f }

include hn

/-- Whether a base can be inherited from depends on its offset and on whether its type has a
name. -/
theorem isInheritable_rename (b : BasePart) :
    isInheritable names' (b.rename f) = isInheritable names b := by
  unfold isInheritable Assoc.has
  exact congrArg _ (congrArg Option.isSome (hn b.type))

/-- The base that is inherited from is the first that can be. -/
theorem inherited?_rename (a : Aggregate) :
    inherited? names' (a.rename f) = (inherited? names a).map (BasePart.rename f) := by
  unfold inherited? Aggregate.rename
  rw [List.find?_map]
  refine congrArg (fun p => (a.bases.find? p).map (BasePart.rename f)) (funext fun b => ?_)
  exact isInheritable_rename hn b

/-- Its name is the one of its type. -/
theorem parent_rename (a : Aggregate) :
    ((inherited? names' (a.rename f)).bind fun b => names'.get? b.type) =
      (inherited? names a).bind fun b => names.get? b.type := by
  rw [inherited?_rename hn]
  cases inherited? names a with
  | none => rfl
  | some b => exact hn b.type

/-- The bases behind it. -/
theorem withoutFirst_rename (bs : List BasePart) :
    withoutFirst (isInheritable names') (bs.map (BasePart.rename f)) =
      (withoutFirst (isInheritable names) bs).map (BasePart.rename f) := by
  induction bs with
  | nil => rfl
  | cons b bs ih =>
    rw [List.map_cons, withoutFirst, withoutFirst, isInheritable_rename hn]
    split
    · rfl
    · rw [ih, List.map_cons]

include hg

/-- Bases that are exposed are named one after the other, each clear of the names before. -/
theorem exposeBases_rename (used : List String) (bs : List BasePart) :
    exposeBases g' names' used (bs.map (BasePart.rename f)) =
      (exposeBases g names used bs).map (ExposedBase.rename f) := by
  induction bs generalizing used with
  | nil => rfl
  | cons b bs ih =>
    have hlabel : (names'.get? (b.rename f).type).getD (g'.displayName (b.rename f).type) =
        (names.get? b.type).getD (g.displayName b.type) := by
      show (names'.get? (f b.type)).getD (g'.displayName (f b.type)) = _
      rw [hn, hg.displayName]
    rw [List.map_cons, exposeBases, exposeBases, hlabel, ih]
    rfl

/-- All exposed bases of an aggregate. -/
theorem exposed_rename (a : Aggregate) :
    exposed g' names' (a.rename f) = (exposed g names a).map (ExposedBase.rename f) := by
  unfold exposed
  show exposeBases g' names' []
    (withoutFirst (isInheritable names') (a.bases.map (BasePart.rename f))) = _
  rw [withoutFirst_rename hn, exposeBases_rename hg hn]

/-- The names that members must stay clear of. -/
theorem reserved_rename (a : Aggregate) : reserved g' names' (a.rename f) = reserved g names a := by
  unfold reserved
  rw [exposed_rename hg hn, List.map_map]
  rfl

omit hg hn in
/-- The numbers of a field are not its type. -/
theorem isWritable_rename (p : FieldPart) : isWritable (p.rename f) = isWritable p := by
  unfold isWritable FieldPart.rename
  simp only

/-- Nor are those of bases. -/
theorem propertiesWritable_rename (memberNames : List String) (a : Aggregate) :
    propertiesWritable g' names' memberNames (a.rename f) =
      propertiesWritable g names memberNames a := by
  have hbase : (fun b : ExposedBase => Text.isWritable b.part.offset) ∘ ExposedBase.rename f =
      fun b => Text.isWritable b.part.offset := by
    funext b
    simp only [Function.comp_apply, ExposedBase.rename, BasePart.rename]
  have hfields : (a.rename f).fields = a.fields.map (FieldPart.rename f) := rfl
  unfold propertiesWritable
  rw [exposed_rename hg hn, hfields, List.zip_map_left, List.all_map, List.all_map, hbase]
  simp only [Function.comp_def, Prod.map, isWritable_rename]

variable {reference reference' : Handle → String} (href : ∀ h, reference' (f h) = reference h)
include href

/-- Properties of bases and of fields, each with the reference to its type. -/
theorem properties_rename (memberNames : List String) (a : Aggregate) :
    properties g' names' reference' memberNames (a.rename f) =
      properties g names reference memberNames a := by
  unfold properties
  rw [exposed_rename hg hn, List.map_map]
  show _ ++ ((a.fields.map (FieldPart.rename f)).zip memberNames).map _ = _
  rw [List.zip_map_left, List.map_map]
  congr 1
  · refine List.map_congr_left fun b _ => ?_
    show Property.mk b.property (reference' (f b.part.type)) none _ = _
    unfold baseProperty
    simp only [ExposedBase.rename, BasePart.rename, href]
    rfl
  · refine List.map_congr_left fun p _ => ?_
    unfold fieldProperty readExpression
    simp only [Function.comp_apply, Prod.map, FieldPart.rename, href]
    rfl

omit hg hn in
/-- Template arguments are shown by reference, or as numbers. -/
theorem argumentsText_rename (arguments : List TemplateArgument) :
    argumentsText reference' (arguments.map (TemplateArgument.rename f)) =
      argumentsText reference arguments := by
  unfold argumentsText
  extract_lets texts' texts
  have htexts : texts' = texts := by
    unfold texts' texts
    rw [List.map_map]
    refine List.map_congr_left fun argument _ => ?_
    cases argument with
    | type h => exact congrArg Text.quoted (href h)
    | number n => rfl
  rw [htexts]

omit hg hn in
/-- What a class says about itself: size, alignment, template. -/
theorem emitFacts_rename (e : Emitter) (a : Aggregate) :
    emitFacts e reference' (a.rename f) = emitFacts e reference a := by
  unfold emitFacts
  have htemplate : (a.rename f).template = a.template.map (TemplateUse.rename f) := rfl
  rw [htemplate]
  cases a.template with
  | none => rfl
  | some t =>
    show Emitter.emit _ (_ ++ argumentsText reference'
      (t.arguments.map (TemplateArgument.rename f))) = _
    rw [argumentsText_rename href]
    rfl

/-- The text of a class, from the equations above. -/
theorem aggregateText_rename (memberNames : List String) (ident documentation : String)
    (a : Aggregate) :
    aggregateText g' names' reference' memberNames ident documentation (a.rename f) =
      aggregateText g names reference memberNames ident documentation a := by
  unfold aggregateText
  simp only [parent_rename hn, properties_rename hg hn href, emitFacts_rename href]

omit hg hn in
/-- The text of an enumeration refers to its underlying type only. -/
theorem enumerationText_rename (memberNames : List String) (ident documentation : String)
    (e : Enumeration) :
    enumerationText reference' memberNames ident documentation
        { e with underlying := f e.underlying } =
      enumerationText reference memberNames ident documentation e := by
  unfold enumerationText
  simp only [href]
  rfl

omit hg hn in
/-- The text of a function refers to its result and its parameters. -/
theorem functionText_rename (ident displayName : String) (t : FunctionType) :
    functionText reference' ident displayName (t.rename f) =
      functionText reference ident displayName t := by
  have hparameters : (t.parameters.map f).map reference' = t.parameters.map reference := by
    rw [List.map_map]
    exact List.map_congr_left fun p _ => href p
  unfold functionText FunctionType.rename
  simp only [href, hparameters]

end

/-- **Accessor classes do not depend on handles.** -/
theorem natural_writer (options : WriterOptions) : (writer options).Natural where
  assemble := fun {f g g'} _ module fragments => by
    show assemble options g' module (fragments.map (Fragment.rename f)) =
      assemble options g module fragments
    unfold assemble
    simp only [List.map_map]
    rfl
  declare := fun {f g g' names names'} hg hn h => by
    have href := hg.typeReference hn options.truncateNamespace
    show declare options g' names' (Naming.members g') (f h) =
      (declare options g names (Naming.members g) h).map (Fragment.rename f)
    unfold declare
    rw [hg.get, Writer.nameOf_rename hg hn, Writer.describe_rename hg,
      Writer.undeclarable_rename hg]
    cases hget : g.get h with
    | aggregate a =>
      simp only [Instance.rename, parent_rename hn, reserved_rename hg hn,
        Naming.members_rename hg, propertiesWritable_rename hg hn,
        aggregateText_rename hg hn href]
      cases Writer.nameOf g names h with
      | error e => rfl
      | ok ident =>
        cases Writer.describe g h with
        | error e => rfl
        | ok documentation =>
          simp only [bind, Except.bind, pure, Except.pure]
          cases Writer.needWritable _ with
          | error e => rfl
          | ok _ => rfl
    | enumeration e =>
      simp only [Instance.rename, Naming.members_rename hg, hn e.underlying,
        enumerationText_rename href]
      cases Writer.nameOf g names h with
      | error e => rfl
      | ok ident =>
        cases Writer.describe g h with
        | error e => rfl
        | ok documentation => rfl
    | function t =>
      simp only [Instance.rename, hg.displayName, functionText_rename href]
      cases Writer.nameOf g names h with
      | error e => rfl
      | ok ident => rfl
    | _ => rfl

end NativeTypes.Accessor
