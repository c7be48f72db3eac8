/-
NativeTypes.Proofs.Writer.Declared — what writers make of one declaration.

`Writer.KeepsNames` — a declaration has the identifier of its instance; it
holds of every writer there is. For packed structures `Ctypes.Declaration`
says all that a fragment can be: a structure or union with its member list,
an enumeration, or a function type.
-/
import NativeTypes.Proofs.Runs
import NativeTypes.Writer.Declare

namespace NativeTypes

/-- A writer gives a declaration the identifier of its instance. -/
def Writer.KeepsNames (w : Writer) : Prop :=
  ∀ g names members h fragment, w.declare g names members h = .ok fragment →
    fragment.handle = h ∧ names.get? h = some fragment.identifier

/-- A name is what the table has. -/
theorem Writer.nameOf_eq_ok {g : Graph} {names : NameTable} {h : Handle} {ident : String}
    (hname : Writer.nameOf g names h = .ok ident) : names.get? h = some ident := by
  unfold Writer.nameOf at hname
  split at hname
  · rename_i name hget
    cases hname
    exact hget
  · cases hname

namespace Ctypes

/-- What the code of a declaration is. -/
inductive Declaration (g : Graph) (names : NameTable) (members : MemberNames) (h : Handle) :
    Fragment → Prop
  | aggregate {a : Aggregate} {ident documentation : String} : g.get h = .aggregate a →
      names.get? h = some ident → Writer.describe g h = .ok documentation →
      Declaration g names members h
        (let p := layoutAs g names (members h (reserved names a)) a
        { handle := h, identifier := ident
          prelude := some { binds := some ident, text := stubText ident documentation a }
          body := some
            { uses := ident :: p.entries.flatMap Entry.uses, text := bodyText ident p } })
  | enumeration {e : Enumeration} {ident documentation : String} : g.get h = .enumeration e →
      names.get? h = some ident → Writer.describe g h = .ok documentation →
      Declaration g names members h
        { handle := h, identifier := ident
          prelude := some
            { binds := some ident
              text := enumerationText (members h enumerationAttributes) ident documentation
                (enumerationBase g names e) e } }
  | function {f : FunctionType} {ident : String} : g.get h = .function f →
      names.get? h = some ident →
      Declaration g names members h
        { handle := h, identifier := ident
          prelude := some
            { binds := some ident
              uses := (signature g names f).flatMap TypeExpression.uses
              text := functionText ident (g.displayName h) (signature g names f) f } }

/-- **A fragment is a declaration of its instance.** -/
theorem declaration_of_declare {g : Graph} {names : NameTable} {members : MemberNames} {h : Handle}
    {fragment : Fragment} (hdeclare : declare g names members h = .ok fragment) :
    Declaration g names members h fragment := by
  unfold declare at hdeclare
  split at hdeclare
  · rename_i a hget
    obtain ⟨ident, hident, hrest⟩ := except_bind_eq_ok hdeclare
    obtain ⟨documentation, hdocumentation, hrest⟩ := except_bind_eq_ok hrest
    obtain ⟨_, -, hrest⟩ := except_bind_eq_ok hrest
    split at hrest
    · cases hrest
    · cases hrest
      exact .aggregate hget (Writer.nameOf_eq_ok hident) hdocumentation
  · rename_i e hget
    obtain ⟨ident, hident, hrest⟩ := except_bind_eq_ok hdeclare
    obtain ⟨documentation, hdocumentation, hrest⟩ := except_bind_eq_ok hrest
    cases hrest
    exact .enumeration hget (Writer.nameOf_eq_ok hident) hdocumentation
  · rename_i f hget
    obtain ⟨ident, hident, hrest⟩ := except_bind_eq_ok hdeclare
    cases hrest
    exact .function hget (Writer.nameOf_eq_ok hident)
  · cases hdeclare

/-- The writer of packed structures, whichever form a declaration takes. -/
theorem keepsNames (options : WriterOptions) : (writer options).KeepsNames := by
  intro g names members h fragment hdeclare
  cases declaration_of_declare hdeclare with
  | aggregate _ hname _ => exact ⟨rfl, hname⟩
  | enumeration _ hname _ => exact ⟨rfl, hname⟩
  | function _ hname => exact ⟨rfl, hname⟩

end Ctypes

/-- The writer of accessors. -/
theorem Accessor.keepsNames (options : WriterOptions) :
    (Accessor.writer options).KeepsNames := by
  intro g names members h fragment hdeclare
  replace hdeclare : Accessor.declare options g names members h = .ok fragment := hdeclare
  unfold Accessor.declare at hdeclare
  split at hdeclare
  · obtain ⟨ident, hident, hrest⟩ := except_bind_eq_ok hdeclare
    obtain ⟨_, -, hrest⟩ := except_bind_eq_ok hrest
    obtain ⟨_, -, hrest⟩ := except_bind_eq_ok hrest
    cases hrest
    exact ⟨rfl, Writer.nameOf_eq_ok hident⟩
  · obtain ⟨ident, hident, hrest⟩ := except_bind_eq_ok hdeclare
    obtain ⟨_, -, hrest⟩ := except_bind_eq_ok hrest
    cases hrest
    exact ⟨rfl, Writer.nameOf_eq_ok hident⟩
  · obtain ⟨ident, hident, hrest⟩ := except_bind_eq_ok hdeclare
    cases hrest
    exact ⟨rfl, Writer.nameOf_eq_ok hident⟩
  · cases hdeclare

/-- **Every writer there is keeps names.** -/
theorem Writer.keepsNames_of_available {name purpose : String} {make : WriterOptions → Writer}
    (h : (name, purpose, make) ∈ Writer.available) (options : WriterOptions) :
    (make options).KeepsNames := by
  unfold Writer.available at h
  rcases List.mem_cons.mp h with he | h
  · obtain ⟨-, -, rfl⟩ := Prod.mk.inj he |>.imp id Prod.mk.inj
    exact Accessor.keepsNames options
  · obtain ⟨-, -, rfl⟩ := Prod.mk.inj (List.mem_singleton.mp h) |>.imp id Prod.mk.inj
    exact Ctypes.keepsNames options

end NativeTypes
