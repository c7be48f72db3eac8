/-
NativeTypes.Proofs.Instance.Renaming — graphs that differ in handles only.

Two runs that declare the same types in another order give them other handles.
`Graph.Renames f g g'` says that `g'` is `g` with every handle `h` called `f
h`. What is read off a graph then agrees: sizes and names are the same
(`byteSize`, `displayName`, `typeReference`), and walks and edges are those of
the other graph under their other handles (`visits_map`, `embedded?`,
`declarationEdges`). Sizes and names are computed downwards along parts, so
both graphs must be `Layered`, as those of resolvers are.

Renaming is an equivalence `f` of handles, given once for a pair of graphs, and
not a relation between handles: so every lemma is an equation that rewrites,
and two of them compose without a choice of counterparts.

A function that recurses along the graph cannot be taken through a renaming by
unfolding both sides alike. Its recursion is justified by the order of handles,
which a renaming does not keep: a part may come before its owner in one graph
and after it in the other. Where graphs are layered the check that the
recursion makes succeeds on both sides, and the induction is on the handle in
the first graph.

Walks keep a stack and a list of what they have not seen. The stack is renamed
in order. What is unseen has another order in the other graph, which no walk
depends on (`visits_perm`).
-/
import Mathlib.Data.List.Nodup
import Mathlib.Logic.Equiv.Defs
import NativeTypes.Order.Emission
import NativeTypes.Proofs.Instance.Graph

namespace NativeTypes

/-! ## 1. Instances -/

/-- The base under another handle. -/
def BasePart.rename (f : Handle → Handle) (b : BasePart) : BasePart := { b with type := f b.type }

/-- The field under another handle. -/
def FieldPart.rename (f : Handle → Handle) (p : FieldPart) : FieldPart :=
  { p with type := f p.type }

/-- The argument under another handle. -/
def TemplateArgument.rename (f : Handle → Handle) : TemplateArgument → TemplateArgument
  | type handle => type (f handle)
  | number value => number value

/-- The use of a template under other handles. -/
def TemplateUse.rename (f : Handle → Handle) (t : TemplateUse) : TemplateUse :=
  { t with arguments := t.arguments.map (TemplateArgument.rename f) }

/-- The aggregate under other handles. -/
def Aggregate.rename (f : Handle → Handle) (a : Aggregate) : Aggregate :=
  { a with
    bases := a.bases.map (BasePart.rename f)
    fields := a.fields.map (FieldPart.rename f)
    template := a.template.map (TemplateUse.rename f) }

/-- The function type under other handles. -/
def FunctionType.rename (f : Handle → Handle) (t : FunctionType) : FunctionType :=
  { t with result := f t.result, parameters := t.parameters.map f }

/-- The part under another handle. -/
def renamePart (f : Handle → Handle) (p : Handle × Bool) : Handle × Bool := (f p.1, p.2)

/-- The instance with other handles for its parts. -/
def Instance.rename (f : Handle → Handle) : Instance → Instance
  | primitive kind => primitive kind
  | pointer target size => pointer (f target) size
  | array element length => array (f element) length
  | enumeration e => enumeration { e with underlying := f e.underlying }
  | function t => function (t.rename f)
  | aggregate a => aggregate (a.rename f)
  | undefined name => undefined name

namespace Instance

variable {f : Handle → Handle} {i : Instance}

@[simp] theorem isNamed_rename : (i.rename f).isNamed = i.isNamed := by
  cases i with
  | aggregate a => rfl
  | _ => rfl

@[simp] theorem kindWord_rename : (i.rename f).kindWord = i.kindWord := by
  cases i with
  | aggregate a =>
    simp only [rename, kindWord, Aggregate.rename, Option.isSome_map]
  | _ => rfl

@[simp] theorem label_rename : (i.rename f).label = i.label := by
  cases i with
  | aggregate a =>
    simp only [rename, label, Aggregate.rename, Option.isSome_map]
  | _ => rfl

@[simp] theorem typeName?_rename : (i.rename f).typeName? = i.typeName? := by
  cases i with
  | _ => rfl

@[simp] theorem valueParts_rename : (i.rename f).valueParts = i.valueParts.map f := by
  cases i with
  | aggregate a =>
    simp only [rename, valueParts, Aggregate.rename, List.map_map, List.map_append]
    rfl
  | _ => rfl

theorem types_rename (t : TemplateUse) : (t.rename f).types = t.types.map f := by
  unfold TemplateUse.types TemplateUse.rename
  rw [List.filterMap_map, List.map_filterMap]
  refine List.filterMap_congr fun argument _ => ?_
  cases argument with
  | _ => rfl

@[simp] theorem referenceParts_rename : (i.rename f).referenceParts = i.referenceParts.map f := by
  cases i with
  | aggregate a =>
    cases ht : a.template with
    | none => simp [rename, referenceParts, Aggregate.rename, ht]
    | some t => simp [rename, referenceParts, Aggregate.rename, ht, types_rename]
  | _ => rfl

@[simp] theorem parts_rename :
    (i.rename f).parts = i.parts.map (renamePart f) := by
  simp only [parts, valueParts_rename, referenceParts_rename, List.map_append, List.map_map]
  rfl

end Instance

/-! ## 2. Layered graphs -/

namespace Graph

/-- Parts of what is no aggregate lie below it. -/
def Layered (g : Graph) : Prop :=
  ∀ h, (∀ a, g.get h ≠ .aggregate a) → ∀ p ∈ (g.get h).parts, p.1 < h

namespace Layered

variable {g : Graph} {h : Handle} (hg : g.Layered)
include hg

theorem target_lt {target : Handle} {size : Int} (hget : g.get h = .pointer target size) :
    target < h := by
  refine hg h (fun a ha => ?_) (target, false) ?_
  · rw [hget] at ha
    cases ha
  · rw [hget]
    exact Instance.mem_parts_of_referenceParts (by simp [Instance.referenceParts])

theorem element_lt {element : Handle} {length : Option Int}
    (hget : g.get h = .array element length) : element < h := by
  refine hg h (fun a ha => ?_) (element, true) ?_
  · rw [hget] at ha
    cases ha
  · rw [hget]
    exact Instance.mem_parts_of_valueParts (by simp [Instance.valueParts])

theorem underlying_lt {e : Enumeration} (hget : g.get h = .enumeration e) : e.underlying < h := by
  refine hg h (fun a ha => ?_) (e.underlying, true) ?_
  · rw [hget] at ha
    cases ha
  · rw [hget]
    exact Instance.mem_parts_of_valueParts (by simp [Instance.valueParts])

theorem signature_lt {t : FunctionType} (hget : g.get h = .function t) :
    ∀ p ∈ t.result :: t.parameters, p < h := by
  intro p hp
  refine hg h (fun a ha => ?_) (p, false) ?_
  · rw [hget] at ha
    cases ha
  · rw [hget]
    exact Instance.mem_parts_of_referenceParts hp

end Layered

/-! ## 3. Renaming a graph -/

/-- The graph `g'` is `g` with other handles: what is `h` there is `f h` here. -/
structure Renames (f : Handle ≃ Handle) (g g' : Graph) : Prop where
  count : ∀ h, f h < g'.count ↔ h < g.count
  get : ∀ h, g'.get (f h) = (g.get h).rename f
  layered : g.Layered
  layered' : g'.Layered

namespace Renames

variable {f : Handle ≃ Handle} {g g' : Graph} (hr : Renames f g g')
include hr

/-- By induction on the handle in `g`. -/
theorem byteSize (h : Handle) : g'.byteSize (f h) = g.byteSize h := by
  induction h using Nat.strongRecOn with
  | ind h ih =>
    rw [Graph.byteSize, Graph.byteSize, hr.get h]
    cases hget : g.get h with
    | array element length =>
      cases length with
      | none => rfl
      | some n =>
        have hlt := hr.layered.element_lt hget
        have hlt' : f element < f h := hr.layered'.element_lt (by rw [hr.get h, hget]; rfl)
        simp only [Instance.rename, if_pos hlt, if_pos hlt', ih element hlt]
    | enumeration e =>
      have hlt := hr.layered.underlying_lt hget
      have hlt' : f e.underlying < f h := hr.layered'.underlying_lt (by rw [hr.get h, hget]; rfl)
      simp only [Instance.rename, if_pos hlt, if_pos hlt', ih e.underlying hlt]
    | _ => rfl

/-- Likewise. -/
theorem displayName (h : Handle) : g'.displayName (f h) = g.displayName h := by
  induction h using Nat.strongRecOn with
  | ind h ih =>
    rw [Graph.displayName, Graph.displayName, hr.get h]
    cases hget : g.get h with
    | pointer target size =>
      have hlt := hr.layered.target_lt hget
      have hlt' : f target < f h := hr.layered'.target_lt (by rw [hr.get h, hget]; rfl)
      simp only [Instance.rename, if_pos hlt, if_pos hlt', ih target hlt]
    | array element length =>
      have hlt := hr.layered.element_lt hget
      have hlt' : f element < f h := hr.layered'.element_lt (by rw [hr.get h, hget]; rfl)
      simp only [Instance.rename, if_pos hlt, if_pos hlt', ih element hlt]
    | function t =>
      have hlt := hr.layered.signature_lt hget
      have hlt' := hr.layered'.signature_lt (h := f h) (by rw [hr.get h, hget]; rfl)
      have hresult : (if f t.result < f h then g'.displayName (f t.result) else "") =
          if t.result < h then g.displayName t.result else "" := by
        rw [if_pos (hlt t.result List.mem_cons_self),
          if_pos (hlt' (f t.result) List.mem_cons_self), ih t.result (hlt _ List.mem_cons_self)]
      have hparameters : ((t.parameters.map f).map fun p =>
          if p < f h then g'.displayName p else "") =
          t.parameters.map fun p => if p < h then g.displayName p else "" := by
        rw [List.map_map]
        refine List.map_congr_left fun p hp => ?_
        have hp' : f p < f h :=
          hlt' (f p) (List.mem_cons_of_mem _ (List.mem_map_of_mem hp))
        rw [Function.comp_apply, if_pos hp', if_pos (hlt p (List.mem_cons_of_mem _ hp)),
          ih p (hlt p (List.mem_cons_of_mem _ hp))]
      simp only [Instance.rename, FunctionType.rename, hresult, hparameters]
    | _ => rfl

/-- The handles of both graphs, in some order. -/
theorem perm_handles : g'.handles.Perm (g.handles.map f) := by
  refine (List.perm_ext_iff_of_nodup List.nodup_range ?_).mpr fun h => ?_
  · exact List.Nodup.map f.injective List.nodup_range
  · rw [List.mem_map]
    constructor
    · intro hh
      refine ⟨f.symm h, ?_, f.apply_symm_apply h⟩
      have hlt := List.mem_range.mp hh
      rw [← f.apply_symm_apply h] at hlt
      exact List.mem_range.mpr ((hr.count _).mp hlt)
    · rintro ⟨x, hx, rfl⟩
      exact List.mem_range.mpr ((hr.count x).mpr (List.mem_range.mp hx))

end Renames

end Graph

/-- The tables give the same identifiers under other handles. -/
def NameTable.Renames (f : Handle ≃ Handle) (names names' : NameTable) : Prop :=
  ∀ h, names'.get? (f h) = names.get? h

namespace Graph.Renames

variable {f : Handle ≃ Handle} {g g' : Graph} {names names' : NameTable}

/-- Likewise; a name from the table ends the recursion. -/
theorem typeReference (hr : Renames f g g') (hn : NameTable.Renames f names names')
    (truncate : Bool) (h : Handle) :
    g'.typeReference truncate (some names') (f h) = g.typeReference truncate (some names) h := by
  induction h using Nat.strongRecOn with
  | ind h ih =>
    rw [Graph.typeReference, Graph.typeReference, hr.get h]
    cases hget : g.get h with
    | pointer target size =>
      have hlt := hr.layered.target_lt hget
      have hlt' : f target < f h := hr.layered'.target_lt (by rw [hr.get h, hget]; rfl)
      simp only [Instance.rename, if_pos hlt, if_pos hlt', ih target hlt]
    | array element length =>
      have hlt := hr.layered.element_lt hget
      have hlt' : f element < f h := hr.layered'.element_lt (by rw [hr.get h, hget]; rfl)
      simp only [Instance.rename, if_pos hlt, if_pos hlt', ih element hlt]
    | enumeration e => simp only [Instance.rename, namedReference, hn h]
    | function t => simp only [Instance.rename, Option.bind_some, hn h]
    | aggregate a => simp only [Instance.rename, Aggregate.rename, namedReference, hn h]
    | _ => rfl

end Graph.Renames

/-! ## 4. Walks -/

section

variable {α β : Type} [DecidableEq α] [DecidableEq β]

/-- A walk only asks whether something is unseen. -/
theorem visits_perm (next : α → List α) {unseen unseen' stack : List α}
    (hperm : unseen.Perm unseen') : visits next unseen stack = visits next unseen' stack := by
  induction unseen, stack using visits.induct next generalizing unseen' with
  | case1 unseen => rw [visits, visits]
  | case2 unseen v rest hv ih =>
    rw [visits, visits, if_pos hv, if_pos (hperm.mem_iff.mp hv), ih (hperm.erase v)]
  | case3 unseen v rest hv ih =>
    rw [visits, visits, if_neg hv, if_neg (mt hperm.mem_iff.mpr hv), ih hperm]

/-- A walk under other names, by the recursion of the walk. -/
theorem visits_map {f : α → β} (hf : f.Injective) {next : α → List α} {next' : β → List β}
    (hnext : ∀ v, next' (f v) = (next v).map f) (unseen stack : List α) :
    visits next' (unseen.map f) (stack.map f) = (visits next unseen stack).map f := by
  induction unseen, stack using visits.induct next with
  | case1 unseen => simp [visits]
  | case2 unseen v rest hv ih =>
    rw [List.map_cons, visits, visits, if_pos hv, if_pos (List.mem_map_of_mem hv),
      List.map_cons, ← ih, List.map_erase hf, hnext, List.map_append]
  | case3 unseen v rest hv ih =>
    rw [List.map_cons, visits, visits, if_neg hv, if_neg, ih]
    rw [List.mem_map_of_injective hf]
    exact hv

end

namespace Graph.Renames

variable {f : Handle ≃ Handle} {g g' : Graph} (hr : Renames f g g')
include hr

theorem valueStack (h : Handle) : g'.valueStack (f h) = (g.valueStack h).map f := by
  unfold Graph.valueStack
  rw [hr.get, Instance.valueParts_rename, List.map_reverse]

/-- What is found by value is the same. -/
theorem embedded? {p p' : Handle → Bool} (hp : ∀ h, p' (f h) = p h) (h : Handle) :
    g'.embedded? p' (f h) = (g.embedded? p h).map f := by
  unfold Graph.embedded?
  have hperm : (g'.handles.erase (f h)).Perm ((g.handles.erase h).map f) := by
    rw [List.map_erase f.injective]
    exact hr.perm_handles.erase (f h)
  rw [visits_perm _ hperm, hr.valueStack, visits_map f.injective hr.valueStack, List.find?_map]
  congr 2
  funext x
  exact hp x

end Graph.Renames

/-! ## 5. Edges between declarations

The edges out of a declaration are gathered step by step into a map, which keeps the order of the
parts. So the map under other keys is the same map. -/

section

variable {α β γ : Type} [DecidableEq α] [DecidableEq β]

/-- The map under other keys. -/
def Assoc.rename (f : α → β) (m : Assoc α γ) : Assoc β γ := m.map fun e => (f e.1, e.2)

/-- What is entered under a key is found under its other name. -/
theorem Assoc.get?_rename {f : α → β} (hf : f.Injective) (m : Assoc α γ) (a : α) :
    (Assoc.rename f m).get? (f a) = m.get? a := by
  induction m with
  | nil => rfl
  | cons e m ih =>
    obtain ⟨b, v⟩ := e
    show (if f b = f a then some v else (Assoc.rename f m).get? (f a)) =
      if b = a then some v else Assoc.get? m a
    rw [ih]
    simp only [hf.eq_iff]

/-- Entering commutes with renaming. -/
theorem Assoc.put_rename {f : α → β} (hf : f.Injective) (m : Assoc α γ) (a : α) (v : γ) :
    (Assoc.rename f m).put (f a) v = Assoc.rename f (m.put a v) := by
  induction m with
  | nil => rfl
  | cons e m ih =>
    obtain ⟨b, w⟩ := e
    show (if f b = f a then (f b, v) :: Assoc.rename f m
        else (f b, w) :: (Assoc.rename f m).put (f a) v) =
      Assoc.rename f (if b = a then (b, v) :: m else (b, w) :: Assoc.put m a v)
    by_cases hb : b = a
    · rw [if_pos hb, if_pos (congrArg f hb)]
      rfl
    · rw [if_neg hb, if_neg (mt (@hf b a) hb), ih]
      rfl

end

namespace Graph.Renames

variable {f : Handle ≃ Handle} {g g' : Graph} (hr : Renames f g g')
include hr

omit hr in
theorem renamePart_injective : (renamePart f).Injective := by
  rintro ⟨x, b⟩ ⟨y, c⟩ h
  obtain ⟨hxy, hbc⟩ := Prod.mk.inj h
  exact Prod.ext (f.injective hxy) hbc

/-- The steps from an instance. -/
theorem steps (step : Handle × Bool) :
    g'.steps (renamePart f step) = (g.steps step).map (renamePart f) := by
  unfold Graph.steps renamePart
  rw [hr.get, Instance.isNamed_rename]
  split
  · rfl
  · rw [Instance.parts_rename, List.map_map, List.map_map]
    rfl

theorem perm_allSteps : g'.allSteps.Perm (g.allSteps.map (renamePart f)) := by
  unfold Graph.allSteps
  rw [List.map_flatMap]
  refine (hr.perm_handles.flatMap_right _).trans ?_
  rw [List.flatMap_map]
  rfl

omit hr in
/-- The edges that steps add. -/
theorem addEdges (steps : List (Handle × Bool)) (edges : Assoc Handle Bool) :
    (steps.map (renamePart f)).foldl addEdge (Assoc.rename f edges) =
      Assoc.rename f (steps.foldl addEdge edges) := by
  induction steps generalizing edges with
  | nil => rfl
  | cons step steps ih =>
    rw [List.map_cons, List.foldl_cons, List.foldl_cons, ← ih]
    congr 1
    unfold addEdge renamePart
    rw [Assoc.get?_rename f.injective, Assoc.put_rename f.injective]

/-- The edges of a declaration are the same. -/
theorem declarationEdges (nodes : List Handle) (h : Handle) :
    g'.declarationEdges (nodes.map f) (f h) = Assoc.rename f (g.declarationEdges nodes h) := by
  unfold Graph.declarationEdges
  rw [visits_perm _ hr.perm_allSteps, hr.get, Instance.parts_rename]
  have hwalk := visits_map renamePart_injective hr.steps g.allSteps (g.get h).parts
  rw [hwalk, List.filter_map]
  rw [← addEdges]
  congr 2
  refine List.filter_congr fun step _ => ?_
  have hnamed : (g'.get (f step.1)).isNamed = (g.get step.1).isNamed := by
    rw [hr.get, Instance.isNamed_rename]
  have hmem : (nodes.map f).contains (f step.1) = nodes.contains step.1 := by
    rw [Bool.eq_iff_iff, List.contains_iff_mem, List.contains_iff_mem,
      List.mem_map_of_injective f.injective]
  have hne : (f step.1 != f h) = (step.1 != h) := by
    rw [Bool.eq_iff_iff, bne_iff_ne, bne_iff_ne, f.injective.ne_iff]
  simp only [Function.comp_apply, renamePart, hnamed, hmem, hne]

end Graph.Renames

end NativeTypes
