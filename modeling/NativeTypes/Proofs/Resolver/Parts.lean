/-
NativeTypes.Proofs.Resolver.Parts — an aggregate takes its parts, one after
the other.

Bases and fields are taken in the same way: the type of the part is
declared, what it embeds is defined, and the part is written down. `Takes`
is that loop as a relation between a state and an outcome, whatever
declaring and defining do, so a property of defining is proved by induction
on it, with one case for each way in which a part may end. `finish` is
what follows: the check of the layout, or the cycle that was met
(`exists_takes`). `Took` is what the loop leaves behind: an aggregate that
has these parts, each of the type that was declared for it.
-/
import NativeTypes.Proofs.Resolver.Define

namespace NativeTypes

/-! ## 1. Bases and fields alike

A shape lists bases and fields apart, and the two loops over them do the same: declare the type
of the part, define what it embeds, and write the part down. One list of parts saves every proof
about defining the second loop. -/

/-- A base or a field as described. -/
inductive PartShape
  | base (b : BaseShape)
  | field (f : FieldShape)

namespace PartShape

/-- The type of a part. -/
def ref : PartShape → Ref
  | base b => b.type
  | field f => f.type

/-- The aggregate with one more part, of the type `t`. -/
def add (t : Handle) : PartShape → Aggregate → Aggregate
  | base b, a => { a with bases := a.bases ++ [⟨t, b.offset, b.isTruth⟩] }
  | field f, a =>
    { a with fields := a.fields ++ [⟨f.name, t, f.offset, f.bitOffset, f.bitWidth, f.isTruth⟩] }

@[simp] theorem kindLost_add (t : Handle) (p : PartShape) (a : Aggregate) :
    (p.add t a).kindLost = a.kindLost := by cases p <;> rfl

@[simp] theorem stage_add (t : Handle) (p : PartShape) (a : Aggregate) :
    (p.add t a).stage = a.stage := by
  cases p <;> rfl

@[simp] theorem template_add (t : Handle) (p : PartShape) (a : Aggregate) :
    (p.add t a).template = a.template := by
  cases p <;> rfl

/-- Only the one part is new. -/
theorem mem_valueParts_add (t : Handle) (p : PartShape) (a : Aggregate) (x : Handle) :
    x ∈ (Instance.aggregate (p.add t a)).valueParts ↔
      x ∈ (Instance.aggregate a).valueParts ∨ x = t := by
  cases p with
  | base b =>
    simp only [add, Instance.valueParts, List.map_append, List.map_cons, List.map_nil,
      List.mem_append, List.mem_singleton]
    tauto
  | field f =>
    simp only [add, Instance.valueParts, List.map_append, List.map_cons, List.map_nil,
      List.mem_append, List.mem_singleton]
    tauto

/-- A part is one of those before or the new one, which is embedded. -/
theorem mem_parts_add {t : Handle} {p : PartShape} {a : Aggregate} {x : Handle × Bool}
    (hx : x ∈ (Instance.aggregate (p.add t a)).parts) :
    x ∈ (Instance.aggregate a).parts ∨ x = (t, true) := by
  rw [Instance.mem_parts_iff] at hx ⊢
  rcases hx with ⟨hvalue, hmem⟩ | ⟨hvalue, hmem⟩
  · rcases (mem_valueParts_add t p a x.1).mp hmem with hold | rfl
    · exact .inl (.inl ⟨hvalue, hold⟩)
    · exact .inr (Prod.ext rfl hvalue)
  · refine .inl (.inr ⟨hvalue, ?_⟩)
    simpa [Instance.referenceParts] using hmem

end PartShape

/-- The bases of a shape and then its fields. -/
def Shape.parts (shape : Shape) : List PartShape :=
  shape.bases.map .base ++ shape.fields.map .field

theorem Shape.map_ref_parts (shape : Shape) : shape.parts.map PartShape.ref = shape.partRefs := by
  simp only [parts, partRefs, List.map_append, List.map_map]
  rfl

namespace Resolver

variable {σ : Type} {s s' t : State σ}

/-! ## 2. The loop -/

/-- What an outcome guarantees: `Q` of the state if the run returned, `E` if it stopped. -/
def Yields (r : EStateM.Result Stop (State σ) Unit) (Q : State σ → Prop)
    (E : Stop → State σ → Prop) : Prop :=
  match r with
  | .ok _ s => Q s
  | .error e s => E e s

theorem Yields.mono {r : EStateM.Result Stop (State σ) Unit} {P Q : State σ → Prop}
    {E F : Stop → State σ → Prop} (h : Yields r P E) (hQ : ∀ s, P s → Q s)
    (hE : ∀ e s, E e s → F e s) : Yields r Q F := by
  cases r with
  | ok _ s => exact hQ s h
  | error e s => exact hE e s h

theorem Yields.ensures {run : Run σ Unit} {Q : State σ → Prop} {E : Stop → State σ → Prop}
    (h : Yields (run s) Q E) : Ensures run s (fun _ s' => Q s') E := by
  unfold Ensures
  cases hr : run s with
  | ok _ s' =>
    rw [hr] at h
    exact h
  | error e s' =>
    rw [hr] at h
    exact h

/-- The part is written down; an aggregate that takes no parts stays as it is. -/
def added (s : State σ) (owner : Handle) (p : PartShape) (t : Handle) : State σ :=
  { s with graph := (s.graph.change owner (p.add t)).toOption.getD s.graph }

theorem added_eq {owner : Handle} {a : Aggregate} (ha : s.graph.get owner = .aggregate a)
    (hgrowing : a.stage = .growing) (p : PartShape) (t : Handle) :
    added s owner p t = assigned s owner (p.add t a) := by
  unfold added
  rw [Graph.change_of_aggregate ha (by simp [hgrowing])]
  rfl

section

variable (declare : Ref → Run σ Handle) (define : Handle → Run σ Unit) (owner : Handle)

/-- What taking parts, one after the other, leads to. -/
inductive Takes : List PartShape → State σ → EStateM.Result Stop (State σ) Unit → Prop
  | done {s : State σ} : Takes [] s (.ok () s)
  | undeclared {s s' : State σ} {p : PartShape} {ps : List PartShape} {e : Stop} :
      declare p.ref s = .error e s' → Takes (p :: ps) s (.error e s')
  | undefined {s s₁ s' : State σ} {p : PartShape} {ps : List PartShape} {t : Handle} {e : Stop} :
      declare p.ref s = .ok t s₁ → defineValue define t s₁ = .error e s' →
      Takes (p :: ps) s (.error e s')
  | took {s s₁ s₂ : State σ} {p : PartShape} {ps : List PartShape} {t : Handle}
      {r : EStateM.Result Stop (State σ) Unit} :
      declare p.ref s = .ok t s₁ → defineValue define t s₁ = .ok () s₂ →
      Takes ps (added s₂ owner p t) r → Takes (p :: ps) s r

variable {declare define owner}

/-- One part in front of a rest. -/
theorem takes_cons {ps : List PartShape} {next : Run σ Unit}
    (hnext : ∀ s, Takes declare define owner ps s (next s)) (p : PartShape) (s : State σ) :
    Takes declare define owner (p :: ps) s ((do
      let t ← definePart declare define p.ref
      changeGraph fun g => g.change owner (p.add t)
      next) s) := by
  cases hdeclare : declare p.ref s with
  | error e s₁ =>
    have hpart : definePart declare define p.ref s = .error e s₁ := run_bind_error hdeclare
    rw [run_bind_error hpart]
    exact .undeclared hdeclare
  | ok t s₁ =>
    cases hdefine : defineValue define t s₁ with
    | error e s₂ =>
      have hpart : definePart declare define p.ref s = .error e s₂ := by
        unfold definePart
        rw [run_bind_ok hdeclare, run_bind_error hdefine]
      rw [run_bind_error hpart]
      exact .undefined hdeclare hdefine
    | ok _ s₂ =>
      have hpart : definePart declare define p.ref s = .ok t s₂ := by
        unfold definePart
        rw [run_bind_ok hdeclare, run_bind_ok hdefine]
        rfl
      rw [run_bind_ok hpart]
      exact .took hdeclare hdefine (hnext _)

/-- The loop over fields. -/
theorem takes_fields (fields : List FieldShape) (s : State σ) :
    Takes declare define owner (fields.map .field) s
      (defineFields declare define owner fields s) := by
  induction fields generalizing s with
  | nil => exact .done
  | cons f fs ih => exact takes_cons ih (.field f) s

/-- The loop over bases, with the fields behind it. -/
theorem takes_bases {ps : List PartShape} {next : Run σ Unit}
    (hnext : ∀ s, Takes declare define owner ps s (next s)) (bases : List BaseShape)
    (s : State σ) : Takes declare define owner (bases.map .base ++ ps) s
      ((defineBases declare define owner bases >>= fun _ => next) s) := by
  induction bases generalizing s with
  | nil => exact hnext s
  | cons b bs ih =>
    have htake := takes_cons ih (.base b) s
    simp only [defineBases, bind_assoc]
    exact htake

variable (declare define owner) in
/-- The body of an aggregate takes all parts of its shape and checks the layout. -/
theorem exists_takes_body (task : Task σ) (shape : Shape) (s : State σ) :
    ∃ r, Takes declare define owner shape.parts s r ∧
      defineBody task declare define owner shape s =
        match r with
        | .ok _ t => checkLayout task owner t
        | .error e t => .error e t := by
  refine ⟨_, takes_bases (takes_fields shape.fields) shape.bases s, ?_⟩
  have hbody : defineBody task declare define owner shape =
      (do defineBases declare define owner shape.bases
          defineFields declare define owner shape.fields) >>= fun _ => checkLayout task owner := by
    simp only [defineBody, bind_assoc]
  rw [hbody]
  cases hr : (do defineBases declare define owner shape.bases
                 defineFields declare define owner shape.fields : Run σ Unit) s with
  | ok _ t => exact run_bind_ok hr
  | error e t => exact run_bind_error hr

end

/-! ## 3. What the steps of the loop are

The functions of the define phase with their branches written out, and each as one equation, so
that proofs rewrite with them and do not unfold. -/

/-- What a part embeds is defined if it is an aggregate that takes parts still. -/
theorem defineValue_run (define : Handle → Run σ Unit) (t : Handle) (s : State σ) :
    defineValue define t s =
      match s.graph.get (innermost s.graph t) with
      | .aggregate a => if a.isFinalized then .ok () s else define (innermost s.graph t) s
      | _ => .ok () s := by
  unfold defineValue
  simp only [run_get_bind]
  cases s.graph.get (innermost s.graph t) with
  | aggregate a =>
    dsimp only
    cases a.isFinalized with
    | true => rfl
    | false => rfl
  | _ => rfl

/-- Asking for a key that is not there stops. -/
theorem keyOf_eq (h : Handle) (s : State σ) :
    keyOf h s = match s.registry.keyOf? h with
      | some key => .ok key s
      | none => .error .noKey s := by
  unfold keyOf
  simp only [run_get_bind]
  cases s.registry.keyOf? h with
  | some key => rfl
  | none => rfl

/-- Instances that are there have keys. -/
theorem keyOf_run (hs : Linked s) {h : Handle} (hh : h < s.graph.count) :
    ∃ key, s.registry.keyOf? h = some key ∧ keyOf h s = .ok key s := by
  obtain ⟨key, hkey⟩ := hs.exists_key hh
  exact ⟨key, hkey, by rw [keyOf_eq, hkey]⟩

/-- The keys of several instances. -/
theorem keysOf_run (hs : Linked s) {handles : List Handle}
    (hin : ∀ h ∈ handles, h < s.graph.count) :
    ∃ keys, List.Forall₂ (fun h k => s.registry.keyOf? h = some k) handles keys ∧
      keysOf handles s = .ok keys s := by
  induction handles with
  | nil => exact ⟨[], .nil, rfl⟩
  | cons h rest ih =>
    obtain ⟨key, hkey, hrun⟩ := keyOf_run hs (hin h List.mem_cons_self)
    obtain ⟨keys, hkeys, hruns⟩ := ih fun x hx => hin x (List.mem_cons_of_mem _ hx)
    refine ⟨key :: keys, .cons hkey hkeys, ?_⟩
    unfold keysOf
    rw [run_bind_ok hrun, run_bind_ok hruns]
    rfl

/-- Parts that do not fit are marked and reported, if the words for that can be written. -/
theorem checkLayout_eq (task : Task σ) (h : Handle) (s : State σ) :
    checkLayout task h s =
      match s.graph.get h with
      | .aggregate a =>
        match s.graph.layoutFault? a, s.registry.keyOf? h with
        | none, _ => .ok () s
        | some _, none => .error .noKey s
        | some fault, some key =>
          if fault.isWritable then
            .ok () (marked s h fault.message
              [(TypeProblem.invalidLayout fault.message).diagnostic (key.text task.module)
                task.module])
          else .error .tooManyDigits s
      | _ => .ok () s := by
  unfold checkLayout
  simp only [run_get_bind]
  cases s.graph.get h with
  | aggregate a =>
    dsimp only
    cases s.graph.layoutFault? a with
    | none => rfl
    | some fault =>
      dsimp only
      have hkeyOf := keyOf_eq h s
      cases hkey : s.registry.keyOf? h with
      | none =>
        rw [hkey] at hkeyOf
        exact run_bind_error hkeyOf
      | some key =>
        rw [hkey] at hkeyOf
        rw [run_bind_ok hkeyOf]
        dsimp only
        unfold needWritable
        split
        · rfl
        · rfl
  | _ => rfl

/-- The check of the layout meets no cycle. -/
theorem isCycle_of_checkLayout {task : Task σ} {h : Handle} {e : Stop}
    (hrun : checkLayout task h s = .error e s') : e.isCycle = false := by
  rw [checkLayout_eq] at hrun
  split at hrun
  · split at hrun
    · cases hrun
    · cases hrun
      rfl
    · split at hrun
      · cases hrun
      · cases hrun
        rfl
  · cases hrun

/-- An aggregate that meets a cycle is marked and ends; it reports the cycle that was entered at
it, and passes on all others. -/
theorem meetCycle_eq (task : Task σ) {h : Handle} {key : Key}
    (hkey : s.registry.keyOf? h = some key) (path : List Key) :
    let problem := TypeProblem.valueCycle (path.map (Key.text task.module))
    meetCycle task h path s =
      if path.head? = some key then
        .ok () { marked s h problem.message
                   [problem.diagnostic (key.text task.module) task.module] with
                 graph := s.graph.finalize h }
      else
        .error (.valueCycle path)
          { marked s h problem.message [] with graph := s.graph.finalize h } := by
  have hrun (reason : String) (t : State σ) (next : Key → Run σ Unit)
      (ht : t.registry = s.registry.markInvalid h reason) : (keyOf h >>= next) t = next key t := by
    have hkey' : (s.registry.markInvalid h reason).keyOf? h = some key := hkey
    exact run_bind_ok (by rw [keyOf_eq, ht, hkey'])
  simp only [meetCycle, markInvalid, finalize, run_modify_bind]
  rw [hrun _ _ _ rfl]
  split
  · rfl
  · simp [marked]

/-- What an aggregate does that meets a cycle, whatever words it is marked with. -/
theorem exists_meetCycle_run (task : Task σ) {h : Handle} {key : Key}
    (hkey : s.registry.keyOf? h = some key) (path : List Key) :
    ∃ reason ds, meetCycle task h path s =
      if path.head? = some key then
        .ok () { marked s h reason ds with graph := s.graph.finalize h }
      else
        .error (.valueCycle path) { marked s h reason [] with graph := s.graph.finalize h } :=
  ⟨_, _, meetCycle_eq task hkey path⟩

/-- The innermost aggregate being defined is left as it is. -/
def left (s : State σ) : State σ := { s with defining := s.defining.dropLast }

variable {own : List Handle}

theorem evolves_left (s : State σ) : Evolves own s (left s) :=
  .of_marks rfl (fun _ => rfl) (fun _ _ h => h) (List.prefix_refl _) rfl rfl rfl rfl rfl

/-- How the definition of an aggregate ends, by what taking its parts led to. -/
def finish (task : Task σ) (h : Handle) :
    EStateM.Result Stop (State σ) Unit → EStateM.Result Stop (State σ) Unit
  | .ok _ s =>
    match checkLayout task h s with
    | .ok _ t => .ok () (closed t h)
    | .error e t => .error e (left t)
  | .error (.valueCycle path) s =>
    match meetCycle task h path s with
    | .ok _ t => .ok () (left t)
    | .error e t => .error e (left t)
  | .error e s => .error e (left s)

/-- Any stop but a cycle leaves the aggregate as it is. -/
theorem finish_stopped (task : Task σ) (h : Handle) {e : Stop} (he : e.isCycle = false) :
    finish task h (.error e s) = .error e (left s) := by
  cases e with
  | valueCycle path => cases he
  | _ => rfl

section

variable (task : Task σ) (declare : Ref → Run σ Handle) (define : Handle → Run σ Unit) {h : Handle}

/-- **An aggregate that waits takes the parts of its shape and ends.** -/
theorem exists_takes {shape : Shape} (hnot : h ∉ s.defining) (hmem : h ∈ s.placeholders)
    (hshape : s.placed.get? h = some shape) :
    ∃ r, Takes declare define h shape.parts (entered s h) r ∧
      defineOnce task declare define h s = finish task h r := by
  obtain ⟨r, htakes, hbody⟩ := exists_takes_body declare define h task shape (entered s h)
  refine ⟨r, htakes, ?_⟩
  rw [defineOnce_run hnot hmem hshape, hbody]
  cases r with
  | ok _ t =>
    simp only [finish]
    cases hcheck : checkLayout task h t with
    | ok _ u => rfl
    | error e u =>
      have he := isCycle_of_checkLayout hcheck
      cases e with
      | valueCycle path => cases he
      | _ => rfl
  | error e t =>
    cases e with
    | valueCycle path =>
      simp only [finish]
      cases meetCycle task h path t with
      | ok _ u => rfl
      | error e u => rfl
    | _ => rfl

/-- An aggregate that is being defined is a cycle; the keys from it on are listed. -/
theorem exists_defineOnce_cycle (hs : Linked s) (hh : h ∈ s.defining)
    (hin : ∀ x ∈ s.defining, x < s.graph.count) :
    ∃ path, List.Forall₂ (fun h k => s.registry.keyOf? h = some k)
        (s.defining.dropWhile (· ≠ h)) path ∧
      defineOnce task declare define h s = .error (.valueCycle path) s := by
  obtain ⟨path, hpath, hrun⟩ := keysOf_run hs fun x (hx : x ∈ s.defining.dropWhile (· ≠ h)) =>
    hin x ((List.dropWhile_sublist _).subset hx)
  refine ⟨path, hpath, ?_⟩
  have hcycle : (cycleFrom h : Run σ (List Key)) s = .ok path s := by
    simp only [cycleFrom, run_get_bind]
    exact hrun
  unfold defineOnce
  simp only [run_get_bind, List.contains_eq_mem, hh, decide_true, if_true]
  rw [run_bind_ok hcycle]
  rfl

/-- An aggregate that neither waits nor is being defined has no shape to be defined from. -/
theorem defineOnce_lost (hnot : h ∉ s.defining) (hmem : h ∉ s.placeholders) :
    defineOnce task declare define h s = .error .noShape s := by
  have hstop : (takeShape h : Run σ Shape) s = .error .noShape s := by
    cases hshape : s.placed.get? h with
    | none => simp [takeShape, hshape]
    | some shape =>
      simp only [takeShape, run_get_bind, hshape, List.contains_eq_mem, hmem, decide_false,
        Bool.not_false, if_true]
      rfl
  have hrun : defineOnce task declare define h s = (takeShape h >>= fun shape =>
      whileDefining h (defineCaught task declare define h shape)) s := by
    simp [defineOnce, hnot]
  rw [hrun, run_bind_error hstop]

end

/-! ## 4. What is left behind -/

/-- From `a`, these parts were taken, each of the type that its reference was declared as. -/
inductive Took (s : State σ) : List PartShape → Aggregate → Aggregate → Prop
  | nil {a : Aggregate} : Took s [] a a
  | cons {p : PartShape} {ps : List PartShape} {t : Handle} {a a' : Aggregate} :
      s.declared.get? p.ref = some t → Took s ps (p.add t a) a' → Took s (p :: ps) a a'

namespace Took

variable {ps qs : List PartShape} {a b c : Aggregate}

/-- What is declared later on does not change what was taken. -/
theorem of_declared (h : Took s ps a b)
    (hdeclared : ∀ ref t, s.declared.get? ref = some t → s'.declared.get? ref = some t) :
    Took s' ps a b := by
  induction h with
  | nil => exact .nil
  | cons ht _ ih => exact .cons (hdeclared _ _ ht) ih

/-- Parts after parts. -/
theorem append (h : Took s ps a b) (h' : Took s qs b c) : Took s (ps ++ qs) a c := by
  induction h with
  | nil => exact h'
  | cons ht _ ih => exact .cons ht (ih h')

/-- The bases among the parts were taken first, in their order. -/
theorem exists_bases {bases : List BaseShape} (h : Took s (bases.map .base ++ ps) a b) :
    ∃ new, List.Forall₂ (FollowsBase s) bases new ∧
      Took s ps { a with bases := a.bases ++ new } b := by
  induction bases generalizing a with
  | nil => exact ⟨[], .nil, by simpa using h⟩
  | cons base rest ih =>
    cases h with
    | @cons _ _ t _ _ ht hrest =>
      obtain ⟨new, hnew, htook⟩ := ih hrest
      refine ⟨⟨t, base.offset, base.isTruth⟩ :: new, .cons ⟨ht, rfl, rfl⟩ hnew, ?_⟩
      simpa [PartShape.add] using htook

/-- The fields were taken in their order. -/
theorem exists_fields {fields : List FieldShape} (h : Took s (fields.map .field) a b) :
    ∃ new, List.Forall₂ (FollowsField s) fields new ∧
      b = { a with fields := a.fields ++ new } := by
  induction fields generalizing a with
  | nil =>
    cases h
    exact ⟨[], .nil, by simp⟩
  | cons field rest ih =>
    cases h with
    | @cons _ _ t _ _ ht hrest =>
      obtain ⟨new, hnew, rfl⟩ := ih hrest
      refine ⟨⟨field.name, t, field.offset, field.bitOffset, field.bitWidth, field.isTruth⟩ :: new,
        .cons ⟨ht, rfl, rfl, rfl, rfl, rfl⟩ hnew, ?_⟩
      simp [PartShape.add]

/-- An aggregate that took all parts of a shape follows it. -/
theorem follows {shape : Shape} (h : Took s shape.parts a b) (hbases : a.bases = [])
    (hfields : a.fields = []) : Follows s shape b := by
  obtain ⟨bases, hb, hrest⟩ := h.exists_bases
  obtain ⟨fields, hf, rfl⟩ := hrest.exists_fields
  refine ⟨?_, ?_⟩
  · simpa [hbases] using hb
  · simpa [hfields] using hf

end Took

end Resolver

end NativeTypes
