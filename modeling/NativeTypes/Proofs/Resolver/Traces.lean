/-
NativeTypes.Proofs.Resolver.Traces — every function of the declare phase plays
its calls.

The functions are gone through once, from the registry and the source upwards,
with one lemma `plays_f` for each function `f`. It says that a run of `f` is a
trace of the calls that `f` should make (`Plays`), or breaks off such a trace:
the edits between two calls are allowed ones, the calls come in the order of
the description, and a stop is that of a call or has an excuse. What the later
modules prove about edits and calls therefore holds of the declare phase, and
none of them opens one of its functions again.

1. The registry (`plays_register`, `plays_ensure`, `plays_undefined`,
   `plays_addAlias`): at most one key is bound, and it was free.
2. The source and names (`plays_query`, `plays_pointerSize`, `plays_namedKey`):
   one question, asked at most once, or a number that is too long to be
   written.
3. Types without a name of their own (`plays_pointer` to
   `plays_applySuffixes`).
4. What is described (`plays_declareAlias`, `plays_declareEnumeration`,
   `plays_declareFunction`, `places_declareAggregate`), given how references
   are declared.
5. References (`places_declareNew`), by what they are described by.

Two things have to be carried from one step of a function to the next. A handle
that is used belongs to the graph (`InGraph`), so it has a key, and neither a
registration nor an alias is refused. And a key that was looked up and found
free is still free when it is bound. The first comes from the posts of
`steps_f`, which every `plays_bind` takes as its first argument. The second is
lost as soon as anything is declared in between, and there is one function
where that happens: `declareEnumeration` looks its key up before its underlying
type is declared. That is why `Excused` has a case `taken`, and why the known
case of an enumeration is a lemma of its own (`declareEnumeration_known`).

A reference that an open typedef or a known enumeration stands for makes no
calls at all, where its description has some. Which calls are made is a fact
about the state, `Made`; it is settled in the state in which the declaration
starts and has to be carried past the question to the source (`Made.congr`),
which changes neither the registry nor what is open.
-/
import NativeTypes.Proofs.Resolver.Calls

namespace NativeTypes.Resolver

variable {σ : Type} {α : Type} {task : Task σ} {describe : Description} {valid : σ → Prop}
  {ref : Ref} {declare : Ref → Run σ Handle} {s s' : State σ}

/-! ## 1. The registry

Nothing is called here. The runs are computed, and the one edit that can come of them is read
off. -/

/-- A report is noted; neither a key nor a declaration comes of it. -/
theorem plays_report (d : Diagnostic) :
    Plays task describe ref declare s [] (report d : Run σ Unit) :=
  plays_modify rfl rfl

/-- A handle in the graph has a key, so asking for it never stops. -/
theorem plays_keyOf (hs : WellFormed s) {h : Handle} (hh : InGraph h s) :
    Plays task describe ref declare s [] (keyOf h) := by
  obtain ⟨key, hkey⟩ := hs.exists_key hh
  unfold keyOf
  refine plays_get_bind ?_
  rw [hkey]
  exact plays_pure _

/-- Registering under a free key appends the instance and binds the key to it, and nothing else. -/
theorem register_run {key : Key} (hfree : s.registry.get? key = none) (i : Instance) :
    register task key i s = .ok s.graph.count
      { s with graph := s.graph.push i, registry := s.registry.bind key s.graph.count } := by
  unfold register
  simp only [run_get_bind]
  have hok : s.registry.register key s.graph.count =
      .ok (s.registry.bind key s.graph.count) := by
    simp only [Registry.register, hfree]
  rw [hok]
  rfl

theorem plays_register {key : Key} (hfree : s.registry.get? key = none) (i : Instance) :
    Plays task describe ref declare s [] (register task key i) := by
  unfold Plays Ensures
  rw [register_run hfree]
  exact .done (.single (.bound rfl hfree rfl))

/-- What is registered by `ensure` is looked up first, so its key is free. -/
theorem plays_ensure (key : Key) (i : Instance) :
    Plays task describe ref declare s [] (ensure task key i) := by
  unfold ensure
  refine plays_get_bind ?_
  split
  · exact plays_pure _
  · rename_i hfree
    exact plays_register hfree i

/-- A placeholder is found under its name, or made and reported. -/
theorem undefined_run (task : Task σ) (name reason : String) (s : State σ) :
    (∃ h, s.registry.get? (.named name) = some h ∧ undefined task name reason s = .ok h s) ∨
      s.registry.get? (.named name) = none ∧
        undefined task name reason s = .ok s.graph.count { s with
          graph := s.graph.push (.undefined name)
          registry := s.registry.bind (.named name) s.graph.count
          diagnostics := s.diagnostics ++
            [(TypeProblem.unresolvable reason).diagnostic name task.module] } := by
  cases hget : s.registry.get? (.named name) with
  | some h => exact .inl ⟨h, rfl, by simp only [undefined, run_get_bind, hget, run_pure]⟩
  | none =>
    refine .inr ⟨rfl, ?_⟩
    simp only [undefined, run_get_bind, hget, report, run_modify_bind]
    exact register_run (s := { s with diagnostics := s.diagnostics ++ _ }) hget _

/-- A placeholder binds its name, which the look-up before found to be free. -/
theorem plays_undefined (name reason : String) :
    Plays task describe ref declare s [] (undefined task name reason) := by
  unfold Plays Ensures
  rcases undefined_run task name reason s with ⟨h, -, hrun⟩ | ⟨hfree, hrun⟩
  · rw [hrun]
    exact .done (.refl s)
  · rw [hrun]
    exact .done (.single (.bound rfl hfree rfl))

/-- An instance takes a key that is free. -/
theorem addAlias_run (task : Task σ) (hs : WellFormed s) {h : Handle} (hh : InGraph h s)
    (key : Key) :
    (s.registry.get? key).isSome = true ∧ addAlias task key h s = .ok () s ∨
      s.registry.get? key = none ∧
        addAlias task key h s = .ok () { s with registry := s.registry.bind key h } := by
  have hknown : (Assoc.get? s.registry.keys h).isSome = true :=
    (hs.coherent.isSome_keyOf?_iff h).mp ((hs.registered h).mpr hh)
  cases hget : s.registry.get? key with
  | some holder =>
    refine .inl ⟨rfl, ?_⟩
    simp only [addAlias, run_get_bind, Registry.addAlias, hget]
    rfl
  | none =>
    refine .inr ⟨rfl, ?_⟩
    simp only [addAlias, run_get_bind, Registry.addAlias, hget, hknown, if_true]
    rfl

/-- An alias for a key that is taken already changes nothing; there is no refusal, since the
instance is registered. -/
theorem plays_addAlias (hs : WellFormed s) (key : Key) {h : Handle} (hh : InGraph h s) :
    Plays task describe ref declare s [] (addAlias task key h) := by
  unfold Plays Ensures
  rcases addAlias_run task hs hh key with ⟨-, hrun⟩ | ⟨hfree, hrun⟩
  · rw [hrun]
    exact .done (.refl s)
  · rw [hrun]
    exact .done (.single (.bound rfl hfree rfl))

/-! ## 2. The source and names

A question to the source is an edit of its own, and a poll comes before each. So a stop here
leaves the state in which the question was asked, with the answer that was no answer as its
excuse. -/

/-- The poll, computed: only the session moves, whether the run is to stop or not. -/
theorem checkCancelled_run (s : State σ) : checkCancelled task s =
    if (task.source.stopRequested s.session).1 then
      .error (.cancelled task.module) { s with session := (task.source.stopRequested s.session).2 }
    else .ok () { s with session := (task.source.stopRequested s.session).2 } := by
  unfold checkCancelled
  simp only [run_get_bind, run_modify_bind]
  split
  · rfl
  · rfl

/-- A poll registers nothing. -/
theorem registry_of_checkCancelled {a : Unit} (hrun : checkCancelled task s = .ok a s') :
    s'.registry = s.registry := by
  rw [checkCancelled_run] at hrun
  split at hrun
  · cases hrun
  · cases hrun
    rfl

/-- A poll is one edit, or it stops the run and is excused by its own answer. -/
theorem plays_checkCancelled : Plays task describe ref declare s [] (checkCancelled task) := by
  unfold Plays Ensures
  rw [checkCancelled_run]
  split <;> rename_i heq
  · split at heq
    · cases heq
    · cases heq
      exact .done (.single .polled)
  · split at heq
    · cases heq
      exact .here (.refl s) (.single .polled) (.cancelled ‹_›)
    · cases heq

/-- A look-up is answered from memory without an edit, or the source is polled and asked, which
are two edits; only normal references are asked about. -/
theorem plays_query (hnormal : IsNormal ref) :
    Plays task describe ref declare s [] (query task ref) := by
  unfold query
  refine plays_get_bind ?_
  split
  · exact plays_pure _
  · rename_i hnew
    unfold Plays Ensures
    cases hcheck : checkCancelled task s with
    | error e t =>
      rw [run_bind_error hcheck]
      exact (plays_checkCancelled.of_error hcheck :)
    | ok _ t =>
      have hsession : t = { s with session := (task.source.stopRequested s.session).2 } := by
        rw [checkCancelled_run] at hcheck
        split at hcheck
        · cases hcheck
        · cases hcheck
          rfl
      -- the poll is one edit; the rest of the run starts from the state it leaves
      have hpolled : Edit task s t := hsession ▸ .polled
      have hnew : t.shapes.get? ref = none := hsession ▸ hnew
      rw [run_bind_ok hcheck]
      simp only [run_get_bind, run_modify_bind]
      cases hlookup : task.source.lookup t.session task.module ref with
      | mk answer session =>
        simp only [hlookup]
        cases answer with
        | error e =>
          exact .here (.single hpolled) (.single (.lost hnew hnormal hlookup))
            (.lost (by rw [hlookup]))
        | ok shape =>
          exact .done ((Relation.ReflTransGen.single hpolled).tail
            (.answered hnew hnormal hlookup))

/-- What a look-up returns is what is described. -/
theorem eq_of_query {ref : Ref} {answer : Option Shape} (hd : Describes task describe valid)
    (ht : Truthful describe valid s) (hrun : query task ref s = .ok answer s') :
    answer = describe ref := by
  cases hknown : s.shapes.get? ref with
  | some shape =>
    simp only [query, run_get_bind, hknown] at hrun
    cases hrun
    exact ht.2 ref _ hknown
  | none =>
    simp only [query, run_get_bind, hknown] at hrun
    obtain ⟨_, t, hcheck, hrun⟩ := bind_eq_ok hrun
    have hvalid : valid t.session := by
      rw [checkCancelled_run] at hcheck
      split at hcheck
      · cases hcheck
      · cases hcheck
        exact hd.polled ht.1
    simp only [run_get_bind, run_modify_bind] at hrun
    cases hanswer : (task.source.lookup t.session task.module ref).1 with
    | error e =>
      simp only [hanswer] at hrun
      cases hrun
    | ok shape =>
      simp only [hanswer] at hrun
      cases hrun
      exact hd.answers hvalid hanswer

/-- Asking the source registers nothing. -/
theorem registry_of_query {ref : Ref} {answer : Option Shape}
    (hrun : query task ref s = .ok answer s') : s'.registry = s.registry := by
  cases hknown : s.shapes.get? ref with
  | some shape =>
    simp only [query, run_get_bind, hknown] at hrun
    cases hrun
    rfl
  | none =>
    simp only [query, run_get_bind, hknown] at hrun
    obtain ⟨_, t, hcheck, hrun⟩ := bind_eq_ok hrun
    simp only [run_get_bind, run_modify_bind] at hrun
    cases hanswer : (task.source.lookup t.session task.module ref).1 with
    | error e =>
      simp only [hanswer] at hrun
      cases hrun
    | ok shape =>
      simp only [hanswer] at hrun
      cases hrun
      show t.registry = s.registry
      exact registry_of_checkCancelled hcheck

/-- The size of pointers is asked for once and noted. -/
theorem plays_pointerSize : Plays task describe ref declare s [] (pointerSize task) := by
  unfold pointerSize
  refine plays_get_bind ?_
  split
  · exact plays_pure _
  · unfold Plays Ensures
    cases hcheck : checkCancelled task s with
    | error e t =>
      rw [run_bind_error hcheck]
      exact (plays_checkCancelled.of_error hcheck :)
    | ok _ t =>
      have hplays : Plays task describe ref declare s [] (checkCancelled task) :=
        plays_checkCancelled
      have hpolled : Trace task declare [] s t := hplays.of_ok hcheck
      rw [run_bind_ok hcheck]
      simp only [run_get_bind]
      cases hsize : task.source.pointerSize t.session task.module with
      | error e => exact Broken.prepend hpolled (.here (.refl t) (.refl t) (.unsized hsize))
      | ok size => exact hpolled.append (.done (.noted rfl rfl))

/-- Asking for the size of pointers registers nothing. -/
theorem registry_of_pointerSize {size : Int} (hrun : pointerSize task s = .ok size s') :
    s'.registry = s.registry := by
  cases hknown : s.pointerSize with
  | some n =>
    simp only [pointerSize, run_get_bind, hknown] at hrun
    cases hrun
    rfl
  | none =>
    simp only [pointerSize, run_get_bind, hknown] at hrun
    obtain ⟨_, t, hcheck, hrun⟩ := bind_eq_ok hrun
    simp only [run_get_bind] at hrun
    cases hanswer : task.source.pointerSize t.session task.module with
    | error e =>
      simp only [hanswer] at hrun
      cases hrun
    | ok n =>
      simp only [hanswer] at hrun
      cases hrun
      show t.registry = s.registry
      exact registry_of_checkCancelled hcheck

/-- A number that cannot be written is excused by where it stands. -/
theorem plays_needWritable {writable : Bool} (hlong : writable = false → Overlong describe ref) :
    Plays task describe ref declare s [] (needWritable writable : Run σ Unit) := by
  unfold needWritable
  split
  · exact plays_pure _
  · rename_i hnot
    exact plays_throw (.unwritable (hlong (by simpa using hnot))) _

/-- Making the key of a name changes nothing; it stops only at a number in the name. -/
theorem plays_namedKey {name : String} (hlong : ∀ t, TypeName.parsePlain? name = some t →
      t.isWritable = false → Overlong describe ref) :
    Plays task describe ref declare s [] (namedKey name : Run σ Key) := by
  unfold namedKey
  split
  · exact plays_pure _
  · rename_i t hparse
    unfold needWritable
    split
    · exact plays_pure _
    · rename_i hnot
      exact plays_throw (.unwritable (hlong t hparse (by simpa using hnot))) _

/-- A part of a name is too long only if the name is. -/
theorem isWritable_of_withoutSuffixes {t : TypeName}
    (h : t.withoutSuffixes.isWritable = false) : t.isWritable = false := by
  obtain ⟨base, suffixes⟩ := t
  have hbase : base.isWritable = false := by
    simpa [TypeName.withoutSuffixes, TypeName.base, TypeName.isWritable] using h
  rw [TypeName.isWritable, hbase, Bool.false_and]

/-- The suffixes that wrap a type are suffixes of its name: they are only put in another order,
because a run of arrays is written outside in. -/
theorem mem_of_mem_wrappingFrom {run suffixes : List Suffix} {suffix : Suffix}
    (h : suffix ∈ TypeName.wrappingFrom run suffixes) : suffix ∈ run ∨ suffix ∈ suffixes := by
  induction suffixes generalizing run with
  | nil => exact .inl h
  | cons x rest ih =>
    unfold TypeName.wrappingFrom at h
    split at h
    · rcases ih h with h | h
      · rcases List.mem_cons.mp h with rfl | h
        · exact .inr List.mem_cons_self
        · exact .inl h
      · exact .inr (List.mem_cons_of_mem x h)
    · rcases List.mem_append.mp h with h | h
      · exact .inl h
      · rcases List.mem_cons.mp h with rfl | h
        · exact .inr List.mem_cons_self
        · exact .inr (List.mem_cons_of_mem x ((ih h).resolve_left List.not_mem_nil))

/-- So a suffix that cannot be written is one of a name that cannot be. -/
theorem isWritable_of_mem_wrapping {t : TypeName} {suffix : Suffix} (hmem : suffix ∈ t.wrapping)
    (h : suffix.isWritable = false) : t.isWritable = false := by
  obtain ⟨base, suffixes⟩ := t
  have hmem : suffix ∈ suffixes :=
    (mem_of_mem_wrappingFrom hmem).resolve_left List.not_mem_nil
  have hall : suffixes.all Suffix.isWritable = false :=
    List.all_eq_false.mpr ⟨suffix, hmem, by simp [h]⟩
  rw [TypeName.isWritable, hall, Bool.and_false]

/-- The same goes for a template argument. -/
theorem isWritable_of_mem_arguments {t u : TypeName} (hmem : Argument.type u ∈ t.arguments)
    (h : u.isWritable = false) : t.isWritable = false := by
  cases ht : t.isWritable with
  | false => rfl
  | true =>
    have hu := TypeName.isWritable_of_mem_arguments ht hmem
    rw [Argument.isWritable, h] at hu
    cases hu

/-- A described type with a name or an id takes no running number. -/
theorem nameOf_run {shape : Shape} (h : shape.IsTitled)
    (hkind : shape.kind ≠ .primitive ∧ shape.kind ≠ .unsupported) :
    nameOf shape s = .ok shape.title s := by
  unfold nameOf Shape.title
  by_cases hname : shape.name.isEmpty = true
  · have hid : shape.typeId.isSome = true := by
      rcases h with h | h | h | h
      · rw [hname] at h
        cases h
      · exact h
      · exact absurd h hkind.1
      · exact absurd h hkind.2
    obtain ⟨id, hid⟩ := Option.isSome_iff_exists.mp hid
    simp [hname, hid]
  · simp [hname]

/-! ## 3. Types without a name of their own

Pointers, arrays and scalars are registered under keys made of the keys of their parts. The parts
are in the graph, as the posts of the steps before say. -/

/-- A scalar is registered under its own key, at most once. -/
theorem plays_primitive (kind : Primitive) :
    Plays task describe ref declare s [] (primitive task kind) :=
  plays_ensure _ _

/-- A pointer may ask for the size of pointers between the look-up of its key and the
registration. The question registers nothing, so the key stays free. -/
theorem plays_pointer (hs : WellFormed s) {target : Handle} (ht : InGraph target s)
    (size : Option Int) : Plays task describe ref declare s [] (pointer task target size) := by
  unfold pointer
  refine plays_bind (steps_keyOf hs target) (plays_keyOf hs ht) ?_
  rintro key s₁ hs₁ - ⟨rfl, -⟩
  refine plays_get_bind ?_
  split
  · exact plays_pure _
  · rename_i hfree
    have hasked : Plays task describe ref declare s₁ [] (do
        register task key.pointer (.pointer target (← pointerSize task))) :=
      plays_bind ((steps_pointerSize task hs₁).with fun _ _ hrun _ =>
          registry_of_pointerSize hrun) plays_pointerSize
        fun n s₂ _ _ hr => plays_register (hr ▸ hfree) _
    simp only
    split
    · split
      · exact hasked
      · exact plays_register hfree _
    · exact hasked

/-- The length of an array is written in its key, so it may be too long. -/
theorem plays_array (hs : WellFormed s) {element : Handle} (he : InGraph element s)
    {length : Option Int} (hlong : ∀ n, length = some n → Text.isWritable n = false →
      Overlong describe ref) :
    Plays task describe ref declare s [] (array task element length) := by
  unfold array
  refine plays_bind (steps_keyOf hs element) (plays_keyOf hs he) ?_
  rintro key s₁ hs₁ - ⟨rfl, -⟩
  refine plays_bind (steps_needWritable hs₁ _) (plays_needWritable ?_) ?_
  · intro hnot
    cases length with
    | none => cases hnot
    | some n => exact hlong n rfl (by simpa using hnot)
  · intro _ s₂ _ _ _
    exact plays_ensure _ _

/-- One suffix makes a pointer or an array of what is there. -/
theorem plays_applySuffix (hs : WellFormed s) {h : Handle} (hh : InGraph h s)
    {suffix : Suffix} (hlong : suffix.isWritable = false → Overlong describe ref) :
    Plays task describe ref declare s [] (applySuffix task h suffix) := by
  cases suffix with
  | array length => exact plays_array hs hh fun n hn hnot => hlong (by rw [hn]; exact hnot)
  | pointer => exact plays_pointer hs hh none
  | reference => exact plays_pointer hs hh none

/-- Suffixes are applied one after the other; each leaves a handle of the graph for the next. -/
theorem plays_applySuffixes {suffixes : List Suffix} (hs : WellFormed s) {h : Handle}
    (hh : InGraph h s) (hlong : ∀ suffix ∈ suffixes, suffix.isWritable = false →
      Overlong describe ref) :
    Plays task describe ref declare s [] (applySuffixes task h suffixes) := by
  induction suffixes generalizing s h with
  | nil => exact plays_pure _
  | cons suffix rest ih =>
    refine plays_bind (steps_applySuffix task hs h suffix)
      (plays_applySuffix hs hh (hlong suffix List.mem_cons_self)) ?_
    rintro h' s' hs' - ⟨-, key, -, hh'⟩
    exact ih hs' (hs'.lt_count_of_get? hh') fun x hx => hlong x (List.mem_cons_of_mem suffix hx)

/-- The keys of handles in the graph are there to be read. -/
theorem plays_keysOf (handles : List Handle) (hs : WellFormed s)
    (hin : ∀ h ∈ handles, InGraph h s) :
    Plays task describe ref declare s [] (keysOf handles) := by
  induction handles with
  | nil => exact plays_pure _
  | cons h rest ih =>
    refine plays_bind (steps_keyOf hs h) (plays_keyOf hs (hin h List.mem_cons_self)) ?_
    rintro key s₁ - - ⟨rfl, -⟩
    refine plays_bind (steps_keysOf rest hs) (ih fun x hx => hin x (List.mem_cons_of_mem h hx)) ?_
    intro keys s₂ _ _ _
    exact plays_pure _

/-! ## 4. Calls

From here on references are declared for other references. `declare` is any run that declares
(`Declares`): it leaves a well-formed state with the handle it returns in the graph. -/

/-- A call is a trace of itself, whether it returns or stops. -/
theorem plays_call (hs : WellFormed s) (c : Call) :
    Plays task describe ref declare s [c] (c.run declare) := by
  unfold Plays Ensures
  cases hr : c.run declare s with
  | ok h t => exact .call (.refl s) hs hr (.done (.refl t))
  | error e t => exact .call (.refl s) hs hr

variable (hdeclare : Declares declare)
include hdeclare

/-- References in a row are as many calls. -/
theorem plays_declareAll (refs : List Ref) (hs : WellFormed s) :
    Plays task describe ref declare s (refs.map .to) (declareAll declare refs) := by
  induction refs generalizing s with
  | nil => exact plays_pure _
  | cons ref rest ih =>
    refine plays_bind (hdeclare s ref hs) (plays_call hs (.to ref)) ?_
    intro h s₁ hs₁ _ _
    rw [← List.append_nil (rest.map Call.to)]
    exact plays_bind (steps_declareAll hdeclare rest hs₁) (ih hs₁)
      fun _ _ _ _ _ => plays_pure _

/-- A typedef that is not open yet calls its target with itself open. Afterwards its own name
becomes an alias of what the target is, unless it goes by its id. -/
theorem plays_declareAlias (label : String) {shape : Shape} (hdescribe : describe ref = some shape)
    (hknows : Knows s ref shape) (hs : WellFormed s) (hkind : shape.kind = .typedef)
    (hclosed : label ∉ s.openAliases) :
    Plays task describe ref declare s (shape.calls label)
      (declareAlias task declare label shape) := by
  unfold declareAlias Shape.calls
  rw [hkind]
  cases htarget : shape.target with
  | none => exact plays_undefined _ _
  | some target =>
    refine plays_get_bind ?_
    rw [if_neg (by simpa using hclosed)]
    refine plays_bind (d := []) (steps_withOpenAlias hdeclare label target hs)
      (plays_call hs ⟨some label, target⟩) ?_
    intro h s₁ hs₁ hg₁ hh
    split
    · rename_i hname
      have htitle : shape.title = shape.name := by rw [Shape.title, if_pos hname]
      refine plays_bind (steps_namedKey hs₁ _) (plays_namedKey fun t hparse hlong =>
        .title hdescribe (htitle ▸ hparse) hlong) ?_
      rintro _ s₂ hs₂ - ⟨rfl, rfl⟩
      refine plays_bind (steps_addAlias task hs₂ _ (fun _ => isWritable_keyOfName _)
        fun hsource => ?_) (plays_addAlias hs₂ _ (hs₂.declared _ _ hh)) ?_
      · exact .typedef (hg₁.shapes _ _ hknows) hkind htarget (by simpa using hname)
          (hsource.justified (.ref target) h hh)
      · intro _ s₃ _ _ _
        exact plays_pure _
    · exact plays_pure _

omit hdeclare in
/-- A typedef that is open already is a placeholder. -/
theorem plays_declareAlias_open {label : String} {shape : Shape} (hopen : label ∈ s.openAliases) :
    Plays task describe ref declare s [] (declareAlias task declare label shape) := by
  unfold declareAlias
  split
  · exact plays_undefined _ _
  · refine plays_get_bind ?_
    rw [if_pos (by simpa using hopen)]
    exact plays_undefined _ _

omit hdeclare in
/-- Members with one name are reported; nothing is registered for them. -/
theorem plays_distinctMembers (owner : String) (seen : List String)
    (members : List (String × Int)) (hs : WellFormed s) :
    Plays task describe ref declare s [] (distinctMembers task owner seen members) := by
  induction members generalizing s seen with
  | nil => exact plays_pure _
  | cons m rest ih =>
    obtain ⟨name, value⟩ := m
    unfold distinctMembers
    split
    · refine plays_bind (steps_report hs (Or.inr rfl)) (plays_report _) ?_
      intro _ s₁ hs₁ _ _
      exact ih seen hs₁
    · refine plays_bind (steps_distinctMembers task owner _ rest hs) (ih _ hs) ?_
      intro _ s₁ _ _ _
      exact plays_pure _

omit hdeclare in
/-- Registering an enumeration: its key may have been taken meanwhile. -/
theorem plays_registerEnumeration {shape : Shape} (hdescribe : describe ref = some shape)
    (hkind : shape.kind = .enumeration) (hs : WellFormed s) (i : Instance) :
    Plays task describe ref declare s [] (register task (keyOfName shape.title) i) := by
  cases hfree : s.registry.get? (keyOfName shape.title) with
  | none => exact plays_register hfree i
  | some holder =>
    -- what has a key is in the graph, the new instance is not
    have hne : holder ≠ s.graph.count := Nat.ne_of_lt (hs.lt_count_of_get? hfree)
    unfold register
    refine plays_get_bind ?_
    simp only [Registry.register, hfree, if_neg hne]
    exact plays_throw (.taken hdescribe hkind hfree) _

/-- An enumeration whose key is free calls its underlying type, or takes a scalar. Its members
are gone through before it is registered. -/
theorem plays_declareEnumeration {shape : Shape} (hdescribe : describe ref = some shape)
    (hknows : Knows s ref shape) (hkind : shape.kind = .enumeration) (htitled : shape.IsTitled)
    (hs : WellFormed s)
    (hfree : s.registry.get? (keyOfName shape.title) = none) :
    Plays task describe ref declare s (shape.calls (labelOf ref))
      (declareEnumeration task declare shape) := by
  have hname := fun t : State σ => nameOf_run (s := t) htitled (by simp [hkind])
  -- what comes after the underlying type is the same for both ways to it
  have hnext : ∀ (underlying : Handle) (s₁ : State σ), WellFormed s₁ →
      Plays task describe ref declare s₁ [] (do
        let members ← distinctMembers task shape.title [] shape.members
        register task (keyOfName shape.title) (.enumeration
          { name := (splitName shape.title).2, scope := (splitName shape.title).1, underlying,
            members })) := by
    intro underlying s₁ hs₁
    refine plays_bind (steps_distinctMembers task _ _ _ hs₁) (plays_distinctMembers _ _ _ hs₁) ?_
    intro members s₂ hs₂ _ _
    exact plays_registerEnumeration hdescribe hkind hs₂ _
  unfold Plays Ensures declareEnumeration
  rw [run_bind_ok (hname s)]
  refine plays_bind (c := []) (steps_namedKey hs _) (plays_namedKey fun t => .title hdescribe) ?_
  rintro key s₁ hs₁ - ⟨rfl, rfl⟩
  refine plays_get_bind ?_
  rw [hfree]
  simp only [hkind]
  cases hunderlying : shape.underlying with
  | none =>
    exact plays_bind (steps_primitive task hs₁ ⟨ref, shape, hknows, .underlying hkind hunderlying⟩)
      (plays_primitive _) fun h s₂ hs₂ _ _ => hnext h s₂ hs₂
  | some target =>
    exact plays_bind (d := []) (hdeclare s₁ target hs₁) (plays_call hs₁ (.to target))
      fun h s₂ hs₂ _ _ => hnext h s₂ hs₂

omit hdeclare in
/-- An enumeration that is known by its key is that instance. -/
theorem declareEnumeration_known {shape : Shape} (hdescribe : describe ref = some shape)
    (hkind : shape.kind = .enumeration) (htitled : shape.IsTitled) {holder : Handle}
    (hknown : s.registry.get? (keyOfName shape.title) = some holder) :
    Plays task describe ref declare s [] (declareEnumeration task declare shape) := by
  have hname := nameOf_run (s := s) htitled (by simp [hkind])
  unfold Plays Ensures declareEnumeration
  rw [run_bind_ok hname]
  cases hkey : namedKey shape.title s with
  | ok key t =>
    obtain ⟨rfl, rfl⟩ := namedKey_eq_ok hkey
    rw [run_bind_ok hkey]
    simp only [run_get_bind, hknown]
    exact .done (.refl _)
  | error e t =>
    rw [run_bind_error hkey]
    have hplays : Plays task describe ref declare s [] (namedKey shape.title) :=
      plays_namedKey fun t => .title hdescribe
    exact hplays.of_error hkey

/-- A function calls its result, if it has one, and then its parameters. Its key is made of the
keys of all of them, so it is looked up only afterwards. -/
theorem plays_declareFunction (label : String) {shape : Shape} (hknows : Knows s ref shape)
    (hkind : shape.kind = .function) (hs : WellFormed s) :
    Plays task describe ref declare s (shape.calls label) (declareFunction task declare shape) := by
  -- from the parameters on both cases of the result are the same
  have hnext : ∀ (result : Handle) (s₁ : State σ), WellFormed s₁ → InGraph result s₁ →
      Plays task describe ref declare s₁ (shape.parameters.map .to) (do
        let parameters ← declareAll declare shape.parameters
        let key := Key.function (← keyOf result) (← keysOf parameters) shape.variadic
        let name := if shape.name.isEmpty then none else some shape.name
        ensure task key (.function { result, parameters, variadic := shape.variadic, name })) := by
    intro result s₁ hs₁ hresult
    rw [← List.append_nil (shape.parameters.map Call.to)]
    refine plays_bind (steps_declareAll hdeclare shape.parameters hs₁)
      (plays_declareAll hdeclare shape.parameters hs₁) ?_
    intro parameters s₂ hs₂ hg₂ hparameters
    refine plays_bind (steps_keyOf hs₂ result) (plays_keyOf hs₂ (hresult.grow hg₂)) ?_
    rintro key s₃ hs₃ - ⟨rfl, -⟩
    refine plays_bind (steps_keysOf parameters hs₃) (plays_keysOf parameters hs₃ hparameters) ?_
    intro keys s₄ _ _ _
    exact plays_ensure _ _
  unfold declareFunction
  simp only [Shape.calls, hkind]
  cases hresult : shape.result with
  | none =>
    exact plays_bind (steps_primitive task hs ⟨ref, shape, hknows, .result hkind hresult⟩)
      (plays_primitive _) fun h s₁ hs₁ _ hh => hnext h s₁ hs₁ (hs₁.lt_count_of_get? hh)
  | some result =>
    exact plays_bind (hdeclare s result hs) (plays_call hs (.to result))
      fun h s₁ hs₁ _ hh => hnext h s₁ hs₁ hh.1

/-- The types among template arguments are declared under their spellings; numbers are kept as
they are. -/
theorem plays_declareArguments {arguments : List Argument} (hs : WellFormed s)
    (hlong : ∀ t, Argument.type t ∈ arguments → t.isWritable = false → Overlong describe ref) :
    Plays task describe ref declare s (argumentCalls arguments)
      (declareArguments declare arguments) := by
  induction arguments generalizing s with
  | nil => exact plays_pure _
  | cons argument rest ih =>
    cases argument with
    | number n =>
      unfold declareArguments argumentCalls
      rw [← List.append_nil (argumentCalls rest)]
      refine plays_bind (steps_declareArguments hdeclare rest hs)
        (ih hs fun t ht => hlong t (List.mem_cons_of_mem _ ht)) ?_
      intro as s₁ _ _ _
      exact plays_pure _
    | type t =>
      unfold declareArguments argumentCalls
      refine plays_bind (c := []) (steps_needWritable hs _)
        (plays_needWritable (hlong t List.mem_cons_self)) ?_
      intro _ s₁ hs₁ _ _
      refine plays_bind (hdeclare s₁ _ hs₁) (plays_call hs₁ (.to (.name t.format))) ?_
      intro h s₂ hs₂ _ _
      rw [← List.append_nil (argumentCalls rest)]
      exact plays_bind (steps_declareArguments hdeclare rest hs₂)
        (ih hs₂ fun u hu => hlong u (List.mem_cons_of_mem _ hu)) fun _ _ _ _ _ => plays_pure _

omit hdeclare in
/-- The keys of template arguments are read off, one for each. -/
theorem plays_argumentKeys (arguments : List TemplateArgument) (hs : WellFormed s)
    (hin : ∀ h, TemplateArgument.type h ∈ arguments → InGraph h s) :
    Plays task describe ref declare s [] (argumentKeys arguments) := by
  induction arguments with
  | nil => exact plays_pure _
  | cons argument rest ih =>
    have hrest : ∀ h, TemplateArgument.type h ∈ rest → InGraph h s :=
      fun x hx => hin x (List.mem_cons_of_mem _ hx)
    cases argument with
    | number n =>
      unfold argumentKeys
      refine plays_bind (steps_argumentKeys rest hs) (ih hrest) ?_
      intro keys s₁ _ _ _
      exact plays_pure _
    | type h =>
      unfold argumentKeys
      refine plays_bind (steps_keyOf hs h) (plays_keyOf hs (hin h List.mem_cons_self)) ?_
      rintro key s₁ - - ⟨rfl, -⟩
      refine plays_bind (steps_argumentKeys rest hs) (ih hrest) ?_
      intro keys s₂ _ _ _
      exact plays_pure _

omit hdeclare in
/-- An aggregate whose key is free is registered without parts and put on the worklist; one that
is known is returned. -/
theorem places_placeNew (key : Key) (a : Aggregate) {shape : Shape}
    (hshape : describe ref = some shape) (hkind : shape.kind = .struct ∨ shape.kind = .union) :
    Places task describe ref declare s [] (placeNew task key a shape) := by
  unfold Places Ensures
  cases hfree : s.registry.get? key with
  | some h =>
    simp only [placeNew, run_get_bind, hfree]
    exact ⟨s, .done (.refl s), .inl rfl⟩
  | none =>
    simp only [placeNew, run_get_bind, hfree, place]
    rw [run_bind_ok (register_run hfree _)]
    exact ⟨{ s with graph := s.graph.push (.aggregate a),
                    registry := s.registry.bind key s.graph.count },
      .done (.single (.bound rfl hfree rfl)),
      .inr ⟨rfl, rfl, rfl, rfl, rfl, ⟨_, rfl⟩, _, ref, shape, hshape, hkind, rfl⟩⟩

/-- A struct calls the types among the arguments of its template, none if it is no template, and
takes its key from them. It is the only kind that is put on the worklist. -/
theorem places_declareAggregate (label : String) {shape : Shape}
    (hshape : describe ref = some shape) (htitled : shape.IsTitled)
    (hkind : shape.kind = .struct ∨ shape.kind = .union) (hs : WellFormed s) :
    Places task describe ref declare s (shape.calls label)
      (declareAggregate task declare shape) := by
  have hname := nameOf_run (s := s) htitled (by rcases hkind with hk | hk <;> simp [hk])
  have hcalls : shape.calls label = argumentCalls (templateArguments shape.title) := by
    rcases hkind with hk | hk <;> simp [Shape.calls, hk]
  unfold Places Ensures declareAggregate
  rw [run_bind_ok hname, hcalls, templateArguments]
  cases hparse : (TypeName.parsePlain? shape.title).filter TypeName.isTemplate with
  | some t =>
    have htitle : t.isWritable = false → Overlong describe ref :=
      .title hshape (Option.filter_eq_some_iff.mp hparse).1
    simp only [Option.elim_some]
    rw [← List.append_nil (argumentCalls t.arguments)]
    refine places_bind (steps_declareArguments hdeclare t.arguments hs)
      (plays_declareArguments hdeclare hs fun u hu hlong =>
        htitle (isWritable_of_mem_arguments hu hlong)) ?_
    intro arguments s₂ hs₂ _ harguments
    refine places_bind (c := []) (steps_argumentKeys arguments hs₂)
      (plays_argumentKeys arguments hs₂ harguments.inGraph) ?_
    intro keys s₃ hs₃ _ _
    refine places_bind (c := []) (steps_needWritable hs₃ _) (plays_needWritable htitle) ?_
    intro _ s₄ _ _ _
    exact places_placeNew _ _ hshape hkind
  | none =>
    refine places_bind (c := []) (d := []) (steps_namedKey hs _)
      (plays_namedKey fun t => .title hshape) ?_
    intro key s₂ _ _ _
    exact places_placeNew _ _ hshape hkind

/-! ## 5. References

What a reference calls depends on how it is described, and on the state in two cases only
(`Made`). A text that is not its own canonical spelling calls one that is closer to it; all else
is looked up. -/

/-- The source is asked about the reference and describes it by this shape. -/
structure Shows (describe : Description) (ref : Ref) (shape : Shape) : Prop where
  described : IsDescribed ref
  eq : describe ref = some shape

omit hdeclare in
/-- A reference that the source is asked about calls what its shape calls. -/
theorem calls_of_described {ref : Ref} (h : IsDescribed ref) :
    calls describe ref = (describe ref).elim [] (Shape.calls (labelOf ref)) := by
  cases ref with
  | id n => rfl
  | name text =>
    obtain ⟨t, hparse, hsuffixes, hformat⟩ := h
    simp [calls, hparse, hsuffixes, hformat]

omit hdeclare in
/-- The same, for a shape that is known. -/
theorem Shows.calls_eq {ref : Ref} {shape : Shape} (h : Shows describe ref shape) :
    calls describe ref = shape.calls (labelOf ref) := by
  rw [calls_of_described h.described, h.eq]
  rfl

/-- The calls that a reference makes in a state: all that it asks for, or none because it is a
typedef that is open or an enumeration that is known. -/
inductive Made (describe : Description) (s : State σ) (ref : Ref) : List Call → Prop
  | all : (∀ shape, Shows describe ref shape → shape.kind = .typedef →
        labelOf ref ∉ s.openAliases) →
      (∀ shape, Shows describe ref shape → shape.kind = .enumeration →
        s.registry.get? (keyOfName shape.title) = none) →
      Made describe s ref (calls describe ref)
  | opened {shape : Shape} : Shows describe ref shape → shape.kind = .typedef →
      labelOf ref ∈ s.openAliases → Made describe s ref []
  | known {shape : Shape} {holder : Handle} : Shows describe ref shape →
      shape.kind = .enumeration → s.registry.get? (keyOfName shape.title) = some holder →
      Made describe s ref []

omit hdeclare in
/-- In every state one of the three ways is open. -/
theorem exists_made (describe : Description) (s : State σ) (ref : Ref) :
    ∃ cs, Made describe s ref cs := by
  by_cases hopen : ∃ shape, Shows describe ref shape ∧ shape.kind = .typedef ∧
      labelOf ref ∈ s.openAliases
  · obtain ⟨shape, hshows, hkind, hmem⟩ := hopen
    exact ⟨[], .opened hshows hkind hmem⟩
  · by_cases hknown : ∃ shape holder, Shows describe ref shape ∧ shape.kind = .enumeration ∧
        s.registry.get? (keyOfName shape.title) = some holder
    · obtain ⟨shape, holder, hshows, hkind, hget⟩ := hknown
      exact ⟨[], .known hshows hkind hget⟩
    · refine ⟨_, .all (fun shape hshows hkind hmem => hopen ⟨shape, hshows, hkind, hmem⟩) ?_⟩
      intro shape hshows hkind
      cases hget : s.registry.get? (keyOfName shape.title) with
      | none => rfl
      | some holder => exact absurd ⟨shape, holder, hshows, hkind, hget⟩ hknown

omit hdeclare in
/-- The way is the same in states with one registry and the same open typedefs. -/
theorem Made.congr {ref : Ref} {cs : List Call} (h : Made describe s ref cs)
    (hregistry : s'.registry = s.registry) (hopen : s'.openAliases = s.openAliases) :
    Made describe s' ref cs := by
  cases h with
  | all hclosed hfree =>
    exact .all (fun shape hs hk => hopen ▸ hclosed shape hs hk)
      fun shape hs hk => hregistry ▸ hfree shape hs hk
  | opened hshows hkind hmem => exact .opened hshows hkind (hopen ▸ hmem)
  | known hshows hkind hget => exact .known hshows hkind (hregistry ▸ hget)

omit hdeclare in
/-- What no shape stands for makes all its calls. -/
theorem Made.eq_calls {ref : Ref} {cs : List Call} (h : Made describe s ref cs)
    (hnot : ∀ shape, ¬ Shows describe ref shape) : cs = calls describe ref := by
  cases h with
  | all => rfl
  | opened hshows => exact absurd hshows (hnot _)
  | known hshows => exact absurd hshows (hnot _)

/-- A shape makes the calls of its kind; a typedef and an enumeration make them unless the state
says that there are none. -/
theorem places_declareShape {ref : Ref} {shape : Shape} {cs : List Call}
    (hshows : Shows describe ref shape) (hknows : Knows s ref shape) (htitled : shape.IsTitled)
    (hs : WellFormed s) (hmade : Made describe s ref cs) :
    Places task describe ref declare s cs
      (declareShape task declare (labelOf ref) (some shape)) := by
  have hself : ∀ {other}, Shows describe ref other → other = shape := fun h =>
    Option.some.inj (h.eq.symm.trans hshows.eq)
  -- only two kinds can have no calls where their shape has some
  have hall : shape.kind ≠ .typedef → shape.kind ≠ .enumeration →
      cs = shape.calls (labelOf ref) := by
    intro htypedef henumeration
    cases hmade with
    | all => exact hshows.calls_eq
    | opened h hkind => exact absurd (hself h ▸ hkind) htypedef
    | known h hkind => exact absurd (hself h ▸ hkind) henumeration
  cases hkind : shape.kind with
  | primitive =>
    simp only [declareShape, hkind, hall (by simp [hkind]) (by simp [hkind]), Shape.calls]
    exact (plays_primitive _).places
  | pointer =>
    simp only [declareShape, hkind, hall (by simp [hkind]) (by simp [hkind]), Shape.calls]
    cases htarget : shape.target with
    | none =>
      exact Plays.places (plays_bind
        (steps_primitive task hs ⟨ref, shape, hknows, .target hkind htarget⟩) (plays_primitive _)
        fun h s₁ hs₁ _ hh => plays_pointer hs₁ (hs₁.lt_count_of_get? hh) _)
    | some target =>
      exact Plays.places (plays_bind (d := []) (hdeclare s _ hs) (plays_call hs (.to target))
        fun h s₁ hs₁ _ hh => plays_pointer hs₁ hh.1 _)
  | array =>
    simp only [declareShape, hkind, hall (by simp [hkind]) (by simp [hkind]), Shape.calls]
    cases shape.target with
    | none => exact (plays_undefined _ _).places
    | some target =>
      exact Plays.places (plays_bind (d := []) (hdeclare s _ hs) (plays_call hs (.to target))
        fun h s₁ hs₁ _ hh => plays_array hs₁ hh.1 fun n => .length hshows.eq)
  | typedef =>
    simp only [declareShape, hkind]
    cases hmade with
    | all hclosed =>
      rw [hshows.calls_eq]
      exact (plays_declareAlias hdeclare _ hshows.eq hknows hs hkind
        (hclosed shape hshows hkind)).places
    | opened h _ hmem => exact (plays_declareAlias_open hmem).places
    | known h hother =>
      rw [hself h, hkind] at hother
      cases hother
  | enumeration =>
    simp only [declareShape, hkind]
    cases hmade with
    | all _ hfree =>
      rw [hshows.calls_eq]
      exact (plays_declareEnumeration hdeclare hshows.eq hknows hkind htitled hs
        (hfree shape hshows hkind)).places
    | opened h hother =>
      rw [hself h, hkind] at hother
      cases hother
    | known h _ hget => exact (declareEnumeration_known hshows.eq hkind htitled
      (hself h ▸ hget)).places
  | function =>
    simp only [declareShape, hkind, hall (by simp [hkind]) (by simp [hkind])]
    exact (plays_declareFunction hdeclare _ hknows hkind hs).places
  | struct =>
    simp only [declareShape, hkind, hall (by simp [hkind]) (by simp [hkind])]
    exact places_declareAggregate hdeclare _ hshows.eq htitled (.inl hkind) hs
  | union =>
    simp only [declareShape, hkind, hall (by simp [hkind]) (by simp [hkind])]
    exact places_declareAggregate hdeclare _ hshows.eq htitled (.inr hkind) hs
  | unsupported =>
    simp only [declareShape, hkind, hall (by simp [hkind]) (by simp [hkind]), Shape.calls]
    exact (plays_undefined _ _).places

/-- The source is asked first, which changes neither the keys nor the open typedefs, so what was
made out about them still holds. -/
theorem places_declareDescribed (hd : Describes task describe valid) {ref : Ref} {cs : List Call}
    (hdescribed : IsDescribed ref) (hnormal : IsNormal ref) (ht : Truthful describe valid s)
    (hs : WellFormed s) (hmade : Made describe s ref cs) :
    Places task describe ref declare s cs (declareDescribed task declare (labelOf ref) ref) := by
  have hquery : Steps s (query task ref) fun answer s' => s'.shapes.get? ref = some answer ∧
      answer = describe ref ∧ s'.registry = s.registry :=
    (steps_query task hs ref).with fun _ _ hrun hknown =>
      ⟨hknown, eq_of_query hd ht hrun, registry_of_query hrun⟩
  unfold declareDescribed
  refine places_bind (c := []) hquery (plays_query hnormal) ?_
  rintro answer s₁ hs₁ hg₁ ⟨hknown, rfl, hregistry⟩
  have hmade₁ := hmade.congr hregistry hg₁.openAliases
  cases hanswer : describe ref with
  | none =>
    have hcs := hmade.eq_calls fun shape h => by cases h.eq.symm.trans hanswer
    rw [hcs, calls_of_described hdescribed, hanswer]
    exact (plays_undefined _ _).places
  | some shape =>
    exact places_declareShape hdeclare ⟨hdescribed, hanswer⟩ (hknown.trans (by rw [hanswer]))
      (hd.titled _ _ hanswer) hs₁ hmade₁

/-- A text is malformed, wraps another name in suffixes, is a respelling of another text, or is
looked up. Only the last of these depends on the state. -/
theorem places_declareName (hd : Describes task describe valid) {text : String} {cs : List Call}
    (ht : Truthful describe valid s) (hs : WellFormed s) (hmade : Made describe s (.name text) cs) :
    Places task describe (.name text) declare s cs (declareName task declare text) := by
  unfold declareName
  cases hparse : TypeName.parse text with
  | error e =>
    have hcs := hmade.eq_calls fun shape h => by
      obtain ⟨t, hok, -⟩ := h.described
      rw [hparse] at hok
      cases hok
    simp only [hcs, calls, hparse]
    exact (plays_undefined _ _).places
  | ok t =>
    have hnot (hne : t.suffixes ≠ [] ∨ t.format ≠ text) :
        cs = calls describe (.name text) := hmade.eq_calls fun shape h => by
      obtain ⟨t', hok, hsuffixes, hformat⟩ := h.described
      rw [hparse] at hok
      cases hok
      rcases hne with hne | hne
      · exact hne hsuffixes
      · exact hne hformat
    refine places_bind (c := []) (steps_needWritable hs _) (plays_needWritable fun hlong =>
      .name rfl hparse (isWritable_of_withoutSuffixes hlong)) ?_
    rintro _ _ hs - ⟨rfl, hwritable⟩
    cases hsuffixes : t.suffixes with
    | cons suffix rest =>
      simp only [hnot (.inl (by simp [hsuffixes])), calls, hparse, hsuffixes]
      exact Plays.places (plays_bind (d := []) (hdeclare _ _ hs)
        (plays_call hs (.to (.name t.withoutSuffixes.format)))
        fun h s₁ hs₁ _ hh => plays_applySuffixes hs₁ hh.1 fun suffix hmem hlong =>
          .name rfl hparse (isWritable_of_mem_wrapping hmem hlong))
    | nil =>
      by_cases hformat : t.format = text
      · simp only [List.isEmpty_nil, hformat, ne_eq, not_true_eq_false, if_false]
        refine places_declareDescribed hdeclare hd ⟨t, hparse, hsuffixes, hformat⟩ ?_ ht hs hmade
        have hself : t.withoutSuffixes = t := by
          cases t
          rw [TypeName.withoutSuffixes, TypeName.base, ← hsuffixes]
          rfl
        rw [hself] at hwritable
        simp [IsNormal, TypeName.normalize, hparse, TypeName.written?, hwritable, hformat]
      · simp only [hnot (.inr hformat), calls, hparse, hsuffixes, hformat, List.isEmpty_nil, ne_eq,
          not_false_eq_true, if_true]
        exact (plays_call hs (.to (.name t.format))).places

/-- **A reference makes the calls that its description asks for**, or breaks off. -/
theorem places_declareNew (hd : Describes task describe valid) {ref : Ref} {cs : List Call}
    (ht : Truthful describe valid s) (hs : WellFormed s) (hmade : Made describe s ref cs) :
    Places task describe ref declare s cs (declareNew task declare ref) := by
  cases ref with
  | name text => exact places_declareName hdeclare hd ht hs hmade
  | id n =>
    have hdescribed : IsDescribed (.id n) := trivial
    exact places_declareDescribed hdeclare hd hdescribed trivial ht hs hmade

end NativeTypes.Resolver
