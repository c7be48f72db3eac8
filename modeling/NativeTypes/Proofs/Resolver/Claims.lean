/-
NativeTypes.Proofs.Resolver.Claims — who takes a name besides typedefs.

A typedef gives its target its own name as a further key. Whether that works
depends on who came first: a scalar, a struct, an enumeration or a placeholder
may have the name already. All of these take their keys from one space, and
`Claims` says which keys they are, by what is described and by which texts were
declared.

A run may ask the source, take claimed keys for new instances and report
placeholders of claimed names; nothing of this touches what is declared or open
(`Claiming`). Every function that declares no other reference does no more than
that: section 2 has one lemma `claimed_f` for each of them. Claiming goes
together like running does (`claimed_bind`), and only `claimed_register` has to
say anything of a key.

Section 3 turns this into a way to carry any statement through a declaration.
What edits of this kind keep is called lasting (`Lasting`); a declaration of
something that is no typedef keeps it as well, as long as the references that
it asks for do (`lasts_declareNew`). So a statement about chains of typedefs
has to be proved for claims and for typedefs, and for nothing else; the module
about chains does that.

Typedefs that stand for other types are left out here: they take a second key
for an instance that has one, so what they do is no claim. A typedef without a
target, or one that is met while it is open, is a placeholder under its label
and belongs to the chains too.
-/
import NativeTypes.Proofs.Resolver.Keying

namespace NativeTypes.Resolver

variable {σ : Type} {α β : Type} {task : Task σ} {describe : Description} {valid : σ → Prop}
  {met met' : String → Prop} {s s' s'' t : State σ} {key : Key} {h : Handle}

/-! ## 1. Claims

The keys of pointers, arrays, functions and templates have arguments and so are no names; all
other keys are names, and two kinds of instances can want the same one. What texts were declared
matters for one case only: a text that is no type name becomes a placeholder under that text. -/

/-- The keys that something other than a typedef of another type takes, where some texts were
declared. -/
inductive Claims (describe : Description) (met : String → Prop) : Key → Prop
  | primitive (kind : Primitive) : Claims describe met (.primitive kind)
  /-- Pointers, arrays and functions. -/
  | structural {name : String} {argument : KeyArgument} {rest : List KeyArgument} :
      Claims describe met (.mk name (argument :: rest))
  | enumeration {ref : Ref} {shape : Shape} : describe ref = some shape →
      shape.kind = .enumeration → Claims describe met (keyOfName shape.title)
  | aggregate {ref : Ref} {shape : Shape} {key : Key} : describe ref = some shape →
      shape.isAggregate = true → AggregateKey shape.title key → Claims describe met key
  /-- The placeholder of what is not described, or not to the end. -/
  | placeholder {ref : Ref} : IsDescribed ref →
      (∀ shape, describe ref = some shape → shape.kind ≠ .typedef) →
      Claims describe met (.named (labelOf ref))
  | unsupported {ref : Ref} {shape : Shape} : describe ref = some shape →
      shape.kind = .unsupported → Claims describe met (.named shape.name)
  /-- The placeholder of a text that is no type name. -/
  | refused {text : String} {e : NameSyntaxError} : met text → TypeName.parse text = .error e →
      Claims describe met (.named (String.ofList (Text.trim text.toList)))

/-- More texts, more claims. -/
theorem Claims.mono (hle : ∀ text, met text → met' text) (h : Claims describe met key) :
    Claims describe met' key := by
  cases h with
  | primitive kind => exact .primitive kind
  | structural => exact .structural
  | enumeration hshape hkind => exact .enumeration hshape hkind
  | aggregate hshape hkind hkey => exact .aggregate hshape hkind hkey
  | placeholder hdescribed hnot => exact .placeholder hdescribed hnot
  | unsupported hshape hkind => exact .unsupported hshape hkind
  | refused hmet hparse => exact .refused (hle _ hmet) hparse

/-- Nothing is declared or opened: new keys belong to new instances and are claimed, and so are
the names of new placeholders. -/
structure Claiming (describe : Description) (valid : σ → Prop) (met : String → Prop)
    (s s' : State σ) : Prop where
  truthful : Truthful describe valid s → Truthful describe valid s'
  declared : s'.declared = s.declared
  openAliases : s'.openAliases = s.openAliases
  get : ∀ h, h < s.graph.count → s'.graph.get h = s.graph.get h
  widens : s.registry.Widens s'.registry
  keys : ∀ key h, s'.registry.get? key = some h → s.registry.get? key = some h ∨
    Claims describe met key ∧ s'.registry.keyOf? h = some key
  diagnostics : ∃ ds, s'.diagnostics = s.diagnostics ++ ds ∧
    ∀ d ∈ ds, d.kind = .unresolvable → Claims describe met (.named d.subject)

namespace Claiming

/-- Neither keys nor diagnostics are new. -/
theorem of_eq (htruthful : Truthful describe valid s → Truthful describe valid s')
    (hdeclared : s'.declared = s.declared) (hopen : s'.openAliases = s.openAliases)
    (hgraph : s'.graph = s.graph) (hregistry : s'.registry = s.registry)
    (hdiagnostics : s'.diagnostics = s.diagnostics) : Claiming describe valid met s s' where
  truthful := htruthful
  declared := hdeclared
  openAliases := hopen
  get := fun _ _ => by rw [hgraph]
  widens := hregistry ▸ .refl _
  keys := fun _ _ hh => .inl (hregistry ▸ hh)
  diagnostics := ⟨[], by simp [hdiagnostics], by simp⟩

/-- Nothing happened. -/
theorem refl (s : State σ) : Claiming describe valid met s s :=
  of_eq id rfl rfl rfl rfl rfl

/-- Claims one after the other. What was there is still there in between, because tables only
widen. -/
theorem trans (h : Claiming describe valid met s s') (hcount : s.graph.count ≤ s'.graph.count)
    (h' : Claiming describe valid met s' s'') : Claiming describe valid met s s'' where
  truthful := fun ht => h'.truthful (h.truthful ht)
  declared := h'.declared.trans h.declared
  openAliases := h'.openAliases.trans h.openAliases
  get := fun x hx => (h'.get x (Nat.lt_of_lt_of_le hx hcount)).trans (h.get x hx)
  widens := h.widens.trans h'.widens
  keys := fun key x hx => by
    rcases h'.keys key x hx with hold | hnew
    · exact (h.keys key x hold).imp_right fun ⟨hc, hk⟩ => ⟨hc, h'.widens.keyOf? _ _ hk⟩
    · exact .inr hnew
  diagnostics := by
    obtain ⟨ds, hds, hclaims⟩ := h.diagnostics
    obtain ⟨ds', hds', hclaims'⟩ := h'.diagnostics
    refine ⟨ds ++ ds', by rw [hds', hds, List.append_assoc], fun d hd => ?_⟩
    exact (List.mem_append.mp hd).elim (hclaims d) (hclaims' d)

/-- A new instance under a claimed key. -/
theorem push (hw : WellFormed s) (hfree : s.registry.get? key = none)
    (hkey : Claims describe met key) {i : Instance} (hgraph : s'.graph = s.graph.push i)
    (hregistry : s'.registry = s.registry.bind key s.graph.count)
    (hsession : s'.session = s.session) (hshapes : s'.shapes = s.shapes)
    (hdeclared : s'.declared = s.declared) (hopen : s'.openAliases = s.openAliases)
    (hdiagnostics : s'.diagnostics = s.diagnostics) : Claiming describe valid met s s' where
  truthful := by
    unfold Truthful
    rw [hsession, hshapes]
    exact id
  declared := hdeclared
  openAliases := hopen
  get := fun x hx => by rw [hgraph, Graph.get_push_of_lt hx]
  widens := hregistry ▸ Registry.widens_bind _ hfree _
  keys := fun k x hx => by
    rw [hregistry, Registry.get?_bind] at hx
    split at hx
    · rename_i heq
      cases hx
      refine .inr ⟨heq ▸ hkey, ?_⟩
      rw [hregistry, Registry.keyOf?, Registry.keysOf_bind, if_pos rfl, hw.keysOf_count, ← heq]
      rfl
    · exact .inl hx
  diagnostics := ⟨[], by simp [hdiagnostics], by simp⟩

end Claiming

/-- A run claims keys, whether it returns or stops. -/
def Claimed (describe : Description) (valid : σ → Prop) (met : String → Prop) (s : State σ)
    (run : Run σ α) : Prop :=
  Ensures run s (fun _ s' => Claiming describe valid met s s')
    fun _ s' => Claiming describe valid met s s'

theorem claimed_pure (a : α) : Claimed describe valid met s (pure a) :=
  .refl s

theorem claimed_throw (e : Stop) : Claimed describe valid met s (throw e : Run σ α) :=
  .refl s

/-- Reading the state claims nothing. -/
theorem claimed_get_bind {next : State σ → Run σ β}
    (hnext : Claimed describe valid met s (next s)) :
    Claimed describe valid met s (get >>= next) :=
  hnext

/-- One run after the other. That tables only widen in the first one comes from what it steps to. -/
theorem claimed_bind {run : Run σ α} {next : α → Run σ β} {P : α → State σ → Prop}
    (hsteps : Steps s run P) (hrun : Claimed describe valid met s run)
    (hnext : ∀ a s', WellFormed s' → P a s' → Claimed describe valid met s' (next a)) :
    Claimed describe valid met s (run >>= next) := by
  refine ensures_bind (Ensures.mono (hsteps.and hrun) (fun _ _ h => h) fun _ _ h => h.2) ?_
  rintro a s' ⟨⟨hw, hg, ha⟩, hclaims⟩
  exact (hnext a s' hw ha).mono (fun _ _ h => hclaims.trans hg.count h)
    fun _ _ h => hclaims.trans hg.count h

/-! ## 2. Own edits

What a function does besides declaring other references. Except for `register`, and for the poll
and the question to the source, each is put together of others. -/

theorem claimed_keyOf (h : Handle) : Claimed describe valid met s (keyOf h) := by
  unfold keyOf
  refine claimed_get_bind ?_
  split
  · exact claimed_pure _
  · exact claimed_throw _

theorem claimed_needWritable (writable : Bool) :
    Claimed describe valid met s (needWritable writable : Run σ Unit) := by
  unfold needWritable
  split
  · exact claimed_pure _
  · exact claimed_throw _

theorem claimed_namedKey (hw : WellFormed s) (name : String) :
    Claimed describe valid met s (namedKey name) := by
  unfold namedKey
  split
  · exact claimed_pure _
  · exact claimed_bind (steps_needWritable hw _) (claimed_needWritable _)
      fun _ _ _ _ => claimed_pure _

theorem claimed_keysOf (handles : List Handle) (hw : WellFormed s) :
    Claimed describe valid met s (keysOf handles) := by
  induction handles with
  | nil => exact claimed_pure _
  | cons h rest ih =>
    refine claimed_bind (steps_keyOf hw h) (claimed_keyOf h) ?_
    rintro key _ hw₁ ⟨rfl, -⟩
    exact claimed_bind (steps_keysOf rest hw₁) ih fun _ _ _ _ => claimed_pure _

theorem claimed_argumentKeys (arguments : List TemplateArgument) (hw : WellFormed s) :
    Claimed describe valid met s (argumentKeys arguments) := by
  induction arguments with
  | nil => exact claimed_pure _
  | cons argument rest ih =>
    cases argument with
    | number n =>
      exact claimed_bind (steps_argumentKeys rest hw) ih fun _ _ _ _ => claimed_pure _
    | type h =>
      refine claimed_bind (steps_keyOf hw h) (claimed_keyOf h) ?_
      rintro key _ hw₁ ⟨rfl, -⟩
      exact claimed_bind (steps_argumentKeys rest hw₁) ih fun _ _ _ _ => claimed_pure _

theorem claimed_report {d : Diagnostic}
    (hd : d.kind = .unresolvable → Claims describe met (.named d.subject)) :
    Claimed describe valid met s (report d : Run σ Unit) :=
  ⟨id, rfl, rfl, fun _ _ => rfl, .refl _, fun _ _ hh => .inl hh, [d], rfl, by simpa using hd⟩

/-- The one place where a key is taken, for an instance that is new. -/
theorem claimed_register (hw : WellFormed s) (hkey : Claims describe met key) (i : Instance) :
    Claimed describe valid met s (register task key i) := by
  unfold Claimed Ensures
  cases hfree : s.registry.get? key with
  | none =>
    rw [register_run hfree]
    exact .push hw hfree hkey rfl rfl rfl rfl rfl rfl rfl
  | some holder =>
    have hne : holder ≠ s.graph.count := Nat.ne_of_lt (hw.lt_count_of_get? hfree)
    simp only [register, run_get_bind, Registry.register, hfree, if_neg hne]
    exact .refl s

/-- What is there already is not registered again. -/
theorem claimed_ensure (hw : WellFormed s) (hkey : Claims describe met key) (i : Instance) :
    Claimed describe valid met s (ensure task key i) := by
  unfold ensure
  refine claimed_get_bind ?_
  split
  · exact claimed_pure _
  · exact claimed_register hw hkey i

/-- A placeholder of a claimed name is reported under that name. -/
theorem claimed_undefined (hw : WellFormed s) {name : String} (reason : String)
    (hkey : Claims describe met (.named name)) :
    Claimed describe valid met s (undefined task name reason) := by
  unfold undefined
  refine claimed_get_bind ?_
  split
  · exact claimed_pure _
  · exact claimed_bind (steps_report hw (.inl rfl)) (claimed_report fun _ => hkey)
      fun _ _ hw₁ _ => claimed_register hw₁ hkey _

/-- A scalar claims its token. -/
theorem claimed_primitive (hw : WellFormed s) (kind : Primitive) :
    Claimed describe valid met s (primitive task kind) :=
  claimed_ensure hw (.primitive kind) _

/-- Members that come twice are reported, but not as unresolvable. -/
theorem claimed_distinctMembers (owner : String) (seen : List String)
    (members : List (String × Int)) (hw : WellFormed s) :
    Claimed describe valid met s (distinctMembers task owner seen members) := by
  induction members generalizing s seen with
  | nil => exact claimed_pure _
  | cons m rest ih =>
    obtain ⟨name, value⟩ := m
    unfold distinctMembers
    split
    · exact claimed_bind (steps_report hw (.inr rfl))
        (claimed_report fun hkind => by cases hkind) fun _ _ hw₁ _ => ih seen hw₁
    · exact claimed_bind (steps_distinctMembers task _ _ _ hw) (ih _ hw)
        fun _ _ _ _ => claimed_pure _

/-- An aggregate without parts; its place on the worklist is no key. -/
theorem claimed_placeNew (hw : WellFormed s) (hkey : Claims describe met key) (a : Aggregate)
    (shape : Shape) : Claimed describe valid met s (placeNew task key a shape) := by
  unfold Claimed Ensures
  cases hfree : s.registry.get? key with
  | some h =>
    simp only [placeNew, run_get_bind, hfree]
    exact .refl s
  | none =>
    simp only [placeNew, run_get_bind, hfree, place]
    rw [run_bind_ok (register_run hfree _)]
    exact .push hw hfree hkey rfl rfl rfl rfl rfl rfl rfl

section

variable (hd : Describes task describe valid)

include hd

theorem claimed_checkCancelled : Claimed describe valid met s (checkCancelled task) := by
  have hpolled : Claiming describe valid met s
      { s with session := (task.source.stopRequested s.session).2 } :=
    .of_eq (fun ht => ⟨hd.polled ht.1, ht.2⟩) rfl rfl rfl rfl rfl
  unfold Claimed Ensures
  rw [checkCancelled_run]
  split <;> rename_i heq
  · split at heq
    · cases heq
    · cases heq
      exact hpolled
  · split at heq
    · cases heq
      exact hpolled
    · cases heq

/-- An answer is remembered, and it is that of the description. -/
theorem claimed_query (hw : WellFormed s) (ref : Ref) :
    Claimed describe valid met s (query task ref) := by
  unfold query
  refine claimed_get_bind ?_
  split
  · exact claimed_pure _
  · refine claimed_bind (steps_checkCancelled task hw) (claimed_checkCancelled hd) ?_
    intro _ s₁ _ _
    refine claimed_get_bind ?_
    unfold Claimed Ensures
    simp only [run_modify_bind]
    cases hanswer : (task.source.lookup s₁.session task.module ref).1 with
    | error e =>
      simp only [run_throw]
      exact .of_eq (fun ht => ⟨hd.looked ref ht.1, ht.2⟩) rfl rfl rfl rfl rfl
    | ok answer =>
      simp only [run_modify_bind, run_pure]
      refine .of_eq (fun ht => ⟨hd.looked ref ht.1, fun r a ha => ?_⟩) rfl rfl rfl rfl rfl
      rw [Assoc.get?_put] at ha
      split at ha
      · rename_i hr
        cases ha
        exact hr ▸ hd.answers ht.1 hanswer
      · exact ht.2 r a ha

theorem claimed_pointerSize (hw : WellFormed s) :
    Claimed describe valid met s (pointerSize task) := by
  unfold pointerSize
  refine claimed_get_bind ?_
  split
  · exact claimed_pure _
  · refine claimed_bind (steps_checkCancelled task hw) (claimed_checkCancelled hd) ?_
    intro _ s₁ _ _
    refine claimed_get_bind ?_
    split
    · exact claimed_throw _
    · exact .of_eq (fun ht => ht) rfl rfl rfl rfl rfl

/-- The key of a pointer has an argument, so it is claimed whatever it points to. -/
theorem claimed_pointer (hw : WellFormed s) (target : Handle) (size : Option Int) :
    Claimed describe valid met s (pointer task target size) := by
  unfold pointer
  refine claimed_bind (steps_keyOf hw target) (claimed_keyOf target) ?_
  rintro key s₁ hw₁ ⟨rfl, -⟩
  refine claimed_get_bind ?_
  split
  · exact claimed_pure _
  · have hregister (n : Int) (t : State σ) (ht : WellFormed t) :
        Claimed describe valid met t (register task key.pointer (.pointer target n)) :=
      claimed_register ht .structural _
    simp only
    split
    · split
      · exact claimed_bind (steps_pointerSize task hw₁) (claimed_pointerSize hd hw₁)
          fun n t ht _ => hregister n t ht
      · exact hregister _ _ hw₁
    · exact claimed_bind (steps_pointerSize task hw₁) (claimed_pointerSize hd hw₁)
        fun n t ht _ => hregister n t ht

omit hd in
theorem claimed_array (hw : WellFormed s) (element : Handle) (length : Option Int) :
    Claimed describe valid met s (array task element length) := by
  unfold array
  refine claimed_bind (steps_keyOf hw element) (claimed_keyOf element) ?_
  rintro key s₁ hw₁ -
  exact claimed_bind (steps_needWritable hw₁ _) (claimed_needWritable _)
    fun _ _ hw₂ _ => claimed_ensure hw₂ .structural _

/-- Suffixes make pointers and arrays, one of the other. -/
theorem claimed_applySuffixes (suffixes : List Suffix) (hw : WellFormed s) {x : Handle}
    (hx : InGraph x s) : Claimed describe valid met s (applySuffixes task x suffixes) := by
  induction suffixes generalizing s x with
  | nil => exact claimed_pure _
  | cons suffix rest ih =>
    have hfirst : Claimed describe valid met s (applySuffix task x suffix) := by
      cases suffix with
      | array length => exact claimed_array hw x length
      | pointer => exact claimed_pointer hd hw x none
      | reference => exact claimed_pointer hd hw x none
    refine claimed_bind (steps_applySuffix task hw x suffix) hfirst ?_
    rintro y s₁ hw₁ ⟨-, key, -, hy⟩
    exact ih hw₁ (hw₁.lt_count_of_get? hy)

end

/-! ## 3. What lasts

Here the references that a shape is made of come in. Their calls keep what lasts by assumption
(`LastsCall`); between the calls there are own edits. -/

/-- What holds of states that answers are remembered in goes on holding while keys are claimed. -/
structure Lasting (describe : Description) (valid : σ → Prop) (I : State σ → Prop) : Prop where
  truthful : ∀ {s}, I s → Truthful describe valid s
  claim : ∀ {s s'}, WellFormed s → Claiming describe valid (Met s) s s' → I s → I s'

variable {I : State σ → Prop} {declare : Ref → Run σ Handle}

/-- A run keeps what holds, whether it returns or stops. -/
def Lasts (I : State σ → Prop) (s : State σ) (run : Run σ α) : Prop :=
  Ensures run s (fun _ s' => I s') fun _ s' => I s'

theorem lasts_pure (hs : I s) (a : α) : Lasts I s (pure a) := hs

theorem lasts_bind {run : Run σ α} {next : α → Run σ β} {P : α → State σ → Prop}
    (hsteps : Steps s run P) (hrun : Lasts I s run)
    (hnext : ∀ a s', WellFormed s' → I s' → P a s' → Lasts I s' (next a)) :
    Lasts I s (run >>= next) := by
  refine ensures_bind (Ensures.mono (hsteps.and hrun) (fun _ _ h => h) fun _ _ h => h.2) ?_
  rintro a s' ⟨⟨hw, -, ha⟩, hs'⟩
  exact hnext a s' hw hs' ha

/-- The call of a reference keeps what holds. -/
def LastsCall (I : State σ → Prop) (declare : Ref → Run σ Handle) (c : Call) : Prop :=
  ∀ s, WellFormed s → I s → Lasts I s (c.run declare)

section

variable (hI : Lasting describe valid I) (hd : Describes task describe valid)
  (hdeclare : Declares declare)

include hI in
/-- Own edits keep what lasts. -/
theorem Lasting.lasts {run : Run σ α} (hs : I s) (hw : WellFormed s)
    (hrun : Claimed describe valid (Met s) s run) : Lasts I s run :=
  Ensures.mono hrun (fun _ _ h => hI.claim hw h hs) fun _ _ h => hI.claim hw h hs

include hdeclare

/-- References in a row, one call each. -/
theorem lasts_declareAll (refs : List Ref) (hcalls : ∀ r ∈ refs, LastsCall I declare (.to r))
    (hs : I s) (hw : WellFormed s) : Lasts I s (declareAll declare refs) := by
  induction refs generalizing s with
  | nil => exact lasts_pure hs _
  | cons ref rest ih =>
    refine lasts_bind (hdeclare s ref hw) (hcalls ref List.mem_cons_self s hw hs) ?_
    intro _ s₁ hw₁ hs₁ _
    have hrest := ih (fun r hr => hcalls r (List.mem_cons_of_mem _ hr)) hs₁ hw₁
    exact lasts_bind (steps_declareAll hdeclare rest hw₁) hrest fun _ _ _ hs₂ _ => lasts_pure hs₂ _

include hI

/-- The types among template arguments, one call each. -/
theorem lasts_declareArguments (arguments : List Argument)
    (hcalls : ∀ c ∈ argumentCalls arguments, LastsCall I declare c) (hs : I s)
    (hw : WellFormed s) : Lasts I s (declareArguments declare arguments) := by
  induction arguments generalizing s with
  | nil => exact lasts_pure hs _
  | cons argument rest ih =>
    cases argument with
    | number n =>
      exact lasts_bind (steps_declareArguments hdeclare rest hw) (ih hcalls hs hw)
        fun _ _ _ hs₁ _ => lasts_pure hs₁ _
    | type u =>
      unfold declareArguments
      refine lasts_bind (steps_needWritable hw _) (hI.lasts hs hw (claimed_needWritable _)) ?_
      rintro _ _ hw₁ hs₁ ⟨rfl, -⟩
      refine lasts_bind (hdeclare _ _ hw₁) (hcalls _ List.mem_cons_self _ hw₁ hs₁) ?_
      intro _ s₂ hw₂ hs₂ _
      have hrest := ih (fun c hc => hcalls c (List.mem_cons_of_mem _ hc)) hs₂ hw₂
      exact lasts_bind (steps_declareArguments hdeclare rest hw₂) hrest
        fun _ _ _ hs₃ _ => lasts_pure hs₃ _

variable {ref : Ref} {shape : Shape} (hshape : describe ref = some shape)
  (hcalls : ∀ c ∈ shape.calls (labelOf ref), LastsCall I declare c)

include hcalls

/-- Result and parameters are called; the key of a function has arguments. -/
theorem lasts_declareFunction (hknows : Knows s ref shape) (hkind : shape.kind = .function)
    (hs : I s) (hw : WellFormed s) :
    Lasts I s (declareFunction task declare shape) := by
  simp only [Shape.calls, hkind, List.mem_append, List.mem_map, Option.mem_toList] at hcalls
  unfold declareFunction
  have hnext : ∀ (result : Handle) (s₁ : State σ), WellFormed s₁ → I s₁ →
      Lasts I s₁ (do
        let parameters ← declareAll declare shape.parameters
        let key := Key.function (← keyOf result) (← keysOf parameters) shape.variadic
        let name := if shape.name.isEmpty then none else some shape.name
        ensure task key (.function { result, parameters, variadic := shape.variadic, name })) := by
    intro result s₁ hw₁ hs₁
    refine lasts_bind (steps_declareAll hdeclare shape.parameters hw₁)
      (lasts_declareAll hdeclare _ (fun r hr => hcalls _ (.inr ⟨r, hr, rfl⟩)) hs₁ hw₁) ?_
    intro parameters s₂ hw₂ hs₂ _
    refine lasts_bind (steps_keyOf hw₂ result) (hI.lasts hs₂ hw₂ (claimed_keyOf _)) ?_
    rintro key s₃ hw₃ hs₃ -
    refine lasts_bind (steps_keysOf parameters hw₃)
      (hI.lasts hs₃ hw₃ (claimed_keysOf parameters hw₃)) ?_
    rintro keys s₄ hw₄ hs₄ -
    exact hI.lasts hs₄ hw₄ (claimed_ensure hw₄ .structural _)
  simp only
  cases hresult : shape.result with
  | some target =>
    exact lasts_bind (hdeclare _ _ hw) (hcalls _ (.inl ⟨target, hresult, rfl⟩) s hw hs)
      fun x s₁ hw₁ hs₁ _ => hnext x s₁ hw₁ hs₁
  | none =>
    exact lasts_bind (steps_primitive task hw ⟨ref, shape, hknows, .result hkind hresult⟩)
      (hI.lasts hs hw (claimed_primitive hw _)) fun x s₁ hw₁ hs₁ _ => hnext x s₁ hw₁ hs₁

include hshape

/-- An enumeration claims the key of its name, after its underlying type was called. -/
theorem lasts_declareEnumeration (hknows : Knows s ref shape) (htitled : shape.IsTitled)
    (hkind : shape.kind = .enumeration) (hs : I s) (hw : WellFormed s) :
    Lasts I s (declareEnumeration task declare shape) := by
  simp only [Shape.calls, hkind, List.mem_map, Option.mem_toList] at hcalls
  have hname := nameOf_run (s := s) htitled (by simp [hkind])
  unfold Lasts Ensures declareEnumeration
  rw [run_bind_ok hname]
  refine lasts_bind (steps_namedKey hw _) (hI.lasts hs hw (claimed_namedKey hw _)) ?_
  rintro _ _ hw hs ⟨rfl, rfl⟩
  unfold Lasts Ensures
  rw [run_get_bind]
  cases hget : Registry.get? _ (keyOfName shape.title) with
  | some h => exact hs
  | none =>
    have hnext : ∀ (underlying : Handle) (s₁ : State σ), WellFormed s₁ → I s₁ →
        Lasts I s₁ (do
          let members ← distinctMembers task shape.title [] shape.members
          register task (keyOfName shape.title) (.enumeration
            { name := (splitName shape.title).2, scope := (splitName shape.title).1, underlying,
              members })) := by
      intro underlying s₁ hw₁ hs₁
      refine lasts_bind (steps_distinctMembers task _ _ _ hw₁)
        (hI.lasts hs₁ hw₁ (claimed_distinctMembers _ _ _ hw₁)) ?_
      intro members s₂ hw₂ hs₂ _
      exact hI.lasts hs₂ hw₂ (claimed_register hw₂ (.enumeration hshape hkind) _)
    simp only
    cases hunderlying : shape.underlying with
    | some target =>
      exact lasts_bind (hdeclare _ _ hw) (hcalls _ ⟨target, hunderlying, rfl⟩ _ hw hs)
        fun x s₁ hw₁ hs₁ _ => hnext x s₁ hw₁ hs₁
    | none =>
      exact lasts_bind (steps_primitive task hw ⟨ref, shape, hknows, .underlying hkind hunderlying⟩)
        (hI.lasts hs hw (claimed_primitive hw _)) fun x s₁ hw₁ hs₁ _ => hnext x s₁ hw₁ hs₁

/-- A struct claims a key of its name, after the arguments of its template were called. -/
theorem lasts_declareAggregate (htitled : shape.IsTitled) (hkind : shape.isAggregate = true)
    (hs : I s) (hw : WellFormed s) : Lasts I s (declareAggregate task declare shape) := by
  have hnot : shape.kind = .struct ∨ shape.kind = .union := by
    simpa [Shape.isAggregate] using hkind
  have harguments : shape.calls (labelOf ref) = argumentCalls (templateArguments shape.title) := by
    rcases hnot with hk | hk <;> simp [Shape.calls, hk]
  rw [harguments, templateArguments] at hcalls
  have hname := nameOf_run (s := s) htitled (by rcases hnot with hk | hk <;> simp [hk])
  unfold Lasts Ensures declareAggregate
  rw [run_bind_ok hname]
  cases ht : (TypeName.parsePlain? shape.title).filter TypeName.isTemplate with
  | some t =>
    simp only [ht, Option.elim_some] at hcalls ⊢
    refine lasts_bind (steps_declareArguments hdeclare t.arguments hw)
      (lasts_declareArguments hI hdeclare _ hcalls hs hw) ?_
    intro arguments s₁ hw₁ hs₁ hfound
    refine lasts_bind (steps_argumentKeys arguments hw₁)
      (hI.lasts hs₁ hw₁ (claimed_argumentKeys arguments hw₁)) ?_
    rintro keys s₂ hw₂ hs₂ ⟨-, hkeys⟩
    refine lasts_bind (steps_needWritable hw₂ _)
      (hI.lasts hs₂ hw₂ (claimed_needWritable _)) ?_
    intro _ s₃ hw₃ hs₃ _
    exact hI.lasts hs₃ hw₃ (claimed_placeNew hw₃ (.aggregate hshape hkind
      (aggregateKey_of_template ht (hkeys.numbers.trans hfound.numbers))) _ shape)
  | none =>
    simp only
    refine lasts_bind (steps_namedKey hw _) (hI.lasts hs hw (claimed_namedKey hw _)) ?_
    rintro _ _ hw₁ hs₁ ⟨rfl, rfl⟩
    refine hI.lasts hs₁ hw₁ (claimed_placeNew hw₁ (.aggregate hshape hkind ?_) _ shape)
    simp only [AggregateKey, ht]

include hd in
/-- What is described by a shape that is no typedef. -/
theorem lasts_declareShape (hknows : Knows s ref shape) (hdescribed : IsDescribed ref)
    (hkind : shape.kind ≠ .typedef)
    (hs : I s) (hw : WellFormed s) :
    Lasts I s (declareShape task declare (labelOf ref) (some shape)) := by
  have htitled := hd.titled _ _ hshape
  have hlabel : Claims describe (Met s) (.named (labelOf ref)) :=
    .placeholder hdescribed fun other hother => by
      cases hshape.symm.trans hother
      exact hkind
  unfold declareShape
  simp only
  cases hk : shape.kind with
  | primitive => exact hI.lasts hs hw (claimed_primitive hw _)
  | pointer =>
    simp only [Shape.calls, hk, List.mem_map, Option.mem_toList] at hcalls
    cases htarget : shape.target with
    | none =>
      refine lasts_bind (steps_primitive task hw ⟨ref, shape, hknows, .target hk htarget⟩)
        (hI.lasts hs hw (claimed_primitive hw _)) ?_
      intro x s₁ hw₁ hs₁ _
      exact hI.lasts hs₁ hw₁ (claimed_pointer hd hw₁ x _)
    | some target =>
      refine lasts_bind (hdeclare _ _ hw) (hcalls _ ⟨target, htarget, rfl⟩ s hw hs) ?_
      intro x s₁ hw₁ hs₁ _
      exact hI.lasts hs₁ hw₁ (claimed_pointer hd hw₁ x _)
  | array =>
    simp only [Shape.calls, hk, List.mem_map, Option.mem_toList] at hcalls
    cases htarget : shape.target with
    | none => exact hI.lasts hs hw (claimed_undefined hw _ hlabel)
    | some target =>
      refine lasts_bind (hdeclare _ _ hw) (hcalls _ ⟨target, htarget, rfl⟩ s hw hs) ?_
      intro x s₁ hw₁ hs₁ _
      exact hI.lasts hs₁ hw₁ (claimed_array hw₁ x _)
  | typedef => exact absurd hk hkind
  | enumeration => exact lasts_declareEnumeration hI hdeclare hshape hcalls hknows htitled hk hs hw
  | function => exact lasts_declareFunction hI hdeclare hcalls hknows hk hs hw
  | struct | union =>
    exact lasts_declareAggregate hI hdeclare hshape hcalls htitled
      (by simp [Shape.isAggregate, hk]) hs hw
  | unsupported =>
    refine hI.lasts hs hw (claimed_undefined hw _ ?_)
    split
    · exact hlabel
    · exact .unsupported hshape hk

end

/-! ## 4. References

What a reference is described by is asked for first. A text that is wrapped in suffixes or
respelled calls another text; a text that is no type name is left to the caller, because it is
claimed only once it was declared. -/

/-- Asking the source gives nothing to do. -/
theorem worklist_query (ref : Ref) (s : State σ) : Ensures (query task ref) s
    (fun _ t => t.worklist = s.worklist) fun _ t => t.worklist = s.worklist := by
  unfold Ensures
  cases hknown : s.shapes.get? ref with
  | some shape =>
    simp only [query, run_get_bind, hknown]
    rfl
  | none =>
    simp only [query, run_get_bind, hknown]
    cases hstop : (task.source.stopRequested s.session).1 with
    | true =>
      rw [run_bind_error ((checkCancelled_run s).trans (if_pos hstop))]
    | false =>
      rw [run_bind_ok ((checkCancelled_run s).trans (if_neg (by simp [hstop])))]
      simp only [run_get_bind, run_modify_bind]
      cases (task.source.lookup (task.source.stopRequested s.session).2 task.module ref).1 with
      | ok shape => rfl
      | error e => rfl

section

variable (hI : Lasting describe valid I) (hd : Describes task describe valid)
  (hdeclare : Declares declare)

include hI hd

/-- The source gives its answer. -/
theorem ensures_query_bind {ref : Ref} {next : Option Shape → Run σ β}
    {Q : β → State σ → Prop} {E : Stop → State σ → Prop} (hs : I s) (hw : WellFormed s)
    (hnext : ∀ s', WellFormed s' → I s' → s'.shapes.get? ref = some (describe ref) →
      s'.worklist = s.worklist → Ensures (next (describe ref)) s' Q E)
    (hstop : ∀ e s', I s' → s'.worklist = s.worklist → E e s') :
    Ensures (query task ref >>= next) s Q E := by
  have hquery := ((steps_query task hw ref).with fun _ _ hrun hknown =>
    And.intro hknown (eq_of_query hd (hI.truthful hs) hrun)).and
      ((hI.lasts hs hw (claimed_query hd hw ref)).and (worklist_query ref s))
  refine ensures_bind (Ensures.mono hquery (fun _ _ h => h) fun e t h => hstop e t h.2.1 h.2.2) ?_
  rintro _ s₁ ⟨⟨hw₁, -, hknown, rfl⟩, hs₁, hlist⟩
  exact hnext s₁ hw₁ hs₁ hknown hlist

include hdeclare

variable {ref : Ref} (hcalls : ∀ c ∈ calls describe ref, LastsCall I declare c)
  (hkind : ∀ shape, Shows describe ref shape → shape.kind ≠ .typedef)

include hcalls hkind

/-- The answer is that of the description, and it is no typedef. -/
theorem lasts_declareDescribed (hdescribed : IsDescribed ref) (hs : I s) (hw : WellFormed s) :
    Lasts I s (declareDescribed task declare (labelOf ref) ref) := by
  refine ensures_query_bind hI hd hs hw (fun s₁ hw₁ hs₁ hknown _ => ?_) fun _ _ hs₁ _ => hs₁
  cases hanswer : describe ref with
  | none =>
    exact hI.lasts hs₁ hw₁ (claimed_undefined hw₁ _ (.placeholder hdescribed (by simp [hanswer])))
  | some shape =>
    have hshows : Shows describe ref shape := ⟨hdescribed, hanswer⟩
    rw [hshows.calls_eq] at hcalls
    exact lasts_declareShape hI hd hdeclare hanswer hcalls (hknown.trans (by rw [hanswer]))
      hdescribed (hkind shape hshows) hs₁ hw₁

/-- **Declaring keeps what lasts** if the calls of the reference do. -/
theorem lasts_declareNew (hread : ∀ text, ref = .name text → ∃ t, TypeName.parse text = .ok t)
    (hs : I s) (hw : WellFormed s) : Lasts I s (declareNew task declare ref) := by
  cases ref with
  | id n => exact lasts_declareDescribed hI hd hdeclare hcalls hkind trivial hs hw
  | name text =>
    obtain ⟨t, hparse⟩ := hread text rfl
    have hunfold : calls describe (.name text) =
        if !t.suffixes.isEmpty then [.to (.name t.withoutSuffixes.format)]
        else if t.format ≠ text then [.to (.name t.format)]
        else (describe (.name text)).elim [] (Shape.calls (labelOf (.name text))) := by
      simp only [calls, hparse]
    simp only [declareNew, declareName, hparse]
    refine lasts_bind (steps_needWritable hw _) (hI.lasts hs hw (claimed_needWritable _)) ?_
    rintro _ s₁ hw₁ hs₁ -
    split
    · rename_i hsuffixes
      rw [if_pos hsuffixes] at hunfold
      have hbase := hcalls (.to (.name t.withoutSuffixes.format)) (by simp [hunfold]) s₁ hw₁ hs₁
      refine lasts_bind (hdeclare _ _ hw₁) hbase ?_
      intro x s₂ hw₂ hs₂ hx
      exact hI.lasts hs₂ hw₂ (claimed_applySuffixes hd t.wrapping hw₂ hx.1)
    · rename_i hsuffixes
      rw [if_neg hsuffixes] at hunfold
      split
      · rename_i hformat
        rw [if_pos hformat] at hunfold
        exact hcalls (.to (.name t.format)) (by simp [hunfold]) s₁ hw₁ hs₁
      · rename_i hformat
        exact lasts_declareDescribed hI hd hdeclare hcalls hkind
          ⟨t, hparse, by simpa using hsuffixes, not_not.mp hformat⟩ hs₁ hw₁

end

end NativeTypes.Resolver
