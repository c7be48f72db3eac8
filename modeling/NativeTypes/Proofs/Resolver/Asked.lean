/-
NativeTypes.Proofs.Resolver.Asked — what a source is asked, over any number of
requests.

A source may lose any look-up and may be stopped at any moment; if it answers,
it answers from a description. What holds of its own state and of the answers
that a resolver remembers is kept by requests if every poll and every look-up
keeps it (`Asking`). With a source that writes down what it is asked this says
that no reference is answered twice and that every name is canonical
(`fairRecord_of_requests`).

The invariant is a parameter, and only those parts of the state are given to it
that asking can change: the session, the remembered answers and the shapes of
aggregates. So whoever shows something about what is asked shows five small
facts, one for each thing that can happen at the source, and nothing about
resolving. Truthfulness is the first invariant that is shown in this way, and
the others have it as a part, because a new answer is only known to be the
described one while the source is still valid.

That nothing is answered twice needs no look at the order of requests: an
answer is remembered at the moment when it is written down, what is remembered
is never looked up again, and a look-up that was lost is written down as
unanswered.
-/
import NativeTypes.Proofs.Resolver.Requests
import NativeTypes.Proofs.Resolver.Traces
import NativeTypes.Proofs.TypeName.Keys
import NativeTypes.Source.Session

namespace NativeTypes

/-! ## 1. Tables as descriptions

The tables of a catalog give every reference one answer, which is what a description is. That
they were built, and not made up, matters for the titles of shapes: what is found by an id
carries that id. -/

namespace Catalog

/-- What the tables say about a reference in a module. -/
def describe (c : Catalog) (module : String) : Resolver.Description := fun ref =>
  match c.shape? module ref with
  | .ok answer => answer
  | .error _ => none

/-- A shape in the id table carries its id. -/
theorem Built.isSome_typeId {c : Catalog} (h : c.Built) {module : String} {table : ModuleTable}
    (htable : c.tables.get? module = some table) {id : Int} {shape : Shape}
    (hget : table.byId.get? id = some shape) : shape.typeId.isSome = true := by
  have hnew {c : Catalog} (ih : ∀ {module table}, c.tables.get? module = some table →
      ∀ {id : Int} {shape : Shape}, table.byId.get? id = some shape → shape.typeId.isSome = true)
      (module : String) {id : Int} {shape : Shape}
      (hget : (c.tableOrNew module).byId.get? id = some shape) : shape.typeId.isSome = true := by
    rw [tableOrNew] at hget
    cases htable : c.tables.get? module with
    | none =>
      rw [htable] at hget
      cases hget
    | some table =>
      rw [htable] at hget
      exact ih htable hget
  have hid (table : ModuleTable) (shape : Shape) (id : Option Int) :
      (table.add shape id).byId = (table.addId (ModuleTable.withId shape id) id).byId := by
    rw [ModuleTable.add, ModuleTable.addName]
    split
    · rfl
    · split
      · rfl
      · rfl
  induction h generalizing module table id shape with
  | empty => cases htable
  | @addModule c other size _ ih =>
    simp only [Catalog.addModule, Assoc.get?_put] at htable
    split at htable
    · cases htable
      exact hnew ih other hget
    · exact ih htable hget
  | @add c other added given _ ih =>
    simp only [Catalog.add, Assoc.get?_put] at htable
    split at htable
    · cases htable
      rw [hid] at hget
      cases given with
      | none => exact hnew ih other hget
      | some n =>
        simp only [ModuleTable.addId, Assoc.get?_put] at hget
        split at hget
        · cases hget
          rfl
        · exact hnew ih other hget
    · exact ih htable hget
  | lookup other ref _ ih => exact ih htable hget

/-- What is described is looked up in the tables of the module. -/
theorem lookup_of_describe {c : Catalog} {module : String} {ref : Ref} {shape : Shape}
    (h : c.describe module ref = some shape) : ∃ table, c.tables.get? module = some table ∧
      table.lookup ref = .ok (some shape) := by
  cases htable : c.tables.get? module with
  | none =>
    simp only [describe, shape?, Catalog.table, htable] at h
    cases h
  | some table =>
    refine ⟨table, rfl, ?_⟩
    have heq : c.shape? module ref = (table.lookup ref).mapError .primitive := by
      rw [shape?, Catalog.table, htable]
      rfl
    rw [describe, heq] at h
    cases hl : table.lookup ref with
    | error e =>
      rw [hl] at h
      cases h
    | ok answer =>
      rw [hl] at h
      exact congrArg Except.ok h

/-- What is found under a name is listed under its key, or is a built-in scalar. -/
theorem listed_of_lookup {table : ModuleTable} {text : String} {shape : Shape}
    (h : table.lookup (.name text) = .ok (some shape)) :
    (∃ key, TypeName.nameKey? text = some key ∧ table.byName.get? key = some shape) ∨
      shape.kind = .primitive := by
  rw [ModuleTable.lookup] at h
  split at h
  · cases h
  · rename_i key hkey
    split at h
    · rename_i found hfound
      cases h
      exact .inl ⟨key, hkey, hfound⟩
    · cases hb : Primitive.ofBuiltinName text table.pointerSize with
      | error e =>
        rw [hb] at h
        cases h
      | ok kind =>
        rw [hb] at h
        cases kind with
        | none => cases h
        | some kind =>
          cases h
          exact .inr rfl

/-- Everything in the tables has a name or an id. -/
theorem Built.isTitled {c : Catalog} (h : c.Built) {module : String} {ref : Ref} {shape : Shape}
    (hshape : c.describe module ref = some shape) : shape.IsTitled := by
  obtain ⟨table, htable, hlookup⟩ := lookup_of_describe hshape
  cases ref with
  | id n => exact .inr (.inl (h.isSome_typeId htable (Except.ok.inj hlookup)))
  | name text =>
    rcases listed_of_lookup hlookup with ⟨key, -, hfound⟩ | hkind
    · have hkey := (h.keyed htable).key key shape hfound
      rw [ModuleTable.keyOf?] at hkey
      split at hkey
      · cases hkey
      · rename_i hname
        exact .inl (by simpa using hname)
    · exact .inr (.inr (.inl hkind))

/-- What is described under a canonical name, and is no scalar, is listed under it. -/
theorem listed_of_describe {c : Catalog} {module text : String} {shape : Shape}
    (htext : Resolver.IsDescribed (.name text))
    (hshape : c.describe module (.name text) = some shape) (hkind : shape.kind ≠ .primitive) :
    c.listed? module text = some shape := by
  obtain ⟨t, hparse, -, hformat⟩ := htext
  obtain ⟨table, htable, hlookup⟩ := lookup_of_describe hshape
  obtain ⟨key, hkey, hfound⟩ := (listed_of_lookup hlookup).resolve_right hkind
  obtain rfl : text = key := by
    simp only [TypeName.nameKey?, hparse, TypeName.written?, Option.ite_none_right_eq_some,
      Option.some.injEq] at hkey
    exact hformat.symm.trans hkey.2
  rw [listed?, htable]
  exact hfound

end Catalog

namespace Resolver

variable {σ : Type}

/-- As long as its state is valid, the source answers look-ups in the module as the tables do, if
it answers them; it may lose any look-up, and may be stopped at any moment. Its state stays
valid. -/
structure AnswersFrom (source : Source σ) (c : Catalog) (module : String) (valid : σ → Prop) :
    Prop where
  answers : ∀ {session ref answer}, valid session →
    (source.lookup session module ref).1 = .ok answer → c.shape? module ref = .ok answer
  looked : ∀ {session} ref, valid session → valid (source.lookup session module ref).2
  polled : ∀ {session}, valid session → valid (source.stopRequested session).2

/-- A source that answers from built tables describes. -/
theorem AnswersFrom.describes {source : Source σ} {c : Catalog} {module : String}
    {valid : σ → Prop} (h : AnswersFrom source c module valid) (hc : c.Built) :
    Describes ⟨source, module⟩ (c.describe module) valid where
  answers := fun hvalid ha => by rw [Catalog.describe, h.answers hvalid ha]
  looked := h.looked
  polled := h.polled
  titled := fun _ _ hshape => hc.isTitled hshape

/-- A session answers from its tables, whatever its faults are. -/
theorem answersFrom_session (faults : SessionFaults) (c : Catalog) (module : String) :
    AnswersFrom (Session.source faults) c module fun s => s.catalog.tables = c.tables where
  answers := fun {s ref answer} hvalid ha => by
    have hshape : s.catalog.shape? module ref = c.shape? module ref := by
      rw [Catalog.shape?, Catalog.table, hvalid, Catalog.shape?, Catalog.table]
    rw [← hshape]
    change (Session.lookup faults s module ref).1 = _ at ha
    unfold Session.lookup at ha
    split at ha
    · cases ha
    · simp only [Catalog.lookup] at ha
      cases hs : s.catalog.shape? module ref with
      | ok shape =>
        rw [hs] at ha
        cases ha
        rfl
      | error e =>
        rw [hs] at ha
        cases ha
  looked := fun {s} ref hvalid => by
    show (Session.lookup faults s module ref).2.catalog.tables = _
    unfold Session.lookup
    split
    · exact hvalid
    · simp only [Catalog.lookup]
      cases s.catalog.shape? module ref with
      | ok shape => exact hvalid
      | error e => exact hvalid
  polled := fun hvalid => hvalid

/-! ## 2. What asking keeps
 -/

variable {task : Task σ} {describe : Description} {valid : σ → Prop} {s s' : State σ}

/-- What holds of the state of the source, of the remembered answers and of the shapes of
aggregates, whatever is asked. -/
structure Asking (task : Task σ) (describe : Description) (valid : σ → Prop)
    (J : σ → Assoc Ref (Option Shape) → Assoc Handle Shape → Prop) : Prop where
  truthful : ∀ {a m p}, J a m p →
    valid a ∧ ∀ ref answer, m.get? ref = some answer → answer = describe ref
  polled : ∀ {a m p}, J a m p → J (task.source.stopRequested a).2 m p
  lost : ∀ {a m p ref fault a'}, J a m p → m.get? ref = none → IsNormal ref →
    task.source.lookup a task.module ref = (.error fault, a') → J a' m p
  answered : ∀ {a m p ref answer a'}, J a m p → m.get? ref = none → IsNormal ref →
    task.source.lookup a task.module ref = (.ok answer, a') → J a' (m.put ref answer) p
  placed : ∀ {a m p ref shape}, J a m p → describe ref = some shape →
    shape.kind = .struct ∨ shape.kind = .union → ∀ h : Handle, J a m (p.put h shape)

namespace Asking

variable {J : σ → Assoc Ref (Option Shape) → Assoc Handle Shape → Prop}

/-- A quiet edit asks, and remembers what it was told; or it does not touch what the invariant
sees. -/
theorem quiet (hJ : Asking task describe valid J) (hq : Quiet task s s')
    (hs : J s.session s.shapes s.placed) : J s'.session s'.shapes s'.placed := by
  induction hq with
  | refl => exact hs
  | @tail t u _ hlast ih =>
    have hsame (hbooks : books u = books t) : J u.session u.shapes u.placed := by
      simp only [books, Prod.mk.injEq] at hbooks
      obtain ⟨hsession, hshapes, -, -, hplaced, -⟩ := hbooks
      rw [hsession, hshapes, hplaced]
      exact ih
    cases hlast with
    | polled => exact hJ.polled ih
    | lost hnew hnormal hlookup => exact hJ.lost ih hnew hnormal hlookup
    | answered hnew hnormal hlookup => exact hJ.answered ih hnew hnormal hlookup
    | noted hbooks => exact hsame hbooks
    | bound hbooks => exact hsame hbooks

/-- A way to declare references keeps what holds. -/
def Keeps (J : σ → Assoc Ref (Option Shape) → Assoc Handle Shape → Prop)
    (declare : Ref → Run σ Handle) : Prop :=
  ∀ ref s, WellFormed s → J s.session s.shapes s.placed →
    Ensures (declare ref) s (fun _ s' => J s'.session s'.shapes s'.placed)
      fun _ s' => J s'.session s'.shapes s'.placed

variable {declare : Ref → Run σ Handle}

/-- A call opens a typedef around a declaration. -/
theorem call (hkeeps : Keeps J declare) (c : Call) (hw : WellFormed s)
    (hs : J s.session s.shapes s.placed) :
    Ensures (c.run declare) s (fun _ s' => J s'.session s'.shapes s'.placed)
      fun _ s' => J s'.session s'.shapes s'.placed :=
  ensures_call (hkeeps c.ref _ (hw.enter c) hs)

/-- Calls one after the other. -/
theorem trace (hJ : Asking task describe valid J) (hkeeps : Keeps J declare) {calls : List Call}
    (ht : Trace task declare calls s s') (hs : J s.session s.shapes s.placed) :
    J s'.session s'.shapes s'.placed := by
  induction ht with
  | done hq => exact hJ.quiet hq hs
  | call hq hw hrun _ ih => exact ih ((call hkeeps _ hw (hJ.quiet hq hs)).of_ok hrun)

/-- Calls of which the last one stopped. -/
theorem broken (hJ : Asking task describe valid J) (hkeeps : Keeps J declare) {ref : Ref}
    {calls : List Call} {e : Stop} (ht : Broken task describe ref declare calls s e s')
    (hs : J s.session s.shapes s.placed) : J s'.session s'.shapes s'.placed := by
  induction ht with
  | here hq hq' => exact hJ.quiet (hq.trans hq') hs
  | call hq hw hrun => exact (call hkeeps _ hw (hJ.quiet hq hs)).of_error hrun
  | later hq hw hrun _ ih => exact ih ((call hkeeps _ hw (hJ.quiet hq hs)).of_ok hrun)

/-- One level of the recursion: its calls, and the edits between them. -/
theorem declareOnce (hJ : Asking task describe valid J) (hd : Describes task describe valid)
    (hdeclare : Declares declare) (hkeeps : Keeps J declare) :
    Keeps J (declareOnce task declare) := by
  intro ref s hw hs
  unfold NativeTypes.Resolver.declareOnce Ensures
  cases hget : s.declared.get? ref with
  | some h =>
    simp only [run_get_bind, hget]
    exact hs
  | none =>
    simp only [run_get_bind, hget]
    obtain ⟨cs, hmade⟩ := exists_made describe s ref
    have hplaces := places_declareNew hdeclare hd (hJ.truthful hs) hw hmade
    cases hr : declareNew task declare ref s with
    | ok h t =>
      rw [run_bind_ok hr]
      obtain ⟨u, htrace, hend⟩ := hplaces.of_ok hr
      have hu := hJ.trace hkeeps htrace hs
      rcases hend with rfl | hwaits
      · exact hu
      · obtain ⟨x, other, shape, hshape, hkind, hplaced⟩ := hwaits.placed
        show J t.session t.shapes t.placed
        rw [hwaits.session, hwaits.shapes, hplaced]
        exact hJ.placed hu hshape hkind x
    | error e t =>
      rw [run_bind_error hr]
      exact hJ.broken hkeeps (hplaces.of_error hr) hs

/-- By induction on how deeply references are followed. -/
theorem keeps (hJ : Asking task describe valid J) (hd : Describes task describe valid) (n : Nat) :
    Keeps J (NativeTypes.Resolver.declare task n) := by
  induction n with
  | zero => exact fun _ _ _ hs => hs
  | succ n ih => exact hJ.declareOnce hd (declares_declare task n) ih

/-- **What every question keeps every request keeps.** -/
theorem requests (hJ : Asking task describe valid J) (hd : Describes task describe valid)
    (h : Requests task s s') (hw : WellFormed s) (hs : J s.session s.shapes s.placed) :
    J s'.session s'.shapes s'.placed := by
  refine requests_keep (I := fun t => J t.session t.shapes t.placed)
    (fun n ref t hw ht => hJ.keeps hd n ref t hw ht) ?_ h hw hs
  intro t t' hknown ht
  simp only [known, Prod.mk.injEq] at hknown
  obtain ⟨hsession, hshapes, -, -, -, -, hplaced⟩ := hknown
  rw [hsession, hshapes, hplaced]
  exact ht

end Asking

/-- What a resolver remembers is what is described. -/
theorem asking_truthful (hd : Describes task describe valid) : Asking task describe valid
    fun a m _ => valid a ∧ ∀ ref answer, m.get? ref = some answer → answer = describe ref where
  truthful := fun h => h
  polled := fun h => ⟨hd.polled h.1, h.2⟩
  lost := fun {a m p ref fault a'} h _ _ hlookup => by
    have hvalid := hd.looked ref h.1
    rw [hlookup] at hvalid
    exact ⟨hvalid, h.2⟩
  answered := fun {a m p ref answer a'} h _ _ hlookup => by
    have hvalid := hd.looked ref h.1
    rw [hlookup] at hvalid
    refine ⟨hvalid, fun other found hfound => ?_⟩
    rw [Assoc.get?_put] at hfound
    split at hfound
    · rename_i heq
      cases hfound
      exact heq ▸ hd.answers h.1 (by rw [hlookup])
    · exact h.2 other found hfound
  placed := fun h _ _ _ => h

/-- The shape of every aggregate is one that is described. -/
theorem asking_placed (hd : Describes task describe valid) : Asking task describe valid
    fun a m p => (valid a ∧ ∀ ref answer, m.get? ref = some answer → answer = describe ref) ∧
      ∀ h shape, p.get? h = some shape → ∃ ref, describe ref = some shape ∧
        (shape.kind = .struct ∨ shape.kind = .union) where
  truthful := fun h => h.1
  polled := fun {a m p} h => ⟨(asking_truthful hd).polled (p := p) h.1, h.2⟩
  lost := fun {a m p _ _ _} h hnew hnormal hlookup =>
    ⟨(asking_truthful hd).lost (p := p) h.1 hnew hnormal hlookup, h.2⟩
  answered := fun {a m p _ _ _} h hnew hnormal hlookup =>
    ⟨(asking_truthful hd).answered (p := p) h.1 hnew hnormal hlookup, h.2⟩
  placed := fun {a m p ref shape} h hshape hkind x => by
    refine ⟨h.1, fun y other hy => ?_⟩
    rw [Assoc.get?_put] at hy
    split at hy
    · cases hy
      exact ⟨ref, hshape, hkind⟩
    · exact h.2 y other hy

/-! ## 3. Records
 -/

end Resolver

/-- A look-up as it is written down: what it was for, and whether it was answered. -/
structure LookUp where
  ref : Ref
  answered : Bool
  deriving DecidableEq

/-- A source that writes down what it is asked. -/
def Source.recorded {σ : Type} (source : Source σ) : Source (σ × List LookUp) where
  lookup s module ref :=
    let (answer, t) := source.lookup s.1 module ref
    (answer, t, s.2 ++ [⟨ref, answer.toBool⟩])
  typeNames s := source.typeNames s.1
  pointerSize s := source.pointerSize s.1
  stopRequested s :=
    let (stop, t) := source.stopRequested s.1
    (stop, t, s.2)

/-- The references that were answered. -/
def answeredRefs (record : List LookUp) : List Ref :=
  (record.filter LookUp.answered).map LookUp.ref

namespace Resolver

variable {σ : Type}

variable {source : Source σ} {c : Catalog} {module : String} {describe : Description}
  {valid : σ → Prop}

/-- Writing down does not change the answers. -/
theorem AnswersFrom.recorded (h : AnswersFrom source c module valid) :
    AnswersFrom source.recorded c module fun s => valid s.1 where
  answers := h.answers
  looked := h.looked
  polled := h.polled

/-- No reference was answered twice, all that were are remembered, and names are canonical. -/
structure FairRecord (record : List LookUp) (m : Assoc Ref (Option Shape)) : Prop where
  nodup : (answeredRefs record).Nodup
  remembered : ∀ ref ∈ answeredRefs record, (m.get? ref).isSome = true
  normal : ∀ l ∈ record, IsNormal l.ref

/-- An answer is written down for a reference that had none, and a name that is asked about is in
its canonical form. -/
theorem asking_record {valid : σ × List LookUp → Prop}
    (hd : Describes ⟨source.recorded, module⟩ describe valid) :
    Asking ⟨source.recorded, module⟩ describe valid fun a m _ =>
      FairRecord a.2 m ∧ valid a ∧
        ∀ ref answer, m.get? ref = some answer → answer = describe ref where
  truthful := fun h => h.2
  polled := fun {a m p} h => ⟨h.1, (asking_truthful hd).polled (p := p) h.2⟩
  lost := fun {a m p ref fault a'} h hnew hnormal hlookup => by
    have htruth := (asking_truthful hd).lost (p := p) h.2 hnew hnormal hlookup
    obtain ⟨hanswer, rfl⟩ := Prod.mk.inj hlookup
    refine ⟨⟨?_, ?_, ?_⟩, htruth⟩
    · simpa [answeredRefs, hanswer, Except.toBool] using h.1.nodup
    · simpa [answeredRefs, hanswer, Except.toBool] using h.1.remembered
    · simpa [hnormal, or_imp, forall_and] using h.1.normal
  answered := fun {a m p ref answer a'} h hnew hnormal hlookup => by
    have htruth := (asking_truthful hd).answered (p := p) h.2 hnew hnormal hlookup
    obtain ⟨hanswer, rfl⟩ := Prod.mk.inj hlookup
    have hrefs : answeredRefs (a.2 ++ [⟨ref, Except.toBool (source.lookup a.1 module ref).1⟩]) =
        answeredRefs a.2 ++ [ref] := by
      simp [answeredRefs, hanswer, Except.toBool]
    refine ⟨⟨?_, ?_, ?_⟩, htruth⟩
    · rw [hrefs]
      refine List.nodup_append.mpr ⟨h.1.nodup, List.nodup_cons.mpr ⟨by simp, List.nodup_nil⟩, ?_⟩
      rintro x hx _ hy rfl
      obtain rfl := List.mem_singleton.mp hy
      have hsome := h.1.remembered x hx
      rw [hnew] at hsome
      cases hsome
    · intro x hx
      rw [hrefs] at hx
      rw [Assoc.get?_put]
      split
      · rfl
      · rename_i hne
        rcases List.mem_append.mp hx with hx | hx
        · exact h.1.remembered x hx
        · exact absurd (List.mem_singleton.mp hx).symm hne
    · simpa [hnormal, or_imp, forall_and] using h.1.normal
  placed := fun h _ _ _ => h

/-- **Over any number of requests no reference is answered twice, and every name that the source
is asked about is canonical.** -/
theorem fairRecord_of_requests {s : State (σ × List LookUp)} (hc : c.Built)
    (hsource : AnswersFrom source c module valid) {session : σ} (hvalid : valid session)
    (h : Requests ⟨source.recorded, module⟩ (State.start (session, [])) s) :
    FairRecord s.session.2 s.shapes := by
  have hd := hsource.recorded.describes hc
  refine ((asking_record hd).requests hd h
    (settled_start module (session, ([] : List LookUp))).toWellFormed
    ⟨⟨?_, ?_, ?_⟩, hvalid, ?_⟩).1
  · exact List.nodup_nil
  · exact fun _ h => by cases h
  · exact fun _ h => by cases h
  · exact fun _ _ h => by cases h

end Resolver

end NativeTypes
