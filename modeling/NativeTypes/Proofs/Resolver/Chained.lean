/-
NativeTypes.Proofs.Resolver.Chained — all that stands for one type is one
instance.

Of the references that lead to one end (`IsEnd`) those that are declared are
declared as the same instance, whatever else was declared before or in between
(`Chained.uniform`). A reference on the way is declared after the one behind it
(`Chained.closed`), so if anything is declared the end is, or something on the
ring. A ring is closed where a typedef is met again that is open; it was
passed, and the whole ring with it, and nothing of that was declared
(`Approached`). So this happens once, and leaves one placeholder with one
warning, if nothing else goes by the names on the ring.

The key of a typedef that is declared is bound (`Chained.bound`): to what the
typedef stands for, or to an instance that was registered under it
(`Chained.keys`).

An end is a type that stands for itself, or a typedef on a ring. Both are
treated alike as far as possible: the invariant is about one end at a time, and
asks for nothing but that whatever is declared of the references that lead
there is declared as one instance. For a type the first one is the type itself.
For a ring there is no first one by nature; it is made by the moment at which
the ring is closed.

This module says what may happen to such a state one step at a time, each lemma
for one kind of step. In which situations the steps are taken is shown
elsewhere.
-/
import NativeTypes.Proofs.Resolver.Claims
import NativeTypes.Proofs.Resolver.Typedefs

namespace NativeTypes.Resolver

variable {σ : Type} {task : Task σ} {describe : Description} {valid : σ → Prop}
  {module : String} {a ref next x y : Ref} {s s' t : State σ} {h : Handle} {text : String}

/-! ## 1. Warnings -/

/-- A typedef by this name is on the ring. -/
structure OnRing (describe : Description) (a : Ref) (text : String) : Prop where
  leads : LeadsTo describe a (.name text)
  typedef : IsTypedef describe (.name text)

/-- A typedef by this name leads there. -/
structure OnChain (describe : Description) (a : Ref) (text : String) : Prop where
  leads : LeadsTo describe (.name text) a
  typedef : IsTypedef describe (.name text)

/-- What is on the ring leads there. -/
theorem OnRing.onChain (h : OnRing describe a text) (hend : IsEnd describe a) :
    OnChain describe a text :=
  ⟨hend.back h.leads, h.typedef⟩

/-- Nothing but a typedef goes by a name on the ring. -/
def Unclaimed (describe : Description) (a : Ref) (met : String → Prop) : Prop :=
  ∀ text, OnRing describe a text → ¬Claims describe met (.named text)

/-- Nothing that leads there is declared. -/
def Blank (describe : Description) (a : Ref) (declared : Assoc Ref Handle) : Prop :=
  ∀ x, LeadsTo describe x a → declared.get? x = none

/-- The warning for a typedef that stands for itself. -/
def roundReport (module text : String) : Diagnostic :=
  (TypeProblem.unresolvable "typedef chain refers to itself").diagnostic text module

/-- No warning is about the ring. -/
def Unreported (describe : Description) (a : Ref) (ds : List Diagnostic) : Prop :=
  ∀ d ∈ ds, d.kind = .unresolvable → ¬OnRing describe a d.subject

/-- The instance is the placeholder of the ring, which one warning is about. -/
structure RingPlaceholder (describe : Description) (module : String) (a : Ref) (s : State σ)
    (h : Handle) (text : String) : Prop where
  onRing : OnRing describe a text
  get : s.graph.get h = .undefined text
  reported : ∃ before after, s.diagnostics = before ++ roundReport module text :: after ∧
    Unreported describe a (before ++ after)

/-- More is registered and reported, but nothing about the ring. -/
theorem RingPlaceholder.grow (hp : RingPlaceholder describe module a s h text)
    (hget : s'.graph.get h = s.graph.get h) {ds : List Diagnostic}
    (hds : s'.diagnostics = s.diagnostics ++ ds) (hnew : Unreported describe a ds) :
    RingPlaceholder describe module a s' h text where
  onRing := hp.onRing
  get := hget.trans hp.get
  reported := by
    obtain ⟨before, after, heq, hnone⟩ := hp.reported
    refine ⟨before, after ++ ds, by rw [hds, heq, List.append_assoc, List.cons_append], ?_⟩
    intro d hd
    rw [← List.append_assoc] at hd
    exact (List.mem_append.mp hd).elim (hnone d) (hnew d)

/-! ## 2. One instance for a chain -/

/-- What is known of the references that lead to one end, where some texts were declared. -/
structure Chained (describe : Description) (valid : σ → Prop) (module : String) (a : Ref)
    (met : String → Prop) (s : State σ) : Prop where
  truthful : Truthful describe valid s
  uniform : ∀ x y h h', LeadsTo describe x a → LeadsTo describe y a →
    s.declared.get? x = some h → s.declared.get? y = some h' → h = h'
  closed : ∀ x y h, StandsFor describe x y → LeadsTo describe y a → ¬LeadsTo describe a x →
    s.declared.get? x = some h → (s.declared.get? y).isSome = true
  keys : ∀ text h, OnChain describe a text → s.registry.get? (.named text) = some h →
    Claims describe met (.named text) ∧ s.registry.keyOf? h = some (.named text) ∨
      ∃ x, LeadsTo describe x a ∧ s.declared.get? x = some h
  bound : ∀ text h, OnChain describe a text → s.declared.get? (.name text) = some h →
    (s.registry.get? (.named text)).isSome = true
  unreported : IsRing describe a → Unclaimed describe a met → Blank describe a s.declared →
    Unreported describe a s.diagnostics
  placeholder : IsRing describe a → Unclaimed describe a met → ∀ x h, LeadsTo describe x a →
    s.declared.get? x = some h → ∃ text, RingPlaceholder describe module a s h text

namespace Chained

variable {met met' : String → Prop}

/-- Nothing is declared. -/
theorem start {session : σ} (hvalid : valid session) :
    Chained describe valid module a met (State.start session) where
  truthful := ⟨hvalid, fun _ _ h => by cases h⟩
  uniform := fun _ _ _ _ _ _ h => by cases h
  closed := fun _ _ _ _ _ _ h => by cases h
  keys := fun _ _ _ h => by cases h
  bound := fun _ _ _ h => by cases h
  unreported := fun _ _ _ d hd => by cases hd
  placeholder := fun _ _ _ _ _ h => by cases h

/-- More texts may have been met. -/
theorem mono (hs : Chained describe valid module a met s) (hle : ∀ text, met text → met' text) :
    Chained describe valid module a met' s where
  truthful := hs.truthful
  uniform := hs.uniform
  closed := hs.closed
  keys := fun text h hchain hh =>
    (hs.keys text h hchain hh).imp_left fun ⟨hclaims, hkey⟩ => ⟨hclaims.mono hle, hkey⟩
  bound := hs.bound
  unreported := fun hring hun => hs.unreported hring
    fun text hon hclaims => hun text hon (hclaims.mono hle)
  placeholder := fun hring hun => hs.placeholder hring
    fun text hon hclaims => hun text hon (hclaims.mono hle)

/-- If anything on the way is declared, so is the end or something on the ring. -/
theorem exists_declared (hs : Chained describe valid module a met s) (hx : LeadsTo describe x a)
    (hdeclared : s.declared.get? x = some h) :
    ∃ c h', LeadsTo describe a c ∧ s.declared.get? c = some h' := by
  induction hx using Relation.ReflTransGen.head_induction_on generalizing h with
  | refl => exact ⟨a, h, .refl, hdeclared⟩
  | @head x y hstep hrest ih =>
    by_cases hring : LeadsTo describe a x
    · exact ⟨x, h, hring, hdeclared⟩
    · obtain ⟨h', hh'⟩ := Option.isSome_iff_exists.mp (hs.closed x y h hstep hrest hring hdeclared)
      exact ih hh'

/-- Keys are claimed by others. -/
theorem claim (hs : Chained describe valid module a met s) (hw : WellFormed s)
    (hc : Claiming describe valid met s s') : Chained describe valid module a met s' := by
  obtain ⟨ds, hds, hclaims⟩ := hc.diagnostics
  have hnew (hun : Unclaimed describe a met) : Unreported describe a ds :=
    fun d hd hkind hring => hun d.subject hring (hclaims d hd hkind)
  refine ⟨hc.truthful hs.truthful, ?_, ?_, ?_, ?_, ?_, ?_⟩
  · rw [hc.declared]
    exact hs.uniform
  · rw [hc.declared]
    exact hs.closed
  · intro text x hchain hx
    rw [hc.declared]
    rcases hc.keys _ x hx with hold | hnew
    · exact (hs.keys text x hchain hold).imp_left fun ⟨hcl, hk⟩ => ⟨hcl, hc.widens.keyOf? _ _ hk⟩
    · exact .inl hnew
  · intro text x hchain hx
    rw [hc.declared] at hx
    obtain ⟨holder, hholder⟩ := Option.isSome_iff_exists.mp (hs.bound text x hchain hx)
    exact Option.isSome_iff_exists.mpr ⟨holder, hc.widens.get? _ _ hholder⟩
  · intro hring hun hblank d hd
    rw [hc.declared] at hblank
    rw [hds] at hd
    exact (List.mem_append.mp hd).elim (hs.unreported hring hun hblank d) (hnew hun d)
  · intro hring hun x y hx hy
    rw [hc.declared] at hy
    obtain ⟨text, hp⟩ := hs.placeholder hring hun x y hx hy
    exact ⟨text, hp.grow (hc.get y (hw.declared x y hy)) hds (hnew hun)⟩

/-- Neither what is declared nor keys, instances or diagnostics change. -/
theorem of_eq (hs : Chained describe valid module a met s) (ht : Truthful describe valid s')
    (hdeclared : s'.declared = s.declared) (hregistry : s'.registry = s.registry)
    (hgraph : s'.graph = s.graph) (hdiagnostics : s'.diagnostics = s.diagnostics) :
    Chained describe valid module a met s' where
  truthful := ht
  uniform := hdeclared ▸ hs.uniform
  closed := hdeclared ▸ hs.closed
  keys := hdeclared ▸ hregistry ▸ hs.keys
  bound := hdeclared ▸ hregistry ▸ hs.bound
  unreported := hdeclared ▸ hdiagnostics ▸ hs.unreported
  placeholder := fun hring hun x y hx hy => by
    obtain ⟨text, hp⟩ := hs.placeholder hring hun x y hx (hdeclared ▸ hy)
    exact ⟨text, hp.onRing, hgraph ▸ hp.get, hdiagnostics ▸ hp.reported⟩

/-- Nothing becomes known. -/
theorem silent (hs : Chained describe valid module a met s) (h : Silent s s') :
    Chained describe valid module a met s' := by
  have hknown := h.known_eq
  obtain ⟨hget, hkey⟩ := keys_of_known hknown
  simp only [known, Prod.mk.injEq] at hknown
  obtain ⟨hsession, hshapes, hdeclared, -⟩ := hknown
  obtain ⟨ds, hds, hkinds⟩ := h.diagnostics
  have hnew : Unreported describe a ds := fun d hd hkind => absurd hkind (hkinds d hd)
  refine ⟨?_, hdeclared ▸ hs.uniform, hdeclared ▸ hs.closed, fun text x hchain hx => ?_,
    fun text x hchain hx => ?_, fun hring hun hblank => ?_, fun hring hun x y hx hy => ?_⟩
  · unfold Truthful
    rw [hsession, hshapes]
    exact hs.truthful
  · rw [hget] at hx
    rw [hkey, hdeclared]
    exact hs.keys text x hchain hx
  · rw [hdeclared] at hx
    rw [hget]
    exact hs.bound text x hchain hx
  · rw [hdeclared] at hblank
    rw [hds]
    intro d hd
    exact (List.mem_append.mp hd).elim (hs.unreported hring hun hblank d) (hnew d)
  · rw [hdeclared] at hy
    obtain ⟨text, hp⟩ := hs.placeholder hring hun x y hx hy
    refine ⟨text, hp.grow ?_ hds hnew⟩
    -- a placeholder is no aggregate, so it was not edited
    refine (h.get y).resolve_right ?_
    rintro ⟨⟨b, hb⟩, -⟩
    cases hp.get.symm.trans hb

/-- A typedef takes its name for its target; if it leads here the target does. -/
theorem name (hs : Chained describe valid module a met s) {key : Key}
    (hfree : s.registry.get? key = none)
    (hkey : ∀ text, OnChain describe a text → key = .named text →
      ∃ x, LeadsTo describe x a ∧ s.declared.get? x = some h) :
    Chained describe valid module a met { s with registry := s.registry.bind key h } := by
  have hwidens := Registry.widens_bind s.registry hfree h
  refine ⟨hs.truthful, hs.uniform, hs.closed, fun text x hchain hx => ?_,
    fun text x hchain hx => ?_, hs.unreported, fun hring hun x y hx hy =>
      (hs.placeholder hring hun x y hx hy).imp fun _ hp => ⟨hp.onRing, hp.get, hp.reported⟩⟩
  · have hx : (s.registry.bind key h).get? (.named text) = some x := hx
    rw [Registry.get?_bind] at hx
    split at hx
    · rename_i heq
      cases hx
      exact .inr (hkey text hchain heq)
    · exact (hs.keys text x hchain hx).imp_left (And.imp_right (hwidens.keyOf? x _))
  · obtain ⟨holder, hholder⟩ := Option.isSome_iff_exists.mp (hs.bound text x hchain hx)
    exact Option.isSome_iff_exists.mpr ⟨holder, hwidens.get? _ _ hholder⟩

/-- A placeholder is made, and reported, by a name that is not on the chain. -/
theorem undefined_other (hs : Chained describe valid module a met s) (hw : WellFormed s)
    (hend : IsEnd describe a) (hnot : ¬OnChain describe a text)
    (hfree : s.registry.get? (.named text) = none) (i : Instance) {d : Diagnostic}
    (hd : d.subject = text) :
    Chained describe valid module a met { s with
      graph := s.graph.push i
      registry := s.registry.bind (.named text) s.graph.count
      diagnostics := s.diagnostics ++ [d] } := by
  have hwidens := Registry.widens_bind s.registry hfree s.graph.count
  have hnew : Unreported describe a [d] := by
    intro d' hd' _ hring
    obtain rfl := List.mem_singleton.mp hd'
    exact hnot (hd ▸ hring.onChain hend)
  refine ⟨hs.truthful, hs.uniform, hs.closed, fun other x hchain hx => ?_,
    fun other x hchain hx => ?_, fun hring hun hblank => ?_, fun hring hun x y hx hy => ?_⟩
  · have hx : (s.registry.bind (.named text) s.graph.count).get? (.named other) = some x := hx
    rw [Registry.get?_bind, if_neg] at hx
    · exact (hs.keys other x hchain hx).imp_left (And.imp_right (hwidens.keyOf? x _))
    · intro heq
      cases heq
      exact hnot hchain
  · obtain ⟨holder, hholder⟩ := Option.isSome_iff_exists.mp (hs.bound other x hchain hx)
    exact Option.isSome_iff_exists.mpr ⟨holder, hwidens.get? _ _ hholder⟩
  · intro d' hd'
    exact (List.mem_append.mp hd').elim (hs.unreported hring hun hblank d') (hnew d')
  · obtain ⟨other, hp⟩ := hs.placeholder hring hun x y hx hy
    exact ⟨other, hp.grow (Graph.get_push_of_lt (hw.declared x y hy)) rfl hnew⟩

/-- A reference is declared that leads elsewhere. -/
theorem put_other (hs : Chained describe valid module a met s) (hnot : ¬LeadsTo describe ref a) :
    Chained describe valid module a met { s with declared := s.declared.put ref h } := by
  have hsame : ∀ x, LeadsTo describe x a → (s.declared.put ref h).get? x = s.declared.get? x := by
    intro x hx
    rw [Assoc.get?_put, if_neg]
    rintro rfl
    exact hnot hx
  refine ⟨hs.truthful, fun x y k k' hx hy hk hk' => ?_, fun x y k hstep hy hring hk => ?_,
    fun text k hchain hk => ?_, fun text k hchain hk => ?_, fun hring hun hblank => ?_,
    fun hring hun x k hx hk => ?_⟩
  · exact hs.uniform x y k k' hx hy (hsame x hx ▸ hk) (hsame y hy ▸ hk')
  · show ((s.declared.put ref h).get? y).isSome = true
    rw [hsame y hy]
    exact hs.closed x y k hstep hy hring (hsame x (.head hstep hy) ▸ hk)
  · refine (hs.keys text k hchain hk).imp_right ?_
    rintro ⟨x, hx, hxk⟩
    exact ⟨x, hx, (hsame x hx).trans hxk⟩
  · exact hs.bound text k hchain (hsame _ hchain.leads ▸ hk)
  · exact hs.unreported hring hun fun x hx => (hsame x hx).symm.trans (hblank x hx)
  · exact (hs.placeholder hring hun x k hx (hsame x hx ▸ hk)).imp
      fun _ hp => ⟨hp.onRing, hp.get, hp.reported⟩

/-- A reference is declared as the one that it stands for. -/
theorem put_next (hs : Chained describe valid module a met s)
    (hstep : StandsFor describe ref next) (hnext : LeadsTo describe next a)
    (hh : s.declared.get? next = some h)
    (hkey : ∀ text, ref = .name text → IsTypedef describe ref →
      (s.registry.get? (.named text)).isSome = true) :
    Chained describe valid module a met { s with declared := s.declared.put ref h } := by
  have hget (x : Ref) : (s.declared.put ref h).get? x =
      if ref = x then some h else s.declared.get? x := Assoc.get?_put _ _ _ _
  have href : (s.declared.put ref h).get? ref = some h := by rw [hget, if_pos rfl]
  have hkeep : ∀ x, (s.declared.get? x).isSome = true →
      ((s.declared.put ref h).get? x).isSome = true := by
    intro x hx
    rw [hget]
    split
    · rfl
    · exact hx
  -- whatever leads here is declared as `h`
  have hall : ∀ x k, LeadsTo describe x a → (s.declared.put ref h).get? x = some k → k = h := by
    intro x k hx hk
    rw [hget] at hk
    split at hk
    · exact (Option.some.inj hk).symm
    · exact hs.uniform x next k h hx hnext hk hh
  refine ⟨hs.truthful, fun x y k k' hx hy hk hk' => ?_, fun x y k hxy hy hring hk => ?_,
    fun text k hchain hk => ?_, fun text k hchain hk => ?_, fun hring hun hblank => ?_,
    fun hring hun x k hx hk => ?_⟩
  · exact (hall x k hx hk).trans (hall y k' hy hk').symm
  · refine hkeep y ?_
    have hk : (s.declared.put ref h).get? x = some k := hk
    rw [hget] at hk
    split at hk
    · rename_i heq
      obtain rfl := (heq ▸ hstep).unique hxy
      exact Option.isSome_iff_exists.mpr ⟨h, hh⟩
    · exact hs.closed x y k hxy hy hring hk
  · refine (hs.keys text k hchain hk).imp_right ?_
    rintro ⟨x, hx, hxk⟩
    obtain rfl := hs.uniform x next k h hx hnext hxk hh
    exact ⟨ref, .head hstep hnext, href⟩
  · have hk : (s.declared.put ref h).get? (.name text) = some k := hk
    rw [hget] at hk
    split at hk
    · rename_i heq
      exact hkey text heq (heq ▸ hchain.typedef)
    · exact hs.bound text k hchain hk
  · cases href.symm.trans (hblank ref (.head hstep hnext))
  · obtain rfl := hall x k hx hk
    exact (hs.placeholder hring hun next k hnext hh).imp
      fun _ hp => ⟨hp.onRing, hp.get, hp.reported⟩

/-- The first reference is declared: the end of a chain, or a typedef that closes a ring. -/
theorem put_first (htruthful : Truthful describe valid s) (href : LeadsTo describe ref a)
    (hring : LeadsTo describe a ref)
    (hblank : Blank describe a s.declared)
    (hkeys : ∀ text k, OnChain describe a text → s.registry.get? (.named text) = some k →
      Claims describe met (.named text) ∧ s.registry.keyOf? k = some (.named text) ∨ k = h)
    (hkey : ∀ text, ref = .name text → IsTypedef describe ref →
      (s.registry.get? (.named text)).isSome = true)
    (hplaceholder : IsRing describe a → Unclaimed describe a met →
      ∃ text, RingPlaceholder describe module a s h text) :
    Chained describe valid module a met { s with declared := s.declared.put ref h } := by
  have hput : (s.declared.put ref h).get? ref = some h := by rw [Assoc.get?_put, if_pos rfl]
  have honly : ∀ x k, LeadsTo describe x a → (s.declared.put ref h).get? x = some k →
      ref = x ∧ k = h := by
    intro x k hx hk
    rw [Assoc.get?_put] at hk
    split at hk
    · rename_i heq
      exact ⟨heq, (Option.some.inj hk).symm⟩
    · cases (hblank x hx).symm.trans hk
  refine ⟨htruthful, fun x y k k' hx hy hk hk' => ?_, fun x y k hxy hy hnot hk => ?_,
    fun text k hchain hk => ?_, fun text k hchain hk => ?_, fun hring hun hnone => ?_,
    fun hring hun x k hx hk => ?_⟩
  · exact (honly x k hx hk).2.trans (honly y k' hy hk').2.symm
  · obtain ⟨rfl, -⟩ := honly x k (.head hxy hy) hk
    exact absurd hring hnot
  · refine (hkeys text k hchain hk).imp_right ?_
    rintro rfl
    exact ⟨ref, href, hput⟩
  · obtain ⟨heq, -⟩ := honly _ k hchain.leads hk
    exact hkey text heq (heq ▸ hchain.typedef)
  · cases hput.symm.trans (hnone ref href)
  · obtain ⟨-, rfl⟩ := honly x k hx hk
    exact (hplaceholder hring hun).imp fun _ hp => ⟨hp.onRing, hp.get, hp.reported⟩

end Chained

end NativeTypes.Resolver
