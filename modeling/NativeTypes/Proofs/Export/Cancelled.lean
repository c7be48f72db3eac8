/-
NativeTypes.Proofs.Export.Cancelled — an export that is told to stop stops at
once, and one that is not told in time does not notice.

What holds of resolving (`Resolver.shortens_resolve`) holds of exporting a
module: with a source that may ask for a stop it comes to what it comes to with
one that does not, or it ends as cancelled where the stop was asked for
(`exportModule_shortens`). A session that asks for it after a number of
look-ups asks right after that look-up, and an export asks back before each
look-up and once more before it renders. So the number of look-ups decides
alone, and exactly (`exportModule_cancelled`).

Two runs are compared, and not one run with what it should come to: the second
source is the first one with an alarm added. As long as the alarm has not gone
off both runs are in the same state but for the alarm (`level`). Right after a
question that was answered with no they are at the same place and a look-up may
follow (`free`). Once the alarm went off the second run can only ask, and ends;
and then the first one has made at least as many look-ups by its end (`late`).

That the stop is exact, and not only prompt, is the second half of the last
condition: a run that returns with fewer look-ups than the limit never had an
alarm, and one that reaches the limit asks once more before it could return.
-/
import NativeTypes.Proofs.Export.Roots
import NativeTypes.Proofs.Resolver.Shortened
import NativeTypes.Source.Session

namespace NativeTypes.Export

variable {σ τ : Type} {α β : Type} {whole : Source σ} {short : Source τ} {module : String}

/-! ## 1. Exports with two sources

An export is a row of steps, and shortened runs compose step by step (`Shortens.bind`). Each step
of an export is shown to shorten on its own. -/

/-- The state of the source that a step ends in, whether it returns or stops. -/
def final : EStateM.Result ExportFailure σ α → σ
  | .ok _ s => s
  | .error _ s => s

section

variable (S : Shortening whole short module)

/-- How the second step ends when the first one ends so: in the same way, with both sources at
`together` if it returns, or earlier by a stop. -/
inductive Shortened (together : σ → τ → Prop) :
    EStateM.Result ExportFailure σ α → EStateM.Result ExportFailure τ α → Prop
  | returned {x : α} {a : σ} {b : τ} : together a b → Shortened together (.ok x a) (.ok x b)
  | failed {e : ExportFailure} {a : σ} {b : τ} : Shortened together (.error e a) (.error e b)
  | halted {r : EStateM.Result ExportFailure σ α} {b : τ} : S.late (final r) → S.halted b →
      Shortened together r (.error (.cancelled module) b)

/-- From sources that are at `before` the second step is the first one shortened, and the first
one stays late. -/
structure Shortens (before after : σ → τ → Prop) (run : Run σ α) (run' : Run τ α) : Prop where
  shortened : ∀ a b, before a b → Shortened S after (run a) (run' b)
  late : ∀ a, S.late a → S.late (final (run a))

end

variable {S : Shortening whole short module} {before mid after : σ → τ → Prop}
  {run : Run σ α} {run' : Run τ α}

/-- Nothing is asked. -/
theorem Shortens.pure (x : α) : Shortens S before before (pure x) (pure x) where
  shortened _ _ h := .returned h
  late _ h := h

/-- A failure that does not come from the source. -/
theorem Shortens.throw (e : ExportFailure) :
    Shortens S before after (throw e : Run σ α) (throw e) where
  shortened _ _ _ := .failed
  late _ h := h

theorem Shortens.bind {next : α → Run σ β} {next' : α → Run τ β}
    (h : Shortens S before mid run run') (hnext : ∀ x, Shortens S mid after (next x) (next' x)) :
    Shortens S before after (run >>= next) (run' >>= next') where
  shortened a b hab := by
    have hrun := h.shortened a b hab
    generalize hr' : run' b = r' at hrun
    cases hr : run a with
    | ok x a' =>
      rw [hr] at hrun
      rw [run_bind_ok hr]
      cases hrun with
      | returned htogether =>
        rw [run_bind_ok hr']
        exact (hnext x).shortened _ _ htogether
      | halted hlate hhalted =>
        rw [run_bind_error hr']
        exact .halted ((hnext x).late a' hlate) hhalted
    | error e a' =>
      rw [hr] at hrun
      rw [run_bind_error hr]
      cases hrun with
      | failed =>
        rw [run_bind_error hr']
        exact .failed
      | halted hlate hhalted =>
        rw [run_bind_error hr']
        exact .halted hlate hhalted
  late a ha := by
    have hrun := h.late a ha
    cases hr : run a with
    | ok x a' =>
      rw [hr] at hrun
      rw [run_bind_ok hr]
      exact (hnext x).late a' hrun
    | error e a' =>
      rw [hr] at hrun
      rw [run_bind_error hr]
      exact hrun

/-- The question, and how the export ends if the answer is yes. -/
theorem checkCancelled_eq (source : Source σ) (a : σ) :
    checkCancelled source module a =
      if (source.stopRequested a).1
      then .error (.cancelled module) (source.stopRequested a).2
      else .ok () (source.stopRequested a).2 := by
  unfold checkCancelled
  rw [run_get_bind]
  cases source.stopRequested a with
  | mk stop session =>
    cases stop with
    | true => rfl
    | false => rfl

/-- After the question both sources are free, or the second one has halted. -/
theorem shortens_checkCancelled :
    Shortens S S.level S.free (checkCancelled whole module) (checkCancelled short module) where
  shortened a b hab := by
    obtain ⟨a', b', hwhole, ⟨hshort, hfree⟩ | ⟨hshort, hhalted, hlate⟩⟩ := S.polled hab
    · rw [checkCancelled_eq, checkCancelled_eq, hwhole, hshort]
      exact .returned hfree
    · rw [checkCancelled_eq, checkCancelled_eq, hwhole, hshort]
      exact .halted hlate hhalted
  late a ha := by
    rw [checkCancelled_eq]
    split
    · exact S.late_polled ha
    · exact S.late_polled ha

/-- Asking for the names of a module is no look-up. -/
theorem shortens_rootsOf (roots : List Ref) :
    Shortens S S.free S.free (rootsOf whole ⟨module, roots⟩) (rootsOf short ⟨module, roots⟩) where
  shortened a b hab := by
    unfold rootsOf
    split
    · exact .returned hab
    · rw [run_get_bind, run_get_bind, S.listed hab]
      cases short.typeNames b module with
      | ok names => exact .returned hab
      | error fault =>
        cases fault with
        | query fault => exact .failed
        | primitive fault => exact .failed
        | broken why => exact .failed
  late a ha := by
    unfold rootsOf
    split
    · exact ha
    · rw [run_get_bind]
      cases whole.typeNames a module with
      | ok names => exact ha
      | error fault =>
        cases fault with
        | query fault => exact ha
        | primitive fault => exact ha
        | broken why => exact ha

/-- Why an export ends when a resolver stops, and what is left of the source; what a resolver
knows that returns. -/
def resolved (limits : Resolver.Limits) (task : Resolver.Task σ) (s : Resolver.State σ)
    (roots : List Ref) : EStateM.Result ExportFailure σ (Graph × Registry Key × List Diagnostic) :=
  match resolveRoots limits task s roots with
  | .ok s => .ok (s.graph, s.registry, s.diagnostics) s.session
  | .error (failure, session) => .error failure session

theorem resolved_cons_of_ok {limits : Resolver.Limits} {task : Resolver.Task σ}
    {s s' : Resolver.State σ} {root : Ref} {h : Handle}
    (hrun : Resolver.resolve task limits root s = .ok h s') (rest : List Ref) :
    resolved limits task s (root :: rest) = resolved limits task s' rest := by
  simp only [resolved, resolveRoots, hrun]

theorem resolved_cons_of_error {limits : Resolver.Limits} {task : Resolver.Task σ}
    {s s' : Resolver.State σ} {root : Ref} {e : Stop}
    (hrun : Resolver.resolve task limits root s = .error e s') (rest : List Ref) :
    resolved limits task s (root :: rest) =
      .error (failureOf task.module root s'.lastQuery e) s'.session := by
  simp only [resolved, resolveRoots, hrun]

/-- Resolving does not turn back the count of look-ups. -/
theorem late_resolved (limits : Resolver.Limits) (roots : List Ref) {s : Resolver.State σ}
    (hs : S.late s.session) : S.late (final (resolved limits ⟨whole, module⟩ s roots)) := by
  induction roots generalizing s with
  | nil => exact hs
  | cons root rest ih =>
    have hlate := (Resolver.shortens_resolve (S := S) limits root).late s hs
    cases hr : Resolver.resolve ⟨whole, module⟩ limits root s with
    | ok h s' =>
      rw [hr] at hlate
      rw [resolved_cons_of_ok hr]
      exact ih hlate
    | error e s' =>
      rw [hr] at hlate
      rw [resolved_cons_of_error hr]
      exact hlate

/-- One root after the other, by induction on those that are left. -/
theorem shortened_resolved (limits : Resolver.Limits) (roots : List Ref) {s : Resolver.State σ}
    {b : τ} (hs : S.level s.session b) :
    Shortened S S.level (resolved limits ⟨whole, module⟩ s roots)
      (resolved limits ⟨short, module⟩ (s.at b) roots) := by
  induction roots generalizing s b with
  | nil => exact .returned hs
  | cons root rest ih =>
    have hroot := (Resolver.shortens_resolve (S := S) limits root).shortened s b hs
    generalize hr' : Resolver.resolve ⟨short, module⟩ limits root (s.at b) = r' at hroot
    cases hr : Resolver.resolve ⟨whole, module⟩ limits root s with
    | ok h s' =>
      rw [hr] at hroot
      rw [resolved_cons_of_ok hr]
      cases hroot with
      | returned hlevel =>
        rw [resolved_cons_of_ok hr']
        exact ih hlevel
      | halted hlate hhalted =>
        rw [resolved_cons_of_error hr']
        exact .halted (late_resolved limits rest hlate) hhalted
    | error e s' =>
      rw [hr] at hroot
      rw [resolved_cons_of_error hr]
      cases hroot with
      | stopped he hlevel =>
        rw [resolved_cons_of_error hr']
        exact .failed
      | failed =>
        rw [resolved_cons_of_error hr']
        exact .failed
      | halted hlate hhalted =>
        rw [resolved_cons_of_error hr']
        exact .halted hlate hhalted

/-- The step of an export that resolves its roots. -/
def resolving (source : Source σ) (limits : Resolver.Limits) (module : String)
    (roots : List Ref) : Run σ (Graph × Registry Key × List Diagnostic) := fun a =>
  resolved limits ⟨source, module⟩ (.start a) roots

/-- An export as a row of steps. -/
theorem exportModule_eq (source : Source σ) (settings : Settings) (request : ModuleRequest) :
    exportModule source settings request =
      checkCancelled source request.module >>= fun _ => rootsOf source request >>= fun roots =>
        resolving source settings.limits request.module roots >>= fun known =>
          if (known.2.1.instances? (Key.text? request.module)).isNone then
            throw (.stopped .tooManyDigits)
          else match Naming.allocate { truncateNamespace := settings.truncateNamespace }
            request.module known.1 known.2.1 (selected request.module known.1 known.2.1) with
          | .error fault => throw (.naming fault)
          | .ok names => checkCancelled source request.module >>= fun _ =>
            pure (assemble settings request.module known.1 known.2.1 known.2.2 names
              (Emission.order (known.2.1.keyText request.module) known.1
                (selected request.module known.1 known.2.1))) := by
  funext a
  unfold exportModule
  cases hcheck : checkCancelled source request.module a with
  | error e a' => rw [run_bind_error hcheck, run_bind_error hcheck]
  | ok _ a' =>
    rw [run_bind_ok hcheck, run_bind_ok hcheck]
    cases hroots : rootsOf source request a' with
    | error e a'' => rw [run_bind_error hroots, run_bind_error hroots]
    | ok roots a'' =>
      rw [run_bind_ok hroots, run_bind_ok hroots, run_get_bind]
      cases hr : resolveRoots settings.limits ⟨source, request.module⟩ (.start a'') roots with
      | error failure =>
        have hstep : resolving source settings.limits request.module roots a'' =
            .error failure.1 failure.2 := by
          simp only [resolving, resolved, hr]
        exact (run_bind_error hstep).symm
      | ok s =>
        have hstep : resolving source settings.limits request.module roots a'' =
            .ok (s.graph, s.registry, s.diagnostics) s.session := by
          simp only [resolving, resolved, hr]
        refine Eq.trans ?_ (run_bind_ok hstep).symm
        rfl

theorem shortens_resolving (limits : Resolver.Limits) (roots : List Ref) :
    Shortens S S.free S.level (resolving whole limits module roots)
      (resolving short limits module roots) where
  shortened a _ hab := shortened_resolved limits roots (s := .start a) (S.level_of_free hab)
  late a ha := late_resolved limits roots (s := .start a) ha

/-- **An export with the second source is the export with the first one, or it ends as cancelled
where the stop was asked for.** -/
theorem exportModule_shortens (settings : Settings) (roots : List Ref) :
    Shortens S S.level S.free (exportModule whole settings ⟨module, roots⟩)
      (exportModule short settings ⟨module, roots⟩) := by
  rw [exportModule_eq, exportModule_eq]
  refine shortens_checkCancelled.bind fun _ => (shortens_rootsOf roots).bind fun roots =>
    (shortens_resolving settings.limits roots).bind fun known => ?_
  split
  · exact .throw _
  · split
    · exact .throw _
    · exact shortens_checkCancelled.bind fun _ => .pure _

/-! ## 2. A session that is stopped after a number of look-ups -/

/-- A session that wants the run to stop after so many look-ups, and fails in no other way. -/
def stopAfter (limit : Nat) : SessionFaults := { stopAfter := some limit }

/-- A look-up that is answered counts. -/
theorem lookup_of_ok {c : Catalog} {module : String} {ref : Ref} {shape : Option Shape}
    (h : c.shape? module ref = .ok shape) (limit : Nat) :
    Session.lookup (stopAfter limit) ⟨c, false⟩ module ref =
      (.ok shape, ⟨{ c with queries := c.queries + 1 }, decide (limit ≤ c.queries + 1)⟩) := by
  unfold Session.lookup
  rw [if_neg (by simp [stopAfter])]
  simp only [Catalog.lookup, h]
  rfl

/-- So does one that fails. -/
theorem lookup_of_error {c : Catalog} {module : String} {ref : Ref} {e : SourceFault}
    (h : c.shape? module ref = .error e) (limit : Nat) :
    Session.lookup (stopAfter limit) ⟨c, false⟩ module ref =
      (.error e, ⟨{ c with queries := c.queries + 1 }, false⟩) := by
  unfold Session.lookup
  rw [if_neg (by simp [stopAfter])]
  simp only [Catalog.lookup, h]

/-- A catalog, and a session on it that is stopped when `limit` look-ups were made. -/
def stopping (limit : Nat) (module : String) :
    Shortening Catalog.source (Session.source (stopAfter limit)) module where
  level c s := s = ⟨c, decide (limit ≤ c.queries)⟩ ∧ c.queries ≤ limit
  free c s := s = ⟨c, false⟩ ∧ c.queries < limit
  late c := limit ≤ c.queries
  halted s := s.catalog.queries = limit
  level_of_free := by
    rintro c _ ⟨rfl, hlt⟩
    exact ⟨by rw [decide_eq_false (by omega)], by omega⟩
  polled := by
    rintro c _ ⟨rfl, hle⟩
    refine ⟨c, ⟨c, decide (limit ≤ c.queries)⟩, rfl, ?_⟩
    by_cases hlimit : limit ≤ c.queries
    · exact .inr ⟨by rw [decide_eq_true hlimit]; rfl, by simp only; omega, hlimit⟩
    · rw [decide_eq_false hlimit]
      exact .inl ⟨rfl, rfl, by omega⟩
  looked := by
    rintro c _ ⟨rfl, hlt⟩ ref
    have hwhole : Catalog.source.lookup c module ref =
        (c.shape? module ref, { c with queries := c.queries + 1 }) := rfl
    cases hlookup : c.shape? module ref with
    | error e =>
      rw [hlookup] at hwhole
      refine ⟨_, _, _, hwhole, lookup_of_error hlookup limit, ?_⟩
      rintro shape h
      cases h
    | ok shape =>
      rw [hlookup] at hwhole
      refine ⟨_, _, _, hwhole, lookup_of_ok hlookup limit, ?_⟩
      rintro _ -
      exact ⟨rfl, hlt⟩
  sized := by
    rintro c _ ⟨rfl, -⟩
    rfl
  listed := by
    rintro c _ ⟨rfl, -⟩
    rfl
  late_polled := id
  late_looked := fun h _ => Nat.le_succ_of_le h

/-- Before the first look-up both sessions are alike. -/
theorem level_start (c : Catalog) (n : Nat) (module : String) :
    (stopping (c.queries + n) module).level c (Session.start (stopAfter (c.queries + n)) c) :=
  ⟨rfl, Nat.le_add_right _ _⟩

/-- **A stop takes effect exactly.** If exporting a module of a catalog returns after `total`
look-ups, then an export that is told to stop as soon as `n` look-ups were answered ends as
cancelled after exactly `n` of them if `n ≤ total`, and otherwise returns the same output after
the same look-ups. -/
theorem exportModule_cancelled {settings : Settings} {module : String} {roots : List Ref}
    {c c' : Catalog} {output : ModuleOutput}
    (hrun : exportModule Catalog.source settings ⟨module, roots⟩ c = .ok output c') :
    ∃ total, c'.queries = c.queries + total ∧ ∀ n,
      let faults := stopAfter (c.queries + n)
      (n ≤ total → ∃ s : Session,
        exportModule (Session.source faults) settings ⟨module, roots⟩ (Session.start faults c) =
            .error (.cancelled module) s ∧
          s.catalog.queries = c.queries + n) ∧
      (total < n → ∃ s : Session,
        exportModule (Session.source faults) settings ⟨module, roots⟩ (Session.start faults c) =
            .ok output s ∧
          s.catalog = c') := by
  have hshort (n : Nat) := (exportModule_shortens (S := stopping (c.queries + n) module) settings
    roots).shortened c _ (level_start c n module)
  rw [hrun] at hshort
  -- an export that is told to stop at the start shows that look-ups are only added
  have hle : c.queries ≤ c'.queries := by
    have hlate := (exportModule_shortens (S := stopping c.queries module) settings roots).late c
      (Nat.le_refl c.queries)
    rw [hrun] at hlate
    exact hlate
  refine ⟨c'.queries - c.queries, by omega, fun n => ?_⟩
  have hn := hshort n
  generalize hr : exportModule (Session.source (stopAfter (c.queries + n))) settings
    ⟨module, roots⟩ (Session.start (stopAfter (c.queries + n)) c) = r at hn
  cases hn with
  | returned hfree =>
    obtain ⟨rfl, hlt⟩ := hfree
    exact ⟨fun hle => absurd hlt (by omega), fun _ => ⟨_, hr, rfl⟩⟩
  | halted hlate hhalted =>
    have hlate : c.queries + n ≤ c'.queries := hlate
    exact ⟨fun _ => ⟨_, hr, hhalted⟩, fun hlt => absurd hlate (by omega)⟩

/-- What is left of a catalog is what its resolver left. -/
theorem session_eq_of_exportModule {settings : Settings} {roots : List Ref} {c c' : Catalog}
    {output : ModuleOutput} {s : Resolver.State Catalog} (hroots : roots ≠ [])
    (hresolve : resolveRoots settings.limits ⟨Catalog.source, module⟩ (.start c) roots = .ok s)
    (hrun : exportModule Catalog.source settings ⟨module, roots⟩ c = .ok output c') :
    c' = s.session := by
  obtain ⟨_, _, _, s', names, hstart, hlist, hresolve', hnames, -⟩ := exists_of_exportModule_ok hrun
  obtain ⟨-, rfl⟩ := EStateM.Result.ok.inj ((checkCancelled_catalog _ _).symm.trans hstart)
  obtain ⟨rfl, rfl⟩ := EStateM.Result.ok.inj ((rootsOf_catalog _ hroots _).symm.trans hlist)
  obtain rfl := Except.ok.inj (hresolve.symm.trans hresolve')
  have hcatalog := exportModule_catalog hroots hresolve hnames
  exact (EStateM.Result.ok.inj (hrun.symm.trans hcatalog)).2

/-- Two functions of one signature take three look-ups: stopped after two of them their export is
cancelled there, and a stop after a fourth would come too late. -/
theorem exportModule_cancelled_twoFunctions : ∃ (output : ModuleOutput) (c : Catalog),
    exportModule Catalog.source plainSettings ⟨"m", [.name "f", .name "g"]⟩ twoFunctions =
        .ok output c ∧ c.queries = 3 ∧
      (∃ s : Session, exportModule (Session.source (stopAfter 2)) plainSettings
          ⟨"m", [.name "f", .name "g"]⟩ (Session.start (stopAfter 2) twoFunctions) =
            .error (.cancelled "m") s ∧ s.catalog.queries = 2) ∧
      (∃ s : Session, exportModule (Session.source (stopAfter 4)) plainSettings
          ⟨"m", [.name "f", .name "g"]⟩ (Session.start (stopAfter 4) twoFunctions) =
            .ok output s ∧ s.catalog = c) := by
  have hf : resolves plainSettings "m" twoFunctions [.name "f", .name "g"]
      (fun s => declaresOnly plainSettings "m" 1 "f" s && s.session.queries == 3) = true := by
    decide +kernel
  obtain ⟨s, hs, hcheck⟩ := exists_of_resolves hf
  obtain ⟨honly, hqueries⟩ := Bool.and_eq_true_iff.mp hcheck
  obtain ⟨output, c, hrun, -⟩ := exists_of_declaresOnly (by simp) hs honly
  have hc : c.queries = 3 := by
    rw [session_eq_of_exportModule (by simp) hs hrun]
    exact eq_of_beq hqueries
  obtain ⟨total, htotal, hexact⟩ := exportModule_cancelled hrun
  have hzero : twoFunctions.queries = 0 := rfl
  have htwo := (hexact 2).1 (by omega)
  have hfour := (hexact 4).2 (by omega)
  exact ⟨output, c, hrun, hc, htwo, hfour⟩

end NativeTypes.Export
