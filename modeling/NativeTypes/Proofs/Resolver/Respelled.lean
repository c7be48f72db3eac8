/-
NativeTypes.Proofs.Resolver.Respelled — a name is declared after finitely many
respellings.

A name that is not canonical is declared by declaring the canonical spelling
of its base, which may be read as yet another name. Each of these texts weighs
no more than the one before, and from the second one on a text is lighter or
is described, so the chain of them is no longer than the text
(`ArrivesIn.of_tidy`). Nothing else happens on the way: the state stays as it is
until the last text is declared, and then each text on the way back wraps what
was declared by its suffixes and is remembered (`declare_of_respells`).

Main statement: `declare_settles`.
-/
import NativeTypes.Proofs.Resolver.Exchanged
import NativeTypes.Proofs.TypeName.Settling

namespace NativeTypes

/-! ## 1. Names without their suffixes -/

namespace TypeName

variable {t : TypeName}

theorem weight_withoutSuffixes (t : TypeName) :
    weight t.withoutSuffixes.format.toList ≤ weight t.format.toList := by
  obtain ⟨b, ss⟩ := t
  simp [withoutSuffixes, base, format, spell]

theorem named_withoutSuffixes (h : ∀ u ∈ t.nested, u.isNamed = true) :
    ∀ u ∈ t.withoutSuffixes.nested, u.isNamed = true := by
  obtain ⟨b, ss⟩ := t
  have hself : (TypeName.mk b []).isNamed = true :=
    h (.mk b ss) (by rw [nested]; exact List.mem_cons_self)
  rw [withoutSuffixes, nested]
  refine List.forall_mem_cons.mpr ⟨hself, fun u hu => h u ?_⟩
  rw [nested]
  exact List.mem_cons_of_mem _ hu

theorem WellFormed.withoutSuffixes (h : t.WellFormed) : t.withoutSuffixes.WellFormed := by
  obtain ⟨b, ss⟩ := t
  have hself := h (.mk b ss) (by rw [nested]; exact List.mem_cons_self)
  have hinner : ∀ u ∈ b.nested, u.isNamed = true ∧ u.isDistinct = true := fun u hu =>
    h u (by rw [nested]; exact List.mem_cons_of_mem _ hu)
  have hdistinct : (TypeName.mk b []).isDistinct = true :=
    Scanner.isDistinct_iff.mpr ⟨(Scanner.isDistinct_iff.mp hself.2).1, rfl⟩
  intro u hu
  rw [TypeName.withoutSuffixes, nested] at hu
  rcases List.mem_cons.mp hu with rfl | hu
  · exact ⟨hself.1, hdistinct⟩
  · exact hinner u hu

theorem tidy_format_withoutSuffixes {text : String} (h : parse text = .ok t) :
    Tidy t.withoutSuffixes.format.toList := by
  rw [format, String.toList_ofList]
  exact tidy_spell (named_withoutSuffixes (isNamed_of_parse h))

end TypeName

namespace Resolver

variable {σ : Type}

/-! ## 2. Chains of respellings -/

/-- Declaring the first text asks for the last one by way of the texts in between, each with the
suffixes that are taken off it. Each text but the last one is no canonical name, and the next one
is the canonical spelling of its base, so its own canonical spelling if it has no suffixes. -/
inductive Respells : String → List (String × List Suffix) → String → Prop
  | here (text : String) : Respells text [] text
  | next {text last : String} {t : TypeName} {links : List (String × List Suffix)} :
      TypeName.parse text = .ok t → t.withoutSuffixes.isWritable = true →
      ¬IsDescribed (.name text) → Respells t.withoutSuffixes.format links last →
      Respells text ((text, t.wrapping) :: links) last

/-- The handle under a reference from now on. -/
def remember (ref : Ref) (h : Handle) : Run σ Handle := do
  modify fun s => { s with declared := s.declared.put ref h }
  return h

/-- The way back: wraps what was declared by the suffixes of each text, the last one first, and
remembers it. -/
def rebuild (task : Task σ) : List (String × List Suffix) → Handle → Run σ Handle
  | [], h => pure h
  | (text, suffixes) :: links, h => do
    let base ← rebuild task links h
    let wrapped ← applySuffixes task base suffixes
    remember (.name text) wrapped

/-- Declaring the text asks for no other text: it is known, it gives a placeholder as it is no
name, or the source is asked about it. -/
def Arrives (task : Task σ) (s : State σ) (text : String) : Prop :=
  (∃ h, ∀ k, declare task (k + 1) (.name text) s = .ok h s) ∨
  (∃ fault, TypeName.parse text = .error fault ∧ ∀ k, declare task (k + 1) (.name text) s =
    (undefined task (String.ofList (Text.trim text.toList)) fault.message >>=
      remember (.name text)) s) ∨
  ∀ k, declare task (k + 1) (.name text) s =
    (declareDescribed task (declare task k) text (.name text) >>= remember (.name text)) s

variable {task : Task σ} {s : State σ} {text last : String} {t : TypeName}

theorem declare_new (hnew : s.declared.get? (.name text) = none) (k : Nat) :
    declare task (k + 1) (.name text) s =
      (declareName task (declare task k) text >>= remember (.name text)) s := by
  simp only [declare, declareOnce, run_get_bind, hnew]
  rfl

theorem needWritable_ok {writable : Bool} (h : writable = true) :
    (needWritable writable : Run σ Unit) s = .ok () s := by
  rw [needWritable, if_pos h]
  rfl

/-- A name that is not canonical is declared by way of its base. -/
theorem declareName_of_parse (task : Task σ) (s : State σ) (hparse : TypeName.parse text = .ok t)
    (hwritable : t.withoutSuffixes.isWritable = true) (hnot : ¬IsDescribed (.name text))
    (declare : Ref → Run σ Handle) :
    declareName task declare text s =
      (declare (.name t.withoutSuffixes.format) >>=
        fun h => applySuffixes task h t.wrapping) s := by
  simp only [declareName, hparse]
  rw [run_bind_ok (needWritable_ok hwritable)]
  cases hsuffixes : t.suffixes with
  | cons suffix rest => rfl
  | nil =>
    have hself : t.withoutSuffixes = t ∧ t.wrapping = [] := by
      cases t
      obtain rfl : _ = [] := hsuffixes
      exact ⟨rfl, rfl⟩
    have hformat : t.format ≠ text := fun heq => hnot ⟨t, hparse, hsuffixes, heq⟩
    rw [if_neg (by simp), if_pos hformat, hself.1, hself.2]
    exact (congrFun (bind_pure _) s).symm

/-- **The state stays as it is on the way to the last text**, if none of the texts in between was
declared before. -/
theorem declare_of_respells {links : List (String × List Suffix)} (h : Respells text links last)
    (hnew : ∀ link ∈ links, s.declared.get? (.name link.1) = none) (k : Nat) :
    declare task (links.length + k) (.name text) s =
      (declare task k (.name last) >>= rebuild task links) s := by
  induction h with
  | here text => simp [rebuild]
  | @next text last t links hparse hwritable hnot hrest ih =>
    have hrest := ih fun link hlink => hnew link (List.mem_cons_of_mem _ hlink)
    have hname := declareName_of_parse task s hparse hwritable hnot
      (declare task (links.length + k))
    rw [List.length_cons, Nat.add_right_comm, declare_new (hnew _ List.mem_cons_self),
      run_bind_congr (hname.trans (run_bind_congr hrest fun _ _ _ => rfl)) fun _ _ _ => rfl]
    simp only [rebuild, bind_assoc]

/-! ## 3. Where chains end -/

theorem arrives_of_known {h : Handle} (hknown : s.declared.get? (.name text) = some h) :
    Arrives task s text := by
  refine .inl ⟨h, fun k => ?_⟩
  simp only [declare, declareOnce, run_get_bind, hknown]
  rfl

theorem arrives_of_error {fault : NameSyntaxError} (hparse : TypeName.parse text = .error fault) :
    Arrives task s text := by
  cases hnew : s.declared.get? (.name text) with
  | some h => exact arrives_of_known hnew
  | none =>
    refine .inr (.inl ⟨fault, hparse, fun k => ?_⟩)
    rw [declare_new hnew]
    simp only [declareName, hparse]

theorem arrives_of_described (hparse : TypeName.parse text = .ok t) (hsuffixes : t.suffixes = [])
    (hformat : t.format = text) (hwritable : t.withoutSuffixes.isWritable = true) :
    Arrives task s text := by
  cases hnew : s.declared.get? (.name text) with
  | some h => exact arrives_of_known hnew
  | none =>
    refine .inr (.inr fun k => ?_)
    have hname : declareName task (declare task k) text s =
        declareDescribed task (declare task k) text (.name text) s := by
      simp only [declareName, hparse]
      rw [run_bind_ok (needWritable_ok hwritable), if_neg (by simp [hsuffixes]),
        if_neg (by simp [hformat])]
    rw [declare_new hnew]
    exact run_bind_congr hname fun _ _ _ => rfl

/-- A chain of at most so many texts, none of which was declared before, leads to one that asks for
no other text. -/
def ArrivesIn (task : Task σ) (s : State σ) (text : String) (n : Nat) : Prop :=
  ∃ links last, links.length ≤ n ∧ Respells text links last ∧
    (∀ link ∈ links, s.declared.get? (.name link.1) = none) ∧ Arrives task s last

namespace ArrivesIn

variable {n m : Nat}

theorem of_arrives (h : Arrives task s text) : ArrivesIn task s text n :=
  ⟨[], text, Nat.zero_le _, .here text, by simp, h⟩

theorem mono (h : ArrivesIn task s text n) (hle : n ≤ m) : ArrivesIn task s text m := by
  obtain ⟨links, last, hlength, hrest⟩ := h
  exact ⟨links, last, Nat.le_trans hlength hle, hrest⟩

/-- A text that is read as a name leads at most one step further than the base of the name. -/
theorem of_parse (hparse : TypeName.parse text = .ok t)
    (hwritable : t.withoutSuffixes.isWritable = true)
    (hbase : ArrivesIn task s t.withoutSuffixes.format n) : ArrivesIn task s text (n + 1) := by
  cases hnew : s.declared.get? (.name text) with
  | some h => exact of_arrives (arrives_of_known hnew)
  | none =>
    by_cases hdescribed : IsDescribed (.name text)
    · obtain ⟨u, hu, hsuffixes, hformat⟩ := hdescribed
      obtain rfl : t = u := Except.ok.inj (hparse.symm.trans hu)
      exact of_arrives (arrives_of_described hparse hsuffixes hformat hwritable)
    · obtain ⟨links, last, hlength, hrespells, hlinks, harrives⟩ := hbase
      exact ⟨(text, t.wrapping) :: links, last, Nat.succ_le_succ hlength,
        .next hparse hwritable hdescribed hrespells, List.forall_mem_cons.mpr ⟨hnew, hlinks⟩,
        harrives⟩

/-- A tidy text leads on for as many steps as it weighs, and one. -/
theorem of_tidy (task : Task σ) (s : State σ) (text : String) (htidy : Tidy text.toList) :
    ArrivesIn task s text (weight text.toList + 1) := by
  cases hparse : TypeName.parse text with
  | error fault => exact of_arrives (arrives_of_error hparse)
  | ok t =>
    have hspends := TypeName.spends_of_parse hparse
    have hwritable : t.withoutSuffixes.isWritable = true := by
      by_contra h
      have hlong := isWritable_of_withoutSuffixes (by simpa using h)
      rw [hspends.sure htidy] at hlong
      cases hlong
    have hname : weight t.format.toList ≤ weight text.toList := hspends.weight_le
    have hbase := TypeName.weight_withoutSuffixes t
    rcases Nat.lt_or_eq_of_le (Nat.le_trans hbase hname) with hlt | heq
    · have hrest := of_tidy task s t.withoutSuffixes.format
        (TypeName.tidy_format_withoutSuffixes hparse)
      exact (of_parse hparse hwritable hrest).mono (by omega)
    · -- nothing is lost, so the base is read as itself
      have hwf := (hspends.kept htidy (Nat.le_antisymm hname (heq ▸ hbase))).withoutSuffixes
      have hfixed := TypeName.parse_format hwf hwritable
      exact (of_parse (n := 0) hparse hwritable
        (of_arrives (arrives_of_described hfixed rfl rfl hwritable))).mono (by omega)
termination_by weight text.toList

end ArrivesIn

/-- A number that cannot be written ends the run where the name is to be respelled. -/
theorem declare_overlong (hnew : s.declared.get? (.name text) = none)
    (hparse : TypeName.parse text = .ok t) (hlong : t.withoutSuffixes.isWritable = false)
    (k : Nat) : declare task (k + 1) (.name text) s = .error .tooManyDigits s := by
  have hstop : declareName task (declare task k) text s = .error .tooManyDigits s := by
    simp only [declareName, hparse, hlong]
    rfl
  rw [declare_new hnew]
  exact run_bind_error hstop

/-- **Declaring a name comes to its end after finitely many respellings.** Respelling a text again
and again leads to a text that is not changed any more, or is no type name. Likewise declaring it
leads, with no other effect on the way, to a text that is known, that is no type name, or that the
source is asked about. Both take no more steps than the text has characters, and two. The exception
is a name with a number, read in base sixteen, that is too long to be written. -/
theorem declare_settles (task : Task σ) (s : State σ) (text : String) :
    ((∃ n ≤ text.length + 2, TypeName.SettlesIn n text) ∨
      ∃ t, TypeName.parse text = .ok t ∧ t.isWritable = false ∧
        ∀ n, ¬TypeName.SettlesIn n text) ∧
    ((∃ links last, links.length ≤ text.length + 2 ∧ Respells text links last ∧
        Arrives task s last ∧ ∀ k, declare task (links.length + k) (.name text) s =
          (declare task k (.name last) >>= rebuild task links) s) ∨
      ∃ t, TypeName.parse text = .ok t ∧ t.withoutSuffixes.isWritable = false ∧
        ∀ k, declare task (k + 1) (.name text) s = .error .tooManyDigits s) := by
  refine ⟨TypeName.settlesIn_or_overlong text, ?_⟩
  suffices harrives : ArrivesIn task s text (text.length + 2) ∨
      ∃ t, TypeName.parse text = .ok t ∧ t.withoutSuffixes.isWritable = false ∧
        ∀ k, declare task (k + 1) (.name text) s = .error .tooManyDigits s by
    rcases harrives with ⟨links, last, hlength, hrespells, hnew, harrives⟩ | hlong
    · exact .inl ⟨links, last, hlength, hrespells, harrives, declare_of_respells hrespells hnew⟩
    · exact .inr hlong
  cases hnew : s.declared.get? (.name text) with
  | some h => exact .inl (.of_arrives (arrives_of_known hnew))
  | none =>
    cases hparse : TypeName.parse text with
    | error fault => exact .inl (.of_arrives (arrives_of_error hparse))
    | ok t =>
      cases hwritable : t.withoutSuffixes.isWritable with
      | true =>
        have hrest := ArrivesIn.of_tidy task s t.withoutSuffixes.format
          (TypeName.tidy_format_withoutSuffixes hparse)
        have hbase := TypeName.weight_withoutSuffixes t
        have hname : weight t.format.toList ≤ weight text.toList :=
          (TypeName.spends_of_parse hparse).weight_le
        have hlength := weight_le_length text.toList
        rw [String.length_toList] at hlength
        exact .inl ((hrest.of_parse hparse hwritable).mono (by omega))
      | false =>
        exact .inr ⟨t, rfl, hwritable, declare_overlong hnew hparse hwritable⟩

/-- There is such a name: one digit and many zeros in base sixteen. It is read, so it is no fault of
the text, but it never settles, and neither placeholder nor query comes of declaring it. -/
theorem exists_unsettled : ∃ (text : String) (t : TypeName), TypeName.parse text = .ok t ∧
    (∀ n, ¬TypeName.SettlesIn n text) ∧
    ∀ (σ : Type) (task : Task σ) (session : σ) (k : Nat),
      declare task (k + 1) (.name text) (State.start session) =
        .error .tooManyDigits (State.start session) := by
  let t : TypeName := .mk (.path [] (.template "T" [.number ((16 ^ 3572 : Nat) : Int)])) []
  have hparse := TypeName.parse_powerOfSixteen 3572
  have hlong : t.isWritable = false := by decide +kernel
  exact ⟨_, t, hparse, TypeName.not_settlesIn_of_overlong hparse hlong, fun _ _ _ k =>
    declare_overlong rfl hparse hlong k⟩

end Resolver

end NativeTypes
