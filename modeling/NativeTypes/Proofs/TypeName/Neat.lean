/-
NativeTypes.Proofs.TypeName.Neat — canonical names are neat.

Whatever is read as a type name closes the brackets that it opens, and has
commas between template arguments only. So as many brackets are open behind its
canonical spelling as in front of it (`TypeName.isNeat_spell`), also where it
stands among the arguments of another name.

The text of a key is told apart into name and arguments by its brackets and
commas, which is why it matters that a name brings none of its own that are out
of place. The count of open brackets is taken along the text and must not fall
below where it started, so it is shown of a piece at every depth at once: only
then can it be used again inside of other brackets.
-/
import NativeTypes.Proofs.Key.Texts
import NativeTypes.Proofs.TypeName.Keys

namespace NativeTypes

open Text

namespace Text

variable {cs : List Char}

/-- What is neat inside of brackets is neat with the brackets around it. -/
theorem isNeat_brackets {left right : Char} (hleft : opens left = true)
    (hright : opens right = false ∧ closes right = true) (hcs : depth? 1 cs = some 1) :
    IsNeat (left :: (cs ++ [right])) := by
  unfold IsNeat
  rw [depth?, if_pos hleft, depth?_append, hcs, Option.bind_some]
  simp [depth?, hright]

/-- Pieces that leave the depth as it is, with marks between them that do. -/
theorem depth?_intercalate {d : Nat} {mark : List Char} {parts : List (List Char)}
    (hmark : depth? d mark = some d) (hparts : ∀ part ∈ parts, IsNeat part) :
    depth? d (List.intercalate mark parts) = some d := by
  induction parts with
  | nil => rfl
  | cons part parts ih =>
    have hpart := (hparts part List.mem_cons_self).depth? d
    have hrest := ih fun p hp => hparts p (List.mem_cons_of_mem part hp)
    cases parts with
    | nil => rwa [List.intercalate_singleton]
    | cons next parts =>
      rw [List.intercalate_cons_cons, depth?_append, depth?_append, hpart, Option.bind_some, hmark,
        Option.bind_some, hrest]

/-- Digits and a sign open and close nothing. -/
theorem isNeat_spellInt (n : Int) : IsNeat (Suffix.spellInt n) :=
  depth?_of_plain (fun _ hc => isInner_of_mem_spellInt hc) 0

end Text

/-- The brackets of an array are closed. -/
theorem Suffix.isNeat_spell (s : Suffix) : IsNeat s.spell := by
  cases s with
  | pointer => decide
  | reference => decide
  | array length =>
    cases length with
    | none => decide
    | some n => exact isNeat_brackets rfl ⟨rfl, rfl⟩ ((isNeat_spellInt n).depth? 1)

theorem isNeat_suffixes (ss : List Suffix) : IsNeat (ss.flatMap Suffix.spell) := by
  induction ss with
  | nil => rfl
  | cons s ss ih => exact s.isNeat_spell.append ih

/-- Words and spaces. -/
theorem Builtin.isNeat_spelling (type : Builtin) : IsNeat type.spelling.toList := by
  cases type <;> decide

/-- The name of a segment opens brackets only as a name that a compiler makes up. -/
theorem isNeat_of_isSegmentName {cs : List Char} (h : isSegmentName cs = true) : IsNeat cs := by
  rcases Bool.or_eq_true_iff.mp h with hidentifier | hspecial
  · cases cs with
    | nil => cases hidentifier
    | cons c cs =>
      obtain ⟨hstart, hrest⟩ := Bool.and_eq_true_iff.mp hidentifier
      refine depth?_of_plain (List.forall_mem_cons.mpr
        ⟨isInner_of_marks (by decide) hstart, fun d hd => ?_⟩) 0
      exact isInner_of_marks (by decide) (List.all_eq_true.mp hrest d hd)
  · rcases isSpecial_cases hspecial with rfl | rfl | ⟨inner, -, hinner, rfl⟩
    · decide
    · decide
    · refine isNeat_brackets rfl ⟨rfl, rfl⟩ (depth?_of_plain (fun c hc => ?_) 1)
      exact isInner_of_marks (by decide) (hinner c hc)

mutual
/-- The canonical spelling of a name whose segments are named by the grammar is neat. -/
theorem TypeName.isNeat_spell : (t : TypeName) → (∀ u ∈ t.nested, u.isNamed = true) →
    IsNeat t.spell
  | .mk b ss, hnamed => by
    rw [TypeName.nested] at hnamed
    have hname := Scanner.isNamed_iff.mp (hnamed _ List.mem_cons_self)
    exact (b.isNeat_spell hname fun u hu => hnamed u (List.mem_cons_of_mem _ hu)).append
      (isNeat_suffixes ss)

theorem BaseName.isNeat_spell : (b : BaseName) →
    (∀ s ∈ b.segments, isSegmentName s.name.toList = true) → (∀ u ∈ b.nested, u.isNamed = true) →
    IsNeat b.spell
  | .builtin type, _, _ => type.isNeat_spelling
  | .path scopes last, hname, hnamed => by
    rw [BaseName.nested] at hnamed
    have hscopes := isNeat_spellSegments scopes (fun s hs => hname s (List.mem_append_left _ hs))
      fun u hu => hnamed u (List.mem_append_left _ hu)
    have hlast := last.isNeat_spell (hname last (List.mem_append_right _ List.mem_cons_self))
      fun u hu => hnamed u (List.mem_append_right _ hu)
    exact depth?_intercalate rfl (by simpa [or_imp, forall_and] using ⟨hscopes, hlast⟩)

theorem Segment.isNeat_spell : (s : Segment) → isSegmentName s.name.toList = true →
    (∀ u ∈ s.nested, u.isNamed = true) → IsNeat s.spell
  | .plain _, hname, _ => isNeat_of_isSegmentName hname
  | .template name as, hname, hnamed => by
    have harguments : IsNeat ('<' ::
        (List.intercalate argumentMark (spellArguments as) ++ ['>'])) :=
      isNeat_brackets rfl ⟨rfl, rfl⟩ (depth?_intercalate rfl (isNeat_spellArguments as hnamed))
    rw [Segment.spell, List.append_assoc]
    exact (isNeat_of_isSegmentName hname).append harguments

theorem Argument.isNeat_spell : (a : Argument) → (∀ u ∈ a.nested, u.isNamed = true) →
    IsNeat a.spell
  | .number n, _ => isNeat_spellInt n
  | .type t, hnamed => t.isNeat_spell hnamed

theorem isNeat_spellSegments : (ss : List Segment) →
    (∀ s ∈ ss, isSegmentName s.name.toList = true) →
    (∀ u ∈ nestedInSegments ss, u.isNamed = true) → ∀ part ∈ spellSegments ss, IsNeat part
  | [], _, _ => by simp [spellSegments]
  | s :: ss, hname, hnamed => by
    rw [nestedInSegments] at hnamed
    exact List.forall_mem_cons.mpr ⟨s.isNeat_spell (hname s List.mem_cons_self)
        fun u hu => hnamed u (List.mem_append_left _ hu),
      isNeat_spellSegments ss (fun s' hs' => hname s' (List.mem_cons_of_mem s hs'))
        fun u hu => hnamed u (List.mem_append_right _ hu)⟩

theorem isNeat_spellArguments : (as : List Argument) →
    (∀ u ∈ nestedInArguments as, u.isNamed = true) → ∀ part ∈ spellArguments as, IsNeat part
  | [], _ => by simp [spellArguments]
  | a :: as, hnamed => by
    rw [nestedInArguments] at hnamed
    exact List.forall_mem_cons.mpr ⟨a.isNeat_spell fun u hu => hnamed u (List.mem_append_left _ hu),
      isNeat_spellArguments as fun u hu => hnamed u (List.mem_append_right _ hu)⟩
end

namespace TypeName

variable {text : String} {t : TypeName}

/-- **The canonical name of whatever is read is neat.** -/
theorem isNeat_format (h : parse text = .ok t) : IsNeat t.format.toList := by
  rw [format, String.toList_ofList]
  exact t.isNeat_spell (isNamed_of_parse h)

/-- So is the path without the last arguments. -/
theorem isNeat_baseName (h : parse text = .ok t) : IsNeat t.baseName.toList := by
  have hnamed := isNamed_of_parse h
  obtain ⟨b, ss⟩ := t
  rw [nested] at hnamed
  have hname := Scanner.isNamed_iff.mp (hnamed _ List.mem_cons_self)
  rw [baseName, String.toList_ofList]
  cases b with
  | builtin type =>
    exact depth?_intercalate rfl (List.forall_mem_singleton.mpr type.isNeat_spelling)
  | path scopes last =>
    have hscopes := isNeat_spellSegments scopes (fun s hs => hname s (List.mem_append_left _ hs))
      fun u hu => hnamed u (by simp [BaseName.nested, hu])
    have hlast := isNeat_of_isSegmentName (hname last (List.mem_append_right _ List.mem_cons_self))
    exact depth?_intercalate rfl (by simpa [or_imp, forall_and] using ⟨hscopes, hlast⟩)

end TypeName

end NativeTypes
