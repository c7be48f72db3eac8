/-
NativeTypes.Proofs.CommandLine.Delivery — what generated files hold.

The file of an output is named for the identifier of its module
(`ModuleOutput.filename`), so it lies in the folder itself, whatever the
module is called (`place_outputPath`). Different modules can have one
identifier, though: any module that is no identifier shares its file with
one that is (`exists_filename_eq`). Then one file is written twice, and what
it holds is the source that was written last (`at?_stored`).

* `deliver_correct` — outputs are delivered to a folder that can be made, if
  no directory is in their way. A source is in its file unless a later output
  has the same file; so none is lost exactly when outputs with the same file
  have the same source, as is the case if the modules are different
  identifiers.
* `exists_overwritten` — modules `a.b` and `a_b`, of which the first is lost.
-/
import Mathlib.Data.List.Nodup
import NativeTypes.CommandLine.Run
import NativeTypes.Proofs.CommandLine.Files
import NativeTypes.Proofs.Naming.Identifiers

namespace NativeTypes

/-! ## 1. Names of files -/

namespace ModuleOutput

variable {o o' : ModuleOutput}

theorem filename_eq_iff :
    o.filename = o'.filename ↔ Naming.sanitize o.module = Naming.sanitize o'.module := by
  unfold filename
  exact String.append_left_inj _

/-- Modules that are identifiers have a file each. -/
theorem module_eq_of_filename_eq (ho : Naming.isIdentifier o.module)
    (ho' : Naming.isIdentifier o'.module) (h : o.filename = o'.filename) :
    o.module = o'.module := by
  have hsame := filename_eq_iff.mp h
  rwa [Naming.sanitize_eq_self_iff.mpr ho, Naming.sanitize_eq_self_iff.mpr ho'] at hsame

/-- A module that is no identifier shares its file with one that is. -/
theorem exists_filename_eq (h : ¬Naming.isIdentifier o.module) :
    ∃ o' : ModuleOutput, o'.module ≠ o.module ∧ Naming.isIdentifier o'.module ∧
      o'.filename = o.filename := by
  have hident := Naming.isIdentifier_sanitize o.module
  refine ⟨{ o with module := Naming.sanitize o.module }, ?_, hident, ?_⟩
  · exact fun hsame => h (Naming.sanitize_eq_self_iff.mp hsame)
  · exact filename_eq_iff.mpr (Naming.sanitize_eq_self_iff.mpr hident)

theorem toList_filename (o : ModuleOutput) :
    o.filename.toList = (Naming.sanitize o.module).toList ++ ['.', 'p', 'y'] := by
  rw [filename, String.toList_append]
  rfl

theorem length_filename (o : ModuleOutput) : 3 < o.filename.toList.length := by
  have hident := Naming.isIdentifier_sanitize o.module
  rw [toList_filename, List.length_append]
  cases hchars : (Naming.sanitize o.module).toList with
  | nil =>
    rw [Naming.isIdentifier, hchars] at hident
    cases hident
  | cons c cs => simp

theorem filename_ne {text : String} (h : text.toList.length ≤ 3) : o.filename ≠ text := by
  rintro rfl
  exact absurd o.length_filename (Nat.not_lt.mpr h)

/-- Nothing else is in the name of a file than letters, digits, underscores and a dot. -/
theorem mem_filename {c : Char} (hc : c ∈ o.filename.toList) :
    Naming.isIdentifierChar c ∨ c ∈ ['.', 'p', 'y'] := by
  rw [toList_filename, List.mem_append] at hc
  exact hc.imp_left (Naming.isIdentifierChar_of_mem (Naming.isIdentifier_sanitize o.module) c)

theorem not_mem_filename {c : Char} (hc : Naming.isIdentifierChar c = false)
    (hend : c ∉ ['.', 'p', 'y']) : c ∉ o.filename.toList := by
  intro hmem
  rcases mem_filename hmem with h | h
  · rw [hc] at h
    cases h
  · exact hend h

theorem ofText_filename (o : ModuleOutput) : Path.ofText o.filename = ⟨"", [o.filename]⟩ := by
  have hslash : '/' ∉ o.filename.toList := not_mem_filename (by decide) (by decide)
  exact CommandLine.Files.ofText_name hslash (filename_ne (by decide)) (filename_ne (by decide))

end ModuleOutput

namespace CommandLine

variable {folder : Path} {q r : Place} {outputs : List ModuleOutput} {o : ModuleOutput}

/-- Where the source of an output is written. -/
def outputPath (folder : Path) (o : ModuleOutput) : Path := folder.join (Path.ofText o.filename)

/-- Neither the name nor the path of an output's file is longer than a system allows. -/
def Fits (folder : Path) (o : ModuleOutput) : Prop :=
  o.filename.utf8ByteSize ≤ longestName ∧ (outputPath folder o).text.utf8ByteSize ≤ longestPath

namespace Files

variable {files made after : Files}

/-- The file of an output is in the folder itself. -/
theorem place_outputPath (hplace : files.place folder = .ok q)
    (hdir : files.at? q = some .directory) (hfits : Fits folder o) :
    files.place (outputPath folder o) = .ok (q ++ [o.filename]) := by
  obtain ⟨hname, hpath⟩ := hfits
  unfold outputPath at hpath ⊢
  rw [o.ofText_filename] at hpath ⊢
  have hnull : Char.ofNat 0 ∉ o.filename.toList :=
    ModuleOutput.not_mem_filename (by decide) (by decide)
  exact place_child hplace hdir (ModuleOutput.filename_ne (by decide))
    (by simpa [isImpossible] using hnull) hname hpath

/-! ## 2. Writing -/

/-- No directory is where the file of an output belongs. -/
def Free (q : Place) (outputs : List ModuleOutput) (files : Files) : Prop :=
  ∀ o ∈ outputs, files.at? (q ++ [o.filename]) ≠ some .directory

/-- The files with the sources of outputs, written one after the other. -/
def stored (q : Place) (outputs : List ModuleOutput) (files : Files) : Files :=
  outputs.foldl
    (fun files o => files.put (q ++ [o.filename]) (.file (Text.Utf8.encode o.source))) files

theorem Free.put (h : Free q outputs files) (hr : files.at? r ≠ some .directory)
    (octets : List Nat) : Free q outputs (files.put r (.file octets)) := by
  intro o ho
  rw [at?_put hr]
  split
  · exact fun hdir => by cases hdir
  · exact h o ho

theorem Free.stored {written : List ModuleOutput} (hwritten : Free q written files)
    (h : Free q outputs files) : Free q outputs (stored q written files) := by
  induction written generalizing files with
  | nil => exact h
  | cons o rest ih =>
    obtain ⟨ho, hrest⟩ := List.forall_mem_cons.mp hwritten
    exact ih (Free.put hrest ho _) (h.put ho _)

theorem keepsDirectories_stored (h : Free q outputs files) :
    KeepsDirectories files (stored q outputs files) := by
  induction outputs generalizing files with
  | nil => exact fun _ hr => hr
  | cons o rest ih =>
    obtain ⟨ho, hrest⟩ := List.forall_mem_cons.mp h
    exact fun r hr => ih (Free.put hrest ho _) r (keepsDirectories_put ho _ r hr)

/-- Places of which no output has the name stay as they are. -/
theorem at?_stored_of_ne (h : Free q outputs files) (hne : ∀ o ∈ outputs, q ++ [o.filename] ≠ r) :
    (stored q outputs files).at? r = files.at? r := by
  induction outputs generalizing files with
  | nil => rfl
  | cons o rest ih =>
    obtain ⟨ho, hrest⟩ := List.forall_mem_cons.mp h
    obtain ⟨hor, hner⟩ := List.forall_mem_cons.mp hne
    rw [stored, List.foldl_cons, ← stored, ih (Free.put hrest ho _) hner, at?_put ho, if_neg hor]

/-- **What a file holds** is the source that was written last. -/
theorem at?_stored {before later : List ModuleOutput} (h : Free q (before ++ o :: later) files)
    (hlast : ∀ o' ∈ later, o'.filename ≠ o.filename) :
    (stored q (before ++ o :: later) files).at? (q ++ [o.filename]) =
      some (.file (Text.Utf8.encode o.source)) := by
  obtain ⟨hbefore, hrest⟩ := List.forall_mem_append.mp h
  obtain ⟨ho, hlater⟩ := List.forall_mem_cons.mp (Free.stored hbefore hrest)
  have hne : ∀ o' ∈ later, q ++ [o'.filename] ≠ q ++ [o.filename] := by
    intro o' ho' heq
    exact hlast o' ho' (by simpa using heq)
  rw [stored, List.foldl_append, List.foldl_cons, ← stored, ← stored,
    at?_stored_of_ne (Free.put hlater ho _) hne, at?_put ho, if_pos rfl]

theorem run_bind_of_ok {α β : Type} {x : ExceptT Failure (StateM Files) α} {a : α}
    (h : x.run.run files = (.ok a, after)) (next : α → ExceptT Failure (StateM Files) β) :
    (x >>= next).run.run files = (next a).run.run after := by
  rw [ExceptT.run_bind, StateT.run_bind, h]
  rfl

theorem run_lift {α : Type} {x : StateM Files α} {a : α} (h : x.run files = (a, after)) :
    (monadLift x : ExceptT Failure (StateM Files) α).run.run files = (.ok a, after) := by
  show (Except.ok (x.run files).1, (x.run files).2) = _
  rw [h]

/-- Outputs are written one after the other if no directory is in their way. -/
theorem run_writeOutputs
    (hplace : ∀ o ∈ outputs, files.place (outputPath folder o) = .ok (q ++ [o.filename]))
    (h : Free q outputs files) :
    (writeOutputs host folder outputs).run.run files =
      (.ok (outputs.map (outputPath folder)), stored q outputs files) := by
  induction outputs generalizing files with
  | nil => rfl
  | cons o rest ih =>
    obtain ⟨hp, hplaces⟩ := List.forall_mem_cons.mp hplace
    obtain ⟨ho, hrest⟩ := List.forall_mem_cons.mp h
    have hwrite : (host.write (outputPath folder o) o.source).run files =
        (.ok (), files.put (q ++ [o.filename]) (.file (Text.Utf8.encode o.source))) := by
      rw [host, run_apply, write_eq hp ho]
    have hwrites := ih (fun o' ho' => (keepsDirectories_put ho _).place (hplaces o' ho'))
      (Free.put hrest ho (Text.Utf8.encode o.source))
    rw [writeOutputs]
    exact (run_bind_of_ok (run_lift hwrite) _).trans (run_bind_of_ok hwrites _)

end Files

/-! ## 3. Delivering -/

open Files

/-- What files are like after outputs were delivered to a folder that was made. -/
structure Delivered (folder : Path) (outputs : List ModuleOutput) (made after : Files) :
    Prop where
  /-- A source is in its file unless a later output has the same one. -/
  latest : ∀ before o later, outputs = before ++ o :: later →
    (∀ o' ∈ later, o'.filename ≠ o.filename) →
    after.read (outputPath folder o) = .ok (Text.Utf8.encode o.source)
  /-- No source is lost exactly when outputs with the same file have the same source. -/
  complete_iff :
    (∀ o ∈ outputs, after.read (outputPath folder o) = .ok (Text.Utf8.encode o.source)) ↔
      ∀ o ∈ outputs, ∀ o' ∈ outputs, o.filename = o'.filename → o.source = o'.source
  /-- Modules that are different identifiers have different files, and no source is lost. -/
  complete : (outputs.map ModuleOutput.module).Nodup →
    (∀ o ∈ outputs, Naming.isIdentifier o.module) →
    (outputs.map ModuleOutput.filename).Nodup ∧
      ∀ o ∈ outputs, after.read (outputPath folder o) = .ok (Text.Utf8.encode o.source)
  /-- Nothing else changes. -/
  others : ∀ r, (∀ o ∈ outputs, made.place (outputPath folder o) ≠ .ok r) →
    after.at? r = made.at? r

/-- Of the outputs with one file there is a last one. -/
theorem exists_last (ho : o ∈ outputs) : ∃ before last later,
    outputs = before ++ last :: later ∧ last.filename = o.filename ∧
      ∀ o' ∈ later, o'.filename ≠ last.filename := by
  induction outputs generalizing o with
  | nil => cases ho
  | cons first rest ih =>
    by_cases hagain : ∃ o' ∈ rest, o'.filename = o.filename
    · obtain ⟨o', ho', hname⟩ := hagain
      obtain ⟨before, last, later, rfl, hlast, hlater⟩ := ih ho'
      exact ⟨first :: before, last, later, rfl, hlast.trans hname, hlater⟩
    · rcases List.mem_cons.mp ho with rfl | ho
      · exact ⟨[], o, rest, rfl, rfl, fun o' ho' hname => hagain ⟨o', ho', hname⟩⟩
      · exact absurd ⟨o, ho, rfl⟩ hagain

theorem outputPath_congr {o' : ModuleOutput} (h : o.filename = o'.filename) :
    outputPath folder o = outputPath folder o' := by
  rw [outputPath, outputPath, h]

/-- Writing outputs one after the other delivers them. -/
theorem delivered_stored {made : Files}
    (hplace : ∀ o ∈ outputs, made.place (outputPath folder o) = .ok (q ++ [o.filename]))
    (h : Free q outputs made) : Delivered folder outputs made (stored q outputs made) := by
  have hlatest : ∀ before o later, outputs = before ++ o :: later →
      (∀ o' ∈ later, o'.filename ≠ o.filename) →
      read (stored q outputs made) (outputPath folder o) = .ok (Text.Utf8.encode o.source) := by
    rintro before o later rfl hlast
    exact read_eq ((keepsDirectories_stored h).place (hplace o (by simp))) (at?_stored h hlast)
  have hcomplete :
      (∀ o ∈ outputs, ∀ o' ∈ outputs, o.filename = o'.filename → o.source = o'.source) →
        ∀ o ∈ outputs,
          read (stored q outputs made) (outputPath folder o) = .ok (Text.Utf8.encode o.source) := by
    intro hsame o ho
    -- the file holds what the last output with its name has written
    obtain ⟨before, last, later, hsplit, hname, hlast⟩ := exists_last ho
    have hmem : last ∈ outputs := by simp [hsplit]
    rw [← outputPath_congr hname, hlatest before last later hsplit hlast,
      hsame last hmem o ho hname]
  refine ⟨hlatest, ⟨fun hread o ho o' ho' hname => ?_, hcomplete⟩, fun hmodules hident => ?_,
    fun r hr => ?_⟩
  · have hsame := hread o ho
    rw [outputPath_congr hname, hread o' ho'] at hsame
    exact (Text.Utf8.encode_injective (Except.ok.inj hsame)).symm
  · have heq : ∀ o ∈ outputs, ∀ o' ∈ outputs, o.filename = o'.filename → o = o' := by
      intro o ho o' ho' hname
      have hmodule := ModuleOutput.module_eq_of_filename_eq (hident o ho) (hident o' ho') hname
      exact List.inj_on_of_nodup_map hmodules ho ho' hmodule
    refine ⟨hmodules.of_map _ |>.map_on heq, hcomplete fun o ho o' ho' hname => ?_⟩
    rw [heq o ho o' ho' hname]
  · exact at?_stored_of_ne h fun o ho heq => hr o ho (heq ▸ hplace o ho)

/-- **Outputs are delivered** to a folder that can be made if no directory is in their way. -/
theorem deliver_correct {target : String} {files made : Files} (htarget : target ≠ "-")
    (hmade : (host.makeDirectories (Path.ofText target)).run files = (.ok (), made))
    (hfits : ∀ o ∈ outputs, Fits (Path.ofText target) o)
    (hfree : ∀ o ∈ outputs, made.isDirectory (outputPath (Path.ofText target) o) = false) :
    ∃ after, (deliver host target outputs).run.run files =
        (.ok ("", (outputs.map (outputPath (Path.ofText target))).map fun path =>
          (.info, "wrote " ++ path.text)), after) ∧
      Delivered (Path.ofText target) outputs made after := by
  obtain ⟨q, hplace, hdir⟩ := isDirectory_iff.mp (isDirectory_of_makeDirectories hmade)
  have hplaces : ∀ o ∈ outputs, made.place (outputPath (Path.ofText target) o) =
      .ok (q ++ [o.filename]) := fun o ho => place_outputPath hplace hdir (hfits o ho)
  have hroom : Free q outputs made := by
    intro o ho hat
    have := isDirectory_iff.mpr ⟨_, hplaces o ho, hat⟩
    rw [hfree o ho] at this
    cases this
  refine ⟨stored q outputs made, ?_, delivered_stored hplaces hroom⟩
  rw [deliver, if_neg htarget]
  exact (run_bind_of_ok (run_lift hmade) _).trans
    (run_bind_of_ok (run_writeOutputs hplaces hroom) _)

/-- Two modules that are identifiers. -/
def twoModules : List ModuleOutput := [⟨"app", "x", [], []⟩, ⟨"lib", "y", [], []⟩]

theorem deliver_correct_twoModules :
    (host.makeDirectories (Path.ofText "out")).run [] = (.ok (), [(["out"], .directory)]) ∧
      (twoModules.map ModuleOutput.module).Nodup ∧
      (∀ o ∈ twoModules, Naming.isIdentifier o.module) ∧
      ∃ after, (deliver host "out" twoModules).run.run [] =
          (.ok ("", (twoModules.map (outputPath (Path.ofText "out"))).map fun path =>
            (.info, "wrote " ++ path.text)), after) ∧
        Delivered (Path.ofText "out") twoModules [(["out"], .directory)] after := by
  have hmade : (host.makeDirectories (Path.ofText "out")).run [] =
      (.ok (), [(["out"], .directory)]) := rfl
  have hfits : ∀ o ∈ twoModules, Fits (Path.ofText "out") o := by
    unfold Fits
    decide
  exact ⟨hmade, by decide, by decide, deliver_correct (by decide) hmade hfits (by decide)⟩

/-- Two modules with one identifier. -/
def dotted : List ModuleOutput := [⟨"a.b", "x", [], []⟩, ⟨"a_b", "y", [], []⟩]

/-- The folder with their file. -/
def dottedFiles : Files :=
  [(["out"], .directory), (["out", "a_b.py"], .file (Text.Utf8.encode "y"))]

/-- The modules are different, and the source of the first is in no file. -/
theorem exists_overwritten :
    (dotted.map ModuleOutput.module).Nodup ∧ ¬(dotted.map ModuleOutput.filename).Nodup ∧
      (deliver host "out" dotted).run.run [] =
        (.ok ("", [(.info, "wrote out/a_b.py"), (.info, "wrote out/a_b.py")]), dottedFiles) ∧
      ∃ o ∈ dotted, dottedFiles.read (outputPath (Path.ofText "out") o) ≠
        .ok (Text.Utf8.encode o.source) := by
  refine ⟨by decide, by decide, rfl, ⟨"a.b", "x", [], []⟩, List.mem_cons_self, ?_⟩
  have hread : dottedFiles.read (outputPath (Path.ofText "out") ⟨"a.b", "x", [], []⟩) =
      .ok (Text.Utf8.encode "y") := rfl
  rw [hread]
  exact fun h => absurd (Text.Utf8.encode_injective (Except.ok.inj h)) (by decide)

end CommandLine

end NativeTypes
