/-
NativeTypes.Proofs.CommandLine.Files — what files in memory are like after an
operation on them.

Directories never go away: an operation that goes through keeps each of them
(`KeepsDirectories`), so a path that leads to a place leads there afterwards
too (`KeepsDirectories.place`). A file that is written changes what is at its
place and nothing else (`write_eq`, `at?_put`).

A path is followed component by component, and each component but the last must
be a directory that is there. So a fact about a path after an operation would
have to be shown by following it once more. `KeepsDirectories` saves that: it
says of the whole tree what a single step along a path needs, and is carried
through the fold over the components once.

Making a directory tries the directory itself first and those before it when
that fails, so it may go through the same path several times. What is claimed
of it is only what it leaves: whatever was tried, if it ends well, the
directory is there (`isDirectory_of_attempt`).

* `isDirectory_of_makeDirectories` — a directory is there once it was made with
  those that lead to it.
* `place_child` — a name in a directory that is there stands for the place
  behind it.
* `Text.Utf8.encode_injective` — the octets of a text tell it.
-/
import Mathlib.Logic.Function.Basic
import NativeTypes.CommandLine.Files
import NativeTypes.Proofs.Runs

namespace NativeTypes

/-! ## 1. Octets
 -/

/-- The loop that lists octets, with those listed so far in reverse. -/
theorem Text.Utf8.toList_loop (bytes : ByteArray) (i : Nat) (read : List UInt8) :
    ByteArray.toList.loop bytes i read = read.reverse ++ bytes.data.toList.drop i := by
  have hsize : bytes.data.toList.length = bytes.size := Array.length_toList
  induction h : bytes.size - i generalizing i read with
  | zero =>
    rw [ByteArray.toList.loop, if_neg (by omega), List.drop_eq_nil_of_le (by omega),
      List.append_nil]
  | succ n ih =>
    have hi : i < bytes.data.toList.length := by omega
    have hget : bytes.get! i = bytes.data.toList[i] :=
      getElem!_pos bytes.data i (Array.length_toList ▸ hi)
    rw [ByteArray.toList.loop, if_pos (by omega), ih _ _ (by omega),
      List.drop_eq_getElem_cons hi, hget, List.reverse_cons, List.append_assoc,
      List.singleton_append]

/-- Different texts have different octets. -/
theorem Text.Utf8.encode_injective : Function.Injective Text.Utf8.encode := by
  intro s t h
  unfold encode ByteArray.toList at h
  rw [toList_loop, toList_loop] at h
  have hbytes := (List.map_inj_right fun _ _ => UInt8.toNat_inj.mp).mp h
  rw [List.reverse_nil, List.nil_append, List.nil_append, List.drop_zero, List.drop_zero,
    Array.toList_inj] at hbytes
  exact String.toByteArray_inj.mp (ByteArray.ext hbytes)

namespace CommandLine.Files

variable {files files' : Files} {p : Path} {q r : Place} {name : String}

/-! ## 2. Places

A place is the list of names from the root to it, once `..` and the current directory are worked
off. Where nothing is at a place, the place is known nevertheless. -/

/-- What is at a place is what was put there last. -/
theorem at?_put (hfile : files.at? q ≠ some .directory) (node : Node) :
    at? (files.put q node) r = if q = r then some node else files.at? r := by
  unfold at? at hfile ⊢
  split at hfile
  · exact absurd rfl hfile
  · rename_i hq
    by_cases hr : q = r
    · rw [if_neg (hr ▸ hq), Assoc.get?_put]
      simp [hr]
    · rw [Assoc.get?_put, if_neg hr, if_neg hr]

/-- A directory is entered if it is there; a file is not entered. -/
theorem enter_of_step (h : step q name = .ok r) :
    files.enter q name = match files.at? r with
      | some .directory => .ok r
      | some (.file _) => .error .notDirectory
      | none => .error .missing := by
  unfold enter
  rw [h]
  rfl

/-- What can be entered is a directory. -/
theorem enter_eq_ok : files.enter q name = .ok r ↔
    step q name = .ok r ∧ files.at? r = some .directory := by
  constructor
  · intro h
    obtain ⟨place, hstep, h⟩ := except_bind_eq_ok h
    split at h
    · rename_i hat
      cases h
      exact ⟨hstep, hat⟩
    · cases h
    · cases h
  · rintro ⟨hstep, hat⟩
    rw [enter_of_step hstep, hat]

/-- Which paths lead to a place: all components but the last are entered, the last one need not
be there. -/
theorem place_eq_ok : files.place p = .ok r ↔
    isImpossible p = false ∧ p.text.utf8ByteSize ≤ longestPath ∧
      ∃ folder, p.components.dropLast.foldlM (enter files) (origin p) = .ok folder ∧
        (match p.components.getLast? with
          | none => Except.ok folder
          | some name => step folder name) = .ok r := by
  unfold place
  by_cases himpossible : isImpossible p = true
  · rw [if_pos himpossible]
    exact ⟨fun h => (by cases h), fun h => absurd himpossible (by simp [h.1])⟩
  by_cases hlong : longestPath < p.text.utf8ByteSize
  · rw [if_neg himpossible, if_pos hlong]
    exact ⟨fun h => (by cases h), fun h => absurd hlong (Nat.not_lt.mpr h.2.1)⟩
  rw [if_neg himpossible, if_neg hlong]
  constructor
  · intro h
    obtain ⟨folder, hfolder, h⟩ := except_bind_eq_ok h
    exact ⟨Bool.eq_false_iff.mpr himpossible, Nat.not_lt.mp hlong, folder, hfolder, h⟩
  · rintro ⟨-, -, folder, hfolder, h⟩
    show Except.bind _ _ = _
    rw [hfolder]
    exact h

/-- Each directory of the one is one of the other. -/
def KeepsDirectories (files files' : Files) : Prop :=
  ∀ q, files.at? q = some .directory → files'.at? q = some .directory

namespace KeepsDirectories

/-- Component by component. -/
theorem foldlM (h : KeepsDirectories files files') {names : List String}
    (hq : names.foldlM (enter files) q = .ok r) : names.foldlM (enter files') q = .ok r := by
  induction names generalizing q with
  | nil => exact hq
  | cons name names ih =>
    rw [List.foldlM_cons] at hq ⊢
    obtain ⟨next, hnext, hq⟩ := except_bind_eq_ok hq
    obtain ⟨hstep, hat⟩ := enter_eq_ok.mp hnext
    rw [enter_eq_ok.mpr ⟨hstep, h _ hat⟩]
    exact ih hq

/-- A path leads to the same place. -/
theorem place (h : KeepsDirectories files files') (hp : files.place p = .ok r) :
    files'.place p = .ok r := by
  rw [place_eq_ok] at hp ⊢
  obtain ⟨hpossible, hlength, folder, hfolder, hr⟩ := hp
  exact ⟨hpossible, hlength, folder, h.foldlM hfolder, hr⟩

end KeepsDirectories

/-- A path whose place is a directory can be entered to its end. -/
theorem place_of_foldlM (hplace : files.place p = .ok q) (hdir : files.at? q = some .directory) :
    p.components.foldlM (enter files) (origin p) = .ok q := by
  obtain ⟨-, -, folder, hfolder, hq⟩ := place_eq_ok.mp hplace
  cases hlast : p.components.getLast? with
  | none =>
    rw [hlast] at hq
    rw [List.getLast?_eq_none_iff.mp hlast] at hfolder ⊢
    exact hfolder.trans hq
  | some name =>
    obtain ⟨names, hnames⟩ := List.getLast?_eq_some_iff.mp hlast
    rw [hlast] at hq
    rw [hnames, List.dropLast_concat] at hfolder
    rw [hnames, List.foldlM_append, hfolder]
    show [name].foldlM (enter files) folder = _
    rw [List.foldlM_cons, enter_eq_ok.mpr ⟨hq, hdir⟩]
    rfl

/-- A name in a directory that is there stands for the place behind it. -/
theorem place_child {folder : Path} (hplace : files.place folder = .ok q)
    (hdir : files.at? q = some .directory) (hup : name ≠ "..")
    (hpossible : isImpossible ⟨"", [name]⟩ = false) (hname : name.utf8ByteSize ≤ longestName)
    (hpath : (folder.join ⟨"", [name]⟩).text.utf8ByteSize ≤ longestPath) :
    files.place (folder.join ⟨"", [name]⟩) = .ok (q ++ [name]) := by
  have hjoin : folder.join ⟨"", [name]⟩ = ⟨folder.root, folder.components ++ [name]⟩ := rfl
  rw [hjoin] at hpath ⊢
  refine place_eq_ok.mpr ⟨?_, hpath, q, ?_, ?_⟩
  · have hfolder := (place_eq_ok.mp hplace).1
    unfold isImpossible at hfolder hpossible ⊢
    rw [List.any_append, hfolder]
    exact hpossible
  · rw [List.dropLast_concat]
    exact place_of_foldlM hplace hdir
  · rw [List.getLast?_concat]
    show step q name = _
    rw [step, if_neg (Nat.not_lt.mpr hname), child, if_neg hup]

/-- A text without slashes spells a name. -/
theorem ofText_name {name : String} (hslash : '/' ∉ name.toList) (hempty : name ≠ "")
    (hdot : name ≠ ".") : Path.ofText name = ⟨"", [name]⟩ := by
  have hroot : name.toList.takeWhile (· == '/') = [] := by
    cases hchars : name.toList with
    | nil => rfl
    | cons c cs =>
      have hc : c ≠ '/' := by
        rintro rfl
        exact hslash (hchars ▸ List.mem_cons_self)
      simp [hc]
  have hsplit : Path.split name.toList = [name] := by
    rw [Path.split, List.splitOn_eq_singleton hslash]
    simp [hempty, hdot]
  rw [Path.ofText, hsplit, Path.rootOf, hroot]
  rfl

/-! ## 3. Operations

Each operation finds the place of its path, and is then about what is at that place. -/

/-- Finding looks at the place. -/
theorem find_eq (hplace : files.place p = .ok q) :
    files.find p = match files.at? q with
      | some node => .ok node
      | none => .error .missing := by
  unfold find
  rw [hplace]
  rfl

/-- Reading gives the octets of the file there. -/
theorem read_eq {octets : List Nat} (hplace : files.place p = .ok q)
    (hat : files.at? q = some (.file octets)) : files.read p = .ok octets := by
  unfold read
  rw [find_eq hplace, hat]
  rfl

/-- Writing puts a file there, unless a directory is. -/
theorem write_of_place (hplace : files.place p = .ok q) (octets : List Nat) :
    files.write p octets = match files.at? q with
      | some .directory => .error .isDirectory
      | _ => .ok (files.put q (.file octets)) := by
  unfold write
  rw [hplace]
  rfl

theorem write_eq (hplace : files.place p = .ok q) (hfile : files.at? q ≠ some .directory)
    (octets : List Nat) : files.write p octets = .ok (files.put q (.file octets)) := by
  rw [write_of_place hplace]
  split
  · rename_i hat
    exact absurd hat hfile
  · rfl

/-- What is put where no directory is takes none away. -/
theorem keepsDirectories_put (hfile : files.at? q ≠ some .directory) (node : Node) :
    KeepsDirectories files (files.put q node) := by
  intro r hr
  rw [at?_put hfile, if_neg]
  · exact hr
  · rintro rfl
    exact hfile hr

/-- The check follows the path, and fails where that does. -/
theorem isDirectory_iff : files.isDirectory p = true ↔
    ∃ q, files.place p = .ok q ∧ files.at? q = some .directory := by
  unfold isDirectory
  cases hplace : files.place p with
  | error kind =>
    have hfind : files.find p = .error kind := by
      unfold find
      rw [hplace]
      rfl
    rw [hfind]
    constructor
    · intro h
      cases h
    · rintro ⟨q, h, -⟩
      cases h
  | ok q =>
    rw [find_eq hplace]
    cases hat : files.at? q with
    | none => simp [hat]
    | some node => cases node <;> simp [hat]

/-! ## 4. Making directories
 -/

/-- A change that fails leaves the files as they were. -/
theorem run_apply (change : Files → Except FileFaultKind Files) :
    (apply p change).run files = match change files with
      | .ok files' => (.ok (), files')
      | .error kind => (.error ⟨kind, p⟩, files) := by
  unfold apply
  simp only [StateT.run_bind, StateT.run_get, pure_bind]
  cases change files with
  | ok files' => rfl
  | error kind => rfl

/-- A single directory, made at its place. -/
theorem isDirectory_of_makeDirectory (h : (host.makeDirectory p).run files = (.ok (), files')) :
    files'.isDirectory p := by
  rw [host, run_apply] at h
  cases hmade : files.makeDirectory p with
  | error kind =>
    rw [hmade] at h
    cases h
  | ok made =>
    rw [hmade] at h
    cases h
    obtain ⟨q, hplace, hq⟩ := except_bind_eq_ok hmade
    split at hq
    · cases hq
    · rename_i hat
      cases hq
      have hnew : files.at? q ≠ some .directory := by simp [hat]
      refine isDirectory_iff.mpr ⟨q, (keepsDirectories_put hnew _).place hplace, ?_⟩
      rw [at?_put hnew, if_pos rfl]

theorem run_unlessDirectory (fault : FileFault) :
    (host.unlessDirectory p fault).run files =
      (if files.isDirectory p then .ok () else .error fault, files) := by
  show (if files.isDirectory p = true then pure (.ok ()) else pure (.error fault) :
    StateM Files (Except FileFault Unit)).run files = _
  split
  · rfl
  · rfl

/-- A fault that is put up with: the directory is there. -/
theorem isDirectory_of_unlessDirectory {fault : FileFault}
    (h : (host.unlessDirectory p fault).run files = (.ok (), files')) : files'.isDirectory p := by
  rw [run_unlessDirectory] at h
  split at h
  · rename_i hdir
    cases h
    exact hdir
  · cases h

/-- Whatever is done about a fault, the directory is there if that is. -/
theorem isDirectory_of_attempt {next : FileFault → StateM Files (Except FileFault Unit)}
    (hnext : ∀ fault made, (next fault).run made = (.ok (), files') → files'.isDirectory p)
    (h : (host.makeDirectory p >>= fun
      | .ok _ => pure (.ok ())
      | .error fault => next fault).run files = (.ok (), files')) : files'.isDirectory p := by
  obtain ⟨result, made, hmade⟩ : ∃ result made,
      (host.makeDirectory p).run files = (result, made) := ⟨_, _, rfl⟩
  rw [StateT.run_bind, hmade] at h
  cases result with
  | ok _ =>
    cases h
    exact isDirectory_of_makeDirectory hmade
  | error fault => exact hnext fault made h

/-- However far up it went, the last thing that was tried is the directory itself. -/
theorem isDirectory_of_makeFirst {n : Nat}
    (h : (host.makeFirst p n).run files = (.ok (), files')) :
    files'.isDirectory { p with components := p.components.take n } := by
  cases n with
  | zero =>
    unfold Host.makeFirst at h
    exact isDirectory_of_attempt (fun _ _ h => isDirectory_of_unlessDirectory h) h
  | succ n =>
    unfold Host.makeFirst at h
    refine isDirectory_of_attempt (fun fault made h => ?_) h
    by_cases hkind : fault.kind ≠ .missing
    · rw [if_pos hkind] at h
      exact isDirectory_of_unlessDirectory h
    · rw [if_neg hkind] at h
      obtain ⟨result, above, habove⟩ : ∃ result above,
          (host.makeFirst p n).run made = (result, above) := ⟨_, _, rfl⟩
      rw [StateT.run_bind, habove] at h
      cases result with
      | error _ => cases h
      | ok _ => exact isDirectory_of_attempt (fun _ _ h => isDirectory_of_unlessDirectory h) h

/-- A directory that was made is there. -/
theorem isDirectory_of_makeDirectories
    (h : (host.makeDirectories p).run files = (.ok (), files')) : files'.isDirectory p := by
  have hdir := isDirectory_of_makeFirst h
  rwa [List.take_length] at hdir

end CommandLine.Files

end NativeTypes
