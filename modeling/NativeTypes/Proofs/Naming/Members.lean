/-
NativeTypes.Proofs.Naming.Members — identifiers of members are safe.

Names that are given one after the other step out of the way of those that are
taken: `Allotted` says what a name becomes, `allotEach` what a list of them
does. The search for a free number ends, by the counting of
`le_card_of_numbered`. Members start from the identifier of their own name,
with an underscore behind it where it is not fit to be one; a word that is
unfit does not come about on the way: none ends with a digit, and one that ends
with an underscore is made from a name that nobody has to give up
(`mem_of_underscored`).

The words that no member may be called are a fixed list, and a name goes
through up to three changes before it is given: it is made an identifier, it
may get an underscore, and it may get a number. After each of them it could be
one of the words again. The list is looked through once for each of the last
two changes, by evaluation; that is all that is used of it, so another list
would need the same two facts and no other proof.
-/
import NativeTypes.Proofs.Naming.Allocation

namespace NativeTypes.Naming

/-! ## 1. The first free name -/

/-- What a name becomes where some are taken: it stays as it is, or the first free number from
two on is put behind it. -/
inductive Allotted (taken : List String) (base : String) : String → Prop
  | bare : base ∉ taken → Allotted taken base base
  | numbered {n : Nat} : base ∈ taken → 2 ≤ n → suffixed base n ∉ taken →
      (∀ m, 2 ≤ m → m < n → suffixed base m ∈ taken) → Allotted taken base (suffixed base n)

section

variable {taken : List String} {base ident : String}

theorem Allotted.free (h : Allotted taken base ident) : ident ∉ taken := by
  cases h with
  | bare hfree => exact hfree
  | numbered _ _ hfree _ => exact hfree

theorem Allotted.shape (h : Allotted taken base ident) :
    ident = base ∨ ∃ n, ident = suffixed base n := by
  cases h with
  | bare _ => exact .inl rfl
  | numbered _ _ _ _ => exact .inr ⟨_, rfl⟩

/-- A name that is free stays as it is. -/
theorem Allotted.eq_base (h : Allotted taken base ident) (hfree : base ∉ taken) :
    ident = base := by
  cases h with
  | bare _ => rfl
  | numbered htaken _ _ _ => exact absurd htaken hfree

theorem Allotted.congr {taken' : List String} (h : Allotted taken base ident)
    (hsame : ∀ name, name ∈ taken ↔ name ∈ taken') : Allotted taken' base ident := by
  cases h with
  | bare hfree => exact .bare (mt (hsame _).mpr hfree)
  | numbered htaken htwo hfree hleast =>
    exact .numbered ((hsame _).mp htaken) htwo (mt (hsame _).mpr hfree) fun m hm hlt =>
      (hsame _).mp (hleast m hm hlt)

/-- A number that is found is the first free one. -/
theorem least_of_numbered {free : String → Bool} {tries n : Nat}
    (h : numbered free base tries n = some ident) :
    ∃ k, n ≤ k ∧ ident = suffixed base k ∧ free ident ∧
      ∀ m, n ≤ m → m < k → free (suffixed base m) = false := by
  induction tries generalizing n with
  | zero => cases h
  | succ tries ih =>
    rw [numbered] at h
    split at h
    · rename_i hfree
      cases h
      exact ⟨n, Nat.le_refl n, rfl, hfree, fun m hle hlt => absurd hlt (Nat.not_lt.mpr hle)⟩
    · rename_i htaken
      obtain ⟨k, hle, hident, hfree, hleast⟩ := ih h
      refine ⟨k, Nat.le_of_succ_le hle, hident, hfree, fun m hm hlt => ?_⟩
      rcases Nat.eq_or_lt_of_le hm with rfl | hm
      · exact Bool.not_eq_true _ ▸ htaken
      · exact hleast m hm hlt

/-- **The search for a free name ends.** -/
theorem allotted_firstFree (taken : List String) (base : String) :
    Allotted taken base (firstFree taken base) := by
  unfold firstFree
  split
  · rename_i htaken
    rw [List.contains_iff_mem] at htaken
    cases hnumber : numbered (fun name => !taken.contains name) base (taken.length + 1) 2 with
    | none =>
      have hcount := le_card_of_numbered hnumber
      have hcard := List.toFinset_card_le taken
      omega
    | some ident =>
      obtain ⟨k, htwo, rfl, hfree, hleast⟩ := least_of_numbered hnumber
      refine .numbered htaken htwo (by simpa using hfree) fun m hm hlt => ?_
      simpa using hleast m hm hlt
  · rename_i hfree
    rw [List.contains_iff_mem] at hfree
    exact .bare hfree

end

/-! ## 2. Names given one after the other -/

/-- The names that come of `stems`, each apart from those before it and from those taken. -/
def allotEach (taken : List String) : List String → List String
  | [] => []
  | stem :: stems => firstFree taken stem :: allotEach (firstFree taken stem :: taken) stems

section

variable (taken stems : List String)

/-- Each gets a name. -/
theorem length_allotEach : (allotEach taken stems).length = stems.length := by
  induction stems generalizing taken with
  | nil => rfl
  | cons stem stems ih => rw [allotEach, List.length_cons, List.length_cons, ih]

variable {stems} in
theorem exists_allotted {i : Nat} {stem : String} (h : stems[i]? = some stem) :
    ∃ name, (allotEach taken stems)[i]? = some name ∧
      Allotted ((allotEach taken stems).take i ++ taken) stem name := by
  induction stems generalizing taken i with
  | nil => cases h
  | cons first stems ih =>
    rw [allotEach]
    cases i with
    | zero =>
      cases h
      exact ⟨_, rfl, allotted_firstFree taken _⟩
    | succ i =>
      obtain ⟨name, hname, hallotted⟩ := ih (firstFree taken first :: taken) h
      refine ⟨name, hname, hallotted.congr fun other => ?_⟩
      rw [List.take_succ_cons, List.cons_append]
      exact List.perm_middle.mem_iff

variable {taken stems} in
/-- Every name is one that some stem is allotted. -/
theorem exists_stem_of_mem {name : String} (h : name ∈ allotEach taken stems) :
    ∃ stem ∈ stems, ∃ taken', Allotted taken' stem name := by
  obtain ⟨i, hi⟩ := List.mem_iff_getElem?.mp h
  obtain ⟨hlt, -⟩ := List.getElem?_eq_some_iff.mp hi
  rw [length_allotEach] at hlt
  obtain ⟨name', hname', hallotted⟩ := exists_allotted taken (List.getElem?_eq_getElem hlt)
  obtain rfl := Option.some.inj (hname'.symm.trans hi)
  exact ⟨stems[i], List.getElem_mem hlt, _, hallotted⟩

/-- No two are given the same name, and nobody one that is taken. -/
theorem allotEach_apart :
    (allotEach taken stems).Nodup ∧ ∀ name ∈ allotEach taken stems, name ∉ taken := by
  induction stems generalizing taken with
  | nil => exact ⟨List.nodup_nil, nofun⟩
  | cons stem stems ih =>
    obtain ⟨hnodup, hfree⟩ := ih (firstFree taken stem :: taken)
    rw [allotEach]
    refine ⟨List.nodup_cons.mpr ⟨fun hmem => hfree _ hmem List.mem_cons_self, hnodup⟩, ?_⟩
    refine List.forall_mem_cons.mpr ⟨(allotted_firstFree taken stem).free, fun name hname => ?_⟩
    exact fun hmem => hfree name hname (List.mem_cons_of_mem _ hmem)

variable {stems} in
/-- A stem becomes a name itself, unless it is taken. -/
theorem mem_allotEach_of_mem {stem : String} (h : stem ∈ stems) (hfree : stem ∉ taken) :
    stem ∈ allotEach taken stems := by
  induction stems generalizing taken with
  | nil => cases h
  | cons first stems ih =>
    rw [allotEach, List.mem_cons]
    by_cases hfirst : stem = firstFree taken first
    · exact .inl hfirst
    · rcases List.mem_cons.mp h with rfl | h
      · exact absurd ((allotted_firstFree taken stem).eq_base hfree).symm hfirst
      · exact .inr (ih _ h (List.not_mem_cons_of_ne_of_not_mem hfirst hfree))

end

/-! ## 3. Words that are not allowed -/

/-- The words that no member may be called. -/
def unfitWords : List String := memberReserved ++ keywords

/-- No such word ends with a digit, so a number behind a name never leads to one. -/
theorem suffixed_not_mem_unfitWords (base : String) (n : Nat) :
    suffixed base n ∉ unfitWords := by
  have hlast : ∀ word ∈ unfitWords, (word.toList.getLast?.any Char.isDigit) = false := by
    decide
  intro hmem
  have hdigits : (suffixed base n).toList = (base ++ "_").toList ++ Nat.toDigits 10 n := by
    rw [suffixed, String.toList_append, Nat.toString_eq_ofList_toDigits, String.toList_ofList]
  have hne : Nat.toDigits 10 n ≠ [] := Nat.toDigits_ne_nil
  have hdigit := Nat.isDigit_of_mem_toDigits (by decide) (by decide) (List.getLast_mem hne)
  have := hlast _ hmem
  rw [hdigits, List.getLast?_append_of_ne_nil _ hne, List.getLast?_eq_some_getLast hne] at this
  simp [hdigit] at this

/-- An underscore behind a name leads to one only from these names. -/
theorem mem_of_underscored {base : String} (h : base ++ "_" ∈ unfitWords) :
    base ∈ ["_fields", "_pack", "_anonymous"] := by
  have hcut : ∀ word ∈ unfitWords, word.toList.getLast? = some '_' →
      String.ofList word.toList.dropLast ∈ ["_fields", "_pack", "_anonymous"] := by
    decide
  have hchars : (base ++ "_").toList = base.toList ++ ['_'] := String.toList_append ..
  have := hcut _ h
  rw [hchars, List.getLast?_concat, List.dropLast_concat, String.ofList_toList] at this
  exact this rfl

/-! ## 4. The names that members start from -/

section

variable (reserved : List String) (index : Nat) (raw : String)

/-- A member starts from an identifier, whatever its name is. -/
theorem isIdentifier_memberBase : isIdentifier (memberBase reserved index raw) := by
  have hbase : isIdentifier
      (if raw.isEmpty then "unnamed_" ++ toString index else sanitize raw) := by
    split
    · have hunnamed : isIdentifier "unnamed" := by decide
      have hplace : suffixed "unnamed" index = "unnamed_" ++ toString index :=
        congrArg (· ++ toString index) (show "unnamed" ++ "_" = "unnamed_" by decide)
      exact hplace ▸ isIdentifier_suffixed hunnamed index
    · exact isIdentifier_sanitize raw
  unfold memberBase
  generalize (if raw.isEmpty then "unnamed_" ++ toString index else sanitize raw) = base at hbase
  dsimp only
  split
  · exact isIdentifier_append hbase (List.forall_mem_singleton.mpr rfl)
  · exact hbase

variable {reserved} in
/-- As long as the names that words are made from need not be given up. -/
theorem memberBase_not_mem_unfitWords
    (hreserved : ∀ word ∈ ["_fields", "_pack", "_anonymous"], word ∉ reserved) :
    memberBase reserved index raw ∉ unfitWords := by
  unfold memberBase
  generalize (if raw.isEmpty then "unnamed_" ++ toString index else sanitize raw) = base
  dsimp only
  split
  · rename_i hmoved
    intro hunfit
    have hbase := mem_of_underscored hunfit
    have hallowed : ∀ word ∈ ["_fields", "_pack", "_anonymous"],
        memberReserved.contains word = false ∧ keywords.contains word = false := by
      decide
    obtain ⟨hfree, hfree'⟩ := hallowed base hbase
    rw [hfree, hfree', Bool.false_or, Bool.false_or, List.contains_iff_mem] at hmoved
    exact hreserved base hbase hmoved
  · rename_i hkept
    rw [Bool.or_eq_true, Bool.or_eq_true, not_or, not_or] at hkept
    simpa [unfitWords] using hkept.1

variable {reserved raw} in
/-- A fit identifier is what it starts from. -/
theorem memberBase_eq_self (hident : isIdentifier raw) (hfit : raw ∉ unfitWords)
    (hfree : raw ∉ reserved) : memberBase reserved index raw = raw := by
  have hne : raw.isEmpty = false := by
    refine Bool.eq_false_iff.mpr fun hempty => ?_
    rw [String.isEmpty_iff.mp hempty] at hident
    cases hident
  obtain ⟨hmember, hkeyword⟩ := not_or.mp (mt List.mem_append.mpr hfit)
  simp [memberBase, hne, sanitize_eq_self_iff.mpr hident, hmember, hkeyword, hfree]

end

/-! ## 5. All members of a declaration -/

section

variable (names reserved : List String)

/-- Members are given what they start from, one after the other. -/
theorem allocateMembers_eq :
    allocateMembers names reserved = allotEach reserved (names.mapIdx (memberBase reserved)) := by
  have hfrom : ∀ used index, allocateFrom reserved used index names =
      allotEach (used ++ reserved) (names.mapIdx fun i => memberBase reserved (index + i)) := by
    induction names with
    | nil => exact fun used index => rfl
    | cons raw names ih =>
      intro used index
      rw [allocateFrom, List.mapIdx_cons, allotEach, ih]
      simp only [List.cons_append, Nat.add_zero, Nat.add_right_comm index 1, Nat.add_assoc]
  have hall := hfrom [] 0
  simp only [Nat.zero_add, List.nil_append] at hall
  exact hall

theorem length_allocateMembers : (allocateMembers names reserved).length = names.length := by
  rw [allocateMembers_eq, length_allotEach, List.length_mapIdx]

/-- Members have different identifiers. -/
theorem nodup_allocateMembers : (allocateMembers names reserved).Nodup := by
  rw [allocateMembers_eq]
  exact (allotEach_apart reserved _).1

variable {names reserved}

theorem not_mem_reserved {ident : String} (h : ident ∈ allocateMembers names reserved) :
    ident ∉ reserved := by
  rw [allocateMembers_eq] at h
  exact (allotEach_apart reserved _).2 ident h

theorem exists_memberBase_of_mem {ident : String} (h : ident ∈ allocateMembers names reserved) :
    ∃ i raw, ident = memberBase reserved i raw ∨
      ∃ n, ident = suffixed (memberBase reserved i raw) n := by
  rw [allocateMembers_eq] at h
  obtain ⟨stem, hstem, taken, hallotted⟩ := exists_stem_of_mem h
  obtain ⟨i, hlt, rfl⟩ := List.mem_mapIdx.mp hstem
  exact ⟨i, names[i], hallotted.shape⟩

theorem isIdentifier_of_mem {ident : String} (h : ident ∈ allocateMembers names reserved) :
    isIdentifier ident := by
  obtain ⟨i, raw, rfl | ⟨n, rfl⟩⟩ := exists_memberBase_of_mem h
  · exact isIdentifier_memberBase reserved i raw
  · exact isIdentifier_suffixed (isIdentifier_memberBase reserved i raw) n

theorem not_mem_unfitWords (hreserved : ∀ word ∈ ["_fields", "_pack", "_anonymous"],
    word ∉ reserved) {ident : String} (h : ident ∈ allocateMembers names reserved) :
    ident ∉ unfitWords := by
  obtain ⟨i, raw, rfl | ⟨n, rfl⟩⟩ := exists_memberBase_of_mem h
  · exact memberBase_not_mem_unfitWords i raw hreserved
  · exact suffixed_not_mem_unfitWords _ n

end

/-- **Identifiers of members are safe.** Unless one of the three names has to be given up that
an underscore turns into an attribute, members get as many identifiers as there are names, all
different, and none that is reserved, a keyword or an attribute of the runtime. Each is the one
that its member starts from, or that with the first number that leads to a free name; a name
that is fit to be an identifier and is not taken stays as it is. -/
theorem allocateMembers_safe (names reserved : List String) (hfields : "_fields" ∉ reserved)
    (hpack : "_pack" ∉ reserved) (hanonymous : "_anonymous" ∉ reserved) :
    let idents := allocateMembers names reserved
    idents.length = names.length ∧ idents.Nodup ∧
    (∀ ident ∈ idents, isIdentifier ident ∧ ident ∉ reserved ∧ ident ∉ keywords ∧
      ident ∉ memberReserved) ∧
    ∀ i raw, names[i]? = some raw → ∃ ident, idents[i]? = some ident ∧
      Allotted (idents.take i ++ reserved) (memberBase reserved i raw) ident ∧
      (isIdentifier raw → raw ∉ keywords → raw ∉ memberReserved → raw ∉ reserved →
        raw ∉ idents.take i → ident = raw) := by
  have hreserved : ∀ word ∈ ["_fields", "_pack", "_anonymous"], word ∉ reserved := by
    simp [hfields, hpack, hanonymous]
  intro idents
  refine ⟨length_allocateMembers names reserved, nodup_allocateMembers names reserved,
    fun ident hident => ?_, fun i raw hraw => ?_⟩
  · have hfit := not_mem_unfitWords hreserved hident
    exact ⟨isIdentifier_of_mem hident, not_mem_reserved hident,
      fun h => hfit (List.mem_append_right _ h), fun h => hfit (List.mem_append_left _ h)⟩
  · have hbase : (names.mapIdx (memberBase reserved))[i]? = some (memberBase reserved i raw) := by
      rw [List.getElem?_mapIdx, hraw, Option.map_some]
    obtain ⟨ident, hident, hallotted⟩ := exists_allotted reserved hbase
    rw [← allocateMembers_eq] at hident hallotted
    refine ⟨ident, hident, hallotted, fun hraw hkeyword hmember hfree hbefore => ?_⟩
    have hfit : raw ∉ unfitWords := by simp [unfitWords, hkeyword, hmember]
    rw [memberBase_eq_self i hraw hfit hfree] at hallotted
    refine hallotted.eq_base fun hmem => ?_
    exact (List.mem_append.mp hmem).elim hbefore hfree

example : allocateMembers ["x", "x", "class", "size", "", "x_2"] ["size_", "base_Base"] =
    ["x", "x_2", "class_", "size__2", "unnamed_4", "x_2_2"] := by decide

theorem allocateMembers_safe_crowded :
    let names := ["x", "x", "class", "size", "", "x_2"]
    let reserved := ["size_", "base_Base"]
    let idents := allocateMembers names reserved
    ("_fields" ∉ reserved ∧ "_pack" ∉ reserved ∧ "_anonymous" ∉ reserved) ∧
    idents.length = 6 ∧ idents.Nodup ∧ "size__2" ∈ idents ∧ "size__2" ∉ memberReserved ∧
    ∃ ident, idents[5]? = some ident ∧
      Allotted (idents.take 5 ++ reserved) (memberBase reserved 5 "x_2") ident := by
  intro names reserved idents
  have hreserved : "_fields" ∉ reserved ∧ "_pack" ∉ reserved ∧ "_anonymous" ∉ reserved := by
    decide
  have hsize : "size__2" ∈ idents := by decide
  obtain ⟨hlength, hnodup, hsafe, hallotted⟩ :=
    allocateMembers_safe names reserved hreserved.1 hreserved.2.1 hreserved.2.2
  obtain ⟨ident, hident, hsuffixed, -⟩ := hallotted 5 "x_2" rfl
  exact ⟨hreserved, hlength, hnodup, hsize, (hsafe _ hsize).2.2.2, ident, hident, hsuffixed⟩

end NativeTypes.Naming
