/-
NativeTypes.Proofs.TypeName.Keys — keys of names are keys of themselves, and
listed types are found.

A module lists its types by key, and a type is looked up by the key of the text
that is asked for. So for a listed name to be found it has to be the key of
itself: the text that a name is normalized to must be normalized to the same
text again. Texts that are no type names are collapsed instead, and a collapsed
text must not become a type name.

That is not true of every text. Spelling a name anew leaves out spaces and
marks, and what stood apart before may run together: a name may come to look
like a built-in type or a qualifier, and two references in a row become one.
`keyStands` is the test for this, and `keys_stable` says that it is enough: a
text whose key stands has a key that is the key of itself, and everything that
any catalog lists under that key is found by it. `exists_listed_lost` is a type
that is listed and not found.

The proof has three parts. What is read from a text is spelled by segments of
the grammar, also inside of template arguments (sections 1 and 2): `Yields`
says of a scanner that all values it gives have a property, and it is carried
through the scanners up to `TypeName.isNamed_of_parse`. With the test this
makes the name one that reads back from its own spelling, which is proved
elsewhere. Collapsing twice is collapsing once (section 3). And the tables of a
catalog hold each shape under its own key, whatever was added and in which
order (section 5, by induction on the additions).
-/
import NativeTypes.Proofs.TypeName.Canonical
import NativeTypes.Source.Catalog

namespace NativeTypes

open NativeTypes.Text

/-! ## 1. What is read is named by the grammar

The characters of a segment are those that the scanner for segments takes: an identifier, a name
in angle brackets, or one of the special names. -/

namespace Scanner

variable {α : Type} {cs rest : List Char}

/-- Every proper value that a scanner gives has a property. -/
def Yields (p : Scanner (Option α)) (P : α → Prop) : Prop :=
  ∀ {cs rest : List Char} {a : α}, p cs = some (some a, rest) → P a

/-- Every type name in a value is spelled by segments of the grammar. -/
def AllNamed (ts : List TypeName) : Prop := ∀ u ∈ ts, u.isNamed = true

/-- A row of values, one by one. -/
theorem many_yields {p : Scanner (Option α)} {P : α → Prop} (hp : Yields p P) (cs : List Char) :
    ∀ a, some a ∈ (many p cs).1 → P a := by
  induction cs using many.induct p with
  | case1 cs hnone =>
    rw [many_eq_nil hnone]
    intro a ha
    cases ha
  | case2 cs a rest hsome hlt _ _ _ ih =>
    rw [many_eq_cons hsome hlt]
    intro b hb
    rcases List.mem_cons.mp hb with rfl | hb
    · exact hp hsome
    · exact ih b hb
  | case3 cs a rest hsome hle =>
    rw [many, hsome]
    simp only [if_neg hle]
    intro b hb
    cases hb

/-- A value of a row of proper values is one of the row. -/
theorem mem_of_allSome {found : List (Option α)} {as : List α} (h : allSome found = some as) :
    ∀ a ∈ as, some a ∈ found := by
  induction found generalizing as with
  | nil =>
    cases h
    simp
  | cons o found ih =>
    cases o with
    | none => cases h
    | some b =>
      obtain ⟨bs, hbs, rfl⟩ := Option.map_eq_some_iff.mp h
      intro a ha
      rcases List.mem_cons.mp ha with rfl | ha
      · exact List.mem_cons_self
      · exact List.mem_cons_of_mem _ (ih hbs a ha)

/-- An identifier begins with a letter and goes on with letters and digits. -/
theorem isIdentifier_of_identifier {n : List Char} (h : identifier cs = some (n, rest)) :
    isIdentifier n = true := by
  cases cs with
  | nil => cases h
  | cons c cs =>
    rw [identifier] at h
    split at h
    · rename_i hstart
      cases h
      rw [isIdentifier, hstart, List.all_takeWhile]
      rfl
    · cases h

/-- A name in angle brackets is read with them. -/
theorem isSpecial_of_angled {n : List Char} (h : angled cs = some (n, rest)) :
    isSpecial n = true := by
  unfold angled at h
  split at h
  · rename_i cs
    split at h
    · cases h
    · rename_i hdrop hne
      cases h
      have hinner : ∀ c ∈ cs.takeWhile isSpecialChar, isSpecialChar c = true :=
        List.all_eq_true.mp List.all_takeWhile
      have hclose : ∀ c ∈ ['>'].head?, isSpecialChar c = false := by decide
      obtain ⟨htake, hdrop⟩ := takeWhile_eq_of_head hinner hclose
      simp only [isSpecial, List.cons_append, htake, hdrop]
      simpa using hne
    · cases h
  · cases h

/-- The special names are spelled by a fixed table, or are in angle brackets. -/
theorem isSpecial_of_special {n : List Char} (h : special cs = some (n, rest)) :
    isSpecial n = true := by
  have hexact {text : List Char} (h : exactly text cs = some (n, rest)) : n = text := by
    obtain ⟨x, -, hx⟩ := Option.map_eq_some_iff.mp h
    cases hx
    rfl
  unfold special orElse at h
  split at h
  · rename_i found hfirst
    cases h
    rw [hexact hfirst]
    decide
  · split at h
    · rename_i found hsecond
      cases h
      rw [hexact hsecond]
      decide
    · exact isSpecial_of_angled h

theorem isSegmentName_of_name {n : List Char} (h : name cs = some (n, rest)) :
    isSegmentName n = true := by
  rw [isSegmentName, Bool.or_eq_true]
  unfold name orElse at h
  split at h
  · rename_i found hspecial
    cases h
    exact .inr (isSpecial_of_special hspecial)
  · exact .inl (isIdentifier_of_identifier h)

/-! ## 2. Names inside names

Names stand in the arguments of segments, in these again, and so on. The scanners are nested in
the same way, so the property goes up by one level in `typeName_yields`, and `argument_yields` is
by induction on the levels. -/

variable {argument : Scanner (Option Argument)}

/-- The names inside of arguments, argument by argument. -/
theorem nestedInArguments_eq (as : List Argument) :
    nestedInArguments as = as.flatMap Argument.nested := by
  induction as with
  | nil => rfl
  | cons a as ih => rw [nestedInArguments, ih, List.flatMap_cons]

/-- The names inside of segments, segment by segment. -/
theorem nestedInSegments_eq (ss : List Segment) :
    nestedInSegments ss = ss.flatMap Segment.nested := by
  induction ss with
  | nil => rfl
  | cons s ss ih => rw [nestedInSegments, ih, List.flatMap_cons]

/-- The segments of a path, as they are read: with names of the grammar, also inside. -/
def SegmentNamed (s : Segment) : Prop := isSegmentName s.name.toList = true ∧ AllNamed s.nested

/-- A list of arguments, whether it is empty or not. -/
theorem arguments_yields (h : Yields argument fun a => AllNamed a.nested) :
    Yields (arguments argument) fun as => ∀ a ∈ as, AllNamed a.nested := by
  intro cs rest as hread
  obtain ⟨⟨_, start⟩, -, hread⟩ := Option.bind_eq_some_iff.mp hread
  obtain ⟨_, -, heq⟩ := Option.map_eq_some_iff.mp hread
  have hfound := mem_of_allSome (Prod.mk.inj heq).1
  intro a ha
  cases hfirst : argument start with
  | none =>
    simp only [hfirst] at hfound
    cases hfound a ha
  | some first =>
    simp only [hfirst] at hfound
    rcases List.mem_cons.mp (hfound a ha) with heq | hmore
    · exact h (by rw [hfirst, heq])
    · refine many_yields (P := fun a => AllNamed a.nested) (fun hnext => ?_) _ a hmore
      obtain ⟨_, -, hnext⟩ := Option.bind_eq_some_iff.mp hnext
      exact h hnext

/-- A segment is spelled by the grammar, and so are its arguments. -/
theorem segment_yields (h : Yields argument fun a => AllNamed a.nested) :
    Yields (segment argument) SegmentNamed := by
  intro cs rest s hread
  obtain ⟨⟨n, start⟩, hname, hread⟩ := Option.map_eq_some_iff.mp hread
  have hn := isSegmentName_of_name hname
  simp only at hread
  split at hread
  · rename_i as rest' hargs
    obtain ⟨as', rfl, rfl⟩ := Option.map_eq_some_iff.mp (Prod.mk.inj hread).1
    refine ⟨by simpa [Segment.name] using hn, fun u hu => ?_⟩
    rw [Segment.nested, nestedInArguments_eq] at hu
    obtain ⟨a, ha, hu⟩ := List.mem_flatMap.mp hu
    exact arguments_yields h hargs a ha u hu
  · cases hread
    exact ⟨by simpa [Segment.name] using hn, fun u hu => by cases hu⟩

/-- A base is spelled by segments of the grammar, and so is every type name in it. -/
def BaseNamed (b : BaseName) : Prop := ∀ s ∈ b.segments, SegmentNamed s

/-- A path has the segments that it was read from. -/
theorem segments_pathBase (first : Segment) (tail : List Segment) :
    (pathBase first tail).segments = first :: tail := by
  induction tail generalizing first with
  | nil => rfl
  | cons s ss ih =>
    rw [pathBase]
    have hs := ih s
    cases hpath : pathBase s ss with
    | builtin type =>
      rw [hpath] at hs
      cases hs
    | path scopes last =>
      rw [hpath, BaseName.segments] at hs
      rw [BaseName.segments, List.cons_append, hs]

/-- All segments of a path. -/
theorem path_yields (h : Yields argument fun a => AllNamed a.nested) :
    Yields (path argument) BaseNamed := by
  intro cs rest b hread
  rw [path_eq] at hread
  obtain ⟨⟨first, start⟩, hfirst, hread⟩ := Option.map_eq_some_iff.mp hread
  obtain ⟨s, rfl, htail⟩ := Option.bind_eq_some_iff.mp (Prod.mk.inj hread).1
  obtain ⟨ss, hss, rfl⟩ := Option.map_eq_some_iff.mp htail
  intro s' hs'
  rw [segments_pathBase] at hs'
  rcases List.mem_cons.mp hs' with rfl | hmem
  · exact segment_yields h hfirst
  · refine many_yields (fun hnext => ?_) start s' (mem_of_allSome hss s' hmem)
    obtain ⟨_, -, hnext⟩ := Option.bind_eq_some_iff.mp hnext
    exact segment_yields h hnext

/-- A name: its base, and what stands in it. Suffixes hold no names. -/
theorem typeName_yields (h : Yields argument fun a => AllNamed a.nested) :
    Yields (typeName argument) fun t => AllNamed t.nested := by
  intro cs rest t hread
  obtain ⟨⟨base, start⟩, hbase, hread⟩ := Option.map_eq_some_iff.mp hread
  obtain ⟨b, rfl, hsuffixes⟩ := Option.bind_eq_some_iff.mp (Prod.mk.inj hread).1
  obtain ⟨ss, -, rfl⟩ := Option.map_eq_some_iff.mp hsuffixes
  have hb : BaseNamed b := by
    unfold orElse at hbase
    split at hbase
    · rename_i found hbuiltin
      cases hbase
      unfold builtin at hbuiltin
      split at hbuiltin
      · cases hbuiltin
      · cases hbuiltin
        intro s hs
        cases hs
    · exact path_yields h hbase
  intro u hu
  rw [TypeName.nested] at hu
  rcases List.mem_cons.mp hu with rfl | hu
  · exact isNamed_iff.mpr fun s hs => (hb s hs).1
  · cases b with
    | builtin type => cases hu
    | path scopes last =>
      rw [BaseName.nested, nestedInSegments_eq] at hu
      rcases List.mem_append.mp hu with hu | hu
      · obtain ⟨s, hs, hu⟩ := List.mem_flatMap.mp hu
        exact (hb s (List.mem_append_left _ hs)).2 u hu
      · exact (hb last (List.mem_append_right _ List.mem_cons_self)).2 u hu

/-- By induction on the level of arguments. -/
theorem argument_yields (n : Nat) :
    Yields (Scanner.argument n) fun a => AllNamed a.nested := by
  induction n with
  | zero =>
    intro cs rest a hread
    cases hread
  | succ n ih =>
    intro cs rest a hread
    rw [Scanner.argument] at hread
    simp only at hread
    split at hread
    · obtain ⟨v, -, rfl⟩ := Option.map_eq_some_iff.mp (Prod.mk.inj (Option.some.inj hread)).1
      intro u hu
      cases hu
    · obtain ⟨⟨found, start⟩, hname, hread⟩ := Option.map_eq_some_iff.mp hread
      obtain ⟨t, rfl, rfl⟩ := Option.map_eq_some_iff.mp (Prod.mk.inj hread).1
      exact typeName_yields ih hname

end Scanner

/-- Every type name in a name that was read is spelled by segments of the grammar. -/
theorem TypeName.isNamed_of_parse {text : String} {t : TypeName} (h : parse text = .ok t) :
    ∀ u ∈ t.nested, u.isNamed = true := by
  have hchars : parseChars text.toList = .ok t := by
    unfold parse at h
    cases hread : parseChars text.toList with
    | error e =>
      rw [hread] at h
      cases h
    | ok t' =>
      rw [hread] at h
      cases h
      rfl
  unfold parseChars at hchars
  split at hchars
  · cases hchars
  · split at hchars
    · rename_i t' hscan
      cases hchars
      exact Scanner.typeName_yields (Scanner.argument_yields _) hscan
    · cases hchars
    · cases hchars

/-! ## 3. Collapsed texts

A text that is no type name goes by its words with one space between. Taking it into words again
gives the same ones. -/

namespace Text

/-- The first word, if a blank or nothing follows. -/
theorem words_append {w rest : List Char} (hne : w ≠ []) (hw : ∀ c ∈ w, isBlank c = false)
    (hrest : ∀ c ∈ rest.head?, isBlank c = true) : words (w ++ rest) = w :: words rest := by
  induction w with
  | nil => exact absurd rfl hne
  | cons c w ih =>
    have hc := hw c List.mem_cons_self
    rw [List.cons_append, words, if_neg (by simp [hc])]
    cases w with
    | nil =>
      have hgoes : (rest.head?.any fun d => !isBlank d) = false := by
        cases hd : rest.head? with
        | none => rfl
        | some d => simp [hrest d hd]
      rw [List.nil_append, hgoes]
      cases words rest <;> rfl
    | cons d w =>
      have hd := hw d (List.mem_cons_of_mem c List.mem_cons_self)
      rw [ih (List.cons_ne_nil d w) fun x hx => hw x (List.mem_cons_of_mem c hx)]
      simp [consWord, hd]

/-- Words with single spaces between are those words. -/
theorem words_intercalate {ws : List (List Char)}
    (hws : ∀ w ∈ ws, w ≠ [] ∧ ∀ c ∈ w, isBlank c = false) :
    words (List.intercalate [' '] ws) = ws := by
  induction ws with
  | nil => rfl
  | cons w ws ih =>
    obtain ⟨hne, hw⟩ := hws w List.mem_cons_self
    have htail := ih fun v hv => hws v (List.mem_cons_of_mem w hv)
    cases ws with
    | nil =>
      have hone : words (w ++ []) = [w] := words_append hne hw (by simp)
      rw [List.append_nil] at hone
      rw [List.intercalate_singleton, hone]
    | cons v vs =>
      rw [List.intercalate_cons_cons, List.append_assoc, words_append hne hw (by simp; decide)]
      rw [List.singleton_append, words, if_pos (by decide), htail]

/-- So collapsing changes a text only once. -/
theorem collapse_idempotent (cs : List Char) : collapse (collapse cs) = collapse cs := by
  have hwords : words (collapse cs) = words cs :=
    words_intercalate fun w hw => ⟨words_ne_nil hw, fun _ hc => not_isBlank_of_mem_words hw hc⟩
  rw [collapse, hwords]
  rfl

end Text

/-! ## 4. Keys -/

namespace TypeName

/-- The key of a text means what the text means: no type name in it would be read differently
without its spaces and marks, and a text that is no type name does not become one. -/
def keyStands (text : String) : Bool :=
  match parse text with
  | .ok t => t.nested.all isDistinct
  | .error _ => (parse? (String.ofList (collapse text.toList))).isNone

/-- A key that stands is the key of itself. -/
theorem nameKey?_of_keyStands {text key : String} (h : nameKey? text = some key)
    (hstands : keyStands text = true) : nameKey? key = some key := by
  cases hparse : parse text with
  | ok t =>
    simp only [nameKey?, keyStands, hparse, List.all_eq_true] at h hstands
    have ht : t.WellFormed := fun u hu => ⟨isNamed_of_parse hparse u hu, hstands u hu⟩
    obtain ⟨hwritable, rfl⟩ : t.isWritable = true ∧ t.format = key := by
      simpa [written?] using h
    simp only [nameKey?, parse_format ht hwritable, written?, if_pos hwritable]
  | error e =>
    simp only [nameKey?, keyStands, hparse, Option.some.injEq] at h hstands
    subst h
    cases hkey : parse (String.ofList (collapse text.toList)) with
    | ok t =>
      rw [parse?, hkey] at hstands
      cases hstands
    | error e => simp only [nameKey?, hkey, String.toList_ofList, collapse_idempotent]

end TypeName

/-! ## 5. Listed names

The tables of a module are built by additions, with look-ups in between; look-ups change nothing
but what is noted of them. -/

/-- The tables that a run of additions leads to. -/
inductive Catalog.Built : Catalog → Prop
  | empty : Built {}
  | addModule {c : Catalog} (module : String) (pointerSize : Int) :
      Built c → Built (c.addModule module pointerSize)
  | add {c : Catalog} (module : String) (shape : Shape) (id : Option Int) :
      Built c → Built (c.add module shape id)
  | lookup {c : Catalog} (module : String) (ref : Ref) :
      Built c → Built (c.lookup module ref).2

namespace ModuleTable

/-- Every shape stands once in the name table, under its own key. -/
structure Keyed (table : ModuleTable) : Prop where
  nodup : (table.byName.map Prod.fst).Nodup
  key : ∀ name shape, table.byName.get? name = some shape → keyOf? shape = some name

/-- An addition puts a shape under its own key, or only under its id. -/
theorem Keyed.add {table : ModuleTable} (h : table.Keyed) (shape : Shape) (id : Option Int) :
    (table.add shape id).Keyed := by
  have hid : (table.addId (withId shape id) id).byName = table.byName := by
    cases id <;> rfl
  rw [ModuleTable.add, addName]
  split
  · exact ⟨by rw [hid]; exact h.nodup, by rw [hid]; exact h.key⟩
  · rename_i key hkey
    split
    · exact ⟨by rw [hid]; exact h.nodup, by rw [hid]; exact h.key⟩
    · refine ⟨by simpa only [hid] using Assoc.nodup_put h.nodup key _, fun name other hget => ?_⟩
      simp only [hid, Assoc.get?_put] at hget
      split at hget
      · rename_i heq
        cases hget
        rw [← heq, hkey]
      · exact h.key name other hget

end ModuleTable

namespace Catalog

/-- By induction on what was added. -/
theorem Built.keyed {c : Catalog} (h : c.Built) {module : String} {table : ModuleTable}
    (htable : c.tables.get? module = some table) : table.Keyed := by
  have hnew {c : Catalog} (ih : ∀ {module table}, c.tables.get? module = some table → table.Keyed)
      (module : String) : (c.tableOrNew module).Keyed := by
    rw [tableOrNew]
    cases hget : c.tables.get? module with
    | none => exact ⟨List.nodup_nil, fun _ _ h => by cases h⟩
    | some table => exact ih hget
  induction h generalizing module table with
  | empty => cases htable
  | @addModule c other size _ ih =>
    simp only [Catalog.addModule, Assoc.get?_put] at htable
    split at htable
    · cases htable
      exact ⟨(hnew ih other).nodup, (hnew ih other).key⟩
    · exact ih htable
  | @add c other shape id _ ih =>
    simp only [Catalog.add, Assoc.get?_put] at htable
    split at htable
    · cases htable
      exact (hnew ih other).add shape id
    · exact ih htable
  | lookup other ref _ ih => exact ih htable

/-- The shape that a module lists under a name. -/
def listed? (c : Catalog) (module name : String) : Option Shape :=
  (c.tables.get? module).bind fun table => table.byName.get? name

/-- A name that a module lists is the key of the shape listed under it. -/
theorem Built.exists_listed {c : Catalog} (h : c.Built) {module name : String}
    {names : List String} (hnames : c.typeNames module = .ok names) (hname : name ∈ names) :
    ∃ shape : Shape, c.listed? module name = some shape ∧
      TypeName.nameKey? shape.name = some name := by
  rw [Catalog.typeNames, Catalog.table] at hnames
  cases htable : c.tables.get? module with
  | none =>
    rw [htable] at hnames
    cases hnames
  | some table =>
    rw [htable] at hnames
    cases hnames
    simp only [ModuleTable.typeNames, List.mem_mergeSort, List.mem_map, List.mem_filter] at hname
    obtain ⟨⟨key, shape⟩, ⟨hmem, -⟩, rfl⟩ := hname
    have hkeyed := h.keyed htable
    have hget := Assoc.get?_of_mem hkeyed.nodup hmem
    refine ⟨shape, by rw [listed?, htable]; exact hget, ?_⟩
    have hkey := hkeyed.key _ _ hget
    rw [ModuleTable.keyOf?] at hkey
    split at hkey
    · cases hkey
    · exact hkey

/-- What is listed under a name that is its own key is found by it. -/
theorem lookup_of_listed {c : Catalog} {module name : String} {shape : Shape}
    (hkey : TypeName.nameKey? name = some name) (hlisted : c.listed? module name = some shape) :
    (c.lookup module (.name name)).1 = .ok (some shape) := by
  obtain ⟨table, htable, hget⟩ := Option.bind_eq_some_iff.mp hlisted
  have hfound : table.lookup (.name name) = .ok (some shape) := by
    simp only [ModuleTable.lookup, hkey, hget]
  have hquery : c.shape? module (.name name) =
      (table.lookup (.name name)).mapError .primitive := by
    rw [shape?, Catalog.table, htable]
    rfl
  rw [Catalog.lookup, hquery, hfound]
  rfl

/-- **A key that stands is the key of itself, and what is listed under it is found.** A key stands
unless a type name in it would be read differently without its spaces and marks: as a built-in
type or qualifier, or with two references taken for one (`TypeName.isDistinct`). -/
theorem keys_stable {text key : String} (hkey : TypeName.nameKey? text = some key)
    (hstands : TypeName.keyStands text = true) :
    TypeName.nameKey? key = some key ∧
    ∀ c : Catalog, c.Built → ∀ module names, c.typeNames module = .ok names → key ∈ names →
      ∃ shape : Shape, c.listed? module key = some shape ∧
        TypeName.nameKey? shape.name = some key ∧
        (c.lookup module (.name key)).1 = .ok (some shape) := by
  have hself := TypeName.nameKey?_of_keyStands hkey hstands
  refine ⟨hself, fun c hc module names hnames hname => ?_⟩
  obtain ⟨shape, hlisted, hshape⟩ := hc.exists_listed hnames hname
  exact ⟨shape, hlisted, hshape, lookup_of_listed hself hlisted⟩

/-- A struct under a name with spaces and a mark in front. -/
def spacedStruct : Shape := { kind := .struct, name := ":: ns :: Foo<int ,unsigned>" }

theorem keys_stable_spacedStruct :
    TypeName.nameKey? "ns::Foo<int, unsigned int>" = some "ns::Foo<int, unsigned int>" ∧
      ((add {} "m" spacedStruct none).lookup "m" (.name "ns::Foo<int, unsigned int>")).1 =
        .ok (some spacedStruct) := by
  have hkey : TypeName.nameKey? spacedStruct.name = some "ns::Foo<int, unsigned int>" := by
    decide +kernel
  have hstands : TypeName.keyStands spacedStruct.name = true := by decide +kernel
  have hnames : (add {} "m" spacedStruct none).typeNames "m" =
      .ok ["ns::Foo<int, unsigned int>"] := by
    decide +kernel
  have hlisted : (add {} "m" spacedStruct none).listed? "m" "ns::Foo<int, unsigned int>" =
      some spacedStruct := by
    decide +kernel
  obtain ⟨hself, hall⟩ := keys_stable hkey hstands
  obtain ⟨shape, hshape, -, hfound⟩ := hall _ (Built.empty.add "m" spacedStruct none) "m" _ hnames
    List.mem_cons_self
  cases hlisted.symm.trans hshape
  exact ⟨hself, hfound⟩

/-- Not every listed name is found: without the space between them two references become one. -/
theorem exists_listed_lost : ∃ (c : Catalog) (module name : String), c.Built ∧
    c.typeNames module = .ok [name] ∧ (c.lookup module (.name name)).1 = .ok none ∧
      TypeName.nameKey? name ≠ some name :=
  ⟨add {} "m" { kind := .struct, name := "Holder<Foo& &>" } none, "m", "Holder<Foo&&>",
    Built.empty.add "m" _ none, by decide +kernel, by decide +kernel, by decide +kernel⟩

end Catalog

end NativeTypes
