import LuaHost.Configuration
import LuaHost.Proofs.RecordOrder
/-!
Which documents are accepted as a configuration. The valid ones are described by themselves, without the order in
which they are checked: each gives one configuration, and every other document is refused with an error that says
so. One kind of document is refused in another way, a list of libraries with an item that has no text.
-/

namespace LuaHost

open Yaml (Node)

/-! ### Values that have no text -/

namespace Yaml.Node

/-- A value without a text: a mapping with an entry in place of its text, or a list that holds such a value. -/
inductive Textless : Node → Prop
  | mapping {entries : List (Node × Node)} {key value : Node} (mem : (key, value) ∈ entries)
      (replaced : key.keyText = textKey) : Textless (.map entries)
  | list {items : List Node} {item : Node} (mem : item ∈ items) (textless : Textless item) : Textless (.list items)

theorem textless_map {entries : List (Node × Node)} :
    Textless (.map entries) ↔ ∃ entry ∈ entries, entry.1.keyText = textKey := by
  constructor
  · intro textless
    cases textless with
    | mapping mem replaced => exact ⟨_, mem, replaced⟩
  · rintro ⟨⟨key, value⟩, mem, replaced⟩
    exact .mapping mem replaced

theorem textless_list {items : List Node} : Textless (.list items) ↔ ∃ item ∈ items, Textless item := by
  constructor
  · intro textless
    cases textless with
    | list mem inner => exact ⟨_, mem, inner⟩
  · rintro ⟨item, mem, textless⟩
    exact .list mem textless

/-- In a list null is written as nothing, which is a text as well. -/
theorem listTexts?_cons (n : Node) (rest : List Node) :
    listTexts? (n :: rest) = none ↔ n.text? = none ∨ listTexts? rest = none := by
  by_cases null : n = .null
  · rw [null]
    cases told : listTexts? rest <;> simp [listTexts?, text?, told]
  · rw [listTexts?]
    · cases n.text? <;> cases listTexts? rest <;> simp
    · exact null

mutual

theorem text?_eq_none : (n : Node) → (n.text? = none ↔ Textless n)
  | .list items => by
      rw [text?, Option.map_eq_none_iff, listTexts?_eq_none items, textless_list]
  | .map entries => by
      rw [text?, textless_map]
      split
      · next replaced => simpa using replaced
      · next kept => simpa using kept
  | .null | .bool _ | .number _ | .string _ | .enclosing => by
      rw [text?]
      exact ⟨nofun, nofun⟩

theorem listTexts?_eq_none : (items : List Node) → (listTexts? items = none ↔ ∃ item ∈ items, Textless item)
  | [] => by simp [listTexts?]
  | n :: rest => by
      rw [listTexts?_cons, text?_eq_none n, listTexts?_eq_none rest]
      simp

end

end Yaml.Node

/-! ### Lists of libraries -/

theorem StandardLibrary.ofName?_eq_some {name : String} {l : StandardLibrary} :
    ofName? name = some l ↔ name = l.name := by
  constructor
  · intro found
    have same := List.find?_some found
    exact (beq_iff_eq.mp same).symm
  · rintro rfl
    cases l <;> decide

namespace Configuration

/-- The value that names a library. -/
def naming (l : StandardLibrary) : Node := .string l.name

variable {n item : Node} {items : List Node} {libraries : List StandardLibrary}

theorem libraryOf_naming (l : StandardLibrary) : libraryOf (naming l) = .ok l := by
  unfold libraryOf naming
  dsimp only
  rw [StandardLibrary.ofName?_eq_some.mpr rfl]

/-- A value that names no library is told by its text, if it has one. -/
theorem libraryOf_unnamed (unnamed : ∀ l, n ≠ naming l) :
    libraryOf n = .error (n.text?.elim .namelessLibrary .unknownLibrary) := by
  have none : ∀ s, n = .string s → StandardLibrary.ofName? s = Option.none := by
    rintro s rfl
    refine Option.eq_none_iff_forall_not_mem.mpr fun l found => unnamed l ?_
    exact congrArg Node.string (StandardLibrary.ofName?_eq_some.mp found)
  cases n with
  | string s =>
      unfold libraryOf
      dsimp only
      rw [none s rfl]
      rfl
  | null | bool _ | number _ | list _ | map _ | enclosing =>
      unfold libraryOf
      dsimp only
      split
      · next text told => rw [told]; rfl
      · next untold => rw [untold]; rfl

theorem textless_unnamed (textless : n.Textless) (l : StandardLibrary) : n ≠ naming l := by
  rintro rfl
  exact nomatch textless

/-- The items of a list name libraries, or the first that does not decides what is told. -/
theorem libraries_cases (items : List Node) :
    (∃ libraries : List StandardLibrary, items = libraries.map naming) ∨
      ∃ (named : List StandardLibrary) (item : Node) (rest : List Node), items = named.map naming ++ item :: rest ∧
        ∀ l, item ≠ naming l := by
  induction items with
  | nil => exact .inl ⟨[], rfl⟩
  | cons first rest ih =>
      by_cases names : ∃ l, first = naming l
      · obtain ⟨l, rfl⟩ := names
        rcases ih with ⟨libraries, rfl⟩ | ⟨named, item, rest, rfl, unnamed⟩
        · exact .inl ⟨l :: libraries, rfl⟩
        · exact .inr ⟨l :: named, item, rest, rfl, unnamed⟩
      · exact .inr ⟨[], first, rest, rfl, fun l same => names ⟨l, same⟩⟩

theorem mapM_named (libraries : List StandardLibrary) :
    (libraries.map naming).mapM libraryOf = .ok libraries := by
  induction libraries with
  | nil => rfl
  | cons l rest ih =>
      rw [List.map_cons, List.mapM_cons, libraryOf_naming, ih]
      rfl

theorem mapM_unnamed {e : ConfigurationError} (refused : libraryOf item = .error e)
    (named : List StandardLibrary) (rest : List Node) :
    (named.map naming ++ item :: rest).mapM libraryOf = .error e := by
  rw [List.mapM_append, mapM_named, List.mapM_cons, refused]
  rfl

/-! ### Documents -/

/-- The entries of a mapping under the texts of their keys. -/
def named (entries : List (Node × Node)) : List (String × Node) := entries.map fun (k, v) => (k.keyText, v)

/-- All keys of a mapping are ones that a configuration has. -/
def Known (entries : List (Node × Node)) : Prop :=
  ∀ entry ∈ named entries, entry.1 = librariesKey ∨ entry.1 = pathKey

/-- What a mapping has under a key; the last entry counts. -/
def under (key : String) (entries : List (Node × Node)) : Option Node := (named entries).reverse.lookup key

/-- The choice of libraries that a value stands for. -/
inductive Chooses : Option Node → LibraryChoice → Prop
  | default : Chooses none .all
  | all : Chooses (some (.string allLibraries)) .all
  | only (libraries : List StandardLibrary) : Chooses (some (.list (libraries.map naming))) (.only libraries)

/-- The path that a value stands for. -/
inductive Leads : Option Node → Option String → Prop
  | default : Leads none none
  | given (path : String) : Leads (some (.string path)) (some path)

/-- A document that is a configuration, and which one. An empty document is the one by default. -/
inductive Valid : Node → Configuration → Prop
  | empty : Valid .null { libraries := .all, packagePath := none }
  | mapping {entries : List (Node × Node)} {c : Configuration} (known : Known entries)
      (libraries : Chooses (under librariesKey entries) c.libraries)
      (path : Leads (under pathKey entries) c.packagePath) : Valid (.map entries) c

/-- A document in which the first item that names no library has no text to tell it by. -/
inductive Nameless : Node → Prop
  | mapping {entries : List (Node × Node)} {item : Node} {rest : List Node} (known : Known entries)
      (before : List StandardLibrary) (textless : item.Textless)
      (libraries : under librariesKey entries = some (.list (before.map naming ++ item :: rest))) :
      Nameless (.map entries)

/-- What becomes of a document. -/
inductive Judged (n : Node) : Except ConfigurationError Configuration → Prop
  | accepted {c : Configuration} (valid : Valid n c) (only : ∀ other, Valid n other → other = c) :
      Judged n (.ok c)
  | refused {e : ConfigurationError} (invalid : ∀ c, ¬ Valid n c) (told : ¬ Nameless n) (reason : String)
      (thrown : e.thrown = .exception (.ofMessage .error ("Invalid configuration: " ++ reason))) :
      Judged n (.error e)
  | nameless {e : ConfigurationError} (invalid : ∀ c, ¬ Valid n c) (untold : Nameless n)
      (thrown : e.thrown = Thrown.noText) : Judged n (.error e)

variable {entries : List (Node × Node)} {c : Configuration}

theorem record_find (key : String) (entries : List (Node × Node)) :
    ((Record.ofEntries (named entries)).find? (·.1 == key)).map (·.2) = under key entries :=
  (Record.ofEntries_isOrdered (named entries)).find key

theorem unknown_iff (name : String) :
    (name != librariesKey && name != pathKey) = true ↔ ¬ (name = librariesKey ∨ name = pathKey) := by
  simp

/-- A key that is not known is told before anything else. -/
theorem ofNode_unknown (unknown : ¬ Known entries) : ∃ key, ofNode (.map entries) = .error (.unknownKey key) := by
  rw [ofNode, ← named, ofEntries]
  split
  · next e _ => exact ⟨e.1, rfl⟩
  · next absent =>
      refine absurd (fun entry mem => ?_) unknown
      have kept := (Record.mem_names_of_last (Record.ofEntries_isOrdered (named entries)).last).mpr
        (List.mem_map_of_mem mem)
      obtain ⟨e, mem, same⟩ := List.mem_map.mp kept
      have known := List.find?_eq_none.mp absent e mem
      rwa [unknown_iff, not_not, same] at known

/-- With known keys, the libraries are looked at before the path. -/
theorem ofNode_known (known : Known entries) : ofNode (.map entries) = (do
    let libraries ← (under librariesKey entries).elim (.ok .all) librariesOf
    let packagePath ← (under pathKey entries).elim (.ok none) fun n => some <$> pathOf n
    return { libraries, packagePath }) := by
  rw [ofNode, ← named, ofEntries]
  split
  · next e found =>
      have mem := List.mem_of_find?_eq_some found
      have given := (Record.mem_names_of_last (Record.ofEntries_isOrdered (named entries)).last).mp
        (List.mem_map_of_mem mem)
      obtain ⟨entry, given, same⟩ := List.mem_map.mp given
      have known := known entry given
      rw [same] at known
      have unknown := List.find?_some found
      exact absurd known ((unknown_iff e.1).mp unknown)
  · simp only [record_find]
    cases under librariesKey entries <;> cases under pathKey entries <;> rfl

/-! ### Judgement -/

theorem Chooses.chosen {value : Option Node} {choice : LibraryChoice} (chooses : Chooses value choice) :
    value.elim (.ok .all) librariesOf = .ok choice := by
  cases chooses with
  | default => rfl
  | all => rfl
  | only libraries =>
      rw [Option.elim, librariesOf, mapM_named]
      rfl

theorem Leads.led {value : Option Node} {path : Option String} (leads : Leads value path) :
    value.elim (.ok none) (fun n => some <$> pathOf n) = .ok path := by
  cases leads <;> rfl

theorem Valid.accepted (valid : Valid n c) : ofNode n = .ok c := by
  cases valid with
  | empty => rfl
  | mapping known libraries path =>
      rw [ofNode_known known, libraries.chosen, path.led]
      rfl

theorem Nameless.untold (nameless : Nameless n) : ofNode n = .error .namelessLibrary := by
  cases nameless with
  | @mapping _ item _ known before textless libraries =>
      have refused : libraryOf item = .error .namelessLibrary := by
        rw [libraryOf_unnamed (textless_unnamed textless), (Node.text?_eq_none item).mpr textless]
        rfl
      rw [ofNode_known known, libraries, Option.elim, librariesOf, mapM_unnamed refused]
      rfl

/-- A value is a choice of libraries, or a list with an item that cannot be told, or is told to be neither. -/
theorem libraries_judged (value : Option Node) :
    (∃ choice, Chooses value choice) ∨
      (∃ (before : List StandardLibrary) (item : Node) (rest : List Node),
        value = some (.list (before.map naming ++ item :: rest)) ∧ item.Textless) ∨
      ∃ e, value.elim (.ok .all) librariesOf = .error e ∧ e ≠ .namelessLibrary := by
  cases value with
  | none => exact .inl ⟨.all, .default⟩
  | some value =>
      cases value with
      | string s =>
          by_cases all : s = allLibraries
          · exact .inl ⟨.all, all ▸ .all⟩
          · exact .inr (.inr ⟨.noLibraries, by simp [librariesOf, all], nofun⟩)
      | list items =>
          rcases libraries_cases items with ⟨libraries, rfl⟩ | ⟨before, item, rest, rfl, unnamed⟩
          · exact .inl ⟨.only libraries, .only libraries⟩
          · have refused := libraryOf_unnamed unnamed
            cases told : item.text? with
            | none => exact .inr (.inl ⟨before, item, rest, rfl, (Node.text?_eq_none item).mp told⟩)
            | some text =>
                rw [told] at refused
                refine .inr (.inr ⟨.unknownLibrary text, ?_, nofun⟩)
                rw [Option.elim, librariesOf, mapM_unnamed refused]
                rfl
      | null | bool _ | number _ | map _ | enclosing => exact .inr (.inr ⟨.noLibraries, rfl, nofun⟩)

theorem path_judged (value : Option Node) :
    (∃ path, Leads value path) ∨ value.elim (.ok none) (fun n => some <$> pathOf n) = .error .noPath := by
  cases value with
  | none => exact .inl ⟨none, .default⟩
  | some value =>
      cases value with
      | string path => exact .inl ⟨some path, .given path⟩
      | null | bool _ | number _ | list _ | map _ | enclosing => exact .inr rfl

/-- A document is valid, or holds what cannot be told, or is refused for a reason that can. -/
theorem ofNode_cases (n : Node) :
    (∃ c, Valid n c) ∨ Nameless n ∨ ∃ e, ofNode n = .error e ∧ e ≠ .namelessLibrary := by
  cases n with
  | null => exact .inl ⟨{}, .empty⟩
  | map entries =>
      by_cases known : Known entries
      · have outcome := ofNode_known known
        rcases libraries_judged (under librariesKey entries) with
          ⟨choice, chooses⟩ | ⟨before, item, rest, libraries, textless⟩ | ⟨e, refused, told⟩
        · rcases path_judged (under pathKey entries) with ⟨path, leads⟩ | refused
          · exact .inl ⟨⟨choice, path⟩, .mapping known chooses leads⟩
          · rw [chooses.chosen, refused] at outcome
            exact .inr (.inr ⟨.noPath, outcome, nofun⟩)
        · exact .inr (.inl (.mapping known before textless libraries))
        · rw [refused] at outcome
          exact .inr (.inr ⟨e, outcome, told⟩)
      · obtain ⟨key, refused⟩ := ofNode_unknown known
        exact .inr (.inr ⟨.unknownKey key, refused, nofun⟩)
  | bool _ | number _ | string _ | list _ | enclosing => exact .inr (.inr ⟨.noMapping, rfl, nofun⟩)

theorem thrown_told {e : ConfigurationError} (told : e ≠ .namelessLibrary) :
    e.thrown = .exception (.ofMessage .error ("Invalid configuration: " ++ e.reason)) := by
  cases e with
  | namelessLibrary => exact absurd rfl told
  | _ => rfl

theorem ofNode_judged (n : Node) : Judged n (ofNode n) := by
  rcases ofNode_cases n with ⟨c, valid⟩ | nameless | ⟨e, refused, told⟩
  · rw [valid.accepted]
    exact .accepted valid fun other another => Except.ok.inj (another.accepted.symm.trans valid.accepted)
  · have untold := nameless.untold
    rw [untold]
    refine .nameless (fun c valid => ?_) nameless rfl
    exact nomatch untold.symm.trans valid.accepted
  · rw [refused]
    refine .refused (fun c valid => ?_) (fun nameless => ?_) e.reason (thrown_told told)
    · exact nomatch refused.symm.trans valid.accepted
    · exact told (Except.error.inj (refused.symm.trans nameless.untold))

theorem ofBytes_eq (content : ByteArray) :
    ofBytes content = (Yaml.parse? (Text.ofBytes content)).elim (.error .noDocument) ofNode := by
  unfold ofBytes
  generalize Yaml.parse? (Text.ofBytes content) = document
  cases document <;> rfl

/-- A document is judged as it has to be, and the content of a file as the document that it is. A valid document gives
the one configuration that it stands for; any other is refused by an error that says so, but for a library that has no
text to tell it by, where the attempt to tell it fails. -/
theorem documents_judged (n : Node) : Judged n (ofNode n) ∧
    ∀ path content, ofOutcome path (.ok content) =
      some <$> (Yaml.parse? (Text.ofBytes content)).elim (.error .noDocument) ofNode :=
  ⟨ofNode_judged n, fun _ content => congrArg (some <$> ·) (ofBytes_eq content)⟩

end Configuration

end LuaHost
