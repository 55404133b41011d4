import LuaHost.Proofs.Programs
/-!
Walks along paths of names through tables that have no metatables: where a path leads, what a walk that only
looks finds there, and what a walk that assigns leaves behind. An assignment changes one cell of the heap it
finds; what is missing behind that cell is made of new tables.
-/

namespace LuaHost.Guest

namespace Table
variable {t : Table} {name : String} {v : Value}

/-- A table was made from another by giving a name a value. -/
structure Sets (t t' : Table) (name : String) (v : Value) : Prop where
  made : t' = t.setText name v
  found : t'.getText name = v
  removed : v.isNil = true → t'.index[Key.string (Text.encode name)]? = none
  others : ∀ k, k ≠ .string (Text.encode name) → t'.getKey k = t.getKey k
  metatable : t'.metatable = t.metatable

theorem remove_absent (t : Table) (k : Key) : (t.remove k).index[k]? = none := by
  rw [remove]
  split
  · next absent => exact absent
  · simp

theorem getKey_insert (t : Table) (k : Key) (key v : Value) : (t.insert k key v).getKey k = v := by
  rw [insert]
  split
  all_goals simp [getKey]

theorem metatable_setKey (t : Table) (k : Key) (key v : Value) :
    (t.setKey k key v).metatable = t.metatable := by
  rw [setKey, remove, insert]
  split
  all_goals split <;> rfl

theorem setText_sets (t : Table) (name : String) (v : Value) : t.Sets (t.setText name v) name v where
  made := rfl
  found := by
    have set : t.setText name v = t.setKey (.string (Text.encode name)) (ofText name) v := rfl
    rw [set, setKey, getText]
    cases removes : v.isNil with
    | true =>
        obtain rfl : v = .nil := by
          cases v with
          | nil => rfl
          | _ => cases removes
        rw [if_pos rfl, getKey, remove_absent]
    | false =>
        rw [if_neg Bool.false_ne_true, getKey_insert]
  removed := by
    intro removes
    have set : t.setText name v = t.remove (.string (Text.encode name)) := by
      rw [setText, Table.set]
      exact if_pos removes
    rw [set, remove_absent]
  others := fun _ unlike => getKey_setKey (Ne.symm unlike) _ _
  metatable := t.metatable_setKey _ _ v

theorem Sets.getText {t' : Table} (sets : t.Sets t' name v) {other : String} (unlike : other ≠ name) :
    t'.getText other = t.getText other :=
  sets.others _ fun same => unlike (Text.encode_inj (Key.string.inj same))

end Table

namespace Store
variable {s s' : Store} {v : Value}

/-- What is behind a value along a path; there is nothing behind a value that is no table. -/
def behind (s : Store) : List String → Value → Option Value
  | [], v => some v
  | name :: rest, .table id => s.behind rest ((s.table id).getText name)
  | _ :: _, _ => none

/-- What a path leads to from the globals. -/
def resolve (s : Store) (path : List String) : Option Value := s.behind path (.table s.globals)

/-- A table of the heap has no metatable. -/
def IsPlain (s : Store) (id : Nat) : Prop := ∃ t, s.tables[id]? = some t ∧ t.metatable = none

/-- No table that is met on the way from a value along a path has a metatable. -/
def Plain (s : Store) : List String → Value → Prop
  | name :: rest, .table id => s.IsPlain id ∧ s.Plain rest ((s.table id).getText name)
  | _, _ => True

/-- The way from a value along a path goes through the cell that a table has under a name. -/
def Reads (s : Store) (table : Nat) (key : String) : List String → Value → Prop
  | name :: rest, .table id =>
    (id = table ∧ name = key) ∨ s.Reads table key rest ((s.table id).getText name)
  | _, _ => False

/-- The way from a value along a path goes through a table. -/
def Passes (s : Store) (table : Nat) : List String → Value → Prop
  | name :: rest, .table id => id = table ∨ s.Passes table rest ((s.table id).getText name)
  | _, _ => False

theorem behind_append (s : Store) (path rest : List String) (v : Value) :
    s.behind (path ++ rest) v = (s.behind path v).bind (s.behind rest) := by
  induction path generalizing v with
  | nil => rfl
  | cons name path ih =>
      cases v with
      | table id => exact ih _
      | _ => rfl

/-- Whatever there is something behind is a table. -/
theorem table_of_behind {name : String} {rest : List String} {u : Value}
    (there : s.behind (name :: rest) v = some u) : ∃ id, v = .table id := by
  cases v with
  | table id => exact ⟨id, rfl⟩
  | _ => exact nomatch there

/-- On the way to something there are tables only. -/
theorem behind_shorter {path rest : List String} {name : String} {u : Value}
    (there : s.behind (path ++ name :: rest) v = some u) : ∃ id, s.behind path v = some (.table id) := by
  rw [behind_append] at there
  obtain ⟨u', here, there⟩ := Option.bind_eq_some_iff.mp there
  obtain ⟨id, rfl⟩ := table_of_behind there
  exact ⟨id, here⟩

theorem behind_prefix {path rest : List String} {id : Nat}
    (there : s.behind (path ++ rest) v = some (.table id)) : ∃ id', s.behind path v = some (.table id') := by
  cases rest with
  | nil => exact ⟨id, by rwa [List.append_nil] at there⟩
  | cons name rest => exact behind_shorter there

theorem plain_append {path rest : List String} :
    s.Plain (path ++ rest) v ↔ s.Plain path v ∧ ∀ u, s.behind path v = some u → s.Plain rest u := by
  induction path generalizing v with
  | nil => simp [Plain, behind]
  | cons name path ih =>
      cases v with
      | table id => simp only [List.cons_append, Plain, behind, ih, and_assoc]
      | _ => simp [Plain, behind]

theorem IsPlain.bound {id : Nat} (plain : s.IsPlain id) : id < s.tables.size := by
  obtain ⟨t, found, -⟩ := plain
  exact (Array.getElem?_eq_some_iff.mp found).1

theorem IsPlain.metatable {id : Nat} (plain : s.IsPlain id) : (s.table id).metatable = none := by
  obtain ⟨t, found, metatable⟩ := plain
  rw [table, Array.getD_eq_getD_getElem?, found]
  exact metatable

theorem isPlain_of_bound {id : Nat} (bound : id < s.tables.size)
    (metatable : (s.table id).metatable = none) : s.IsPlain id := by
  have found := Array.getElem?_eq_getElem bound
  refine ⟨s.tables[id], found, ?_⟩
  rwa [table, Array.getD_eq_getD_getElem?, found] at metatable

theorem read_plain {id : Nat} (plain : s.IsPlain id) (name : String) :
    s.read (.table id) (ofText name) = .value ((s.table id).getText name) := by
  have found : (s.table id).get (ofText name) = (s.table id).getText name := rfl
  rw [read, maxChain, readFrom]
  simp only [found, plain.metatable]
  cases (s.table id).getText name <;> rfl

theorem write_plain {id : Nat} (plain : s.IsPlain id) (key : Value) :
    s.write (.table id) key = .slot id := by
  rw [write, maxChain, writeFrom]
  simp only [plain.metatable]

theorem table_modifyTable (s : Store) {id : Nat} (bound : id < s.tables.size) (f : Table → Table) (j : Nat) :
    (s.modifyTable id f).table j = if j = id then f (s.table id) else s.table j := by
  rw [table, modifyTable, getD_modify]
  by_cases here : j = id
  · subst here
    rw [if_pos ⟨rfl, bound⟩, if_pos rfl]
    rfl
  · rw [if_neg (fun both => here both.1.symm), if_neg here]
    rfl

theorem table_newTable_other (s : Store) (t : Table) {j : Nat} (other : j ≠ s.tables.size) :
    (s.newTable t).1.table j = s.table j := by
  simp only [table, newTable, Array.getD_eq_getD_getElem?, Array.getElem?_push, if_neg other]

end Store

/-! ### Walks that look -/

section
variable {slots : Slots} {top : Nat} {s : Store}

theorem index_yields (slots : Slots) (top : Nat) {id : Nat} (plain : s.IsPlain id) (name : String) :
    (Act.index (.table id) (ofText name)).Yields slots top s s ((s.table id).getText name) := by
  intro k s'' values rest
  refine .query ?_
  simp only [s.read_plain plain]
  exact rest

theorem setIndex_yields {id : Nat} (plain : s.IsPlain id) (name : String) (v : Value) :
    (Act.setIndex (.table id) (ofText name) v).Yields slots top s
      (s.modifyTable id (·.setText name v)) () := by
  intro k s'' values rest
  refine .query ?_
  simp only [s.write_plain plain]
  exact .update rest

/-- What a walk finds where a path leads. -/
def found : Option Value → List Value
  | some v => if v.isNil then [] else [v]
  | none => []

theorem follow_yields {path : List String} {v : Value} (plain : s.Plain path v) :
    (Path.follow path v).Yields slots top s s (found (s.behind path v)) := by
  induction path generalizing v with
  | nil => exact .pure s _
  | cons name rest ih =>
      cases v with
      | table id => exact (index_yields slots top plain.1 name).bind (ih plain.2)
      | _ => exact .pure s _

theorem globals_yields : Path.globals.Yields slots top s s (.table s.globals) :=
  Act.query_yields _

theorem pathReserve_yields {count : Nat} (room : top + stackReserve + count ≤ stackLimit) :
    (Path.reserve count).Yields slots top s s () :=
  (Act.reserve_yields room).bind (.pure s ())

theorem lookup_settles (slots : Slots) {path : List String} (room : top + stackReserve + (path.length + 1) ≤ stackLimit)
    (plain : s.Plain path (.table s.globals)) :
    Settles slots top s (Path.lookup path) s (found (s.resolve path)) :=
  ((pathReserve_yields room).bind (globals_yields.bind (follow_yields plain))).settles

end

/-! ### Walks that assign -/

/-- What a cell is given from which the rest of a path starts: the value, or the first of the tables that
are made for the rest. -/
def link (next : Nat) (v : Value) : List String → Value
  | [] => v
  | _ :: _ => .table next

/-- A heap was made from another by an assignment in one of its tables. Tables were added for the names
`after`, each in the one before, and the value is in the last of them. -/
structure Assigned (s s' : Store) (id : Nat) (key : String) (after : List String) (v : Value) : Prop where
  tables : s' = { s with tables := s'.tables }
  size : s'.tables.size = s.tables.size + after.length
  cell : (s.table id).Sets (s'.table id) key (link s.tables.size v after)
  others : ∀ j, j < s.tables.size → j ≠ id → s'.table j = s.table j
  made : ∀ j name, after[j]? = some name → ∃ serial, Table.Sets { serial } (s'.table (s.tables.size + j))
    name (link (s.tables.size + j + 1) v (after.drop (j + 1)))

/-- Where an assignment comes to on its way along a path: tables lead to a table in which a cell is assigned,
and the rest of the path, if there is one, is missing. -/
structure Reaches (s : Store) (v : Value) (path before : List String) (id : Nat) (key : String)
    (after : List String) : Prop where
  split : path = before ++ key :: after
  found : s.behind before v = some (.table id)
  missing : after = [] ∨ (s.table id).getText key = .nil

/-- After so many names a value that is no table is in the way of an assignment. -/
structure Blocks (s : Store) (v : Value) (path : List String) (i : Nat) (u : Value) : Prop where
  inside : 0 < i ∧ i < path.length
  found : s.behind (path.take i) v = some u
  present : u ≠ .nil
  noTable : ∀ id, u ≠ .table id

section
variable {s s' : Store} {v u : Value} {path : List String} {i : Nat}

/-- Nothing but the value in the way is met there. -/
theorem Blocks.unique (blocks : Blocks s v path i u) {j : Nat} {u' : Value} (other : Blocks s v path j u') :
    i = j := by
  have never : ∀ {i j u u'}, Blocks s v path i u → Blocks s v path j u' → ¬ i < j := by
    intro i j u u' blocks other before
    have split : path.take j = path.take i ++ (path.drop i).take (j - i) := by
      rw [← List.take_add, Nat.add_sub_cancel' (Nat.le_of_lt before)]
    have there := other.found
    rw [split, Store.behind_append, blocks.found, Option.bind_some] at there
    have inside := other.inside.2
    obtain ⟨name, rest, more⟩ : ∃ name rest, (path.drop i).take (j - i) = name :: rest := by
      apply List.exists_cons_of_length_pos
      rw [List.length_take, List.length_drop]
      omega
    rw [more] at there
    obtain ⟨id, rfl⟩ := Store.table_of_behind there
    exact blocks.noTable id rfl
  have forth := never blocks other
  have back := never other blocks
  omega

/-- An assignment that gets where it assigns has met nothing in its way. -/
theorem Reaches.free {before after : List String} {id : Nat} {key : String}
    (reaches : Reaches s v path before id key after) : ¬ Blocks s v path i u := by
  rintro ⟨⟨-, inside⟩, found, present, noTable⟩
  rw [reaches.split] at inside found
  rcases Nat.lt_or_ge before.length i with beyond | early
  · obtain ⟨j, rfl⟩ : ∃ j, i = before.length + (j + 1) := ⟨i - before.length - 1, by omega⟩
    rw [List.take_length_add_append, List.take_succ_cons, Store.behind_append, reaches.found] at found
    have cell : (s.table id).getText key = .nil := by
      refine reaches.missing.resolve_left ?_
      rintro rfl
      simp at inside
    have found : s.behind (after.take j) .nil = some u := by rwa [← cell]
    cases rest : after.take j with
    | nil =>
        rw [rest] at found
        exact present (Option.some.inj found).symm
    | cons name rest' =>
        rw [rest] at found
        exact nomatch found
  · have there : s.behind (before.take i ++ before.drop i) v = some (.table id) := by
      rw [List.take_append_drop]
      exact reaches.found
    obtain ⟨id', here⟩ := Store.behind_prefix there
    rw [List.take_append_of_le_length early] at found
    exact noTable id' (Option.some.inj (found.symm.trans here))

/-! ### The walk -/

theorem modifyTable_assigned {id : Nat} (bound : id < s.tables.size) (key : String) (v : Value) :
    Assigned s (s.modifyTable id (·.setText key v)) id key [] v where
  tables := rfl
  size := by simp [Store.modifyTable]
  cell := by
    rw [s.table_modifyTable bound, if_pos rfl]
    exact Table.setText_sets _ key v
  others := fun j _ other => by rw [s.table_modifyTable bound, if_neg other]
  made := fun _ _ missing => nomatch missing

/-- The heap in which a new table is put into a cell. -/
def linked (s : Store) (id : Nat) (key : String) : Store :=
  (s.newTable {}).1.modifyTable id (·.setText key (.table s.tables.size))

theorem size_linked (s : Store) (id : Nat) (key : String) :
    (linked s id key).tables.size = s.tables.size + 1 := by
  simp [linked, Store.modifyTable, Store.newTable]

theorem table_linked {id : Nat} (bound : id < s.tables.size) (key : String) (j : Nat) :
    (linked s id key).table j =
      if j = id then (s.table id).setText key (.table s.tables.size) else (s.newTable {}).1.table j := by
  have bound' : id < (s.newTable {}).1.tables.size := by
    simp only [Store.newTable, Array.size_push]
    omega
  rw [linked, Store.table_modifyTable _ bound', s.table_newTable_other _ (Nat.ne_of_lt bound)]

theorem table_linked_new {id : Nat} (bound : id < s.tables.size) (key : String) :
    (linked s id key).table s.tables.size = { serial := s.objects + 1 } := by
  rw [table_linked bound, if_neg (Nat.ne_of_gt bound), s.newTable_table]

theorem linked_plain {id : Nat} (bound : id < s.tables.size) (key : String) :
    (linked s id key).IsPlain s.tables.size := by
  apply Store.isPlain_of_bound
  · rw [size_linked]
    exact Nat.lt_succ_self _
  · rw [table_linked_new bound]

/-- An assignment in a new table that was put into a cell is an assignment in the cell. -/
theorem Assigned.linked {id : Nat} {key name : String} {after : List String} (bound : id < s.tables.size)
    (assigned : Assigned (linked s id key) s' s.tables.size name after v) :
    Assigned s s' id key (name :: after) v := by
  have size := size_linked s id key
  refine ⟨?_, ?_, ?_, ?_, ?_⟩
  · rw [assigned.tables]
    rfl
  · rw [assigned.size, size, List.length_cons]
    omega
  · rw [assigned.others id (by omega) (Nat.ne_of_lt bound), table_linked bound, if_pos rfl]
    exact Table.setText_sets _ key _
  · intro j inside other
    rw [assigned.others j (by omega) (Nat.ne_of_lt inside), table_linked bound, if_neg other,
      s.table_newTable_other _ (Nat.ne_of_lt inside)]
  · intro j name' here
    cases j with
    | zero =>
        obtain rfl := Option.some.inj here
        have cell := assigned.cell
        rw [table_linked_new bound, size] at cell
        exact ⟨_, cell⟩
    | succ j =>
        have made := assigned.made j name' here
        have places : s.tables.size + (j + 1) = s.tables.size + 1 + j := by omega
        rw [size] at made
        rwa [places]

variable {slots : Slots} {top : Nat} {value : Act Value}

/-- An assignment goes on in new tables where the rest of its path is missing. -/
theorem fill_yields (gives : ∀ s, value.Yields slots top s s v) {id : Nat} (plain : s.IsPlain id)
    (key : String) (after : List String) (passed : Nat)
    (missing : after = [] ∨ (s.table id).getText key = .nil) :
    ∃ s', Assigned s s' id key after v ∧
      (Path.assignFrom value (key :: after) passed (.table id)).Yields slots top s s' [] := by
  induction after generalizing s id key passed with
  | nil =>
      refine ⟨_, modifyTable_assigned plain.bound key v, ?_⟩
      exact (gives s).bind ((setIndex_yields plain key v).bind (.pure _ []))
  | cons name after ih =>
      have cell := missing.resolve_left (List.cons_ne_nil _ _)
      have bound := plain.bound
      obtain ⟨s', assigned, yields⟩ := ih (linked_plain bound key) name (passed + 1) (by
        right
        rw [table_linked_new bound]
        simp [Table.getText, Table.getKey])
      have plain' : (s.newTable {}).1.IsPlain id := by
        apply Store.isPlain_of_bound
        · simp only [Store.newTable, Array.size_push]
          omega
        · rw [s.table_newTable_other _ (Nat.ne_of_lt bound), plain.metatable]
      refine ⟨s', assigned.linked bound, ?_⟩
      refine Act.Yields.bind (cell ▸ index_yields slots top plain key) ?_
      exact (Act.newTable_yields {}).bind ((setIndex_yields plain' key _).bind yields)

/-- An assignment finds a value in its way and leaves the heap as it is, or gets where it assigns. -/
theorem assignFrom_yields (gives : ∀ s, value.Yields slots top s s v) {id : Nat}
    (plain : s.Plain path (.table id)) (nonempty : path ≠ []) (passed : Nat) :
    (∃ i u, Blocks s (.table id) path i u ∧ (Path.assignFrom value path passed (.table id)).Yields slots top
      s s (Path.Collision.toValues ⟨passed + i, u.typeName⟩)) ∨
    (∃ s' before id' key after, Reaches s (.table id) path before id' key after ∧
      Assigned s s' id' key after v ∧
      (Path.assignFrom value path passed (.table id)).Yields slots top s s' []) := by
  induction path generalizing id passed with
  | nil => exact absurd rfl nonempty
  | cons key rest ih =>
      have here : (s.table id).getText key = .nil ∨ rest = [] →
          ∃ s' before id' key' after, Reaches s (.table id) (key :: rest) before id' key' after ∧
            Assigned s s' id' key' after v ∧
            (Path.assignFrom value (key :: rest) passed (.table id)).Yields slots top s s' [] := by
        intro missing
        obtain ⟨s', assigned, yields⟩ := fill_yields gives plain.1 key rest passed missing.symm
        exact ⟨s', [], id, key, rest, ⟨rfl, rfl, missing.symm⟩, assigned, yields⟩
      cases rest with
      | nil => exact .inr (here (.inr rfl))
      | cons name rest =>
          have walks := index_yields slots top plain.1 key
          have plain' := plain.2
          cases cell : (s.table id).getText key with
          | nil => exact .inr (here (.inl cell))
          | table next =>
              rw [cell] at walks plain'
              have goesOn : ∀ path, s.behind (key :: path) (.table id) = s.behind path (.table next) := by
                intro path
                rw [Store.behind, cell]
              obtain ⟨i, u, blocks, yields⟩ | ⟨s', before, id', key', after, reaches, assigned, yields⟩ :=
                ih plain' (List.cons_ne_nil _ _) (passed + 1)
              · refine .inl ⟨i + 1, u, ⟨⟨Nat.succ_pos i, Nat.succ_lt_succ blocks.inside.2⟩, ?_,
                  blocks.present, blocks.noTable⟩, walks.bind ?_⟩
                · rw [List.take_succ_cons, goesOn]
                  exact blocks.found
                · rwa [Nat.add_assoc, Nat.add_comm 1 i] at yields
              · refine .inr ⟨s', key :: before, id', key', after, ⟨?_, ?_, reaches.missing⟩, assigned,
                  walks.bind yields⟩
                · rw [reaches.split, List.cons_append]
                · rw [goesOn]
                  exact reaches.found
          | bool | int | float | string | closure | builtin | host | userdata | light | thread =>
              rw [cell] at walks
              refine .inl ⟨1, _, ⟨⟨Nat.one_pos, Nat.succ_lt_succ (Nat.succ_pos _)⟩,
                congrArg some cell, nofun, nofun⟩, walks.bind (.pure s _)⟩

theorem assign_settles (gives : ∀ s, value.Yields slots top s s v) (nonempty : path ≠ [])
    (room : top + stackReserve + (path.length + 3) ≤ stackLimit)
    (plain : s.Plain path (.table s.globals)) :
    (∃ i u, Blocks s (.table s.globals) path i u ∧
      Settles slots top s (Path.assign path value) s (Path.Collision.toValues ⟨i, u.typeName⟩)) ∨
    (∃ s' before id key after, Reaches s (.table s.globals) path before id key after ∧
      Assigned s s' id key after v ∧ Settles slots top s (Path.assign path value) s' []) := by
  have starts : ∀ {s' values},
      (Path.assignFrom value path 0 (.table s.globals)).Yields slots top s s' values →
      Settles slots top s (Path.assign path value) s' values :=
    fun yields => ((pathReserve_yields room).bind (globals_yields.bind yields)).settles
  obtain ⟨i, u, blocks, yields⟩ | ⟨s', before, id, key, after, reaches, assigned, yields⟩ :=
    assignFrom_yields gives plain nonempty 0
  · rw [Nat.zero_add] at yields
    exact .inl ⟨i, u, blocks, starts yields⟩
  · exact .inr ⟨s', before, id, key, after, reaches, assigned, starts yields⟩

end

/-! ### Walks after an assignment -/

section
variable {s s' : Store} {id : Nat} {key : String} {after path : List String} {v u : Value}

theorem Assigned.getText (assigned : Assigned s s' id key after v) {j : Nat} (bound : j < s.tables.size)
    {name : String} (apart : ¬ (j = id ∧ name = key)) :
    (s'.table j).getText name = (s.table j).getText name := by
  by_cases here : j = id
  · subst here
    exact assigned.cell.getText fun same => apart ⟨rfl, same⟩
  · rw [assigned.others j bound here]

theorem Assigned.isPlain (assigned : Assigned s s' id key after v) {j : Nat} (plain : s.IsPlain j) :
    s'.IsPlain j := by
  have bound := plain.bound
  refine Store.isPlain_of_bound (by rw [assigned.size]; omega) ?_
  by_cases here : j = id
  · subst here
    exact assigned.cell.metatable.trans plain.metatable
  · rw [assigned.others j bound here, plain.metatable]

/-- A walk that does not go through the cell that was assigned goes as before. -/
theorem Assigned.walk (assigned : Assigned s s' id key after v) (plain : s.Plain path u)
    (apart : ¬ s.Reads id key path u) : s'.behind path u = s.behind path u ∧ s'.Plain path u := by
  induction path generalizing u with
  | nil => exact ⟨rfl, trivial⟩
  | cons name rest ih =>
      cases u with
      | table j =>
          obtain ⟨other, further⟩ := not_or.mp apart
          have same := assigned.getText plain.1.bound other
          obtain ⟨goes, plain'⟩ := ih plain.2 further
          refine ⟨?_, assigned.isPlain plain.1, ?_⟩
          · rw [Store.behind, same]
            exact goes
          · rw [same]
            exact plain'
      | _ => exact ⟨rfl, trivial⟩

/-- The tables that were made lead to the value. -/
theorem Assigned.chain (assigned : Assigned s s' id key after v) (rest : List String) (j : Nat)
    (here : after.drop j = rest) :
    s'.behind rest (link (s.tables.size + j) v rest) = some v ∧
      s'.Plain rest (link (s.tables.size + j) v rest) := by
  induction rest generalizing j with
  | nil => exact ⟨rfl, trivial⟩
  | cons name rest ih =>
      have inside : j < after.length := by
        by_contra beyond
        rw [List.drop_eq_nil_of_le (Nat.not_lt.mp beyond)] at here
        exact nomatch here
      rw [List.drop_eq_getElem_cons inside] at here
      obtain ⟨rfl, further⟩ := List.cons.inj here
      obtain ⟨serial, sets⟩ := assigned.made j _ (List.getElem?_eq_getElem inside)
      rw [further] at sets
      obtain ⟨there, plain⟩ := ih (j + 1) further
      have found := sets.found
      refine ⟨?_, Store.isPlain_of_bound (by rw [assigned.size]; omega) sets.metatable, ?_⟩
      · rw [link, Store.behind, found]
        exact there
      · rw [found]
        exact plain

/-- A cell that a walk to a table goes through holds a table that the walk goes through. -/
theorem passes_of_reads {before : List String} {id' : Nat} (reads : s.Reads id key before u)
    (there : s.behind before u = some (.table id')) (rest : List String) (name : String) :
    ∃ t, (s.table id).getText key = .table t ∧ s.Passes t (before ++ name :: rest) u := by
  induction before generalizing u with
  | nil => exact reads.elim
  | cons first before ih =>
      obtain ⟨j, rfl⟩ := Store.table_of_behind there
      rcases reads with ⟨rfl, rfl⟩ | further
      · have goesOn : s.behind ([] ++ before) ((s.table j).getText first) = some (.table id') := there
        obtain ⟨t, next⟩ := Store.behind_prefix goesOn
        have cell := Option.some.inj next
        refine ⟨t, cell, .inr ?_⟩
        rw [cell]
        cases before with
        | nil => exact .inl rfl
        | cons => exact .inl rfl
      · obtain ⟨t, cell, passes⟩ := ih further there
        exact ⟨t, cell, .inr passes⟩

/-- The path of an assignment leads to the value afterwards, unless the cell that was assigned held a table
through which the walk had come. -/
theorem Reaches.leads {before : List String} (reaches : Reaches s u path before id key after)
    (assigned : Assigned s s' id key after v) (plain : s.Plain path u)
    (straight : ∀ t, (s.table id).getText key = .table t → ¬ s.Passes t path u) :
    s'.behind path u = some v ∧ s'.Plain path u := by
  obtain ⟨rfl, found, -⟩ := reaches
  obtain ⟨first, last⟩ := Store.plain_append.mp plain
  have apart : ¬ s.Reads id key before u := by
    intro reads
    obtain ⟨t, cell, passes⟩ := passes_of_reads reads found after key
    exact straight t cell passes
  obtain ⟨goes, first'⟩ := assigned.walk first apart
  obtain ⟨there, rest⟩ := assigned.chain after 0 rfl
  have cell := assigned.cell.found
  rw [found] at goes
  refine ⟨?_, Store.plain_append.mpr ⟨first', ?_⟩⟩
  · rw [Store.behind_append, goes, Option.bind_some, Store.behind, cell]
    exact there
  · intro t same
    obtain rfl := Option.some.inj (goes.symm.trans same)
    refine ⟨assigned.isPlain (last _ found).1, ?_⟩
    rw [cell]
    exact rest

/-- An assignment whose path starts at a missing name assigns that name. -/
theorem Reaches.fresh {before : List String} (reaches : Reaches s u path before id key after)
    (missing : s.behind (path.take 1) u = some .nil) : (s.table id).getText key = .nil := by
  obtain ⟨rfl, found, -⟩ := reaches
  cases before with
  | nil =>
      obtain rfl := Option.some.inj found
      exact Option.some.inj missing
  | cons name before =>
      rw [List.cons_append, List.take_succ_cons, List.take_zero] at missing
      rw [← List.singleton_append, Store.behind_append, missing, Option.bind_some] at found
      cases before with
      | nil => exact nomatch found
      | cons => exact nomatch found

end

end LuaHost.Guest
