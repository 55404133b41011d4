import LuaHost.Proofs.Paths
/-!
The machine of a session at its start. Whatever libraries are opened, they fill tables of the heap and add
others, and no table has a metatable; no call is under way, so that there is room for calls from the host.
-/

namespace LuaHost.Guest

namespace Table

theorem metatable_set (t : Table) (key v : Value) : (t.set key v).metatable = t.metatable := by
  rw [Table.set]
  split
  · exact t.metatable_setKey _ _ _
  · rfl

end Table

namespace Store

/-- A heap is furnished further: tables are filled and added, and none is given a metatable. -/
structure Furnished (s s' : Store) : Prop where
  globals : s'.globals = s.globals
  size : s.tables.size ≤ s'.tables.size
  bare : (∀ id, (s.table id).metatable = none) → ∀ id, (s'.table id).metatable = none

variable {s s' s'' : Store}

theorem Furnished.refl (s : Store) : Furnished s s := ⟨rfl, Nat.le_refl _, id⟩

theorem Furnished.trans (first : Furnished s s') (second : Furnished s' s'') : Furnished s s'' :=
  ⟨second.globals.trans first.globals, Nat.le_trans first.size second.size, second.bare ∘ first.bare⟩

/-- What is kept besides the tables does not matter. -/
theorem Furnished.others (furnished : Furnished s s') (tables : s''.tables = s'.tables)
    (globals : s''.globals = s'.globals) : Furnished s s'' := by
  refine ⟨globals.trans furnished.globals, tables ▸ furnished.size, fun bare id => ?_⟩
  have same : s''.table id = s'.table id := by rw [Store.table, Store.table, tables]
  rw [same, furnished.bare bare id]

theorem newTable_furnished {t : Table} (plain : t.metatable = none) : Furnished s (s.newTable t).1 where
  globals := rfl
  size := by simp [newTable]
  bare := by
    intro bare id
    rcases Nat.lt_trichotomy id s.tables.size with old | rfl | beyond
    · rw [(s.newTable_grows t).kept id old, bare]
    · simpa [table, newTable, Array.getD_eq_getD_getElem?] using plain
    · have missing : (s.tables.push { t with serial := s.objects + 1 })[id]? = none := by
        rw [Array.getElem?_eq_none_iff, Array.size_push]
        exact beyond
      simp only [table, newTable, Array.getD_eq_getD_getElem?, missing, Option.getD_none]

theorem modifyTable_furnished (id : Nat) {f : Table → Table} (keeps : ∀ t, (f t).metatable = t.metatable) :
    Furnished s (s.modifyTable id f) where
  globals := rfl
  size := by simp [modifyTable]
  bare := by
    intro bare other
    have old := bare other
    simp only [table, modifyTable, Array.getD_eq_getD_getElem?, Array.getElem?_modify] at old ⊢
    split
    · cases found : s.tables[other]? with
      | none => rfl
      | some t =>
          rw [found] at old
          exact (keeps t).trans old
    · exact old

theorem fill_metatable (t : Table) (members : List Member) : (fill t members).metatable = t.metatable := by
  induction members generalizing t with
  | nil => rfl
  | cons member members ih => exact (ih _).trans (t.metatable_set _ _)

theorem Furnished.makeTable (furnished : Furnished s s') (members : List Member) :
    Furnished s (s'.makeTable members).1 :=
  furnished.trans (newTable_furnished (fill_metatable {} members))

theorem Furnished.setField (furnished : Furnished s s') (id : Nat) (name : String) (v : Value) :
    Furnished s (s'.setField id name v) :=
  furnished.trans (modifyTable_furnished id fun t => t.metatable_set _ _)

theorem openPackage_furnished (s : Store) : Furnished s s.openPackage.1 := by
  rw [openPackage]
  refine ((Furnished.makeTable (newTable_furnished ?_) _).others (by rfl) (by rfl)).setField _ _ _
  simp only [List.zipIdx_cons, List.zipIdx_nil, List.foldl_cons, List.foldl_nil, Table.setInt, Table.metatable_set]

theorem openString_furnished (s : Store) : Furnished s s.openString.1 := by
  rw [openString]
  exact (((Furnished.refl s).makeTable _).makeTable _).others (by rfl) (by rfl)

theorem openIo_furnished (s : Store) : Furnished s s.openIo.1 := by
  have file {s' : Store} (library metatable : Nat) (name : String) (furnished : Furnished s s') :
      Furnished s ((s'.newUserdata ⟨some metatable⟩).1.setField library name
        (.userdata (s'.newUserdata ⟨some metatable⟩).2)) :=
    (furnished.others (by rfl) (by rfl)).setField _ _ _
  rw [openIo]
  refine file _ _ _ (file _ _ _ (file _ _ _ ?_))
  exact (((Furnished.refl s).makeTable _).makeTable _).trans
    (modifyTable_furnished _ fun t => fill_metatable t _)

theorem openBase_furnished (s : Store) : Furnished s s.openBase.1 := by
  rw [openBase]
  exact ((modifyTable_furnished s.globals fun t => fill_metatable t baseMembers).setField _ _ _).setField _ _ _

theorem makeLibrary_furnished (s : Store) (l : StandardLibrary) : Furnished s (s.makeLibrary l).1 := by
  cases l with
  | base => exact openBase_furnished s
  | package => exact openPackage_furnished s
  | string => exact openString_furnished s
  | io => exact openIo_furnished s
  | coroutine | table | os | utf8 | math | debug => exact (Furnished.refl s).makeTable _

theorem openLibrary_furnished (s : Store) (l : StandardLibrary) : Furnished s (s.openLibrary l) := by
  rw [openLibrary]
  simp only
  split
  · exact (Furnished.refl s).setField _ _ _
  · exact (((makeLibrary_furnished s l).others (by rfl) (by rfl)).setField _ _ _).setField _ _ _

theorem openLibraries_furnished (s : Store) (ls : List StandardLibrary) :
    Furnished s (ls.foldl openLibrary s) := by
  induction ls generalizing s with
  | nil => exact .refl s
  | cons l ls ih => exact (openLibrary_furnished s l).trans (ih _)

/-- A heap at the start has been furnished from one with no more than the tables that every session has. -/
theorem start_furnished (libraries : LibraryChoice) (path : Option String) :
    ∃ s : Store, s.globals = 0 ∧ s.tables = (((({} : Store).newTable {}).1.newTable {}).1.newTable {}).1.tables ∧
      Furnished s (start libraries path) := by
  rw [start.eq_def]
  simp only
  split
  · refine ⟨_, ?_, ?_,
      (((openLibraries_furnished _ _).makeTable _).others (by rfl) (by rfl)).setField _ _ _⟩ <;> rfl
  · refine ⟨_, ?_, ?_, ((openLibraries_furnished _ _).makeTable _).others (by rfl) (by rfl)⟩ <;> rfl

/-- The table of the globals is there at the start, and no table has a metatable. -/
theorem start_bare (libraries : LibraryChoice) (path : Option String) :
    (start libraries path).globals < (start libraries path).tables.size ∧
      ∀ id, ((start libraries path).table id).metatable = none := by
  obtain ⟨s, globals, tables, furnished⟩ := start_furnished libraries path
  have size : s.tables.size = 3 := by
    rw [tables]
    rfl
  refine ⟨?_, furnished.bare fun id => ?_⟩
  · have larger := furnished.size
    rw [furnished.globals, globals]
    omega
  · rw [Store.table, tables]
    rcases id with _ | _ | _ | id <;> rfl

end Store

namespace Machine

/-- Calls that are under way have nothing to do with the heap and the slots. -/
theorem floor_heap (m : Machine) (store : Store) (slots : Slots) : { m with store, slots }.floor = m.floor := by
  by_cases main : m.current = 0
  · rw [floor, floor, onMain_of_main main, onMain_of_main (m := { m with store, slots }) main]
  · rw [floor, floor, onMain_of_other main, onMain_of_other (m := { m with store, slots }) main]
    simp only [switch, park]
    split <;> rfl

theorem HasRoomFor.congr {m m' : Machine} {count : Nat} (room : m.HasRoomFor count) (same : m'.floor = m.floor) :
    m'.HasRoomFor count :=
  ⟨same ▸ room.call, same ▸ room.values, same ▸ room.depth⟩

/-- At the start nothing is in the way of calls from the host. -/
theorem start_hasRoom (libraries : LibraryChoice) (path : Option String) {count : Nat} (few : count ≤ 900000) :
    (start libraries path).HasRoomFor count := by
  have floor : (start libraries path).floor = (1, 0) := rfl
  have limits : stackLimit = 1000000 ∧ stackReserve = 5 ∧ nativeRoom = 20 ∧ callLimit = 200 := ⟨rfl, rfl, rfl, rfl⟩
  constructor
  all_goals
    rw [floor]
    omega

end Machine

end LuaHost.Guest
