import LuaHost.CommandLine.Command
import LuaHost.Proofs.Assignments
import LuaHost.Proofs.Startup
import LuaHost.Proofs.TableBuilding
/-!
How the command line sets a script up. A session is opened, the script's name and its arguments are put into a
table by their position, and the table becomes a global variable; then the script is run. Positions have to be
guest integers, so that more arguments than there are of them keep the script from being run.
-/

namespace LuaHost

namespace Guest.Table
variable {t : Table} {rows : List (Value × Value)}

/-- What is listed of a table are the rows that it was built from. -/
theorem Holds.toList (holds : t.Holds rows) (keyed : Keyed rows) :
    t.toList = rows.map fun r => (r.1.normalized, r.2) := by
  have listed := holds.entries keyed
  rw [Table.toList]
  clear holds keyed
  generalize t.entries = listing at listed
  induction listed with
  | nil => rfl
  | cons same _ ih => rw [List.map_cons, List.map_cons, ih, same.1, same.2.2]

end Guest.Table

namespace CommandLine

/-- The global variable for arguments holds a table of just these, counted from zero. -/
def HasArguments (store : Guest.Store) (arguments : List String) : Prop :=
  ∃ id, (store.table store.globals).getText argumentsName = .table id ∧
    (store.table id).toList =
      arguments.zipIdx.map fun (argument, i) => (.int (Int32.ofNat i), Guest.ofText argument)

/-! ### The table of arguments -/

/-- Arguments by their position, counted from a number, as they are encoded. -/
def argumentRows (first : Nat) (arguments : List String) : List (Primitive × Primitive) :=
  (arguments.zipIdx first).map fun (argument, i) => (.int (Guest.floatOfNat i), .string argument)

def argumentData (first : Nat) (arguments : List String) : List (Datum × Datum) :=
  (arguments.zipIdx first).map fun (argument, i) => (.int (Int32.ofNat i).toInt, .string argument)

def argumentValues (first : Nat) (arguments : List String) : List (Guest.Value × Guest.Value) :=
  (arguments.zipIdx first).map fun (argument, i) => (.int (Int32.ofNat i), Guest.ofText argument)

theorem argumentEntries_eq (arguments : List String) :
    argumentEntries arguments = .ofList (Config.primitives (argumentRows 0 arguments)) := by
  rw [argumentEntries, Config.primitives, argumentRows, List.map_map]
  rfl

theorem argumentRows_encoded {first : Nat} {arguments : List String}
    (few : first + arguments.length ≤ 2 ^ 31) :
    List.Forall₂ (fun r e => World.encodePrimitive r.1 = .ok e.1 ∧ World.encodePrimitive r.2 = .ok e.2)
      (argumentRows first arguments) (argumentData first arguments) := by
  induction arguments generalizing first with
  | nil => exact .nil
  | cons argument arguments ih =>
      rw [List.length_cons] at few
      exact .cons ⟨World.encode_index (by omega), rfl⟩ (ih (by omega))

theorem argumentData_stands {w : World Console} {session first : Nat} {arguments : List String} :
    List.Forall₂ (fun e r => w.Stands session e.1 r.1 ∧ w.Stands session e.2 r.2)
      (argumentData first arguments) (argumentValues first arguments) := by
  induction arguments generalizing first with
  | nil => exact .nil
  | cons argument arguments ih => exact .cons ⟨World.stands_int _, World.stands_string _⟩ ih

theorem argumentData_valid {first : Nat} {arguments : List String} {e : Datum × Datum}
    (mem : e ∈ argumentData first arguments) : e.1.IsKey := by
  obtain ⟨⟨argument, i⟩, -, rfl⟩ := List.mem_map.mp mem
  exact ⟨nofun, nofun⟩

theorem argumentValues_keyed {arguments : List String} (few : arguments.length ≤ 2 ^ 31) :
    Guest.Keyed (argumentValues 0 arguments) := by
  refine ⟨?_, ?_, ?_⟩
  · intro r mem
    obtain ⟨⟨argument, i⟩, -, rfl⟩ := List.mem_map.mp mem
    exact Option.some_ne_none _
  · have positions : (argumentValues 0 arguments).map (·.1.key?) =
        (List.range' 0 arguments.length).map fun i => some (.int (Int32.ofNat i)) := by
      rw [argumentValues, List.map_map, ← List.zipIdx_map_snd 0 arguments, List.map_map]
      rfl
    rw [positions]
    refine List.Nodup.map_on ?_ List.nodup_range'
    intro i left j right same
    rw [List.mem_range'_1] at left right
    exact Guest.Table.ofNat_inj (by omega) (by omega) (Guest.Key.int.inj (Option.some.inj same))
  · intro r mem
    obtain ⟨⟨argument, i⟩, -, rfl⟩ := List.mem_map.mp mem
    rfl

/-- The arguments that there are positions for come first. -/
theorem argumentRows_split {arguments : List String} (count : Nat) (many : count < arguments.length) :
    ∃ argument rest, argumentRows 0 arguments = argumentRows 0 (arguments.take count) ++
      (.int (Guest.floatOfNat count), .string argument) :: rest := by
  have position : (arguments.take count).length = count := List.length_take_of_le (Nat.le_of_lt many)
  have split : arguments = arguments.take count ++ arguments[count] :: arguments.drop (count + 1) := by
    rw [List.getElem_cons_drop, List.take_append_drop]
  refine ⟨arguments[count], argumentRows (count + 1) (arguments.drop (count + 1)), ?_⟩
  conv_lhs => rw [split]
  rw [argumentRows, List.zipIdx_append, List.map_append, position, Nat.zero_add, List.zipIdx_cons]
  rfl

/-- The first number that is no guest integer. -/
theorem encode_beyond : ∃ t, World.encodePrimitive (.int (Guest.floatOfNat (2 ^ 31))) = .error t := by
  have whole := Guest.wholeOfFloat?_floatOfNat (m := 2 ^ 31) (by decide)
  have none : Guest.integerOfFloat? (Guest.floatOfNat (2 ^ 31)) = .none := by
    simp only [Guest.integerOfFloat?, whole]
    decide
  exact ⟨_, by rw [World.encodePrimitive, none]⟩

/-! ### Before the script is run -/

/-- What is done with the outcome of the script. -/
def concluding (state : State) : Outcome → Client Console :=
  continuing state fun state result =>
    .perform (.close state) fun _ =>
      match result with
      | .values values => .done state (values.map .value)
      | _ => .done state []

/-- What is done with the outcome of the assignment of the arguments. -/
def running (script : Script) (state : State) : Outcome → Client Console :=
  continuing state fun state _ => .perform (script.operation state) (concluding state)

/-- What is done with the outcome of encoding the arguments. -/
def assigning (script : Script) (state : State) : Outcome → Client Console :=
  continuing state fun state table =>
    match table with
    | .item item => .perform (.set state [argumentsName] item) (running script state)
    | _ => .done state []

section Setup
variable (configuration : Configuration) (script : Script) (arguments : List String) (directory : Directory)

/-- A session has been opened, and the arguments are about to be encoded. -/
def arranged : Config Console where
  world := (World.openSession { directory, memory := {} } (options configuration)).1
  control := .perform (.encodeTable ⟨0, 0⟩ (argumentEntries (script.name :: arguments)))
  stack := [.perform (assigning script ⟨0, 0⟩)]

theorem start_arranged : Config.step^[4] (start configuration script arguments directory) =
    arranged configuration script arguments directory := rfl

theorem arranged_reachable : (arranged configuration script arguments directory).Reachable :=
  start_arranged configuration script arguments directory ▸ ⟨_, directory, {}, Config.run_steps _ _⟩

/-- The arguments up to a position are encoded. -/
theorem arguments_gathered {rows : List (Primitive × Primitive)} {first : List String}
    (few : first.length ≤ 2 ^ 31)
    (split : argumentRows 0 (script.name :: arguments) = argumentRows 0 first ++ rows) :
    ∃ w s, World.Advanced (arranged configuration script arguments directory).world w ⟨0, 0⟩ s ∧
      Config.Gathers (arranged configuration script arguments directory) ⟨0, 0⟩
        ⟨w, s, argumentData 0 first, .ofList (Config.primitives rows)⟩ := by
  have reachable := arranged_reachable configuration script arguments directory
  have accepts := ((arranged configuration script arguments directory).world.stateViolation?_eq_none
    ⟨0, 0⟩).mp rfl
  obtain ⟨w, s, advanced, encodes⟩ := Config.encodes_primitives
    (@argumentRows_encoded 0 first (by omega))
    (Config.primitives rows) ⟨0, 0⟩ (arranged configuration script arguments directory).stack []
    reachable.tracked accepts
  have entries : argumentEntries (script.name :: arguments) =
      .ofList (Config.primitives (argumentRows 0 first) ++ Config.primitives rows) := by
    rw [argumentEntries_eq, split, Config.primitives, List.map_append]
    rfl
  refine ⟨w, s, advanced, reachable, rfl, ⟨_, congrArg (fun entries =>
    Control.perform (.encodeTable ⟨0, 0⟩ entries)) entries, encodes⟩, ?_⟩
  exact fun e mem => argumentData_valid mem

/-- The machine of the session is as it was opened, but for the tables that have been added. -/
theorem advanced_machine {w : World Console} {s : State}
    (advanced : World.Advanced (arranged configuration script arguments directory).world w ⟨0, 0⟩ s) :
    (w.machine 0).HasRoomFor 4 ∧ (w.machine 0).store.IsPlain (w.machine 0).store.globals ∧
      (w.machine 0).store.globals =
        (Guest.Store.start configuration.libraries configuration.packagePath).globals := by
  have opened : (arranged configuration script arguments directory).world.machine 0 =
      .start configuration.libraries configuration.packagePath := rfl
  have grows := advanced.enriches.grows 0
  obtain ⟨tables, slots, same⟩ := advanced.enriches.machine 0
  rw [opened] at grows same
  obtain ⟨bound, bare⟩ := Guest.Store.start_bare configuration.libraries configuration.packagePath
  have globals : (w.machine 0).store.globals =
      (Guest.Store.start configuration.libraries configuration.packagePath).globals := by
    rw [same]
    rfl
  refine ⟨?_, ?_, globals⟩
  · have room : (Guest.Machine.start configuration.libraries configuration.packagePath).HasRoomFor 4 :=
      Guest.Machine.start_hasRoom _ _ (by decide)
    exact room.congr (by rw [same, Guest.Machine.floor_heap])
  · rw [globals]
    exact Guest.Store.isPlain_of_bound (Nat.lt_of_lt_of_le bound grows.size)
      ((congrArg Guest.Table.metatable (grows.kept _ bound)).trans (bare _))

/-- A table that has been made for the arguments may be put into the global variable. -/
theorem arguments_mayAssign {w : World Console} {s : State} {d : Datum} {id : Nat}
    (advanced : World.Advanced (arranged configuration script arguments directory).world w ⟨0, 0⟩ s)
    (stands : w.Stands 0 d (.table id)) :
    Config.MayAssign ⟨w, .perform (.set s [argumentsName] (.value d)), [.perform (running script s)]⟩ s
      [argumentsName] (.value d) (.table id) := by
  have session : s.session = 0 := advanced.session
  obtain ⟨room, plain, -⟩ := advanced_machine configuration script arguments directory advanced
  refine ⟨rfl, advanced.tracked, (w.stateViolation?_eq_none s).mpr advanced.accepts, List.cons_ne_nil _ _, ?_, ?_, ?_, ?_⟩
  · have opened : (w.ledger s.session).closed = false := by
      rw [World.closed_eq]
      exact advanced.accepts.1
    have accepted := stands.no_violation
    rw [← session] at accepted
    exact World.claimViolation?_eq_none.mpr ⟨opened, List.forall_mem_singleton.mpr accepted⟩
  · rw [session]
    exact stands.given
  · rw [session]
    exact room
  · rw [session]
    exact ⟨plain, trivial⟩

/-- The table of the arguments is built and lies apart from the globals. -/
theorem arguments_built (few : (script.name :: arguments).length ≤ 2 ^ 31) :
    ∃ w s d id serial, Config.Leads (arranged configuration script arguments directory)
        { arranged configuration script arguments directory with
          world := w, control := .outcome (.ok (some s) (.item (.value d))) } ∧
      World.Advanced (arranged configuration script arguments directory).world w ⟨0, 0⟩ s ∧
      w.Stands 0 d (.table id) ∧ (w.machine 0).store.globals < id ∧ id < (w.machine 0).store.tables.size ∧
      (w.machine 0).store.table id =
        { Config.tableOf (argumentValues 0 (script.name :: arguments)) with serial } := by
  obtain ⟨w, s, advanced, gathers⟩ :=
    arguments_gathered configuration script arguments directory few (List.append_nil _).symm
  obtain ⟨w', s', d, id, serial, leads, advanced', stands, fresh, inside, found⟩ :=
    gathers.built rfl ((w.stateViolation?_eq_none s).mpr advanced.accepts) argumentData_stands
  have session : s.session = 0 := advanced.session
  dsimp only at stands fresh inside found
  rw [session] at stands fresh inside found
  have advanced' := advanced.trans advanced'
  obtain ⟨-, before, globals⟩ := advanced_machine configuration script arguments directory advanced
  obtain ⟨-, -, globals'⟩ := advanced_machine configuration script arguments directory advanced'
  have apart : (w'.machine 0).store.globals < id := by
    rw [globals', ← globals]
    exact Nat.lt_of_lt_of_le before.bound fresh
  exact ⟨w', s', d, id, serial, leads, advanced', stands, apart, inside, found⟩

/-- With positions for all arguments they are put into the global variable, and the script is run. -/
theorem script_starts (few : arguments.length < 2 ^ 31) :
    ∃ w s, Config.Leads (start configuration script arguments directory)
        ⟨w, .perform (script.operation s), [.perform (concluding s)]⟩ ∧
      s.session = 0 ∧ w.stateViolation? s = none ∧
      HasArguments (w.machine 0).store (script.name :: arguments) := by
  have few : (script.name :: arguments).length ≤ 2 ^ 31 := few
  obtain ⟨w, s, d, id, serial, leads, advanced, stands, apart, inside, found⟩ :=
    arguments_built configuration script arguments directory few
  have session : s.session = 0 := advanced.session
  obtain ⟨store, w', assigned, called, sets⟩ :=
    (arguments_mayAssign configuration script arguments directory advanced stands).global
  have machine : w.machine s.session = w.machine 0 := congrArg w.machine session
  dsimp only at assigned
  rw [machine] at assigned
  have heap : ((w'.succeed s.session .nothing).1.machine 0).store = store := by
    rw [← called.store, session]
    rfl
  refine ⟨(w'.succeed s.session .nothing).1, (w'.advance s.session).2, ?_, session, ?_, id, ?_, ?_⟩
  · have encoded := Config.Leads.trans ⟨4, start_arranged configuration script arguments directory⟩ leads
    exact ((encoded.trans ⟨2, rfl⟩).trans sets).trans ⟨2, rfl⟩
  · obtain ⟨made, sound⟩ := advanced.tracked
    have accepts : w'.standing.Accepts s := called.standing.symm ▸ advanced.accepts
    obtain ⟨_, _, goesOn, further⟩ :=
      World.succeed_advanced ⟨made, sound.same called.holdings⟩ accepts .nothing
    obtain ⟨rfl, same⟩ := Prod.mk.inj goesOn
    have next : (w'.advance s.session).2 = _ := Option.some.inj (Outcome.ok.inj same).1
    exact (World.stateViolation?_eq_none _ _).mpr (next ▸ further.accepts)
  · have globals : store.globals = (w.machine 0).store.globals := by
      rw [assigned.tables]
    rw [heap, globals]
    exact assigned.cell.found
  · have kept : store.table id = { Config.tableOf (argumentValues 0 (script.name :: arguments)) with serial } := by
      rw [assigned.others id inside (Nat.ne_of_gt apart), found]
    have listed := (Guest.Table.holds_of_keyed (argumentValues_keyed few)).toList (argumentValues_keyed few)
    have same : (store.table id).toList =
        (Config.tableOf (argumentValues 0 (script.name :: arguments))).toList := by
      rw [kept]
      rfl
    rw [heap, same, listed, argumentValues, List.map_map]
    rfl

/-- With more arguments than there are positions the last position is refused. -/
theorem script_refused (many : 2 ^ 31 ≤ arguments.length) :
    ∃ w t, Config.Leads (start configuration script arguments directory)
      ⟨w, .outcome (.threw t), [.perform (assigning script ⟨0, 0⟩)]⟩ := by
  obtain ⟨argument, rest, split⟩ :=
    @argumentRows_split (script.name :: arguments) (2 ^ 31) (Nat.lt_succ_of_le many)
  obtain ⟨w, s, advanced, gathers⟩ :=
    arguments_gathered configuration script arguments directory (List.length_take_le _ _) split
  obtain ⟨t, refused⟩ := encode_beyond
  have threw := gathers.throws rfl (Config.encode_throws refused s _)
  exact ⟨_, t, Config.Leads.trans ⟨4, start_arranged configuration script arguments directory⟩ threw⟩

end Setup

end CommandLine

end LuaHost
