import LuaHost.Proofs.Paths
import LuaHost.Proofs.Deliveries
/-!
What an assignment along a path makes of a session's heap, when no metatable is met on its way: it fails and
leaves the heap as it is, if a value that is no table is in its way, and otherwise it succeeds and changes one
cell. Tables may be shared, and may lead back to themselves.
-/

namespace LuaHost

variable {σ : Type}

/-- A call of the guest is over that left a session with a heap, and holders and lineages as they were. -/
structure World.Called (w w' : World σ) (session : Nat) (store : Guest.Store) : Prop where
  holdings : w'.holdings = w.holdings
  standing : w'.standing = w.standing
  store : (w'.machine session).store = store
  floor : (w'.machine session).floor = (w.machine session).floor
  only : ∃ f, (∀ m : Guest.Machine, (f m).slots = m.slots) ∧ w'.vms = (w.modifyMachine session f).vms

namespace Config
variable {c : Config σ} {s : State}

theorem bound_of_accepted {w : World σ} (tracked : w.Tracked) (accepted : w.stateViolation? s = none) :
    s.session < w.vms.size := by
  obtain ⟨made, sound⟩ := tracked
  have opened := ((w.stateViolation?_eq_none s).mp accepted).1
  rw [← World.closed_eq] at opened
  rw [← sound.sizes]
  exact World.opened_lt opened

/-- A function of the host's own that calls nothing is called and returns. -/
theorem program_returns (purpose : Purpose) {p : Guest.Program} {store : Guest.Store}
    {values : List Guest.Value} {count : Nat} (tracked : c.world.Tracked)
    (accepted : c.world.stateViolation? s = none)
    (room : (c.world.machine s.session).HasRoomFor count)
    (settles : Guest.Settles (c.world.machine s.session).slots
      ((c.world.machine s.session).floor.1 + 2) (c.world.machine s.session).store p store values) :
    ∃ w', c.world.Called w' s.session store ∧
      Leads (c.enteringProgram s purpose p) (c.ending (returned s.session purpose values w')) := by
  obtain ⟨i, finished, heap, floor⟩ := Guest.Machine.runs_program room settles
  have bound := bound_of_accepted tracked accepted
  have head := ((c.world.stateViolation?_eq_none s).mp accepted).2
  let enters (m : Guest.Machine) : Guest.Machine := m.enterGate.runFromHost p
  let runs (m : Guest.Machine) : Guest.Machine := (enters m).run i
  let entered := c.world.modifyMachine s.session enters
  have bound' : s.session < entered.vms.size := by simpa [entered, World.modifyMachine] using bound
  have machine : entered.machine s.session = enters (c.world.machine s.session) := by
    rw [World.machine_modifyMachine, if_pos ⟨rfl, bound⟩]
  have ends : ((entered.machine s.session).run i).signal = some (.finished values) := by
    rw [machine]
    exact finished
  have leads := guest_ends (w := entered) s purpose (T := c.stack) bound' ends trivial
  have whole : entered.modifyMachine s.session (·.run i) = c.world.modifyMachine s.session runs :=
    World.modifyMachine_twice _ _ _ _
  have ran : (c.world.modifyMachine s.session runs).machine s.session =
      runs (c.world.machine s.session) := by
    rw [World.machine_modifyMachine, if_pos ⟨rfl, bound⟩]
  rw [whole] at leads
  have slots (m : Guest.Machine) : (runs m).slots = m.slots := by simp [runs, enters]
  refine ⟨(c.world.modifyMachine s.session runs).restore s, ⟨?_, ?_, ?_, ?_, runs, slots, rfl⟩, leads⟩
  · rw [World.restore_holdings]
    exact World.modifyMachine_holdings _ _ _ slots
  · rw [World.restore_standing, World.modifyMachine_standing,
      Standing.restore_head _ head]
  · exact (congrArg Guest.Machine.store ran).trans heap
  · exact (congrArg Guest.Machine.floor ran).trans floor

/-! ### Assignments -/

/-- A session is about to perform an assignment that it accepts, and for whose walk there is room. No
metatable is met on the way. -/
structure MayAssign (c : Config σ) (s : State) (keys : List String) (item : Item) (v : Guest.Value) :
    Prop where
  control : c.control = .perform (.set s keys item)
  tracked : c.world.Tracked
  accepted : c.world.stateViolation? s = none
  nonempty : keys ≠ []
  claimed : (c.world.ledger s.session).claimViolation? s.session [item] = none
  given : c.world.give? s.session item.datum = some v
  room : (c.world.machine s.session).HasRoomFor (keys.length + 3)
  plain : (c.world.machine s.session).store.Plain keys
    (.table (c.world.machine s.session).store.globals)

theorem assignedValue_yields {item : Item} {v : Guest.Value} {session top : Nat} {store : Guest.Store}
    (given : c.world.give? session item.datum = some v) :
    (c.assignedValue item).Yields (c.world.machine session).slots top store store v := by
  rw [assignedValue]
  generalize item.datum = d at given
  cases d with
  | nil | bool | float | string =>
      obtain rfl := Option.some.inj given
      exact .pure store _
  | int n =>
      rw [World.give?] at given
      split at given
      · next fits =>
          obtain rfl := Option.some.inj given
          intro k _ _ rest
          have plain : (if Guest.fitsInt32 n = true then pure (.int (Int32.ofInt n)) else fun _ => .breakDown) =
              (pure (.int (Int32.ofInt n)) : Guest.Act Guest.Value) := if_pos fits
          exact (congrArg (Guest.Settles _ _ _ · _ _) (congrFun plain k)).mpr rest
      · cases given
  | composite _ h =>
      obtain rfl := Option.some.inj given
      exact fun _ _ _ rest => .slot rest

theorem MayAssign.step {keys : List String} {item : Item} {v : Guest.Value}
    (may : c.MayAssign s keys item v) :
    c.step = c.enteringProgram s (.assign keys) (Path.assign keys (c.assignedValue item)) := by
  have path : ¬ keys.isEmpty = true := by simpa using may.nonempty
  simp only [Config.step, may.control, perform, assigning, requiring, may.accepted, if_neg path, claiming,
    may.claimed]

theorem ofValues_toValues (collision : Path.Collision) (bound : collision.length < 2 ^ 31) :
    Path.Collision.ofValues? collision.toValues = some collision := by
  obtain ⟨length, observed⟩ := collision
  simp only [Path.Collision.toValues, Guest.ofText, Path.Collision.ofValues?,
    Int32.toInt_ofNat_of_lt bound, Int.toNat_natCast, Text.decode_encode]

/-- An assignment runs into a value that is no table, or changes the heap and succeeds. -/
theorem MayAssign.runs {keys : List String} {item : Item} {v : Guest.Value}
    (may : c.MayAssign s keys item v) :
    (∃ i u w', Guest.Blocks (c.world.machine s.session).store
        (.table (c.world.machine s.session).store.globals) keys i u ∧
      c.world.Called w' s.session (c.world.machine s.session).store ∧
      Leads c (c.ending (w'.fail s.session (.pathCollision keys (keys.take i) u.typeName)))) ∨
    (∃ store' w' before id key after, Guest.Reaches (c.world.machine s.session).store
        (.table (c.world.machine s.session).store.globals) keys before id key after ∧
      Guest.Assigned (c.world.machine s.session).store store' id key after v ∧
      c.world.Called w' s.session store' ∧
      Leads c (c.ending (w'.succeed s.session .nothing))) := by
  have walks := Guest.assign_settles (fun _ => assignedValue_yields may.given) may.nonempty may.room.values
    may.plain
  obtain ⟨i, u, blocks, settles⟩ | ⟨store', before, id, key, after, reaches, assigned, settles⟩ := walks
  · obtain ⟨w', called, leads⟩ :=
      program_returns (.assign keys) may.tracked may.accepted may.room settles
    have small : i < 2 ^ 31 := by
      have inside := blocks.inside.2
      have limit := may.room.values
      have size : Guest.stackLimit = 1000000 := rfl
      omega
    have failed : returned s.session (.assign keys) (Path.Collision.toValues ⟨i, u.typeName⟩) w' =
        w'.fail s.session (.pathCollision keys (keys.take i) u.typeName) := by
      rw [returned, ofValues_toValues _ small]
    rw [failed] at leads
    exact .inl ⟨i, u, w', blocks, called, .step (may.step ▸ leads)⟩
  · obtain ⟨w', called, leads⟩ :=
      program_returns (.assign keys) may.tracked may.accepted may.room settles
    exact .inr ⟨store', w', before, id, key, after, reaches, assigned, called, .step (may.step ▸ leads)⟩

/-- Nothing is in the way of a global variable. -/
theorem MayAssign.global {name : String} {item : Item} {v : Guest.Value} (may : c.MayAssign s [name] item v) :
    ∃ store' w', Guest.Assigned (c.world.machine s.session).store store'
        (c.world.machine s.session).store.globals name [] v ∧
      c.world.Called w' s.session store' ∧ Leads c (c.ending (w'.succeed s.session .nothing)) := by
  obtain ⟨i, u, _, blocks, -⟩ | ⟨store', w', before, id, key, after, reaches, assigned, called, leads⟩ := may.runs
  · exact absurd blocks.inside (by rw [List.length_singleton]; omega)
  · obtain ⟨rfl, rfl, rfl⟩ : before = [] ∧ name = key ∧ [] = after := by
      cases before with
      | nil => exact ⟨rfl, List.cons.inj reaches.split⟩
      | cons _ before => simpa using (List.cons.inj reaches.split).2
    obtain rfl := Guest.Value.table.inj (Option.some.inj reaches.found)
    exact ⟨store', w', assigned, called, leads⟩

end Config

namespace World
variable {w : World σ} {session : Nat} {fault : Fault}

/-- A failure is told to the host, and nothing comes of it in the guests. -/
theorem fail_vms (w : World σ) (session : Nat) (fault : Fault) : (w.fail session fault).1.vms = w.vms := by
  have told : ∀ (w : World σ) f, (w.report session f).1.vms = w.vms := by
    intro w f
    unfold report notify
    split <;> rfl
  simp only [fail]
  split
  all_goals
    next w' heard =>
      have same := told (w.newFailure fault).1 (w.newFailure fault).2
      rw [heard] at same
      exact same

theorem fail_err (quiet : w.standing.Quiet session) (fault : Fault) :
    ∃ identity, (w.fail session fault).2 = .err ⟨identity, fault⟩ := by
  have heard := report_quiet (w.newFailure fault).1 quiet (w.newFailure fault).2
  simp only [fail]
  split
  · exact ⟨_, rfl⟩
  · simp_all

end World

namespace Config
variable {c : Config σ} {s : State}

/-- If a value that is no table is in the way of an assignment, the assignment fails, names the first such
value on its way, and leaves the heap as it is. If not, it succeeds, and the heap is another one only in the
cell where the path leaves what there is: the cell holds the value, or the first of the tables that are made
for the rest of the path. -/
theorem assignment_effect {keys : List String} {item : Item} {v : Guest.Value}
    (may : c.MayAssign s keys item v) :
    let store := (c.world.machine s.session).store
    let globals := Guest.Value.table store.globals
    (∀ i u, Guest.Blocks store globals keys i u →
      (∀ j u', Guest.Blocks store globals keys j u' → i ≤ j) ∧
      ∃ w o, Leads c (c.ending (w, o)) ∧ (w.machine s.session).store = store ∧ ¬ o.IsOk ∧
        (c.world.standing.Quiet s.session →
          ∃ identity, o = .err ⟨identity, .pathCollision keys (keys.take i) u.typeName⟩)) ∧
    ((∀ i u, ¬ Guest.Blocks store globals keys i u) →
      ∃ w before id key after, Guest.Reaches store globals keys before id key after ∧
        Leads c (c.ending (w, .ok (some (w.head s.session)) .nothing)) ∧
        Guest.Assigned store (w.machine s.session).store id key after v) := by
  intro store globals
  refine ⟨?_, ?_⟩
  · intro i u blocks
    refine ⟨fun j u' other => Nat.le_of_eq (blocks.unique other), ?_⟩
    obtain ⟨i', u', w', blocks', called, leads⟩ | ⟨_, _, _, _, _, _, reaches, -⟩ := may.runs
    · obtain rfl := blocks.unique blocks'
      obtain rfl := Option.some.inj (blocks.found.symm.trans blocks'.found)
      have heap : (w'.fail s.session (.pathCollision keys (keys.take i) u.typeName)).1.machine s.session =
          w'.machine s.session := by
        simp only [World.machine, World.fail_vms]
      refine ⟨_, _, leads, (congrArg Guest.Machine.store heap).trans called.store,
        World.fail_not_ok _ _ _, ?_⟩
      intro quiet
      exact World.fail_err (by rwa [called.standing]) _
    · exact absurd blocks reaches.free
  · intro free
    obtain ⟨i, u, _, blocks, -⟩ | ⟨store', w', before, id, key, after, reaches, assigned, called, leads⟩ :=
      may.runs
    · exact absurd blocks (free i u)
    · have heap : ((w'.succeed s.session .nothing).1.machine s.session).store = store' := called.store
      exact ⟨_, before, id, key, after, reaches, leads, heap.symm ▸ assigned⟩

/-- A session without libraries has been opened, and is about to assign a number where the first name of the
path is missing. -/
def grafting : Config Unit :=
  step^[4] (start { directory := default, memory := () } (.perform
    (.init { libraries := .only [], callbacks := { onLog := fun _ _ memory => (memory, none) } }) fun
      | .ok (some s) _ => Client.inTurn [.set s ["a", "b"] (.value (.int 7))]
      | _ => .throw (.value .undefined)))

theorem grafting_missing : ((grafting.world.machine 0).store.table 0).getText "a" = .nil := by
  have empty : (grafting.world.machine 0).store.table 0 = { serial := 1 } := rfl
  rw [empty]
  simp [Guest.Table.getText, Guest.Table.getKey]

theorem grafting_mayAssign : grafting.MayAssign ⟨0, 0⟩ ["a", "b"] (.value (.int 7)) (.int 7) where
  control := rfl
  tracked := by
    have reachable : Reachable grafting := ⟨_, default, (), run_steps _ _⟩
    obtain ⟨made, recorded⟩ := reachable.recorded
    exact ⟨made, recorded.sound⟩
  accepted := rfl
  nonempty := List.cons_ne_nil _ _
  claimed := rfl
  given := rfl
  room := ⟨by decide, by decide, by decide⟩
  plain := by
    refine ⟨⟨_, rfl, rfl⟩, ?_⟩
    have missing := grafting_missing
    rw [show (grafting.world.machine 0).store.globals = 0 from rfl]
    rw [missing]
    exact trivial

theorem grafting_free (i : Nat) (u : Guest.Value) :
    ¬ Guest.Blocks (grafting.world.machine 0).store (.table 0) ["a", "b"] i u := by
  rintro ⟨⟨positive, inside⟩, found, present, -⟩
  obtain rfl : i = 1 := by
    simp only [List.length_cons, List.length_nil] at inside
    omega
  exact present (Option.some.inj (found.symm.trans (congrArg some grafting_missing)))

theorem grafting_reaches {before after : List String} {id : Nat} {key : String}
    (reaches : Guest.Reaches (grafting.world.machine 0).store (.table 0) ["a", "b"] before id key after) :
    id = 0 ∧ key = "a" ∧ after = ["b"] := by
  obtain ⟨split, found, -⟩ := reaches
  cases before with
  | nil =>
      obtain ⟨rfl, rfl⟩ := List.cons.inj split
      exact ⟨(Guest.Value.table.inj (Option.some.inj found)).symm, rfl, rfl⟩
  | cons name before =>
      obtain ⟨rfl, -⟩ := List.cons.inj split
      have missing : (grafting.world.machine 0).store.behind before .nil = some (.table id) :=
        grafting_missing ▸ found
      cases before with
      | nil => exact nomatch missing
      | cons => exact nomatch missing

/-- The table that is missing is made. -/
theorem grafting_assigned : ∃ w, Leads grafting (grafting.ending (w, .ok (some (w.head 0)) .nothing)) ∧
    Guest.Assigned (grafting.world.machine 0).store (w.machine 0).store 0 "a" ["b"] (.int 7) := by
  obtain ⟨-, succeeds⟩ := assignment_effect grafting_mayAssign
  obtain ⟨w, before, id, key, after, reaches, leads, assigned⟩ := succeeds grafting_free
  obtain ⟨rfl, rfl, rfl⟩ := grafting_reaches reaches
  exact ⟨w, leads, assigned⟩

end Config

end LuaHost
