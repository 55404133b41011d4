import LuaHost.Proofs.Sights
import LuaHost.Proofs.Tables
/-!
Tables that encoders build. An encoder ends with a value that stands for a guest value, and nothing that
was there before it is lost: the tables of the heap stay as they are, and what the host has seen is still
shown. Encoders of entries that do so make a table of just these entries.
-/

namespace LuaHost

namespace Guest.Store

/-- The tables of a heap are kept, and others may have been added. -/
structure Grows (store store' : Store) : Prop where
  size : store.tables.size ≤ store'.tables.size
  kept : ∀ id < store.tables.size, store'.table id = store.table id

variable {store store' store'' : Store}

theorem Grows.refl (store : Store) : Grows store store := ⟨Nat.le_refl _, fun _ _ => rfl⟩

theorem Grows.trans (first : Grows store store') (second : Grows store' store'') :
    Grows store store'' where
  size := Nat.le_trans first.size second.size
  kept := by
    intro id bound
    rw [second.kept id (Nat.lt_of_lt_of_le bound first.size), first.kept id bound]

theorem newTable_grows (store : Store) (t : Table) : store.Grows (store.newTable t).1 where
  size := by simp [newTable]
  kept := by
    intro id bound
    simp only [table, newTable, Array.getD_eq_getD_getElem?, Array.getElem?_push_lt bound,
      Array.getElem?_eq_getElem bound]

end Guest.Store

theorem Guest.Value.sight_object {v u : Guest.Value} {kind : CompositeKind}
    (looks : v.sight = .object kind u) : u = v := by
  cases v with
  | nil | bool | int | float | string => exact nomatch looks
  | table | closure | builtin | host | userdata | light | thread =>
      exact (Sight.object.inj looks).2.symm

namespace World
variable {σ : Type}

/-- A value of the host stands for a guest value: it shows it, and it is what the guest is given. -/
structure Stands (w : World σ) (session : Nat) (d : Datum) (v : Guest.Value) : Prop where
  shows : w.Shows session d v.sight
  given : w.give? session d = some v

/-- What building tables leaves as it is: all of the machines but their heaps and slots, and whatever is shown
so far. -/
structure Enriches (w w' : World σ) : Prop where
  shows : ∀ session d x, w.Shows session d x → w'.Shows session d x
  grows : ∀ session, (w.machine session).store.Grows (w'.machine session).store
  machine : ∀ session, ∃ tables slots, w'.machine session =
    { w.machine session with store := { (w.machine session).store with tables }, slots }

variable {w w' w'' : World σ} {session : Nat} {d : Datum} {v : Guest.Value}

theorem Enriches.refl (w : World σ) : Enriches w w :=
  ⟨fun _ _ _ => id, fun _ => .refl _, fun _ => ⟨_, _, rfl⟩⟩

theorem Enriches.trans (first : Enriches w w') (second : Enriches w' w'') : Enriches w w'' where
  shows := fun session d x shows => second.shows session d x (first.shows session d x shows)
  grows := fun session => (first.grows session).trans (second.grows session)
  machine := by
    intro session
    obtain ⟨tables, slots, same⟩ := first.machine session
    obtain ⟨tables', slots', same'⟩ := second.machine session
    exact ⟨tables', slots', by rw [same', same]⟩

theorem Glances.enriches (glances : Glances w w') : Enriches w w' where
  shows := glances.shows
  grows := by
    intro session
    rw [glances.store session]
    exact .refl _
  machine := by
    intro session
    obtain ⟨slots, same⟩ := glances.machine session
    exact ⟨_, slots, same⟩

/-- What is shown does not depend on anything but the holders and on which sessions are open. -/
theorem Shows.congr {x : Sight} (same : w'.holdings = w.holdings)
    (closed : ∀ session, (w'.ledger session).closed = (w.ledger session).closed)
    (shows : w.Shows session d x) : w'.Shows session d x := by
  cases shows with
  | nil => exact .nil
  | bool b => exact .bool b
  | int n => exact .int n
  | float y => exact .float y
  | string s => exact .string s
  | object opened held looks =>
      refine .object ((closed session).trans opened) ?_ looks
      rwa [denoted?, slot?_congr same, slots_congr same]

theorem Stands.enriches (stands : w.Stands session d v) (enriches : Enriches w w') :
    w'.Stands session d v := by
  have shows := enriches.shows session d v.sight stands.shows
  refine ⟨shows, ?_⟩
  have given := stands.given
  generalize seen : v.sight = x at shows
  cases shows with
  | nil | bool | int | float | string => exact given
  | object opened held looks =>
      rw [← Guest.Value.sight_object seen]
      exact give_of_denoted _ held

/-- What stands for a key can be a key. -/
theorem Stands.valid_key (stands : w.Stands session d v) (key : v.key? ≠ none) :
    Config.isInvalidKey (.value d) = false := by
  obtain ⟨shows, given⟩ := stands
  cases d with
  | nil =>
      obtain rfl := Option.some.inj given
      exact absurd rfl key
  | float x =>
      obtain rfl := Option.some.inj given
      cases number : x.isNaN with
      | true => exact absurd (by rw [Guest.Value.key?, if_pos number]) key
      | false => exact number
  | bool | int | string | composite => rfl

/-- A session accepts what stands for guest values. -/
theorem Stands.no_violation (stands : w.Stands session d v) :
    (w.ledger session).itemViolation? session (.value d) = none := by
  obtain ⟨shows, -⟩ := stands
  generalize v.sight = x at shows
  cases shows with
  | nil | bool | int | float | string => rfl
  | object opened held looks =>
      obtain ⟨slot, taken, -⟩ := held_of_denoted held
      have unreleased := (record_of_slot taken).2
      simp only [Ledger.itemViolation?, Item.datum, bne_self_eq_false, unreleased, if_false,
        Bool.false_eq_true]

theorem giveAll_ok {items : List Item} {values : List Guest.Value}
    (given : List.Forall₂ (fun item v => w.give? session item.datum = some v) items values) :
    w.giveAll session items = .ok values := by
  have all : items.map (fun item => w.give? session item.datum) = values.map some := by
    induction given with
    | nil => rfl
    | cons here _ ih => rw [List.map_cons, List.map_cons, here, ih]
  have whole : ((values.map some).takeWhile Option.isSome).filterMap id = values := by
    rw [List.takeWhile_eq_self_iff.mpr (by simp)]
    simp
  simp only [giveAll, all, whole, List.length_map, beq_self_eq_true, if_true]

/-- Where an operation has come to that gave a value: its session goes on with a state. -/
structure Advanced (w w' : World σ) (s s' : State) : Prop where
  tracked : w'.Tracked
  enriches : Enriches w w'
  accepts : w'.standing.Accepts s'
  session : s'.session = s.session

theorem Advanced.trans {s s' s'' : State} (first : Advanced w w' s s')
    (second : Advanced w' w'' s' s'') : Advanced w w'' s s'' where
  tracked := second.tracked
  enriches := first.enriches.trans second.enriches
  accepts := second.accepts
  session := second.session.trans first.session

/-- An operation that succeeds goes on with the successor of its state. -/
theorem succeed_advanced {s : State} (tracked : w.Tracked) (accepts : w.standing.Accepts s)
    (r : Result) : ∃ w' s', w.succeed s.session r = (w', .ok (some s') r) ∧ Advanced w w' s s' := by
  refine ⟨(w.succeed s.session r).1, (w.standing.advance s.session).head s.session, ?_, ?_, ?_, ?_, rfl⟩
  · rw [← w.succeed_outcome s.session r]
  · obtain ⟨made, sound⟩ := tracked
    exact ⟨made, sound.same (w.succeed_holdings s.session r)⟩
  · refine ⟨fun session d x => Shows.congr (w.succeed_holdings s.session r) ?_, fun _ => .refl _,
      fun _ => ⟨_, _, rfl⟩⟩
    intro other
    rw [closed_eq, closed_eq, succeed_standing, Standing.advance_lineage]
    split <;> rfl
  · rw [succeed_standing]
    refine ⟨?_, rfl⟩
    rw [Standing.head, Standing.advance_lineage]
    split
    · exact accepts.1
    · exact accepts.1

/-- A new table is behind a handle of its own, and stands for itself. -/
theorem newTable_advanced {s : State} (tracked : w.Tracked) (accepts : w.standing.Accepts s)
    (t : Guest.Table) :
    let id := (w.machine s.session).store.tables.size
    let made := w.modifyMachine s.session fun m => { m with store := (m.store.newTable t).1 }
    let pinned := made.receive s.session (.table id)
    Advanced w pinned.1 s s ∧ pinned.1.Stands s.session pinned.2 (.table id) ∧
      id < (pinned.1.machine s.session).store.tables.size ∧
      ∃ serial, (pinned.1.machine s.session).store.table id = { t with serial } := by
  intro id made pinned
  have opened : (w.ledger s.session).closed = false := by
    rw [closed_eq]
    exact accepts.1
  have bound : s.session < w.vms.size := by
    obtain ⟨_, sound⟩ := tracked
    exact sound.sizes ▸ opened_lt opened
  have same : made.holdings = w.holdings := modifyMachine_holdings w s.session _ fun _ => rfl
  have tracked' : made.Tracked := by
    obtain ⟨record, sound⟩ := tracked
    exact ⟨record, sound.same same⟩
  have store : (made.machine s.session).store = ((w.machine s.session).store.newTable t).1 := by
    rw [machine_modifyMachine, if_pos ⟨rfl, bound⟩]
  have heap : (pinned.1.machine s.session).store = ((w.machine s.session).store.newTable t).1 := by
    rw [((looks_reading.receive made s.session (.table id)) tracked').2.store, store]
  have built : Enriches w made := by
    refine ⟨fun session d x => Shows.congr same fun _ => rfl, fun other => ?_, fun other => ?_⟩
    · rw [machine_modifyMachine]
      split
      · exact Guest.Store.newTable_grows _ t
      · exact .refl _
    · rw [machine_modifyMachine]
      split <;> exact ⟨_, _, rfl⟩
  obtain ⟨tracked'', glances⟩ := looks_reading.receive made s.session (.table id) tracked'
  have opened' : (made.ledger s.session).closed = false := opened
  refine ⟨⟨tracked'', built.trans glances.enriches, ?_, rfl⟩, ⟨?_, ?_⟩, ?_, ?_⟩
  · rw [glances.standing, modifyMachine_standing]
    exact accepts
  · obtain ⟨_, sound⟩ := tracked'
    exact sound.receive_shows opened' (.table id)
  · obtain ⟨_, sound⟩ := tracked'
    have given := give_of_denoted .table (sound.pin_denoted opened' (.table id))
    exact given
  · rw [heap]
    simp [Guest.Store.newTable, id]
  · rw [heap, Guest.Store.newTable_table]
    exact ⟨_, rfl⟩

end World

namespace Config
variable {σ : Type}

/-- One configuration comes to another after some steps. -/
def Leads (c d : Config σ) : Prop := ∃ n, step^[n] c = d

variable {c d e : Config σ}

theorem Leads.refl (c : Config σ) : Leads c c := ⟨0, rfl⟩

theorem Leads.trans (first : Leads c d) (second : Leads d e) : Leads c e := by
  obtain ⟨m, rfl⟩ := first
  obtain ⟨n, rfl⟩ := second
  exact ⟨n + m, Function.iterate_add_apply _ _ _ _⟩

theorem Leads.step {c : Config σ} (next : Leads c.step d) : Leads c d := by
  obtain ⟨n, rfl⟩ := next
  exact ⟨n + 1, rfl⟩

theorem Leads.reachable {c d : Config σ} (leads : Leads c d) (reachable : Reachable c) :
    Reachable d := by
  obtain ⟨n, rfl⟩ := leads
  exact reachable.run (run_steps c n)

/-- What the value of an encoder is to be, in a heap that may still grow; it is not nil. -/
structure Demand where
  meets : Guest.Store → Guest.Value → Prop
  grows : ∀ {store store' v}, store.Grows store' → meets store v → meets store' v
  present : ∀ {store v}, meets store v → v.isNil = false

/-- An operation that starts with the head of a session ends with a value that meets a demand. -/
def Supplies (op : State → Operation σ) (demand : Demand) : Prop :=
  ∀ (c : Config σ) (s : State), c.control = .perform (op s) → c.world.Tracked →
    c.world.standing.Accepts s → ∃ w s' d v,
      Leads c { c with world := w, control := .outcome (.ok (some s') (.item (.value d))) } ∧
      World.Advanced c.world w s s' ∧ w.Stands s.session d v ∧
      demand.meets (w.machine s.session).store v

/-- Host code that is given the head of a session ends with a value that meets a demand. -/
def Gives (client : State → Client σ) (demand : Demand) : Prop :=
  ∀ (c : Config σ) (s : State), c.control = .client (client s) → c.world.Tracked →
    c.world.standing.Accepts s → ∃ w s' d v,
      Leads c { c with world := w, control := .client (.done s' [.value d]) } ∧
      World.Advanced c.world w s s' ∧ w.Stands s.session d v ∧
      demand.meets (w.machine s.session).store v

theorem Supplies.gives {op : State → Operation σ} {demand : Demand} (supplies : Supplies op demand) :
    Gives (fun s => Client.ofOperation (op s)) demand := by
  intro c s control tracked accepts
  obtain ⟨w, s', d, v, leads, given⟩ := supplies c.step s
    (by simp only [Config.step, control, Client.ofOperation, clientStep])
    (by simpa only [Config.step, control, Client.ofOperation, clientStep] using tracked)
    (by simpa only [Config.step, control, Client.ofOperation, clientStep] using accepts)
  refine ⟨w, s', d, v, .step (leads.trans (.step ?_)), ?_⟩
  · simp only [Config.step, control, Client.ofOperation, clientStep, outcomeStep, Client.ofOutcome]
    exact .refl _
  · simpa only [Config.step, control, Client.ofOperation, clientStep] using given

/-- The demand for a guest value itself. -/
def Demand.exactly (v : Guest.Value) : Demand where
  meets := fun _ u => u = v ∧ u.isNil = false
  grows := fun _ same => same
  present := fun same => same.2

/-- An entry stands for a row of a table. -/
def RowStands (w : World σ) (session : Nat) (entry : Item × Item) (row : Guest.Value × Guest.Value) :
    Prop :=
  w.Stands session entry.1.datum row.1 ∧ w.Stands session entry.2.datum row.2

/-- The value of an entry comes after its key. -/
theorem step_key {w : World σ} {s : State} {d : Datum} {table : TableInProgress σ}
    {value : State → Client σ} {stack : List (Pending σ)} (valid : isInvalidKey (.value d) = false) :
    Config.step ⟨w, .client (.done s [.value d]), .key table value :: stack⟩ =
      ⟨w, .client (value s), .value table (.value d) :: stack⟩ := by
  have got : Config.step ⟨w, .client (.done s [.value d]), .key table value :: stack⟩ =
      gotKey ⟨w, .client (.done s [.value d]), stack⟩ table value s (.value d) := rfl
  rw [got, gotKey, valid]
  rfl

/-- The keys and values of entries. -/
def entryItems (entries : List (Item × Item)) : List Item := entries.flatMap fun e => [e.1, e.2]

/-- A table is made of what its keys and values are in the guest, if the session accepts them. -/
theorem building_made {c : Config σ} {table : TableInProgress σ} {last : State}
    {keys values : List Guest.Value} (tracked : c.world.Tracked)
    (accepts : c.world.standing.Accepts last)
    (claimed : (c.world.ledger last.session).claimViolation? last.session
      (entryItems table.done.reverse) = none)
    (givesKeys : c.world.giveAll last.session (table.done.reverse.map (·.1)) = .ok keys)
    (givesValues : c.world.giveAll last.session (table.done.reverse.map (·.2)) = .ok values) :
    ∃ w s' d id serial, c.building table last =
        { c with world := w, control := .outcome (.ok (some s') (.item (.value d))) } ∧
      World.Advanced c.world w last s' ∧ w.Stands last.session d (.table id) ∧
      (c.world.machine last.session).store.tables.size ≤ id ∧
      id < (w.machine last.session).store.tables.size ∧
      (w.machine last.session).store.table id = { tableOf (keys.zip values) with serial } := by
  have accepted := (c.world.stateViolation?_eq_none last).mpr accepts
  obtain ⟨advanced, stood, inside, serial, found⟩ :=
    World.newTable_advanced tracked accepts (tableOf (keys.zip values))
  obtain ⟨w, s', gave, advanced'⟩ :=
    World.succeed_advanced advanced.tracked advanced.accepts (.item (.value _))
  refine ⟨w, s', _, _, serial, ?_, advanced.trans advanced', stood.enriches advanced'.enriches,
    Nat.le_refl _, ?_, ?_⟩
  · simp only [building, accepted]
    rw [show (c.world.ledger last.session).claimViolation? last.session
      (table.done.reverse.flatMap _) = none from claimed]
    simp only [givesKeys, givesValues]
    rw [gave]
    rfl
  · exact Nat.lt_of_lt_of_le inside (advanced'.enriches.grows last.session).size
  · rw [(advanced'.enriches.grows last.session).kept _ inside, found]

section Entries
variable {κ η : Type} {f : κ → State → Client σ} {g : η → State → Client σ} {keyOf : κ → Guest.Value}
  {demand : η → Demand} {rows : List (κ × η)}

/-- A row of a table is what is demanded. -/
def Meets (keyOf : κ → Guest.Value) (demand : η → Demand) (store : Guest.Store) (r : κ × η)
    (row : Guest.Value × Guest.Value) : Prop :=
  row.1 = keyOf r.1 ∧ (demand r.2).meets store row.2

/-- The encoders of an entry give what is demanded, and its key can be one. -/
structure Fills (f : κ → State → Client σ) (g : η → State → Client σ) (keyOf : κ → Guest.Value)
    (demand : η → Demand) (r : κ × η) : Prop where
  key : Gives (f r.1) (.exactly (keyOf r.1))
  value : Gives (g r.2) (demand r.2)
  valid : (keyOf r.1).key? ≠ none

/-- The encoders of the entries are run one after the other. -/
theorem entries_run (fills : ∀ r ∈ rows, Fills f g keyOf demand r) (c : Config σ)
    (table : TableInProgress σ) {last : State} {done : List (Guest.Value × Guest.Value)}
    (rest : table.rest = .ofList (rows.map fun r => (f r.1, g r.2))) (tracked : c.world.Tracked)
    (accepts : c.world.standing.Accepts last)
    (stands : List.Forall₂ (RowStands c.world last.session) table.done.reverse done) :
    ∃ c' table' last' added, Leads (c.nextEntry table last) (Config.building c' table' last') ∧
      c'.stack = c.stack ∧ World.Advanced c.world c'.world last last' ∧
      List.Forall₂ (RowStands c'.world last.session) table'.done.reverse (done ++ added) ∧
      List.Forall₂ (Meets keyOf demand (c'.world.machine last.session).store) rows added := by
  induction rows generalizing c table last done with
  | nil =>
      refine ⟨c, table, last, [], ?_, rfl, ⟨tracked, .refl _, accepts, rfl⟩, ?_, .nil⟩
      · simp only [nextEntry, rest, List.map_nil, Encoders.ofList]
        exact .refl _
      · rwa [List.append_nil]
  | cons r rows ih =>
      have filled := fills r List.mem_cons_self
      simp only [List.map_cons, Encoders.ofList] at rest
      let table₁ : TableInProgress σ := ⟨table.origin, table.done, .ofList (rows.map fun r => (f r.1, g r.2))⟩
      let c₁ : Config σ := ⟨c.world, .client (f r.1 last), .key table₁ (g r.2) :: c.stack⟩
      have begun : c.nextEntry table last = c₁ := by
        simp only [nextEntry, rest]
        rfl
      obtain ⟨w₂, s₂, dk, vk, leads₂, advanced₂, stands₂, rfl, -⟩ :=
        filled.key c₁ last rfl tracked accepts
      let c₂ : Config σ := ⟨w₂, .client (g r.2 s₂), .value table₁ (.value dk) :: c.stack⟩
      have keyed : Leads c₁ c₂ := by
        refine leads₂.trans (.step ?_)
        rw [step_key (stands₂.valid_key filled.valid)]
        exact .refl _
      obtain ⟨w₃, s₃, dv, v, leads₃, advanced₃, stands₃, meets⟩ :=
        filled.value c₂ s₂ rfl advanced₂.tracked advanced₂.accepts
      let c₃ : Config σ := ⟨w₃, .client (.done s₃ [.value dv]), c.stack⟩
      let table₃ : TableInProgress σ := { table₁ with done := (.value dk, .value dv) :: table₁.done }
      have valued : Leads c₂ (c₃.nextEntry table₃ s₃) := leads₃.trans (.step (.refl _))
      have advanced := advanced₂.trans advanced₃
      rw [advanced₂.session] at stands₃ meets
      have stood : List.Forall₂ (RowStands w₃ s₃.session) table₃.done.reverse
          (done ++ [(keyOf r.1, v)]) := by
        rw [advanced.session]
        have before : List.Forall₂ (RowStands w₃ last.session) table₁.done.reverse done :=
          stands.imp fun _ _ both =>
            ⟨both.1.enriches advanced.enriches, both.2.enriches advanced.enriches⟩
        have here : RowStands w₃ last.session (.value dk, .value dv) (keyOf r.1, v) :=
          ⟨stands₂.enriches advanced₃.enriches, stands₃⟩
        rw [List.reverse_cons]
        exact List.rel_append before (.cons here .nil)
      obtain ⟨c', table', last', added, leads, stack, advanced', stands', meets'⟩ :=
        ih (fun r mem => fills r (List.mem_cons_of_mem _ mem)) c₃ table₃ rfl
          advanced₃.tracked advanced₃.accepts stood
      rw [advanced.session] at stands' meets'
      refine ⟨c', table', last', (keyOf r.1, v) :: added, ?_, stack, advanced.trans advanced', ?_, ?_⟩
      · rw [begun]
        exact (keyed.trans valued).trans leads
      · simpa using stands'
      · refine .cons ⟨rfl, (demand r.2).grows ?_ meets⟩ meets'
        exact advanced'.enriches.grows last.session

/-- The heap has a table of just these rows. -/
def HasTable (store : Guest.Store) (v : Guest.Value) (built : List (Guest.Value × Guest.Value)) : Prop :=
  ∃ id, v = .table id ∧ id < store.tables.size ∧ (store.table id).Holds built

/-- When all entries are there, the table is made of their rows. -/
theorem building_rows {c : Config σ} {table : TableInProgress σ} {last : State}
    {built : List (Guest.Value × Guest.Value)} (tracked : c.world.Tracked)
    (accepts : c.world.standing.Accepts last)
    (stands : List.Forall₂ (RowStands c.world last.session) table.done.reverse built) :
    ∃ w s' d id serial, c.building table last =
        { c with world := w, control := .outcome (.ok (some s') (.item (.value d))) } ∧
      World.Advanced c.world w last s' ∧ w.Stands last.session d (.table id) ∧
      (c.world.machine last.session).store.tables.size ≤ id ∧
      id < (w.machine last.session).store.tables.size ∧
      (w.machine last.session).store.table id = { tableOf built with serial } := by
  have opened : (c.world.ledger last.session).closed = false := by
    rw [World.closed_eq]
    exact accepts.1
  have each : ∀ e ∈ table.done.reverse,
      (c.world.ledger last.session).itemViolation? last.session e.1 = none ∧
        (c.world.ledger last.session).itemViolation? last.session e.2 = none :=
    ((List.forall₂_and_left _ _).mp (stands.imp fun _ _ both =>
      ⟨⟨both.1.no_violation, both.2.no_violation⟩, both⟩)).1
  have claimed : (c.world.ledger last.session).claimViolation? last.session
      (entryItems table.done.reverse) = none := by
    simp only [Ledger.claimViolation?, opened, Bool.false_eq_true, if_false, List.findSome?_eq_none_iff]
    intro item mem
    obtain ⟨e, entry, here⟩ := List.mem_flatMap.mp mem
    rcases List.mem_pair.mp here with rfl | rfl
    · exact (each e entry).1
    · exact (each e entry).2
  have keys : c.world.giveAll last.session (table.done.reverse.map (·.1)) = .ok (built.map (·.1)) := by
    refine World.giveAll_ok ?_
    rw [List.forall₂_map_left_iff, List.forall₂_map_right_iff]
    exact stands.imp fun _ _ both => both.1.given
  have values : c.world.giveAll last.session (table.done.reverse.map (·.2)) =
      .ok (built.map (·.2)) := by
    refine World.giveAll_ok ?_
    rw [List.forall₂_map_left_iff, List.forall₂_map_right_iff]
    exact stands.imp fun _ _ both => both.2.given
  have zipped : (built.map (·.1)).zip (built.map (·.2)) = built := (List.zip_of_prod rfl rfl).symm
  have made := building_made tracked accepts claimed keys values
  rwa [zipped] at made

/-- Rows with keys of their own make a table of just these rows. -/
theorem building_run {c : Config σ} {table : TableInProgress σ} {last : State}
    {built : List (Guest.Value × Guest.Value)} (tracked : c.world.Tracked)
    (accepts : c.world.standing.Accepts last)
    (stands : List.Forall₂ (RowStands c.world last.session) table.done.reverse built)
    (keyed : Guest.Keyed built) :
    ∃ w s' d v, c.building table last =
        { c with world := w, control := .outcome (.ok (some s') (.item (.value d))) } ∧
      World.Advanced c.world w last s' ∧ w.Stands last.session d v ∧
      HasTable (w.machine last.session).store v built := by
  obtain ⟨w, s', d, id, serial, made, advanced, stood, -, inside, found⟩ :=
    building_rows tracked accepts stands
  refine ⟨w, s', d, _, made, advanced, stood, id, rfl, inside, ?_⟩
  rw [found]
  exact (Guest.Table.holds_of_keyed keyed).numbered serial

theorem Meets.grows {store store' : Guest.Store} {r : κ × η} {row : Guest.Value × Guest.Value}
    (grown : store.Grows store') (meets : Meets keyOf demand store r row) :
    Meets keyOf demand store' r row :=
  ⟨meets.1, (demand r.2).grows grown meets.2⟩

theorem keyed_of_meets {store : Guest.Store} {built : List (Guest.Value × Guest.Value)}
    (valid : ∀ r ∈ rows, (keyOf r.1).key? ≠ none)
    (distinct : (rows.map fun r => (keyOf r.1).key?).Nodup)
    (meets : List.Forall₂ (Meets keyOf demand store) rows built) : Guest.Keyed built := by
  have keys : built.map (·.1.key?) = rows.map fun r => (keyOf r.1).key? := by
    clear valid distinct
    induction meets with
    | nil => rfl
    | cons here _ ih => rw [List.map_cons, List.map_cons, ih, here.1]
  refine ⟨?_, keys ▸ distinct, ?_⟩
  · intro row mem
    have mem := List.mem_map_of_mem (f := (·.1.key?)) mem
    rw [keys] at mem
    obtain ⟨r, mem, same⟩ := List.mem_map.mp mem
    exact same ▸ valid r mem
  · have flipped := meets.flip
    exact ((List.forall₂_and_left _ _).mp (flipped.imp fun _ _ met =>
      ⟨(demand _).present met.2, met⟩)).1

/-- The demand for a table of these rows. -/
def rowsDemand (keyOf : κ → Guest.Value) (demand : η → Demand) (rows : List (κ × η)) : Demand where
  meets := fun store v => ∃ built, HasTable store v built ∧ Guest.Keyed built ∧
    List.Forall₂ (Meets keyOf demand store) rows built
  grows := by
    rintro store store' v grown ⟨built, ⟨id, rfl, inside, holds⟩, keyed, meets⟩
    refine ⟨built, ⟨id, rfl, Nat.lt_of_lt_of_le inside grown.size, ?_⟩, keyed, ?_⟩
    · rwa [grown.kept id inside]
    · exact meets.imp fun _ _ => Meets.grows grown
  present := by
    rintro store v ⟨built, ⟨id, rfl, -⟩, -⟩
    rfl

/-- Encoding the entries of a table ends with a table of their rows. -/
theorem encodeTable_supplies (fills : ∀ r ∈ rows, Fills f g keyOf demand r)
    (distinct : (rows.map fun r => (keyOf r.1).key?).Nodup) :
    Supplies (fun s => .encodeTable s (.ofList (rows.map fun r => (f r.1, g r.2))))
      (rowsDemand keyOf demand rows) := by
  intro c s control tracked accepts
  let table : TableInProgress σ := ⟨s, [], .ofList (rows.map fun r => (f r.1, g r.2))⟩
  have begun : c.step = c.nextEntry table s := by
    have accepted := (c.world.stateViolation?_eq_none s).mpr accepts
    simp only [Config.step, control, perform, requiring, accepted]
    rfl
  obtain ⟨c', table', last, built, leads, stack, advanced, stands, meets⟩ :=
    entries_run fills c table rfl tracked accepts .nil
  rw [List.nil_append] at stands
  have keyed := keyed_of_meets (fun r mem => (fills r mem).valid) distinct meets
  rw [← advanced.session] at stands meets ⊢
  obtain ⟨w, s', d, v, made, advanced', stood, has⟩ :=
    building_run advanced.tracked advanced.accepts stands keyed
  refine ⟨w, s', d, v, .step ?_, advanced.trans advanced', stood, built, has, keyed, ?_⟩
  · rw [begun, ← stack]
    rw [made] at leads
    exact leads
  · exact meets.imp fun _ _ => Meets.grows (advanced'.enriches.grows last.session)

end Entries

end Config

end LuaHost
