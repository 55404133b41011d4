import LuaHost.Proofs.Journals
import LuaHost.Proofs.NamedCalls
import LuaHost.Proofs.RoundTrip
/-!
Values that are handed over between the host and a guest. What shows guest values is given to the guest as these
values, and what the guest hands over is received as values that show them, one for one and in order. Handing over
and receiving leave everything as it is that has been handed over before.
-/

namespace LuaHost

variable {σ : Type}

/-- An integer that is seen is one that a guest can have. -/
def Sight.Fits (x : Sight) : Prop := ∀ n, x = .int n → Guest.fitsInt32 n = true

namespace World
variable {w w' w'' : World σ} {session : Nat} {d : Datum} {x : Sight} {item : Item} {items : List Item}
  {xs : List Sight}

/-- These items show these values, in order. -/
def ShowAll (w : World σ) (session : Nat) (items : List Item) (xs : List Sight) : Prop :=
  List.Forall₂ (fun item x => w.Shows session item.datum x) items xs

/-! ### To the guest -/

/-- What shows a value that the guest can have stands for it. -/
theorem Shows.stands (shows : w.Shows session d x) (fits : x.Fits) : ∃ v, v.sight = x ∧ w.Stands session d v := by
  cases shows with
  | nil => exact ⟨.nil, rfl, .nil, rfl⟩
  | bool b => exact ⟨.bool b, rfl, stands_bool b⟩
  | int n =>
      have same : (Int32.ofInt n).toInt = n := by
        have bounds := (Guest.fitsInt32_iff n).mp (fits n rfl)
        exact Int32.toInt_ofInt_of_le bounds.1 (by omega)
      refine ⟨.int (Int32.ofInt n), congrArg Sight.int same, ?_⟩
      have stands : w.Stands session (.int (Int32.ofInt n).toInt) (.int (Int32.ofInt n)) := stands_int (Int32.ofInt n)
      rwa [same] at stands
  | float y => exact ⟨.float y, rfl, stands_float y⟩
  | string s => exact ⟨Guest.ofText s, Guest.sight_ofText s, stands_string s⟩
  | object opened held looks => exact ⟨_, looks, looks.symm ▸ .object opened held looks, give_of_denoted _ held⟩

/-- A session accepts what shows something in it. -/
theorem Shows.claimed (shows : w.Shows session item.datum x) :
    (w.ledger session).itemViolation? session item = none := by
  rw [Ledger.itemViolation?]
  generalize item.datum = d at shows
  cases shows with
  | nil | bool | int | float | string => rfl
  | object opened held looks =>
      obtain ⟨slot, taken, -⟩ := held_of_denoted held
      simp only [bne_self_eq_false, (record_of_slot taken).2, if_false, Bool.false_eq_true]

theorem ShowAll.claimed (shown : w.ShowAll session items xs) (opened : (w.ledger session).closed = false) :
    (w.ledger session).claimViolation? session items = none := by
  rw [Ledger.claimViolation?, if_neg (by simp [opened]), List.findSome?_eq_none_iff]
  exact ((List.forall₂_and_left _ _).mp (shown.imp fun _ _ shows => ⟨shows.claimed, shows⟩)).1

/-- The guest is given the values that are shown. -/
theorem ShowAll.given (shown : w.ShowAll session items xs) (fits : ∀ x ∈ xs, x.Fits) :
    ∃ values : List Guest.Value, values.map (·.sight) = xs ∧ w.giveAll session items = .ok values := by
  have each : ∃ values : List Guest.Value, values.map (·.sight) = xs ∧
      List.Forall₂ (fun item v => w.give? session item.datum = some v) items values := by
    induction shown with
    | nil => exact ⟨[], rfl, .nil⟩
    | cons shows _ ih =>
        obtain ⟨v, rfl, stands⟩ := shows.stands (fits _ List.mem_cons_self)
        obtain ⟨values, rfl, given⟩ := ih fun x mem => fits x (List.mem_cons_of_mem _ mem)
        exact ⟨v :: values, rfl, .cons stands.given given⟩
  obtain ⟨values, same, given⟩ := each
  exact ⟨values, same, giveAll_ok given⟩

/-! ### From the guest -/

/-- The host receives values that show what the guest hands over. -/
theorem receiveAll_shown (tracked : w.Tracked) (opened : (w.ledger session).closed = false)
    (values : List Guest.Value) :
    (w.receiveAll session values).1.ShowAll session ((w.receiveAll session values).2.map .value)
      (values.map (·.sight)) := by
  -- by induction, with what has been received before, the last value first
  have fold : ∀ (w : World σ) (done : List Datum) (seen : List Sight), w.Tracked →
      (w.ledger session).closed = false → List.Forall₂ (w.Shows session) done seen →
      List.Forall₂ ((values.foldl (fun (p : World σ × List Datum) v =>
          ((p.1.receive session v).1, (p.1.receive session v).2 :: p.2)) (w, done)).1.Shows session)
        (values.foldl (fun (p : World σ × List Datum) v =>
          ((p.1.receive session v).1, (p.1.receive session v).2 :: p.2)) (w, done)).2
        ((values.map (·.sight)).reverse ++ seen) := by
    induction values with
    | nil => exact fun w done seen _ _ shown => shown
    | cons v rest ih =>
        intro w done seen tracked opened shown
        obtain ⟨made, sound⟩ := tracked
        have here := sound.receive_shows opened v
        obtain ⟨tracked, glances⟩ := looks_reading.receive w session v ⟨made, sound⟩
        have before := shown.imp fun d x => glances.shows session d x
        have after := ih _ _ (v.sight :: seen) tracked ((glances.closed session).trans opened) (.cons here before)
        simpa only [List.foldl_cons, List.map_cons, List.reverse_cons, List.append_assoc,
          List.singleton_append] using after
  have received := fold w [] [] tracked opened .nil
  rw [List.append_nil] at received
  rw [ShowAll, List.forall₂_map_left_iff]
  have reversed := List.rel_reverse received
  rwa [List.reverse_reverse] at reversed

/-! ### What is left alone -/

/-- What goes on with calls of host functions leaves all host code and heaps alone, and whatever is shown so far. -/
structure Spares (w w' : World σ) : Prop where
  code : w'.code = w.code
  closed : w.Tracked → ∀ session, (w'.ledger session).closed = (w.ledger session).closed
  tracked : w.Tracked → w'.Tracked
  store : w.Tracked → ∀ session, (w'.machine session).store = (w.machine session).store
  shows : w.Tracked → ∀ session d x, w.Shows session d x → w'.Shows session d x

theorem Spares.refl (w : World σ) : w.Spares w := ⟨rfl, fun _ _ => rfl, id, fun _ _ => rfl, fun _ _ _ _ => id⟩

theorem Spares.trans (first : w.Spares w') (second : w'.Spares w'') : w.Spares w'' where
  code := second.code.trans first.code
  closed tracked session := (second.closed (first.tracked tracked) session).trans (first.closed tracked session)
  tracked tracked := second.tracked (first.tracked tracked)
  store tracked session := (second.store (first.tracked tracked) session).trans (first.store tracked session)
  shows tracked session d x shows :=
    second.shows (first.tracked tracked) session d x (first.shows tracked session d x shows)

theorem Spares.showAll (spares : w.Spares w') (tracked : w.Tracked) (shown : w.ShowAll session items xs) :
    w'.ShowAll session items xs :=
  shown.imp fun _ _ => spares.shows tracked session _ _

/-- Neither holders nor machines change, and no session is closed. -/
theorem spares_of_alike (holdings : w'.holdings = w.holdings) (vms : w'.vms = w.vms)
    (closed : ∀ session, (w'.ledger session).closed = (w.ledger session).closed) : w.Spares w' where
  code := by rw [code, code, vms]
  closed _ := closed
  tracked := fun ⟨made, sound⟩ => ⟨made, sound.same holdings⟩
  store _ session := by rw [machine, machine, vms]
  shows := fun _ session _ _ shows => shows.congr holdings closed

theorem modifyMachine_spares (w : World σ) (session : Nat) {f : Guest.Machine → Guest.Machine}
    (slots : ∀ m : Guest.Machine, (f m).slots = m.slots)
    (store : (f (w.machine session)).store = (w.machine session).store) : w.Spares (w.modifyMachine session f) where
  code := modifyMachine_code session f
  closed _ _ := rfl
  tracked := fun ⟨made, sound⟩ => ⟨made, sound.same (w.modifyMachine_holdings session f slots)⟩
  store _ other := by
    rw [machine_modifyMachine]
    split
    · next here => exact here.1 ▸ store
    · rfl
  shows := fun _ _ _ _ shows => shows.congr (w.modifyMachine_holdings session f slots) fun _ => rfl

/-- Whoever looks at guest values spares everything. -/
theorem Looks.spares (looks : w.Looks w') (silent : w.Silent w') : w.Spares w' where
  code := silent.2
  closed tracked := (looks tracked).2.closed
  tracked tracked := (looks tracked).1
  store tracked := (looks tracked).2.store
  shows tracked := (looks tracked).2.shows

theorem receiveAll_spares (w : World σ) (session : Nat) (values : List Guest.Value) :
    w.Spares (w.receiveAll session values).1 :=
  (looks_reading.receiveAll w session values).spares (silent_reading.receiveAll w session values)

theorem advance_spares (w : World σ) (session : Nat) : w.Spares (w.advance session).1 := by
  refine spares_of_alike (w.advance_holdings session) rfl fun other => ?_
  rw [closed_eq, closed_eq, advance_standing, Standing.advance_lineage]
  split <;> rfl

theorem restore_spares (w : World σ) (s : State) : w.Spares (w.restore s) := by
  refine spares_of_alike (w.restore_holdings s) rfl fun other => ?_
  rw [closed_eq, closed_eq, restore_standing, Standing.restore_lineage]
  split <;> rfl

theorem Called.code {store : Guest.Store} (called : w.Called w' session store) : w'.code = w.code := by
  obtain ⟨f, -, vms⟩ := called.only
  rw [World.code, vms]
  exact modifyMachine_code session f

theorem Called.shows {store : Guest.Store} (called : w.Called w' session store) {other : Nat}
    (shows : w.Shows other d x) : w'.Shows other d x :=
  shows.congr called.holdings fun other => by rw [closed_eq, closed_eq, called.standing]

/-- So does a call that leaves the heap as it is. -/
theorem Called.spares {store : Guest.Store} (called : w.Called w' session store)
    (same : (w.machine session).store = store) : w.Spares w' where
  code := called.code
  closed _ other := by rw [closed_eq, closed_eq, called.standing]
  tracked := called.tracked
  store _ other := by
    by_cases here : session = other
    · exact here ▸ called.store.trans same.symm
    · obtain ⟨f, -, vms⟩ := called.only
      have machine : w'.machine other = (w.modifyMachine session f).machine other := by
        rw [World.machine, World.machine, vms]
      rw [machine, machine_modifyMachine, if_neg fun both => here both.1]
  shows _ _ _ _ := called.shows

/-- The host is told something. -/
theorem memory_spares (w : World σ) (memory : σ) : w.Spares { w with memory } :=
  spares_of_alike rfl rfl fun _ => rfl

/-! ### Handles that are given back -/

theorem release_of_handle {h : Handle} (is : item.datum.handle? = some h) : w.release item = w.releaseHandle h := by
  rw [release, is]

theorem Tracked.release (tracked : w.Tracked) (item : Item) : (w.release item).Tracked := by
  obtain ⟨made, sound⟩ := tracked
  rw [World.release]
  split
  · next h _ =>
      cases held : w.slot? (.handle h) with
      | none => exact ⟨made, (releaseHandle_unheld held).symm ▸ sound⟩
      | some slot => exact ⟨made, sound.givesBack (releaseHandle_givesBack held)⟩
  · exact ⟨made, sound⟩

/-- What is behind other handles is shown still. -/
theorem Shows.released (shows : w.Shows session d x) (tracked : w.Tracked)
    (other : ∀ h, item.datum.handle? = some h → d.handle? ≠ some h) : (w.release item).Shows session d x := by
  obtain ⟨made, sound⟩ := tracked
  cases shows with
  | nil => exact .nil
  | bool b => exact .bool b
  | int n => exact .int n
  | float y => exact .float y
  | string s => exact .string s
  | @object _ index _ opened held looks =>
      refine .object ?_ ?_ looks
      · rwa [closed_eq, release_standing, ← closed_eq]
      · cases is : item.datum.handle? with
        | none => rwa [release, is]
        | some h =>
            have unlike : Holder.handle ⟨session, index⟩ ≠ .handle h :=
              fun same => other h is (congrArg some (Holder.handle.inj same))
            rw [release_of_handle is]
            exact (sound.giveBack_other unlike).2.trans held

/-- A handle that shows something is held. -/
theorem Shows.held {h : Handle} (shows : w.Shows session d x) (is : d.handle? = some h) :
    w.slot? (.handle h) ≠ none := by
  cases shows with
  | nil | bool | int | float | string => cases is
  | object opened held looks =>
      cases is
      obtain ⟨slot, taken, -⟩ := held_of_denoted held
      exact taken.trans_ne (Option.some_ne_none slot)

/-- A handle is given back that nobody had before. -/
theorem Spares.released (spares : w.Spares w')
    (unheld : ∀ h, item.datum.handle? = some h → w.slot? (.handle h) = none) : w.Spares (w'.release item) where
  code := (release_silent item).2.trans spares.code
  closed tracked session := by
    rw [closed_eq, release_standing, ← closed_eq]
    exact spares.closed tracked session
  tracked tracked := (spares.tracked tracked).release item
  store tracked session := by
    obtain ⟨slots, same⟩ := w'.release_machine item session
    rw [same]
    exact spares.store tracked session
  shows tracked session d x shows :=
    (spares.shows tracked session d x shows).released (spares.tracked tracked) fun h is same =>
      shows.held same (unheld h is)

/-- What is received is behind new handles. -/
theorem receiveAll_new {h : Handle} (opened : session < w.ledgers.size) (known : w.Knows h)
    (values : List Guest.Value) : ∀ d ∈ (w.receiveAll session values).2, d.handle? ≠ some h := by
  have fold : ∀ (w : World σ) (done : List Datum), session < w.ledgers.size → w.Knows h →
      (∀ d ∈ done, d.handle? ≠ some h) →
      ∀ d ∈ (values.foldl (fun (p : World σ × List Datum) v =>
        ((p.1.receive session v).1, (p.1.receive session v).2 :: p.2)) (w, done)).2, d.handle? ≠ some h := by
    induction values with
    | nil => exact fun w done _ _ new => new
    | cons v rest ih =>
        intro w done opened known new
        have size : (w.receive session v).1.ledgers.size = w.ledgers.size := by
          have same := congrArg (·.lineages.size) (w.receive_standing session v)
          simpa [World.standing] using same
        refine ih _ _ (size ▸ opened) ((changes_reading.receive w session v).acquainted (x := .handle h) known) ?_
        intro d mem
        rcases List.mem_cons.mp mem with rfl | old
        · exact fun same => (Config.receive_introduces opened same).new known
        · exact new d old
  exact fun d mem => fold w [] opened known (List.forall_mem_nil _) d (List.mem_reverse.mp mem)

end World

end LuaHost
