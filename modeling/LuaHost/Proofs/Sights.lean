import LuaHost.Proofs.SlotTable
/-!
What the host sees of guest values. A primitive is copied; an object is seen through a handle, for as long
as the handle is held and the session is open. Looking at guest values takes slots for new handles and
changes nothing else, so that whatever has been seen before is seen as it was.
-/

namespace LuaHost

/-- A guest value as the host sees it: a primitive, or an object of some kind. -/
inductive Sight where
  | nil
  | bool (b : Bool)
  | int (n : Int)
  | float (x : Float)
  | string (s : String)
  | object (kind : CompositeKind) (v : Guest.Value)

namespace Sight

/-- What the host holds of it; an object is behind the handle. -/
def datum (h : Handle) : Sight → Datum
  | nil => .nil
  | bool b => .bool b
  | int n => .int n
  | float x => .float x
  | string s => .string s
  | object kind _ => .composite kind h

def kind (x : Sight) : String := (x.datum default).kind

def describe (x : Sight) : String := (x.datum default).describe

/-- The table that is seen, if it is one. -/
def table? (store : Guest.Store) : Sight → Option Guest.Table
  | object _ (.table id) => some (store.table id)
  | _ => none

end Sight

def Guest.Value.sight : Guest.Value → Sight
  | nil => .nil
  | bool b => .bool b
  | int n => .int n.toInt
  | float x => .float x
  | string s => .string (Text.decode s)
  | table id => .object .table (.table id)
  | closure id => .object .function (.closure id)
  | builtin f => .object .function (.builtin f)
  | host index => .object .function (.host index)
  | userdata id => .object .userdata (.userdata id)
  | light payload => .object .userdata (.light payload)
  | thread id => .object .thread (.thread id)

/-- An object is a table exactly if that is its kind. -/
theorem Sight.table?_object {kind : CompositeKind} {v : Guest.Value} (looks : v.sight = .object kind v)
    (store : Guest.Store) :
    (∃ id, v = .table id ∧ kind = .table ∧ (object kind v).table? store = some (store.table id)) ∨
      (kind ≠ .table ∧ (object kind v).table? store = none) := by
  cases v with
  | nil | bool | int | float | string => exact nomatch looks
  | table id =>
      obtain ⟨rfl, -⟩ := Sight.object.inj looks
      exact .inl ⟨id, rfl, rfl, rfl⟩
  | closure | builtin | host | userdata | light | thread =>
      obtain ⟨rfl, -⟩ := Sight.object.inj looks
      exact .inr ⟨nofun, rfl⟩

namespace World
variable {σ : Type}

/-- What a value that the host holds shows: a primitive shows itself, and an object is shown by a handle
that is held in an open session. -/
inductive Shows (w : World σ) (session : Nat) : Datum → Sight → Prop
  | nil : Shows w session .nil .nil
  | bool (b : Bool) : Shows w session (.bool b) (.bool b)
  | int (n : Int) : Shows w session (.int n) (.int n)
  | float (x : Float) : Shows w session (.float x) (.float x)
  | string (s : String) : Shows w session (.string s) (.string s)
  | object {kind : CompositeKind} {index : Nat} {v : Guest.Value}
      (opened : (w.ledger session).closed = false)
      (held : w.denoted? (.handle ⟨session, index⟩) = some v) (looks : v.sight = .object kind v) :
      Shows w session (.composite kind ⟨session, index⟩) (.object kind v)

variable {w w' w'' : World σ} {session : Nat} {d : Datum} {x : Sight}

theorem Shows.datum (shows : w.Shows session d x) : ∃ index, d = x.datum ⟨session, index⟩ := by
  cases shows with
  | nil | bool | int | float | string => exact ⟨0, rfl⟩
  | @object _ index => exact ⟨index, rfl⟩

theorem Shows.kind (shows : w.Shows session d x) : d.kind = x.kind := by
  cases shows <;> rfl

theorem Shows.describe (shows : w.Shows session d x) : d.describe = x.describe := by
  cases shows <;> rfl

theorem Shows.isNil (shows : w.Shows session d x) : d.isNil = true ↔ x = .nil := by
  cases shows <;> simp [Datum.isNil]

theorem Shows.opened {store : Guest.Store} {t : Guest.Table} (shows : w.Shows session d x)
    (found : x.table? store = some t) : (w.ledger session).closed = false := by
  cases shows with
  | nil | bool | int | float | string => exact nomatch found
  | object opened => exact opened

/-! ### The object behind a handle -/

theorem held_of_denoted {y : Holder} {v : Guest.Value} (denoted : w.denoted? y = some v) :
    ∃ slot, w.slot? y = some slot ∧ (w.slots y.session).get? slot = some v := by
  simpa [denoted?, Option.bind_eq_some_iff] using denoted

/-- A handle that is held is in the account of its session, and has not been given back. -/
theorem record_of_slot {h : Handle} {slot : Nat} (held : w.slot? (.handle h) = some slot) :
    w.slotOf h = slot ∧ (w.ledger h.session).isReleased h.index = false := by
  have held : (w.ledger h.session).slot? h.index = some slot := held
  simp only [Ledger.slot?] at held
  simp only [slotOf, Ledger.isReleased]
  cases found : (w.ledger h.session).handles[h.index]? with
  | none => simp [found] at held
  | some record =>
      rw [found] at held
      cases released : record.released with
      | true => simp [released] at held
      | false => simpa [released] using held

/-- What the guest is given for a handle that is held is the object that it stands for. -/
theorem give_of_denoted {h : Handle} {v : Guest.Value} (kind : CompositeKind)
    (denoted : w.denoted? (.handle h) = some v) :
    w.give? h.session (.composite kind h) = some v := by
  obtain ⟨slot, held, kept⟩ := held_of_denoted denoted
  simp only [give?, (record_of_slot held).1]
  exact congrArg some (Guest.Slots.content_of_get? kept)

/-- The table of a value that shows one may be read, and is the one that is shown. -/
theorem Shows.withTable {α : Type} (shows : w.Shows session d x) (expected : String)
    (k : Nat → Guest.Table → DecodeResult σ α) :
    w.withTable expected d k = match x.table? (w.machine session).store with
      | some t => k session t
      | none => (w, .error (.mismatch expected x.kind [])) := by
  cases shows with
  | nil | bool | int | float | string => rfl
  | @object kind index v opened held looks =>
      have given := give_of_denoted kind held
      obtain ⟨slot, taken, -⟩ := held_of_denoted held
      have unreleased := (record_of_slot taken).2
      rcases Sight.table?_object looks (w.machine session).store with
        ⟨id, rfl, rfl, table⟩ | ⟨unlike, table⟩
      · simp only [World.withTable, readViolation?, opened, unreleased, table, tableOf, given]
        rfl
      · rw [table]
        cases kind with
        | table => exact absurd rfl unlike
        | function | userdata | thread => rfl

/-! ### Looking at guest values -/

/-- There is a record of what the holders were made for. -/
def Tracked (w : World σ) : Prop := ∃ made, w.Sound made

/-- What looking at guest values leaves alone: all of the machines but their slots, where the sessions
stand, and whatever is shown so far. -/
structure Glances (w w' : World σ) : Prop where
  machine : ∀ session, ∃ slots, w'.machine session = { w.machine session with slots }
  standing : w'.standing = w.standing
  shows : ∀ session d x, w.Shows session d x → w'.Shows session d x

theorem Glances.refl (w : World σ) : Glances w w := ⟨fun _ => ⟨_, rfl⟩, rfl, fun _ _ _ => id⟩

theorem Glances.trans (first : Glances w w') (second : Glances w' w'') : Glances w w'' where
  machine := by
    intro session
    obtain ⟨slots, same⟩ := first.machine session
    obtain ⟨slots', same'⟩ := second.machine session
    exact ⟨slots', by rw [same', same]⟩
  standing := second.standing.trans first.standing
  shows := fun session d x shows => second.shows session d x (first.shows session d x shows)

theorem Glances.store (glances : Glances w w') (session : Nat) :
    (w'.machine session).store = (w.machine session).store := by
  obtain ⟨slots, same⟩ := glances.machine session
  rw [same]

theorem closed_eq (w : World σ) (session : Nat) :
    (w.ledger session).closed = (w.standing.lineage session).closed := by
  rw [standing_lineage]
  rfl

theorem Glances.closed (glances : Glances w w') (session : Nat) :
    (w'.ledger session).closed = (w.ledger session).closed := by
  rw [closed_eq, closed_eq, glances.standing]

theorem opened_lt (opened : (w.ledger session).closed = false) : session < w.ledgers.size := by
  rcases Nat.lt_or_ge session w.ledgers.size with bound | missing
  · exact bound
  · simp [ledger_missing missing] at opened

/-- Nobody has held what is behind the next handle. -/
theorem next_unheld (w : World σ) (session : Nat) (v : Guest.Value) :
    w.slot? (.handle (w.pin session v).2) = none := by
  have beyond : (w.ledger session).slot? (w.ledger session).handles.size = none := by
    simp [Ledger.slot?]
  exact beyond

theorem Sound.pin_denoted {made : Made} (sound : w.Sound made)
    (opened : (w.ledger session).closed = false) (v : Guest.Value) :
    (w.pin session v).1.denoted? (.handle (w.pin session v).2) = some v := by
  have takes := pin_takes sound.sizes (opened_lt opened) v
  rw [(sound.takes takes).denoted takes.slot, Function.update_self]

/-- What a holder stands for stays when a handle is added. -/
theorem Sound.pin_denoted_other {made : Made} (sound : w.Sound made) (session : Nat)
    (v : Guest.Value) {y : Holder} {u : Guest.Value} (denoted : w.denoted? y = some u) :
    (w.pin session v).1.denoted? y = some u := by
  obtain ⟨slot, held, -⟩ := held_of_denoted denoted
  have unlike : y ≠ .handle (w.pin session v).2 := by
    rintro rfl
    exact nomatch held.symm.trans (next_unheld w session v)
  have held' := (pin_others sound.sizes session v unlike).trans held
  rw [(sound.pins session v).denoted held', Function.update_of_ne unlike, ← denoted,
    sound.denoted held]

theorem Sound.pin_glances {made : Made} (sound : w.Sound made) (session : Nat) (v : Guest.Value) :
    Glances w (w.pin session v).1 where
  machine := by
    intro other
    have pinned : (w.pin session v).1.machine other = (w.occupy session v).1.machine other := rfl
    rw [pinned, occupy, machine_modifyMachine]
    split
    · exact ⟨_, rfl⟩
    · exact ⟨_, rfl⟩
  standing := w.pin_standing session v
  shows := by
    intro other d x shows
    cases shows with
    | nil => exact .nil
    | bool b => exact .bool b
    | int n => exact .int n
    | float y => exact .float y
    | string s => exact .string s
    | object opened held looks =>
        refine .object ?_ (sound.pin_denoted_other session v held) looks
        rwa [closed_eq, pin_standing, ← closed_eq]

/-- From one world to another guest values have been looked at, if there is a record. -/
def Looks (w w' : World σ) : Prop := w.Tracked → w'.Tracked ∧ Glances w w'

theorem looks_reading : Reading (Looks (σ := σ)) where
  refl := fun w tracked => ⟨tracked, .refl w⟩
  trans := by
    intro w w' w'' first second tracked
    obtain ⟨tracked', glances⟩ := first tracked
    obtain ⟨tracked'', glances'⟩ := second tracked'
    exact ⟨tracked'', glances.trans glances'⟩
  receive := by
    rintro w session v ⟨made, sound⟩
    cases v with
    | nil | bool | int | float | string => exact ⟨⟨made, sound⟩, .refl w⟩
    | table | closure | builtin | host | userdata | light | thread =>
        exact ⟨⟨_, sound.pins session _⟩, sound.pin_glances session _⟩

/-- What has been read shows the guest value. -/
theorem Sound.receive_shows {made : Made} (sound : w.Sound made)
    (opened : (w.ledger session).closed = false) (v : Guest.Value) :
    (w.receive session v).1.Shows session (w.receive session v).2 v.sight := by
  have pinned : ∀ u, (w.pin session u).1.denoted? (.handle (w.pin session u).2) = some u :=
    sound.pin_denoted opened
  have opened' : ∀ u, ((w.pin session u).1.ledger session).closed = false := by
    intro u
    rwa [closed_eq, pin_standing, ← closed_eq]
  cases v with
  | nil => exact .nil
  | bool b => exact .bool b
  | int n => exact .int n.toInt
  | float x => exact .float x
  | string s => exact .string (Text.decode s)
  | table | closure | builtin | host | userdata | light | thread =>
      exact .object (opened' _) (pinned _) rfl

end World

theorem Config.Reachable.tracked {c : Config σ} (reachable : Reachable c) : c.world.Tracked := by
  obtain ⟨made, recorded⟩ := reachable.recorded
  exact ⟨made, recorded.sound⟩

end LuaHost
