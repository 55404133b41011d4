import LuaHost.Session.Run
/-!
Where sessions stand: for each, its head, the state it issued last, and whether it is closed, together
with the callbacks that it was opened with. The statements say what each operation on the accounts makes
of it. All but four of them leave it as it is: whatever else is kept about handles, chunks and machines
has no say in which state is accepted.
-/

namespace LuaHost

/-- What decides which state of a session is accepted. -/
structure Lineage where
  head : Nat
  issued : Nat
  closed : Bool

namespace Lineage

def advance (l : Lineage) : Lineage := { l with head := l.issued + 1, issued := l.issued + 1 }

def restore (l : Lineage) (generation : Nat) : Lineage := { l with head := generation }

def close (l : Lineage) : Lineage := { l with closed := true }

end Lineage

def Ledger.lineage (l : Ledger) : Lineage := ⟨l.head, l.issued, l.closed⟩

structure Standing (σ : Type) where
  lineages : Array Lineage
  callbacks : Array (Callbacks σ)

namespace Standing

variable {σ : Type} (S : Standing σ)

/-- The lineage of a session; one that was never opened counts as closed. -/
def lineage (session : Nat) : Lineage := S.lineages.getD session ⟨0, 0, true⟩

def head (session : Nat) : State := ⟨session, (S.lineage session).head⟩

def modify (session : Nat) (f : Lineage → Lineage) : Standing σ :=
  { S with lineages := S.lineages.modify session f }

def advance (session : Nat) : Standing σ := S.modify session Lineage.advance

def restore (s : State) : Standing σ := S.modify s.session (·.restore s.generation)

def close (session : Nat) : Standing σ := S.modify session Lineage.close

def openSession (callbacks : Callbacks σ) : Standing σ :=
  ⟨S.lineages.push ⟨0, 0, false⟩, S.callbacks.push callbacks⟩

/-- An open session has this state as its head. -/
def Accepts (s : State) : Prop := (S.lineage s.session).closed = false ∧ S.head s.session = s

/-- A session has issued this state. -/
def Issued (s : State) : Prop :=
  s.session < S.lineages.size ∧ s.generation ≤ (S.lineage s.session).issued

/-- The host does not throw when a session tells it about a failure. -/
def Quiet (session : Nat) : Prop :=
  ∀ callbacks, S.callbacks[session]? = some callbacks → ∀ hook, callbacks.onError = some hook →
    ∀ f ledgers memory, (hook f ledgers memory).2 = none

end Standing

section Arrays
variable {α β : Type}

theorem map_modify (xs : Array α) (i : Nat) (f : α → α) (g : α → β) (h : β → β)
    (comm : ∀ a, g (f a) = h (g a)) : (xs.modify i f).map g = (xs.map g).modify i h := by
  apply Array.ext
  · simp
  · intro j hj hj'
    simp only [Array.getElem_map, Array.getElem_modify]
    split
    · exact comm _
    · rfl

theorem modify_id (xs : Array α) (i : Nat) : xs.modify i id = xs := by
  apply Array.ext
  · simp
  · intro j hj hj'
    simp [Array.getElem_modify]

theorem modify_missing {xs : Array α} {i : Nat} (missing : xs.size ≤ i) (f : α → α) :
    xs.modify i f = xs := by
  apply Array.ext
  · simp
  · intro j hj hj'
    rw [Array.getElem_modify, if_neg (Nat.ne_of_gt (Nat.lt_of_lt_of_le hj' missing))]

theorem getD_modify (xs : Array α) (i j : Nat) (f : α → α) (d : α) :
    (xs.modify i f).getD j d = if i = j ∧ j < xs.size then f (xs.getD j d) else xs.getD j d := by
  by_cases hj : j < xs.size
  · by_cases hi : i = j <;> simp [Array.getD, hj, hi, Array.getElem_modify]
  · simp [Array.getD, hj]

/-- A default at the end is found there with or without being there. -/
theorem getD_push (xs : Array α) (i : Nat) (d : α) : (xs.push d).getD i d = xs.getD i d := by
  simp only [Array.getD_eq_getD_getElem?, Array.getElem?_push]
  split
  · next last => simp [last]
  · rfl

end Arrays

namespace Standing
variable {σ : Type} (S : Standing σ)

theorem modify_id (session : Nat) : S.modify session id = S := by
  simp [modify, LuaHost.modify_id]

@[simp] theorem modify_size (session : Nat) (f : Lineage → Lineage) :
    (S.modify session f).lineages.size = S.lineages.size := by
  simp [modify]

theorem modify_lineage (session other : Nat) (f : Lineage → Lineage) :
    (S.modify session f).lineage other =
      if session = other ∧ other < S.lineages.size then f (S.lineage other)
      else S.lineage other :=
  getD_modify _ _ _ _ _

theorem advance_lineage (session other : Nat) :
    (S.advance session).lineage other =
      if session = other ∧ other < S.lineages.size then (S.lineage other).advance
      else S.lineage other :=
  S.modify_lineage session other _

theorem restore_lineage (s : State) (other : Nat) :
    (S.restore s).lineage other =
      if s.session = other ∧ other < S.lineages.size then (S.lineage other).restore s.generation
      else S.lineage other :=
  S.modify_lineage s.session other _

theorem close_lineage (session other : Nat) :
    (S.close session).lineage other =
      if session = other ∧ other < S.lineages.size then (S.lineage other).close
      else S.lineage other :=
  S.modify_lineage session other _

/-- A state is made the head again, and its successor is issued. -/
theorem renew_lineage (s : State) (other : Nat) :
    ((S.restore s).advance s.session).lineage other =
      if s.session = other ∧ other < S.lineages.size then
        ((S.lineage other).restore s.generation).advance
      else S.lineage other := by
  rw [advance_lineage, restore_lineage, restore, modify_size]
  split <;> rfl

@[simp] theorem advance_size (session : Nat) :
    (S.advance session).lineages.size = S.lineages.size :=
  S.modify_size session _

@[simp] theorem restore_size (s : State) : (S.restore s).lineages.size = S.lineages.size :=
  S.modify_size s.session _

@[simp] theorem close_size (session : Nat) :
    (S.close session).lineages.size = S.lineages.size :=
  S.modify_size session _

@[simp] theorem advance_callbacks (session : Nat) :
    (S.advance session).callbacks = S.callbacks := rfl

@[simp] theorem restore_callbacks (s : State) : (S.restore s).callbacks = S.callbacks := rfl

@[simp] theorem close_callbacks (session : Nat) : (S.close session).callbacks = S.callbacks := rfl

theorem lineage_missing {session : Nat} (h : S.lineages.size ≤ session) :
    S.lineage session = ⟨0, 0, true⟩ := by
  simp [lineage, Array.getD, Nat.not_lt.mpr h]

theorem openSession_lineage (callbacks : Callbacks σ) {session : Nat}
    (h : session < S.lineages.size) :
    (S.openSession callbacks).lineage session = S.lineage session := by
  simp [openSession, lineage, Array.getD, h, Nat.lt_succ_of_lt h, Array.getElem_push]

theorem openSession_lineage_last (callbacks : Callbacks σ) :
    (S.openSession callbacks).lineage S.lineages.size = ⟨0, 0, false⟩ := by
  simp [openSession, lineage, Array.getD]

@[simp] theorem openSession_size (callbacks : Callbacks σ) :
    (S.openSession callbacks).lineages.size = S.lineages.size + 1 := by
  simp [openSession]

/-- Making the head the head again changes nothing. -/
theorem restore_head {s : State} (h : S.head s.session = s) : S.restore s = S := by
  obtain ⟨lineages, callbacks⟩ := S
  simp only [restore, modify, Standing.mk.injEq, and_true]
  apply Array.ext
  · simp
  · intro i hi hi'
    rw [Array.getElem_modify]
    split
    · next same =>
        subst same
        have generation : lineages[s.session].head = s.generation := by
          simpa [head, lineage, Array.getD, hi'] using congrArg State.generation h
        simp only [Lineage.restore, ← generation]
    · rfl

end Standing

namespace World
variable {σ : Type} (w : World σ)

def standing : Standing σ := ⟨w.ledgers.map Ledger.lineage, w.vms.map (·.callbacks)⟩

theorem standing_lineage (session : Nat) :
    w.standing.lineage session = (w.ledger session).lineage := by
  simp only [standing, Standing.lineage, ledger, Array.getD_eq_getD_getElem?, Array.getElem?_map]
  cases w.ledgers[session]? <;> rfl

theorem standing_head (session : Nat) : w.standing.head session = w.head session := by
  simp only [Standing.head, standing_lineage]
  rfl

/-- A state is turned away exactly if it is not the head of an open session. -/
theorem stateViolation?_eq_none (s : State) :
    w.stateViolation? s = none ↔ w.standing.Accepts s := by
  simp only [Standing.Accepts, standing_lineage, standing_head, stateViolation?,
    Ledger.stateViolation?, Ledger.lineage, head]
  cases hc : (w.ledger s.session).closed with
  | true => simp
  | false =>
      rcases s with ⟨session, generation⟩
      by_cases hg : generation = (w.ledger session).head
      · simp [hg]
      · simp [hg, Ne.symm hg]

theorem modifyLedger_standing (session : Nat) (f : Ledger → Ledger) (g : Lineage → Lineage)
    (h : ∀ l, (f l).lineage = g l.lineage) :
    (w.modifyLedger session f).standing = w.standing.modify session g := by
  simp only [standing, modifyLedger, Standing.modify, map_modify _ _ f _ g h]

/-- What leaves the lineage alone leaves all sessions where they stand. -/
theorem modifyLedger_standing_same (session : Nat) (f : Ledger → Ledger)
    (h : ∀ l, (f l).lineage = l.lineage) : (w.modifyLedger session f).standing = w.standing := by
  rw [modifyLedger_standing w session f id h, Standing.modify_id]

theorem modifyVm_callbacks (session : Nat) (f : Vm σ → Vm σ)
    (h : ∀ v, (f v).callbacks = v.callbacks) :
    (w.vms.modify session f).map (·.callbacks) = w.vms.map (·.callbacks) := by
  rw [map_modify _ _ f _ id h, LuaHost.modify_id]

@[simp] theorem modifyMachine_standing (session : Nat) (f : Guest.Machine → Guest.Machine) :
    (w.modifyMachine session f).standing = w.standing := by
  simp only [standing, modifyMachine, Standing.mk.injEq, true_and]
  exact modifyVm_callbacks w session _ fun _ => rfl

/-! ### What moves a head -/

@[simp] theorem restore_standing (s : State) : (w.restore s).standing = w.standing.restore s :=
  modifyLedger_standing w _ _ _ fun _ => rfl

@[simp] theorem advance_standing (session : Nat) :
    (w.advance session).1.standing = w.standing.advance session :=
  modifyLedger_standing w _ _ _ fun _ => rfl

theorem advance_state (session : Nat) :
    (w.advance session).2 = (w.standing.advance session).head session := by
  rw [← advance_standing, standing_head]
  rfl

@[simp] theorem succeed_standing (session : Nat) (r : Result) :
    (w.succeed session r).1.standing = w.standing.advance session :=
  advance_standing w session

theorem succeed_outcome (session : Nat) (r : Result) :
    (w.succeed session r).2 = .ok (some ((w.standing.advance session).head session)) r := by
  rw [← advance_state]
  rfl

@[simp] theorem close_standing (session : Nat) :
    (w.close session).standing = w.standing.close session :=
  modifyLedger_standing w _ _ _ fun _ => rfl

@[simp] theorem openSession_standing (options : Options σ) :
    (w.openSession options).1.standing = w.standing.openSession options.callbacks := by
  simp [openSession, standing, Standing.openSession, Ledger.lineage]

/-! ### What moves none -/

@[simp] theorem occupy_standing (session : Nat) (v : Guest.Value) :
    (w.occupy session v).1.standing = w.standing :=
  modifyMachine_standing w session _

@[simp] theorem vacate_standing (session slot : Nat) :
    (w.vacate session slot).standing = w.standing := by
  unfold vacate
  split
  · rfl
  · exact modifyMachine_standing w session _

@[simp] theorem pin_standing (session : Nat) (v : Guest.Value) :
    (w.pin session v).1.standing = w.standing := by
  refine (modifyLedger_standing_same _ _ _ fun _ => ?_).trans (occupy_standing w session v)
  rfl

@[simp] theorem pinAs_standing (kind : CompositeKind) (session : Nat) (v : Guest.Value) :
    (w.pinAs kind session v).1.standing = w.standing :=
  pin_standing w session v

@[simp] theorem receive_standing (session : Nat) (v : Guest.Value) :
    (w.receive session v).1.standing = w.standing := by
  cases v <;> simp [receive]

/-- What holds from world to world while guest values are read one after the other. -/
structure Reading (R : World σ → World σ → Prop) : Prop where
  refl : ∀ w, R w w
  trans : ∀ {w w' w''}, R w w' → R w' w'' → R w w''
  receive : ∀ w session v, R w (w.receive session v).1

theorem Reading.receiveAll {R : World σ → World σ → Prop} (reading : Reading R) (w : World σ)
    (session : Nat) (values : List Guest.Value) : R w (w.receiveAll session values).1 := by
  have fold : ∀ (w : World σ) (done : List Datum),
      R w (values.foldl (fun (p : World σ × List Datum) v =>
        ((p.1.receive session v).1, (p.1.receive session v).2 :: p.2)) (w, done)).1 := by
    induction values with
    | nil => exact fun w done => reading.refl w
    | cons v rest ih =>
        intro w done
        rw [List.foldl_cons]
        exact reading.trans (reading.receive w session v) (ih _ _)
  exact fold w []

/-- Reading moves no head. -/
theorem standing_reading : Reading fun w w' : World σ => w'.standing = w.standing where
  refl := fun _ => rfl
  trans := fun first second => second.trans first
  receive := receive_standing

@[simp] theorem receiveAll_standing (session : Nat) (values : List Guest.Value) :
    (w.receiveAll session values).1.standing = w.standing :=
  standing_reading.receiveAll w session values

@[simp] theorem releaseHandle_standing (h : Handle) :
    (w.releaseHandle h).standing = w.standing := by
  unfold releaseHandle
  split
  · rfl
  · refine (modifyLedger_standing_same _ _ _ fun _ => ?_).trans (vacate_standing w _ _)
    rfl

@[simp] theorem release_standing (item : Item) : (w.release item).standing = w.standing := by
  unfold release
  split
  · exact releaseHandle_standing w _
  · rfl

@[simp] theorem newFailure_standing (fault : Fault) :
    (w.newFailure fault).1.standing = w.standing := rfl

@[simp] theorem throwFault_standing (fault : Fault) :
    (w.throwFault fault).1.standing = w.standing := rfl

/-- A relation of worlds that has no regard to failures and to the host's memory. -/
structure Ignores (R : World σ → World σ → Prop) : Prop where
  refl : ∀ w, R w w
  trans : ∀ {w w' w''}, R w w' → R w' w'' → R w w''
  memory : ∀ w memory, R w { w with memory }
  identity : ∀ w, R w w.freshIdentity.1
  raised : ∀ w entry, R w { w with raised := entry :: w.raised }

theorem Ignores.notify {ε : Type} {R : World σ → World σ → Prop} (ignores : Ignores R)
    (w : World σ) (hook : Option (Hook σ ε)) (event : ε) : R w (w.notify hook event).1 := by
  cases hook with
  | none => exact ignores.refl w
  | some hook => exact ignores.memory w _

/-- A relation of worlds that has no regard to what guests do either. -/
structure Overlooks (R : World σ → World σ → Prop) : Prop extends Ignores R where
  machines : ∀ w session f, (∀ m, (f m).slots = m.slots) → R w (w.modifyMachine session f)

/-- Where sessions stand has nothing to do with failures. -/
theorem standing_overlooks : Overlooks fun w w' : World σ => w'.standing = w.standing where
  refl := fun _ => rfl
  trans := fun first second => second.trans first
  memory := fun _ _ => rfl
  identity := fun _ => rfl
  raised := fun _ _ => rfl
  machines := fun w session f _ => modifyMachine_standing w session f

@[simp] theorem notify_standing {ε : Type} (hook : Option (Hook σ ε)) (event : ε) :
    (w.notify hook event).1.standing = w.standing :=
  standing_overlooks.notify w hook event

@[simp] theorem addChunk_standing (chunk : Chunk) :
    (w.addChunk chunk).1.standing = w.standing := rfl

@[simp] theorem keepCompiled_standing (session chunk : Nat) (p : Guest.Prototype) :
    (w.keepCompiled session chunk p).1.standing = w.standing := by
  refine (modifyLedger_standing_same _ _ _ fun _ => ?_).trans
    ((occupy_standing _ _ _).trans (modifyMachine_standing w session _))
  rfl

@[simp] theorem releaseChunk_standing (session chunk : Nat) :
    (w.releaseChunk session chunk).standing = w.standing := by
  unfold releaseChunk
  split
  · rfl
  · refine (modifyLedger_standing_same _ _ _ fun _ => ?_).trans (vacate_standing w _ _)
    rfl

@[simp] theorem expose_standing (session : Nat) (name : String)
    (body : State → List Datum → Client σ) :
    (w.expose session name body).1.standing = w.standing := by
  simp only [expose, receive_standing]
  simp only [standing, Standing.mk.injEq, true_and]
  exact modifyVm_callbacks w session _ fun _ => rfl

end World

end LuaHost
