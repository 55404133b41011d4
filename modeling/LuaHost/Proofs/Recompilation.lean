import LuaHost.Proofs.QuietRuns
import LuaHost.Proofs.Assignments
/-!
What it comes to that a session keeps the function of a chunk. A chunk that was given back is compiled anew
when it is run, and gets the slot that it had. From then on the call is the same: it begins with the same
stack, at the same instruction, and finds everything that the guest had before. Only the function is another
one. It has a variable of its own for the globals, and no function has been made of its parts, whereas the
function that was kept has what earlier runs have left in its variable.
-/

namespace LuaHost

variable {σ : Type}

/-- A failure but for its traceback. -/
def Failure.plain (f : Failure) : Failure :=
  match f.fault with
  | .runtime code context location _ value cause =>
    { f with fault := .runtime code context location none value cause }
  | _ => f

namespace Ledger
variable {l : Ledger} {chunk slot : Nat}

/-- A chunk gets the slot back that it had. -/
def renew (l : Ledger) (chunk slot : Nat) : Ledger := (l.removeCompiled chunk).addCompiled chunk slot

theorem compiledSlot?_renew (held : l.compiledSlot? chunk = some slot) (other : Nat) :
    (l.renew chunk slot).compiledSlot? other = l.compiledSlot? other := by
  by_cases same : other = chunk
  · rw [same, held, renew, compiledSlot?_addCompiled]
  · rw [renew, compiledSlot?_addCompiled_other _ _ same, compiledSlot?_removeCompiled_other _ same]

end Ledger

namespace World
variable {w : World σ} {session chunk slot : Nat} {p : Guest.Prototype}

/-- A chunk that is given back leaves its slot empty, and changes nothing else. -/
theorem releaseChunk_held (held : (w.ledger session).compiledSlot? chunk = some slot)
    (opened : (w.ledger session).closed = false) :
    w.releaseChunk session chunk =
      (w.modifyMachine session fun m => { m with slots := m.slots.unpin slot }).modifyLedger session
        (·.removeCompiled chunk) := by
  simp only [releaseChunk, held, vacate, opened]
  rfl

/-- What is looked at when a chunk that was given back is needed. -/
theorem releaseChunk_sights (held : (w.ledger session).compiledSlot? chunk = some slot)
    (opened : (w.ledger session).closed = false) (sizes : w.ledgers.size = w.vms.size)
    (bound : session < w.vms.size) :
    ((w.releaseChunk session chunk).ledger session).compiledSlot? chunk = none ∧
      (w.releaseChunk session chunk).chunk chunk = w.chunk chunk ∧
      ((w.releaseChunk session chunk).machine session).mainDepth = (w.machine session).mainDepth := by
  rw [releaseChunk_held held opened]
  refine ⟨?_, rfl, ?_⟩
  · have bound' : session < (w.modifyMachine session fun m =>
        { m with slots := m.slots.unpin slot }).ledgers.size := sizes ▸ bound
    rw [ledger_modifyLedger, if_pos ⟨rfl, bound'⟩]
    exact Ledger.compiledSlot?_removeCompiled _ chunk
  · have machine := w.machine_modifyMachine session session fun m => { m with slots := m.slots.unpin slot }
    rw [if_pos ⟨rfl, bound⟩] at machine
    exact (congrArg Guest.Machine.mainDepth machine).trans rfl

/-- Where calls are nested too deep by then, it cannot be compiled. -/
theorem compile_released_fails {message : Guest.Bytes}
    (held : (w.ledger session).compiledSlot? chunk = some slot)
    (opened : (w.ledger session).closed = false) (sizes : w.ledgers.size = w.vms.size)
    (bound : session < w.vms.size)
    (fails : (w.chunk chunk).compile (w.machine session).mainDepth = .error message) :
    let r := (w.releaseChunk session chunk).fail session
      (.syntaxError (Text.decode message) (Text.Location.ofMessage? (Text.decode message)))
    (w.releaseChunk session chunk).compile session chunk = (r.1, .error r.2) := by
  obtain ⟨gone, same, depth⟩ := releaseChunk_sights held opened sizes bound
  rw [compile, gone, same, depth, fails]

/-! ### What the host is given -/

/-- Two worlds have handed out as much. -/
structure Even (w w' : World σ) (session : Nat) : Prop where
  first : session < w.ledgers.size
  second : session < w'.ledgers.size
  handles : (w'.ledger session).handles.size = (w.ledger session).handles.size
  issued : (w'.ledger session).issued = (w.ledger session).issued
  identity : w'.nextIdentity = w.nextIdentity

section
variable {w' : World σ} (even : Even w w' session)
include even

theorem Even.modifyLedger {f g : Ledger → Ledger}
    (handles : ∀ l l', l'.handles.size = l.handles.size → (g l').handles.size = (f l).handles.size)
    (issued : ∀ l l', l'.issued = l.issued → (g l').issued = (f l).issued) :
    Even (w.modifyLedger session f) (w'.modifyLedger session g) session := by
  have ledger {w : World σ} (f : Ledger → Ledger) (bound : session < w.ledgers.size) :
      (w.modifyLedger session f).ledger session = f (w.ledger session) := by
    rw [ledger_modifyLedger, if_pos ⟨rfl, bound⟩]
  refine ⟨?_, ?_, ?_, ?_, even.identity⟩
  · simpa [World.modifyLedger] using even.first
  · simpa [World.modifyLedger] using even.second
  · rw [ledger f even.first, ledger g even.second]
    exact handles _ _ even.handles
  · rw [ledger f even.first, ledger g even.second]
    exact issued _ _ even.issued

/-- Machines have no part in what is handed out. -/
theorem Even.modifyMachine (f g : Guest.Machine → Guest.Machine) :
    Even (w.modifyMachine session f) (w'.modifyMachine session g) session :=
  ⟨even.first, even.second, even.handles, even.issued, even.identity⟩

theorem Even.restore (generation : Nat) :
    Even (w.restore ⟨session, generation⟩) (w'.restore ⟨session, generation⟩) session :=
  even.modifyLedger (fun _ _ same => same) fun _ _ same => same

theorem Even.pinAs (kind : CompositeKind) (v : Guest.Value) :
    (w'.pinAs kind session v).2 = (w.pinAs kind session v).2 ∧
      Even (w.pinAs kind session v).1 (w'.pinAs kind session v).1 session := by
  refine ⟨congrArg (fun index => Datum.composite kind ⟨session, index⟩) even.handles, ?_⟩
  refine (even.modifyMachine _ _).modifyLedger ?_ ?_
  · intro l l' same
    simp only [Ledger.addHandle, Array.size_push, same]
  · exact fun _ _ same => same

theorem Even.receive (v : Guest.Value) :
    (w'.receive session v).2 = (w.receive session v).2 ∧
      Even (w.receive session v).1 (w'.receive session v).1 session := by
  cases v with
  | nil | bool | int | float | string => exact ⟨rfl, even⟩
  | table | closure | builtin | host | userdata | light | thread => exact even.pinAs _ _

theorem Even.receiveAll (values : List Guest.Value) :
    (w'.receiveAll session values).2 = (w.receiveAll session values).2 ∧
      Even (w.receiveAll session values).1 (w'.receiveAll session values).1 session := by
  let next (r : World σ × List Datum) (v : Guest.Value) : World σ × List Datum :=
    ((r.1.receive session v).1, (r.1.receive session v).2 :: r.2)
  suffices every : ∀ (received : List Datum) (w w' : World σ), Even w w' session →
      (values.foldl next (w', received)).2 = (values.foldl next (w, received)).2 ∧
        Even (values.foldl next (w, received)).1 (values.foldl next (w', received)).1 session by
    obtain ⟨data, after⟩ := every [] w w' even
    exact ⟨congrArg List.reverse data, after⟩
  induction values with
  | nil => exact fun received w w' even => ⟨rfl, even⟩
  | cons v rest ih =>
      intro received w w' even
      obtain ⟨datum, after⟩ := even.receive v
      simp only [List.foldl_cons, next, datum]
      exact ih _ _ _ after

theorem Even.succeed (r : Result) : (w'.succeed session r).2 = (w.succeed session r).2 := by
  have head {w : World σ} (bound : session < w.ledgers.size) :
      (w.advance session).2 = ⟨session, (w.ledger session).issued + 1⟩ := by
    have ledger := w.ledger_modifyLedger session session (·.advance)
    rw [if_pos ⟨rfl, bound⟩] at ledger
    exact congrArg (fun l => State.mk session (Ledger.head l)) ledger
  simp only [World.succeed, head even.first, head even.second, even.issued]

/-- A call that failed is read as the same failure but for the traceback. -/
theorem Even.readFailure (status : Guest.Status) (error : Guest.Value)
    (traceback traceback' : Option Guest.Bytes)
    (same : w'.failureOf? session error = w.failureOf? session error) :
    (w'.readFailure session status error traceback').2.plain =
      (w.readFailure session status error traceback).2.plain := by
  have failure (fault : Fault) : (w'.newFailure fault).2 = (w.newFailure fault).2 :=
    congrArg (Failure.mk · fault) even.identity
  obtain ⟨datum, after⟩ := even.receive error
  cases status with
  | raised =>
      cases known : w.failureOf? session error with
      | some f =>
          rw [known] at same
          cases error with
          | string text => exact congrArg (fun identity => Failure.mk identity _) even.identity
          | _ => simp only [World.readFailure, known, same]
      | none =>
          rw [known] at same
          cases error with
          | string text => exact congrArg (fun identity => Failure.mk identity _) even.identity
          | _ =>
              simp only [World.readFailure, known, same, datum]
              exact congrArg (fun identity => Failure.mk identity _) after.identity
  | handlerFailed | brokenDown => exact congrArg Failure.plain (failure _)

end

/-- The tables of a session are the same in two worlds, but for their numbers. -/
def SameTables (w w' : World σ) (session : Nat) : Prop :=
  ∃ later : Nat → Nat, (w'.machine session).store.tables =
    (w.machine session).store.tables.mapIdx fun i t => t.shift (later i)

theorem SameTables.congr {w w' v v' : World σ} (same : w.SameTables w' session)
    (first : (v.machine session).store = (w.machine session).store)
    (second : (v'.machine session).store = (w'.machine session).store) : v.SameTables v' session := by
  obtain ⟨later, tables⟩ := same
  exact ⟨later, by rw [first, second, tables]⟩

end World

namespace Config
variable {c : Config σ} {s : State} {chunk slot : Nat} {p : Guest.Prototype}

/-- A session is about to run a chunk whose function it has kept, and would compile the chunk to the same code
again. The call of the function begins in the machine `m`. -/
structure MayRunAgain (c : Config σ) (s : State) (chunk slot : Nat) (p : Guest.Prototype)
    (m : Guest.Machine) : Prop where
  control : c.control = .perform (.runChunk s chunk)
  tracked : c.world.Tracked
  accepted : c.world.stateViolation? s = none
  held : (c.world.ledger s.session).compiledSlot? chunk = some slot
  compiles : (c.world.chunk chunk).compile (c.world.machine s.session).mainDepth = .ok p
  kept : ∃ id n cells, (c.world.slots s.session).get? slot = some (.closure id) ∧
    (c.world.machine s.session).store.closures[id]? = some (.compiled n p cells) ∧
    m = (c.world.machine s.session).enterGate.callFromHost (.closure id) []
  room : (c.world.machine s.session).enterGate.MayBegin p

variable {m : Guest.Machine}

theorem MayRunAgain.opened (may : c.MayRunAgain s chunk slot p m) :
    (c.world.ledger s.session).closed = false := by
  have accepted := may.accepted
  simp only [World.stateViolation?, Ledger.stateViolation?] at accepted
  split at accepted
  · cases accepted
  · next opened => simpa using opened

/-- A session without libraries has loaded a chunk, and is about to run it. -/
def resuming : Config Unit :=
  step^[7] (start { directory := default, memory := () } (.perform
    (.init { libraries := .only [], callbacks := { onLog := fun _ _ memory => (memory, none) } }) fun
      | .ok (some s) _ => Client.inTurn [.load s "return true" none, .runChunk ⟨0, 1⟩ 0]
      | _ => .throw (.value .undefined)))

/-- The code that the chunk is compiled to. -/
def resumed : Guest.Prototype := ((Chunk.ofText "return true" none).compile 0).toOption.getD default

end Config

end LuaHost
