import LuaHost.Proofs.Custody
import LuaHost.Proofs.Scans
/-!
What becomes of the slots of a session step by step. A slot is taken for each object that the host is handed: by a
guest, by a decoder, or as a new table or function; and for each chunk that is compiled. It is given back when host
code says so, or when the part of an operation is over that has kept it for itself.
-/

namespace LuaHost

variable {σ : Type}

/-- The holder that host code gives back. -/
def Operation.givesBack? : Operation σ → Option Holder
  | .release item => item.datum.handle?.map .handle
  | .releaseChunk s chunk => some (.chunk s.session chunk)
  | _ => none

/-- A new table, a new function, or a chunk that has been compiled. -/
def Result.isMade : Result → Bool
  | .item (.value (.composite _ _)) => true
  | .chunk _ _ => true
  | _ => false

def Outcome.makes (session : Nat) : Outcome → Bool
  | .ok (some s) r => r.isMade && s.session == session
  | _ => false

theorem Outcome.makes_not_ok {o : Outcome} (failed : ¬ o.IsOk) (session : Nat) :
    o.makes session = false := by
  cases o with
  | ok => exact absurd trivial failed
  | err | threw => rfl

/-- What is read of the values with which a call of the guest ends. -/
def Purpose.reads : Purpose → List Guest.Value → List Guest.Value
  | .values, given => given
  | .lookup _ _, given => given.take 1
  | .assign _, _ => []

namespace World
variable (w : World σ)

/-- The objects that come with a failure of the guest: an error object that stands for no failure of the
host's. -/
def errorObjects (session : Nat) (status : Guest.Status) (error : Guest.Value) : List Guest.Value :=
  if status = .raised ∧ w.failureOf? session error = none then [error] else []

/-- The guest values that the host is handed for what a guest has stopped for: the arguments of a host function, the
values that a call returns or a path leads to, or the error object. The target of a call by name is kept. -/
def handedBy (session : Nat) (stack : List (Pending σ)) : Option Guest.Signal → List Guest.Value
  | some (.hostCall index values) =>
    if ((w.vms[session]?).bind (·.exposed[index]?)).isSome then values else []
  | some (.finished values) =>
    match stack with
    | .guest _ _ :: .resolved _ _ _ :: _ => []
    | .guest _ purpose :: _ => purpose.reads values
    | _ => []
  | some (.failed status error _) => w.errorObjects session status error
  | _ => []

/-- A chunk is run that has to be compiled first, and can be. -/
def compiles (s : State) (chunk : Nat) : Bool :=
  (w.stateViolation? s).isNone && ((w.ledger s.session).compiledSlot? chunk).isNone &&
    ((w.chunk chunk).compile (w.machine s.session).mainDepth).isOk

variable {w}

theorem addChunk_gains (chunk : Chunk) (session : Nat) : Gains w (w.addChunk chunk).1 session 0 where
  held := fun s => by rw [ite_self]; rfl
  sizes := Nat.le_refl _
  keeps := fun _ held => held
  loaded := by
    intro loaded s id held
    have known := loaded s id held
    simp only [addChunk, Array.size_push]
    omega

theorem openSession_gains (options : Options σ) (session : Nat) :
    Gains w (w.openSession options).1 session 0 where
  held := fun s => by rw [ite_self, openSession_held, Nat.add_zero]
  sizes := by simp [openSession]
  keeps := fun x held => by rwa [openSession_slot?]
  loaded := by
    intro loaded s chunk held
    rw [openSession_slot?] at held
    exact loaded s chunk held

theorem expose_gains {session : Nat} (opened : session < w.ledgers.size) (name : String)
    (body : State → List Datum → Client σ) : Gains w (w.expose session name body).1 session 1 := by
  let exposed : World σ := { w with vms := w.vms.modify session fun v =>
    { v with exposed := v.exposed.push (name, body) } }
  have untouched : w.Untouched exposed := ⟨w.exposing_holdings session _ fun _ => rfl, rfl⟩
  exact (untouched.gains session).trans (pin_gains (w := exposed) opened _)

theorem newTable_gains {session : Nat} (opened : session < w.ledgers.size) (t : Guest.Table) (id : Nat) :
    Gains w ((w.modifyMachine session fun m => { m with store := (m.store.newTable t).1 }).receive session
      (.table id)).1 session 1 := by
  let stored := w.modifyMachine session fun m => { m with store := (m.store.newTable t).1 }
  have untouched : w.Untouched stored := untouched_disregards.machines w session _ fun _ => rfl
  exact (untouched.gains session).trans (pin_gains (w := stored) opened _)

end World

namespace Config
variable (c : Config σ)

/-- Host code names nothing that an operation keeps for itself, and no chunk before it is loaded: it has no
way to come by either. -/
def Honest : Prop :=
  ∀ op k T, c.control = .perform op → c.stack = .perform k :: T →
    (∀ x, op.givesBack? = some x → x ∉ c.kept) ∧
    ∀ s chunk, op = .runChunk s chunk → chunk < c.world.chunks.size

/-- The guest values that the host is handed when a guest has run for a while. -/
def handed (session : Nat) : List Guest.Value :=
  let w := c.world.modifyMachine session (·.run portion)
  w.handedBy session c.stack (w.machine session).signal

def makes (session : Nat) : Bool :=
  match c.control with
  | .outcome o => o.makes session
  | _ => false

/-- The slots that the next step takes in a session for what the host is handed, or has made for it. -/
def gains (session : Nat) : Nat :=
  match c.control with
  | .guest t => if session = t then (c.handed t).countP Guest.Value.isObject else 0
  | .perform (.decode d decoder) =>
    if d.handle?.map (·.session) = some session then
      (c.world.scan decoder d).countP Guest.Value.isObject
    else 0
  | .perform (.runChunk s chunk) =>
    if session = s.session ∧ c.world.compiles s chunk then 1 else 0
  | .outcome _ => 0
  | _ => if c.step.makes session ∧ c.step.control.kept? c.step.stack = none then 1 else 0

/-- The slots that host code gives back in the next step. -/
def loses (session : Nat) : Nat :=
  match c.control with
  | .perform op =>
    match op.givesBack? with
    | some x => if x.session = session ∧ c.world.slot? x ≠ none then 1 else 0
    | none => 0
  | _ => 0

variable {c} {d : Config σ} {w w' : World σ} {s : State} {session : Nat} {T : List (Pending σ)}

/-! ### What is made -/

/-- On the way to a configuration the slots are taken for what has been made, and no others. -/
def Accounted (w : World σ) (d : Config σ) : Prop :=
  ∃ t n, w.Gains d.world t n ∧ ∀ s, (if s = t then n else 0) = if d.makes s then 1 else 0

theorem Accounted.nothing (untouched : w.Untouched d.world) (nothing : ∀ s, d.makes s = false) :
    Accounted w d :=
  ⟨0, 0, untouched.gains 0, fun s => by simp [nothing s]⟩

theorem Accounted.after (before : ∀ t, w.Gains w' t 0) (accounted : Accounted w' d) :
    Accounted w d := by
  obtain ⟨t, n, gains, made⟩ := accounted
  exact ⟨t, n, Nat.zero_add n ▸ (before t).trans gains, made⟩

/-- An operation succeeds with what has been made. -/
theorem Accounted.succeeds {r : Result} (gains : w.Gains w' session (if r.isMade then 1 else 0)) :
    Accounted w (c.ending (w'.succeed session r)) := by
  have ended := (advance_disregarded World.untouched_disregards w' session).gains session
  refine ⟨session, _, gains.trans ended, fun s => ?_⟩
  have made : (c.ending (w'.succeed session r)).makes s = (r.isMade && session == s) := rfl
  rw [made]
  by_cases same : s = session
  · subst same
    simp
  · simp [same, Ne.symm same]

/-- An operation fails, and has made nothing. -/
theorem Accounted.fails {r : World σ × Outcome} (untouched : w.Untouched r.1) (failed : ¬ r.2.IsOk) :
    Accounted w (c.ending r) :=
  .nothing untouched fun s => r.2.makes_not_ok failed s

theorem makes_of_not_ok {o : Outcome} (ended : d.control = .outcome o) (failed : ¬ o.IsOk) :
    d.makes session = false := by
  rw [makes, ended]
  exact o.makes_not_ok failed session

/-- Nothing is made where the next thing to do is not an outcome. -/
theorem makes_working (working : ∀ o, d.control ≠ .outcome o) : d.makes session = false := by
  rw [makes]
  split
  · next o ended => exact absurd ended (working o)
  · rfl

theorem throwing_accounted (fault : Fault) : Accounted c.world (c.throwing fault) :=
  .nothing ⟨rfl, rfl⟩ fun _ => rfl

theorem requiring_accounted {k : Config σ → Config σ}
    (goesOn : c.world.stateViolation? s = none → Accounted c.world (k c)) :
    Accounted c.world (c.requiring s k) := by
  rw [requiring]
  split
  · exact throwing_accounted _
  · next accepted => exact goesOn accepted

theorem claiming_accounted {items : List Item} {k : Config σ → Config σ}
    (goesOn : Accounted c.world (k c)) : Accounted c.world (c.claiming session items k) := by
  rw [claiming]
  split
  · exact throwing_accounted _
  · exact goesOn

theorem fail_accounted (fault : Fault) : Accounted c.world (c.ending (c.world.fail session fault)) :=
  .fails (World.untouched_disregards.fail _ _ _) (World.fail_not_ok _ _ _)

theorem abandoning_accounted (entry : State) (t : Thrown) :
    Accounted c.world (c.abandoning entry t) :=
  .fails (abandoning_disregarded World.untouched_disregards entry t) (World.failUnexpected_not_ok _ _ _)

theorem enteringProgram_accounted (entry : State) (purpose : Purpose) (p : Guest.Program) :
    Accounted c.world (c.enteringProgram entry purpose p) :=
  .nothing (enteringProgram_disregarded World.untouched_disregards entry purpose p) fun _ => rfl

theorem applying_accounted (entry : State) (function : Guest.Value) (arguments : List Item) :
    Accounted c.world (c.applying entry function arguments) := by
  have untouched := applying_disregarded (c := c) World.untouched_disregards entry function arguments
  refine .nothing untouched fun s => ?_
  unfold applying
  simp only
  split
  · split
    · exact Outcome.makes_not_ok (World.failUnexpected_not_ok _ _ _) s
    · rfl
  · exact Outcome.makes_not_ok (World.failUnexpected_not_ok _ _ _) s

theorem calling_accounted (entry : State) (f : Item) (arguments : List Item) :
    Accounted c.world (c.calling entry f arguments) := by
  have gate := openingGate_disregarded (c := c) World.untouched_disregards entry
  unfold calling
  simp only
  split
  · exact .after gate.gains (abandoning_accounted entry _)
  · exact .after gate.gains (applying_accounted entry _ _)

theorem lookingUp_accounted (keys : List String) (asReference : Bool) :
    Accounted c.world (c.lookingUp s keys asReference) := by
  refine requiring_accounted fun _ => ?_
  split
  · exact fail_accounted _
  · exact enteringProgram_accounted _ _ _

theorem assigning_accounted (keys : List String) (item : Item) :
    Accounted c.world (c.assigning s keys item) := by
  refine requiring_accounted fun _ => ?_
  split
  · exact fail_accounted _
  · exact claiming_accounted (enteringProgram_accounted _ _ _)

/-- A primitive is no object. -/
theorem encodePrimitive_isMade {p : Primitive} {d : Datum} (encoded : World.encodePrimitive p = .ok d) :
    (Result.item (.value d)).isMade = false := by
  cases p with
  | int x =>
      rw [World.encodePrimitive] at encoded
      split at encoded
      · cases encoded
        rfl
      · exact nomatch encoded
  | nil | bool | float | string =>
      cases encoded
      rfl

theorem encoding_accounted (p : Primitive) : Accounted c.world (c.encoding s p) := by
  rw [encoding]
  split
  · exact .nothing ⟨rfl, rfl⟩ fun _ => rfl
  · next d encoded =>
      refine requiring_accounted fun _ => .succeeds ?_
      rw [encodePrimitive_isMade encoded]
      exact .refl _ _

theorem exposing_accounted (name : String) (body : State → List Datum → Client σ) :
    Accounted c.world (c.exposing s name body) := by
  refine requiring_accounted fun accepted => .succeeds ?_
  exact World.expose_gains (World.opened_of_accepted accepted) name body

theorem building_accounted (table : TableInProgress σ) (last : State) :
    Accounted c.world (c.building table last) := by
  have abandoned (w : World σ) : w.Untouched (w.restore table.origin) :=
    restore_disregarded World.untouched_disregards w table.origin
  rw [building]
  split
  · exact .nothing (abandoned c.world.freshIdentity.1) fun _ => rfl
  · next accepted =>
      split
      · exact .nothing (abandoned c.world.freshIdentity.1) fun _ => rfl
      · split
        · refine .succeeds ?_
          exact World.newTable_gains (World.opened_of_accepted accepted) _ _
        · exact .nothing (abandoned c.world) fun _ => rfl

theorem nextEntry_accounted (table : TableInProgress σ) (last : State) :
    Accounted c.world (c.nextEntry table last) := by
  rw [nextEntry]
  split
  · exact building_accounted table last
  · exact .nothing ⟨rfl, rfl⟩ fun _ => rfl

/-- Text that is loaded is a chunk that nobody has compiled so far. -/
theorem loaded_new (loaded : c.world.Loaded) (session : Nat) (chunk : Chunk) :
    ((c.world.addChunk chunk).1.ledger session).compiledSlot? c.world.chunks.size = none := by
  by_contra compiled
  exact Nat.lt_irrefl _ (loaded session c.world.chunks.size compiled)

theorem loading_accounted (loaded : c.world.Loaded) (opened : s.session < c.world.ledgers.size)
    (chunk : Chunk) : Accounted c.world (c.loading s chunk) := by
  have added (t : Nat) : c.world.Gains (c.world.addChunk chunk).1 t 0 := World.addChunk_gains chunk t
  have new := loaded_new loaded s.session chunk
  have known : c.world.chunks.size < (c.world.addChunk chunk).1.chunks.size := by simp [World.addChunk]
  have opened : s.session < (c.world.addChunk chunk).1.ledgers.size := opened
  rw [loading]
  change Accounted c.world (c.ending ((c.world.addChunk chunk).1.load s.session c.world.chunks.size))
  generalize (c.world.addChunk chunk).1 = w at added new known opened
  refine .after added ?_
  simp only [World.load, World.compile, new]
  cases (w.chunk c.world.chunks.size).compile (w.machine s.session).mainDepth with
  | error message =>
      exact .fails (World.untouched_disregards.fail _ _ _) (World.fail_not_ok _ _ _)
  | ok p => exact .succeeds (World.keepCompiled_gains opened known p)

theorem done_accounted (state : State) (items : List Item) : Accounted c.world (c.done state items) := by
  rw [done]
  split
  · next session name stack _ =>
      refine .nothing (answering_disregarded (c := { c with stack }) World.untouched_disregards _ _ _ _)
        fun s => ?_
      rw [answering]
      split
      · rfl
      · split
        · split <;> rfl
        · rfl
  · next table value stack _ =>
      refine .nothing (gotKey_disregarded (c := { c with stack }) World.untouched_disregards _ _ _ _)
        fun s => ?_
      rw [gotKey]
      split <;> rfl
  · next stack _ => exact nextEntry_accounted (c := { c with stack }) _ _
  · exact .nothing ⟨rfl, rfl⟩ fun _ => rfl

theorem clientStep_accounted (k : Client σ) : Accounted c.world (c.clientStep k) := by
  cases k with
  | done state items => exact done_accounted state items
  | throw t =>
      refine .nothing (thrown_disregarded World.untouched_disregards t) fun s => ?_
      rw [clientStep, thrown]
      split <;> rfl
  | access | identity | perform => exact .nothing ⟨rfl, rfl⟩ fun _ => rfl

theorem loadingFile_accounted (loaded : c.world.Loaded) (path : String) :
    Accounted c.world (c.loadingFile s path) := by
  refine requiring_accounted fun accepted => ?_
  rw [readingFile]
  split
  · exact .nothing ⟨rfl, rfl⟩ fun _ => rfl
  · next outcome _ =>
      cases outcome with
      | ok content => exact loading_accounted loaded (World.opened_of_accepted accepted) _
      | error e => exact fail_accounted _

/-- Most operations take slots for what they make only. -/
theorem perform_accounted (loaded : c.world.Loaded) {op : Operation σ} (stays : op.givesBack? = none)
    (looks : ∀ d decoder, op ≠ .decode d decoder) (fresh : ∀ s chunk, op ≠ .runChunk s chunk) :
    Accounted c.world (c.perform op) := by
  cases op with
  | init options => exact ⟨0, 0, World.openSession_gains options 0, fun s => by simp [makes, perform, ending, Outcome.makes, Result.isMade]⟩
  | close s =>
      exact .nothing (World.untouched_disregards.marks _ _ _ (fun _ => rfl) fun _ _ => rfl) fun _ => rfl
  | encode s p => exact encoding_accounted p
  | encodeTable s entries => exact requiring_accounted fun _ => nextEntry_accounted _ _
  | expose s name body => exact exposing_accounted _ _
  | get s keys | refGet s keys => exact lookingUp_accounted _ _
  | set s keys item => exact assigning_accounted _ _
  | load s source name =>
      exact requiring_accounted fun accepted => loading_accounted loaded (World.opened_of_accepted accepted) _
  | loadFile s path => exact loadingFile_accounted loaded path
  | run | runFile | callByName => exact .nothing ⟨rfl, rfl⟩ fun _ => rfl
  | runChunk s chunk => exact absurd rfl (fresh s chunk)
  | call s ref arguments => exact requiring_accounted fun _ => claiming_accounted (calling_accounted _ _ _)
  | decode d decoder => exact absurd rfl (looks d decoder)
  | releaseChunk => cases stays
  | release item =>
      have unheld : item.datum.handle? = none := by simpa [Operation.givesBack?] using stays
      refine .nothing ?_ fun _ => rfl
      simp only [perform, ending, World.release, unheld]
      exact ⟨rfl, rfl⟩

/-! ### Chunks that are run, and decoders -/

theorem kept?_unless_ok {control : Control σ} (failed : ∀ o, control = .outcome o → ¬ o.IsOk)
    (T : List (Pending σ)) : control.kept? T = none := by
  cases control with
  | outcome o => exact Control.kept?_not_ok (failed o rfl)
  | _ => rfl

theorem applying_not_ok (entry : State) (function : Guest.Value) (arguments : List Item) {o : Outcome}
    (ended : (c.applying entry function arguments).control = .outcome o) : ¬ o.IsOk := by
  unfold applying at ended
  simp only at ended
  split at ended
  · split at ended
    · exact Control.outcome.inj ended ▸ World.failUnexpected_not_ok _ _ _
    · exact nomatch ended
  · exact Control.outcome.inj ended ▸ World.failUnexpected_not_ok _ _ _

/-- A chunk that is run takes a slot if it has to be compiled first. -/
theorem runningChunk_gains {chunk : Nat} (known : chunk < c.world.chunks.size) :
    c.world.Gains (c.runningChunk s chunk).world s.session (if c.world.compiles s chunk then 1 else 0) ∧
      ∀ o, (c.runningChunk s chunk).control = .outcome o → ¬ o.IsOk := by
  rw [runningChunk, requiring]
  cases violation : c.world.stateViolation? s with
  | some fault =>
      have none : c.world.compiles s chunk = false := by simp [World.compiles, violation]
      rw [none]
      have thrown : c.world.Untouched (c.throwing fault).world := ⟨rfl, rfl⟩
      refine ⟨thrown.gains _, fun o ended => ?_⟩
      exact Control.outcome.inj ended ▸ fun h => h
  | none =>
      have opened := World.opened_of_accepted violation
      have applied (w : World σ) (v : Guest.Value) : w.Untouched
          ((({ c with world := w }).openingGate s).applying s v []).world := by
        have gate := openingGate_disregarded (c := { c with world := w }) World.untouched_disregards s
        exact World.untouched_disregards.trans gate (applying_disregarded World.untouched_disregards s v [])
      simp only [World.compile]
      cases held : (c.world.ledger s.session).compiledSlot? chunk with
      | some slot =>
          have none : c.world.compiles s chunk = false := by simp [World.compiles, held]
          rw [none]
          exact ⟨(applied c.world _).gains _, fun o => applying_not_ok _ _ _⟩
      | none =>
          cases compiled : (c.world.chunk chunk).compile (c.world.machine s.session).mainDepth with
          | error message =>
              have none : c.world.compiles s chunk = false := by simp [World.compiles, compiled, Except.isOk, Except.toBool]
              rw [none]
              refine ⟨(World.untouched_disregards.fail _ _ _).gains _, fun o ended => ?_⟩
              exact Control.outcome.inj ended ▸ World.fail_not_ok _ _ _
          | ok p =>
              have new : c.world.compiles s chunk = true := by
                simp [World.compiles, violation, held, compiled, Except.isOk, Except.toBool]
              rw [new]
              refine ⟨?_, fun o => applying_not_ok _ _ _⟩
              exact (World.keepCompiled_gains opened known p).trans ((applied _ _).gains s.session)

/-- What a decoder gives is for the host. -/
theorem decode_unkept (w : World σ) (d : Datum) (decoder : Decoder) (T : List (Pending σ)) :
    (Control.outcome (w.decode d decoder).2).kept? T = none := by
  unfold World.decode
  split
  · simp only [Control.kept?]
  · rfl
  · rfl

/-! ### Guests -/

theorem returned_gains (opened : session < w.ledgers.size) (purpose : Purpose)
    (values : List Guest.Value) : w.Gains (returned session purpose values w).1 session
      ((purpose.reads values).countP Guest.Value.isObject) := by
  have succeeded (w : World σ) (r : Result) : w.Gains (w.succeed session r).1 session 0 :=
    (advance_disregarded World.untouched_disregards w session).gains session
  have failed (w : World σ) (fault : Fault) : w.Gains (w.fail session fault).1 session 0 :=
    (World.untouched_disregards.fail w session fault).gains session
  cases purpose with
  | values => exact (World.receiveAll_gains opened values).trans (succeeded _ _)
  | lookup keys asReference =>
      cases values with
      | nil => exact failed w _
      | cons v rest =>
          have read := World.receive_gains opened v
          have counted : ((Purpose.lookup keys asReference).reads (v :: rest)).countP
              Guest.Value.isObject = if v.isObject then 1 else 0 := by
            simp [Purpose.reads, List.countP_cons]
          rw [counted]
          simp only [returned]
          split
          · exact read.trans (failed _ _)
          · exact read
  | assign keys =>
      simp only [returned]
      split
      · exact failed w _
      · exact succeeded w _

/-- An error takes a slot if its object is handed to the host. -/
theorem readFailure_gains (opened : session < w.ledgers.size) (status : Guest.Status)
    (error : Guest.Value) (traceback : Option Guest.Bytes) :
    w.Gains (w.readFailure session status error traceback).1 session
      ((w.errorObjects session status error).countP Guest.Value.isObject) := by
  have untouched {w' : World σ} (same : w.Untouched w') : w.Gains w' session 0 := same.gains session
  unfold World.readFailure
  dsimp only
  split
  · next text =>
      have none : (w.errorObjects session .raised (.string text)).countP Guest.Value.isObject = 0 := by
        simp [World.errorObjects, World.failureOf?, Guest.Value.isObject]
      rw [none]
      exact untouched ⟨rfl, rfl⟩
  · cases carried : w.failureOf? session error with
      | some f =>
          have none : w.errorObjects session .raised error = [] := by
            simp [World.errorObjects, carried]
          rw [none]
          exact untouched ⟨rfl, rfl⟩
      | none =>
          have one : (w.errorObjects session .raised error).countP Guest.Value.isObject =
              if error.isObject then 1 else 0 := by
            simp [World.errorObjects, carried, List.countP_cons]
          rw [one]
          have told (fault : Fault) : (w.receive session error).1.Untouched
              ((w.receive session error).1.newFailure fault).1 := ⟨rfl, rfl⟩
          exact (World.receive_gains opened error).trans ((told _).gains _)
  · next raised _ =>
      have none : w.errorObjects session status error = [] :=
        if_neg fun ⟨same, _⟩ => raised same
      rw [none]
      exact untouched ⟨rfl, rfl⟩

theorem leaving_gains {entry : State} (opened : entry.session < c.world.ledgers.size) (purpose : Purpose)
    (T : List (Pending σ)) (values : List Guest.Value) :
    c.world.Gains (c.leaving entry purpose T (.finished values)).world entry.session
      ((purpose.reads values).countP Guest.Value.isObject) := by
  have restored := restore_disregarded World.untouched_disregards c.world entry
  have opened : entry.session < (c.world.restore entry).ledgers.size := by
    simpa [World.restore, World.modifyLedger] using opened
  rw [← Nat.zero_add (List.countP _ _)]
  exact (restored.gains _).trans (returned_gains opened purpose values)

theorem failed_gains {entry : State} (opened : entry.session < c.world.ledgers.size) (purpose : Purpose)
    (T : List (Pending σ)) (status : Guest.Status) (error : Guest.Value)
    (traceback : Option Guest.Bytes) :
    c.world.Gains (c.leaving entry purpose T (.failed status error traceback)).world entry.session
      ((c.world.errorObjects entry.session status error).countP Guest.Value.isObject) := by
  have read := readFailure_gains opened status error traceback
  have told := World.untouched_disregards.failCall (c.world.readFailure entry.session status error traceback).1
    entry.session (c.world.readFailure entry.session status error traceback).2
  exact read.trans (told.gains _ |>.trans ((restore_disregarded World.untouched_disregards _ entry).gains _))

/-- A host function takes slots for its arguments, also if a hook does not let it run. -/
theorem invoking_gains (opened : session < c.world.ledgers.size) (index : Nat) (values : List Guest.Value) :
    c.world.Gains (c.invoking session index values).world session
      ((if ((c.world.vms[session]?).bind (·.exposed[index]?)).isSome then values else []).countP
        Guest.Value.isObject) := by
  have untouched := World.untouched_disregards (σ := σ)
  rw [invoking]
  split
  · next missing =>
      rw [missing]
      exact (raising_disregarded untouched session _ _).gains _
  · next name body found =>
      rw [found]
      have read := World.receiveAll_gains opened values
      dsimp only
      split
      · next w t told =>
          have raised := raising_disregarded (c := c) untouched session t w
          exact read.trans ((untouched.trans (untouched.told told) raised).gains _)
      · next w told =>
          have advanced := advance_disregarded untouched w session
          exact read.trans ((untouched.trans (untouched.told told) advanced).gains _)

/-- The target of a call by name takes a slot if it is an object, and is kept then. -/
theorem found_kept (entry s : State) (keys path : List String) (arguments : List Item)
    (values : List Guest.Value) :
    ((c.leaving entry (.lookup keys true) (.resolved s path arguments :: T) (.finished values)).control.kept?
        (.resolved s path arguments :: T)).toList.length = (values.take 1).countP Guest.Value.isObject ∧
      ∀ x, (c.leaving entry (.lookup keys true) (.resolved s path arguments :: T)
        (.finished values)).control.kept? (.resolved s path arguments :: T) = some x →
          x.session = entry.session := by
  -- a path that leads to nothing is a failure, and so is one that leads to nil
  have failed (w : World σ) (fault : Fault) :
      (Control.outcome (w.fail entry.session fault).2).kept? (.resolved s path arguments :: T) = none :=
    Control.kept?_not_ok (World.fail_not_ok _ _ _)
  cases values with
  | nil =>
      simp only [leaving, returned, ending, failed]
      exact ⟨rfl, fun x h => by cases h⟩
  | cons v rest =>
      cases v with
      | nil =>
          have absent : ((c.world.restore entry).receive entry.session .nil).2.isNil = true := rfl
          simp only [leaving, returned, ending, absent, if_true, failed]
          exact ⟨rfl, fun x h => by cases h⟩
      | bool | int | float | string => exact ⟨rfl, fun x h => by cases h⟩
      | table | closure | builtin | host | userdata | light | thread =>
          exact ⟨rfl, fun x h => Option.some.inj h ▸ rfl⟩

theorem invoking_unkept (index : Nat) (values : List Guest.Value) :
    (c.invoking session index values).control.kept? T = none := by
  refine kept?_unless_ok (fun o ended => ?_) T
  rw [invoking] at ended
  split at ended
  · cases ended
  · dsimp only at ended
    split at ended <;> cases ended

theorem logging_unkept (control : c.control = .guest session) (line : String) :
    (c.logging session line).control.kept? T = none := by
  refine kept?_unless_ok (fun o ended => ?_) T
  rw [logging] at ended
  split at ended
  · cases control.symm.trans ended
  · cases ended

theorem readingForGuest_unkept (control : c.control = .guest session) (path : String) :
    (c.readingForGuest session path).control.kept? T = none := by
  refine kept?_unless_ok (fun o ended => ?_) T
  rw [readingForGuest, readingFile] at ended
  split at ended
  · cases ended
  · cases control.symm.trans ended

/-- Nothing is kept at the end of a call of the guest but the target of a call by name. -/
theorem guest_unkept {entry : State} {purpose : Purpose} (control : c.control = .guest session)
    (waits : c.stack = .guest entry purpose :: T) (keeps : Move.Keeps c.posture c.step.posture)
    (alone : ∀ s keys arguments R, T ≠ .resolved s keys arguments :: R) :
    c.step.control.kept? c.step.stack = none := by
  cases kept : c.step.control.kept? c.step.stack with
  | none => rfl
  | some x =>
      cases keeps.takes x kept with
      | compiles control' => exact nomatch control.symm.trans control'
      | finds _ waits' =>
          have same := List.cons.inj (waits.symm.trans waits')
          exact absurd same.2 (alone _ _ _ _)

/-- Slots are taken for what the host is handed, and for what is kept. -/
def Owes (w : World σ) (session : Nat) (handed : List Guest.Value) (d : Config σ) : Prop :=
  w.Gains d.world session
      (handed.countP Guest.Value.isObject + (d.control.kept? d.stack).toList.length) ∧
    ∀ x, d.control.kept? d.stack = some x → x.session = session

theorem Owes.unkept {handed : List Guest.Value} (none : d.control.kept? d.stack = none)
    (gains : w.Gains d.world session (handed.countP Guest.Value.isObject)) : Owes w session handed d := by
  rw [Owes, none]
  exact ⟨gains, fun x h => nomatch h⟩

theorem Owes.after {handed : List Guest.Value} (untouched : w.Untouched w')
    (owes : Owes w' session handed d) : Owes w session handed d :=
  ⟨Nat.zero_add (List.countP _ handed + _) ▸ (untouched.gains session).trans owes.1, owes.2⟩

/-- The end of a call by name's look for its target. -/
theorem heeding_resolved {entry s : State} {keys path : List String} {arguments : List Item}
    (opened : entry.session < c.world.ledgers.size)
    (waits : c.stack = .guest entry (.lookup keys true) :: .resolved s path arguments :: T)
    (values : List Guest.Value) : Owes c.world entry.session
      (c.world.handedBy entry.session c.stack (some (.finished values)))
      (c.heeding entry.session (some (.finished values))) := by
  have gains := leaving_gains opened (.lookup keys true) (.resolved s path arguments :: T) values
  obtain ⟨counted, own⟩ := found_kept (c := c) (T := T) entry s keys path arguments values
  have step : c.heeding entry.session (some (.finished values)) =
      c.leaving entry (.lookup keys true) (.resolved s path arguments :: T) (.finished values) := by
    simp only [heeding, guestEnded, waits]
  rw [step, waits]
  have total : ([] : List Guest.Value).countP Guest.Value.isObject +
      ((c.leaving entry (.lookup keys true) (.resolved s path arguments :: T)
        (.finished values)).control.kept? (.resolved s path arguments :: T)).toList.length =
      ((Purpose.lookup keys true).reads values).countP Guest.Value.isObject :=
    (Nat.zero_add _).trans counted
  exact ⟨total ▸ gains, own⟩

theorem handedBy_unresolved {entry : State} {purpose : Purpose}
    (alone : ∀ s keys arguments R, T ≠ .resolved s keys arguments :: R) (values : List Guest.Value) :
    w.handedBy session (.guest entry purpose :: T) (some (.finished values)) = purpose.reads values := by
  rw [World.handedBy]
  exact alone

/-- What a guest has stopped for takes slots for what the host is handed, and for what is kept. -/
theorem heeding_owes {entry : State} {purpose : Purpose} (control : c.control = .guest entry.session)
    (waits : c.stack = .guest entry purpose :: T) (fits : Pending.Fits (.guest entry purpose) T)
    (opened : entry.session < c.world.ledgers.size) (signal : Option Guest.Signal)
    (unkept : (∀ s keys arguments R, T ≠ .resolved s keys arguments :: R) →
      (c.heeding entry.session signal).control.kept? (c.heeding entry.session signal).stack = none) :
    Owes c.world entry.session (c.world.handedBy entry.session c.stack signal)
      (c.heeding entry.session signal) := by
  have untouched := World.untouched_disregards (σ := σ)
  rcases signal with _ | (values | ⟨status, error, traceback⟩ | ⟨index, values⟩ | line | path)
  · refine .unkept ?_ (.refl _ _)
    rw [heeding, control]
    rfl
  · by_cases resolved : ∃ s path arguments R, T = .resolved s path arguments :: R
    · obtain ⟨s, path, arguments, R, rfl⟩ := resolved
      cases fits with
      | guest _ _ _ _ enters fits =>
          cases fits
          cases enters
          exact heeding_resolved opened waits values
    · have alone : ∀ s keys arguments R, T ≠ .resolved s keys arguments :: R :=
        fun s keys arguments R same => resolved ⟨s, keys, arguments, R, same⟩
      have step : c.heeding entry.session (some (.finished values)) =
          c.leaving entry purpose T (.finished values) := by
        simp only [heeding, guestEnded, waits]
      refine .unkept (unkept alone) ?_
      rw [step, waits, handedBy_unresolved alone]
      exact leaving_gains opened purpose T values
  · have step : c.heeding entry.session (some (.failed status error traceback)) =
        c.leaving entry purpose T (.failed status error traceback) := by
      simp only [heeding, guestEnded, waits]
    rw [step]
    refine .unkept ?_ (failed_gains opened purpose T status error traceback)
    exact Control.kept?_not_ok (World.failCall_not_ok _ _ _)
  · exact .unkept (invoking_unkept index values) (invoking_gains opened index values)
  · exact .unkept (logging_unkept control line) ((logging_disregarded untouched _ line).gains _)
  · exact .unkept (readingForGuest_unkept control _) ((readingForGuest_disregarded untouched _ _).gains _)

/-! ### Steps -/

/-- Before an outcome is there, nothing that is kept is given back. -/
theorem step_keeps (proper : c.posture.Proper) (working : ∀ o, c.control ≠ .outcome o) :
    Move.Keeps c.posture c.step.posture := by
  by_cases going : c.step.IsGoing
  · exact c.step_move.kept_working proper going working
  · obtain ⟨r, halted⟩ : ∃ r, c.step.control = .finished r := by simpa [IsGoing] using going
    have none : c.step.posture.control.kept? c.step.posture.stack = none := congrArg (Control.kept? · _) halted
    have nothing : c.kept = [] := by
      by_cases before : c.IsGoing
      · have alone := (going_or_alone proper before).resolve_left going
        simp [kept, posture, Posture.kept, Move.kept?_working working, alone]
      · exact kept_over proper before
    have halted : c.step.kept = [] := kept_over ((Next.step c).proper proper) going
    refine ⟨?_, fun x taken => by cases none.symm.trans taken⟩
    rw [none]
    exact halted.trans nothing.symm

/-- What the slots of a step are taken for: for what the host is handed or has made, and for what is kept. -/
def Pays (c : Config σ) : Prop :=
  ∃ t n, c.world.Gains c.step.world t n ∧ ∀ s, (if s = t then n else 0) =
    c.gains s + (c.step.control.kept? c.step.stack).toList.countP (·.session == s)

/-- What is kept is a chunk that has been compiled to be run. -/
theorem pays_of_accounted (accounted : Accounted c.world c.step)
    (guestless : ∀ session, c.control ≠ .guest session)
    (takes : ∀ x, c.step.control.kept? c.step.stack = some x → Move.Takes c.posture c.step.posture)
    (counted : ∀ s, c.gains s =
      if c.step.makes s ∧ c.step.control.kept? c.step.stack = none then 1 else 0) : Pays c := by
  obtain ⟨t, n, gains, made⟩ := accounted
  refine ⟨t, n, gains, fun s => ?_⟩
  rw [made, counted]
  cases kept : c.step.control.kept? c.step.stack with
  | none => simp
  | some x =>
      cases takes x kept with
      | finds control => exact absurd control (guestless _)
      | @compiles op origin T control compiles waits stays =>
          have stays : c.step.stack = .compiled origin :: T := stays.trans waits
          rw [stays] at kept
          obtain ⟨u, chunk, text, gave, rfl⟩ := kept?_compiled kept
          have makes : c.step.makes s = (u.session == s) := by
            rw [Config.makes, gave]
            rfl
          simp [makes, List.countP_cons, Holder.session]

theorem pays_unkept {t n : Nat} (gains : c.world.Gains c.step.world t n)
    (none : c.step.control.kept? c.step.stack = none) (counted : ∀ s, (if s = t then n else 0) = c.gains s) :
    Pays c :=
  ⟨t, n, gains, fun s => by rw [counted, none]; rfl⟩

theorem guest_pays {entry : State} {purpose : Purpose} (control : c.control = .guest entry.session)
    (waits : c.stack = .guest entry purpose :: T) (fits : Pending.Fits (.guest entry purpose) T)
    (opened : entry.session < c.world.ledgers.size) (keeps : Move.Keeps c.posture c.step.posture) :
    Pays c := by
  have unkept := guest_unkept control waits keeps
  have step : c.step = heeding { c with world := c.world.modifyMachine entry.session (·.run portion) }
      entry.session ((c.world.modifyMachine entry.session (·.run portion)).machine entry.session).signal := by
    rw [← guestStep_eq]
    simp only [Config.step, control]
  have ran : c.world.Untouched (c.world.modifyMachine entry.session (·.run portion)) :=
    World.untouched_disregards.machines _ _ _ fun m => m.run_slots portion
  rw [step] at unkept
  have owes := Owes.after ran (heeding_owes (c := { c with world := c.world.modifyMachine entry.session (·.run portion) })
    control waits fits opened _ unkept)
  rw [← step] at owes
  refine ⟨_, _, owes.1, fun s => ?_⟩
  have gains : c.gains s = if s = entry.session then (c.handed entry.session).countP Guest.Value.isObject else 0 := by
    simp only [Config.gains, control]
  rw [gains]
  cases kept : c.step.control.kept? c.step.stack with
  | none => rfl
  | some x =>
      have own := owes.2 x kept
      by_cases same : s = entry.session
      · simp [same, own]
        rfl
      · simp [same, own, Ne.symm same]

/-- A chunk is run for host code, or by what has loaded it. -/
theorem runChunk_known {chunk : Nat} (reachable : Reachable c) (honest : c.Honest)
    (control : c.control = .perform (.runChunk s chunk)) : chunk < c.world.chunks.size := by
  obtain ⟨w, _, T⟩ := c
  cases control
  have fits : Control.Fits _ T := reachable.proper.control
  cases fits with
  | perform _ _ fits =>
      cases fits with
      | perform _ k R => exact (honest _ k R rfl rfl).2 s chunk rfl
      | compiled _ _ _ compiles => exact compiles.elim
      | ran origin _ _ R =>
          refine reachable.acquainted (.chunk s.session chunk) ?_
          simp [kept, posture, Posture.kept, Control.kept?, Pending.kept?]

theorem perform_pays {op : Operation σ} (reachable : Reachable c) (honest : c.Honest)
    (loaded : c.world.Loaded) (control : c.control = .perform op) (stays : op.givesBack? = none)
    (takes : ∀ x, c.step.control.kept? c.step.stack = some x → Move.Takes c.posture c.step.posture) :
    Pays c := by
  have step : c.step = c.perform op := by simp only [Config.step, control]
  by_cases looks : ∃ d decoder, op = .decode d decoder
  · obtain ⟨d, decoder, rfl⟩ := looks
    have unkept : c.step.control.kept? c.step.stack = none := by
      rw [step]
      exact decode_unkept _ _ _ _
    cases handle : d.handle? with
    | none =>
        refine pays_unkept (t := 0) (n := 0) ?_ unkept fun s => ?_
        · rw [step]
          exact (World.decode_primitive handle decoder).gains 0
        · simp [gains, control, handle]
    | some h =>
        obtain ⟨made, recorded⟩ := reachable.recorded
        have read : c.world.Gains c.step.world h.session
            ((c.world.scan decoder d).countP Guest.Value.isObject) := by
          rw [step]
          exact World.decode_gains ⟨made, recorded.sound⟩ handle decoder
        exact pays_unkept read unkept fun s => by simp [gains, control, handle, eq_comm]
  · by_cases runs : ∃ s chunk, op = .runChunk s chunk
    · obtain ⟨s, chunk, rfl⟩ := runs
      obtain ⟨gains, failed⟩ := runningChunk_gains (s := s) (runChunk_known reachable honest control)
      have step : c.step = c.runningChunk s chunk := step
      rw [← step] at gains failed
      refine pays_unkept gains (kept?_unless_ok failed _) fun s' => ?_
      simp only [Config.gains, control]
      split <;> simp_all
    · refine pays_of_accounted ?_ ?_ takes ?_
      · rw [step]
        exact perform_accounted loaded stays (fun d decoder same => looks ⟨d, decoder, same⟩)
          fun s chunk same => runs ⟨s, chunk, same⟩
      · exact fun session same => by cases control.symm.trans same
      · intro s
        rw [Config.gains.eq_def, control]
        cases op with
        | decode d decoder => exact absurd ⟨d, decoder, rfl⟩ looks
        | runChunk s chunk => exact absurd ⟨s, chunk, rfl⟩ runs
        | _ => rfl

/-- A guest runs for an operation, in a session that there is. -/
theorem guest_fits (reachable : Reachable c) (control : c.control = .guest session) :
    ∃ entry purpose T, session = entry.session ∧ c.stack = .guest entry purpose :: T ∧
      Pending.Fits (.guest entry purpose) T ∧ entry.session < c.world.ledgers.size := by
  have revived := reachable.sound.revived
  obtain ⟨fits, stacked⟩ := reachable.proper
  obtain ⟨w, _, T⟩ := c
  cases control
  have fits : Control.Fits _ T := fits
  cases fits with
  | guest entry purpose R =>
      have stacked : Stacked (.guest entry purpose :: R) := stacked
      cases stacked with
      | cons fits =>
          have issued := revived (.guest entry purpose) List.mem_cons_self entry rfl
          refine ⟨entry, purpose, R, rfl, rfl, fits, ?_⟩
          simpa [posture, World.standing] using issued.1

/-- What waits for a file goes on with what it was at. -/
theorem lacking_accounted {path : String} {next : Control σ} (reachable : Reachable c)
    (control : c.control = .lacking path next) : Accounted c.world c.step := by
  have fits := reachable.proper.control
  obtain ⟨w, _, T⟩ := c
  cases control
  have fits : Control.Fits (.lacking path next) T := fits
  have working : ∀ o, next ≠ .outcome o := by
    cases fits <;> exact fun _ h => nomatch h
  simp only [step]
  split
  · exact .nothing ⟨rfl, rfl⟩ fun _ => rfl
  · exact .nothing ⟨rfl, rfl⟩ fun _ => makes_working working

/-- A step in which nothing is given back pays for itself. -/
theorem step_pays (reachable : Reachable c) (honest : c.Honest) (loaded : c.world.Loaded)
    (working : ∀ o, c.control ≠ .outcome o)
    (stays : ∀ op, c.control = .perform op → op.givesBack? = none) : Pays c := by
  have takes := (step_keeps reachable.proper working).takes
  cases control : c.control with
  | client k =>
      have step : c.step = c.clientStep k := by simp only [Config.step, control]
      refine pays_of_accounted (step ▸ clientStep_accounted k)
        (fun session same => by cases control.symm.trans same) takes fun s => ?_
      simp only [gains, control]
  | perform op => exact perform_pays reachable honest loaded control (stays op control) takes
  | outcome o => exact absurd control (working o)
  | guest t =>
      obtain ⟨entry, purpose, T, rfl, waits, fits, opened⟩ := guest_fits reachable control
      exact guest_pays control waits fits opened (step_keeps reachable.proper working)
  | lacking path next =>
      refine pays_of_accounted (lacking_accounted reachable control) (fun session same => by cases control.symm.trans same) takes fun s => ?_
      simp only [gains, control]
  | finished r =>
      have step : c.step = c := by simp only [Config.step, control]
      have nothing : Accounted c.world c.step := by
        rw [step]
        exact .nothing ⟨rfl, rfl⟩ fun s => makes_working fun o same => by cases control.symm.trans same
      refine pays_of_accounted nothing (fun session same => by cases control.symm.trans same) takes fun s => ?_
      simp only [gains, control]

end Config

end LuaHost
