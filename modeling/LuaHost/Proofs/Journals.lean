import LuaHost.Proofs.Custody
/-!
Journals in the host's memory. A host that wants to know what its sessions tell it keeps a journal: the callbacks
write in it, and nothing else does. A part of an operation that ends with a failure has then told this failure, once,
and everything else is silent.
-/

namespace LuaHost

variable {σ ε α : Type}

/-- What a session tells its host. -/
inductive Event where
  | logged (line : String)
  | called (call : HostCall)
  | returned (result : HostReturn)
  | failed (f : Failure)

/-- The failure that an outcome is. -/
def Outcome.failure? : Outcome → Option Failure
  | .err f => some f
  | _ => none

/-- What has been told about an outcome: its failure. -/
def Outcome.told (o : Outcome) : List Event := o.failure?.toList.map .failed

/-- A part of the host's memory, and what is noted there of each event. -/
structure Journal (σ ε : Type) where
  read : σ → List ε
  notes : Event → List ε

namespace Journal
variable (j : Journal σ ε)

/-- A callback writes in the journal what is to be noted, and then does not throw; of events that are not noted it
may make what it wants, so long as it leaves the journal alone. -/
def Heeds (hook : Option (Hook σ α)) (event : α → Event) : Prop :=
  ∀ (w : World σ) (a : α),
    j.read (w.notify hook a).1.memory = j.read w.memory ++ j.notes (event a) ∧
      ((w.notify hook a).2 ≠ none → j.notes (event a) = [])

end Journal

structure Callbacks.Keep (callbacks : Callbacks σ) (j : Journal σ ε) : Prop where
  logs : j.Heeds (some callbacks.onLog) .logged
  calls : j.Heeds callbacks.onHostCall .called
  returns : j.Heeds callbacks.onHostReturn .returned
  failures : j.Heeds callbacks.onError .failed

mutual

/-- Host code that leaves the journal to the callbacks, and has them keep it in all sessions that it opens. -/
def Client.Respects (j : Journal σ ε) : Client σ → Prop
  | .done _ _ => True
  | .throw _ => True
  | .access update next =>
    (∀ ledgers memory, j.read (update ledgers memory) = j.read memory) ∧
      ∀ ledgers memory, (next ledgers memory).Respects j
  | .identity k => ∀ identity, (k identity).Respects j
  | .perform op k => op.Respects j ∧ ∀ o, (k o).Respects j

def Operation.Respects (j : Journal σ ε) : Operation σ → Prop
  | .init options => options.callbacks.Keep j
  | .encodeTable _ entries => entries.Respects j
  | .expose _ _ body => ∀ state arguments, (body state arguments).Respects j
  | _ => True

def Encoders.Respects (j : Journal σ ε) : Encoders σ → Prop
  | .nil => True
  | .cons key value rest =>
    (∀ state, (key state).Respects j) ∧ (∀ state, (value state).Respects j) ∧ rest.Respects j

end

def Pending.Respects (j : Journal σ ε) : Pending σ → Prop
  | .perform k => ∀ o, (k o).Respects j
  | .key table entry => table.rest.Respects j ∧ ∀ state, (entry state).Respects j
  | .value table _ => table.rest.Respects j
  | _ => True

def Control.Respects (j : Journal σ ε) : Control σ → Prop
  | .client k => k.Respects j
  | .perform op => op.Respects j
  | .lacking _ next => next.Respects j
  | _ => True

namespace World
variable (w : World σ)

/-- The host code that is there for guests, session by session. -/
def code : Array (Callbacks σ × Array (String × (State → List Datum → Client σ))) :=
  w.vms.map fun v => (v.callbacks, v.exposed)

def Respects (j : Journal σ ε) : Prop :=
  ∀ p ∈ w.code, p.1.Keep j ∧ ∀ e ∈ p.2, ∀ state arguments, (e.2 state arguments).Respects j

end World

structure Config.Respects (j : Journal σ ε) (c : Config σ) : Prop where
  world : c.world.Respects j
  control : c.control.Respects j
  stack : ∀ p ∈ c.stack, p.Respects j

/-! ### What is not told -/

namespace World
variable {j : Journal σ ε} {w w' w'' : World σ} {session : Nat}

theorem modifyMachine_code (session : Nat) (f : Guest.Machine → Guest.Machine) :
    (w.modifyMachine session f).code = w.code := by
  have same := map_modify w.vms session (fun v => { v with machine := f v.machine })
    (fun v => (v.callbacks, v.exposed)) id fun _ => rfl
  exact same.trans (LuaHost.modify_id _ _)

/-- Neither the journal nor the code has changed. -/
def Silent (w w' : World σ) : Prop := w'.memory = w.memory ∧ w'.code = w.code

theorem Silent.refl (w : World σ) : w.Silent w := ⟨rfl, rfl⟩

theorem Silent.trans (first : w.Silent w') (second : w'.Silent w'') : w.Silent w'' :=
  ⟨second.1.trans first.1, second.2.trans first.2⟩

theorem modifyMachine_silent (session : Nat) (f : Guest.Machine → Guest.Machine) :
    w.Silent (w.modifyMachine session f) :=
  ⟨rfl, modifyMachine_code session f⟩

theorem occupy_silent (session : Nat) (v : Guest.Value) : w.Silent (w.occupy session v).1 :=
  modifyMachine_silent session _

theorem pin_silent (session : Nat) (v : Guest.Value) : w.Silent (w.pin session v).1 :=
  occupy_silent (w := w) session v

theorem vacate_silent (session slot : Nat) : w.Silent (w.vacate session slot) := by
  rw [vacate]
  split
  · exact .refl w
  · exact modifyMachine_silent _ _

theorem releaseHandle_silent (h : Handle) : w.Silent (w.releaseHandle h) := by
  rw [releaseHandle]
  split
  · exact .refl w
  · exact vacate_silent _ _

theorem release_silent (item : Item) : w.Silent (w.release item) := by
  rw [release]
  split
  · exact releaseHandle_silent _
  · exact .refl w

theorem releaseChunk_silent (session chunk : Nat) : w.Silent (w.releaseChunk session chunk) := by
  rw [releaseChunk]
  split
  · exact .refl w
  · exact vacate_silent _ _

theorem keepCompiled_silent (session chunk : Nat) (p : Guest.Prototype) :
    w.Silent (w.keepCompiled session chunk p).1 := by
  have loaded : w.Silent (w.modifyMachine session fun m =>
      { m with store := (m.store.loadPrototype p (.table m.store.globals)).1 }) :=
    modifyMachine_silent session _
  exact loaded.trans (occupy_silent (w := w.modifyMachine session _) session _)

theorem receive_silent (session : Nat) (v : Guest.Value) : w.Silent (w.receive session v).1 := by
  cases v with
  | nil | bool | int | float | string => exact .refl w
  | table | closure | builtin | host | userdata | light | thread => exact pin_silent session _

theorem silent_reading : Reading (Silent (σ := σ)) where
  refl := .refl
  trans := Silent.trans
  receive := fun _ => receive_silent

theorem decode_silent (d : Datum) (decoder : Decoder) : w.Silent (w.decode d decoder).1 := by
  have read := silent_reading.decodeWith decoder w d
  rw [decode]
  split
  · next decoded =>
      rw [decoded] at read
      exact read
  · next refused =>
      rw [refused] at read
      exact read
  · next refused =>
      rw [refused] at read
      exact read

theorem asFailure_silent (code : RuntimeCode) (t : Thrown) : w.Silent (w.asFailure code t).1 := by
  rw [asFailure.eq_def]
  split
  · exact .refl w
  · split <;> exact .refl w

theorem raiseInGuest_silent (session : Nat) (t : Thrown) : w.Silent (w.raiseInGuest session t) := by
  have classified := w.asFailure_silent .hostFunction t
  rw [raiseInGuest]
  split
  · next none =>
      rw [none] at classified
      exact classified.trans (modifyMachine_silent session _)
  · next some =>
      rw [some] at classified
      exact classified.trans (modifyMachine_silent session _)

theorem readFailure_silent (session : Nat) (status : Guest.Status) (error : Guest.Value)
    (traceback : Option Guest.Bytes) : w.Silent (w.readFailure session status error traceback).1 := by
  rw [readFailure.eq_def]
  split
  · exact .refl w
  · split
    · exact .refl w
    · exact receive_silent session error
  · exact .refl w

/-! ### What is told -/

/-- On the way to another world these events have been told, and the host code is the same. -/
structure Tells (j : Journal σ ε) (w : World σ) (events : List Event) (w' : World σ) : Prop where
  journal : j.read w'.memory = j.read w.memory ++ events.flatMap j.notes
  code : w'.code = w.code

theorem Silent.tells (silent : w.Silent w') : Tells j w [] w' :=
  ⟨by rw [silent.1, List.flatMap_nil, List.append_nil], silent.2⟩

theorem Tells.trans {first second : List Event} (tells : Tells j w first w')
    (goesOn : Tells j w' second w'') : Tells j w (first ++ second) w'' :=
  ⟨by rw [goesOn.journal, tells.journal, List.flatMap_append, List.append_assoc],
    goesOn.code.trans tells.code⟩

theorem Silent.then {events : List Event} (silent : w.Silent w') (tells : Tells j w' events w'') :
    Tells j w events w'' :=
  silent.tells.trans tells

theorem Tells.then {events : List Event} (tells : Tells j w events w') (silent : w'.Silent w'') :
    Tells j w events w'' := by
  have all := tells.trans silent.tells
  rwa [List.append_nil] at all

theorem Respects.congr (respects : w.Respects j) (same : w'.code = w.code) : w'.Respects j := by
  rwa [Respects, same]

theorem Respects.keeps {v : Vm σ} (respects : w.Respects j) (there : w.vms[session]? = some v) :
    v.callbacks.Keep j := by
  refine (respects (v.callbacks, v.exposed) ?_).1
  exact Array.mem_map.mpr ⟨v, Array.mem_of_getElem? there, rfl⟩

theorem Respects.exposed {v : Vm σ} {name : String} {body : State → List Datum → Client σ} {index : Nat}
    (respects : w.Respects j) (there : w.vms[session]? = some v)
    (exposed : v.exposed[index]? = some (name, body)) (state : State) (arguments : List Datum) :
    (body state arguments).Respects j := by
  have all := (respects (v.callbacks, v.exposed) (Array.mem_map.mpr ⟨v, Array.mem_of_getElem? there, rfl⟩)).2
  exact all (name, body) (Array.mem_of_getElem? exposed) state arguments

/-- A callback of a session is told about something. -/
theorem Respects.notify (respects : w.Respects j) (opened : session < w.code.size)
    {field : Callbacks σ → Option (Hook σ α)} {event : α → Event}
    (heeds : ∀ callbacks : Callbacks σ, callbacks.Keep j → j.Heeds (field callbacks) event) (a : α) :
    Tells j w [event a] (w.notify (w.callback session field) a).1 ∧
      ((w.notify (w.callback session field) a).2 ≠ none → j.notes (event a) = []) := by
  have opened : session < w.vms.size := by simpa [code] using opened
  have there : w.vms[session]? = some w.vms[session] := Array.getElem?_eq_getElem opened
  have callback : w.callback session field = field w.vms[session].callbacks := by
    rw [World.callback, there, Option.bind_some]
  obtain ⟨written, mild⟩ := heeds _ (respects.keeps there) w a
  rw [callback]
  refine ⟨⟨?_, ?_⟩, mild⟩
  · rw [written, List.flatMap_singleton]
  · cases field w.vms[session].callbacks <;> rfl

/-! ### Failures -/

/-- The part of an operation that ends so has told its failure and nothing else. -/
def Reports (j : Journal σ ε) (w : World σ) (r : World σ × Outcome) : Prop := Tells j w r.2.told r.1

theorem Silent.reports {r : World σ × Outcome} (silent : w.Silent r.1) (told : r.2.told = []) :
    Reports j w r := by
  rw [Reports, told]
  exact silent.tells

/-- A failure is told, and is the outcome. If the callback throws, nothing has been noted. -/
theorem Respects.report (respects : w.Respects j) (opened : session < w.code.size) (f : Failure) :
    Tells j w [.failed f] (w.report session f).1 ∧
      ∀ t, (w.report session f).2 = some t → Tells j w [] (w.report session f).1 := by
  obtain ⟨tells, mild⟩ := respects.notify opened (fun _ keep => keep.failures) f
  refine ⟨tells, fun t threw => ⟨?_, tells.code⟩⟩
  have threw : (w.notify (w.callback session (·.onError)) f).2 ≠ none := threw ▸ Option.some_ne_none t
  have written := tells.journal
  rwa [List.flatMap_singleton, mild threw, ← List.flatMap_nil] at written

theorem Respects.fail (respects : w.Respects j) (opened : session < w.code.size) (fault : Fault) :
    Reports j w (w.fail session fault) := by
  have new : w.Silent (w.newFailure fault).1 := .refl w
  have told := (respects.congr new.2).report opened (w.newFailure fault).2
  simp only [World.fail]
  split
  · next heard =>
      rw [heard] at told
      exact new.then told.1
  · next t threw =>
      rw [threw] at told
      exact new.then (told.2 t rfl)

theorem Respects.failUnexpected (respects : w.Respects j) (opened : session < w.code.size) (t : Thrown) :
    Reports j w (w.failUnexpected session t) := by
  have classified := w.asFailure_silent .raised t
  rw [World.failUnexpected]
  split
  · next none =>
      rw [none] at classified
      exact classified.reports rfl
  · next w' f some =>
      rw [some] at classified
      have told := (respects.congr classified.2).report (classified.2 ▸ opened) f
      split
      · next heard =>
          rw [heard] at told
          exact classified.then told.1
      · next t' threw =>
          rw [threw] at told
          exact classified.then (told.2 t' rfl)

theorem Respects.failCall (respects : w.Respects j) (opened : session < w.code.size) (f : Failure) :
    Reports j w (w.failCall session f) := by
  have told := respects.report opened f
  rw [World.failCall]
  split
  · next heard =>
      rw [heard] at told
      exact told.1
  · next w' t threw =>
      rw [threw] at told
      have unnoted := told.2 t rfl
      have unexpected := (respects.congr unnoted.code).failUnexpected (unnoted.code ▸ opened) t
      exact unnoted.trans unexpected

/-- Either a chunk is compiled, or it is told what is wrong with it. -/
theorem Respects.compile (respects : w.Respects j) (opened : session < w.code.size) (chunk : Nat) :
    (∃ w' slot, w.compile session chunk = (w', .ok slot) ∧ w.Silent w') ∨
      ∃ r : World σ × Outcome, w.compile session chunk = (r.1, .error r.2) ∧ Reports j w r := by
  rw [World.compile]
  split
  · exact .inl ⟨w, _, rfl, .refl w⟩
  · split
    · exact .inr ⟨_, rfl, respects.fail opened _⟩
    · exact .inl ⟨_, _, rfl, keepCompiled_silent session chunk _⟩

theorem Respects.load (respects : w.Respects j) (opened : session < w.code.size) (chunk : Nat) :
    Reports j w (w.load session chunk) := by
  rcases respects.compile opened chunk with ⟨w', slot, compiled, silent⟩ | ⟨r, failed, reports⟩
  · simp only [World.load, compiled]
    exact Silent.reports silent rfl
  · simp only [World.load, failed]
    exact reports

/-- The end of a call of the guest that went well. -/
theorem Respects.returned (respects : w.Respects j) (opened : session < w.code.size) (purpose : Purpose)
    (values : List Guest.Value) : Reports j w (Config.returned session purpose values w) := by
  cases purpose with
  | values => exact Silent.reports (silent_reading.receiveAll w session values) rfl
  | lookup keys asReference =>
      cases values with
      | nil => exact respects.fail opened _
      | cons v rest =>
          have read := receive_silent (w := w) session v
          simp only [Config.returned]
          split
          · exact read.then ((respects.congr read.2).fail (read.2 ▸ opened) _)
          · exact read.reports rfl
  | assign keys =>
      simp only [Config.returned]
      split
      · exact respects.fail opened _
      · exact (Silent.refl w).reports rfl

end World

namespace World
variable {j : Journal σ ε} {w : World σ} {session : Nat}

theorem openSession_respects (respects : w.Respects j) {options : Options σ} (keep : options.callbacks.Keep j) :
    (w.openSession options).1.Respects j := by
  have code : (w.openSession options).1.code = w.code.push (options.callbacks, #[]) := by
    simp [World.code, openSession]
  rw [Respects, code]
  intro p mem
  rcases Array.mem_push.mp mem with old | rfl
  · exact respects p old
  · exact ⟨keep, fun e none => by simp at none⟩

theorem expose_memory (name : String) (body : State → List Datum → Client σ) :
    (w.expose session name body).1.memory = w.memory :=
  (receive_silent session _).1

theorem expose_respects (respects : w.Respects j) (name : String) {body : State → List Datum → Client σ}
    (kept : ∀ state arguments, (body state arguments).Respects j) :
    (w.expose session name body).1.Respects j := by
  let exposed : World σ := { w with vms := w.vms.modify session fun v =>
    { v with exposed := v.exposed.push (name, body) } }
  have code : exposed.code = w.code.modify session fun p => (p.1, p.2.push (name, body)) :=
    map_modify w.vms session (fun v => { v with exposed := v.exposed.push (name, body) })
      (fun v => (v.callbacks, v.exposed)) (fun p => (p.1, p.2.push (name, body))) fun _ => rfl
  have respects : exposed.Respects j := by
    rw [Respects, code]
    intro p mem
    obtain ⟨i, inside, rfl⟩ := Array.mem_iff_getElem.mp mem
    rw [Array.size_modify] at inside
    have old := respects w.code[i] (Array.getElem_mem inside)
    rw [Array.getElem_modify]
    split
    · refine ⟨old.1, fun e mem => ?_⟩
      rcases Array.mem_push.mp mem with there | rfl
      · exact old.2 e there
      · exact kept
    · exact old
  exact respects.congr (receive_silent (w := exposed) session _).2

end World

end LuaHost
