import LuaHost.Proofs.Tidings
import LuaHost.Proofs.Deliveries
/-!
Calls of host functions and their returns, as a host is told of them. Each function runs right after its call has
been told, with the arguments that have been told. When it is over, either its values are accepted, and its return is
told with the values that the guest receives, or an error is raised in the guest, and nothing is told. So calls and
returns are bracketed: a return belongs to the call that has been entered last of those that are not over.
-/

namespace LuaHost

variable {σ : Type}

/-- What is told of the calls of host functions. -/
inductive Crossing where
  | called (call : HostCall)
  | returned (result : HostReturn)

/-- The host function that is called or returns. -/
def Crossing.name : Crossing → String
  | called call => call.name
  | returned result => result.name

/-- A journal of the calls of host functions and their returns. -/
def crossingJournal (read : σ → List Crossing) : Journal σ Crossing where
  read := read
  notes
    | .called call => [.called call]
    | .returned result => [.returned result]
    | _ => []

/-- What becomes of a call of a host function: the function starts, returns to the guest, or ends with an error that
is raised there. -/
inductive Passage where
  | entered (call : HostCall)
  | left (result : HostReturn)
  | raised (name : String)

namespace Passage

/-- What is told of it. -/
def crossing? : Passage → Option Crossing
  | entered call => some (.called call)
  | left result => some (.returned result)
  | raised _ => none

end Passage

/-- Calls are entered and come to their ends like brackets: from the calls that are open first, the innermost at the
head, to those that are open in the end. A call that is over is the one that has been entered last. -/
inductive Bracketed (first : List HostCall) : List Passage → List HostCall → Prop
  | nil : Bracketed first [] first
  | entered {passages : List Passage} {open' : List HostCall} (before : Bracketed first passages open')
      (call : HostCall) : Bracketed first (passages ++ [.entered call]) (call :: open')
  | left {passages : List Passage} {call : HostCall} {open' : List HostCall}
      (before : Bracketed first passages (call :: open')) (values : List Item) :
      Bracketed first (passages ++ [.left ⟨call.name, values⟩]) open'
  | raised {passages : List Passage} {call : HostCall} {open' : List HostCall}
      (before : Bracketed first passages (call :: open')) :
      Bracketed first (passages ++ [.raised call.name]) open'

/-- The host function that something waits for. -/
def Pending.body? : Pending σ → Option String
  | .body _ name => some name
  | _ => none

/-- Unless a guest runs, or a host function, no host function is entered or left. -/
theorem Move.bodies {p q : Posture σ} (m : Move p q) (guests : ∀ session, p.control ≠ .guest session)
    (functions : ∀ k session name T, p.control = .client k → p.stack ≠ .body session name :: T) :
    q.stack.filterMap Pending.body? = p.stack.filterMap Pending.body? := by
  cases m with
  | answers S k session name T => exact absurd rfl (functions k session name T rfl)
  | calls | guestWaits | guestFails | guestTells | guestReturns => exact absurd rfl (guests _)
  | begins S op op' f T h | handsOn S o f T h => cases h <;> rfl
  | _ => rfl

namespace Config
variable (c : Config σ)

/-- The host functions that are under way, the innermost first. -/
def bodies : List String := c.stack.filterMap Pending.body?

/-- The call of a host function for which a guest stops when it has run for a while. -/
def entering? (session : Nat) : Option HostCall :=
  let w := c.world.modifyMachine session (·.run portion)
  match (w.machine session).signal with
  | some (.hostCall index values) =>
    ((w.vms[session]?).bind (·.exposed[index]?)).map fun e => ⟨e.1, (w.receiveAll session values).2⟩
  | _ => none

/-- What the next step makes of the calls of host functions. -/
def passage? : Option Passage :=
  match c.control, c.stack with
  | .guest session, _ => (c.entering? session).map .entered
  | .client (.done state items), .body session name :: _ =>
    if c.admits session state items then some (.left ⟨name, items⟩) else some (.raised name)
  | .client (.throw _), .body _ name :: _ => some (.raised name)
  | _, _ => none

/-- What a host function returns is refused: its state is foreign or none that is accepted, a value is foreign or
has been given back, or there are too many of them. -/
def TurnsAway (session : Nat) (state : State) (items : List Item) : Prop :=
  state.session ≠ session ∨ c.world.stateViolation? state ≠ none ∨
    (c.world.ledger session).claimViolation? session items ≠ none ∨
    (c.world.machine session).hasRoomAbove items.length = false

/-- What a step does for the calls of host functions, and what is told in it. A function starts with the arguments
that have been told; the guest is answered with the values that are told, if their integers are integers for it; or
an error is raised in the guest, or nothing happens to any call, and nothing is told. -/
inductive Does (read : σ → List Crossing) (d : Config σ) : Option Passage → Prop
  | entered {call : HostCall} {session index : Nat} {body : State → List Datum → Client σ} {state : State}
      {w : World σ} (exposed : (d.world.vms[session]?).bind (·.exposed[index]?) = some (call.name, body))
      (step : d.step = ⟨w, .client (body state call.arguments), .body session call.name :: d.stack⟩)
      (told : read w.memory = read d.world.memory ++ [.called call]) : Does read d (some (.entered call))
  | left {result : HostReturn} {session : Nat} {state : State} {T : List (Pending σ)} {w : World σ}
      (control : d.control = .client (.done state result.values))
      (waits : d.stack = .body session result.name :: T) (accepted : ¬ d.TurnsAway session state result.values)
      (step : d.step = ⟨w, .guest session, T⟩)
      (received : (∀ item ∈ result.values, ∀ n, item.datum = .int n → Guest.fitsInt32 n) →
        ∃ values, List.Forall₂ (fun item v => d.world.give? session item.datum = some v) result.values values ∧
          w.machine session = (d.world.machine session).answer values)
      (told : read w.memory = read d.world.memory ++ [.returned result]) : Does read d (some (.left result))
  | raised {name : String} {session : Nat} {t : Thrown} {T : List (Pending σ)} {w : World σ}
      (waits : d.stack = .body session name :: T)
      (why : d.control = .client (.throw t) ∨
        ∃ state items, d.control = .client (.done state items) ∧ d.TurnsAway session state items)
      (guests : w.vms = d.world.vms) (step : d.step = ⟨w.raiseInGuest session t, .guest session, T⟩)
      (told : read d.step.world.memory = read d.world.memory) : Does read d (some (.raised name))
  | none (bodies : d.step.bodies = d.bodies) (told : read d.step.world.memory = read d.world.memory) :
      Does read d none

variable {c} {read : σ → List Crossing} {d : Config σ} {session : Nat} {T : List (Pending σ)}

theorem admits_iff {state : State} {items : List Item} :
    c.admits session state items = true ↔ ¬ c.TurnsAway session state items := by
  rw [admits, returnViolation?, TurnsAway]
  by_cases own : state.session = session
  · simp only [own, bne_self_eq_false, Bool.false_eq_true, if_false, ne_eq, not_true_eq_false, false_or, not_or]
    cases c.world.stateViolation? state with
    | none => simp
    | some fault => simp
  · simp [own]

/-- Nothing is noted of failures. -/
theorem told_unnoted (c : Config σ) : c.told.flatMap (crossingJournal read).notes = [] := by
  rw [told]
  cases c.control.failure? <;> rfl

/-! ### Guests -/

/-- A guest that runs leaves the functions alone that are there for it. -/
theorem exposed_ran (w : World σ) (session : Nat) (f : Guest.Machine → Guest.Machine) (index : Nat) :
    ((w.modifyMachine session f).vms[session]?).bind (·.exposed[index]?) =
      (w.vms[session]?).bind (·.exposed[index]?) := by
  simp only [World.modifyMachine, Array.getElem?_modify]
  cases w.vms[session]? <;> simp

/-- What a callback has noted it has not thrown for. -/
theorem heard {w : World σ} {α : Type} {field : Callbacks σ → Option (Hook σ α)} {event : α → Event} {a : α}
    (respects : w.Respects (crossingJournal read)) (opened : session < w.code.size)
    (heeds : ∀ callbacks : Callbacks σ, callbacks.Keep (crossingJournal read) →
      (crossingJournal read).Heeds (field callbacks) event)
    (noted : (crossingJournal read).notes (event a) ≠ []) :
    ∃ memory, w.notify (w.callback session field) a = ({ w with memory }, none) ∧
      read memory = read w.memory ++ (crossingJournal read).notes (event a) := by
  obtain ⟨tells, mild⟩ := respects.notify opened heeds a
  have quiet : (w.notify (w.callback session field) a).2 = none := by
    by_contra threw
    exact noted (mild threw)
  have written := tells.journal
  rw [List.flatMap_singleton] at written
  cases hook : w.callback session field with
  | none =>
      rw [hook] at written
      exact ⟨w.memory, rfl, written⟩
  | some hook' =>
      rw [hook] at quiet written
      exact ⟨_, Prod.ext rfl quiet, written⟩

/-- A guest stops for a host function, which starts then. -/
theorem entered_does {call : HostCall} (respects : d.Respects (crossingJournal read))
    (control : d.control = .guest session) (entering : d.entering? session = some call) :
    Does read d (some (.entered call)) := by
  have step : d.step = d.guestStep session := by simp only [Config.step, control]
  rw [guestStep_eq] at step
  rw [entering?] at entering
  have ran := World.modifyMachine_silent (w := d.world) session (·.run portion)
  have exposed := exposed_ran d.world session (·.run portion)
  have there := respects.world.congr ran.2
  generalize d.world.modifyMachine session (·.run portion) = w at *
  split at entering
  · next index values signal =>
      obtain ⟨⟨name, body⟩, found, rfl⟩ := Option.map_eq_some_iff.mp entering
      have read' := World.silent_reading.receiveAll w session values
      have opened : session < (w.receiveAll session values).1.code.size := by
        obtain ⟨v, inside, -⟩ := Option.bind_eq_some_iff.mp found
        obtain ⟨inside, -⟩ := Array.getElem?_eq_some_iff.mp inside
        rw [read'.2, World.code, Array.size_map]
        exact inside
      obtain ⟨memory, told, written⟩ := heard (a := ⟨name, (w.receiveAll session values).2⟩)
        (there.congr read'.2) opened (fun _ keep => keep.calls) (List.cons_ne_nil _ _)
      rw [signal] at step
      simp only [heeding, invoking, found, told] at step
      refine .entered (exposed index ▸ found) step ?_
      exact written.trans (by rw [read'.1, ran.1]; rfl)
  · cases entering

/-- A guest goes on, or comes to the end of a call from the host. -/
theorem guest_does (reachable : Reachable d) (respects : d.Respects (crossingJournal read))
    (control : d.control = .guest session) (entering : d.entering? session = none) :
    Does read d none := by
  have told := respects.step reachable
  have fits : Control.Fits d.control d.stack := reachable.proper.control
  have step : d.step = d.guestStep session := by simp only [Config.step, control]
  rw [guestStep_eq] at step
  rw [entering?] at entering
  rw [control] at fits
  generalize waits : d.stack = T at fits
  cases fits with
  | guest entry purpose R =>
      have tidings : d.tidings = announced (d.world.modifyMachine entry.session (·.run portion)) entry.session
          ((d.world.modifyMachine entry.session (·.run portion)).machine entry.session).signal ++ d.step.told := by
        simp only [tidings, control]
      have written := told.journal
      rw [tidings, List.flatMap_append, told_unnoted, List.append_nil] at written
      generalize d.world.modifyMachine entry.session (·.run portion) = w at *
      have top : (Pending.guest entry purpose :: R).filterMap Pending.body? = R.filterMap Pending.body? := rfl
      generalize (w.machine entry.session).signal = signal at *
      have silent : (announced w entry.session signal).flatMap (crossingJournal read).notes = [] := by
        rcases signal with _ | (values | ⟨status, error, traceback⟩ | ⟨index, values⟩ | line | path)
        · rfl
        · rfl
        · rfl
        · have missing := Option.map_eq_none_iff.mp entering
          simp only [announced, missing]
          rfl
        · rfl
        · rfl
      rw [silent, List.append_nil] at written
      refine .none ?_ written
      rw [step, bodies, bodies, waits, top]
      rcases signal with _ | (values | ⟨status, error, traceback⟩ | ⟨index, values⟩ | line | path)
      · simp only [heeding, top]
      · simp only [heeding, guestEnded, leaving, ending]
      · simp only [heeding, guestEnded, leaving, ending]
      · have missing := Option.map_eq_none_iff.mp entering
        simp only [heeding, invoking, missing, raising, top]
      · simp only [heeding, logging]
        split <;> simp only [raising, top]
      · simp only [heeding, readingForGuest, readingFile]
        split <;> simp only [top]

/-! ### Host functions -/

/-- An integer that fits is a guest integer, and any other value is one of the guest's. -/
theorem give?_isSome (w : World σ) (session : Nat) {item : Item}
    (fits : ∀ n, item.datum = .int n → Guest.fitsInt32 n) : ∃ v, w.give? session item.datum = some v := by
  cases held : item.datum with
  | int n => exact ⟨_, if_pos (fits n held)⟩
  | nil | bool | float | string | composite => exact ⟨_, rfl⟩

theorem giveAll_fits (w : World σ) (session : Nat) {items : List Item}
    (fits : ∀ item ∈ items, ∀ n, item.datum = .int n → Guest.fitsInt32 n) :
    ∃ values, List.Forall₂ (fun item v => w.give? session item.datum = some v) items values := by
  induction items with
  | nil => exact ⟨[], .nil⟩
  | cons item rest ih =>
      obtain ⟨v, given⟩ := give?_isSome w session (fits item List.mem_cons_self)
      obtain ⟨values, others⟩ := ih fun item mem => fits item (List.mem_cons_of_mem _ mem)
      exact ⟨v :: values, .cons given others⟩

/-- What the host does with its memory is nothing to the values that it hands over. -/
theorem give?_memory (w : World σ) (memory : σ) (d : Datum) :
    ({ w with memory } : World σ).give? session d = w.give? session d := by
  cases d <;> rfl

/-- A host function whose values are accepted answers the guest. -/
theorem left_does {name : String} {state : State} {items : List Item} (reachable : Reachable d)
    (respects : d.Respects (crossingJournal read)) (control : d.control = .client (.done state items))
    (waits : d.stack = .body session name :: T) (admitted : d.admits session state items = true) :
    Does read d (some (.left ⟨name, items⟩)) := by
  have opened := reachable.called waits
  obtain ⟨memory, told, written⟩ := heard (a := ⟨name, items⟩) respects.world opened
    (fun _ keep => keep.returns) (List.cons_ne_nil _ _)
  have kept := admitted
  rw [admits, Bool.and_eq_true, Option.isNone_iff_eq_none] at kept
  obtain ⟨accepted, room⟩ := kept
  have step : d.step = { d with stack := T }.answering session name state items := by
    simp only [Config.step, control, clientStep, done, waits]
  have accepted : returnViolation? { d with stack := T } session state items = none := accepted
  simp only [answering, accepted, room, if_true, told] at step
  have inside : session < d.world.vms.size := by simpa [World.code] using opened
  have received (fits : ∀ item ∈ items, ∀ n, item.datum = .int n → Guest.fitsInt32 n) :
      ∃ values, List.Forall₂ (fun item v => d.world.give? session item.datum = some v) items values ∧
        ({ d.world with memory } : World σ).giveAll session items = .ok values := by
    obtain ⟨values, given⟩ := giveAll_fits d.world session fits
    exact ⟨values, given,
      World.giveAll_ok (given.imp fun item v same => (give?_memory d.world memory item.datum).trans same)⟩
  cases gave : ({ d.world with memory } : World σ).giveAll session items with
  | ok values =>
      rw [gave] at step
      refine .left control waits (admits_iff.mp admitted) step (fun fits => ?_) written
      obtain ⟨values', given, handed⟩ := received fits
      obtain rfl : values' = values := Except.ok.inj (handed.symm.trans gave)
      refine ⟨values', given, ?_⟩
      rw [World.machine_modifyMachine, if_pos ⟨rfl, inside⟩]
      rfl
  | error given =>
      rw [gave] at step
      refine .left control waits (admits_iff.mp admitted) step (fun fits => ?_) written
      obtain ⟨values, -, handed⟩ := received fits
      cases handed.symm.trans gave

/-- A host function throws. -/
theorem thrown_does {name : String} {t : Thrown} (control : d.control = .client (.throw t))
    (waits : d.stack = .body session name :: T) : Does read d (some (.raised name)) := by
  have step : d.step = ⟨d.world.raiseInGuest session t, .guest session, T⟩ := by
    simp only [Config.step, control, clientStep, thrown, waits, raising]
  refine .raised waits (.inl control) rfl step ?_
  rw [step]
  exact congrArg read (World.raiseInGuest_silent session t).1

/-- What a host function returns is refused. -/
theorem refused_does {name : String} {state : State} {items : List Item}
    (control : d.control = .client (.done state items)) (waits : d.stack = .body session name :: T)
    (refused : d.admits session state items = false) : Does read d (some (.raised name)) := by
  have why : d.TurnsAway session state items := by
    by_contra accepted
    cases refused.symm.trans (admits_iff.mpr accepted)
  have step : d.step = { d with stack := T }.answering session name state items := by
    simp only [Config.step, control, clientStep, done, waits]
  have raised {w : World σ} {t : Thrown} (guests : w.vms = d.world.vms) (memory : w.memory = d.world.memory)
      (step : d.step = ⟨w.raiseInGuest session t, .guest session, T⟩) : Does read d (some (.raised name)) := by
    refine .raised waits (.inr ⟨state, items, control, why⟩) guests step ?_
    rw [step]
    exact congrArg read ((World.raiseInGuest_silent session t).1.trans memory)
  rw [admits] at refused
  cases accepted : d.returnViolation? session state items with
  | some fault =>
      have accepted : returnViolation? { d with stack := T } session state items = some fault := accepted
      simp only [answering, accepted] at step
      exact raised (w := (d.world.newFailure fault).1) rfl rfl step
  | none =>
      rw [accepted] at refused
      have room : (d.world.machine session).hasRoomAbove items.length = false := refused
      have accepted : returnViolation? { d with stack := T } session state items = none := accepted
      simp only [answering, accepted, room] at step
      exact raised rfl rfl step

/-- Nothing happens to the calls of host functions. -/
theorem none_does (reachable : Reachable d) (respects : d.Respects (crossingJournal read))
    (passage : d.passage? = none) (silent : d.tidings.flatMap (crossingJournal read).notes = [])
    (bodies : d.step.bodies = d.bodies) : Does read d d.passage? := by
  rw [passage]
  refine .none bodies ?_
  have written := (respects.step reachable).journal
  rwa [silent, List.append_nil] at written

/-- Host code that is no host function has nothing to do with their calls. -/
theorem passage?_alone {k : Client σ} (control : d.control = .client k)
    (alone : ∀ session name T, d.stack ≠ .body session name :: T) :
    d.passage? = none ∧ d.tidings = [] := by
  obtain ⟨w, _, T⟩ := d
  cases control
  obtain _ | ⟨p, T⟩ := T
  · cases k <;> exact ⟨rfl, rfl⟩
  · cases p with
    | body session name => exact absurd rfl (alone session name T)
    | perform | guest | key | value | compiled | ran | resolved | called => cases k <;> exact ⟨rfl, rfl⟩

theorem client_does {k : Client σ} (reachable : Reachable d) (respects : d.Respects (crossingJournal read))
    (control : d.control = .client k) : Does read d d.passage? := by
  by_cases body : ∃ session name T, d.stack = .body session name :: T
  · obtain ⟨session, name, T, waits⟩ := body
    cases k with
    | done state items =>
        cases admitted : d.admits session state items with
        | true =>
            have passage : d.passage? = some (.left ⟨name, items⟩) := by
              simp only [passage?, control, waits, admitted, if_true]
            exact passage ▸ left_does reachable respects control waits admitted
        | false =>
            have passage : d.passage? = some (.raised name) := by
              simp only [passage?, control, waits, admitted]
              rfl
            exact passage ▸ refused_does control waits admitted
    | throw t =>
        have passage : d.passage? = some (.raised name) := by simp only [passage?, control, waits]
        exact passage ▸ thrown_does control waits
    | access | identity | perform =>
        have passage : d.passage? = none := by rw [passage?, control]
        have silent : d.tidings = [] := by rw [tidings, control]
        refine none_does reachable respects passage (by rw [silent]; rfl) ?_
        simp only [Config.step, control, clientStep]
        rfl
  · have alone : ∀ session name T, d.stack ≠ .body session name :: T :=
      fun session name T waits => body ⟨session, name, T, waits⟩
    obtain ⟨passage, silent⟩ := passage?_alone control alone
    refine none_does reachable respects passage (by rw [silent]; rfl) ?_
    refine d.step_move.bodies (fun _ same => ?_) fun _ session name T _ => alone session name T
    cases control.symm.trans same

/-- Each step does what it makes of the calls of host functions. -/
theorem step_does (reachable : Reachable d) (respects : d.Respects (crossingJournal read)) :
    Does read d d.passage? := by
  have aside (hosts : ∀ k, d.control ≠ .client k) (guests : ∀ session, d.control ≠ .guest session)
      (passage : d.passage? = none) (unnoted : d.tidings.flatMap (crossingJournal read).notes = []) :
      Does read d d.passage? :=
    none_does reachable respects passage unnoted
      (d.step_move.bodies guests fun k _ _ _ same => absurd same (hosts k))
  cases control : d.control with
  | client k => exact client_does reachable respects control
  | guest session =>
      have passage : d.passage? = (d.entering? session).map .entered := by rw [passage?, control]
      rw [passage]
      cases entering : d.entering? session with
      | none => exact guest_does reachable respects control entering
      | some call => exact entered_does respects control entering
  | perform op =>
      refine aside (by rw [control]; simp) (by rw [control]; simp) (by rw [passage?, control]) ?_
      rw [tidings, control]
      cases op with
      | decode => rfl
      | _ => exact told_unnoted _
  | outcome o =>
      refine aside (by rw [control]; simp) (by rw [control]; simp) (by rw [passage?, control]) ?_
      rw [tidings, control]
      cases o with
      | err => rfl
      | ok | threw => exact told_unnoted _
  | lacking | finished =>
      refine aside (by rw [control]; simp) (by rw [control]; simp) (by rw [passage?, control]) ?_
      rw [tidings, control]
      rfl

/-! ### Runs -/

/-- The runs in which the host's surroundings leave the journal alone, with what becomes of the calls of host
functions in them. -/
inductive Visits {ε : Type} (j : Journal σ ε) (c : Config σ) : Config σ → List Passage → Prop
  | refl : Visits j c c []
  | step {d : Config σ} {passages : List Passage} (before : Visits j c d passages) :
      Visits j c d.step (passages ++ d.passage?.toList)
  | surroundings {d : Config σ} {passages : List Passage} (before : Visits j c d passages) (directory : Directory)
      (memory : σ) (spared : j.read memory = j.read d.world.memory) :
      Visits j c { d with world := { d.world with directory, memory } } passages

theorem Visits.run {ε : Type} {j : Journal σ ε} {passages : List Passage} (visits : Visits j c d passages) :
    Run [] c d := by
  induction visits with
  | refl => exact .refl
  | step _ ih => exact .tail ih ⟨.step _, List.nil_suffix⟩
  | surroundings _ directory memory _ ih => exact .tail ih ⟨.surroundings _ directory memory, List.nil_suffix⟩

/-- What is told of what a step does. -/
theorem Does.told {passage : Option Passage} (does : Does read d passage) :
    read d.step.world.memory = read d.world.memory ++ passage.toList.filterMap Passage.crossing? := by
  cases does with
  | entered _ step told =>
      rw [step]
      exact told
  | left _ _ _ step _ told =>
      rw [step]
      exact told
  | raised _ _ _ _ told | none _ told => exact told.trans (List.append_nil _).symm

/-- The calls that are open are those of the host functions under way. -/
theorem Does.bracketed {passage : Option Passage} {first now : List HostCall} {passages : List Passage}
    (does : Does read d passage) (before : Bracketed first passages now) (names : now.map (·.name) = d.bodies) :
    ∃ later, Bracketed first (passages ++ passage.toList) later ∧ later.map (·.name) = d.step.bodies := by
  -- the innermost call that is open is that of the function that is left
  have innermost {session : Nat} {name : String} {T : List (Pending σ)} (waits : d.stack = .body session name :: T) :
      ∃ call rest, now = call :: rest ∧ call.name = name ∧ rest.map (·.name) = T.filterMap Pending.body? := by
    have same : d.bodies = name :: T.filterMap Pending.body? := by
      rw [bodies, waits]
      rfl
    rw [same] at names
    obtain ⟨call, rest, rfl, here, below⟩ := List.map_eq_cons_iff.mp names
    exact ⟨call, rest, rfl, here, below⟩
  cases does with
  | @entered call session index body state w exposed step told =>
      refine ⟨call :: now, before.entered call, ?_⟩
      rw [step, List.map_cons, names]
      rfl
  | @left result session state T w control waits accepted step received told =>
      obtain ⟨call, rest, rfl, here, below⟩ := innermost waits
      obtain ⟨name, values⟩ := result
      subst here
      refine ⟨rest, before.left values, ?_⟩
      rw [step]
      exact below
  | @raised name session t T w waits why guests step told =>
      obtain ⟨call, rest, rfl, rfl, below⟩ := innermost waits
      refine ⟨rest, before.raised, ?_⟩
      rw [step]
      exact below
  | none bodies told =>
      rw [Option.toList_none, List.append_nil]
      exact ⟨now, before, names.trans bodies.symm⟩

/-- Calls of host functions and their returns are bracketed. In every run the host is told of the calls that are
entered and of those that return to the guest, in their order, and each that ends is the one that has been entered
last of those under way. A function starts right after its call has been told, with the arguments of the call; when
its return is told the guest receives the values that are told; and nothing is told when an error is raised. -/
theorem host_calls_bracketed (reachable : Reachable c) (respects : c.Respects (crossingJournal read))
    {passages : List Passage} (visits : Visits (crossingJournal read) c d passages) :
    read d.world.memory = read c.world.memory ++ passages.filterMap Passage.crossing? ∧
      (∀ first : List HostCall, first.map (·.name) = c.bodies →
        ∃ now, Bracketed first passages now ∧ now.map (·.name) = d.bodies) ∧
      Does read d d.passage? := by
  have kept : d.Respects (crossingJournal read) ∧
      read d.world.memory = read c.world.memory ++ passages.filterMap Passage.crossing? ∧
      ∀ first : List HostCall, first.map (·.name) = c.bodies →
        ∃ now, Bracketed first passages now ∧ now.map (·.name) = d.bodies := by
    induction visits with
    | refl => exact ⟨respects, (List.append_nil _).symm, fun first names => ⟨first, .nil, names⟩⟩
    | @step d passages before ih =>
        obtain ⟨respects, written, bracketed⟩ := ih
        have there := reachable.run before.run
        have does := step_does there respects
        refine ⟨(respects.step there).respects, ?_, fun first names => ?_⟩
        · rw [does.told, written, List.filterMap_append, List.append_assoc]
        · obtain ⟨now, before, open'⟩ := bracketed first names
          exact does.bracketed before open'
    | surroundings _ directory memory spared ih =>
        obtain ⟨respects, written, bracketed⟩ := ih
        exact ⟨⟨respects.world, respects.control, respects.stack⟩, spared.trans written, bracketed⟩
  exact ⟨kept.2.1, kept.2.2, step_does (reachable.run visits.run) kept.1⟩

/-- So many steps, with what becomes of the calls of host functions in them. -/
def visited (n : Nat) (c : Config σ) : Config σ × List Passage :=
  (fun x => (x.1.step, x.2 ++ x.1.passage?.toList))^[n] (c, [])

theorem visited_visits {ε : Type} (j : Journal σ ε) (n : Nat) (c : Config σ) :
    Visits j c (visited n c).1 (visited n c).2 := by
  induction n with
  | zero => exact .refl
  | succ n ih =>
      rw [visited, Function.iterate_succ_apply']
      exact .step ih

/-- Callbacks that write down calls and returns. -/
def tellsTales : Callbacks (List Crossing) where
  onLog := fun _ _ memory => (memory, none)
  onHostCall := some fun call _ memory => (memory ++ [.called call], none)
  onHostReturn := some fun result _ memory => (memory ++ [.returned result], none)

theorem tellsTales_keep : tellsTales.Keep (crossingJournal id) where
  logs := fun _ _ => ⟨(List.append_nil _).symm, fun threw => absurd rfl threw⟩
  calls := fun _ _ => ⟨rfl, fun threw => absurd rfl threw⟩
  returns := fun _ _ => ⟨rfl, fun threw => absurd rfl threw⟩
  failures := fun _ _ => ⟨(List.append_nil _).symm, fun threw => absurd rfl threw⟩

/-- A host function calls another one, which throws, and then returns as if nothing had happened. -/
def visitsTwo : Config (List Crossing) :=
  let inner (_ : State) (_ : List Datum) : Client (List Crossing) := .throw (.value .undefined)
  let outer (t : State) (_ : List Datum) : Client (List Crossing) :=
    .perform (.call t ⟨.composite .function ⟨0, 0⟩⟩ []) fun _ => .done t [.value (.bool true)]
  start { directory := default, memory := [] } (.perform (.init { libraries := .only [], callbacks := tellsTales }) fun
    | .ok (some s) _ => Client.inTurn [.expose s (some "inner") inner, .expose ⟨0, 1⟩ (some "outer") outer,
        .call ⟨0, 2⟩ ⟨.composite .function ⟨0, 1⟩⟩ [.value (.int 1)]]
    | _ => .throw (.value .undefined))

theorem visitsTwo_respects : visitsTwo.Respects (crossingJournal id) where
  world := fun p none => by simp [visitsTwo, start, World.code] at none
  control := ⟨tellsTales_keep, fun o => by
    cases o with
    | ok state r =>
        cases state with
        | none => trivial
        | some s =>
            exact ⟨fun _ _ => trivial, fun _ => ⟨fun _ _ => ⟨trivial, fun _ => trivial⟩, fun _ => ⟨trivial, fun _ => trivial⟩⟩⟩
    | err | threw => trivial⟩
  stack := fun p none => nomatch none

set_option maxRecDepth 8000 in
theorem visitsTwo_views : ((visited 19 visitsTwo).1.world.memory.map Crossing.name,
    (visited 19 visitsTwo).1.bodies) = (["outer", "inner", "outer"], []) := by
  cbv

/-- The host is told of the outer call, of the inner one, which raises an error, and of the return of the outer
one. -/
theorem visitsTwo_bracketed : (visited 19 visitsTwo).1.world.memory =
      (visited 19 visitsTwo).2.filterMap Passage.crossing? ∧
    Bracketed [] (visited 19 visitsTwo).2 [] ∧
    (visited 19 visitsTwo).1.world.memory.map Crossing.name = ["outer", "inner", "outer"] := by
  have seen := visitsTwo_views
  simp only [Prod.mk.injEq] at seen
  obtain ⟨names, none⟩ := seen
  have reachable : Reachable visitsTwo := ⟨_, default, [], .refl⟩
  obtain ⟨written, bracketed, -⟩ :=
    host_calls_bracketed reachable visitsTwo_respects (visited_visits (crossingJournal id) 19 visitsTwo)
  obtain ⟨now, brackets, open'⟩ := bracketed [] rfl
  rw [none, List.map_eq_nil_iff] at open'
  exact ⟨written, open' ▸ brackets, names⟩

end Config

end LuaHost
