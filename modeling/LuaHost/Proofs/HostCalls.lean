import LuaHost.Proofs.Handovers
import LuaHost.Proofs.Levels
import LuaHost.Proofs.Programs
/-!
Calls of host functions from the host itself, through the guest. A call through a reference opens a gate on the main
thread, and the machine stops above it for the host function. Whatever the host does until the function returns, the
machine waits there; so what the function returns goes through the same gate, and is what the call comes to. A call by
name is a call through a reference that is looked up first, and given back when the call is over.
-/

namespace LuaHost

namespace Guest.Machine
variable {m m₀ : Machine}

/-! ### Entering a host function -/

/-- A machine waits for a host function that was called through a gate on the main thread. -/
structure WaitsInside (m : Machine) (place depth : Nat) : Prop where
  main : m.current = 0
  top : m.top = place
  frame : ∃ n, m.frame = .native n ∧ n.depth = depth
  gate : ∃ g below, m.callers = .gate g :: below

theorem WaitsInside.floor {place depth : Nat} (waits : m.WaitsInside place depth) : m.floor = (place, depth) := by
  obtain ⟨n, frame, deep⟩ := waits.frame
  rw [Machine.floor, onMain_of_main waits.main, waits.top, frame, Frame.depth, deep]

theorem WaitsInside.back {place depth : Nat} (waits : m₀.WaitsInside place depth) (orderly : m₀.Orderly)
    (back : Back m₀ m) : m.WaitsInside place depth := by
  obtain ⟨frame, callers, top, -⟩ := back.stands orderly
  exact ⟨back.current.trans waits.main, top.trans waits.top, frame ▸ waits.frame, callers ▸ waits.gate⟩

/-- When the host has answered, the call is over, and its values are the answer. -/
theorem WaitsInside.answers {place depth : Nat} (waits : m.WaitsInside place depth) (values : List Value) :
    (m.answer values).signal = some (.finished values) ∧ (m.answer values).store = m.store := by
  obtain ⟨n, frame, -⟩ := waits.frame
  obtain ⟨g, below, callers⟩ := waits.gate
  let left : Machine := { m with signal := none, frame := .gate g, callers := below }
  have popped : ({ m with signal := none, frame := .native n } : Machine).pop = left := by
    simp only [pop, callers]
    rfl
  have put := left.putAll_eq n.func values
  have frame' : (left.putAll n.func values).frame = .gate g := by rw [put]
  have answered : m.answer values =
      (left.putAll n.func values).leaveGate g (left.putAll n.func values).callers (.finished values) := by
    rw [answer, frame]
    dsimp only
    rw [returnValues, popped, finishCall, frame']
    simp only [range_putAll]
  obtain ⟨signal, store⟩ := leaveGate_signal (left.putAll n.func values) g (left.putAll n.func values).callers
    (.finished values)
  rw [answered]
  refine ⟨signal, store.trans ?_⟩
  rw [put]

end Guest.Machine

variable {σ : Type}

/-- Whom a session tells of calls of host functions and of their returns never throws. -/
def Standing.Patient (S : Standing σ) (session : Nat) : Prop :=
  ∀ callbacks, S.callbacks[session]? = some callbacks →
    (∀ hook, callbacks.onHostCall = some hook → ∀ call ledgers memory, (hook call ledgers memory).2 = none) ∧
    ∀ hook, callbacks.onHostReturn = some hook → ∀ result ledgers memory, (hook result ledgers memory).2 = none

namespace World
variable {w w' : World σ} {session : Nat} {α : Type}

theorem callback_eq (w : World σ) (session : Nat) (field : Callbacks σ → Option α) :
    w.callback session field = (w.standing.callbacks[session]?).bind field := by
  simp only [callback, standing, Array.getElem?_map]
  cases w.vms[session]? <;> rfl

/-- A callback is told that does not throw. -/
theorem notify_patient {hook : Option (Hook σ α)}
    (patient : ∀ h, hook = some h → ∀ a ledgers memory, (h a ledgers memory).2 = none) (a : α) :
    ∃ memory, w.notify hook a = ({ w with memory }, none) := by
  cases hook with
  | none => exact ⟨w.memory, rfl⟩
  | some h => exact ⟨_, Prod.ext rfl (patient h rfl a _ _)⟩

theorem told_return (patient : w.standing.Patient session) (result : HostReturn) :
    ∃ memory, w.notify (w.callback session (·.onHostReturn)) result = ({ w with memory }, none) := by
  refine notify_patient (fun hook is => ?_) result
  obtain ⟨callbacks, there, field⟩ := Option.bind_eq_some_iff.mp (w.callback_eq session _ ▸ is)
  exact (patient callbacks there).2 hook field

theorem Spares.callbacks (spares : w.Spares w') : w'.standing.callbacks = w.standing.callbacks := by
  have eq (w : World σ) : w.standing.callbacks = w.code.map Prod.fst := by
    simp [standing, World.code, Function.comp_def]
  rw [eq, eq, spares.code]

theorem Spares.patient (spares : w.Spares w') (patient : w.standing.Patient session) :
    w'.standing.Patient session := by
  rwa [Standing.Patient, spares.callbacks]

/-- Items come with the head of a session, and show these values in it. -/
structure Brings (w : World σ) (session : Nat) (state : State) (items : List Item) (xs : List Sight) : Prop where
  accepts : w.standing.Accepts state
  here : state.session = session
  shown : w.ShowAll session items xs

end World

namespace Config
variable {w : World σ} {s : State} {ref : Reference} {arguments : List Item} {index : Nat} {xs : List Sight}
  {T : List (Pending σ)}

/-- A guest whose machine has stopped is heeded at once. -/
theorem guestStep_stopped {c : Config σ} {session : Nat} {signal : Guest.Signal}
    (stopped : (c.world.machine session).signal = some signal) :
    c.guestStep session = c.heeding session (some signal) := by
  have still : c.world.modifyMachine session (·.run portion) = c.world := by
    rw [World.modifyMachine_congr (g := id) (Guest.Machine.run_stopped stopped portion)]
    exact congrArg (fun vms => { c.world with vms }) (modify_id c.world.vms session)
  rw [guestStep_eq, still, stopped]

theorem opened_of_accepts (accepts : w.standing.Accepts s) : (w.ledger s.session).closed = false := by
  rw [World.closed_eq]
  exact accepts.1

theorem head_accepted (opened : (w.ledger s.session).closed = false) :
    w.standing.Accepts (w.head s.session) := by
  refine ⟨?_, w.standing_head s.session⟩
  rw [← World.closed_eq]
  exact opened

/-- A host function that returns with the head has the values that it returns handed to the guest. -/
theorem answering_step (name : String) {session : Nat} {state : State} {items : List Item} {ys : List Sight}
    {S : List (Pending σ)} (brings : w.Brings session state items ys) (fits : ∀ y ∈ ys, y.Fits)
    (patient : w.standing.Patient session) (room : (w.machine session).hasRoomAbove items.length = true) :
    ∃ memory, ∃ values : List Guest.Value, values.map (·.sight) = ys ∧
      step ⟨w, .client (.done state items), .body session name :: S⟩ =
        ⟨({ w with memory } : World σ).modifyMachine session (·.answer values), .guest session, S⟩ := by
  obtain ⟨accepts, rfl, shown⟩ := brings
  have claimed := shown.claimed (opened_of_accepts accepts)
  obtain ⟨memory, told⟩ := World.told_return patient ⟨name, items⟩
  obtain ⟨values, same, given⟩ := shown.given fits
  have stays : ({ w with memory } : World σ).giveAll state.session items = .ok values := given
  refine ⟨memory, values, same, ?_⟩
  simp only [step, clientStep, done, answering, returnViolation?, bne_self_eq_false, Bool.false_eq_true, if_false,
    (w.stateViolation?_eq_none state).mpr accepts, claimed, if_pos room, told, stays]

/-- A call of a guest that is over gives the values that the guest returns, with the successor of its state. -/
theorem returned_step {values : List Guest.Value}
    (stopped : (w.machine s.session).signal = some (.finished values)) :
    let read := (w.restore s).receiveAll s.session values
    step ⟨w, .guest s.session, .guest s .values :: T⟩ =
      ⟨(read.1.advance s.session).1, .outcome (.ok (some (read.1.advance s.session).2) (.values read.2)), T⟩ := by
  have step : step ⟨w, .guest s.session, .guest s .values :: T⟩ = guestStep ⟨w, .guest s.session, .guest s .values :: T⟩
    s.session := rfl
  rw [step, guestStep_stopped stopped]
  rfl

/-- When a host function returns values with the head, they are the answer of the call: the host receives values
that show what these show, with a state that is the head, and behind new handles. -/
theorem answer_returns (name : String) {state : State} {items : List Item} {ys : List Sight} {place depth : Nat}
    (brings : w.Brings s.session state items ys) (fits : ∀ y ∈ ys, y.Fits) (patient : w.standing.Patient s.session)
    (waits : (w.machine s.session).WaitsInside place depth)
    (room : place + Guest.stackReserve + items.length ≤ Guest.stackLimit) (tracked : w.Tracked) :
    ∃ w' s' results, LeadsAbove T
        ⟨w, .client (.done state items), .body s.session name :: .guest s .values :: T⟩
        ⟨w', .outcome (.ok (some s') (.values results)), T⟩ ∧
      w.Spares w' ∧ w'.Brings s.session s' (results.map .value) ys ∧
      ∀ h, w.Knows h → ∀ d ∈ results, d.handle? ≠ some h := by
  have opened : (w.ledger s.session).closed = false := brings.here ▸ opened_of_accepts brings.accepts
  have bound : s.session < w.vms.size :=
    brings.here ▸ bound_of_accepted tracked ((w.stateViolation?_eq_none _).mpr brings.accepts)
  have above : (w.machine s.session).hasRoomAbove items.length = true := by
    rw [Guest.Machine.hasRoomAbove, waits.top, decide_eq_true_eq]
    exact room
  obtain ⟨memory, values, rfl, answered⟩ :=
    answering_step name (S := .guest s .values :: T) brings fits patient above
  let told := ({ w with memory } : World σ).modifyMachine s.session (·.answer values)
  have machine : told.machine s.session = (w.machine s.session).answer values := by
    rw [World.machine_modifyMachine, if_pos ⟨rfl, bound⟩]
    rfl
  obtain ⟨signal, store⟩ := waits.answers values
  have answers : w.Spares told := (w.memory_spares memory).trans
    (World.modifyMachine_spares _ s.session (fun m => m.answer_slots values) store)
  let read := (told.restore s).receiveAll s.session values
  have restored : w.Spares (told.restore s) := answers.trans (told.restore_spares s)
  have received : (told.restore s).Spares read.1 := (told.restore s).receiveAll_spares s.session values
  have advanced : read.1.Spares (read.1.advance s.session).1 := read.1.advance_spares s.session
  have reached := (restored.trans received).trans advanced
  have open' : ((told.restore s).ledger s.session).closed = false := (restored.closed tracked _).trans opened
  have accepts' := head_accepted ((reached.closed tracked _).trans opened)
  have shown' := advanced.showAll (received.tracked (restored.tracked tracked))
    (World.receiveAll_shown (restored.tracked tracked) open' values)
  refine ⟨_, _, read.2, ?_, reached, ⟨accepts', rfl, shown'⟩, fun h known => ?_⟩
  · refine .head (List.suffix_append [_, _] T) (answered ▸ .head (List.suffix_cons _ T) ?_)
    show LeadsAbove T (step ⟨told, .guest s.session, .guest s .values :: T⟩) _
    rw [returned_step (machine ▸ signal)]
    exact .refl (List.suffix_refl T)
  · have same : (told.restore s).holdings = w.holdings :=
      (told.restore_holdings s).trans
        (World.modifyMachine_holdings ({ w with memory } : World σ) _ _ fun m => m.answer_slots values)
    exact World.receiveAll_new (World.opened_lt open') (known.congr same) values

end Config

namespace Config
variable {c d : Config σ} {w w' : World σ} {s : State} {T K : List (Pending σ)}

theorem Run.patient (run : Run T c d) {session : Nat} (bound : session < c.world.vms.size)
    (patient : c.world.standing.Patient session) : d.world.standing.Patient session := by
  have opened : session < c.posture.standing.callbacks.size := by
    show session < (c.world.vms.map (·.callbacks)).size
    rwa [Array.size_map]
  have same : d.world.standing.callbacks[session]? = c.world.standing.callbacks[session]? :=
    (run.posture.callbacks opened).1
  rwa [Standing.Patient, same]

/-- Whatever a host function has done, the guest waits where it waited. -/
theorem Run.waits {client client' : Client σ} {name : String} {place depth : Nat}
    (run : Run (.body s.session name :: .guest s .values :: K)
      ⟨w, .client client, .body s.session name :: .guest s .values :: K⟩
      ⟨w', .client client', .body s.session name :: .guest s .values :: K⟩)
    (reachable : Reachable ⟨w, .client client, .body s.session name :: .guest s .values :: K⟩)
    (bound : s.session < w.vms.size) (waits : (w.machine s.session).WaitsInside place depth) :
    (w'.machine s.session).WaitsInside place depth := by
  have orderly := (reachable.grounded bound).orderly
  exact waits.back orderly (run.back reachable bound orderly rfl rfl trivial nofun)

/-! ### Calls through references and by name -/

/-- What has a value called through a reference, in a world: a call, or a call by a name that leads to it. -/
inductive CallsThrough (c : Config σ) (s : State) (arguments : List Item) : World σ → Reference → Prop
  | reference {ref : Reference} (control : c.control = .perform (.call s ref arguments)) :
      CallsThrough c s arguments c.world ref
  | name {keys : List String} {w : World σ} {ref : Reference}
      (control : c.control = .perform (.callByName s keys arguments))
      (found : c.world.Gives [] (.refGet s keys) (.ok none (.reference ref)) w) : CallsThrough c s arguments w ref

/-- What waits for a call through a reference, above those who wait for the whole operation, and what it does then. -/
inductive Awaits (ref : Reference) (T : List (Pending σ)) : List (Pending σ) → (World σ → World σ) → Prop
  | call : Awaits ref T T id
  | callByName : Awaits ref T (.called ref :: T) (·.release (.reference ref))

variable {ref : Reference} {arguments : List Item} {index : Nat} {finish : World σ → World σ}

theorem Awaits.suffix (awaits : Awaits ref T K finish) : T <:+ K := by
  cases awaits with
  | call => exact List.suffix_refl T
  | callByName => exact List.suffix_cons _ T

/-- A name that leads to a function is called. -/
theorem name_leads {keys : List String} {w₀ : World σ}
    (reachable : Reachable ⟨w₀, .perform (.callByName s keys arguments), T⟩)
    (found : w₀.Gives [] (.refGet s keys) (.ok none (.reference ref)) w)
    (function : w.Shows s.session ref.target (.object .function (.host index))) :
    LeadsAbove T ⟨w₀, .perform (.callByName s keys arguments), T⟩
      ⟨w, .perform (.call s ref arguments), .called ref :: T⟩ := by
  have proper := reachable.proper
  obtain ⟨k, R, rfl⟩ : ∃ k R, T = .perform k :: R := by
    cases proper.control with
    | perform _ _ fits => exact Operation.Begins.performed (.callByName s keys arguments) fits
  have stacked : Stacked (.perform k :: R) := proper.stacked
  have looked : w₀.Gives (.resolved s keys arguments :: .perform k :: R) (.refGet s keys)
      (.ok none (.reference ref)) w :=
    (World.gives_iff ⟨.perform _ _ (.resolved _ _ _ _), .cons (.resolved _ _ _ _ _) stacked⟩).mpr found
  have called : step ⟨w, .outcome (.ok none (.reference ref)), .resolved s keys arguments :: .perform k :: R⟩ =
      ⟨w, .perform (.call s ref arguments), .called ref :: .perform k :: R⟩ := by
    obtain ⟨target⟩ := ref
    cases function
    rfl
  refine .head (List.suffix_refl _) ((looked.weaken (List.suffix_cons _ _)).trans ?_)
  refine .head (List.suffix_cons _ _) ?_
  rw [called]
  exact .refl (List.suffix_cons _ _)

theorem CallsThrough.leads (calls : CallsThrough c s arguments w ref) (reachable : Reachable c)
    (function : w.Shows s.session ref.target (.object .function (.host index))) :
    ∃ K finish, Awaits ref c.stack K finish ∧ LeadsAbove c.stack c ⟨w, .perform (.call s ref arguments), K⟩ := by
  obtain ⟨w₀, control, T⟩ := c
  cases calls with
  | reference control =>
      obtain rfl : _ = _ := control
      exact ⟨T, id, .call, .refl (List.suffix_refl T)⟩
  | name control found =>
      obtain rfl : _ = _ := control
      exact ⟨_, _, .callByName, name_leads reachable found function⟩

/-- What a call comes to is what the operation comes to. -/
theorem Awaits.leads (awaits : Awaits ref T K finish) (w : World σ) (o : Outcome) :
    LeadsAbove T ⟨w, .outcome o, K⟩ ⟨finish w, .outcome o, T⟩ := by
  cases awaits with
  | call => exact .refl (List.suffix_refl T)
  | callByName => exact .head (List.suffix_cons _ T) (.refl (List.suffix_refl T))

theorem Awaits.standing (awaits : Awaits ref T K finish) (w : World σ) : (finish w).standing = w.standing := by
  cases awaits with
  | call => rfl
  | callByName => exact w.release_standing (.reference ref)

/-- New handles stay when the reference is given back. -/
theorem Awaits.showAll {results : List Datum} {ys : List Sight} {session : Nat} (awaits : Awaits ref T K finish)
    (tracked : w.Tracked) (shown : w.ShowAll session (results.map .value) ys)
    (new : ∀ h, .handle h ∈ K.filterMap Pending.kept? → ∀ d ∈ results, d.handle? ≠ some h) :
    (finish w).ShowAll session (results.map .value) ys := by
  cases awaits with
  | call => exact shown
  | callByName =>
      rw [World.ShowAll, List.forall₂_map_left_iff] at shown ⊢
      refine ((List.forall₂_and_left _ _).mpr ⟨fun d mem => mem, shown⟩).imp fun d y here => ?_
      refine here.2.released tracked fun h is => new h ?_ d here.1
      exact List.mem_filterMap.mpr ⟨.called ref, List.mem_cons_self, congrArg (Option.map Holder.handle) is⟩

/-- What it then returns is what the operation comes to for which it was called. -/
theorem Run.answers {client : Client σ} {name : String} {state : State} {items : List Item} {ys : List Sight}
    {place depth : Nat} (awaits : Awaits ref T K finish)
    (run : Run (.body s.session name :: .guest s .values :: K)
      ⟨w, .client client, .body s.session name :: .guest s .values :: K⟩
      ⟨w', .client (.done state items), .body s.session name :: .guest s .values :: K⟩)
    (reachable : Reachable ⟨w, .client client, .body s.session name :: .guest s .values :: K⟩)
    (bound : s.session < w.vms.size) (waits : (w.machine s.session).WaitsInside place depth)
    (patient : w.standing.Patient s.session) (brings : w'.Brings s.session state items ys)
    (fits : ∀ y ∈ ys, y.Fits) (room : place + Guest.stackReserve + items.length ≤ Guest.stackLimit) :
    ∃ w'' s' results, LeadsAbove T
        ⟨w', .client (.done state items), .body s.session name :: .guest s .values :: K⟩
        ⟨finish w'', .outcome (.ok (some s') (.values results)), T⟩ ∧
      w'.Spares w'' ∧ (finish w'').Brings s.session s' (results.map .value) ys := by
  have ended := reachable.run run
  obtain ⟨w'', s', results, leads, spares, given, new⟩ := answer_returns name (T := K) brings fits
    (run.patient bound patient) (run.waits reachable bound waits) room ended.tracked
  have accepts := (awaits.standing w'').symm ▸ given.accepts
  refine ⟨w'', s', results, (leads.weaken awaits.suffix).trans (awaits.leads w'' _), spares, accepts, given.here,
    awaits.showAll (spares.tracked ended.tracked) given.shown fun h kept => ?_⟩
  exact new h (ended.acquainted (.handle h) (List.mem_append_right _ kept))

end Config

end LuaHost
