import LuaHost.Proofs.Isolation
/-!
Operations for one session. As long as the host code that is run for it keeps to the session, every step does
the same if other sessions have something else, and leaves what they have as it is.
-/

namespace LuaHost

variable {ρ : Type}

/-! ### What concerns a session -/

section
variable {σ : Type} (a : Nat)

/-- An operation on a session: it is given a state or a value of this session. -/
def Operation.Within : Operation σ → Prop
  | init _ => False
  | close s | encode s _ | encodeTable s _ | expose s _ _ | get s _ | refGet s _ | set s _ _ | load s _ _
  | loadFile s _ | run s _ _ | runFile s _ | runChunk s _ | releaseChunk s _ | call s _ _
  | callByName s _ _ => s.session = a
  | decode value _ => value.Within a
  | release item => item.datum.Within a

def Result.Within : Result → Prop
  | reference ref => ref.target.Within a
  | _ => True

def Outcome.Within : Outcome → Prop
  | ok state r => (∀ s, state = some s → s.session = a) ∧ r.Within a
  | _ => True

def Control.Within : Control σ → Prop
  | perform op => op.Within a
  | outcome o => o.Within a
  | guest session => session = a
  | lacking _ next => next.Within
  | client _ | finished _ => True

def Pending.Within : Pending σ → Prop
  | body session _ => session = a
  | guest entry _ => entry.session = a
  | key table _ | value table _ => table.origin.session = a
  | compiled origin => origin.session = a
  | ran origin s _ => origin.session = a ∧ s.session = a
  | resolved s _ _ => s.session = a
  | called ref => ref.target.Within a
  | perform _ => True

/-- What host code does next keeps to a session. -/
def Client.KeepsTo (a : Nat) : Client (Nat → ρ) → Prop
  | done s _ => s.session = a
  | access update next => LuaHost.KeepsTo a fun ledgers memory =>
      (update ledgers memory, next ledgers (update ledgers memory))
  | perform op _ => op.Within a
  | throw _ | identity _ => True

theorem Outcome.within_none {a : Nat} {r : Result} (within : r.Within a) : (Outcome.ok none r).Within a :=
  ⟨fun _ none => (Option.some_ne_none _ none.symm).elim, within⟩

theorem Outcome.within_of_not_ok {o : Outcome} (failed : ¬ o.IsOk) : o.Within a := by
  cases o with
  | ok => exact absurd trivial failed
  | err | threw => trivial

end

namespace Config
variable (c : Config (Nat → ρ)) (a : Nat) (base : World (Nat → ρ))

def alone : Config (Nat → ρ) := { c with world := c.world.alone a base }

/-- Nothing but a session is concerned. -/
structure Within : Prop where
  control : c.control.Within a
  waits : ∀ f ∈ c.stack, f.Within a

/-- The host code that is under way, and the callbacks of the session, keep to it. -/
structure Confined : Prop where
  minds : c.world.Minds a
  client : ∀ k, c.control = .client k → k.KeepsTo a

/-- A part of a step does the same if other sessions have something else, and concerns the session only. -/
structure Alike (f : Config (Nat → ρ) → Config (Nat → ρ)) : Prop where
  same : f (c.alone a base) = (f c).alone a base
  within : (f c).Within a

variable {c a base}

/-! ### Endings and entries -/

theorem Alike.congr {f g : Config (Nat → ρ) → Config (Nat → ρ)} (alike : c.Alike a base g)
    (alone : f (c.alone a base) = g (c.alone a base)) (here : f c = g c) : c.Alike a base f where
  same := by rw [alone, here, alike.same]
  within := by rw [here]; exact alike.within

/-- What is done in a world that was made of the one at hand. -/
theorem Alike.after {f : World (Nat → ρ) → World (Nat → ρ)} {g : Config (Nat → ρ) → Config (Nat → ρ)}
    (alike : { c with world := f c.world }.Alike a base g)
    (same : f (c.world.alone a base) = (f c.world).alone a base) :
    c.Alike a base fun c => g { c with world := f c.world } where
  same := (congrArg (fun world => g { c with world }) same).trans alike.same
  within := alike.within

/-- What is done when the wait on top of the stack is over. -/
theorem Alike.below {T : List (Pending (Nat → ρ))} {g : Config (Nat → ρ) → Config (Nat → ρ)}
    (alike : { c with stack := T }.Alike a base g) : c.Alike a base fun c => g { c with stack := T } :=
  ⟨alike.same, alike.within⟩

theorem ending_alike {f : World (Nat → ρ) → World (Nat → ρ) × Outcome}
    (waits : ∀ f ∈ c.stack, f.Within a)
    (same : f (c.world.alone a base) = ((f c.world).1.alone a base, (f c.world).2))
    (within : (f c.world).2.Within a) : c.Alike a base fun c => c.ending (f c.world) where
  same := congrArg (fun r => { c with world := r.1, control := .outcome r.2 }) same
  within := ⟨within, waits⟩

theorem throwing_alike (waits : ∀ f ∈ c.stack, f.Within a) (fault : Fault) :
    c.Alike a base (·.throwing fault) := ⟨rfl, trivial, waits⟩

theorem failing_alike (minds : c.world.Minds a) (waits : ∀ f ∈ c.stack, f.Within a) (fault : Fault) :
    c.Alike a base fun c => c.ending (c.world.fail a fault) :=
  ending_alike (f := (·.fail a fault)) waits (c.world.fail_alone base minds fault)
    (Outcome.within_of_not_ok a (c.world.fail_not_ok a fault))

theorem succeeding_alike (waits : ∀ f ∈ c.stack, f.Within a) {r : Result} (within : r.Within a) :
    c.Alike a base fun c => c.ending (c.world.succeed a r) := by
  refine ending_alike (f := (·.succeed a r)) waits (c.world.succeed_alone base r) ?_
  rw [World.succeed_outcome]
  exact ⟨fun _ given => Option.some.inj given ▸ rfl, within⟩

theorem requiring_alike {s : State} (here : s.session = a) (waits : ∀ f ∈ c.stack, f.Within a)
    {k : Config (Nat → ρ) → Config (Nat → ρ)} (goesOn : c.Alike a base k) :
    c.Alike a base (·.requiring s k) := by
  have same : (c.alone a base).world.stateViolation? s = c.world.stateViolation? s :=
    c.world.stateViolation?_alone base here
  cases refused : c.world.stateViolation? s with
  | some fault =>
      exact (throwing_alike waits fault).congr (by simp only [requiring, same, refused])
        (by simp only [requiring, refused])
  | none =>
      exact goesOn.congr (by simp only [requiring, same, refused]) (by simp only [requiring, refused])

theorem claiming_alike {items : List Item} (waits : ∀ f ∈ c.stack, f.Within a)
    {k : Config (Nat → ρ) → Config (Nat → ρ)}
    (goesOn : (∀ item ∈ items, item.datum.Within a) → c.Alike a base k) :
    c.Alike a base (·.claiming a items k) := by
  have same : (c.alone a base).world.ledger a = c.world.ledger a := c.world.ledger_alone base
  cases refused : (c.world.ledger a).claimViolation? a items with
  | some fault =>
      exact (throwing_alike waits fault).congr (by simp only [claiming, same, refused])
        (by simp only [claiming, refused])
  | none =>
      exact (goesOn (c.world.within_of_claimed refused)).congr
        (by simp only [claiming, same, refused]) (by simp only [claiming, refused])

theorem waits_cons {f : Pending (Nat → ρ)} {T : List (Pending (Nat → ρ))} (here : f.Within a)
    (waits : ∀ f ∈ T, f.Within a) : ∀ g ∈ f :: T, g.Within a := by
  intro g mem
  rcases List.mem_cons.mp mem with rfl | mem
  · exact here
  · exact waits g mem

theorem entering_alike {entry : State} (here : entry.session = a) (waits : ∀ f ∈ c.stack, f.Within a)
    (purpose : Purpose) {f : World (Nat → ρ) → World (Nat → ρ)}
    (same : f (c.world.alone a base) = (f c.world).alone a base) :
    c.Alike a base fun c => c.entering entry purpose (f c.world) where
  same := congrArg (c.entering entry purpose) same
  within := ⟨here, waits_cons here waits⟩

theorem enteringProgram_alike {entry : State} (here : entry.session = a)
    (waits : ∀ f ∈ c.stack, f.Within a) (purpose : Purpose) (p : Guest.Program) :
    c.Alike a base (·.enteringProgram entry purpose p) := by
  subst here
  exact entering_alike (f := (·.modifyMachine entry.session fun m => m.enterGate.runFromHost p)) rfl waits
    purpose (c.world.modifyMachine_alone base _)

theorem raising_alike (waits : ∀ f ∈ c.stack, f.Within a) (t : Thrown)
    {f : World (Nat → ρ) → World (Nat → ρ)}
    (same : f (c.world.alone a base) = (f c.world).alone a base) :
    c.Alike a base fun c => c.raising a t (f c.world) where
  same := by
    have raised : (f (c.alone a base).world).raiseInGuest a t =
        ((f c.world).raiseInGuest a t).alone a base :=
      (congrArg (World.raiseInGuest · a t) same).trans ((f c.world).raiseInGuest_alone base t)
    simp only [raising, raised]
    rfl
  within := ⟨rfl, waits⟩

/-! ### Calls of the guest -/

theorem abandoning_alike (minds : c.world.Minds a) {entry : State} (here : entry.session = a)
    (waits : ∀ f ∈ c.stack, f.Within a) (t : Thrown) : c.Alike a base (·.abandoning entry t) := by
  subst here
  let abandoned (w : World (Nat → ρ)) := w.modifyMachine entry.session (·.abandon)
  have minds' : (abandoned c.world).Minds entry.session :=
    minds.congr (by rw [World.modifyMachine_standing])
  have failed := (abandoned c.world).failUnexpected_alone base minds' t
  refine ending_alike (f := fun w =>
    (((abandoned w).failUnexpected entry.session t).1.restore entry,
      ((abandoned w).failUnexpected entry.session t).2)) waits ?_ ?_
  · simp only [abandoned, World.modifyMachine_alone] at failed ⊢
    simp only [failed, World.restore_alone _ base rfl]
  · exact Outcome.within_of_not_ok _ (World.failUnexpected_not_ok _ _ _)

theorem applying_alike (minds : c.world.Minds a) {entry : State} (here : entry.session = a)
    (waits : ∀ f ∈ c.stack, f.Within a) (function : Guest.Value) {arguments : List Item}
    (within : ∀ item ∈ arguments, item.datum.Within a) :
    c.Alike a base (·.applying entry function arguments) := by
  subst here
  have machine : (c.alone entry.session base).world.machine entry.session =
      c.world.machine entry.session := c.world.machine_alone base
  have given : (c.alone entry.session base).world.giveAll entry.session arguments =
      c.world.giveAll entry.session arguments := c.world.giveAll_alone base within
  by_cases room : (c.world.machine entry.session).hasRoom arguments.length = true
  · cases values : c.world.giveAll entry.session arguments with
    | error =>
        exact (abandoning_alike minds rfl waits invalidArgument).congr
          (by simp only [applying, machine, room, given, values, if_true])
          (by simp only [applying, room, values, if_true])
    | ok values' =>
        let calls (w : World (Nat → ρ)) := w.modifyMachine entry.session fun m => m.callFromHost function values'
        exact (entering_alike (f := calls) rfl waits .values (c.world.modifyMachine_alone base _)).congr
          (by simp only [applying, machine, room, given, values, if_true, calls])
          (by simp only [applying, room, values, if_true, calls])
  · exact (abandoning_alike minds rfl waits (noRoom "push" arguments.length)).congr
      (by simp only [applying, machine, room]; rfl) (by simp only [applying, room]; rfl)

theorem openingGate_minds {entry : State} (minds : c.world.Minds a) :
    (c.openingGate entry).world.Minds a :=
  minds.congr (congrArg Standing.callbacks (World.modifyMachine_standing c.world entry.session _))

/-- Hands a value and its arguments over, once the gate is open. -/
def handing (c : Config (Nat → ρ)) (entry : State) (f : Item) (arguments : List Item) : Config (Nat → ρ) :=
  match c.world.give? entry.session f.datum with
  | none => c.abandoning entry invalidArgument
  | some function => c.applying entry function arguments

theorem calling_alike (minds : c.world.Minds a) {entry : State} (here : entry.session = a)
    (waits : ∀ f ∈ c.stack, f.Within a) {f : Item} {arguments : List Item}
    (within : ∀ item ∈ f :: arguments, item.datum.Within a) :
    c.Alike a base (·.calling entry f arguments) := by
  subst here
  let opened := c.openingGate entry
  have minds' : opened.world.Minds entry.session := openingGate_minds minds
  have arguments' : ∀ item ∈ arguments, item.datum.Within entry.session :=
    fun item mem => within item (List.mem_cons_of_mem f mem)
  have target : (opened.alone entry.session base).world.give? entry.session f.datum =
      opened.world.give? entry.session f.datum :=
    opened.world.give?_alone base (within f List.mem_cons_self)
  have called : opened.Alike entry.session base (·.handing entry f arguments) := by
    cases function : opened.world.give? entry.session f.datum with
    | none =>
        exact (abandoning_alike minds' rfl waits invalidArgument).congr
          (by simp only [handing, target, function]) (by simp only [handing, function])
    | some v =>
        exact (applying_alike minds' rfl waits v arguments').congr
          (by simp only [handing, target, function]) (by simp only [handing, function])
  exact Alike.after (f := (·.modifyMachine entry.session (·.enterGate))) called
    (c.world.modifyMachine_alone base _)

theorem returned_alone (minds : c.world.Minds a) (purpose : Purpose) (values : List Guest.Value) :
    returned a purpose values (c.world.alone a base) =
      ((returned a purpose values c.world).1.alone a base, (returned a purpose values c.world).2) := by
  cases purpose with
  | values => simp only [returned, World.receiveAll_alone, World.succeed_alone]
  | lookup keys asReference =>
      cases values with
      | nil => exact c.world.fail_alone base minds _
      | cons v rest =>
          have minds' : (c.world.receive a v).1.Minds a :=
            minds.congr (congrArg Standing.callbacks (c.world.receive_standing a v))
          have failed := fun fault => (c.world.receive a v).1.fail_alone base minds' fault
          simp only [returned, World.receive_alone, failed]
          split <;> rfl
  | assign keys =>
      simp only [returned]
      split
      · exact c.world.fail_alone base minds _
      · exact c.world.succeed_alone base _

theorem succeed_within {w : World (Nat → ρ)} {r : Result} (within : r.Within a) :
    (w.succeed a r).2.Within a := by
  rw [World.succeed_outcome]
  exact ⟨fun _ given => Option.some.inj given ▸ rfl, within⟩

theorem fail_within {w : World (Nat → ρ)} (fault : Fault) : (w.fail a fault).2.Within a :=
  Outcome.within_of_not_ok a (w.fail_not_ok a fault)

theorem returned_within (w : World (Nat → ρ)) (purpose : Purpose) (values : List Guest.Value) :
    (returned a purpose values w).2.Within a := by
  cases purpose with
  | values => exact succeed_within trivial
  | lookup keys asReference =>
      cases values with
      | nil => exact fail_within _
      | cons v rest =>
          simp only [returned]
          split
          · exact fail_within _
          · have given : Result.Within a (if asReference = true then .reference ⟨(w.receive a v).2⟩
                else .item (.value (w.receive a v).2)) := by
              cases asReference with
              | false => exact trivial
              | true => exact w.receive_within v
            exact Outcome.within_none given
  | assign keys =>
      simp only [returned]
      split
      · exact fail_within _
      · exact succeed_within trivial

theorem leaving_alike (minds : c.world.Minds a) {entry : State} (here : entry.session = a)
    {T : List (Pending (Nat → ρ))} (waits : ∀ f ∈ T, f.Within a) (control : c.control.Within a)
    (purpose : Purpose) (signal : Guest.Signal) :
    c.Alike a base (·.leaving entry purpose T signal) := by
  subst here
  cases signal with
  | failed status error traceback =>
      let read (w : World (Nat → ρ)) := w.readFailure entry.session status error traceback
      have minds' : (read c.world).1.Minds entry.session :=
        minds.congr (congrArg Standing.callbacks (World.readFailure_standing _ _ _ _ _))
      have failed := (read c.world).1.failCall_alone base minds' (read c.world).2
      refine Alike.below (ending_alike (f := fun w =>
        (((read w).1.failCall entry.session (read w).2).1.restore entry,
          ((read w).1.failCall entry.session (read w).2).2)) waits ?_ ?_)
      · simp only [read, World.readFailure_alone] at failed ⊢
        simp only [failed, World.restore_alone _ base rfl]
      · exact Outcome.within_of_not_ok _ (World.failCall_not_ok _ _ _)
  | finished values =>
      have minds' : (c.world.restore entry).Minds entry.session := by
        refine minds.congr ?_
        rw [World.restore_standing, Standing.restore_callbacks]
      refine Alike.below (ending_alike (f := fun w => returned entry.session purpose values (w.restore entry))
        waits ?_ (returned_within _ _ _))
      simp only [World.restore_alone _ base rfl]
      exact returned_alone (c := { c with world := c.world.restore entry }) minds' purpose values
  | _ => exact ⟨rfl, control, waits⟩

/-! ### Host functions -/

theorem told_minds {w : World (Nat → ρ)} (minds : w.Minds a) {ε : Type} (hook : Option (Hook (Nat → ρ) ε))
    (event : ε) : (w.notify hook event).1.Minds a :=
  minds.congr (congrArg Standing.callbacks (w.notify_standing hook event))

theorem invoking_alike (minds : c.world.Minds a) (waits : ∀ f ∈ c.stack, f.Within a) (index : Nat)
    (values : List Guest.Value) : c.Alike a base (·.invoking a index values) := by
  have vm : (c.alone a base).world.vms[a]? = c.world.vms[a]? := c.world.vms_alone base
  cases called : (c.world.vms[a]?).bind (·.exposed[index]?) with
  | none =>
      exact (raising_alike (f := id) waits (.value .undefined) rfl).congr
        (by simp only [invoking, vm, called, id]) (by simp only [invoking, called, id])
  | some entry =>
      obtain ⟨name, body⟩ := entry
      have received : (c.alone a base).world.receiveAll a values =
          ((c.world.receiveAll a values).1.alone a base, (c.world.receiveAll a values).2) :=
        c.world.receiveAll_alone base values
      have minds' : (c.world.receiveAll a values).1.Minds a :=
        minds.congr (congrArg Standing.callbacks (World.receiveAll_standing _ _ _))
      generalize all : c.world.receiveAll a values = r at received minds'
      obtain ⟨w, arguments⟩ := r
      have told := w.notify_alone base (World.callback_keeps minds' fun _ kept => kept.onHostCall)
        (⟨name, arguments⟩ : HostCall)
      generalize notified : w.notify (w.callback a (·.onHostCall)) ⟨name, arguments⟩ = r at told
      obtain ⟨w', thrown⟩ := r
      cases thrown with
      | some t =>
          refine ⟨?_, ?_⟩
          · simp only [invoking, vm, called, received, all, World.callback_alone, told, notified]
            simp only [raising, World.raiseInGuest_alone]
            rfl
          · simp only [invoking, called, all, notified]
            exact ⟨rfl, waits⟩
      | none =>
          refine ⟨?_, ?_⟩
          · simp only [invoking, vm, called, received, all, World.callback_alone, told, notified,
              World.advance_alone]
            rfl
          · simp only [invoking, called, all, notified]
            exact ⟨trivial, waits_cons rfl waits⟩

theorem returnViolation?_alone (state : State) (items : List Item) :
    (c.alone a base).returnViolation? a state items = c.returnViolation? a state items := by
  unfold returnViolation?
  split
  · rfl
  · next same =>
      have here : state.session = a := by simpa using same
      have violation : (c.alone a base).world.stateViolation? state = c.world.stateViolation? state :=
        c.world.stateViolation?_alone base here
      have ledger : (c.alone a base).world.ledger a = c.world.ledger a := c.world.ledger_alone base
      rw [violation, ledger]

theorem within_of_returned {state : State} {items : List Item}
    (accepted : c.returnViolation? a state items = none) : ∀ item ∈ items, item.datum.Within a := by
  unfold returnViolation? at accepted
  split at accepted
  · cases accepted
  · split at accepted
    · cases accepted
    · exact c.world.within_of_claimed accepted

theorem answering_alike (minds : c.world.Minds a) (waits : ∀ f ∈ c.stack, f.Within a) (name : String)
    (state : State) (items : List Item) : c.Alike a base (·.answering a name state items) := by
  have violation : (c.alone a base).returnViolation? a state items = c.returnViolation? a state items :=
    returnViolation?_alone state items
  have machine : (c.alone a base).world.machine a = c.world.machine a := c.world.machine_alone base
  cases refused : c.returnViolation? a state items with
  | some fault =>
      refine ⟨?_, ?_⟩
      · have thrown : (c.alone a base).world.throwFault fault =
            ((c.world.throwFault fault).1.alone a base, (c.world.throwFault fault).2) := rfl
        simp only [answering, violation, refused, thrown, raising, World.raiseInGuest_alone]
        rfl
      · simp only [answering, refused]
        exact ⟨rfl, waits⟩
  | none =>
      have within := within_of_returned refused
      by_cases room : (c.world.machine a).hasRoomAbove items.length = true
      · have callback : (c.alone a base).world.callback a (·.onHostReturn) =
            c.world.callback a (·.onHostReturn) := c.world.callback_alone base _
        have told : (c.alone a base).world.notify (c.world.callback a (·.onHostReturn)) ⟨name, items⟩ = _ :=
          c.world.notify_alone base (World.callback_keeps minds fun _ kept => kept.onHostReturn)
            (⟨name, items⟩ : HostReturn)
        generalize notified : c.world.notify (c.world.callback a (·.onHostReturn)) ⟨name, items⟩ = r at told
        obtain ⟨w, thrown⟩ := r
        cases thrown with
        | some t =>
            refine ⟨?_, ?_⟩
            · simp only [answering, violation, refused, machine, room, if_true, callback, told, notified,
                raising, World.raiseInGuest_alone]
              rfl
            · simp only [answering, refused, room, if_true, notified]
              exact ⟨rfl, waits⟩
        | none =>
            refine ⟨?_, ?_⟩
            · simp only [answering, violation, refused, machine, room, if_true, callback, told, notified,
                w.giveAll_alone base within, World.modifyMachine_alone]
              cases w.giveAll a items <;> rfl
            · simp only [answering, refused, room, if_true, notified]
              exact ⟨rfl, waits⟩
      · refine (raising_alike (f := id) waits (noRoom "return" items.length) rfl).congr ?_ ?_
        · simp only [answering, violation, refused, machine, room]
          rfl
        · simp only [answering, refused, room]
          rfl

/-! ### Tables -/

theorem abandoningTable_alike {table : TableInProgress (Nat → ρ)} (here : table.origin.session = a)
    (waits : ∀ f ∈ c.stack, f.Within a) (t : Thrown) : c.Alike a base (·.abandoningTable table t) :=
  ending_alike (f := fun w => (w.restore table.origin, .threw t)) waits
    (congrArg (·, Outcome.threw t) (c.world.restore_alone base here)) trivial

/-- The world in which a table has been made and is behind a handle. -/
def tabled (session : Nat) (t : Guest.Table) (w : World (Nat → ρ)) : World (Nat → ρ) × Datum :=
  (w.modifyMachine session fun m => { m with store := (m.store.newTable t).1 }).receive session
    (.table (w.machine session).store.tables.size)

/-- The items of which the entries of a table are made. -/
abbrev keysAndValues (entries : List (Item × Item)) : List Item := entries.flatMap fun (k, v) => [k, v]

theorem building_alike {table : TableInProgress (Nat → ρ)} (origin : table.origin.session = a)
    {last : State} (here : last.session = a) (waits : ∀ f ∈ c.stack, f.Within a) :
    c.Alike a base (·.building table last) := by
  subst here
  have violation : (c.alone last.session base).world.stateViolation? last = c.world.stateViolation? last :=
    c.world.stateViolation?_alone base rfl
  have ledger : (c.alone last.session base).world.ledger last.session = c.world.ledger last.session :=
    c.world.ledger_alone base
  have refuses : ∀ fault, c.Alike last.session base fun c =>
      { c with world := (c.world.throwFault fault).1 }.abandoningTable table (c.world.throwFault fault).2 := by
    intro fault
    refine ending_alike (f := fun w => ((w.throwFault fault).1.restore table.origin,
      .threw (w.throwFault fault).2)) waits ?_ trivial
    simp only [World.throwFault_alone, World.restore_alone _ base origin]
  cases stale : c.world.stateViolation? last with
  | some fault =>
      exact (refuses fault).congr (by simp only [building, violation, stale])
        (by simp only [building, stale])
  | none =>
      generalize listed : table.done.reverse = entries
      cases claimed : (c.world.ledger last.session).claimViolation? last.session
          (keysAndValues entries) with
      | some fault =>
          exact (refuses fault).congr (by simp only [building, violation, stale, ledger, listed, claimed])
            (by simp only [building, stale, listed, claimed])
      | none =>
          have within := c.world.within_of_claimed claimed
          have keys : (c.alone last.session base).world.giveAll last.session (entries.map (·.1)) =
              c.world.giveAll last.session (entries.map (·.1)) := by
            refine c.world.giveAll_alone base fun item mem => ?_
            obtain ⟨e, listed, rfl⟩ := List.mem_map.mp mem
            exact within _ (List.mem_flatMap.mpr ⟨e, listed, List.mem_cons_self⟩)
          have values : (c.alone last.session base).world.giveAll last.session (entries.map (·.2)) =
              c.world.giveAll last.session (entries.map (·.2)) := by
            refine c.world.giveAll_alone base fun item mem => ?_
            obtain ⟨e, listed, rfl⟩ := List.mem_map.mp mem
            exact within _ (List.mem_flatMap.mpr ⟨e, listed, List.mem_cons_of_mem _ List.mem_cons_self⟩)
          have gives : ∀ t, c.Alike last.session base fun c =>
              c.ending ((tabled last.session t c.world).1.succeed last.session
                (.item (.value (tabled last.session t c.world).2))) := by
            intro t
            refine ending_alike (f := fun w => (tabled last.session t w).1.succeed last.session
              (.item (.value (tabled last.session t w).2))) waits ?_ (succeed_within trivial)
            simp only [tabled, World.machine_alone, World.modifyMachine_alone, World.receive_alone,
              World.succeed_alone]
          have abandons : c.Alike last.session base (·.abandoningTable table invalidArgument) :=
            abandoningTable_alike origin waits _
          cases givenKeys : c.world.giveAll last.session (entries.map (·.1)) with
          | error =>
              exact abandons.congr
                (by simp only [building, violation, stale, ledger, listed, claimed, keys, givenKeys])
                (by simp only [building, stale, listed, claimed, givenKeys])
          | ok ks =>
              cases givenValues : c.world.giveAll last.session (entries.map (·.2)) with
              | error =>
                  exact abandons.congr
                    (by simp only [building, violation, stale, ledger, listed, claimed, keys, givenKeys,
                      values, givenValues])
                    (by simp only [building, stale, listed, claimed, givenKeys, givenValues])
              | ok vs =>
                  exact (gives (tableOf (ks.zip vs))).congr
                    (by
                      simp only [building, violation, stale, ledger, listed, claimed, keys, givenKeys,
                        values, givenValues]
                      rfl)
                    (by
                      simp only [building, stale, listed, claimed, givenKeys, givenValues]
                      rfl)

theorem nextEntry_alike {table : TableInProgress (Nat → ρ)} (origin : table.origin.session = a)
    {last : State} (here : last.session = a) (waits : ∀ f ∈ c.stack, f.Within a) :
    c.Alike a base (·.nextEntry table last) := by
  unfold nextEntry
  split
  · exact building_alike origin here waits
  · exact ⟨rfl, trivial, waits_cons origin waits⟩

theorem gotKey_alike {table : TableInProgress (Nat → ρ)} (origin : table.origin.session = a)
    (waits : ∀ f ∈ c.stack, f.Within a) (value : State → Client (Nat → ρ)) (state : State) (key : Item) :
    c.Alike a base (·.gotKey table value state key) := by
  unfold gotKey
  split
  · exact abandoningTable_alike origin waits _
  · exact ⟨rfl, trivial, waits_cons origin waits⟩

/-! ### Host code -/

theorem done_alike (minds : c.world.Minds a) (within : c.Within a) {state : State}
    (here : state.session = a) (items : List Item) : c.Alike a base (·.done state items) := by
  have waits := within.waits
  have ends : c.Alike a base fun c => { c with control := .finished (.ok (state, items)) } :=
    ⟨rfl, trivial, waits⟩
  cases stack : c.stack with
  | nil => exact ends.congr (by simp only [done, alone, stack]) (by simp only [done, stack])
  | cons f T =>
      rw [stack] at waits
      have top := waits f List.mem_cons_self
      have below : ∀ f ∈ T, f.Within a := fun f mem => waits f (List.mem_cons_of_mem _ mem)
      cases f with
      | body session name =>
          obtain rfl : session = a := top
          exact (Alike.below (answering_alike (c := { c with stack := T }) minds below name state items)).congr
            (by simp only [done, alone, stack]) (by simp only [done, stack])
      | key table value =>
          exact (Alike.below (gotKey_alike (c := { c with stack := T }) top below value state
            (items.headD nilItem))).congr (by simp only [done, alone, stack]) (by simp only [done, stack])
      | value table key =>
          have goesOn : { c with stack := T }.Alike a base
              (·.nextEntry { table with done := (key, items.headD nilItem) :: table.done } state) :=
            nextEntry_alike (c := { c with stack := T }) (by exact top) here below
          exact (Alike.below goesOn).congr (by simp only [done, alone, stack]) (by simp only [done, stack])
      | _ => exact ends.congr (by simp only [done, alone, stack]) (by simp only [done, stack])

theorem thrown_alike (within : c.Within a) (t : Thrown) : c.Alike a base (·.thrown t) := by
  have waits := within.waits
  have ends : c.Alike a base fun c => { c with control := .finished (.error t) } := ⟨rfl, trivial, waits⟩
  cases stack : c.stack with
  | nil => exact ends.congr (by simp only [thrown, alone, stack]) (by simp only [thrown, stack])
  | cons f T =>
      rw [stack] at waits
      have top := waits f List.mem_cons_self
      have below : ∀ f ∈ T, f.Within a := fun f mem => waits f (List.mem_cons_of_mem _ mem)
      cases f with
      | body session name =>
          obtain rfl : session = a := top
          exact (Alike.below (raising_alike (c := { c with stack := T }) (f := id) below t rfl)).congr
            (by simp only [thrown, alone, stack, id]) (by simp only [thrown, stack, id])
      | key table value =>
          exact (Alike.below (abandoningTable_alike (c := { c with stack := T }) top below t)).congr
            (by simp only [thrown, alone, stack]) (by simp only [thrown, stack])
      | value table key =>
          exact (Alike.below (abandoningTable_alike (c := { c with stack := T }) top below t)).congr
            (by simp only [thrown, alone, stack]) (by simp only [thrown, stack])
      | _ => exact ends.congr (by simp only [thrown, alone, stack]) (by simp only [thrown, stack])

theorem clientStep_alike (minds : c.world.Minds a) (within : c.Within a) {client : Client (Nat → ρ)}
    (keeps : client.KeepsTo a) : c.Alike a base (·.clientStep client) := by
  cases client with
  | done state items => exact done_alike minds within keeps items
  | throw t => exact thrown_alike within t
  | access update next =>
      have same := World.keeps_alone c.world base keeps
      have memory := congrArg Prod.fst same
      have goesOn := congrArg Prod.snd same
      dsimp only at memory goesOn
      refine ⟨?_, trivial, within.waits⟩
      have world : (c.alone a base).world = c.world.alone a base := rfl
      simp only [clientStep, world]
      rw [goesOn, memory]
      rfl
  | identity k => exact ⟨rfl, trivial, within.waits⟩
  | perform op k => exact ⟨rfl, keeps, waits_cons trivial within.waits⟩

/-! ### Operations -/

theorem readingFile_alike (within : c.Within a) (path : String)
    {k : ReadOutcome → Config (Nat → ρ) → Config (Nat → ρ)} (goesOn : ∀ o, c.Alike a base (k o)) :
    c.Alike a base (·.readingFile path k) := by
  have directory : (c.alone a base).world.directory = c.world.directory := rfl
  cases read : c.world.directory.read? path with
  | none =>
      have waiting : c.Alike a base fun c => { c with control := .lacking path c.control } :=
        ⟨rfl, within.control, within.waits⟩
      exact waiting.congr (by simp only [readingFile, directory, read]) (by simp only [readingFile, read])
  | some o =>
      exact (goesOn o).congr (by simp only [readingFile, directory, read])
        (by simp only [readingFile, read])

theorem encoding_alike {s : State} (here : s.session = a) (waits : ∀ f ∈ c.stack, f.Within a)
    (p : Primitive) : c.Alike a base (·.encoding s p) := by
  subst here
  unfold encoding
  split
  · exact ⟨rfl, trivial, waits⟩
  · exact requiring_alike rfl waits (succeeding_alike waits trivial)

theorem exposing_alike {s : State} (here : s.session = a) (waits : ∀ f ∈ c.stack, f.Within a)
    (name : String) (body : State → List Datum → Client (Nat → ρ)) :
    c.Alike a base (·.exposing s name body) := by
  subst here
  refine requiring_alike rfl waits (ending_alike (f := fun w =>
    (w.expose s.session name body).1.succeed s.session
      (.item (.value (w.expose s.session name body).2))) waits ?_ (succeed_within trivial))
  simp only [World.expose_alone, World.succeed_alone]

theorem lookingUp_alike (minds : c.world.Minds a) {s : State} (here : s.session = a)
    (waits : ∀ f ∈ c.stack, f.Within a) (keys : List String) (asReference : Bool) :
    c.Alike a base (·.lookingUp s keys asReference) := by
  refine requiring_alike here waits ?_
  split
  · subst here
    exact failing_alike minds waits _
  · exact enteringProgram_alike here waits _ _

theorem assignedValue_alone {item : Item} (within : item.datum.Within a) :
    (c.alone a base).assignedValue item = c.assignedValue item := by
  unfold assignedValue
  split
  all_goals first | rfl | skip
  next h held =>
    have slot : (c.alone a base).world.slotOf h = c.world.slotOf h :=
      c.world.slotOf_alone base (within h (by rw [held]; rfl))
    rw [slot]

theorem assigning_alike (minds : c.world.Minds a) {s : State} (here : s.session = a)
    (waits : ∀ f ∈ c.stack, f.Within a) (keys : List String) (item : Item) :
    c.Alike a base (·.assigning s keys item) := by
  subst here
  refine requiring_alike rfl waits ?_
  split
  · exact failing_alike minds waits _
  · refine claiming_alike waits fun within => ?_
    have value : (c.alone s.session base).assignedValue item = c.assignedValue item :=
      assignedValue_alone (within item (List.mem_singleton_self _))
    exact (enteringProgram_alike rfl waits (.assign keys) (Path.assign keys (c.assignedValue item))).congr
      (by simp only [value]) rfl

theorem load_within (w : World (Nat → ρ)) (chunk : Nat) : (w.load a chunk).2.Within a := by
  unfold World.load
  split
  · next w' o compiled => exact Outcome.within_of_not_ok a (w.compile_error compiled).1
  · exact succeed_within trivial

theorem loading_alike (minds : c.world.Minds a) {s : State} (here : s.session = a)
    (waits : ∀ f ∈ c.stack, f.Within a) (chunk : Chunk) : c.Alike a base (·.loading s chunk) := by
  subst here
  refine ending_alike (f := fun w => (w.addChunk chunk).1.load s.session (w.addChunk chunk).2) waits ?_
    (load_within _ _)
  exact (c.world.addChunk chunk).1.load_alone base minds _

theorem loadingFile_alike (minds : c.world.Minds a) {s : State} (here : s.session = a)
    (within : c.Within a) (path : String) : c.Alike a base (·.loadingFile s path) := by
  refine requiring_alike here within.waits (readingFile_alike within path fun o => ?_)
  cases o with
  | ok content => exact loading_alike minds here within.waits _
  | error e =>
      subst here
      exact failing_alike minds within.waits _

theorem runningChunk_alike (minds : c.world.Minds a) {s : State} (here : s.session = a)
    (waits : ∀ f ∈ c.stack, f.Within a) (chunk : Nat) : c.Alike a base (·.runningChunk s chunk) := by
  subst here
  refine requiring_alike rfl waits ?_
  have compiled : (c.alone s.session base).world.compile s.session chunk = _ :=
    c.world.compile_alone base minds chunk
  have minds' : (c.world.compile s.session chunk).1.Minds s.session :=
    minds.congr (congrArg Standing.callbacks (c.world.compile_standing s.session chunk))
  generalize result : c.world.compile s.session chunk = r at compiled minds'
  obtain ⟨w, o | slot⟩ := r
  · refine ⟨?_, ?_⟩
    · simp only [compiled, result]
      rfl
    · simp only [result]
      exact ⟨Outcome.within_of_not_ok _ (c.world.compile_error result).1, waits⟩
  · let opened := { c with world := w }.openingGate s
    have gate : { c.alone s.session base with world := w.alone s.session base }.openingGate s =
        opened.alone s.session base :=
      congrArg (fun world => { c with world }) (w.modifyMachine_alone base (·.enterGate))
    have machine : (opened.alone s.session base).world.machine s.session = opened.world.machine s.session :=
      opened.world.machine_alone base
    have applies : opened.Alike s.session base
        (·.applying s ((opened.world.machine s.session).slots.content slot) []) :=
      applying_alike (c := opened) (openingGate_minds minds') rfl waits _ (List.forall_mem_nil _)
    refine ⟨?_, ?_⟩
    · simp only [compiled, result, gate, machine]
      exact applies.same
    · simp only [result]
      exact applies.within

/-- An operation on a session concerns nothing but the session. -/
theorem perform_alike (minds : c.world.Minds a) (within : c.Within a) {op : Operation (Nat → ρ)}
    (concerns : op.Within a) : c.Alike a base (·.perform op) := by
  have waits := within.waits
  cases op with
  | init => exact concerns.elim
  | close s =>
      obtain rfl : s.session = a := concerns
      exact ending_alike (f := fun w => (w.close s.session, .ok none .nothing)) waits
        (congrArg (·, Outcome.ok none .nothing) (c.world.close_alone base)) (Outcome.within_none trivial)
  | encode s p => exact encoding_alike concerns waits p
  | encodeTable s entries =>
      have origin : (⟨s, [], entries⟩ : TableInProgress (Nat → ρ)).origin.session = a := concerns
      exact requiring_alike concerns waits (nextEntry_alike origin concerns waits)
  | expose s name body => exact exposing_alike concerns waits _ body
  | get s keys => exact lookingUp_alike minds concerns waits keys false
  | refGet s keys => exact lookingUp_alike minds concerns waits keys true
  | set s keys item => exact assigning_alike minds concerns waits keys item
  | load s source name => exact requiring_alike concerns waits (loading_alike minds concerns waits _)
  | loadFile s path => exact loadingFile_alike minds concerns within path
  | run s source name => exact ⟨rfl, concerns, waits_cons concerns waits⟩
  | runFile s path => exact ⟨rfl, concerns, waits_cons concerns waits⟩
  | runChunk s chunk => exact runningChunk_alike minds concerns waits chunk
  | releaseChunk s chunk =>
      obtain rfl : s.session = a := concerns
      exact ending_alike (f := fun w => (w.releaseChunk s.session chunk, .ok none .nothing)) waits
        (congrArg (·, Outcome.ok none .nothing) (c.world.releaseChunk_alone base chunk)) (Outcome.within_none trivial)
  | call s ref arguments =>
      obtain rfl : s.session = a := concerns
      exact requiring_alike rfl waits (claiming_alike waits fun items => calling_alike minds rfl waits items)
  | callByName s keys arguments => exact ⟨rfl, concerns, waits_cons concerns waits⟩
  | decode value decoder =>
      refine ending_alike (f := fun w => w.decode value decoder) waits
        (c.world.decode_alone base concerns decoder) ?_
      unfold World.decode
      split
      · exact Outcome.within_none trivial
      · trivial
      · trivial
  | release item =>
      exact ending_alike (f := fun w => (w.release item, .ok none .nothing)) waits
        (congrArg (·, Outcome.ok none .nothing) (c.world.release_alone base concerns)) (Outcome.within_none trivial)

/-! ### Outcomes -/

theorem ranCompiled_alike {origin : State} (here : origin.session = a) (waits : ∀ f ∈ c.stack, f.Within a)
    {o : Outcome} (concerns : o.Within a) : c.Alike a base (·.ranCompiled origin o) := by
  unfold ranCompiled
  split
  · have session := concerns.1 _ rfl
    exact ⟨rfl, session, waits_cons ⟨here, session⟩ waits⟩
  · exact ⟨rfl, concerns, waits⟩

theorem ran_alike {origin s : State} (here : origin.session = a ∧ s.session = a)
    (waits : ∀ f ∈ c.stack, f.Within a) (chunk : Nat) {o : Outcome} (concerns : o.Within a) :
    c.Alike a base (·.ran origin s chunk o) := by
  obtain ⟨origin', rfl⟩ := here
  unfold ran
  split
  · refine ending_alike (f := fun w => ((w.releaseChunk s.session chunk).restore origin, .err _)) waits ?_
      trivial
    simp only [World.releaseChunk_alone, World.restore_alone _ base origin']
  · exact ending_alike (f := fun w => (w.releaseChunk s.session chunk, o)) waits
      (congrArg (·, o) (c.world.releaseChunk_alone base chunk)) concerns

/-- Can a reference be called? -/
def isCallable (w : World (Nat → ρ)) (session : Nat) : Datum → Bool
  | .composite .function _ => true
  | d => w.hasCallMetamethod session d

theorem isCallable_alone {d : Datum} (within : d.Within a) :
    isCallable (c.world.alone a base) a d = isCallable c.world a d := by
  unfold isCallable
  split
  · rfl
  · exact c.world.hasCallMetamethod_alone base within

theorem resolved_alike (minds : c.world.Minds a) {s : State} (here : s.session = a)
    (waits : ∀ f ∈ c.stack, f.Within a) (keys : List String) (arguments : List Item) {o : Outcome}
    (concerns : o.Within a) : c.Alike a base (·.resolved s keys arguments o) := by
  subst here
  have handsOn : c.Alike s.session base fun c => { c with control := .outcome o } := ⟨rfl, concerns, waits⟩
  cases o with
  | ok state r =>
      cases r with
      | reference ref =>
          have within : ref.target.Within s.session := concerns.2
          have callable : isCallable (c.alone s.session base).world s.session ref.target =
              isCallable c.world s.session ref.target := isCallable_alone within
          cases decided : isCallable c.world s.session ref.target with
          | true =>
              have calls : c.Alike s.session base fun c =>
                  { c with control := .perform (.call s ref arguments), stack := .called ref :: c.stack } :=
                ⟨rfl, rfl, waits_cons within waits⟩
              exact calls.congr (if_pos (callable.trans decided)) (if_pos decided)
          | false =>
              let refuses (w : World (Nat → ρ)) : World (Nat → ρ) × Outcome :=
                let r := w.fail s.session (.undefinedPath keys (some ref.target.guestType))
                (r.1.release (.reference ref), r.2)
              have released : ∀ w : World (Nat → ρ), (w.alone s.session base).release (.reference ref) =
                  (w.release (.reference ref)).alone s.session base := fun w =>
                w.release_alone base within
              have ends : c.Alike s.session base fun c => c.ending (refuses c.world) := by
                refine ending_alike waits ?_ (fail_within _)
                simp only [refuses, c.world.fail_alone base minds, released]
              refine ends.congr (if_neg ?_) (if_neg ?_)
              · exact fun h => Bool.noConfusion ((callable.trans decided).symm.trans h)
              · exact fun h => Bool.noConfusion (decided.symm.trans h)
      | _ => exact handsOn
  | err => exact handsOn
  | threw => exact handsOn

theorem outcomeStep_alike (minds : c.world.Minds a) (within : c.Within a) {o : Outcome}
    (concerns : o.Within a) : c.Alike a base (·.outcomeStep o) := by
  have waits := within.waits
  have ends : c.Alike a base fun c => { c with control := .finished (.error (.value .undefined)) } :=
    ⟨rfl, trivial, waits⟩
  cases stack : c.stack with
  | nil => exact ends.congr (by simp only [outcomeStep, alone, stack]) (by simp only [outcomeStep, stack])
  | cons f T =>
      rw [stack] at waits
      have top := waits f List.mem_cons_self
      have below : ∀ f ∈ T, f.Within a := fun f mem => waits f (List.mem_cons_of_mem _ mem)
      cases f with
      | perform k =>
          have goesOn : { c with stack := T }.Alike a base fun c => { c with control := .client (k o) } :=
            ⟨rfl, trivial, below⟩
          exact (Alike.below goesOn).congr (by simp only [outcomeStep, alone, stack])
            (by simp only [outcomeStep, stack])
      | compiled origin =>
          exact (Alike.below (ranCompiled_alike (c := { c with stack := T }) top below concerns)).congr
            (by simp only [outcomeStep, alone, stack]) (by simp only [outcomeStep, stack])
      | ran origin s chunk =>
          exact (Alike.below (ran_alike (c := { c with stack := T }) top below chunk concerns)).congr
            (by simp only [outcomeStep, alone, stack]) (by simp only [outcomeStep, stack])
      | resolved s keys arguments =>
          exact (Alike.below (resolved_alike (c := { c with stack := T }) minds top below keys arguments
            concerns)).congr (by simp only [outcomeStep, alone, stack]) (by simp only [outcomeStep, stack])
      | called ref =>
          have released : { c with stack := T }.Alike a base fun c =>
              c.ending (c.world.release (.reference ref), o) :=
            ending_alike (f := fun w => (w.release (.reference ref), o)) below
              (congrArg (·, o) (c.world.release_alone base top)) concerns
          exact (Alike.below released).congr (by simp only [outcomeStep, alone, stack])
            (by simp only [outcomeStep, stack])
      | _ => exact ends.congr (by simp only [outcomeStep, alone, stack]) (by simp only [outcomeStep, stack])

/-! ### Guest machines -/

theorem logging_alike (minds : c.world.Minds a) (within : c.Within a) (line : String) :
    c.Alike a base (·.logging a line) := by
  have callback : (c.alone a base).world.callback a (fun callbacks => some callbacks.onLog) =
      c.world.callback a (fun callbacks => some callbacks.onLog) := c.world.callback_alone base _
  have keeps : ∀ hook, c.world.callback a (fun callbacks => some callbacks.onLog) = some hook →
      ∀ event, KeepsTo a (hook event) :=
    World.callback_keeps minds fun _ kept _ given => Option.some.inj given ▸ kept.onLog
  have told : (c.alone a base).world.notify _ line = _ := c.world.notify_alone base keeps line
  generalize notified : c.world.notify (c.world.callback a fun callbacks => some callbacks.onLog) line = r
    at told
  obtain ⟨w, thrown⟩ := r
  cases thrown with
  | some t =>
      refine ⟨?_, ?_⟩
      · simp only [logging, callback, told, notified, raising, World.raiseInGuest_alone]
        rfl
      · simp only [logging, notified]
        exact ⟨rfl, within.waits⟩
  | none =>
      refine ⟨?_, ?_⟩
      · simp only [logging, callback, told, notified, World.modifyMachine_alone]
        rfl
      · simp only [logging, notified]
        exact ⟨within.control, within.waits⟩

theorem readingForGuest_alike (within : c.Within a) (path : String) :
    c.Alike a base (·.readingForGuest a path) := by
  refine readingFile_alike within path fun o => ⟨?_, within.control, within.waits⟩
  exact congrArg (fun world => { c with world }) (c.world.modifyMachine_alone base _)

theorem guestEnded_alike (minds : c.world.Minds a) (within : c.Within a) (signal : Guest.Signal) :
    c.Alike a base (·.guestEnded signal) := by
  have waits := within.waits
  have ends : c.Alike a base fun c => { c with control := .finished (.error (.value .undefined)) } :=
    ⟨rfl, trivial, waits⟩
  cases stack : c.stack with
  | nil => exact ends.congr (by simp only [guestEnded, alone, stack]) (by simp only [guestEnded, stack])
  | cons f T =>
      rw [stack] at waits
      have top := waits f List.mem_cons_self
      have below : ∀ f ∈ T, f.Within a := fun f mem => waits f (List.mem_cons_of_mem _ mem)
      cases f with
      | guest entry purpose =>
          exact (leaving_alike minds top below within.control purpose signal).congr
            (by simp only [guestEnded, alone, stack]) (by simp only [guestEnded, stack])
      | _ => exact ends.congr (by simp only [guestEnded, alone, stack]) (by simp only [guestEnded, stack])

theorem heeding_alike (minds : c.world.Minds a) (within : c.Within a) (signal : Option Guest.Signal) :
    c.Alike a base (·.heeding a signal) := by
  cases signal with
  | none => exact ⟨rfl, within⟩
  | some signal =>
      cases signal with
      | hostCall index values => exact invoking_alike minds within.waits index values
      | log line => exact logging_alike minds within line
      | readFile path => exact readingForGuest_alike within _
      | finished => exact guestEnded_alike minds within _
      | failed => exact guestEnded_alike minds within _

theorem guestStep_alike (minds : c.world.Minds a) (within : c.Within a) :
    c.Alike a base (·.guestStep a) := by
  let ran (w : World (Nat → ρ)) := w.modifyMachine a (·.run portion)
  let after : Config (Nat → ρ) := { c with world := ran c.world }
  have minds' : after.world.Minds a :=
    minds.congr (congrArg Standing.callbacks (World.modifyMachine_standing _ _ _))
  have world : ran (c.world.alone a base) = (ran c.world).alone a base := c.world.modifyMachine_alone base _
  have machine : (ran (c.world.alone a base)).machine a = (ran c.world).machine a := by
    rw [world, World.machine_alone]
  have heeds : c.Alike a base fun c' => { c' with world := ran c'.world }.heeding a
      ((ran c.world).machine a).signal :=
    Alike.after (f := ran) (heeding_alike (c := after) minds' ⟨within.control, within.waits⟩ _) world
  refine heeds.congr ?_ rfl
  rw [← machine]
  rfl

/-- Every step for a session is the same if other sessions have something else, and what is left to do concerns
the session again. -/
theorem step_alike (confined : c.Confined a) (within : c.Within a) : c.Alike a base step := by
  have concerned := within.control
  have kept : ∀ next, c.control = next → (c.alone a base).control = next := fun _ h => h
  cases control : c.control with
  | client client =>
      exact (clientStep_alike confined.minds within (confined.client _ control)).congr
        (by simp only [step, kept _ control]) (by simp only [step, control])
  | perform op =>
      rw [control] at concerned
      exact (perform_alike confined.minds within concerned).congr
        (by simp only [step, kept _ control]) (by simp only [step, control])
  | outcome o =>
      rw [control] at concerned
      exact (outcomeStep_alike confined.minds within concerned).congr
        (by simp only [step, kept _ control]) (by simp only [step, control])
  | guest session =>
      rw [control] at concerned
      obtain rfl : session = a := concerned
      exact (guestStep_alike confined.minds within).congr
        (by simp only [step, kept _ control]) (by simp only [step, control])
  | lacking path next =>
      have directory : (c.alone a base).world.directory = c.world.directory := rfl
      have stays : c.Alike a base id := ⟨rfl, within⟩
      rw [control] at concerned
      have goesOn : c.Alike a base fun c => { c with control := next } := ⟨rfl, concerned, within.waits⟩
      cases read : c.world.directory.read? path with
      | none =>
          exact stays.congr (by simp only [step, kept _ control, directory, read, id])
            (by simp only [step, control, read, id])
      | some =>
          exact goesOn.congr (by simp only [step, kept _ control, directory, read])
            (by simp only [step, control, read])
  | finished r =>
      have stays : c.Alike a base id := ⟨rfl, within⟩
      exact stays.congr (by simp only [step, kept _ control, id]) (by simp only [step, control, id])

end Config
end LuaHost
