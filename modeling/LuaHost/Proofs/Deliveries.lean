import LuaHost.Proofs.Encoders
import LuaHost.Proofs.GuestSlots
/-!
What the guest is handed. A call, a table, and a host function that returns look at the handles in the
step in which they hand the objects over, so that the guest receives what the handles were made for, or
nothing. An assignment looks at the handle first and then walks along its path, on which guest code may
run; the object is read from its slot at the end of the walk.
-/

namespace LuaHost

variable {σ : Type}

/-- The guest value that a host value was made for. -/
def Made.meant? (made : Made) : Datum → Option Guest.Value
  | .nil => some .nil
  | .bool b => some (.bool b)
  | .int n => if Guest.fitsInt32 n then some (.int (Int32.ofInt n)) else none
  | .float x => some (.float x)
  | .string s => some (Guest.ofText s)
  | .composite _ h => some (made (.handle h))

/-- Guest values are just those that host values were made for, one by one. -/
def Made.Hands (made : Made) (items : List Item) (values : List Guest.Value) : Prop :=
  List.Forall₂ (fun item v => made.meant? item.datum = some v) items values

/-- Whatever objects are among host values, they have been given to the host. -/
def World.Owns (w : World σ) (items : List Item) : Prop :=
  ∀ item ∈ items, ∀ h, item.datum.handle? = some h → w.Knows h

/-- They are objects of this session. -/
def Belong (session : Nat) (items : List Item) : Prop :=
  ∀ item ∈ items, ∀ h, item.datum.handle? = some h → h.session = session

/-- One of the handles has been given back. -/
def World.Lost (w : World σ) (items : List Item) : Prop :=
  ∃ item ∈ items, ∃ h, item.datum.handle? = some h ∧ (w.ledger h.session).isReleased h.index = true

namespace World
variable {w : World σ} {made : Made} {session : Nat} {items : List Item}

/-- A handle that is in the account of its session holds its slot until it is given back. -/
theorem Knows.slot? {h : Handle} (knows : w.Knows h)
    (unreleased : (w.ledger h.session).isReleased h.index = false) :
    w.slot? (.handle h) = some (w.slotOf h) := by
  have found : (w.ledger h.session).handles[h.index]? = some (w.ledger h.session).handles[h.index] :=
    Array.getElem?_eq_getElem knows
  have kept : (w.ledger h.session).slot? h.index = some (w.slotOf h) := by
    simp only [Ledger.isReleased, found] at unreleased
    simp only [Ledger.slot?, slotOf, found, unreleased]
    rfl
  exact kept

/-- The handle of a value that is not refused is one of the session, and has not been given back. -/
theorem of_itemViolation?_eq_none {item : Item} {h : Handle}
    (accepted : (w.ledger session).itemViolation? session item = none)
    (handle : item.datum.handle? = some h) :
    h.session = session ∧ (w.ledger h.session).isReleased h.index = false := by
  cases held : item.datum with
  | nil | bool | int | float | string => simp [held, Datum.handle?] at handle
  | composite kind h' =>
      obtain rfl : h' = h := by simpa [held, Datum.handle?] using handle
      simp only [Ledger.itemViolation?, held] at accepted
      split at accepted
      · cases accepted
      · next same =>
          obtain rfl : h'.session = session := by simpa using same
          exact ⟨rfl, by simpa using accepted⟩

/-- What is handed over for a value that is not refused is what it was made for. -/
theorem Sound.give? (sound : w.Sound made) {item : Item} (owned : w.Owns [item])
    (accepted : (w.ledger session).itemViolation? session item = none) :
    w.give? session item.datum = made.meant? item.datum := by
  cases held : item.datum with
  | nil | bool | int | float | string => rfl
  | composite kind h =>
      have knows := owned item (List.mem_singleton_self _) h (by rw [held]; rfl)
      obtain ⟨rfl, unreleased⟩ := of_itemViolation?_eq_none accepted (by rw [held]; rfl)
      exact give_of_denoted kind (sound.denoted (knows.slot? unreleased))

/-- A claim succeeds if the session is open and none of the values is refused. -/
theorem claimViolation?_eq_none {l : Ledger} :
    l.claimViolation? session items = none ↔
      l.closed = false ∧ ∀ item ∈ items, l.itemViolation? session item = none := by
  rw [Ledger.claimViolation?]
  split
  · next closed => simp [closed]
  · next opened => simp [opened, List.findSome?_eq_none_iff]

/-- A claim that meets handles of its session only fails if one of them has been given back. -/
theorem claim_lost (belong : Belong session items) (opened : (w.ledger session).closed = false)
    (lost : w.Lost items) : ∃ kind, (w.ledger session).claimViolation? session items =
      some (.lineage .released [("kind", .string kind)]) := by
  cases claimed : (w.ledger session).claimViolation? session items with
  | none =>
      obtain ⟨item, mem, h, handle, released⟩ := lost
      have accepted := (claimViolation?_eq_none.mp claimed).2 item mem
      obtain rfl := belong item mem h handle
      cases held : item.datum with
      | nil | bool | int | float | string => simp [held, Datum.handle?] at handle
      | composite kind h' =>
          obtain rfl : h' = h := by simpa [held, Datum.handle?] using handle
          simp [Ledger.itemViolation?, held, released] at accepted
  | some fault =>
      simp only [Ledger.claimViolation?, opened, Bool.false_eq_true, if_false] at claimed
      obtain ⟨item, mem, refused⟩ := List.exists_of_findSome?_eq_some claimed
      cases held : item.datum with
      | nil | bool | int | float | string => simp [Ledger.itemViolation?, held] at refused
      | composite kind h =>
          obtain rfl := belong item mem h (by rw [held]; rfl)
          simp only [Ledger.itemViolation?, held, bne_self_eq_false, Bool.false_eq_true, if_false,
            Option.ite_none_right_eq_some, Option.some.injEq] at refused
          exact ⟨kind.name, by rw [← refused.2]⟩

theorem all_some {α : Type} {xs : List (Option α)}
    (whole : ((xs.takeWhile Option.isSome).filterMap id).length = xs.length) :
    ((xs.takeWhile Option.isSome).filterMap id).map some = xs := by
  induction xs with
  | nil => rfl
  | cons x rest ih =>
      cases x with
      | none => simp at whole
      | some a =>
          simp only [List.takeWhile_cons, Option.isSome_some, if_true, List.filterMap_cons, id,
            List.length_cons, Nat.add_right_cancel_iff, List.map_cons] at whole ⊢
          exact congrArg (some a :: ·) (ih whole)

theorem giveAll_error {given : List Guest.Value} (gave : w.giveAll session items = .error given) :
    ∃ item ∈ items, w.give? session item.datum = none := by
  by_contra all
  have some : ∀ item ∈ items, w.give? session item.datum =
      some ((w.give? session item.datum).getD .nil) := by
    intro item mem
    cases found : w.give? session item.datum with
    | none => exact absurd ⟨item, mem, found⟩ all
    | some v => rfl
  have ok := giveAll_ok (List.forall₂_map_right_iff.mpr (List.forall₂_same.mpr some))
  exact nomatch gave.symm.trans ok

/-- What is handed over after a claim is what the values were made for. -/
theorem Sound.giveAll (sound : w.Sound made) (owned : w.Owns items)
    (claimed : (w.ledger session).claimViolation? session items = none) {values : List Guest.Value}
    (given : w.giveAll session items = .ok values) : made.Hands items values := by
  simp only [World.giveAll] at given
  split at given
  · next whole =>
      rw [beq_iff_eq] at whole
      have same := all_some whole
      rw [Except.ok.inj given] at same
      have accepted := (claimViolation?_eq_none.mp claimed).2
      clear whole given claimed
      induction items generalizing values with
      | nil =>
          obtain rfl := List.map_eq_nil_iff.mp same
          exact .nil
      | cons item rest ih =>
          cases values with
          | nil => cases same
          | cons v values =>
              obtain ⟨here, others⟩ := List.cons.inj same
              refine .cons ?_ (ih (fun i mem => owned i (List.mem_cons_of_mem _ mem)) others
                fun i mem => accepted i (List.mem_cons_of_mem _ mem))
              rw [← sound.give? (fun i mem => owned i (by simp_all)) (accepted item (by simp)), here]
  · cases given

end World

theorem World.modifyMachine_twice (w : World σ) (session : Nat) (f g : Guest.Machine → Guest.Machine) :
    (w.modifyMachine session f).modifyMachine session g = w.modifyMachine session fun m => g (f m) := by
  simp only [modifyMachine, World.mk.injEq, true_and, and_true]
  apply Array.ext
  · simp
  · intro i _ _
    simp only [Array.getElem_modify]
    split <;> rfl

namespace Config
variable {c d : Config σ} {made : Made} {stack : List (Pending σ)}

/-- What is thrown when a handle has been given back. -/
def Reported (t : Thrown) : Prop :=
  ∃ identity kind, t = .failure identity (.lineage .released [("kind", .string kind)])

/-- An operation whose state is accepted throws if the handle of one of its values has been given back. -/
def Refuses (c : Config σ) (s : State) (items : List Item) : Prop :=
  c.world.stateViolation? s = none → Belong s.session items → c.world.Lost items →
    ∃ t, c.step.control = .outcome (.threw t) ∧ Reported t

/-- An operation ends without success. -/
def Fails (c : Config σ) : Prop := ∃ o, c.control = .outcome o ∧ ¬ o.IsOk

theorem throwing_fails (c : Config σ) (fault : Fault) : (c.throwing fault).Fails := ⟨_, rfl, id⟩

theorem abandoning_fails (c : Config σ) (s : State) (t : Thrown) : (c.abandoning s t).Fails :=
  ⟨_, rfl, World.failUnexpected_not_ok _ s.session t⟩

/-- A call that does not fail at once has handed a function and its arguments over. -/
theorem calling_handed (c : Config σ) (s : State) (f : Item) (arguments : List Item) :
    (c.calling s f arguments).Fails ∨ ∃ v values,
      (c.openingGate s).world.give? s.session f.datum = some v ∧
      (c.openingGate s).world.giveAll s.session arguments = .ok values ∧
      c.calling s f arguments = c.entering s .values
        (c.world.modifyMachine s.session fun m => m.enterGate.callFromHost v values) := by
  cases given : (c.openingGate s).world.give? s.session f.datum with
  | none =>
      left
      simp only [calling, given]
      exact abandoning_fails _ _ _
  | some v =>
      have goesOn : c.calling s f arguments = (c.openingGate s).applying s v arguments := by
        simp only [calling, given]
      rw [goesOn]
      by_cases room : ((c.openingGate s).world.machine s.session).hasRoom arguments.length = true
      · cases gave : (c.openingGate s).world.giveAll s.session arguments with
        | error given =>
            left
            simp only [applying, room, gave, if_true]
            exact abandoning_fails _ _ _
        | ok values =>
            right
            have entered : (c.openingGate s).applying s v arguments =
                (c.openingGate s).entering s .values ((c.openingGate s).world.modifyMachine s.session
                  fun m => m.callFromHost v values) := by
              simp only [applying, room, gave, if_true]
            refine ⟨v, values, rfl, rfl, ?_⟩
            rw [entered, openingGate, World.modifyMachine_twice]
            rfl
      · left
        simp only [applying, if_neg room]
        exact abandoning_fails _ _ _

/-- A call fails, or what its values were made for is called and handed over. -/
def Calls (c : Config σ) (made : Made) (s : State) (ref : Reference) (arguments : List Item) : Prop :=
  c.step.Fails ∨ ∃ f values, made.Hands (.reference ref :: arguments) (f :: values) ∧
    c.step = c.entering s .values
      (c.world.modifyMachine s.session fun m => m.enterGate.callFromHost f values)

theorem Recorded.call (recorded : Recorded c made) {s : State} {ref : Reference}
    {arguments : List Item} (control : c.control = .perform (.call s ref arguments))
    (owned : c.world.Owns (.reference ref :: arguments)) :
    c.Refuses s (.reference ref :: arguments) ∧ c.Calls made s ref arguments := by
  have step : c.step = c.requiring s fun c =>
      c.claiming s.session (.reference ref :: arguments) fun c => c.calling s (.reference ref) arguments := by
    simp only [Config.step, control, perform]
  refine ⟨?_, ?_⟩
  · intro accepted belong lost
    have opened : (c.world.ledger s.session).closed = false := by
      rw [World.closed_eq]
      exact ((c.world.stateViolation?_eq_none s).mp accepted).1
    obtain ⟨kind, claimed⟩ := World.claim_lost belong opened lost
    simp only [step, requiring, accepted, claiming, claimed]
    exact ⟨_, rfl, _, kind, rfl⟩
  · rw [Calls, step]
    rcases c.requiring_cases s _ with ⟨-, fault, refused⟩ | ⟨-, goesOn⟩
    · rw [refused]
      exact .inl (c.throwing_fails fault)
    rw [goesOn]
    cases claimed : (c.world.ledger s.session).claimViolation? s.session (.reference ref :: arguments) with
    | some fault =>
        simp only [claiming, claimed]
        exact .inl (c.throwing_fails fault)
    | none =>
        simp only [claiming, claimed]
        refine (c.calling_handed s (.reference ref) arguments).imp id ?_
        rintro ⟨f, values, function, given, entered⟩
        obtain ⟨opened, accepted⟩ := World.claimViolation?_eq_none.mp claimed
        have sound := recorded.sound.same (c.openingGate_holdings s)
        refine ⟨f, values, .cons ?_ ?_, entered⟩
        · rw [← function]
          exact (sound.give? (fun i mem => owned i (by simp_all)) (accepted _ List.mem_cons_self)).symm
        · exact sound.giveAll (fun i mem => owned i (List.mem_cons_of_mem _ mem))
            (World.claimViolation?_eq_none.mpr
              ⟨opened, fun i mem => accepted i (List.mem_cons_of_mem _ mem)⟩) given

theorem claimed_of_returnViolation? {session : Nat} {state : State} {items : List Item}
    (accepted : c.returnViolation? session state items = none) :
    (c.world.ledger session).claimViolation? session items = none := by
  rw [returnViolation?] at accepted
  split at accepted
  · exact nomatch accepted
  · split at accepted
    · exact nomatch accepted
    · exact accepted

/-- What a host function that returns makes of the guest: the guest receives what the values were made
for, or there is a number without a guest value among them, or something is raised. -/
inductive Returns (c : Config σ) (made : Made) (session : Nat) (items : List Item)
    (stack : List (Pending σ)) : Config σ → Prop
  | values {w : World σ} {values : List Guest.Value} (hands : made.Hands items values)
      (same : w.vms = c.world.vms) :
      Returns c made session items stack
        ⟨w.modifyMachine session (·.answer values), .guest session, stack⟩
  | breaks {w : World σ} {given : List Guest.Value} {item : Item} (mem : item ∈ items)
      (none : made.meant? item.datum = none) :
      Returns c made session items stack
        ⟨w.modifyMachine session (·.breakDown given), .guest session, stack⟩
  | raises (w : World σ) (t : Thrown) :
      Returns c made session items stack ⟨w.raiseInGuest session t, .guest session, stack⟩

theorem notify_vms {ε : Type} (w : World σ) (hook : Option (Hook σ ε)) (event : ε) :
    (w.notify hook event).1.vms = w.vms ∧ (w.notify hook event).1.ledgers = w.ledgers := by
  cases hook with
  | none => exact ⟨rfl, rfl⟩
  | some hook => exact ⟨rfl, rfl⟩

/-- A host function that returns hands over what its values were made for, and fails in the guest if a
handle has been given back. -/
theorem Recorded.returns (recorded : Recorded c made) {state : State} {items : List Item}
    {session : Nat} {name : String} {stack : List (Pending σ)}
    (control : c.control = .client (.done state items)) (waits : c.stack = .body session name :: stack)
    (owned : c.world.Owns items) :
    (state.session = session → c.world.stateViolation? state = none → Belong session items →
      c.world.Lost items →
      ∃ (w : World σ) (t : Thrown),
        c.step = ⟨w.raiseInGuest session t, .guest session, stack⟩ ∧ Reported t) ∧
    Returns c made session items stack c.step := by
  have step : c.step = ({ c with stack } : Config σ).answering session name state items := by
    simp only [Config.step, control, clientStep, done, waits]
  rw [step]
  refine ⟨?_, ?_⟩
  · rintro rfl accepted belong lost
    have opened : (c.world.ledger state.session).closed = false := by
      rw [World.closed_eq]
      exact ((c.world.stateViolation?_eq_none state).mp accepted).1
    obtain ⟨kind, claimed⟩ := World.claim_lost belong opened lost
    have refused : returnViolation? { c with stack } state.session state items =
        some (.lineage .released [("kind", .string kind)]) := by
      simp only [returnViolation?, bne_self_eq_false, Bool.false_eq_true, if_false, accepted, claimed]
    simp only [answering, refused]
    exact ⟨_, _, rfl, _, kind, rfl⟩
  · cases refused : returnViolation? { c with stack } session state items with
    | some fault =>
        simp only [answering, refused]
        exact .raises _ _
    | none =>
        simp only [answering, refused]
        split
        · obtain ⟨vms, ledgers⟩ := notify_vms c.world
            (c.world.callback session (·.onHostReturn)) ⟨name, items⟩
          have claimed := claimed_of_returnViolation? refused
          generalize notified : c.world.notify (c.world.callback session (·.onHostReturn))
            ⟨name, items⟩ = told at vms ledgers
          obtain ⟨w, none | t⟩ := told
          · have sound : w.Sound made := recorded.sound.same (by rw [World.holdings, vms, ledgers]; rfl)
            have owned : w.Owns items := by
              intro item mem h handle
              have known := owned item mem h handle
              rwa [World.Knows, World.ledger, ← ledgers] at known
            have claimed : (w.ledger session).claimViolation? session items = none := by
              rwa [World.ledger, ← ledgers] at claimed
            simp only
            cases gave : w.giveAll session items with
            | ok values => exact .values (sound.giveAll owned claimed gave) vms
            | error given =>
                obtain ⟨item, mem, none⟩ := World.giveAll_error gave
                refine .breaks mem ?_
                rw [← sound.give? (fun i mem' => owned i (List.mem_singleton.mp mem' ▸ mem))
                  ((World.claimViolation?_eq_none.mp claimed).2 item mem), none]
          · exact .raises _ _
        · exact .raises _ _

theorem fst_mem_entryItems {entries : List (Item × Item)} {item : Item}
    (mem : item ∈ entries.map (·.1)) : item ∈ entryItems entries := by
  obtain ⟨e, entry, rfl⟩ := List.mem_map.mp mem
  exact List.mem_flatMap.mpr ⟨e, entry, by simp⟩

theorem snd_mem_entryItems {entries : List (Item × Item)} {item : Item}
    (mem : item ∈ entries.map (·.2)) : item ∈ entryItems entries := by
  obtain ⟨e, entry, rfl⟩ := List.mem_map.mp mem
  exact List.mem_flatMap.mpr ⟨e, entry, by simp⟩

/-- A table that is made has been handed all its keys and values. -/
theorem building_handed {table : TableInProgress σ} {last : State} {given : Option State} {r : Result}
    (gave : (c.building table last).control = .outcome (.ok given r)) :
    ∃ keys values, c.world.stateViolation? last = none ∧
      (c.world.ledger last.session).claimViolation? last.session (entryItems table.done.reverse) = none ∧
      c.world.giveAll last.session (table.done.reverse.map (·.1)) = .ok keys ∧
      c.world.giveAll last.session (table.done.reverse.map (·.2)) = .ok values := by
  cases accepted : c.world.stateViolation? last with
  | some fault =>
      simp only [building, accepted] at gave
      cases gave
  | none =>
      simp only [building, accepted] at gave
      cases claimed : (c.world.ledger last.session).claimViolation? last.session
          (entryItems table.done.reverse) with
      | some fault =>
          rw [show (c.world.ledger last.session).claimViolation? last.session
            (table.done.reverse.flatMap _) = some fault from claimed] at gave
          cases gave
      | none =>
          rw [show (c.world.ledger last.session).claimViolation? last.session
            (table.done.reverse.flatMap _) = none from claimed] at gave
          simp only at gave
          cases keys : c.world.giveAll last.session (table.done.reverse.map (·.1)) with
          | error e =>
              simp only [keys] at gave
              cases gave
          | ok ks =>
              cases values : c.world.giveAll last.session (table.done.reverse.map (·.2)) with
              | error e =>
                  simp only [keys, values] at gave
                  cases gave
              | ok vs => exact ⟨ks, vs, rfl, rfl, rfl, rfl⟩

/-- A table that is made is one of what its keys and values were made for. -/
def Builds (c : Config σ) (made : Made) (session : Nat) (entries : List (Item × Item)) : Prop :=
  ∀ given r, c.step.control = .outcome (.ok given r) → ∃ keys values d v,
    made.Hands (entries.map (·.1)) keys ∧ made.Hands (entries.map (·.2)) values ∧
      r = .item (.value d) ∧ c.step.world.give? session d = some v ∧
      ∃ id serial, v = .table id ∧
        (c.step.world.machine session).store.table id = { tableOf (keys.zip values) with serial }

theorem Recorded.builds (recorded : Recorded c made) {table : TableInProgress σ} {last : State}
    (builds : c.step = Config.building { c with stack } table last)
    (owned : c.world.Owns (entryItems table.done.reverse)) :
    c.Refuses last (entryItems table.done.reverse) ∧
      c.Builds made last.session table.done.reverse := by
  refine ⟨?_, ?_⟩
  · intro accepted belong lost
    have opened : (c.world.ledger last.session).closed = false := by
      rw [World.closed_eq]
      exact ((c.world.stateViolation?_eq_none last).mp accepted).1
    obtain ⟨kind, claimed⟩ := World.claim_lost belong opened lost
    have claimed : (c.world.ledger last.session).claimViolation? last.session
        (table.done.reverse.flatMap fun e => [e.1, e.2]) = _ := claimed
    simp only [builds, building, accepted]
    rw [claimed]
    exact ⟨_, rfl, _, kind, rfl⟩
  · intro given r gave
    rw [builds] at gave ⊢
    obtain ⟨keys, values, accepted, claimed, ks, vs⟩ := building_handed gave
    obtain ⟨opened, each⟩ := World.claimViolation?_eq_none.mp claimed
    have hands : ∀ items values, (∀ item ∈ items, item ∈ entryItems table.done.reverse) →
        c.world.giveAll last.session items = .ok values → made.Hands items values :=
      fun items values sub ok => recorded.sound.giveAll (fun item mem => owned item (sub item mem))
        (World.claimViolation?_eq_none.mpr ⟨opened, fun item mem => each item (sub item mem)⟩) ok
    obtain ⟨w, s', d, id, serial, makes, -, stands, -, -, found⟩ :=
      building_made (c := { c with stack }) ⟨made, recorded.sound⟩
        ((c.world.stateViolation?_eq_none last).mp accepted) claimed ks vs
    rw [makes] at gave ⊢
    obtain ⟨rfl, rfl⟩ := Outcome.ok.inj (Control.outcome.inj gave)
    exact ⟨keys, values, d, _, hands _ _ (fun item => fst_mem_entryItems) ks,
      hands _ _ (fun item => snd_mem_entryItems) vs, rfl, stands.given, id, serial, rfl, found⟩

/-! ### Assignments -/

/-- The guest is about to look into a slot, and goes on with what it finds there. -/
structure Looks (m : Guest.Machine) (n : Guest.NativeCall) (slot : Nat) (k : Guest.Value → Guest.Program) :
    Prop where
  goesOn : m.signal = none
  frame : m.frame = .native n
  asks : n.activity = .running (.slot slot k)

theorem Looks.step {m : Guest.Machine} {n : Guest.NativeCall} {slot : Nat}
    {k : Guest.Value → Guest.Program} (looks : Looks m n slot k) :
    m.step = m.become n (.running (k (m.slots.content slot))) := by
  simp only [Guest.Machine.step, looks.goesOn, looks.frame, looks.asks, Guest.Machine.request]

/-- An assignment that does not fail at once has its walk run by the guest. -/
theorem assigning_handed (c : Config σ) (s : State) (keys : List String) (item : Item) :
    (c.assigning s keys item).Fails ∨
      (c.world.ledger s.session).claimViolation? s.session [item] = none ∧
      c.assigning s keys item =
        c.enteringProgram s (.assign keys) (Path.assign keys (c.assignedValue item)) := by
  rw [assigning]
  rcases c.requiring_cases s _ with ⟨-, fault, refused⟩ | ⟨-, goesOn⟩
  · rw [refused]
    exact .inl (c.throwing_fails fault)
  rw [goesOn]
  by_cases none : keys.isEmpty = true
  · rw [if_pos none]
    exact .inl ⟨_, rfl, c.world.fail_not_ok s.session .invalidPath⟩
  rw [if_neg none]
  cases claimed : (c.world.ledger s.session).claimViolation? s.session [item] with
  | some fault =>
      simp only [claiming, claimed]
      exact .inl (c.throwing_fails fault)
  | none =>
      right
      simp only [claiming, claimed, and_self]

theorem assignedValue_plain {item : Item} {v : Guest.Value} (plain : item.datum.handle? = none)
    (meant : made.meant? item.datum = some v) : c.assignedValue item = pure v := by
  rw [assignedValue]
  cases held : item.datum with
  | composite kind h => simp [held, Datum.handle?] at plain
  | int n =>
      rw [held, Made.meant?] at meant
      split at meant
      · next fits =>
          obtain rfl := Option.some.inj meant
          exact if_pos fits
      · exact nomatch meant
  | nil | bool | float | string =>
      rw [held] at meant
      obtain rfl := Option.some.inj meant
      rfl

theorem assignedValue_handle {item : Item} {h : Handle} (handle : item.datum.handle? = some h) :
    c.assignedValue item = slotContent (c.world.slotOf h) := by
  rw [assignedValue]
  cases held : item.datum with
  | composite kind h' =>
      obtain rfl : h' = h := by simpa [held, Datum.handle?] using handle
      rfl
  | nil | bool | int | float | string => simp [held, Datum.handle?] at handle

/-- What the guest finds where it looks for the object of a handle: the object, as long as the handle has
not been given back, and otherwise that of whoever has the slot by then. -/
def Finds (c : Config σ) (made : Made) (session : Nat) (h : Handle) (d : Config σ) : Prop :=
  ∃ made', Recorded d made' ∧ made' (.handle h) = made (.handle h) ∧
    ∀ i n k, Looks ((d.world.machine session).run i) n (c.world.slotOf h) k → ∃ v,
      ((d.world.machine session).run i).step =
        ((d.world.machine session).run i).become n (.running (k v)) ∧
      ((d.world.ledger session).isReleased h.index = false → v = made (.handle h)) ∧
      ∀ y, y.session = session → d.world.slot? y = some (c.world.slotOf h) → v = made' y

theorem Recorded.finds {T : List (Pending σ)} (recorded : Recorded c made) (run : Run T c d)
    {h : Handle} (knows : c.world.Knows h)
    (unreleased : (c.world.ledger h.session).isReleased h.index = false) :
    c.Finds made h.session h d := by
  obtain ⟨made', recorded', kept⟩ := recorded.run run
  obtain ⟨same, knows', slots⟩ := kept h knows
  have holds : ∀ y, y.session = h.session → d.world.slot? y = some (c.world.slotOf h) →
      (d.world.slots h.session).content (c.world.slotOf h) = made' y := by
    intro y session held
    have kept := recorded'.sound.kept y _ held
    rw [session] at kept
    exact Guest.Slots.content_of_get? kept
  refine ⟨made', recorded', same, ?_⟩
  intro i n k looks
  have found := looks.step
  rw [Guest.Machine.run_slots] at found
  refine ⟨_, found, ?_, holds⟩
  intro unreleased'
  have here : d.world.slot? (.handle h) = some (c.world.slotOf h) := by
    rcases slots with unmoved | gone
    · exact unmoved.trans (knows.slot? unreleased)
    · exact nomatch gone.symm.trans (knows'.slot? unreleased')
  exact (holds _ rfl here).trans same

/-- An assignment fails, or the guest walks along its path and looks for its value at the end of it. -/
def Assigns (c : Config σ) (made : Made) (s : State) (keys : List String) (item : Item) : Prop :=
  c.step.Fails ∨
    c.step = c.enteringProgram s (.assign keys) (Path.assign keys (c.assignedValue item)) ∧
    (∀ v, item.datum.handle? = none → made.meant? item.datum = some v →
      c.assignedValue item = pure v) ∧
    ∀ h, item.datum.handle? = some h → c.assignedValue item = slotContent (c.world.slotOf h) ∧
      ∀ d, Run c.step.stack c.step d → c.Finds made s.session h d

theorem Recorded.assigns (recorded : Recorded c made) {s : State} {keys : List String} {item : Item}
    (control : c.control = .perform (.set s keys item)) (owned : c.world.Owns [item]) :
    (keys ≠ [] → c.Refuses s [item]) ∧ c.Assigns made s keys item := by
  have step : c.step = c.assigning s keys item := by
    simp only [Config.step, control, perform]
  refine ⟨?_, ?_⟩
  · intro path accepted belong lost
    have opened : (c.world.ledger s.session).closed = false := by
      rw [World.closed_eq]
      exact ((c.world.stateViolation?_eq_none s).mp accepted).1
    obtain ⟨kind, claimed⟩ := World.claim_lost belong opened lost
    simp only [step, assigning, requiring, accepted, List.isEmpty_iff, path, if_false, claiming, claimed]
    exact ⟨_, rfl, _, kind, rfl⟩
  · rw [Assigns, step]
    refine (c.assigning_handed s keys item).imp id ?_
    rintro ⟨claimed, entered⟩
    refine ⟨entered, fun v plain meant => assignedValue_plain plain meant, ?_⟩
    intro h handle
    refine ⟨assignedValue_handle handle, ?_⟩
    obtain ⟨session, unreleased⟩ := World.of_itemViolation?_eq_none
      ((World.claimViolation?_eq_none.mp claimed).2 item (List.mem_singleton_self _)) handle
    intro d run
    rw [← step] at run
    have whole : Run [] c d := .head ⟨.step c, List.nil_suffix⟩ run.within_nil
    rw [← session]
    exact recorded.finds whole (owned item (List.mem_singleton_self _) h handle) unreleased

/-- A function that is exposed is about to be assigned to a global name. -/
def naming : Config Unit :=
  step^[3] (opened fun s =>
    let body (t : State) (_ : List Datum) : Client Unit := .done t []
    [.expose s none body, .set ⟨0, 1⟩ ["f"] (.value (.composite .function ⟨0, 0⟩))])

end Config

end LuaHost
