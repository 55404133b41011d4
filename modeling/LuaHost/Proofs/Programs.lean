import LuaHost.Proofs.ErrorObjects
import LuaHost.Proofs.Encoders
import LuaHost.Proofs.Deliveries
/-!
Functions of the host's own that the guest runs without calling anything: they look at the heap and into
slots, change the heap, and come to values. If there is room for the call, the machine runs such a function
to its end; it leaves the slots and everything below the call as they were.
-/

namespace LuaHost

namespace Guest

/-- A program comes to values without calls and makes one heap into another, on a machine with these slots
whose stack is so high. -/
inductive Settles (slots : Slots) (top : Nat) : Store → Program → Store → List Value → Prop
  | done (s : Store) (values : List Value) : Settles slots top s (.done values) s values
  | query {s s' : Store} {k : Store → Program} {values : List Value}
      (rest : Settles slots top s (k s) s' values) : Settles slots top s (.query k) s' values
  | update {s s' : Store} {f : Store → Store} {k : Unit → Program} {values : List Value}
      (rest : Settles slots top (f s) (k ()) s' values) : Settles slots top s (.update f k) s' values
  | reserve {s s' : Store} {count : Nat} {k : Bool → Program} {values : List Value}
      (rest : Settles slots top s (k (top + stackReserve + count ≤ stackLimit)) s' values) :
      Settles slots top s (.reserve count k) s' values
  | slot {s s' : Store} {slot : Nat} {k : Value → Program} {values : List Value}
      (rest : Settles slots top s (k (slots.content slot)) s' values) :
      Settles slots top s (.slot slot k) s' values

/-- A part of a program comes to a result without calls and makes one heap into another. -/
def Act.Yields {α : Type} (slots : Slots) (top : Nat) (s : Store) (act : Act α) (s' : Store) (a : α) :
    Prop :=
  ∀ k s'' values, Settles slots top s' (k a) s'' values → Settles slots top s (act k) s'' values

namespace Act
variable {α β : Type} {slots : Slots} {top : Nat} {s s' s'' : Store}

theorem Yields.pure (s : Store) (a : α) : Yields slots top s (pure a : Act α) s a :=
  fun _ _ _ rest => rest

theorem Yields.bind {first : Act α} {next : α → Act β} {a : α} {b : β}
    (left : Yields slots top s first s' a) (right : Yields slots top s' (next a) s'' b) :
    Yields slots top s (first >>= next) s'' b :=
  fun k _ _ rest => left (fun a => next a k) _ _ (right k _ _ rest)

theorem Yields.settles {act : Act (List Value)} {values : List Value}
    (yields : Yields slots top s act s' values) : Settles slots top s act.toProgram s' values :=
  yields _ _ _ (.done _ _)

theorem query_yields (f : Store → α) : Yields slots top s (query f) s (f s) :=
  fun _ _ _ rest => .query rest

theorem newTable_yields (t : Table) :
    Yields slots top s (newTable t) (s.newTable t).1 (.table s.tables.size) :=
  fun _ _ _ rest => .query (.update rest)

theorem reserve_yields {count : Nat} (room : top + stackReserve + count ≤ stackLimit) :
    Yields slots top s (reserve count) s true := by
  intro k s'' values rest
  refine .reserve ?_
  rwa [decide_eq_true room]

end Act

/-- With such a signal a call from the host is over. -/
def Signal.IsOver : Signal → Prop
  | .finished _ | .failed .. => True
  | _ => False

namespace Machine
variable {m : Machine} {n : NativeCall}

theorem run_add (m : Machine) (i j : Nat) : m.run (i + j) = (m.run i).run j := by
  induction i generalizing m with
  | zero => rw [Nat.zero_add, run]
  | succ i ih =>
      cases signal : m.signal with
      | some signal' =>
          rw [run_stopped signal, run_stopped signal, run_stopped signal]
      | none =>
          have first : ∀ l, m.run (l + 1) = m.step.run l := by
            intro l
            rw [run, signal]
          rw [Nat.succ_add, first, first, ih]

/-- A machine that has stopped has done so after any number of further steps. -/
theorem run_of_le {i j : Nat} {signal : Signal} (stopped : (m.run i).signal = some signal)
    (more : i ≤ j) : m.run j = m.run i := by
  obtain ⟨l, rfl⟩ := Nat.exists_eq_add_of_le more
  rw [run_add, run_stopped stopped]

/-! ### Values on the stack -/

theorem size_fill (values : List Value) (stack : Array Value) (start : Nat) :
    (values.foldl (fun s v => (s.1.setIfInBounds s.2 v, s.2 + 1)) (stack, start)).1.size = stack.size := by
  induction values generalizing stack start with
  | nil => rfl
  | cons v rest ih => rw [List.foldl_cons, ih, Array.size_setIfInBounds]

theorem getElem?_fill (values : List Value) (stack : Array Value) (start i : Nat)
    (room : start + values.length ≤ stack.size) :
    (values.foldl (fun s v => (s.1.setIfInBounds s.2 v, s.2 + 1)) (stack, start)).1[i]? =
      if start ≤ i ∧ i < start + values.length then values[i - start]? else stack[i]? := by
  induction values generalizing stack start with
  | nil =>
      have never : ¬ (start ≤ i ∧ i < start + ([] : List Value).length) := by
        simp only [List.length_nil, Nat.add_zero]
        omega
      rw [if_neg never]
      rfl
  | cons v rest ih =>
      simp only [List.length_cons] at room ⊢
      rw [List.foldl_cons, ih (stack.setIfInBounds start v) (start + 1)
        (by rw [Array.size_setIfInBounds]; omega)]
      rcases Nat.lt_trichotomy i start with before | rfl | after
      · rw [if_neg (by omega), if_neg (by omega), Array.getElem?_setIfInBounds_ne (by omega)]
      · rw [if_neg (by omega), if_pos (by omega), Nat.sub_self, Array.getElem?_setIfInBounds_self,
          if_pos (by omega)]
        rfl
      · obtain ⟨d, rfl⟩ : ∃ d, i = start + 1 + d := ⟨i - start - 1, by omega⟩
        have shift : start + 1 + d - start = d + 1 := by omega
        have shift' : start + 1 + d - (start + 1) = d := by omega
        rw [shift, shift', List.getElem?_cons_succ]
        by_cases inside : d < rest.length
        · rw [if_pos (by omega), if_pos (by omega)]
        · rw [if_neg (by omega), if_neg (by omega), Array.getElem?_setIfInBounds_ne (by omega)]

/-- What is put on the stack is found there. -/
theorem range_putAll (m : Machine) (start : Nat) (values : List Value) :
    (m.putAll start values).range start values.length = values := by
  have room : start + values.length ≤ (m.ensure (start + values.length)).stack.size := by
    unfold ensure
    split
    · simp only [Array.size_append, Array.size_replicate]
      omega
    · omega
  apply List.ext_getElem?
  intro i
  simp only [range, putAll, Array.getElem?_toList, Array.getElem?_extract]
  by_cases inside : i < values.length
  · rw [size_fill, if_pos (by omega), getElem?_fill values _ start _ room, if_pos (by omega),
      Nat.add_sub_cancel_left]
  · rw [size_fill, if_neg (by omega), List.getElem?_eq_none (by omega)]

/-! ### Running a program -/

/-- The machine runs a program as a library function, on a heap. -/
def within (m : Machine) (n : NativeCall) (s : Store) (p : Program) : Machine :=
  { m with store := s, frame := .native { n with activity := .running p } }

theorem step_within (goesOn : m.signal = none) (s : Store) (p : Program) :
    (m.within n s p).step = (m.within n s p).request { n with activity := .running p } p := by
  simp only [step, within, goesOn]

theorem run_within_succ (goesOn : m.signal = none) {s s' : Store} {p p' : Program} {i : Nat}
    (step : (m.within n s p).step = m.within n s' p') :
    (m.within n s p).run (i + 1) = (m.within n s' p').run i := by
  have signal : (m.within n s p).signal = none := goesOn
  rw [run, signal]
  exact congrArg (run i) step

/-- A program that calls nothing is run until it is done. -/
theorem run_within (goesOn : m.signal = none) {s s' : Store} {p : Program} {values : List Value}
    (settles : Settles m.slots m.top s p s' values) :
    ∃ i, (m.within n s p).run i = m.within n s' (.done values) := by
  induction settles with
  | done s values => exact ⟨0, rfl⟩
  | query rest ih | update rest ih | reserve rest ih | slot rest ih =>
      obtain ⟨i, ran⟩ := ih
      exact ⟨i + 1, (run_within_succ goesOn (step_within goesOn _ _)).trans ran⟩

theorem putAll_eq (m : Machine) (start : Nat) (values : List Value) :
    m.putAll start values = { m with stack := (m.putAll start values).stack } := by
  unfold putAll ensure
  split <;> rfl

/-- A program that is done returns its values through the gate. -/
theorem step_done {g : Gate} {below : List Frame} (goesOn : m.signal = none)
    (callers : m.callers = .gate g :: below) (s : Store) (values : List Value) :
    ∃ stack, (m.within n s (.done values)).step =
      { m with store := s, frame := .gate g, callers := below, stack }.leaveGate g below
        (.finished values) := by
  let left : Machine := { m with store := s, frame := .gate g, callers := below }
  have popped : (m.within n s (.done values)).pop = left := by
    simp only [pop, within, callers]
    rfl
  have put := left.putAll_eq n.func values
  have frame : (left.putAll n.func values).frame = .gate g := by rw [put]
  have callers : (left.putAll n.func values).callers = below := by rw [put]
  refine ⟨(left.putAll n.func values).stack, ?_⟩
  rw [step_within goesOn, request, returnValues, popped, finishCall, frame]
  simp only [range_putAll, callers]
  rw [put]

/-! ### Room -/

/-- The main thread is taken up, on which calls from the host run. -/
def onMain (m : Machine) : Machine := if m.current == 0 then m else (m.park .active).switch 0

/-- How high the stack of the main thread is, and how deep calls are nested there. -/
def floor (m : Machine) : Nat × Nat := (m.onMain.top, m.onMain.frame.depth)

/-- There is room for a call from the host that needs so many places on the stack. -/
structure HasRoomFor (m : Machine) (count : Nat) : Prop where
  call : m.floor.1 + 2 + nativeRoom + stackReserve ≤ stackLimit
  values : m.floor.1 + 2 + stackReserve + count ≤ stackLimit
  depth : m.floor.2 + 1 < callLimit

theorem park_found (phase : Phase) (bound : m.current < m.threads.size) :
    ∃ t, (m.park phase).threads[m.current]? = some t ∧ t.top = m.top ∧ t.frame = m.frame := by
  simp only [park, Array.getElem?_setIfInBounds_self, bound, if_true]
  exact ⟨_, rfl, rfl, rfl⟩

theorem park_other {phase : Phase} {i : Nat} (other : m.current ≠ i) :
    (m.park phase).threads[i]? = m.threads[i]? :=
  Array.getElem?_setIfInBounds_ne other

theorem switch_missing {i : Nat} (missing : m.threads[i]? = none) : m.switch i = m := by
  simp only [switch, missing]

theorem switch_found {i : Nat} {t : Thread} (found : m.threads[i]? = some t) :
    (m.switch i).top = t.top ∧ (m.switch i).frame = t.frame ∧ (m.switch i).current = i ∧
      (m.switch i).threads = m.threads.setIfInBounds i { phase := .active } := by
  simp only [switch, found, and_self]

theorem onMain_of_main (main : m.current = 0) : m.onMain = m := by
  rw [onMain, main]
  rfl

theorem onMain_of_other (other : m.current ≠ 0) : m.onMain = (m.park .active).switch 0 := by
  rw [onMain, if_neg (by simpa using other)]

/-- A gate that is left leaves the main thread as it was before the gate was opened. -/
theorem floor_leaveGate (m : Machine) (s : Store) (stack : Array Value) (top : Nat) (signal : Signal) :
    ({ m.enterGate with store := s, stack, top }.leaveGate
      ⟨m.onMain.top, m.onMain.frame.depth, m.current⟩ m.enterGate.callers signal).floor = m.floor := by
  let left : Machine := { m.enterGate with
    store := s, stack, top := m.onMain.top, frame := m.onMain.frame, callers := m.onMain.callers
    signal := some signal }
  have leaves : { m.enterGate with store := s, stack, top }.leaveGate
      ⟨m.onMain.top, m.onMain.frame.depth, m.current⟩ m.enterGate.callers signal =
      if m.current == m.onMain.current then left else (left.park .active).switch m.current := rfl
  rw [leaves]
  by_cases main : m.current = 0
  · have same := onMain_of_main main
    have here : left.current = 0 := (congrArg current same).trans main
    rw [if_pos (by rw [same, beq_self_eq_true]), floor, onMain_of_main here]
    rfl
  have taken := onMain_of_other main
  cases found : (m.park .active).threads[0]? with
  | none =>
      rw [switch_missing found] at taken
      have other : left.current ≠ 0 := fun here => main ((congrArg current taken).symm.trans here)
      have missing : (left.park .active).threads[0]? = none := by
        have size : left.threads.size = m.threads.size := by
          rw [show left.threads = m.onMain.threads from rfl, taken]
          simp [park]
        have empty : m.threads.size = 0 := by simpa [park] using found
        simp [park, size, empty]
      rw [if_pos (by rw [taken]; exact beq_self_eq_true _), floor, onMain_of_other other,
        switch_missing missing]
      rfl
  | some t =>
      obtain ⟨-, -, current, threads⟩ := switch_found found
      rw [← taken] at current threads
      have here : left.current = 0 := current
      have bound : 0 < left.threads.size := by
        have inside := (Array.getElem?_eq_some_iff.mp found).1
        rw [show left.threads = m.onMain.threads from rfl, threads, Array.size_setIfInBounds]
        exact inside
      -- the main thread is laid aside as it was, and taken up again
      obtain ⟨t', parked, top', frame'⟩ := park_found .active (here.symm ▸ bound)
      rw [here] at parked
      rw [if_neg (by rw [current]; simpa using main)]
      cases resumed : (left.park .active).threads[m.current]? with
      | none =>
          have parkedHere : (left.park .active).current = 0 := here
          rw [switch_missing resumed, floor, onMain_of_main parkedHere]
          rfl
      | some u =>
          obtain ⟨-, -, current', threads'⟩ := switch_found resumed
          have other : ((left.park .active).switch m.current).current ≠ 0 := by rwa [current']
          have again : (((left.park .active).switch m.current).park .active).threads[0]? = some t' := by
            rw [park_other other, threads', Array.getElem?_setIfInBounds_ne main]
            exact parked
          obtain ⟨top'', frame'', -⟩ := switch_found again
          rw [floor, onMain_of_other other, top'', frame'', top', frame']
          rfl

/-! ### Calls from the host -/

theorem put_ensure_eq (m : Machine) (size i : Nat) (v : Value) :
    (m.ensure size).put i v = { m with stack := ((m.ensure size).put i v).stack } := by
  unfold put ensure
  split <;> rfl

theorem onMain_store (m : Machine) : m.onMain.store = m.store := by
  unfold onMain switch
  split
  · rfl
  · split <;> rfl

theorem onMain_slots (m : Machine) : m.onMain.slots = m.slots := by
  unfold onMain
  split <;> simp

variable {count : Nat}

theorem HasRoomFor.nesting (room : m.HasRoomFor count) : nesting (m.floor.2 + 1) = .fine := by
  have depth := room.depth
  have limits : callLimit < handlerLimit := by decide
  rw [Machine.nesting, if_neg, if_neg]
  · omega
  · simpa using Nat.ne_of_lt depth

/-- With room for it, a function of the host's own is entered through the gate. -/
theorem runFromHost_within (room : m.HasRoomFor count) (p : Program) : ∃ n stack,
    m.enterGate.runFromHost p =
      { m.enterGate with
        stack, top := m.floor.1 + 2, callers := m.enterGate.frame :: m.enterGate.callers }.within n
          m.store p := by
  let ready : Machine := { m.enterGate with
    stack := ((m.enterGate.ensure (m.enterGate.top + 1)).put m.enterGate.top .nil).stack
    top := m.floor.1 + 2 }
  let n : NativeCall :=
    { func := m.enterGate.top, function := .nil, wanted := none, activity := .running p
      top := ready.top, depth := ready.frame.depth + 1, yieldable := false }
  have entered : m.enterGate.runFromHost p =
      { ready with frame := .native n, callers := ready.frame :: ready.callers } := by
    have fine : Machine.nesting (m.enterGate.frame.depth + 1) = .fine := room.nesting
    have fits : ¬ m.enterGate.top + 1 + nativeRoom + stackReserve > stackLimit := Nat.not_lt.mpr room.call
    rw [runFromHost, put_ensure_eq]
    simp only [fine, enterNative, fits, if_false]
    rfl
  rw [entered]
  rw [← m.onMain_store]
  exact ⟨n, ready.stack, rfl⟩

/-- With room for it, a function of the host's own that calls nothing is run to its end, and leaves the rest
of the machine ready for the next call. -/
theorem runs_program (room : m.HasRoomFor count) {p : Program} {s : Store} {values : List Value}
    (settles : Settles m.slots (m.floor.1 + 2) m.store p s values) :
    ∃ i, ((m.enterGate.runFromHost p).run i).signal = some (.finished values) ∧
      ((m.enterGate.runFromHost p).run i).store = s ∧
      ((m.enterGate.runFromHost p).run i).floor = m.floor := by
  obtain ⟨n, stack, entered⟩ := runFromHost_within room p
  let called : Machine := { m.enterGate with
    stack, top := m.floor.1 + 2, callers := m.enterGate.frame :: m.enterGate.callers }
  have goesOn : called.signal = none := rfl
  have slots : called.slots = m.slots := m.onMain_slots
  obtain ⟨i, ran⟩ := run_within (m := called) (n := n) goesOn (slots ▸ settles)
  obtain ⟨stack', left⟩ := step_done (m := called) (n := n) goesOn rfl s values
  have last : (m.enterGate.runFromHost p).run (i + 1) = (called.within n s (.done values)).step := by
    rw [entered, run_add, ran, run]
    rfl
  obtain ⟨signal, store⟩ := leaveGate_signal
    { called with store := s, frame := m.enterGate.frame, callers := m.enterGate.callers, stack := stack' }
    ⟨m.onMain.top, m.onMain.frame.depth, m.current⟩ m.enterGate.callers (.finished values)
  refine ⟨i + 1, ?_, ?_, ?_⟩
  · rw [last, left]
    exact signal
  · rw [last, left]
    exact store
  · rw [last, left]
    exact m.floor_leaveGate s stack' (m.floor.1 + 2) (.finished values)

end Machine

end Guest

variable {σ : Type}

theorem World.modifyMachine_congr {w : World σ} {session : Nat} {f g : Guest.Machine → Guest.Machine}
    (same : f (w.machine session) = g (w.machine session)) :
    w.modifyMachine session f = w.modifyMachine session g := by
  simp only [modifyMachine, World.mk.injEq, true_and, and_true]
  apply Array.ext
  · simp
  · intro i bound _
    have bound : i < w.vms.size := by simpa using bound
    simp only [Array.getElem_modify]
    split
    · next here =>
        subst here
        have found : w.machine session = w.vms[session].machine := by
          simp only [World.machine, Array.getElem?_eq_getElem bound]
        rw [← found, same]
    · rfl

namespace Config

/-- The guest runs, portion by portion, until its call is over. -/
theorem guest_ends {w : World σ} (entry : State) (purpose : Purpose) {T : List (Pending σ)} {i : Nat}
    {signal : Guest.Signal} (bound : entry.session < w.vms.size)
    (ends : ((w.machine entry.session).run i).signal = some signal) (last : signal.IsOver) :
    Leads ⟨w, .guest entry.session, .guest entry purpose :: T⟩
      (leaving ⟨w.modifyMachine entry.session (·.run i), .guest entry.session, T⟩ entry purpose T
        signal) := by
  induction i using Nat.strongRecOn generalizing w with
  | ind i ih =>
      have here := w.machine_modifyMachine entry.session entry.session (·.run portion)
      rw [if_pos ⟨rfl, bound⟩] at here
      cases stopped : ((w.machine entry.session).run portion).signal with
      | some signal' =>
          have same : (w.machine entry.session).run portion = (w.machine entry.session).run i := by
            rcases Nat.le_total i portion with early | late
            · exact Guest.Machine.run_of_le ends early
            · exact (Guest.Machine.run_of_le stopped late).symm
          refine ⟨1, ?_⟩
          have ended : ((w.modifyMachine entry.session (·.run portion)).machine entry.session).signal =
              some signal := by rw [here, same, ends]
          rw [World.modifyMachine_congr (g := (·.run portion)) same.symm]
          simp only [Function.iterate_one, Config.step, guestStep, ended]
          cases signal with
          | finished | failed => rfl
          | hostCall | log | readFile => exact last.elim
      | none =>
          have later : portion < i := by
            by_contra early
            rw [Guest.Machine.run_of_le ends (Nat.not_lt.mp early), ends] at stopped
            cases stopped
          obtain ⟨l, rfl⟩ := Nat.exists_eq_add_of_le (Nat.le_of_lt later)
          let w' := w.modifyMachine entry.session (·.run portion)
          have bound' : entry.session < w'.vms.size := by simpa [w', World.modifyMachine] using bound
          have rest : (w'.machine entry.session).run l = (w.machine entry.session).run (portion + l) := by
            rw [here, Guest.Machine.run_add]
          have goesOn : (w'.machine entry.session).signal = none := by rw [here, stopped]
          have whole : w'.modifyMachine entry.session (·.run l) =
              w.modifyMachine entry.session (·.run (portion + l)) := by
            rw [World.modifyMachine_twice]
            exact World.modifyMachine_congr (w.machine entry.session |>.run_add portion l).symm
          have leads := ih l (Nat.lt_add_of_pos_left (by decide)) bound' (by rw [rest, ends])
          rw [whole] at leads
          refine .step ?_
          have step : Config.step ⟨w, .guest entry.session, .guest entry purpose :: T⟩ =
              ⟨w', .guest entry.session, .guest entry purpose :: T⟩ := by
            simp only [Config.step, guestStep]
            rw [goesOn]
          rw [step]
          exact leads

end Config

end LuaHost
