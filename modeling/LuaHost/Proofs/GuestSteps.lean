import LuaHost.Proofs.GuestCalls
/-!
What runs above a gate stays above it. Whatever a function of the guest does in one step, and whatever the host
answers, the calls below the gate and the threads that wait there stand as they stood, until the call through the
gate is over.
-/

namespace LuaHost.Guest.Machine

variable {m m' m₀ : Machine}

theorem either_goes {condition : Prop} [Decidable condition] {yes no : Machine} (left : Goes m₀ yes)
    (right : Goes m₀ no) : Goes m₀ (if condition then yes else no) := by
  split
  · exact left
  · exact right

/-! ### Entering functions -/

/-- What is entered runs above the gate. -/
def Enters (m₀ : Machine) (r : Except Bytes Machine) : Prop := ∀ m, r = .ok m → Above m₀ m ∧ m.Asks

theorem enters_error (message : Bytes) : Enters m₀ (.error message) := fun _ entered => nomatch entered

theorem Runs.enters (runs : Runs m₀ m) : Enters m₀ (.ok m) :=
  fun _ entered => Except.ok.inj entered ▸ ⟨runs.above, runs.asks⟩

theorem mayLie_compiled {thread : Nat} {a : Activation} (bound : thread = 0 → a.yieldable = false) :
    (Frame.compiled a).MayLie thread := by
  rw [Frame.MayLie]
  split
  · next main => exact bound main
  · rfl

theorem mayLie_native {thread : Nat} {n : NativeCall} (bound : thread = 0 → n.yieldable = false) :
    (Frame.native n).MayLie thread := by
  rw [Frame.MayLie]
  split
  · next main => exact bound main
  · rfl

theorem mayLie_handling (thread depth : Nat) : (Frame.handling depth).MayLie thread := by
  rw [Frame.MayLie]
  split
  · exact trivial
  · rfl

section Enter
variable {yieldable : Bool}

theorem enterCompiled_enters (runs : Runs m₀ m) (bound : m.current = 0 → yieldable = false)
    (func closure chunk : Nat) (p : Prototype) (cells : Array Nat) (wanted : Option Nat) (depth : Nat)
    (isTailCall : Bool) :
    Enters m₀ (m.enterCompiled func closure chunk p cells wanted depth yieldable isTailCall) := by
  simp only [enterCompiled]
  split
  · exact enters_error _
  · have rest (size : Nat) : (m.ensure size).rest = m.rest := rest_of_outline (m.ensure_outline size)
    have frames (size : Nat) : (m.ensure size).frame :: (m.ensure size).callers = m.frame :: m.callers :=
      congr (congrArg _ (frame_of_outline (m.ensure_outline size))) (callers_of_outline (m.ensure_outline size))
    have signal (size : Nat) : (m.ensure size).signal = m.signal := signal_of_outline (m.ensure_outline size)
    refine Runs.enters (runs.varied (varies_entered ?_ ?_ (mayLie_compiled bound)) ?_)
    · split <;> exact rest _
    · split <;> exact frames _
    · split <;> exact signal _

theorem enterNative_enters (runs : Runs m₀ m) (bound : m.current = 0 → yieldable = false) (func : Nat)
    (function : Value) (activity : List Value → Activity) (wanted : Option Nat) (depth : Nat) :
    Enters m₀ (m.enterNative func function activity wanted depth yieldable) := by
  rw [enterNative]
  split
  · exact enters_error _
  · exact Runs.enters (runs.varied (varies_entered rfl rfl (mayLie_native bound)) rfl)

theorem enterHost_enters (runs : Runs m₀ m) (bound : m.current = 0 → yieldable = false) (func index : Nat)
    (wanted : Option Nat) (depth : Nat) : Enters m₀ (m.enterHost func index wanted depth yieldable) := by
  have native := enterNative_enters runs bound func (.host index) (.hostCall index) wanted depth
  simp only [enterHost]
  split
  · next m' entered =>
      have framed : ∃ n, m'.frame = .native n := by
        rw [enterNative] at entered
        split at entered
        · cases entered
        · exact ⟨_, congrArg Machine.frame (Except.ok.inj entered).symm⟩
      intro m'' same
      obtain rfl := Except.ok.inj same
      refine ⟨(native m' entered).1.varied ⟨by rfl, [], [], _, rfl, by rfl, ?_, ?_⟩, ?_⟩
      · exact List.forall_mem_nil _
      · exact List.forall_mem_nil _
      · rintro _ ⟨⟩
        exact ⟨id, framed⟩
  · exact enters_error _

theorem enterFunction_enters (runs : Runs m₀ m) (bound : m.current = 0 → yieldable = false) (func : Nat) (f : Value)
    (wanted : Option Nat) (depth : Nat) (isTailCall : Bool) :
    Enters m₀ (m.enterFunction func f wanted depth yieldable isTailCall) := by
  simp only [enterFunction]
  split
  · exact enterNative_enters runs bound _ _ _ _ _
  · exact enterHost_enters runs bound _ _ _ _
  · split
    · exact enterCompiled_enters runs bound _ _ _ _ _ _ _ _
    · exact enterNative_enters runs bound _ _ _ _ _
    · exact enterNative_enters runs bound _ _ _ _ _
    · exact runs.enters
  · exact runs.enters

theorem shiftUp_outline (m : Machine) (func : Nat) : (m.shiftUp func).outline = m.outline :=
  m.putAll_outline _ _

theorem enter_enters (runs : Runs m₀ m) (bound : m.current = 0 → yieldable = false) (func : Nat)
    (wanted : Option Nat) (depth : Nat) (isTailCall : Bool) :
    Enters m₀ (m.enter func wanted depth yieldable isTailCall) := by
  simp only [enter]
  split
  · exact enterFunction_enters runs bound _ _ _ _ _
  · split
    · have shifted : ((m.shiftUp func).put func (m.store.metafield (m.peek func) Event.call)).outline = m.outline :=
        m.shiftUp_outline func
      have current : ((m.shiftUp func).put func (m.store.metafield (m.peek func) Event.call)).current = m.current :=
        congrArg Prod.fst (rest_of_outline shifted)
      exact enterFunction_enters (runs.congr shifted) (fun main => bound (current.symm.trans main)) _ _ _ _ _
    · exact enters_error _

end Enter

/-! ### Failure and calls -/

theorem raiseAt_goes (runs : Runs m₀ m) (fuel depth : Nat) (error : Value) : Goes m₀ (raiseAt fuel m depth error) := by
  induction fuel generalizing m depth error with
  | zero => exact unwind_goes runs _ _
  | succ fuel ih =>
      rw [raiseAt.eq_def]
      simp only
      split
      · exact unwind_goes runs _ _
      · split
        · exact unwind_goes (runs.congr (by rfl)) _ _
        · exact ih runs _ _
        · exact unwind_goes runs _ _
      · next f _ =>
          split
          · exact ih runs _ _
          · exact unwind_goes runs _ _
          · have rest := rest_of_outline (m.putAll_outline m.top [f, error])
            have signal := signal_of_outline (m.putAll_outline m.top [f, error])
            let called : Machine := { m.putAll m.top [f, error] with
              frame := .handling (depth + 1 - m.baseDepth), callers := m.frame :: m.callers, top := m.top + 2 }
            have handles : Runs m₀ called :=
              runs.varied (varies_entered rest rfl (mayLie_handling _ _)) signal
            have entered := @enter_enters _ _ false handles (fun _ => rfl) m.top (some 1)
              (depth + 1 - m.baseDepth) false
            split
            · next m' ok => exact .inl (entered m' ok)
            · exact ih handles _ _

theorem raise_goes (runs : Runs m₀ m) (error : Value) : Goes m₀ (m.raise error) := raiseAt_goes runs _ _ _

theorem fail_goes (runs : Runs m₀ m) (message : Bytes) : Goes m₀ (m.fail message) := raise_goes runs _

theorem failTyped_goes (runs : Runs m₀ m) (v : Value) (name : Option Naming.Named) (operation : String) :
    Goes m₀ (m.failTyped v name operation) := fail_goes runs _

section Calls
variable {yieldable : Bool}

theorem callFlat_goes (runs : Runs m₀ m) (bound : m.current = 0 → yieldable = false) (func : Nat)
    (wanted : Option Nat) (depth : Nat) : Goes m₀ (m.callFlat func wanted depth yieldable) := by
  have entered := enter_enters runs bound func wanted depth false
  rw [callFlat]
  split
  · next m' ok => exact .inl (entered m' ok)
  · exact fail_goes runs _

theorem callNested_goes (runs : Runs m₀ m) (bound : m.current = 0 → yieldable = false) (func : Nat)
    (wanted : Option Nat) : Goes m₀ (m.callNested func wanted yieldable) := by
  simp only [callNested]
  split
  · exact callFlat_goes runs bound _ _ _
  · exact raiseAt_goes runs _ _ _
  · exact unwind_goes runs _ _

theorem callValues_goes (runs : Runs m₀ m) (bound : m.current = 0 → yieldable = false) (f : Value)
    (arguments : List Value) (wanted : Option Nat) : Goes m₀ (m.callValues f arguments wanted yieldable) := by
  have same := m.putAll_outline m.top (f :: arguments)
  have current : (m.putAll m.top (f :: arguments)).current = m.current :=
    congrArg Prod.fst (rest_of_outline same)
  rw [callValues]
  refine callNested_goes ?_ (fun main => bound ?_) _ _
  · exact (runs.congr same).congr (by rfl)
  · exact current.symm.trans main

end Calls

/-! ### Functions of chunks -/

/-- A function of a chunk is run above the gate. -/
structure Computes (m₀ m : Machine) (a : Activation) : Prop extends Runs m₀ m where
  active : ∃ a', m.frame = .compiled a' ∧ a'.yieldable = a.yieldable

variable {a a' : Activation}

theorem Computes.goes (computes : Computes m₀ m a) : Goes m₀ m := computes.toRuns.goes

theorem Computes.congr (computes : Computes m₀ m a) (same : m'.outline = m.outline) : Computes m₀ m' a :=
  ⟨computes.toRuns.congr same, by rw [frame_of_outline same]; exact computes.active⟩

theorem Computes.bound (computes : Computes m₀ m a) (main : m.current = 0) : a.yieldable = false := by
  obtain ⟨a', frame, same⟩ := computes.active
  have may := computes.above.may_lie (by rw [frame]; rfl)
  rw [frame, Frame.MayLie, if_pos main] at may
  exact same.symm.trans may

/-- The function goes on from elsewhere. -/
theorem Computes.moved (computes : Computes m₀ m a) (rest : m'.rest = m.rest) (callers : m'.callers = m.callers)
    (signal : m'.signal = m.signal) (frame : m'.frame = .compiled a') (same : a'.yieldable = a.yieldable) :
    Computes m₀ m' a := by
  obtain ⟨b, before, -⟩ := computes.active
  refine ⟨computes.toRuns.varied (varies_replaced rest callers ?_ ?_) signal, a', frame, same⟩
  · rw [before]
    rfl
  · rw [frame]
    exact mayLie_compiled fun main => same.trans (computes.bound main)

theorem skipped_yieldable (a : Activation) (stays : Prop) [Decidable stays] :
    (if stays then a else { a with pc := a.pc + 1 }).yieldable = a.yieldable := by
  split <;> rfl

theorem callMeta_goes (computes : Computes m₀ m a) (f : Value) (arguments : List Value) (finish : Finish) :
    Goes m₀ (m.callMeta a f arguments finish) := by
  rw [callMeta]
  refine callValues_goes ?_ (fun main => ?_) _ _ _
  · exact (computes.moved (by rfl) (by rfl) (by rfl) (by rfl) (by rfl)).toRuns
  · exact computes.bound main

theorem concatFrom_goes (computes : Computes m₀ m a) (i : Instruction) (joined : Value) (remaining : Nat) :
    Goes m₀ (m.concatFrom a i joined remaining) := by
  induction remaining generalizing joined with
  | zero => exact (computes.moved (by rfl) (by rfl) (by rfl) (by rfl) (by rfl)).goes
  | succ remaining ih =>
      simp only [concatFrom]
      split
      · exact ih _
      · refine either_goes ?_ (failTyped_goes computes.toRuns _ _ _)
        exact callMeta_goes (computes.congr (by rfl)) _ _ _

/-! ### Returning -/

theorem leaveGate_back (runs : Runs m₀ m) {g : Gate} (frame : m.frame = .gate g) (signal : Signal) :
    Back m₀ (m.leaveGate g m.callers signal) ∧ (m.leaveGate g m.callers signal).signal = some signal := by
  rcases @Above.reaches _ _ runs.above [] _ _ rfl (List.forall_mem_nil _) with may | ⟨g', s₀, gate, callers, opened⟩
  · have no_gate := may.no_gate
    rw [frame] at no_gate
    cases no_gate
  · rw [frame] at gate
    cases gate
    rw [callers]
    exact runs.above.leaves opened signal

theorem leaveGate_goes (runs : Runs m₀ m) {g : Gate} (frame : m.frame = .gate g) (values : List Value) :
    Goes m₀ (m.leaveGate g m.callers (.finished values)) := by
  obtain ⟨back, signal⟩ := leaveGate_back runs frame (.finished values)
  exact .inr ⟨back, _, signal, trivial⟩

theorem current_of_bottom (above : Above m₀ m) (frame : m.frame = .bottom) : m.current ≠ 0 := by
  intro main
  have may := above.may_lie (by rw [frame]; rfl)
  rw [frame, Frame.MayLie, if_pos main] at may
  exact may

theorem finishCall_goes (runs : Runs m₀ m) (func : Nat) (wanted : Option Nat) (first count : Nat) :
    Goes m₀ (m.finishCall func wanted first count) := by
  simp only [finishCall]
  split
  · next a frame =>
      have computes : Computes m₀ m a := ⟨runs, a, frame, rfl⟩
      split
      · split
        · exact (runs.congr (by rfl)).goes
        · exact (runs.congr (by rfl)).goes
      · exact (computes.moved (by rfl) (by rfl) (by rfl) (by rfl) (by rfl)).goes
      · refine (computes.moved (by rfl) (by rfl) (by rfl) (by rfl) ?_).goes
        exact skipped_yieldable a _
      · exact (computes.moved (by rfl) (by rfl) (by rfl) (by rfl) (by rfl)).goes
      · exact concatFrom_goes (computes.congr (by rfl)) _ _ _
  · next n frame =>
      have continued (p : Program) : Goes m₀ { m with frame := .native { n with activity := .running p }, top := n.top } :=
        ((runs.become frame (.running p)).congr (by rfl)).goes
      split
      · exact continued _
      · exact continued _
      · exact runs.goes
  · exact unwind_goes runs _ _
  · next g frame => exact leaveGate_goes runs frame _
  · next frame => exact (returnToResumer_runs runs (current_of_bottom runs.above frame) _ _ _).goes

/-- The function on top is left. -/
theorem pop_runs (runs : Runs m₀ m) (no_gate : m.frame.isGate = false) : Runs m₀ m.pop := by
  cases callers : m.callers with
  | cons f below =>
      refine runs.varied ⟨rfl, [m.frame], [], m.callers, rfl, ?_, by simpa using no_gate, List.forall_mem_nil _⟩ rfl
      simp only [pop, callers]
      rfl
  | nil =>
      have other : m.current ≠ 0 := by
        intro main
        obtain ⟨g, inner, s, s₀, found, -, -, -, -, -, frames, -⟩ := runs.above.main
        have here := m.strand?_current
        rw [main, found] at here
        obtain rfl := Option.some.inj here
        rw [callers] at frames
        cases inner with
        | nil =>
            rw [(List.cons.inj frames).1] at no_gate
            cases no_gate
        | cons f inner =>
            have none := (List.cons.inj frames).2
            simp at none
      refine runs.varied ⟨rfl, [m.frame], [.bottom], [], congrArg _ callers, ?_, by simpa using no_gate, ?_⟩ rfl
      · simp only [pop, callers]
        rfl
      · intro f mem
        rw [List.mem_singleton.mp mem, Frame.MayLie, if_neg other]
        rfl

theorem returnValues_goes {n : NativeCall} (runs : Runs m₀ m) (frame : m.frame = .native n) (n' : NativeCall)
    (values : List Value) : Goes m₀ (m.returnValues n' values) := by
  refine finishCall_goes ((pop_runs runs ?_).congr (putAll_outline _ _ _)) _ _ _ _
  rw [frame]
  rfl

/-! ### Instructions -/

section Instructions

theorem setReg_computes (computes : Computes m₀ m a) (r : Nat) (v : Value) : Computes m₀ (m.setReg a r v) a :=
  computes.congr (by rfl)

theorem jump_computes (computes : Computes m₀ m a) (distance : Int) : Computes m₀ (m.jump a distance) a :=
  computes.moved (by rfl) (by rfl) (by rfl) (by rfl) (by rfl)

theorem skipUnless_goes (computes : Computes m₀ m a) (condition : Bool) : Goes m₀ (m.skipUnless a condition) :=
  either_goes computes.goes (jump_computes computes 1).goes

theorem indexInto_goes (computes : Computes m₀ m a) (object : Value) (name : Option Naming.Named) (key : Value)
    (target : Nat) : Goes m₀ (m.indexInto a object name key target) := by
  rw [indexInto]
  split
  · exact (setReg_computes computes _ _).goes
  · exact callMeta_goes computes _ _ _
  · exact failTyped_goes computes.toRuns _ _ _
  · exact computes.goes
  · exact fail_goes computes.toRuns _

theorem storeInto_goes (computes : Computes m₀ m a) (object : Value) (name : Option Naming.Named)
    (key value : Value) : Goes m₀ (m.storeInto a object name key value) := by
  rw [storeInto]
  split
  · split
    · exact fail_goes computes.toRuns _
    · exact (computes.congr (by rfl)).goes
  · exact callMeta_goes computes _ _ _
  · exact failTyped_goes computes.toRuns _ _ _
  · exact computes.goes
  · exact fail_goes computes.toRuns _

theorem arithmeticFailure_goes (computes : Computes m₀ m a) (op : ArithmeticOp) (x y : Value) (i j : Nat) :
    Goes m₀ (m.arithmeticFailure a op x y i j) := by
  rw [arithmeticFailure]
  split
  · exact fail_goes computes.toRuns _
  · exact failTyped_goes computes.toRuns _ _ _

theorem arithmeticStep_goes (computes : Computes m₀ m a) (op : ArithmeticOp) (target i j : Nat) :
    Goes m₀ (m.arithmeticStep a op target i j) := by
  simp only [arithmeticStep]
  split
  · exact (setReg_computes computes _ _).goes
  · exact fail_goes computes.toRuns _
  · exact either_goes (arithmeticFailure_goes computes _ _ _ _ _) (callMeta_goes computes _ _ _)

theorem lengthStep_goes (computes : Computes m₀ m a) (target source : Nat) :
    Goes m₀ (m.lengthStep a target source) := by
  simp only [lengthStep]
  split
  · exact (setReg_computes computes _ _).goes
  · refine either_goes (callMeta_goes computes _ _ _) ?_
    split
    · exact (setReg_computes computes _ _).goes
    · exact failTyped_goes computes.toRuns _ _ _

theorem equalStep_goes (computes : Computes m₀ m a) (expected : Bool) (x y : Value) :
    Goes m₀ (m.equalStep a expected x y) :=
  either_goes (skipUnless_goes computes _) (callMeta_goes computes _ _ _)

theorem orderFailure_goes (computes : Computes m₀ m a) (x y : Value) : Goes m₀ (m.orderFailure x y) :=
  fail_goes computes.toRuns _

theorem lessStep_goes (computes : Computes m₀ m a) (expected : Bool) (x y : Value) :
    Goes m₀ (m.lessStep a expected x y) := by
  rw [lessStep]
  split
  · exact skipUnless_goes computes _
  · exact either_goes (orderFailure_goes computes _ _) (callMeta_goes computes _ _ _)

theorem lessEqualStep_goes (computes : Computes m₀ m a) (expected : Bool) (x y : Value) :
    Goes m₀ (m.lessEqualStep a expected x y) := by
  rw [lessEqualStep]
  split
  · exact skipUnless_goes computes _
  · refine either_goes (callMeta_goes computes _ _ _) ?_
    exact either_goes (orderFailure_goes computes _ _) (callMeta_goes computes _ _ _)

theorem prepareLoop_goes (computes : Computes m₀ m a) (i : Instruction) : Goes m₀ (m.prepareLoop a i) := by
  have prepared (r s : Nat) (v w x : Value) :
      Goes m₀ ((((m.setReg a r v).setReg a s w).setReg a i.a x).jump a i.bx) :=
    (jump_computes (computes.congr (by rfl)) i.bx).goes
  simp only [prepareLoop]
  split
  · split
    · exact (jump_computes (computes.congr (by rfl)) i.bx).goes
    · split
      · exact fail_goes computes.toRuns _
      · exact fail_goes computes.toRuns _
      · exact fail_goes computes.toRuns _
      · exact prepared _ _ _ _ _
  · split
    · exact fail_goes computes.toRuns _
    · exact fail_goes computes.toRuns _
    · exact fail_goes computes.toRuns _
    · exact prepared _ _ _ _ _

theorem continueLoop_goes (computes : Computes m₀ m a) (i : Instruction) : Goes m₀ (m.continueLoop a i) := by
  have again (v : Value) : Goes m₀ (((m.setReg a i.a v).setReg a (i.a + 3) v).jump a i.bx) :=
    (jump_computes (computes.congr (by rfl)) i.bx).goes
  simp only [continueLoop]
  split
  · exact either_goes (again _) computes.goes
  · exact either_goes (again _) computes.goes
  · exact computes.goes

theorem iterateStep_goes (computes : Computes m₀ m a) (i : Instruction) : Goes m₀ (m.iterateStep a i) := by
  have ready := computes.congr (m.ensure_outline (a.base + i.a + 3 + 3))
  rw [iterateStep]
  generalize m.ensure (a.base + i.a + 3 + 3) = m' at ready
  have laid (u v w : Value) : Computes m₀ { ((m'.put (a.base + i.a + 3) u).put (a.base + i.a + 3 + 1) v).put
      (a.base + i.a + 3 + 2) w with top := a.base + i.a + 3 + 3 } a := ready.congr (by rfl)
  exact callNested_goes (laid _ _ _).toRuns (laid _ _ _).bound _ _

theorem callStep_goes (computes : Computes m₀ m a) (i : Instruction) : Goes m₀ (m.callStep a i) := by
  have ready : Computes m₀ (if i.b == 0 then m else { m with top := a.base + i.a + i.b }) a := by
    split
    · exact computes
    · exact computes.congr (by rfl)
  exact callFlat_goes ready.toRuns ready.bound _ _ _

theorem tailCallStep_goes (computes : Computes m₀ m a) (i : Instruction) : Goes m₀ (m.tailCallStep a i) := by
  have ready : Computes m₀ (if i.b == 0 then m else { m with top := a.base + i.a + i.b }) a := by
    split
    · exact computes
    · exact computes.congr (by rfl)
  rw [tailCallStep]
  generalize (if i.b == 0 then m else { m with top := a.base + i.a + i.b }) = m' at ready ⊢
  refine either_goes ?_ (callFlat_goes ready.toRuns ready.bound _ _ _)
  have closed := ready.congr (m'.closeCells_outline a.base)
  obtain ⟨a', frame, -⟩ := closed.active
  have popped := pop_runs closed.toRuns (by rw [frame]; rfl)
  have moved : Runs m₀ { (m'.closeCells a.base).pop with
      stack := moveDown (m'.closeCells a.base).pop.stack (a.base + i.a) a.func (m'.top - (a.base + i.a))
      top := a.func + (m'.top - (a.base + i.a)) } := popped.congr (by rfl)
  have entered := enter_enters moved closed.bound a.func a.wanted a.depth true
  simp only
  split
  · next m'' ok => exact .inl (entered m'' ok)
  · exact fail_goes moved _

theorem returnStep_goes (computes : Computes m₀ m a) (i : Instruction) : Goes m₀ (m.returnStep a i) := by
  have closed := computes.congr (m.closeCells_outline a.base)
  obtain ⟨a', frame, -⟩ := closed.active
  exact finishCall_goes (pop_runs closed.toRuns (by rw [frame]; rfl)) _ _ _ _

theorem varargStep_goes (computes : Computes m₀ m a) (i : Instruction) : Goes m₀ (m.varargStep a i) := by
  rw [varargStep]
  refine either_goes ?_ (computes.congr (by rfl)).goes
  refine either_goes (fail_goes computes.toRuns _) ?_
  exact ((computes.congr (m.ensure_outline _)).congr (by rfl)).goes

theorem captureAll_outline (m : Machine) (a : Activation) (sources : List UpvalueSource) (cells : Array Nat) :
    (captureAll a sources m cells).1.outline = m.outline := by
  induction sources generalizing m cells with
  | nil => rfl
  | cons u rest ih =>
      rw [captureAll]
      split
      · exact (ih _ _).trans (m.capture_outline _)
      · exact ih _ _

theorem closureStep_goes (computes : Computes m₀ m a) (i : Instruction) : Goes m₀ (m.closureStep a i) := by
  rw [closureStep]
  split
  · exact computes.goes
  · next p _ =>
      have captured := computes.congr (captureAll_outline m a p.upvalues.toList #[])
      simp only
      split
      · exact (setReg_computes captured _ _).goes
      · exact (captured.congr (by rfl)).goes

theorem setListStep_goes (computes : Computes m₀ m a) (i : Instruction) : Goes m₀ (m.setListStep a i) := by
  rw [setListStep]
  split
  · exact (computes.congr (by rfl)).goes
  · exact computes.goes

theorem execute_goes (computes : Computes m₀ m a) (i : Instruction) : Goes m₀ (m.execute a i) := by
  rw [execute]
  cases i.op with
  | move | loadK | getUpval | not => exact (setReg_computes computes _ _).goes
  | loadBool =>
      exact either_goes (jump_computes (setReg_computes computes _ _) 1).goes (setReg_computes computes _ _).goes
  | loadNil | newTable => exact (computes.congr (by rfl)).goes
  | getTabUp | getTable => exact indexInto_goes computes _ _ _ _
  | self => exact indexInto_goes (setReg_computes computes _ _) _ _ _ _
  | setTabUp | setTable => exact storeInto_goes computes _ _ _ _
  | setUpval => exact (computes.congr (m.setCell_outline _ _)).goes
  | add | sub | mul | mod | pow | div | idiv | band | bor | bxor | shl | shr | unm | bnot =>
      exact arithmeticStep_goes computes _ _ _ _
  | len => exact lengthStep_goes computes _ _
  | concat => exact concatFrom_goes computes _ _ _
  | jmp =>
      refine (jump_computes ?_ i.bx).goes
      split
      · exact computes.congr (m.closeCells_outline _)
      · exact computes
  | eq => exact equalStep_goes computes _ _ _
  | lt => exact lessStep_goes computes _ _ _
  | le => exact lessEqualStep_goes computes _ _ _
  | test => exact skipUnless_goes computes _
  | testSet => exact either_goes (setReg_computes computes _ _).goes (jump_computes computes 1).goes
  | call => exact callStep_goes computes i
  | tailCall => exact tailCallStep_goes computes i
  | ret => exact returnStep_goes computes i
  | forLoop => exact continueLoop_goes computes i
  | forPrep => exact prepareLoop_goes computes i
  | tforCall => exact iterateStep_goes computes i
  | tforLoop => exact either_goes computes.goes (jump_computes (setReg_computes computes _ _) _).goes
  | setList => exact setListStep_goes computes i
  | closure => exact closureStep_goes computes i
  | vararg => exact varargStep_goes computes i

end Instructions

/-! ### Requests -/

section Requests
variable {n : NativeCall}

theorem complain_goes (runs : Runs m₀ m) (n : NativeCall) (argument : Nat) (message : Bytes) :
    Goes m₀ (m.complain n argument message) :=
  either_goes (raise_goes runs _) (raise_goes runs _)

/-- A library function of the main thread lies above the gate. -/
theorem Runs.bound (runs : Runs m₀ m) (frame : m.frame = .native n) (main : m.current = 0) :
    n.yieldable = false := by
  have may := runs.above.may_lie (by rw [frame]; rfl)
  rwa [frame, Frame.MayLie, if_pos main] at may

/-- A thread that is resumed is not the main one. -/
theorem Runs.resumed (runs : Runs m₀ m) {thread : Nat} (asleep : m.phase thread ≠ .active)
    (alive : m.phase thread ≠ .finished) (depth : Nat) :
    Runs m₀ { (m.park .active).switch thread with baseDepth := depth, resumer := m.current } ∧
      ((m.park .active).switch thread).current ≠ 0 := by
  have there : thread < m.threads.size := by
    by_contra beyond
    have missing : m.threads[thread]? = none := Array.getElem?_eq_none (Nat.le_of_not_lt beyond)
    exact alive (by rw [phase, missing]; rfl)
  have taken := switch_taken (bound_of_phase runs.above.orderly.running) there .active
  refine ⟨⟨runs.above.resumed there asleep depth, taken.signal.trans runs.idle⟩, ?_⟩
  rw [taken.current]
  rintro rfl
  exact asleep runs.above.orderly.main

theorem resumeStep_goes (runs : Runs m₀ m) (frame : m.frame = .native n) (thread : Nat) (arguments : List Value)
    (k : Bool → List Value → Program) : Goes m₀ (m.resumeStep n thread arguments k) := by
  have refused (message : String) : Goes m₀ (m.become n (.running (k false [ofText message]))) :=
    (runs.become frame _).goes
  have waiting := runs.become frame (.resuming k)
  have begun (asleep : (m.become n (.resuming k)).phase thread ≠ .active)
      (alive : (m.become n (.resuming k)).phase thread ≠ .finished) := waiting.resumed asleep alive (m.depth + 1)
  simp only [resumeStep]
  split
  · exact refused _
  · exact refused _
  · exact refused _
  · next fresh =>
      have fresh : (m.become n (.resuming k)).phase thread = .fresh := fresh
      obtain ⟨begun, other⟩ := begun (by rw [fresh]; simp) (by rw [fresh]; simp)
      refine either_goes (refused _) ?_
      have same := putAll_outline { ((m.become n (.resuming k)).park .active).switch thread with
        baseDepth := m.depth + 1, resumer := m.current } 2 arguments
      refine callFlat_goes ((begun.congr same).congr (by rfl)) (fun main => ?_) _ _ _
      exact absurd ((congrArg Prod.fst (rest_of_outline same)).symm.trans main) other
  · next suspended =>
      have suspended : (m.become n (.resuming k)).phase thread = .suspended := suspended
      obtain ⟨begun, -⟩ := begun (by rw [suspended]; simp) (by rw [suspended]; simp)
      refine either_goes (refused _) ?_
      split
      · next inner sleeper =>
          split
          · exact (begun.become sleeper _).goes
          · exact begun.goes
      · exact begun.goes

theorem yieldStep_goes (runs : Runs m₀ m) (frame : m.frame = .native n) (values : List Value)
    (k : List Value → Program) : Goes m₀ (m.yieldStep n values k) := by
  rw [yieldStep]
  split
  · next free =>
      refine (returnToResumer_runs (runs.become frame (.suspended k)) (fun main => ?_) _ _ _).goes
      rw [runs.bound frame main] at free
      cases free
  · exact raise_goes runs _

theorem push_strand? (m : Machine) (t : Thread) (i : Nat) :
    Machine.strand? { m with threads := m.threads.push t } i =
      if i ≠ m.current ∧ i = m.threads.size then some t.strand else m.strand? i := by
  by_cases here : i = m.current
  · rw [if_neg fun both => both.1 here, here]
    exact (strand?_current _).trans m.strand?_current.symm
  · have pushed := @strand?_other { m with threads := m.threads.push t } i here
    rw [pushed, Array.getElem?_push, strand?_other here]
    by_cases new : i = m.threads.size
    · rw [if_pos new, if_pos ⟨here, new⟩, Option.map_some]
    · rw [if_neg new, if_neg fun both => new both.2]

/-- A thread that is made and not resumed yet changes nothing for the others. -/
theorem Runs.spawned (runs : Runs m₀ m) (t : Thread) (free : ∀ f ∈ t.strand.frames, f.isGate = false) :
    Runs m₀ { m with threads := m.threads.push t } := by
  have phase (i : Nat) (active : m.phase i = .active) :
      Machine.phase { m with threads := m.threads.push t } i = .active := by
    have there := bound_of_phase active
    rw [Machine.phase, Array.getElem?_push_lt there, ← Array.getElem?_eq_getElem there]
    exact active
  have strand (i : Nat) (active : m.phase i = .active) :
      Machine.strand? { m with threads := m.threads.push t } i = m.strand? i := by
    rw [push_strand?, if_neg fun both => (bound_of_phase active).ne both.2]
  obtain ⟨before, orderly, main, held, path, linked, nodup, active⟩ := runs.above
  refine ⟨⟨before, ⟨phase _ orderly.running, phase 0 orderly.main, ?_⟩, ?_, ?_, path, ?_, nodup, ?_⟩, runs.idle⟩
  · intro i s other found
    rw [push_strand?] at found
    split at found
    · exact Option.some.inj found ▸ free
    · exact orderly.free i s other found
  · rw [strand 0 orderly.main]
    exact main
  · intro i other active
    obtain ⟨apart, active, same⟩ := held i other active
    exact ⟨apart, phase i active, (strand i active).trans same⟩
  · exact linked.congr fun i mem => congrArg _ (strand i (active i mem).1)
  · exact fun i mem => ⟨phase i (active i mem).1, (active i mem).2⟩

/-- A library function asks the host for something. -/
theorem Runs.stops (runs : Runs m₀ m) (frame : m.frame = .native n) {signal : Signal} (asks : ¬ signal.IsOver) :
    Goes m₀ { m with signal := some signal } := by
  refine .inl ⟨runs.above.varied ⟨by rfl, [], [], _, rfl, by rfl, List.forall_mem_nil _, List.forall_mem_nil _⟩, ?_⟩
  rintro _ ⟨⟩
  exact ⟨asks, n, frame⟩

theorem request_goes (runs : Runs m₀ m) (frame : m.frame = .native n) (p : Program) : Goes m₀ (m.request n p) := by
  have goesOn (activity : Activity) : Runs m₀ (m.become n activity) := runs.become frame activity
  cases p with
  | done values => exact returnValues_goes runs frame n values
  | raise | fail => exact raise_goes runs _
  | badArgument argument message => exact complain_goes runs n argument message
  | breakDown => exact unwind_goes runs _ _
  | update f k => exact ((goesOn (.running (k ()))).congr (by rfl)).goes
  | call f arguments k => exact callValues_goes (goesOn (.calling k)) (fun _ => rfl) _ _ _
  | protect f arguments handler k =>
      exact callValues_goes (goesOn (.protecting handler m.top k)) (runs.bound frame) _ _ _
  | spawn f k =>
      have made := (goesOn (.running (k m.threads.size))).spawned { stack := #[.nil, f], top := 2 }
        fun f mem => List.mem_singleton.mp mem ▸ rfl
      exact (made.congr (by rfl)).goes
  | resume thread arguments k => exact resumeStep_goes runs frame thread arguments k
  | yield values k => exact yieldStep_goes runs frame values k
  | log line k => exact (goesOn (.logging k)).stops rfl id
  | readFile path k => exact (goesOn (.reading k)).stops rfl id
  | query | reserve | position | traceback | activeFunction | compile | slot | thisThread | status =>
      exact (goesOn _).goes

end Requests

/-! ### The host's side -/

theorem step_goes (runs : Runs m₀ m) : Goes m₀ m.step := by
  rw [step]
  split
  · exact runs.goes
  · split
    · next a frame =>
        have computes : Computes m₀ m a := ⟨runs, a, frame, rfl⟩
        refine execute_goes (a := { a with pc := a.pc + 1 }) ?_ _
        have next : Computes m₀ { m with frame := .compiled { a with pc := a.pc + 1 } } a :=
          computes.moved (by rfl) (by rfl) (by rfl) (by rfl) (by rfl)
        exact ⟨next.toRuns, _, rfl, rfl⟩
    · next n frame =>
        split
        · exact request_goes runs frame _
        · exact runs.goes
    · exact runs.goes

/-- A machine that runs for a while is above the gate still, or has come back. -/
theorem run_goes (fuel : Nat) (goes : Goes m₀ m) : Goes m₀ (m.run fuel) := by
  induction fuel generalizing m with
  | zero => exact goes
  | succ fuel ih =>
      rw [run]
      split
      · exact goes
      · next idle =>
          rcases goes with ⟨above, -⟩ | ⟨-, signal, some, -⟩
          · exact ih (step_goes ⟨above, idle⟩)
          · cases idle.symm.trans some

theorem callFromHost_goes (runs : Runs m₀ m) (f : Value) (arguments : List Value) :
    Goes m₀ (m.callFromHost f arguments) :=
  callValues_goes runs (fun _ => rfl) _ _ _

theorem runFromHost_goes (runs : Runs m₀ m) (p : Program) : Goes m₀ (m.runFromHost p) := by
  have ready := runs.congr (m.ensure_outline (m.top + 1))
  rw [runFromHost]
  generalize m.ensure (m.top + 1) = m' at ready
  have laid : Runs m₀ { m'.put m.top .nil with top := m.top + 1 } := ready.congr (by rfl)
  simp only
  split
  · exact raiseAt_goes laid _ _ _
  · exact unwind_goes laid _ _
  · split
    · next m'' ok => exact .inl (enterNative_enters laid (fun _ => rfl) _ _ _ _ _ m'' ok)
    · exact fail_goes laid _

/-- Once a call is given up before its function is entered, all is as it was before. -/
theorem abandon_back (runs : Runs m₀ m) {g : Gate} (frame : m.frame = .gate g) : Back m₀ m.abandon := by
  obtain ⟨back, -⟩ := leaveGate_back runs frame (.finished [])
  rw [abandon, frame]
  exact back.trans (back_of_alike back.orderly rfl (fun _ => rfl) fun _ => rfl)

/-- The host goes on with a machine that waited for it. -/
theorem answered (above : Above m₀ m) : Runs m₀ { m with signal := none } :=
  ⟨above.varied ⟨by rfl, [], [], _, rfl, by rfl, List.forall_mem_nil _, List.forall_mem_nil _⟩, rfl⟩

theorem answer_goes {n : NativeCall} (above : Above m₀ m) (frame : m.frame = .native n) (values : List Value) :
    Goes m₀ (m.answer values) := by
  rw [answer, frame]
  exact returnValues_goes (answered above) frame n values

theorem raiseFromHost_goes (above : Above m₀ m) (error : Value) : Goes m₀ (m.raiseFromHost error) :=
  raise_goes (answered above) error

theorem breakDown_goes (above : Above m₀ m) (values : List Value) : Goes m₀ (m.breakDown values) :=
  unwind_goes (answered above) _ _

theorem answerLog_goes (above : Above m₀ m) : Goes m₀ m.answerLog := by
  have ready := answered above
  simp only [answerLog]
  split
  · next n frame =>
      split
      · exact (ready.become frame _).goes
      · exact ready.goes
  · exact ready.goes

theorem answerFile_goes (above : Above m₀ m) (content : Except String Bytes) : Goes m₀ (m.answerFile content) := by
  have ready := answered above
  simp only [answerFile]
  split
  · next n frame =>
      split
      · exact (ready.become frame _).goes
      · exact ready.goes
  · exact ready.goes

end LuaHost.Guest.Machine
