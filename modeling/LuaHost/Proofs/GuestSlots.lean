import LuaHost.Guest.Engine
/-!
A guest machine leaves the slots alone in which the host keeps objects: whatever runs, is called, fails,
returns or is answered, the slots stay as they are.
-/

namespace LuaHost.Guest.Machine

variable (m : Machine)

theorem either_slots {condition : Prop} [Decidable condition] {yes no : Machine}
    (left : yes.slots = m.slots) (right : no.slots = m.slots) :
    (if condition then yes else no).slots = m.slots := by
  split
  · exact left
  · exact right

@[simp] theorem put_slots (i : Nat) (v : Value) : (m.put i v).slots = m.slots := rfl

@[simp] theorem ensure_slots (size : Nat) : (m.ensure size).slots = m.slots := by
  unfold ensure
  split <;> rfl

@[simp] theorem putAll_slots (start : Nat) (values : List Value) :
    (m.putAll start values).slots = m.slots := by
  simp [putAll]

@[simp] theorem setCell_slots (cell : Nat) (v : Value) : (m.setCell cell v).slots = m.slots := by
  unfold setCell
  split
  · rfl
  · split <;> rfl

@[simp] theorem capture_slots (place : Nat) : (m.capture place).1.slots = m.slots := by
  unfold capture
  split <;> rfl

@[simp] theorem closeCells_slots (level : Nat) : (m.closeCells level).slots = m.slots := by
  unfold closeCells
  split
  · rfl
  · split <;> rfl

@[simp] theorem park_slots (phase : Phase) : (m.park phase).slots = m.slots := rfl

@[simp] theorem switch_slots (thread : Nat) : (m.switch thread).slots = m.slots := by
  unfold switch
  split <;> rfl

@[simp] theorem become_slots (n : NativeCall) (activity : Activity) :
    (m.become n activity).slots = m.slots := rfl

/-! ### Failure -/

@[simp] theorem returnToResumer_slots (phase : Phase) (ok : Bool) (values : List Value) :
    (m.returnToResumer phase ok values).slots = m.slots := by
  unfold returnToResumer
  simp only
  split
  · split <;> simp
  · simp

@[simp] theorem leaveGate_slots (g : Gate) (below : List Frame) (signal : Signal) :
    (m.leaveGate g below signal).slots = m.slots := by
  unfold leaveGate
  simp only
  split <;> simp

@[simp] theorem unwindTo_slots (status : Status) (error : Value) (frames : List Frame) :
    (m.unwindTo status error frames).slots = m.slots := by
  induction frames with
  | nil => rfl
  | cons frame below ih =>
      cases frame with
      | native n =>
          simp only [unwindTo]
          split
          · simp
          · exact ih
      | bottom | gate => simp [unwindTo]
      | compiled | handling => exact ih

@[simp] theorem unwind_slots (status : Status) (error : Value) :
    (m.unwind status error).slots = m.slots :=
  unwindTo_slots m status _ _

/-! ### Entering functions -/

/-- What is entered has the slots of the machine that enters it. -/
def KeepsSlots (r : Except Bytes Machine) : Prop := ∀ m', r = .ok m' → m'.slots = m.slots

theorem enterCompiled_slots (func closure chunk : Nat) (p : Prototype) (cells : Array Nat)
    (wanted : Option Nat) (depth : Nat) (yieldable isTailCall : Bool) :
    m.KeepsSlots (m.enterCompiled func closure chunk p cells wanted depth yieldable isTailCall) := by
  intro m' entered
  unfold enterCompiled at entered
  simp only at entered
  split at entered
  · exact nomatch entered
  · obtain rfl := Except.ok.inj entered
    split <;> simp

theorem enterNative_slots (func : Nat) (function : Value) (activity : List Value → Activity)
    (wanted : Option Nat) (depth : Nat) (yieldable : Bool) :
    m.KeepsSlots (m.enterNative func function activity wanted depth yieldable) := by
  intro m' entered
  unfold enterNative at entered
  split at entered
  · exact nomatch entered
  · obtain rfl := Except.ok.inj entered
    rfl

theorem enterHost_slots (func index : Nat) (wanted : Option Nat) (depth : Nat) (yieldable : Bool) :
    m.KeepsSlots (m.enterHost func index wanted depth yieldable) := by
  intro m' entered
  unfold enterHost at entered
  simp only at entered
  split at entered
  · next m'' native =>
      obtain rfl := Except.ok.inj entered
      exact m.enterNative_slots _ _ _ _ _ _ m'' native
  · exact nomatch entered

theorem enterFunction_slots (func : Nat) (f : Value) (wanted : Option Nat) (depth : Nat)
    (yieldable isTailCall : Bool) :
    m.KeepsSlots (m.enterFunction func f wanted depth yieldable isTailCall) := by
  unfold enterFunction
  simp only
  split
  · exact m.enterNative_slots _ _ _ _ _ _
  · exact m.enterHost_slots _ _ _ _ _
  · split
    · exact m.enterCompiled_slots _ _ _ _ _ _ _ _ _
    · exact m.enterNative_slots _ _ _ _ _ _
    · exact m.enterNative_slots _ _ _ _ _ _
    · exact fun m' entered => Except.ok.inj entered ▸ rfl
  · exact fun m' entered => Except.ok.inj entered ▸ rfl

@[simp] theorem shiftUp_slots (func : Nat) : (m.shiftUp func).slots = m.slots := by
  simp [shiftUp]

theorem enter_slots (func : Nat) (wanted : Option Nat) (depth : Nat) (yieldable isTailCall : Bool) :
    m.KeepsSlots (m.enter func wanted depth yieldable isTailCall) := by
  unfold enter
  simp only
  split
  · exact m.enterFunction_slots _ _ _ _ _ _
  · split
    · intro m' entered
      have same := enterFunction_slots _ _ _ _ _ _ _ m' entered
      simpa using same
    · exact fun _ entered => nomatch entered

@[simp] theorem raiseAt_slots (fuel depth : Nat) (error : Value) :
    (raiseAt fuel m depth error).slots = m.slots := by
  induction fuel generalizing m depth error with
  | zero => exact m.unwind_slots _ _
  | succ fuel ih =>
      unfold raiseAt
      split
      · exact m.unwind_slots _ _
      · split
        · simp
        · exact ih _ _ _
        · exact m.unwind_slots _ _
      · split
        · exact ih _ _ _
        · exact m.unwind_slots _ _
        · simp only
          split
          · next m' entered =>
              have same := enter_slots _ _ _ _ _ _ m' entered
              simpa using same
          · rw [ih]
            simp

@[simp] theorem raise_slots (error : Value) : (m.raise error).slots = m.slots :=
  m.raiseAt_slots _ _ _

@[simp] theorem fail_slots (message : Bytes) : (m.fail message).slots = m.slots := m.raise_slots _

@[simp] theorem failTyped_slots (v : Value) (name : Option Naming.Named) (operation : String) :
    (m.failTyped v name operation).slots = m.slots :=
  m.fail_slots _

@[simp] theorem callFlat_slots (func : Nat) (wanted : Option Nat) (depth : Nat) (yieldable : Bool) :
    (m.callFlat func wanted depth yieldable).slots = m.slots := by
  unfold callFlat
  split
  · next m' entered => exact m.enter_slots _ _ _ _ _ m' entered
  · exact m.fail_slots _

@[simp] theorem callNested_slots (func : Nat) (wanted : Option Nat) (yieldable : Bool) :
    (m.callNested func wanted yieldable).slots = m.slots := by
  unfold callNested
  simp only
  split <;> simp

@[simp] theorem callValues_slots (f : Value) (arguments : List Value) (wanted : Option Nat)
    (yieldable : Bool) : (m.callValues f arguments wanted yieldable).slots = m.slots := by
  simp [callValues]

@[simp] theorem callMeta_slots (a : Activation) (f : Value) (arguments : List Value)
    (finish : Finish) : (m.callMeta a f arguments finish).slots = m.slots := by
  simp [callMeta]

@[simp] theorem concatFrom_slots (a : Activation) (i : Instruction) (joined : Value)
    (remaining : Nat) : (m.concatFrom a i joined remaining).slots = m.slots := by
  induction remaining generalizing joined with
  | zero => rfl
  | succ remaining ih =>
      unfold concatFrom
      simp only
      split
      · exact ih _
      · exact m.either_slots (by simp) (by simp)

/-! ### Returning -/

@[simp] theorem finishCall_slots (func : Nat) (wanted : Option Nat) (first count : Nat) :
    (m.finishCall func wanted first count).slots = m.slots := by
  unfold finishCall
  simp only
  split
  · split
    · split <;> rfl
    · rfl
    · rfl
    · rfl
    · simp
  · split <;> rfl
  · simp
  · simp
  · simp

@[simp] theorem pop_slots : m.pop.slots = m.slots := rfl

@[simp] theorem returnValues_slots (n : NativeCall) (values : List Value) :
    (m.returnValues n values).slots = m.slots := by
  simp [returnValues]

/-! ### Instructions -/

section Instructions
variable (a : Activation)

@[simp] theorem setReg_slots (r : Nat) (v : Value) : (m.setReg a r v).slots = m.slots := rfl

@[simp] theorem jump_slots (distance : Int) : (m.jump a distance).slots = m.slots := rfl

@[simp] theorem skipUnless_slots (condition : Bool) : (m.skipUnless a condition).slots = m.slots := by
  unfold skipUnless
  split <;> rfl

@[simp] theorem indexInto_slots (object : Value) (name : Option Naming.Named) (key : Value)
    (target : Nat) : (m.indexInto a object name key target).slots = m.slots := by
  unfold indexInto
  split <;> simp

@[simp] theorem storeInto_slots (object : Value) (name : Option Naming.Named) (key value : Value) :
    (m.storeInto a object name key value).slots = m.slots := by
  unfold storeInto
  split
  · split <;> simp
  all_goals simp

@[simp] theorem arithmeticFailure_slots (op : ArithmeticOp) (x y : Value) (i j : Nat) :
    (m.arithmeticFailure a op x y i j).slots = m.slots := by
  unfold arithmeticFailure
  split <;> simp

@[simp] theorem arithmeticStep_slots (op : ArithmeticOp) (target i j : Nat) :
    (m.arithmeticStep a op target i j).slots = m.slots := by
  unfold arithmeticStep
  simp only
  split
  · simp
  · simp
  · split <;> simp

@[simp] theorem lengthStep_slots (target source : Nat) :
    (m.lengthStep a target source).slots = m.slots := by
  unfold lengthStep
  simp only
  split
  · simp
  · split
    · simp
    · split <;> simp

@[simp] theorem equalStep_slots (expected : Bool) (x y : Value) :
    (m.equalStep a expected x y).slots = m.slots := by
  unfold equalStep
  simp only
  exact m.either_slots (by simp) (by simp)

@[simp] theorem orderFailure_slots (x y : Value) : (m.orderFailure x y).slots = m.slots := by
  simp [orderFailure]

@[simp] theorem lessStep_slots (expected : Bool) (x y : Value) :
    (m.lessStep a expected x y).slots = m.slots := by
  unfold lessStep
  split
  · simp
  · simp only
    split <;> simp

@[simp] theorem lessEqualStep_slots (expected : Bool) (x y : Value) :
    (m.lessEqualStep a expected x y).slots = m.slots := by
  unfold lessEqualStep
  split
  · simp
  · simp only
    split
    · simp
    · split <;> simp

@[simp] theorem prepareLoop_slots (i : Instruction) : (m.prepareLoop a i).slots = m.slots := by
  unfold prepareLoop
  simp only
  split
  · split
    · simp
    · split <;> simp
  · split <;> simp

@[simp] theorem continueLoop_slots (i : Instruction) : (m.continueLoop a i).slots = m.slots := by
  unfold continueLoop
  simp only
  split
  · exact m.either_slots (by simp) rfl
  · exact m.either_slots (by simp) rfl
  · rfl

@[simp] theorem iterateStep_slots (i : Instruction) : (m.iterateStep a i).slots = m.slots := by
  simp [iterateStep]

@[simp] theorem callStep_slots (i : Instruction) : (m.callStep a i).slots = m.slots := by
  unfold callStep
  simp only [callFlat_slots]
  split <;> rfl

@[simp] theorem tailCallStep_slots (i : Instruction) : (m.tailCallStep a i).slots = m.slots := by
  have same : (if i.b == 0 then m else { m with top := a.base + i.a + i.b }).slots = m.slots := by
    split <;> rfl
  unfold tailCallStep
  simp only
  refine m.either_slots ?_ ?_
  · split
    · next m' entered =>
        have kept := enter_slots _ _ _ _ _ _ m' entered
        exact kept.trans ((closeCells_slots _ _).trans same)
    · simpa using same
  · simpa using same

@[simp] theorem returnStep_slots (i : Instruction) : (m.returnStep a i).slots = m.slots := by
  simp [returnStep]

@[simp] theorem varargStep_slots (i : Instruction) : (m.varargStep a i).slots = m.slots := by
  unfold varargStep
  simp only
  split
  · split <;> simp
  · rfl

@[simp] theorem captureAll_slots (sources : List UpvalueSource) (cells : Array Nat) :
    (captureAll a sources m cells).1.slots = m.slots := by
  induction sources generalizing m cells with
  | nil => rfl
  | cons u rest ih =>
      unfold captureAll
      split
      · simp only
        rw [ih]
        simp
      · exact ih _ _

@[simp] theorem closureStep_slots (i : Instruction) : (m.closureStep a i).slots = m.slots := by
  unfold closureStep
  split
  · rfl
  · simp only
    split <;> simp

@[simp] theorem setListStep_slots (i : Instruction) : (m.setListStep a i).slots = m.slots := by
  unfold setListStep
  simp only
  split <;> rfl

@[simp] theorem execute_slots (i : Instruction) : (m.execute a i).slots = m.slots := by
  unfold execute
  cases i.op with
  | loadBool | testSet | tforLoop =>
      simp only
      split <;> simp
  | jmp =>
      simp only [jump_slots]
      split <;> simp
  | _ => simp

end Instructions

/-! ### Requests -/

section Requests
variable (n : NativeCall)

@[simp] theorem complain_slots (argument : Nat) (message : Bytes) :
    (m.complain n argument message).slots = m.slots := by
  unfold complain
  simp only
  exact m.either_slots (by simp) (by simp)

@[simp] theorem resumeStep_slots (thread : Nat) (arguments : List Value)
    (k : Bool → List Value → Program) : (m.resumeStep n thread arguments k).slots = m.slots := by
  unfold resumeStep
  simp only
  split
  · simp
  · simp
  · simp
  · split <;> simp
  · split
    · simp
    · split
      · split <;> simp
      · simp

@[simp] theorem yieldStep_slots (values : List Value) (k : List Value → Program) :
    (m.yieldStep n values k).slots = m.slots := by
  unfold yieldStep
  split <;> simp

@[simp] theorem request_slots (p : Program) : (m.request n p).slots = m.slots := by
  unfold request
  split <;> simp

end Requests

@[simp] theorem step_slots : m.step.slots = m.slots := by
  unfold step
  split
  · rfl
  · split
    · simp
    · split <;> simp
    · rfl

/-! ### The host's side -/

@[simp] theorem run_slots (n : Nat) : (m.run n).slots = m.slots := by
  induction n generalizing m with
  | zero => rfl
  | succ n ih =>
      unfold run
      split
      · rfl
      · rw [ih, step_slots]

@[simp] theorem enterGate_slots : m.enterGate.slots = m.slots := by
  unfold enterGate
  simp only
  split <;> simp

@[simp] theorem callFromHost_slots (f : Value) (arguments : List Value) :
    (m.callFromHost f arguments).slots = m.slots :=
  m.callValues_slots _ _ _ _

@[simp] theorem runFromHost_slots (p : Program) : (m.runFromHost p).slots = m.slots := by
  unfold runFromHost
  simp only
  split
  · simp
  · simp
  · split
    · next m' entered =>
        have kept := enterNative_slots _ _ _ _ _ _ _ m' entered
        simpa using kept
    · simp

@[simp] theorem abandon_slots : m.abandon.slots = m.slots := by
  unfold abandon
  split
  · simp
  · rfl

@[simp] theorem answer_slots (values : List Value) : (m.answer values).slots = m.slots := by
  unfold answer
  split
  · simp
  · rfl

@[simp] theorem raiseFromHost_slots (error : Value) : (m.raiseFromHost error).slots = m.slots := by
  simp [raiseFromHost]

@[simp] theorem breakDown_slots (values : List Value) : (m.breakDown values).slots = m.slots := by
  simp [breakDown]

@[simp] theorem answerLog_slots : m.answerLog.slots = m.slots := by
  unfold answerLog
  simp only
  split
  · split <;> simp
  · rfl

@[simp] theorem answerFile_slots (content : Except String Bytes) :
    (m.answerFile content).slots = m.slots := by
  unfold answerFile
  simp only
  split
  · split <;> simp
  · rfl

end LuaHost.Guest.Machine
