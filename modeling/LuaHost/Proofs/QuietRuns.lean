import LuaHost.Proofs.Renewal
/-!
A function of a chunk runs quietly as long as it calls nothing, makes no function, assigns none of the variables
that it captured, and reads them before anyone else has assigned them. If its code has been made a function once
more, the new function does the same in its place, instruction for instruction, until it returns the same values
or fails with the same error object.
-/

namespace LuaHost.Guest

variable {later : Nat → Nat} {slot : Nat} {p : Prototype}

namespace Table
variable (t : Table) (n : Nat)

theorem hasIndex_shift (i : Nat) : (t.shift n).hasIndex i = t.hasIndex i := rfl

theorem boundFrom_shift (fuel low high : Nat) :
    (t.shift n).boundFrom fuel low high = t.boundFrom fuel low high := by
  induction fuel generalizing low high with
  | zero => rfl
  | succ fuel ih => simp only [boundFrom, hasIndex_shift, ih]

theorem bisect_shift (fuel low high : Nat) : (t.shift n).bisect fuel low high = t.bisect fuel low high := by
  induction fuel generalizing low high with
  | zero => rfl
  | succ fuel ih => simp only [bisect, hasIndex_shift, ih]

theorem length_shift : (t.shift n).length = t.length := by
  simp only [length, boundFrom_shift, bisect_shift]
  rfl

theorem set_shift (key value : Value) : (t.shift n).set key value = (t.set key value).shift n := by
  simp only [set, setKey, remove, insert, shift]
  split
  · split
    · split <;> rfl
    · split <;> rfl
  · rfl

end Table

namespace Store
variable (s : Store)

/-- What a variable holds when its function has just been made of a chunk: the first one the globals. -/
def initial (n : Nat) : Value := if n = 0 then .table s.globals else .nil

theorem table_renew (later : Nat → Nat) (p : Prototype) (id : Nat) : ∃ n, (s.renew later p).table id = (s.table id).shift n := by
  by_cases bound : id < s.tables.size
  · exact ⟨later id, by simp [table, renew, bound]⟩
  · exact ⟨0, by simp [table, renew, bound, Table.shift]⟩

theorem get_renew (id : Nat) (key : Value) :
    ((s.renew later p).table id).get key = (s.table id).get key := by
  obtain ⟨n, table⟩ := s.table_renew later p id
  rw [table]
  rfl

theorem metatable_renew (id : Nat) :
    ((s.renew later p).table id).metatable = (s.table id).metatable := by
  obtain ⟨n, table⟩ := s.table_renew later p id
  rw [table]
  rfl

theorem metafield_renew (v event : Value) : (s.renew later p).metafield v event = s.metafield v event := by
  have metatable : (s.renew later p).metatable? v = s.metatable? v := by
    cases v with
    | table id => exact s.metatable_renew id
    | _ => rfl
  simp only [metafield, metatable, get_renew]

theorem length_renew (id : Nat) : ((s.renew later p).table id).length = (s.table id).length := by
  obtain ⟨n, table⟩ := s.table_renew later p id
  rw [table, Table.length_shift]

theorem read_renew (object key : Value) : (s.renew later p).read object key = s.read object key := by
  suffices every : ∀ fuel object first,
      (s.renew later p).readFrom key fuel object first = s.readFrom key fuel object first from
    every maxChain object true
  intro fuel
  induction fuel with
  | zero => exact fun _ _ => rfl
  | succ fuel ih =>
      intro object first
      cases object <;> simp only [readFrom, get_renew, metatable_renew, metafield_renew, ih]

theorem write_renew (object key : Value) : (s.renew later p).write object key = s.write object key := by
  suffices every : ∀ fuel object first,
      (s.renew later p).writeFrom key fuel object first = s.writeFrom key fuel object first from
    every maxChain object true
  intro fuel
  induction fuel with
  | zero => exact fun _ _ => rfl
  | succ fuel ih =>
      intro object first
      cases object <;> simp only [writeFrom, get_renew, metatable_renew, metafield_renew, ih]

theorem modifyTable_renew (id : Nat) {f : Table → Table} (same : ∀ t n, f (t.shift n) = (f t).shift n) :
    (s.renew later p).modifyTable id f = (s.modifyTable id f).renew later p := by
  simp only [modifyTable, renew, Store.mk.injEq, and_true]
  apply Array.ext
  · simp
  · intro i _ _
    simp only [Array.getElem_modify, Array.getElem_mapIdx]
    split
    · exact same _ _
    · rfl

theorem typeName_renew (v : Value) : (s.renew later p).typeName v = s.typeName v := by
  cases v <;> simp only [typeName, typeName.name?, metafield_renew]

/-- A table that is made has a number that is later by the objects that a function comes with. -/
theorem newTable_renew (later : Nat → Nat) (p : Prototype) : ∃ later', ((s.renew later p).newTable {}).1 = (s.newTable {}).1.renew later' p := by
  let later' := Function.update later s.tables.size (p.count + 2)
  have older : (s.tables.mapIdx fun i t => t.shift (later' i)) =
      s.tables.mapIdx fun i t => t.shift (later i) := by
    apply Array.ext
    · simp
    · intro i bound _
      have other : i ≠ s.tables.size := by
        simp only [Array.size_mapIdx] at bound
        omega
      simp only [Array.getElem_mapIdx, later', Function.update_of_ne other]
  have number : s.tables.size + (s.closures.size + 1) + s.userdata.size + (s.unlisted + p.count + 1) + 1 =
      s.objects + 1 + (p.count + 2) := by
    simp only [objects]
    omega
  refine ⟨later', ?_⟩
  simp only [newTable, renew, Store.mk.injEq, and_true, Array.mapIdx_push, older]
  simp only [objects, Array.size_mapIdx, Array.size_push, number, Table.shift, later',
    Function.update_self]

end Store

/-- A signal but for the traceback of a failure. -/
def Signal.plain : Signal → Signal
  | .failed status error _ => .failed status error none
  | signal => signal

/-- The instruction that a function runs next. -/
def Activation.next (a : Activation) : Instruction := (a.prototype.code[a.pc]?).getD default

/-- A function that has fetched its next instruction. -/
def Activation.advanced (a : Activation) : Activation := { a with pc := a.pc + 1 }

namespace Machine
variable (m : Machine) (a : Activation)

/-! ### Quiet instructions -/

/-- A variable that the active function captured holds what it held when the function was made of its chunk. -/
def Untouched (n : Nat) : Prop :=
  n < a.prototype.upvalues.size ∧ m.cellValue (a.cells.getD n 0) = m.store.initial n

/-- A value is looked up without a call. -/
def ReadsQuietly (object key : Value) : Prop := ∀ f o, m.store.read object key ≠ .metamethod f o

/-- A value is stored without a call. -/
def WritesQuietly (object key : Value) : Prop := ∀ f o, m.store.write object key ≠ .metamethod f o

/-- An operation comes to a value without a call, or fails. -/
def ComputesQuietly (op : ArithmeticOp) (i j : Nat) : Prop :=
  arithmetic op (m.operand a i) (m.operand a j) = .unsuitable →
    m.binaryHandler (m.operand a i) (m.operand a j) (ofText op.event) = .nil

/-- Operands are joined with what comes after them without a call, or cannot be joined. -/
def JoinsQuietly (i : Instruction) (joined : Value) : Nat → Prop
  | 0 => True
  | remaining + 1 =>
    match concatText? (m.reg a (i.b + remaining)), concatText? joined with
    | some x, some y => JoinsQuietly i (.string (x ++ y)) remaining
    | _, _ => m.binaryHandler (m.reg a (i.b + remaining)) joined Event.concat = .nil

/-- No variable that was captured at a place from `level` on is still in its place. -/
def NothingToClose (level : Nat) : Prop := ∀ place ∈ m.openCells.head?, place.1 < level

/-- An instruction calls nothing, makes no function, assigns no variable that its function captured and reads
none that has been assigned. -/
def Quiet (i : Instruction) : Prop :=
  match i.op with
  | .move | .loadK | .loadBool | .loadNil | .newTable | .not | .test | .testSet | .forLoop | .forPrep
  | .tforLoop | .setList => True
  | .getUpval => m.Untouched a i.b
  | .getTabUp => m.Untouched a i.b ∧ m.ReadsQuietly (m.store.initial i.b) (m.operand a i.c)
  | .setTabUp => m.Untouched a i.a ∧ m.WritesQuietly (m.store.initial i.a) (m.operand a i.b)
  | .getTable | .self => m.ReadsQuietly (m.reg a i.b) (m.operand a i.c)
  | .setTable => m.WritesQuietly (m.reg a i.a) (m.operand a i.b)
  | .add => m.ComputesQuietly a .add i.b i.c
  | .sub => m.ComputesQuietly a .sub i.b i.c
  | .mul => m.ComputesQuietly a .mul i.b i.c
  | .mod => m.ComputesQuietly a .mod i.b i.c
  | .pow => m.ComputesQuietly a .pow i.b i.c
  | .div => m.ComputesQuietly a .div i.b i.c
  | .idiv => m.ComputesQuietly a .idiv i.b i.c
  | .band => m.ComputesQuietly a .band i.b i.c
  | .bor => m.ComputesQuietly a .bor i.b i.c
  | .bxor => m.ComputesQuietly a .bxor i.b i.c
  | .shl => m.ComputesQuietly a .shl i.b i.c
  | .shr => m.ComputesQuietly a .shr i.b i.c
  | .unm => m.ComputesQuietly a .unm i.b i.b
  | .bnot => m.ComputesQuietly a .bnot i.b i.b
  | .len => (∃ s, m.reg a i.b = .string s) ∨ m.store.metafield (m.reg a i.b) Event.len = .nil
  | .concat => m.JoinsQuietly a i (m.reg a i.c) (i.c - i.b)
  | .jmp => 0 < i.a → m.NothingToClose (a.base + i.a - 1)
  | .eq => asksForEquality (m.operand a i.b) (m.operand a i.c) = true →
      m.binaryHandler (m.operand a i.b) (m.operand a i.c) Event.eq = .nil
  | .lt => lessThan? (m.operand a i.b) (m.operand a i.c) = none →
      m.binaryHandler (m.operand a i.b) (m.operand a i.c) Event.lt = .nil
  | .le => lessEqual? (m.operand a i.b) (m.operand a i.c) = none →
      m.binaryHandler (m.operand a i.b) (m.operand a i.c) Event.le = .nil ∧
        m.binaryHandler (m.operand a i.c) (m.operand a i.b) Event.lt = .nil
  | .vararg => i.b ≠ 0
  | .ret => m.NothingToClose a.base
  | .setUpval | .call | .tailCall | .tforCall | .closure => False

variable {m a}

theorem closeCells_nothing {level : Nat} (nothing : m.NothingToClose level) : m.closeCells level = m := by
  unfold closeCells
  split
  · rfl
  · next place cell rest open_ =>
      rw [if_pos (nothing (place, cell) (by rw [open_]; rfl))]

theorem setItems_shift (value : Nat → Value) (last count : Nat) (t : Table) (n : Nat) :
    setItems (t.shift n) value last count = (setItems t value last count).shift n := by
  induction count generalizing t last with
  | zero => rfl
  | succ count ih => rw [setItems, setItems, Table.setInt, Table.set_shift, ih, ← Table.setInt]

/-! ### Two functions of the same code -/

/-- The machine runs a function of the code that the host has called without arguments. -/
structure Inside (m : Machine) (p : Prototype) (a : Activation) : Prop where
  goesOn : m.signal = none
  frame : m.frame = .compiled a
  layout : a.base = a.func + 1
  code : a.prototype = p
  called : ∃ g below, m.callers = .gate g :: below
  shallow : m.baseDepth + a.depth + 1 < callLimit

/-- Two machines run functions of the same code alike: the second one is like the first but for the function
that was made later on, or both have stopped with the same values or the same error object, and with the same
tables but for their numbers. -/
inductive Alike (slot : Nat) (p : Prototype) : Machine → Machine → Prop
  | goesOn {m : Machine} {a : Activation} (later : Nat → Nat) (inside : m.Inside p a) :
      Alike slot p m (m.refresh later slot p)
  | stopped {m m' : Machine} {signal signal' : Signal} (later : Nat → Nat) (first : m.signal = some signal)
      (second : m'.signal = some signal') (last : signal.IsOver) (same : signal'.plain = signal.plain)
      (tables : m'.store.tables = (m.store.renew later p).tables)
      (hostError : m'.store.hostError = m.store.hostError) : Alike slot p m m'

theorem refresh_eq (frame : m.frame = .compiled a) :
    m.refresh later slot p =
      { m.renew later slot p with
        stack := m.stack.setIfInBounds a.func (.closure m.store.closures.size)
        frame := .compiled (a.renew m.store p) } := by
  simp only [refresh, frame]

section
variable (inside : m.Inside p a)
include inside

theorem store_refresh : (m.refresh later slot p).store = m.store.renew later p := by
  rw [refresh_eq inside.frame]
  rfl

theorem top_refresh : (m.refresh later slot p).top = m.top := by
  rw [refresh_eq inside.frame]
  rfl

theorem openCells_refresh : (m.refresh later slot p).openCells = m.openCells := by
  rw [refresh_eq inside.frame]
  rfl

theorem Inside.refresh : (m.refresh later slot p).Inside p (a.renew m.store p) := by
  rw [refresh_eq inside.frame]
  exact ⟨inside.goesOn, rfl, inside.layout, inside.code, inside.called, inside.shallow⟩

theorem peek_refresh {i : Nat} (above : a.func < i) : (m.refresh later slot p).peek i = m.peek i := by
  rw [refresh_eq inside.frame]
  simp only [peek, Array.getD_eq_getD_getElem?, Array.getElem?_setIfInBounds_ne (Nat.ne_of_lt above)]

theorem reg_refresh (r : Nat) : (m.refresh later slot p).reg (a.renew m.store p) r = m.reg a r := by
  refine peek_refresh inside ?_
  show a.func < a.base + r
  have layout := inside.layout
  omega

theorem operand_refresh (n : Nat) :
    (m.refresh later slot p).operand (a.renew m.store p) n = m.operand a n := by
  unfold operand
  split
  · rfl
  · exact reg_refresh inside n

theorem binaryHandler_refresh (x y event : Value) :
    (m.refresh later slot p).binaryHandler x y event = m.binaryHandler x y event := by
  simp only [binaryHandler, store_refresh inside, Store.metafield_renew]

theorem extract_refresh {start : Nat} (above : a.func < start) (stop : Nat) :
    (m.refresh later slot p).stack.extract start stop = m.stack.extract start stop := by
  have apart (i : Nat) : a.func ≠ start + i := by omega
  rw [refresh_eq inside.frame]
  apply Array.ext_getElem?
  intro i
  simp only [Array.getElem?_extract, Array.size_setIfInBounds, Array.getElem?_setIfInBounds_ne (apart i)]

/-- A variable of the new function holds what it holds in a function that has just been made. -/
theorem cellValue_refresh {n : Nat} (untouched : m.Untouched a n) :
    (m.refresh later slot p).cellValue ((a.renew m.store p).cells.getD n 0) = m.store.initial n := by
  have bound : n < p.upvalues.size := inside.code ▸ untouched.1
  have cell : (a.renew m.store p).cells.getD n 0 = m.store.cells.size + n := by
    simp [Activation.renew, bound]
  have content : (m.refresh later slot p).store.cells.getD (m.store.cells.size + n) (.closed .nil) =
      .closed (m.store.initial n) := by
    rw [store_refresh inside]
    cases n with
    | zero => simp [Store.renew, Store.initial, Array.getElem?_append]
    | succ n =>
        simp only [Store.renew, Store.initial, Array.getD_eq_getD_getElem?, Array.getElem?_append,
          Array.size_push, Array.getElem?_replicate]
        rw [if_neg (by omega)]
        split <;> rfl
  rw [cell, cellValue, content]

end

section
variable (inside : m.Inside p a)
include inside

/-! ### The ways in which a function goes on -/

theorem Inside.setReg (r : Nat) (v : Value) : (m.setReg a r v).Inside p a :=
  ⟨inside.goesOn, inside.frame, inside.layout, inside.code, inside.called, inside.shallow⟩

theorem setReg_refresh (r : Nat) (v : Value) :
    (m.refresh later slot p).setReg (a.renew m.store p) r v = (m.setReg a r v).refresh later slot p := by
  have above : a.func ≠ a.base + r := by
    have layout := inside.layout
    omega
  have base : (a.renew m.store p).base = a.base := rfl
  rw [refresh_eq inside.frame, refresh_eq (inside.setReg r v).frame]
  simp only [setReg, put, base, Array.setIfInBounds_comm _ _ above]
  rfl

theorem setReg_alike (r : Nat) (v : Value) : Alike slot p (m.setReg a r v)
    ((m.refresh later slot p).setReg (a.renew m.store p) r v) :=
  setReg_refresh inside r v ▸ .goesOn later (inside.setReg r v)

theorem jump_alike (distance : Int) : Alike slot p (m.jump a distance)
    ((m.refresh later slot p).jump (a.renew m.store p) distance) := by
  have frame : (m.jump a distance).Inside p { a with pc := ((a.pc : Int) + distance).toNat } :=
    ⟨inside.goesOn, rfl, inside.layout, inside.code, inside.called, inside.shallow⟩
  have jumped : (m.refresh later slot p).jump (a.renew m.store p) distance =
      (m.jump a distance).refresh later slot p := by
    rw [refresh_eq inside.frame, refresh_eq frame.frame]
    rfl
  exact jumped ▸ .goesOn later frame

theorem skipUnless_alike (condition : Bool) : Alike slot p (m.skipUnless a condition)
    ((m.refresh later slot p).skipUnless (a.renew m.store p) condition) := by
  cases condition with
  | true => exact .goesOn later inside
  | false => exact jump_alike inside 1

/-- Two registers are set before the function goes on elsewhere. -/
theorem setRegs_alike (r r' : Nat) (v v' : Value) (distance : Int) :
    Alike slot p (((m.setReg a r v).setReg a r' v').jump a distance)
      ((((m.refresh later slot p).setReg (a.renew m.store p) r v).setReg (a.renew m.store p) r' v').jump
        (a.renew m.store p) distance) := by
  have first := inside.setReg r v
  rw [setReg_refresh inside]
  have second : ((m.setReg a r v).refresh later slot p).setReg (a.renew (m.setReg a r v).store p) r' v' =
      ((m.setReg a r v).setReg a r' v').refresh later slot p := setReg_refresh first r' v'
  exact second ▸ jump_alike (first.setReg r' v') distance

theorem raise_alike (error : Value) : Alike slot p (m.raise error)
    ((m.refresh later slot p).raise error) := by
  have fails {m : Machine} {a : Activation} (inside : m.Inside p a) : ∃ traceback,
      (m.raise error).signal = some (.failed .raised error traceback) ∧
        (m.raise error).store.tables = m.store.tables ∧
        (m.raise error).store.hostError = m.store.hostError := by
    obtain ⟨g, below, called⟩ := inside.called
    have frames : m.frame :: m.callers = [.compiled a] ++ .gate g :: below := by
      rw [inside.frame, called]
      rfl
    have left : ∀ fr ∈ [Frame.compiled a], fr.IsLeft := by
      intro fr mem
      rw [List.mem_singleton.mp mem]
      exact trivial
    have shallow : m.depth + 1 < callLimit := by
      rw [depth, inside.frame]
      exact inside.shallow
    exact raise_uncaught frames left shallow error
  obtain ⟨traceback, signal, tables, hostError⟩ := fails inside
  obtain ⟨traceback', signal', tables', hostError'⟩ := fails (m := m.refresh later slot p) inside.refresh
  refine .stopped later signal signal' trivial rfl ?_ ?_
  · rw [tables', store_refresh inside, Store.renew, Store.renew, tables]
  · rw [hostError', store_refresh inside, hostError]
    rfl

theorem fail_alike (message : Bytes) : Alike slot p (m.fail message)
    ((m.refresh later slot p).fail message) := by
  have positioned : (m.refresh later slot p).positioned message = m.positioned message := by
    simp only [Machine.positioned, here, inside.frame, inside.refresh.frame]
    rfl
  rw [fail, fail, positioned]
  exact raise_alike inside _

theorem failTyped_alike (v : Value) (name : Option Naming.Named) (operation : String) :
    Alike slot p (m.failTyped v name operation)
      ((m.refresh later slot p).failTyped v name operation) := by
  have message : (m.refresh later slot p).typeErrorMessage v name operation =
      m.typeErrorMessage v name operation := by
    simp only [typeErrorMessage, store_refresh inside, Store.typeName_renew]
  rw [failTyped, failTyped, message]
  exact fail_alike inside _

/-! ### Instructions -/

theorem indexInto_alike {object key : Value} {name : Option Naming.Named} {target : Nat}
    (quiet : m.ReadsQuietly object key) : Alike slot p (m.indexInto a object name key target)
      ((m.refresh later slot p).indexInto (a.renew m.store p) object name key target) := by
  simp only [indexInto, store_refresh inside, Store.read_renew]
  cases access : m.store.read object key with
  | value v => exact setReg_alike inside target v
  | slot => exact .goesOn later inside
  | metamethod f o => exact absurd access (quiet f o)
  | notIndexable v first => exact failTyped_alike inside v _ _
  | loop => exact fail_alike inside _

/-- What is stored in a table is stored there all the same. -/
theorem modifyTable_alike (id : Nat) {f : Table → Table} (same : ∀ t n, f (t.shift n) = (f t).shift n) :
    Alike slot p { m with store := m.store.modifyTable id f }
      { m.refresh later slot p with store := (m.refresh later slot p).store.modifyTable id f } := by
  have stored : ({ m with store := m.store.modifyTable id f }).Inside p a :=
    ⟨inside.goesOn, inside.frame, inside.layout, inside.code, inside.called, inside.shallow⟩
  have equal : { m.refresh later slot p with store := (m.refresh later slot p).store.modifyTable id f } =
      ({ m with store := m.store.modifyTable id f }).refresh later slot p := by
    rw [refresh_eq inside.frame, refresh_eq stored.frame]
    simp only [renew, m.store.modifyTable_renew id same]
    rfl
  exact equal ▸ .goesOn later stored

theorem storeInto_alike {object key : Value} {name : Option Naming.Named} (value : Value)
    (quiet : m.WritesQuietly object key) : Alike slot p (m.storeInto a object name key value)
      ((m.refresh later slot p).storeInto (a.renew m.store p) object name key value) := by
  have write : (m.refresh later slot p).store.write object key = m.store.write object key := by
    rw [store_refresh inside, Store.write_renew]
  simp only [storeInto, write]
  cases access : m.store.write object key with
  | slot t =>
      cases Store.keyProblem? key with
      | none =>
          exact modifyTable_alike (f := (·.set key value)) inside t fun table n => table.set_shift n key value
      | some problem => exact fail_alike inside _
  | value => exact .goesOn later inside
  | metamethod f o => exact absurd access (quiet f o)
  | notIndexable v first => exact failTyped_alike inside v _ _
  | loop => exact fail_alike inside _

theorem arithmeticFailure_alike (op : ArithmeticOp) (x y : Value) (i j : Nat) :
    Alike slot p (m.arithmeticFailure a op x y i j)
      ((m.refresh later slot p).arithmeticFailure (a.renew m.store p) op x y i j) := by
  unfold arithmeticFailure
  split
  · exact fail_alike inside _
  · exact failTyped_alike inside _ _ _

theorem arithmeticStep_alike {op : ArithmeticOp} {target i j : Nat} (quiet : m.ComputesQuietly a op i j) :
    Alike slot p (m.arithmeticStep a op target i j)
      ((m.refresh later slot p).arithmeticStep (a.renew m.store p) op target i j) := by
  simp only [arithmeticStep, operand_refresh inside, binaryHandler_refresh inside]
  cases computed : arithmetic op (m.operand a i) (m.operand a j) with
  | value v => exact setReg_alike inside target v
  | error e => exact fail_alike inside _
  | unsuitable =>
      simp only [quiet computed]
      exact arithmeticFailure_alike inside op _ _ i j

theorem lengthStep_alike {target source : Nat}
    (quiet : (∃ s, m.reg a source = .string s) ∨ m.store.metafield (m.reg a source) Event.len = .nil) :
    Alike slot p (m.lengthStep a target source)
      ((m.refresh later slot p).lengthStep (a.renew m.store p) target source) := by
  simp only [lengthStep, reg_refresh inside, store_refresh inside, Store.metafield_renew,
    Store.length_renew]
  rcases quiet with ⟨s, text⟩ | plain
  · rw [text]
    exact setReg_alike inside target _
  · have name : nameOf (a.renew m.store p) source = nameOf a source := rfl
    have handled : (!Value.nil.isNil) = false := rfl
    simp only [plain, name, handled, Bool.false_eq_true, if_false]
    cases m.reg a source with
    | string s => exact setReg_alike inside target _
    | table t => exact setReg_alike inside target _
    | _ => exact failTyped_alike inside _ _ _

theorem equalStep_alike {expected : Bool} {x y : Value}
    (quiet : asksForEquality x y = true → m.binaryHandler x y Event.eq = .nil) :
    Alike slot p (m.equalStep a expected x y)
      ((m.refresh later slot p).equalStep (a.renew m.store p) expected x y) := by
  have handler : (if asksForEquality x y then m.binaryHandler x y Event.eq else .nil) = .nil := by
    split
    · next asks => exact quiet asks
    · rfl
  simp only [equalStep, binaryHandler_refresh inside, handler]
  exact skipUnless_alike inside _

theorem orderFailure_alike (x y : Value) : Alike slot p (m.orderFailure x y)
    ((m.refresh later slot p).orderFailure x y) := by
  simp only [orderFailure, store_refresh inside, Store.typeName_renew]
  exact fail_alike inside _

theorem lessStep_alike {expected : Bool} {x y : Value}
    (quiet : lessThan? x y = none → m.binaryHandler x y Event.lt = .nil) :
    Alike slot p (m.lessStep a expected x y)
      ((m.refresh later slot p).lessStep (a.renew m.store p) expected x y) := by
  simp only [lessStep, binaryHandler_refresh inside]
  cases ordered : lessThan? x y with
  | some r => exact skipUnless_alike inside _
  | none =>
      simp only [quiet ordered]
      exact orderFailure_alike inside x y

theorem lessEqualStep_alike {expected : Bool} {x y : Value}
    (quiet : lessEqual? x y = none →
      m.binaryHandler x y Event.le = .nil ∧ m.binaryHandler y x Event.lt = .nil) :
    Alike slot p (m.lessEqualStep a expected x y)
      ((m.refresh later slot p).lessEqualStep (a.renew m.store p) expected x y) := by
  simp only [lessEqualStep, binaryHandler_refresh inside]
  cases ordered : lessEqual? x y with
  | some r => exact skipUnless_alike inside _
  | none =>
      simp only [(quiet ordered).1, (quiet ordered).2]
      exact orderFailure_alike inside x y

theorem continueLoop_alike (i : Instruction) : Alike slot p (m.continueLoop a i)
    ((m.refresh later slot p).continueLoop (a.renew m.store p) i) := by
  have again (v : Value) (condition : Prop) [Decidable condition] : Alike slot p
      (if condition then ((m.setReg a i.a v).setReg a (i.a + 3) v).jump a i.bx else m)
      (if condition then (((m.refresh later slot p).setReg (a.renew m.store p) i.a v).setReg
        (a.renew m.store p) (i.a + 3) v).jump (a.renew m.store p) i.bx else m.refresh later slot p) := by
    split
    · exact setRegs_alike inside _ _ _ _ _
    · exact .goesOn later inside
  simp only [continueLoop, reg_refresh inside]
  split
  · exact again _ _
  · exact again _ _
  · exact .goesOn later inside

theorem prepareLoop_alike (i : Instruction) : Alike slot p (m.prepareLoop a i)
    ((m.refresh later slot p).prepareLoop (a.renew m.store p) i) := by
  have floats (l s f : Float) : Alike slot p
      ((((m.setReg a (i.a + 1) (.float l)).setReg a (i.a + 2) (.float s)).setReg a i.a (.float (f - s))).jump
        a i.bx)
      (((((m.refresh later slot p).setReg (a.renew m.store p) (i.a + 1) (.float l)).setReg
        (a.renew m.store p) (i.a + 2) (.float s)).setReg (a.renew m.store p) i.a (.float (f - s))).jump
        (a.renew m.store p) i.bx) := by
    rw [setReg_refresh inside]
    exact setRegs_alike (inside.setReg (i.a + 1) (.float l)) _ _ _ _ _
  simp only [prepareLoop, reg_refresh inside]
  split
  · split
    · exact setRegs_alike inside _ _ _ _ _
    · split
      · exact fail_alike inside _
      · exact fail_alike inside _
      · exact fail_alike inside _
      · exact floats _ _ _
  · split
    · exact fail_alike inside _
    · exact fail_alike inside _
    · exact fail_alike inside _
    · exact floats _ _ _

/-- Registers above the function are filled all the same. -/
theorem fillNil_alike (r count : Nat) : Alike slot p { m with stack := fillNil m.stack (a.base + r) count }
    { m.refresh later slot p with
      stack := fillNil (m.refresh later slot p).stack (a.base + r) count } := by
  have above : a.func < a.base + r := by
    have layout := inside.layout
    omega
  have filled : ({ m with stack := fillNil m.stack (a.base + r) count }).Inside p a :=
    ⟨inside.goesOn, inside.frame, inside.layout, inside.code, inside.called, inside.shallow⟩
  have equal : { m.refresh later slot p with
        stack := fillNil (m.refresh later slot p).stack (a.base + r) count } =
      ({ m with stack := fillNil m.stack (a.base + r) count }).refresh later slot p := by
    rw [refresh_eq inside.frame, refresh_eq filled.frame]
    simp only [fillNil_set _ above]
    rfl
  exact equal ▸ .goesOn later filled

theorem top_alike (later : Nat → Nat) (slot : Nat) (b : Activation)
    (same : b = { a with finish := .results }) (top : Nat) :
    Alike slot p { m with frame := .compiled b, top }
      { m.refresh later slot p with frame := .compiled (b.renew m.store p), top } := by
  subst same
  have goes : ({ m with frame := .compiled { a with finish := .results }, top }).Inside p
      { a with finish := .results } :=
    ⟨inside.goesOn, rfl, inside.layout, inside.code, inside.called, inside.shallow⟩
  have equal : { m.refresh later slot p with
        frame := .compiled ({ a with finish := .results }.renew m.store p), top } =
      ({ m with frame := .compiled { a with finish := .results }, top }).refresh later slot p := by
    rw [refresh_eq inside.frame, refresh_eq goes.frame]
    rfl
  exact equal ▸ .goesOn later goes

theorem concatFrom_alike {i : Instruction} {joined : Value} {remaining : Nat}
    (quiet : m.JoinsQuietly a i joined remaining) :
    Alike slot p (m.concatFrom a i joined remaining)
      ((m.refresh later slot p).concatFrom (a.renew m.store p) i joined remaining) := by
  induction remaining generalizing joined with
  | zero =>
      have done := top_alike (inside.setReg i.a joined) later slot _ rfl a.limit
      rw [← setReg_refresh inside] at done
      exact done
  | succ remaining ih =>
      have same : (m.refresh later slot p).peek ((a.renew m.store p).base + (i.b + remaining)) =
          m.reg a (i.b + remaining) := reg_refresh inside _
      have here : m.peek (a.base + (i.b + remaining)) = m.reg a (i.b + remaining) := rfl
      simp only [JoinsQuietly] at quiet
      simp only [concatFrom, same, here, store_refresh inside, Store.metafield_renew]
      split
      · next x y left right =>
          simp only [left, right] at quiet
          exact ih quiet
      · next unsuitable =>
          split at quiet
          · next x y left right => exact (unsuitable x y left right).elim
          · rw [binaryHandler] at quiet
            have nil : Value.nil.isNil = true := rfl
            simp only [quiet, nil, Bool.not_true, Bool.false_eq_true, if_false]
            exact failTyped_alike inside _ _ _

theorem setListStep_alike (i : Instruction) : Alike slot p (m.setListStep a i)
    ((m.refresh later slot p).setListStep (a.renew m.store p) i) := by
  have above : a.func < a.base + i.a := by
    have layout := inside.layout
    omega
  have list : (m.refresh later slot p).peek (a.base + i.a) = m.peek (a.base + i.a) :=
    peek_refresh inside above
  have base : (a.renew m.store p).base = a.base := rfl
  simp only [setListStep, base, top_refresh inside, list, extract_refresh inside above]
  generalize (if (i.b == 0) = true then m.top - (a.base + i.a) - 1 else i.b) = count
  cases m.peek (a.base + i.a)
  case table t =>
    let items (n : Nat) : Value := (m.stack.extract (a.base + i.a) (a.base + i.a + count + 1)).getD n .nil
    let last := (i.c - 1) * Compiler.itemsPerStore + count
    let topped : Machine := { m with top := a.limit }
    have goes : topped.Inside p a :=
      ⟨inside.goesOn, inside.frame, inside.layout, inside.code, inside.called, inside.shallow⟩
    let stored (t : Table) : Table := setItems t items last count
    have equal : topped.refresh later slot p = { m.refresh later slot p with top := a.limit } := by
      rw [refresh_eq inside.frame, refresh_eq goes.frame]
      rfl
    have alike : Alike slot p { topped with store := topped.store.modifyTable t stored }
        { topped.refresh later slot p with
          store := (topped.refresh later slot p).store.modifyTable t stored } :=
      modifyTable_alike goes t (setItems_shift items last count)
    rw [equal] at alike
    exact alike
  all_goals exact .goesOn later inside

theorem varargStep_alike {i : Instruction} (counted : i.b ≠ 0) :
    Alike slot p (m.varargStep a i) ((m.refresh later slot p).varargStep (a.renew m.store p) i) := by
  have layout := inside.layout
  have none : a.base - a.func - 1 - a.prototype.parameters = 0 := by omega
  have none' : (a.renew m.store p).base - (a.renew m.store p).func - 1 -
      (a.renew m.store p).prototype.parameters = 0 := none
  have counted' : (i.b == 0) = false := by simpa using counted
  simp only [varargStep, none, none', counted', Nat.min_zero, moveDown, Nat.sub_zero, Nat.add_zero,
    Bool.false_eq_true, if_false]
  exact fillNil_alike inside i.a _

/-- A table that is made is made all the same, and has another number. -/
theorem newTable_alike (target : Nat) :
    Alike slot p ({ m with store := (m.store.newTable {}).1 }.setReg a target (.table m.store.tables.size))
      ({ m.refresh later slot p with store := ((m.refresh later slot p).store.newTable {}).1 }.setReg
        (a.renew m.store p) target (.table (m.refresh later slot p).store.tables.size)) := by
  obtain ⟨later', made⟩ := m.store.newTable_renew later p
  let grown : Machine := { m with store := (m.store.newTable {}).1 }
  have goes : grown.Inside p a :=
    ⟨inside.goesOn, inside.frame, inside.layout, inside.code, inside.called, inside.shallow⟩
  have size : (m.refresh later slot p).store.tables.size = m.store.tables.size := by
    rw [store_refresh inside]
    exact Array.size_mapIdx
  have equal : { m.refresh later slot p with store := ((m.refresh later slot p).store.newTable {}).1 } =
      grown.refresh later' slot p := by
    rw [refresh_eq inside.frame, refresh_eq goes.frame]
    simp only [renew, made]
    rfl
  rw [equal, size]
  exact setReg_alike goes target _

theorem closeCells_refresh {level : Nat} (nothing : m.NothingToClose level) :
    (m.refresh later slot p).closeCells level = m.refresh later slot p := by
  refine closeCells_nothing ?_
  rw [NothingToClose, openCells_refresh inside]
  exact nothing

theorem returnStep_alike (i : Instruction) (nothing : m.NothingToClose a.base) :
    Alike slot p (m.returnStep a i) ((m.refresh later slot p).returnStep (a.renew m.store p) i) := by
  have returns {m : Machine} {a : Activation} (inside : m.Inside p a) (closed : m.closeCells a.base = m) :
      (m.returnStep a i).signal = some (.finished (m.range (a.base + i.a)
        (if i.b == 0 then m.top - (a.base + i.a) else i.b - 1))) ∧ (m.returnStep a i).store = m.store := by
    obtain ⟨g, below, called⟩ := inside.called
    let left : Machine := { m with frame := .gate g, callers := below }
    have popped : m.pop = left := by
      simp only [pop, called]
      rfl
    rw [returnStep, closed, popped]
    exact leaveGate_signal left g below _
  have range (count : Nat) : (m.refresh later slot p).range (a.base + i.a) count =
      m.range (a.base + i.a) count := by
    have layout := inside.layout
    exact congrArg Array.toList (extract_refresh inside (by omega) _)
  obtain ⟨signal, store⟩ := returns inside (closeCells_nothing nothing)
  obtain ⟨signal', store'⟩ := returns (m := m.refresh later slot p) inside.refresh
    (closeCells_refresh inside nothing)
  have base : (a.renew m.store p).base = a.base := rfl
  rw [base, top_refresh inside, range] at signal'
  refine .stopped later signal signal' trivial rfl ?_ ?_
  · rw [store, store', store_refresh inside]
  · rw [store, store', store_refresh inside]
    rfl

/-- The new function does what the one does that it is active in place of. -/
theorem execute_alike {i : Instruction} (quiet : m.Quiet a i) :
    Alike slot p (m.execute a i) ((m.refresh later slot p).execute (a.renew m.store p) i) := by
  cases op : i.op
  all_goals simp only [Quiet, op] at quiet
  all_goals simp only [execute, op]
  case move =>
    rw [reg_refresh inside]
    exact setReg_alike inside i.a _
  case loadK => exact setReg_alike inside i.a _
  case loadBool =>
    rw [setReg_refresh inside]
    have goes := inside.setReg i.a (.bool (i.b != 0))
    split
    · exact jump_alike goes 1
    · exact .goesOn later goes
  case loadNil => exact fillNil_alike inside i.a (i.b + 1)
  case getUpval =>
    rw [cellValue_refresh inside quiet, quiet.2]
    exact setReg_alike inside i.a _
  case getTabUp =>
    rw [cellValue_refresh inside quiet.1, quiet.1.2, operand_refresh inside]
    exact indexInto_alike inside quiet.2
  case getTable =>
    rw [reg_refresh inside, operand_refresh inside]
    exact indexInto_alike inside quiet
  case setTabUp =>
    rw [cellValue_refresh inside quiet.1, quiet.1.2, operand_refresh inside, operand_refresh inside]
    exact storeInto_alike inside _ quiet.2
  case setTable =>
    rw [reg_refresh inside, operand_refresh inside, operand_refresh inside]
    exact storeInto_alike inside _ quiet
  case newTable => exact newTable_alike inside i.a
  case self =>
    rw [reg_refresh inside, operand_refresh inside, setReg_refresh inside]
    exact indexInto_alike (inside.setReg (i.a + 1) (m.reg a i.b)) quiet
  case len => exact lengthStep_alike inside quiet
  case not =>
    rw [reg_refresh inside]
    exact setReg_alike inside i.a _
  case concat =>
    rw [reg_refresh inside]
    exact concatFrom_alike inside quiet
  case jmp =>
    have stays : (if i.a > 0 then m.closeCells (a.base + i.a - 1) else m) = m := by
      split
      · next closes => exact closeCells_nothing (quiet closes)
      · rfl
    have stays' : (if i.a > 0 then (m.refresh later slot p).closeCells (a.base + i.a - 1)
        else m.refresh later slot p) = m.refresh later slot p := by
      split
      · next closes => exact closeCells_refresh inside (quiet closes)
      · rfl
    have base : (a.renew m.store p).base = a.base := rfl
    rw [base, stays, stays']
    exact jump_alike inside i.bx
  case eq =>
    rw [operand_refresh inside, operand_refresh inside]
    exact equalStep_alike inside quiet
  case lt =>
    rw [operand_refresh inside, operand_refresh inside]
    exact lessStep_alike inside quiet
  case le =>
    rw [operand_refresh inside, operand_refresh inside]
    exact lessEqualStep_alike inside quiet
  case test =>
    rw [reg_refresh inside]
    exact skipUnless_alike inside _
  case testSet =>
    rw [reg_refresh inside]
    split
    · exact setReg_alike inside i.a _
    · exact jump_alike inside 1
  case ret => exact returnStep_alike inside i quiet
  case forLoop => exact continueLoop_alike inside i
  case forPrep => exact prepareLoop_alike inside i
  case tforLoop =>
    rw [reg_refresh inside, setReg_refresh inside]
    split
    · exact .goesOn later inside
    · exact jump_alike (inside.setReg i.a (m.reg a (i.a + 1))) i.bx
  case setList => exact setListStep_alike inside i
  case vararg => exact varargStep_alike inside quiet
  all_goals exact arithmeticStep_alike inside quiet

end

/-! ### Quiet runs -/

/-- If a function of a chunk is about to run an instruction, it is a quiet one. -/
def StepsQuietly (m : Machine) : Prop :=
  ∀ a, m.signal = none → m.frame = .compiled a →
    ({ m with frame := .compiled a.advanced }).Quiet a.advanced a.next

theorem Inside.run_one (inside : m.Inside p a) :
    m.run 1 = { m with frame := .compiled a.advanced }.execute a.advanced a.next := by
  have stepped : m.run 1 = m.step := by
    rw [run, inside.goesOn]
    rfl
  rw [stepped]
  simp only [Machine.step, inside.goesOn, inside.frame]
  rfl

theorem Alike.step {m m' : Machine} (alike : Alike slot p m m') (quietly : m.StepsQuietly) :
    Alike slot p (m.run 1) (m'.run 1) := by
  cases alike with
  | @goesOn a later inside =>
      have fetched : ({ m with frame := .compiled a.advanced }).Inside p a.advanced :=
        ⟨inside.goesOn, rfl, inside.layout, inside.code, inside.called, inside.shallow⟩
      have same : { m.refresh later slot p with frame := .compiled (a.renew m.store p).advanced } =
          ({ m with frame := .compiled a.advanced }).refresh later slot p := by
        rw [refresh_eq inside.frame, refresh_eq fetched.frame]
        rfl
      rw [inside.run_one, inside.refresh.run_one, same]
      exact execute_alike fetched (quietly a inside.goesOn inside.frame)
  | stopped later first second last plain tables hostError =>
      rw [run_stopped first, run_stopped second]
      exact .stopped later first second last plain tables hostError

/-- As long as a function runs quietly, one that has been made of its code since does the same in its place. -/
theorem Alike.run {m m' : Machine} (alike : Alike slot p m m') {n : Nat}
    (quietly : ∀ j < n, (m.run j).StepsQuietly) : Alike slot p (m.run n) (m'.run n) := by
  induction n with
  | zero => exact alike
  | succ n ih =>
      have before := ih fun j early => quietly j (Nat.lt_succ_of_lt early)
      rw [run_add, run_add]
      exact before.step (quietly n (Nat.lt_succ_self n))

end Machine

end LuaHost.Guest
