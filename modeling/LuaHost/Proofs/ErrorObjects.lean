import LuaHost.Guest.Engine
import LuaHost.Proofs.Substitution
import LuaHost.Proofs.Tables
/-!
Error objects of the guest. An object that stands for a failure names it and has its message for a text,
as long as neither the object nor its type is altered. An error is raised up to the nearest call that
takes it: a protected call gets the error object itself, and without one the call from the host fails
with it.
-/

namespace LuaHost

namespace Failure

/-- A failure whose template is its message has just this text. -/
theorem runtime_message {code : RuntimeCode}
    (found : (Registry.find? code.id).map (·.template) = some "\x7bmessage\x7d") (text : String)
    (location : Option Text.Location) (traceback : Option String) (value : Option Datum)
    (cause : Option Thrown) :
    (Fault.runtime code [("message", .string text)] location traceback value cause).message = text := by
  have filled : ∀ entries,
      fill code.id entries = Template.render "\x7bmessage\x7d" (entryText entries) := by
    intro entries
    rw [fill]
    cases definition : Registry.find? code.id with
    | none => simp [definition] at found
    | some d =>
        rw [definition, Option.map_some, Option.some.injEq] at found
        simp only [found]
  simp only [Fault.message, contextTexts, entryPair, Detail.text?, filled, Template.render, consists_message.read]
  simp [entryText]

/-- An error that the guest raised as a text has this text. -/
theorem raised_message (text : String) (location : Option Text.Location) (traceback : Option String) :
    (Fault.runtime .raised [("message", .string text)] location traceback none none).message = text :=
  runtime_message (by decide) text location traceback none none

end Failure

namespace Guest

/-! ### Objects -/

theorem keyed_pair {first second : String} {v v' : Value} (unlike : first ≠ second)
    (present : v.isNil = false ∧ v'.isNil = false) :
    Keyed [(ofText first, v), (ofText second, v')] := by
  refine ⟨?_, ?_, ?_⟩
  · simp [ofText, Value.key?]
  · have unlike : Text.encode first ≠ Text.encode second := fun same => unlike (Text.encode_inj same)
    simp [ofText, Value.key?, unlike]
  · simpa using present

namespace Table
variable {t : Table} {rows : List (Value × Value)}

theorem Holds.getText (holds : t.Holds rows) {i : Nat} {name : String} {v : Value}
    (here : rows[i]? = some (ofText name, v)) : t.getText name = v := by
  have found := holds.found i _ (.string (Text.encode name)) here rfl
  simp only [Table.getText, getKey, found]

theorem getKey_setKey {k k' : Key} (unlike : k ≠ k') (key v : Value) :
    (t.setKey k key v).getKey k' = t.getKey k' := by
  have kept : (t.setKey k key v).index[k']? = t.index[k']? := by
    rw [setKey]
    by_cases removes : v.isNil = true
    · rw [if_pos removes, remove]
      split
      · rfl
      · simp [Std.HashMap.getElem?_erase, unlike]
    · rw [if_neg removes, insert]
      split
      all_goals simp [Std.HashMap.getElem?_insert, unlike]
  simp only [getKey, kept]

theorem getText_setText {name other : String} (unlike : name ≠ other) (v : Value) :
    (t.setText name v).getText other = t.getText other := by
  have unlike : Key.string (Text.encode name) ≠ .string (Text.encode other) :=
    fun same => unlike (Text.encode_inj (Key.string.inj same))
  exact getKey_setKey unlike (ofText name) v

end Table

namespace Store
variable {s s' : Store} {id : Nat} {f : Failure}

/-- An object stands for a failure. -/
structure Bears (s : Store) (id : Nat) (f : Failure) : Prop where
  metatable : (s.table id).metatable = some s.hostError
  error : (s.table id).getText "error" = .light f.identity
  message : (s.table id).getText "message" = ofText f.message

/-- An object, and which type it has, are as they were. -/
structure Unaltered (s s' : Store) (id : Nat) : Prop where
  object : s'.table id = s.table id
  type : s'.hostError = s.hostError

/-- The type of error objects tells their text. -/
def Tells (s : Store) : Prop := (s.table s.hostError).getText "__tostring" = .builtin .hostErrorToString

theorem Bears.unaltered (bears : s.Bears id f) (unaltered : s.Unaltered s' id) : s'.Bears id f where
  metatable := by rw [unaltered.object, unaltered.type, bears.metatable]
  error := by rw [unaltered.object, bears.error]
  message := by rw [unaltered.object, bears.message]

theorem errorObject_bears (s : Store) (f : Failure) :
    (s.newTable (World.errorObject s f)).1.Bears s.tables.size f := by
  have keyed : Keyed [(ofText "message", ofText f.message), (ofText "error", .light f.identity)] :=
    keyed_pair (by decide) ⟨rfl, rfl⟩
  have holds := Table.holds_of_keyed keyed
  have object := s.newTable_table (World.errorObject s f)
  have entry (name : String) : ((s.newTable (World.errorObject s f)).1.table s.tables.size).getText name =
      (Config.tableOf [(ofText "message", ofText f.message), (ofText "error", .light f.identity)]).getText name := by
    rw [object]
    rfl
  refine ⟨?_, ?_, ?_⟩
  · rw [object]
    rfl
  · exact (entry "error").trans (holds.getText (i := 1) rfl)
  · exact (entry "message").trans (holds.getText (i := 0) rfl)

theorem Tells.setField (tells : s.Tells) {name : String} (unlike : name ≠ "__tostring") (table : Nat)
    (v : Value) : (s.setField table name v).Tells := by
  have kept : ((s.setField table name v).table s.hostError).getText "__tostring" =
      (s.table s.hostError).getText "__tostring" := by
    simp only [Store.table, Store.setField, modifyTable, Array.getD_eq_getD_getElem?,
      Array.getElem?_modify]
    split
    · cases s.tables[s.hostError]? with
      | none => rfl
      | some t => exact Table.getText_setText unlike v
    · rfl
  exact kept.trans tells

/-- Every session starts with the type of error objects. -/
theorem start_tells (libraries : LibraryChoice) (path : Option String) : (start libraries path).Tells := by
  have made : ∀ s : Store, ({ (s.makeTable
      [("__name", ofText hostErrorName), ("__tostring", .builtin .hostErrorToString)]).1 with
        hostError := s.tables.size } : Store).Tells := by
    intro s
    have keyed : Keyed [(ofText "__name", ofText hostErrorName),
        (ofText "__tostring", .builtin .hostErrorToString)] := keyed_pair (by decide) ⟨rfl, rfl⟩
    have found := (Table.holds_of_keyed keyed).getText (i := 1) rfl
    have object := s.newTable_table (fill {}
      [("__name", ofText hostErrorName), ("__tostring", .builtin .hostErrorToString)])
    have tells := congrArg (·.getText "__tostring") object
    exact tells.trans found
  unfold start
  simp only
  split
  · exact (made _).setField (by decide) _ _
  · exact made _

end Store

/-! ### Texts -/

/-- A library function comes to values without changing anything: it looks at the heap, and calls other
library functions that do the same. -/
inductive Evaluates (s : Store) : Program → List Value → Prop
  | done (values : List Value) : Evaluates s (.done values) values
  | query {k : Store → Program} {values : List Value} (rest : Evaluates s (k s) values) :
      Evaluates s (.query k) values
  | call {b : Builtin} {arguments given values : List Value} {k : List Value → Program}
      (called : Evaluates s (Library.run b arguments) given) (rest : Evaluates s (k given) values) :
      Evaluates s (.call (.builtin b) arguments k) values

/-- The text of an object that stands for a failure is the failure's message. -/
theorem Store.Bears.tostring {s : Store} {id : Nat} {f : Failure} (bears : s.Bears id f)
    (tells : s.Tells) : Evaluates s (Library.run .tostring [.table id]) [ofText f.message] := by
  have handler : s.metafield (.table id) Event.toString = .builtin .hostErrorToString := by
    simp only [Store.metafield, Store.metatable?, bears.metatable]
    exact tells
  have program : Library.run .tostring [.table id] =
      Act.tostring (.table id) fun text => .done [.string text] := rfl
  rw [program]
  unfold Act.tostring
  refine .query ?_
  beta_reduce
  rw [handler]
  refine @Evaluates.call s _ _ [ofText f.message] _ _ ?_ (.done _)
  refine .query ?_
  beta_reduce
  rw [bears.message]
  exact .done _

/-! ### Raising -/

/-- A function that an error just leaves. -/
def Frame.IsLeft : Frame → Prop
  | .compiled _ => True
  | .handling _ => True
  | .native n => ∀ handler level k, n.activity ≠ .protecting handler level k
  | _ => False

namespace Machine
variable {m : Machine} {inner outer : List Frame}

theorem handlerOf_left (left : ∀ fr ∈ inner, fr.IsLeft) : handlerOf (inner ++ outer) = handlerOf outer := by
  induction inner with
  | nil => rfl
  | cons fr inner ih =>
      have others := ih fun fr mem => left fr (List.mem_cons_of_mem _ mem)
      have here := left fr List.mem_cons_self
      rw [List.cons_append]
      cases fr with
      | bottom | gate => exact here.elim
      | compiled | handling => exact others
      | native n =>
          rw [handlerOf]
          split
          · next activity => exact absurd activity (here _ _ _)
          · next activity => exact absurd activity (here _ _ _)
          · exact others

theorem unwindTo_left (left : ∀ fr ∈ inner, fr.IsLeft) (status : Status) (error : Value) :
    m.unwindTo status error (inner ++ outer) = m.unwindTo status error outer := by
  induction inner with
  | nil => rfl
  | cons fr inner ih =>
      have others := ih fun fr mem => left fr (List.mem_cons_of_mem _ mem)
      have here := left fr List.mem_cons_self
      rw [List.cons_append]
      cases fr with
      | bottom | gate => exact here.elim
      | compiled | handling => exact others
      | native n =>
          rw [unwindTo]
          split
          · next activity => exact absurd activity (here _ _ _)
          · exact others

theorem closeCells_store (m : Machine) (level : Nat) :
    (m.closeCells level).store.tables = m.store.tables ∧
      (m.closeCells level).store.hostError = m.store.hostError := by
  unfold closeCells
  split
  · exact ⟨rfl, rfl⟩
  · split <;> exact ⟨rfl, rfl⟩

theorem leaveGate_signal (m : Machine) (g : Gate) (below : List Frame) (signal : Signal) :
    (m.leaveGate g below signal).signal = some signal ∧
      (m.leaveGate g below signal).store = m.store := by
  unfold leaveGate
  simp only
  split
  · exact ⟨rfl, rfl⟩
  · unfold switch
    split <;> exact ⟨rfl, rfl⟩

/-- A protected call without a handler of its own is given the error object. -/
theorem raise_caught {n : NativeCall} {level : Nat} {k : Bool → List Value → Program}
    (frames : m.frame :: m.callers = inner ++ .native n :: outer) (left : ∀ fr ∈ inner, fr.IsLeft)
    (protecting : n.activity = .protecting none level k) (error : Value) :
    m.raise error = { m.closeCells level with
      frame := .native { n with activity := .running (k false [error]) }
      callers := outer
      top := n.top } := by
  have handler : m.handler = .none := by
    rw [Machine.handler, frames, handlerOf_left left, handlerOf, protecting]
  rw [raise, raiseAt, handler]
  simp only [unwind, frames, unwindTo_left left]
  rw [unwindTo, protecting]
  rfl

/-- Without a protected call, the call from the host fails with the error object. -/
theorem raise_uncaught {g : Gate} (frames : m.frame :: m.callers = inner ++ .gate g :: outer)
    (left : ∀ fr ∈ inner, fr.IsLeft) (shallow : m.depth + 1 < callLimit) (error : Value) :
    ∃ traceback, (m.raise error).signal = some (.failed .raised error traceback) ∧
      (m.raise error).store.tables = m.store.tables ∧
      (m.raise error).store.hostError = m.store.hostError := by
  have handler : m.handler = .traceback := by
    rw [Machine.handler, frames, handlerOf_left left, handlerOf]
  have fine : nesting (m.depth + 1) = .fine := by
    rw [nesting, if_neg, if_neg]
    · rw [handlerLimit]
      rw [callLimit] at shallow
      omega
    · rw [beq_iff_eq]
      exact Nat.ne_of_lt shallow
  let traced : Machine := { m with traceback := some (m.tracebackText none none 0) }
  have raised : m.raise error =
      (traced.closeCells g.savedTop).leaveGate g outer (.failed .raised error traced.traceback) := by
    rw [raise, raiseAt, handler]
    simp only [fine]
    have unwound : traced.unwind .raised error = traced.unwindTo .raised error (inner ++ .gate g :: outer) := by
      rw [← frames]
      rfl
    rw [unwindTo_left left, unwindTo] at unwound
    exact unwound
  rw [raised]
  obtain ⟨signal, store⟩ := leaveGate_signal (traced.closeCells g.savedTop) g outer
    (.failed .raised error traced.traceback)
  obtain ⟨tables, hostError⟩ := closeCells_store traced g.savedTop
  refine ⟨traced.traceback, signal, ?_, ?_⟩
  · rw [store, tables]
  · rw [store, hostError]

/-- A machine that has stopped for something goes no further. -/
theorem run_stopped {signal : Signal} (stopped : m.signal = some signal) (n : Nat) : m.run n = m := by
  cases n with
  | zero => rfl
  | succ n => rw [run, stopped]

end Machine

end Guest

end LuaHost
