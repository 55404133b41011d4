import LuaHost.Proofs.Deliveries
/-!
What a session has to itself. The host's memory has a part for each session, and its code for a session keeps
to the part of that session. Then whatever is done for a session is the same if all that other sessions have
is exchanged for something else, and comes to the same.
-/

namespace LuaHost

variable {ρ : Type}

/-- Host code keeps to a session: it looks at the account and at the part of the memory that belong to it, and
changes nothing else. -/
def KeepsTo {α : Type} (a : Nat) (f : Ledgers → (Nat → ρ) → (Nat → ρ) × α) : Prop :=
  ∀ ledgers ledgers' memory memory', ledgers[a]? = ledgers'[a]? → memory a = memory' a →
    (f ledgers memory).1 a = (f ledgers' memory').1 a ∧ (f ledgers memory).2 = (f ledgers' memory').2 ∧
      ∀ i, i ≠ a → (f ledgers memory).1 i = memory i

structure Callbacks.KeepTo (a : Nat) (callbacks : Callbacks (Nat → ρ)) : Prop where
  onLog : ∀ line, LuaHost.KeepsTo a (callbacks.onLog line)
  onHostCall : ∀ hook, callbacks.onHostCall = some hook → ∀ call, LuaHost.KeepsTo a (hook call)
  onHostReturn : ∀ hook, callbacks.onHostReturn = some hook → ∀ r, LuaHost.KeepsTo a (hook r)
  onError : ∀ hook, callbacks.onError = some hook → ∀ f, LuaHost.KeepsTo a (hook f)

instance : Inhabited (Vm (Nat → ρ)) :=
  ⟨{ machine := default, callbacks := { onLog := fun _ _ memory => (memory, none) } }⟩

def Datum.Within (a : Nat) (d : Datum) : Prop := ∀ h, d.handle? = some h → h.session = a

namespace World

/-- The world with what one session has, and with what the others have in another world. -/
def alone (w : World (Nat → ρ)) (a : Nat) (base : World (Nat → ρ)) : World (Nat → ρ) :=
  { w with
    ledgers := w.ledgers.mapIdx fun i l => if i = a then l else base.ledgers.getD i default
    vms := w.vms.mapIdx fun i v => if i = a then v else base.vms.getD i default
    memory := Function.update base.memory a (w.memory a) }

/-- The callbacks of a session keep to it. -/
def Minds (w : World (Nat → ρ)) (a : Nat) : Prop := ∀ callbacks, w.standing.callbacks[a]? = some callbacks → callbacks.KeepTo a

variable {a : Nat} (w base : World (Nat → ρ))

theorem alone_self (a : Nat) : w.alone a w = w := by
  have ledgers : (w.ledgers.mapIdx fun i l => if i = a then l else w.ledgers.getD i default) = w.ledgers := by
    apply Array.ext
    · simp
    · intro i _ bound
      simp [Array.getD, bound]
  have vms : (w.vms.mapIdx fun i v => if i = a then v else w.vms.getD i default) = w.vms := by
    apply Array.ext
    · simp
    · intro i _ bound
      simp [Array.getD, bound]
  rw [alone, ledgers, vms, Function.update_eq_self]

theorem ledgers_alone : (w.alone a base).ledgers[a]? = w.ledgers[a]? := by
  cases found : w.ledgers[a]? <;> simp_all [alone]

@[simp] theorem ledger_alone : (w.alone a base).ledger a = w.ledger a := by
  simp only [ledger, Array.getD_eq_getD_getElem?, ledgers_alone]

@[simp] theorem vms_alone : (w.alone a base).vms[a]? = w.vms[a]? := by
  cases found : w.vms[a]? <;> simp_all [alone]

@[simp] theorem machine_alone : (w.alone a base).machine a = w.machine a := by
  simp only [machine, vms_alone]

@[simp] theorem chunk_alone (chunk : Nat) : (w.alone a base).chunk chunk = w.chunk chunk := rfl

theorem mapIdx_modify {α : Type} (xs : Array α) (f : α → α) (g : Nat → α) :
    (xs.mapIdx fun i x => if i = a then x else g i).modify a f =
      (xs.modify a f).mapIdx fun i x => if i = a then x else g i := by
  apply Array.ext
  · simp
  · intro i _ _
    by_cases here : i = a
    · simp [Array.getElem_modify, here]
    · simp [Array.getElem_modify, here, Ne.symm here]

@[simp] theorem modifyLedger_alone (f : Ledger → Ledger) :
    (w.alone a base).modifyLedger a f = (w.modifyLedger a f).alone a base := by
  simp only [modifyLedger, alone, mapIdx_modify]

theorem modifyVm_alone (f : Vm (Nat → ρ) → Vm (Nat → ρ)) :
    ({ w.alone a base with vms := (w.alone a base).vms.modify a f } : World (Nat → ρ)) =
      ({ w with vms := w.vms.modify a f } : World (Nat → ρ)).alone a base := by
  simp only [alone, mapIdx_modify]

@[simp] theorem modifyMachine_alone (f : Guest.Machine → Guest.Machine) :
    (w.alone a base).modifyMachine a f = (w.modifyMachine a f).alone a base :=
  modifyVm_alone w base _

@[simp] theorem addChunk_alone (chunk : Chunk) :
    (w.alone a base).addChunk chunk = ((w.addChunk chunk).1.alone a base, (w.addChunk chunk).2) := rfl

@[simp] theorem freshIdentity_alone :
    (w.alone a base).freshIdentity = (w.freshIdentity.1.alone a base, w.freshIdentity.2) := rfl

@[simp] theorem newFailure_alone (fault : Fault) :
    (w.alone a base).newFailure fault = ((w.newFailure fault).1.alone a base, (w.newFailure fault).2) := rfl

@[simp] theorem throwFault_alone (fault : Fault) :
    (w.alone a base).throwFault fault = ((w.throwFault fault).1.alone a base, (w.throwFault fault).2) := rfl

/-! ### States and values -/

variable {s : State}

theorem stateViolation?_alone (here : s.session = a) :
    (w.alone a base).stateViolation? s = w.stateViolation? s := by
  subst here
  simp only [stateViolation?, ledger_alone]

theorem restore_alone (here : s.session = a) :
    (w.alone a base).restore s = (w.restore s).alone a base := by
  subst here
  exact modifyLedger_alone w base _

@[simp] theorem advance_alone :
    (w.alone a base).advance a = ((w.advance a).1.alone a base, (w.advance a).2) := by
  simp only [advance, head, modifyLedger_alone, ledger_alone]

@[simp] theorem succeed_alone (r : Result) :
    (w.alone a base).succeed a r = ((w.succeed a r).1.alone a base, (w.succeed a r).2) := by
  simp only [succeed, advance_alone]

@[simp] theorem occupy_alone (v : Guest.Value) :
    (w.alone a base).occupy a v = ((w.occupy a v).1.alone a base, (w.occupy a v).2) := by
  simp only [occupy, modifyMachine_alone, machine_alone]

@[simp] theorem vacate_alone (slot : Nat) :
    (w.alone a base).vacate a slot = (w.vacate a slot).alone a base := by
  simp only [vacate, ledger_alone, modifyMachine_alone]
  split <;> rfl

@[simp] theorem pin_alone (v : Guest.Value) :
    (w.alone a base).pin a v = ((w.pin a v).1.alone a base, (w.pin a v).2) := by
  simp only [pin, ledger_alone, occupy_alone, modifyLedger_alone]

@[simp] theorem pinAs_alone (kind : CompositeKind) (v : Guest.Value) :
    (w.alone a base).pinAs kind a v = ((w.pinAs kind a v).1.alone a base, (w.pinAs kind a v).2) := by
  simp only [pinAs, pin_alone]

@[simp] theorem receive_alone (v : Guest.Value) :
    (w.alone a base).receive a v = ((w.receive a v).1.alone a base, (w.receive a v).2) := by
  cases v <;> simp only [receive, pinAs_alone]

theorem receive_within (v : Guest.Value) : (w.receive a v).2.Within a := by
  intro h handle
  cases v with
  | nil | bool | int | float | string => exact nomatch handle
  | table | closure | builtin | host | userdata | light | thread =>
      obtain rfl := Option.some.inj handle
      rfl

@[simp] theorem receiveAll_alone (values : List Guest.Value) :
    (w.alone a base).receiveAll a values =
      ((w.receiveAll a values).1.alone a base, (w.receiveAll a values).2) := by
  have fold : ∀ (values : List Guest.Value) (w : World (Nat → ρ)) (received : List Datum),
      values.foldl (fun (w, received) v =>
        let (w, d) := w.receive a v
        (w, d :: received)) (w.alone a base, received) =
      ((values.foldl (fun (w, received) v =>
        let (w, d) := w.receive a v
        (w, d :: received)) (w, received)).1.alone a base,
       (values.foldl (fun (w, received) v =>
        let (w, d) := w.receive a v
        (w, d :: received)) (w, received)).2) := by
    intro values
    induction values with
    | nil => exact fun _ _ => rfl
    | cons v rest ih =>
        intro w received
        simp only [List.foldl_cons, receive_alone]
        exact ih _ _
  simp only [receiveAll, fold]

theorem slotOf_alone {h : Handle} (here : h.session = a) : (w.alone a base).slotOf h = w.slotOf h := by
  subst here
  simp only [slotOf, ledger_alone]

theorem give?_alone {d : Datum} (within : d.Within a) : (w.alone a base).give? a d = w.give? a d := by
  cases d with
  | nil | bool | int | float | string => rfl
  | composite kind h => simp only [give?, machine_alone, slotOf_alone w base (within h rfl)]

theorem giveAll_alone {items : List Item} (within : ∀ item ∈ items, item.datum.Within a) :
    (w.alone a base).giveAll a items = w.giveAll a items := by
  have same : items.map (fun item => (w.alone a base).give? a item.datum) =
      items.map fun item => w.give? a item.datum :=
    List.map_congr_left fun item mem => give?_alone w base (within item mem)
  simp only [giveAll, same]

/-- What a session accepts belongs to it. -/
theorem within_of_claimed {items : List Item} (claimed : (w.ledger a).claimViolation? a items = none) :
    ∀ item ∈ items, item.datum.Within a := by
  intro item mem h handle
  exact (of_itemViolation?_eq_none ((claimViolation?_eq_none.mp claimed).2 item mem) handle).1

theorem releaseHandle_alone {h : Handle} (here : h.session = a) :
    (w.alone a base).releaseHandle h = (w.releaseHandle h).alone a base := by
  subst here
  simp only [releaseHandle, ledger_alone, vacate_alone, modifyLedger_alone]
  split <;> rfl

theorem release_alone {item : Item} (within : item.datum.Within a) :
    (w.alone a base).release item = (w.release item).alone a base := by
  unfold release
  cases handle : item.datum.handle? with
  | none => rfl
  | some h => exact releaseHandle_alone w base (within h handle)

/-! ### Failures -/

section
variable {base w}

theorem Minds.congr {w' : World (Nat → ρ)} (minds : w.Minds a)
    (same : w'.standing.callbacks = w.standing.callbacks) : w'.Minds a := by
  rwa [Minds, same]

theorem callback_keeps {ε : Type} (minds : w.Minds a) {field : Callbacks (Nat → ρ) → Option (Hook (Nat → ρ) ε)}
    (keeps : ∀ callbacks : Callbacks (Nat → ρ), callbacks.KeepTo a → ∀ hook, field callbacks = some hook →
      ∀ event, KeepsTo a (hook event)) :
    ∀ hook, w.callback a field = some hook → ∀ event, KeepsTo a (hook event) := by
  intro hook found
  obtain ⟨v, here, given⟩ := Option.bind_eq_some_iff.mp found
  exact keeps v.callbacks (minds v.callbacks (by simp [standing, here])) hook given

end

@[simp] theorem callback_alone {α : Type} (field : Callbacks (Nat → ρ) → Option α) :
    (w.alone a base).callback a field = w.callback a field := by
  simp only [callback, vms_alone]

theorem keeps_alone {α : Type} {f : Ledgers → (Nat → ρ) → (Nat → ρ) × α} (keeps : KeepsTo a f) :
    f (w.alone a base).ledgers (w.alone a base).memory =
      (Function.update base.memory a ((f w.ledgers w.memory).1 a), (f w.ledgers w.memory).2) := by
  obtain ⟨own, result, others⟩ := keeps (w.alone a base).ledgers w.ledgers (w.alone a base).memory w.memory
    (ledgers_alone w base) (Function.update_self a _ _)
  refine Prod.ext (funext fun i => ?_) result
  dsimp only
  by_cases here : i = a
  · rw [here, own, Function.update_self]
  · rw [others i here, Function.update_of_ne here]
    exact Function.update_of_ne here _ _

theorem notify_alone {ε : Type} {hook : Option (Hook (Nat → ρ) ε)}
    (keeps : ∀ f, hook = some f → ∀ event, KeepsTo a (f event)) (event : ε) :
    (w.alone a base).notify hook event =
      ((w.notify hook event).1.alone a base, (w.notify hook event).2) := by
  cases hook with
  | none => rfl
  | some f =>
      have same := keeps_alone w base (keeps f rfl event)
      simp only [notify, same]
      rfl

theorem report_alone (minds : w.Minds a) (f : Failure) :
    (w.alone a base).report a f = ((w.report a f).1.alone a base, (w.report a f).2) := by
  have keeps := callback_keeps minds fun _ kept => kept.onError
  simp only [report, callback_alone, notify_alone w base keeps]

theorem fail_alone (minds : w.Minds a) (fault : Fault) :
    (w.alone a base).fail a fault = ((w.fail a fault).1.alone a base, (w.fail a fault).2) := by
  have reported := report_alone (w.newFailure fault).1 base minds (w.newFailure fault).2
  simp only [fail, newFailure_alone, reported]
  cases ((w.newFailure fault).1.report a (w.newFailure fault).2) with
  | mk w' thrown => cases thrown <;> rfl

@[simp] theorem asFailure_alone (code : RuntimeCode) (t : Thrown) :
    (w.alone a base).asFailure code t = ((w.asFailure code t).1.alone a base, (w.asFailure code t).2) := by
  unfold asFailure
  split
  · rfl
  · simp only [newFailure_alone]
    split <;> rfl

theorem failUnexpected_alone (minds : w.Minds a) (t : Thrown) :
    (w.alone a base).failUnexpected a t =
      ((w.failUnexpected a t).1.alone a base, (w.failUnexpected a t).2) := by
  have minds' := minds.congr (congrArg (·.callbacks) (standing_overlooks.asFailure w .raised t))
  simp only [failUnexpected, asFailure_alone]
  generalize w.asFailure .raised t = r at minds'
  obtain ⟨w', f⟩ := r
  cases f with
  | none => rfl
  | some f =>
      simp only [report_alone w' base minds']
      generalize w'.report a f = r
      obtain ⟨w'', thrown⟩ := r
      cases thrown <;> rfl

theorem failCall_alone (minds : w.Minds a) (f : Failure) :
    (w.alone a base).failCall a f = ((w.failCall a f).1.alone a base, (w.failCall a f).2) := by
  have minds' := minds.congr (congrArg (·.callbacks) (standing_overlooks.report w a f))
  simp only [failCall, report_alone w base minds]
  generalize w.report a f = r at minds'
  obtain ⟨w', thrown⟩ := r
  cases thrown with
  | none => rfl
  | some t => exact failUnexpected_alone w' base minds' t

@[simp] theorem failureOf?_alone (error : Guest.Value) :
    (w.alone a base).failureOf? a error = w.failureOf? a error := by
  simp only [failureOf?, machine_alone]
  rfl

@[simp] theorem readFailure_alone (status : Guest.Status) (error : Guest.Value)
    (traceback : Option Guest.Bytes) :
    (w.alone a base).readFailure a status error traceback =
      ((w.readFailure a status error traceback).1.alone a base,
        (w.readFailure a status error traceback).2) := by
  unfold readFailure
  split
  · rfl
  · simp only [failureOf?_alone, receive_alone]
    split <;> rfl
  · rfl

@[simp] theorem raiseInGuest_alone (t : Thrown) :
    (w.alone a base).raiseInGuest a t = (w.raiseInGuest a t).alone a base := by
  simp only [raiseInGuest, asFailure_alone]
  generalize w.asFailure .hostFunction t = r
  obtain ⟨w', f⟩ := r
  cases f with
  | none => exact modifyMachine_alone w' base _
  | some f => exact modifyMachine_alone { w' with raised := (f.identity, f.fault) :: w'.raised } base _

/-! ### Chunks -/

@[simp] theorem keepCompiled_alone (chunk : Nat) (p : Guest.Prototype) :
    (w.alone a base).keepCompiled a chunk p =
      ((w.keepCompiled a chunk p).1.alone a base, (w.keepCompiled a chunk p).2) := by
  simp only [keepCompiled, machine_alone, modifyMachine_alone, occupy_alone, modifyLedger_alone]

theorem compile_alone (minds : w.Minds a) (chunk : Nat) :
    (w.alone a base).compile a chunk = ((w.compile a chunk).1.alone a base, (w.compile a chunk).2) := by
  simp only [compile, ledger_alone, chunk_alone, machine_alone, keepCompiled_alone]
  split
  · rfl
  · split
    · simp only [fail_alone w base minds]
    · rfl

theorem load_alone (minds : w.Minds a) (chunk : Nat) :
    (w.alone a base).load a chunk = ((w.load a chunk).1.alone a base, (w.load a chunk).2) := by
  simp only [load, compile_alone w base minds]
  generalize w.compile a chunk = r
  obtain ⟨w', result⟩ := r
  cases result with
  | error => rfl
  | ok => exact succeed_alone w' base _

@[simp] theorem releaseChunk_alone (chunk : Nat) :
    (w.alone a base).releaseChunk a chunk = (w.releaseChunk a chunk).alone a base := by
  simp only [releaseChunk, ledger_alone, vacate_alone, modifyLedger_alone]
  split <;> rfl

/-! ### Sessions -/

@[simp] theorem close_alone : (w.alone a base).close a = (w.close a).alone a base :=
  modifyLedger_alone w base _

@[simp] theorem expose_alone (name : String) (body : State → List Datum → Client (Nat → ρ)) :
    (w.alone a base).expose a name body =
      ((w.expose a name body).1.alone a base, (w.expose a name body).2) := by
  simp only [expose, vms_alone, modifyVm_alone, receive_alone]

theorem hasCallMetamethod_alone {d : Datum} (within : d.Within a) :
    (w.alone a base).hasCallMetamethod a d = w.hasCallMetamethod a d := by
  simp only [hasCallMetamethod, give?_alone w base within, machine_alone]

/-! ### Decoding -/

variable {α : Type}

theorem withTable_alone {d : Datum} (within : d.Within a) (expected : String)
    {k k' : Nat → Guest.Table → DecodeResult (Nat → ρ) α}
    (same : ∀ t, k' a t = ((k a t).1.alone a base, (k a t).2)) :
    (w.alone a base).withTable expected d k' =
      ((w.withTable expected d k).1.alone a base, (w.withTable expected d k).2) := by
  unfold withTable
  split
  · next h =>
      obtain rfl : h.session = a := within h rfl
      have table : (w.alone h.session base).tableOf h = w.tableOf h := by
        simp only [tableOf, give?_alone w base within, machine_alone]
      have violation : (w.alone h.session base).readViolation? h = w.readViolation? h := by
        simp only [readViolation?, ledger_alone]
      rw [table, violation]
      split
      · rfl
      · exact same _
  · rfl

/-- A way of decoding does the same for a session that has nothing but its own. -/
def DecodesAlone (a : Nat) (base : World (Nat → ρ))
    (f : World (Nat → ρ) → Datum → DecodeResult (Nat → ρ) Decoded) : Prop :=
  ∀ w d, d.Within a → f (w.alone a base) d = ((f w d).1.alone a base, (f w d).2)

section
variable {base} {f g : World (Nat → ρ) → Datum → DecodeResult (Nat → ρ) Decoded}

theorem decodeItems_alone (alike : DecodesAlone a base f) (rest : List (Nat × Guest.Value))
    (done : List Decoded) :
    decodeItems f a (w.alone a base) rest done =
      ((decodeItems f a w rest done).1.alone a base, (decodeItems f a w rest done).2) := by
  induction rest generalizing w done with
  | nil => rfl
  | cons entry rest ih =>
      obtain ⟨i, v⟩ := entry
      simp only [decodeItems, receive_alone, alike _ _ (w.receive_within v)]
      generalize f (w.receive a v).1 (w.receive a v).2 = r
      obtain ⟨w', x⟩ := r
      cases x with
      | error => rfl
      | ok x => exact ih w' _

theorem decodeEntries_alone (alike : DecodesAlone a base f) (alike' : DecodesAlone a base g)
    (rest : List Guest.Entry) (done : List (Decoded × Decoded)) :
    decodeEntries f g a (w.alone a base) rest done =
      ((decodeEntries f g a w rest done).1.alone a base, (decodeEntries f g a w rest done).2) := by
  induction rest generalizing w done with
  | nil => rfl
  | cons e rest ih =>
      have key := w.receive_within (a := a) e.key
      have value := (w.receive a e.key).1.receive_within (a := a) e.value
      simp only [decodeEntries, receive_alone, alike _ _ key]
      generalize f ((w.receive a e.key).1.receive a e.value).1 (w.receive a e.key).2 = r
      obtain ⟨w', x⟩ := r
      cases x with
      | error => rfl
      | ok x =>
          simp only [alike' _ _ value]
          generalize g w' ((w.receive a e.key).1.receive a e.value).2 = r
          obtain ⟨w'', y⟩ := r
          cases y with
          | error => rfl
          | ok y => exact ih w'' _

theorem decodePlain_alone (decoder : Decoder) : DecodesAlone a base fun w d => w.decodePlain decoder d := by
  intro w d _
  simp only [decodePlain]
  split <;> rfl

theorem decodeWith_alone (decoder : Decoder) : DecodesAlone a base (decodeWith decoder) := by
  induction decoder with
  | optional inner ih =>
      intro w d within
      simp only [decodeWith]
      split
      · rfl
      · exact ih w d within
  | list item ih =>
      intro w d within
      simp only [decodeWith, decodeList]
      refine withTable_alone w base within _ fun t => ?_
      simp only [decodeItems_alone w ih]
      generalize decodeItems (decodeWith item) a w (itemsOf t) [] = r
      obtain ⟨w', x⟩ := r
      cases x <;> rfl
  | table key entry ih ih' =>
      intro w d within
      simp only [decodeWith, decodePairs]
      refine withTable_alone w base within _ fun t => ?_
      simp only [decodeEntries_alone w ih ih']
      generalize decodeEntries (decodeWith key) (decodeWith entry) a w t.entries [] = r
      obtain ⟨w', x⟩ := r
      cases x <;> rfl
  | nil | bool | int | float | number | string | value | reference => exact decodePlain_alone _

end

theorem decode_alone {d : Datum} (within : d.Within a) (decoder : Decoder) :
    (w.alone a base).decode d decoder = ((w.decode d decoder).1.alone a base, (w.decode d decoder).2) := by
  simp only [decode, decodeWith_alone decoder w d within]
  generalize decodeWith decoder w d = r
  obtain ⟨w', x⟩ := r
  cases x with
  | ok => rfl
  | error refusal => cases refusal <;> rfl

end World

end LuaHost
