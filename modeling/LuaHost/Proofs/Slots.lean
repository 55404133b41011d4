import LuaHost.Proofs.Standing
/-!
Who holds what in the slots of a session: the handles that have not been given back, and the chunks that
are compiled. A record says for each holder which guest object it was made for. As long as a world is
sound, two holders never share a slot, and every slot that is held has the object of its holder in it.
-/

namespace LuaHost

namespace Guest.Slots
variable (s : Slots)

/-- Free slots are listed once, and nothing is in them. -/
structure WF : Prop where
  nodup : s.free.Nodup
  empty : ∀ slot ∈ s.free, slot < s.objects.size ∧ s.get? slot = none

theorem WF.default : (default : Slots).WF where
  nodup := .nil
  empty := fun _ mem => nomatch mem

variable {s}

theorem get?_lt {slot : Nat} {v : Value} (kept : s.get? slot = some v) : slot < s.objects.size := by
  rw [get?, Option.bind_eq_some_iff] at kept
  obtain ⟨content, found, -⟩ := kept
  exact (Array.getElem?_eq_some_iff.mp found).1

theorem content_of_get? {slot : Nat} {v : Value} (kept : s.get? slot = some v) :
    s.content slot = v := by
  simp only [content, kept]

/-- The slot that is taken next holds nothing. -/
theorem WF.get?_next (wf : s.WF) : s.get? s.next = none := by
  rcases free : s.free with _ | ⟨slot, rest⟩
  · simp [next, free, get?]
  · have mem : slot ∈ s.free := free ▸ List.mem_cons_self
    simpa [next, free] using (wf.empty slot mem).2

theorem WF.get?_pin_next (wf : s.WF) (v : Value) : (s.pin v).get? s.next = some v := by
  rcases free : s.free with _ | ⟨slot, rest⟩
  · simp [pin, next, free, get?]
  · have bound := (wf.empty slot (free ▸ List.mem_cons_self)).1
    simp [pin, next, free, get?, bound]

theorem get?_pin_other (v : Value) {slot : Nat} (other : slot ≠ s.next) :
    (s.pin v).get? slot = s.get? slot := by
  rcases free : s.free with _ | ⟨taken, rest⟩
  · have other : slot ≠ s.objects.size := by simpa [next, free] using other
    simp [pin, free, get?, Array.getElem?_push, other]
  · have other : taken ≠ slot := by simpa [next, free] using Ne.symm other
    simp [pin, free, get?, other]

theorem get?_unpin_other {slot other : Nat} (unlike : other ≠ slot) :
    (s.unpin slot).get? other = s.get? other := by
  simp [unpin, get?, unlike.symm]

theorem get?_unpin (slot : Nat) : (s.unpin slot).get? slot = none := by
  by_cases bound : slot < s.objects.size <;> simp [unpin, get?, bound]

theorem WF.pin (wf : s.WF) (v : Value) : (s.pin v).WF := by
  rcases free : s.free with _ | ⟨taken, rest⟩
  · have pinned : (s.pin v).free = [] := by simp [Slots.pin, free]
    exact ⟨pinned ▸ .nil, fun slot mem => by simp [pinned] at mem⟩
  · have pinned : (s.pin v).free = rest := by simp [Slots.pin, free]
    have nodup := wf.nodup
    rw [free, List.nodup_cons] at nodup
    refine ⟨pinned ▸ nodup.2, ?_⟩
    intro slot mem
    rw [pinned] at mem
    obtain ⟨bound, empty⟩ := wf.empty slot (free ▸ List.mem_cons_of_mem taken mem)
    refine ⟨by simpa [Slots.pin, free] using bound, ?_⟩
    rw [get?_pin_other v, empty]
    rintro rfl
    exact nodup.1 (by simpa [next, free] using mem)

/-- A slot that is held can be given back. -/
theorem WF.unpin (wf : s.WF) {slot : Nat} {v : Value} (kept : s.get? slot = some v) :
    (s.unpin slot).WF := by
  have fresh : slot ∉ s.free := by
    intro mem
    exact nomatch kept.symm.trans (wf.empty slot mem).2
  refine ⟨List.nodup_cons.mpr ⟨fresh, wf.nodup⟩, ?_⟩
  intro other freed
  rcases List.mem_cons.mp freed with rfl | mem
  · exact ⟨by simpa [Slots.unpin] using get?_lt kept, get?_unpin other⟩
  · obtain ⟨bound, empty⟩ := wf.empty other mem
    have unlike : other ≠ slot := fun same => fresh (same ▸ mem)
    exact ⟨by simpa [Slots.unpin] using bound, (get?_unpin_other unlike).trans empty⟩

end Guest.Slots

/-- Who may hold a slot: a handle, or a chunk for its compiled form in a session. -/
inductive Holder where
  | handle (h : Handle)
  | chunk (session chunk : Nat)
  deriving DecidableEq

def Holder.session : Holder → Nat
  | handle h => h.session
  | chunk session _ => session

namespace Ledger
variable (l : Ledger)

/-- The slot of a holder of this session. -/
def held? : Holder → Option Nat
  | .handle h => l.slot? h.index
  | .chunk _ chunk => l.compiledSlot? chunk

theorem slot?_addHandle_next (slot : Nat) : (l.addHandle slot).slot? l.nextHandle = some slot := by
  simp [slot?, addHandle, nextHandle]

theorem slot?_addHandle_other (slot : Nat) {index : Nat} (other : index ≠ l.nextHandle) :
    (l.addHandle slot).slot? index = l.slot? index := by
  simp only [slot?, addHandle, Array.getElem?_push, if_neg (show index ≠ l.handles.size from other)]

theorem slot?_releaseHandle (index : Nat) : (l.releaseHandle index).slot? index = none := by
  by_cases bound : index < l.handles.size <;>
    simp [slot?, releaseHandle, Array.getElem_modify, bound]

theorem slot?_releaseHandle_other {index other : Nat} (unlike : other ≠ index) :
    (l.releaseHandle index).slot? other = l.slot? other := by
  simp only [slot?, releaseHandle, Array.getElem?_modify, if_neg unlike.symm]

theorem compiledSlot?_addCompiled (chunk slot : Nat) :
    (l.addCompiled chunk slot).compiledSlot? chunk = some slot := by
  simp [compiledSlot?, addCompiled]

theorem compiledSlot?_addCompiled_other {chunk other : Nat} (slot : Nat) (unlike : other ≠ chunk) :
    (l.addCompiled chunk slot).compiledSlot? other = l.compiledSlot? other := by
  simp [compiledSlot?, addCompiled, unlike.symm]

theorem compiledSlot?_removeCompiled (chunk : Nat) :
    (l.removeCompiled chunk).compiledSlot? chunk = none := by
  simp [compiledSlot?, removeCompiled, List.find?_filter]

theorem compiledSlot?_removeCompiled_other {chunk other : Nat} (unlike : other ≠ chunk) :
    (l.removeCompiled chunk).compiledSlot? other = l.compiledSlot? other := by
  simp only [compiledSlot?, removeCompiled, List.find?_filter]
  congr 2
  funext entry
  by_cases same : entry.1 = other <;> simp [same, unlike]

end Ledger

/-- What is kept for holders: by session, the handles and the chunks that are compiled, and the slots. -/
structure Holdings where
  accounts : Array (Array HandleRecord × List (Nat × Nat))
  slots : Array Guest.Slots

namespace World
variable {σ : Type} (w : World σ)

def slots (session : Nat) : Guest.Slots := (w.machine session).slots

/-- The slot of a holder that has not given it back. -/
def slot? (x : Holder) : Option Nat := (w.ledger x.session).held? x

/-- The object that a holder stands for. -/
def denoted? (x : Holder) : Option Guest.Value := (w.slot? x).bind (w.slots x.session).get?

def holdings : Holdings where
  accounts := w.ledgers.map fun l => (l.handles, l.compiled)
  slots := w.vms.map (·.machine.slots)

theorem ledger_modifyLedger (session other : Nat) (f : Ledger → Ledger) :
    (w.modifyLedger session f).ledger other =
      if session = other ∧ other < w.ledgers.size then f (w.ledger other) else w.ledger other :=
  getD_modify _ _ _ _ _

@[simp] theorem ledger_modifyMachine (session other : Nat) (f : Guest.Machine → Guest.Machine) :
    (w.modifyMachine session f).ledger other = w.ledger other := rfl

@[simp] theorem slots_modifyLedger (session other : Nat) (f : Ledger → Ledger) :
    (w.modifyLedger session f).slots other = w.slots other := rfl

theorem machine_modifyMachine (session other : Nat) (f : Guest.Machine → Guest.Machine) :
    (w.modifyMachine session f).machine other =
      if session = other ∧ other < w.vms.size then f (w.machine other) else w.machine other := by
  by_cases bound : other < w.vms.size
  · by_cases same : session = other <;>
      simp [machine, modifyMachine, Array.getElem_modify, bound, same]
  · simp [machine, modifyMachine, bound]

theorem slots_modifyMachine (session other : Nat) (f : Guest.Machine → Guest.Machine) :
    (w.modifyMachine session f).slots other =
      if session = other ∧ other < w.vms.size then (f (w.machine other)).slots
      else w.slots other := by
  rw [slots, machine_modifyMachine]
  split <;> rfl

/-- Holders and slots are read off what is kept for holders. -/
theorem slots_eq (session : Nat) : w.slots session = w.holdings.slots.getD session {} := by
  simp only [slots, machine, holdings, Array.getD_eq_getD_getElem?, Array.getElem?_map]
  cases w.vms[session]? <;> rfl

theorem handles_eq (session : Nat) :
    (w.ledger session).handles = (w.holdings.accounts.getD session (#[], [])).1 := by
  simp only [ledger, holdings, Array.getD_eq_getD_getElem?, Array.getElem?_map]
  cases w.ledgers[session]? <;> rfl

theorem compiled_eq (session : Nat) :
    (w.ledger session).compiled = (w.holdings.accounts.getD session (#[], [])).2 := by
  simp only [ledger, holdings, Array.getD_eq_getD_getElem?, Array.getElem?_map]
  cases w.ledgers[session]? <;> rfl

/-- What leaves handles and compiled chunks alone leaves what is kept for holders as it is. -/
theorem modifyLedger_holdings (session : Nat) (f : Ledger → Ledger)
    (same : ∀ l, ((f l).handles, (f l).compiled) = (l.handles, l.compiled)) :
    (w.modifyLedger session f).holdings = w.holdings := by
  simp only [holdings, modifyLedger, Holdings.mk.injEq, and_true]
  rw [map_modify _ _ f _ id same, modify_id]

theorem modifyMachine_holdings (session : Nat) (f : Guest.Machine → Guest.Machine)
    (same : ∀ m, (f m).slots = m.slots) : (w.modifyMachine session f).holdings = w.holdings := by
  simp only [holdings, modifyMachine, Holdings.mk.injEq, true_and]
  rw [map_modify _ _ _ _ id fun v => same v.machine, modify_id]

variable {w} {w' : World σ}

theorem slot?_congr (same : w'.holdings = w.holdings) (x : Holder) : w'.slot? x = w.slot? x := by
  cases x with
  | handle h => simp only [slot?, Ledger.held?, Ledger.slot?, handles_eq, same]
  | chunk session chunk =>
      simp only [slot?, Ledger.held?, Ledger.compiledSlot?, compiled_eq, same]

theorem slots_congr (same : w'.holdings = w.holdings) (session : Nat) :
    w'.slots session = w.slots session := by
  simp only [slots_eq, same]

theorem sizes_congr (same : w'.holdings = w.holdings) :
    w'.ledgers.size = w.ledgers.size ∧ w'.vms.size = w.vms.size := by
  refine ⟨?_, ?_⟩
  · simpa [holdings] using congrArg (·.accounts.size) same
  · simpa [holdings] using congrArg (·.slots.size) same

end World

end LuaHost
