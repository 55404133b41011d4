import LuaHost.Proofs.Programs
/-!
Code that is made a function once more. The new function is another object than the one that was made before,
with variables of its own. A call of the one begins as a call of the other does: with the same stack, at the
same instruction, and with everything that the guest had before.
-/

namespace LuaHost.Guest

/-- A table with a later number. -/
def Table.shift (t : Table) (later : Nat) : Table := { t with serial := t.serial + later }

/-- A function has been made of code. Its first variable holds the globals. The table `i` has got a number that
is `later i` later. -/
def Store.renew (s : Store) (later : Nat → Nat) (p : Prototype) : Store :=
  { s with
    tables := s.tables.mapIdx fun i t => t.shift (later i)
    closures := s.closures.push (.compiled s.chunks p (Array.range' s.cells.size p.upvalues.size))
    cells := s.cells.push (.closed (.table s.globals)) ++
      Array.replicate (p.upvalues.size - 1) (.closed .nil)
    chunks := s.chunks + 1
    unlisted := s.unlisted + p.count + 1 }

/-- A function has been made of code, and has been put into a slot. -/
def Machine.renew (m : Machine) (later : Nat → Nat) (slot : Nat) (p : Prototype) : Machine :=
  { m with
    store := m.store.renew later p
    slots := { m.slots with
      objects := m.slots.objects.setIfInBounds slot (some (.closure m.store.closures.size)) } }

/-- An active function of a chunk gives way to one that has been made of its code since. -/
def Activation.renew (a : Activation) (s : Store) (p : Prototype) : Activation :=
  { a with
    closure := s.closures.size
    chunk := s.chunks
    cells := Array.range' s.cells.size p.upvalues.size }

/-- A function has been made of code, has been put into a slot, and is active in the place of the function that
was made of the code before. -/
def Machine.refresh (m : Machine) (later : Nat → Nat) (slot : Nat) (p : Prototype) : Machine :=
  match m.frame with
  | .compiled a =>
    { m.renew later slot p with
      stack := m.stack.setIfInBounds a.func (.closure m.store.closures.size)
      frame := .compiled (a.renew m.store p) }
  | _ => m.renew later slot p

/-- A function of a chunk has been called from the host, without arguments. -/
def Machine.begun (m : Machine) (id chunk : Nat) (p : Prototype) (cells : Array Nat) : Machine :=
  { m with
    stack := fillNil ((m.putAll m.top [.closure id]).ensure (m.top + 1 + p.registers)).stack (m.top + 1)
      p.parameters
    frame := .compiled
      { func := m.top
        base := m.top + 1
        closure := id
        chunk
        prototype := p
        cells
        pc := 0
        wanted := none
        isTailCall := false
        finish := .results
        yieldable := false
        depth := m.frame.depth + 1 }
    callers := m.frame :: m.callers
    top := m.top + 1 + p.registers }

/-- There is room on the stack for a call of a function without arguments, and calls are not nested too deep
for it. -/
structure Machine.MayBegin (m : Machine) (p : Prototype) : Prop where
  room : m.top + 1 + p.registers + stackReserve ≤ stackLimit
  depth : m.baseDepth + (m.frame.depth + 1) + 1 < callLimit

namespace Machine
variable {m : Machine} {p : Prototype}

theorem fillNil_set (stack : Array Value) {i start : Nat} (before : i < start) (v : Value) (count : Nat) :
    fillNil (stack.setIfInBounds i v) start count = (fillNil stack start count).setIfInBounds i v := by
  induction count generalizing stack start with
  | zero => rfl
  | succ count ih =>
      rw [fillNil, fillNil, Array.setIfInBounds_comm _ _ (Nat.ne_of_lt before), ih _ (by omega)]

end Machine

end LuaHost.Guest
