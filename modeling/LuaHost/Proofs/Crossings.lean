import LuaHost.Proofs.Relays
/-!
Values cross the boundary unchanged. A host function that is called by the host, through a reference or by a name, gets
what it is called with, and what it returns is what the call comes to; as long as nobody throws who is told about it,
and the guest has room for the values.
-/

namespace LuaHost

variable {σ : Type}

namespace Config
variable {b c : Config σ} {w : World σ} {s : State} {ref : Reference} {index : Nat} {arguments : List Item}
  {xs : List Sight} {keys : List String} {item : Item}

/-- An assignment is about to be performed that gives a host function a name: nothing is in its way, and the cell
that it changes did not hold a table through which its own path goes. -/
structure MayName (b : Config σ) (s : State) (keys : List String) (item : Item) (index : Nat) : Prop where
  assigns : b.MayAssign s keys item (.host index)
  free : ∀ i u, ¬ Guest.Blocks (b.world.machine s.session).store
    (.table (b.world.machine s.session).store.globals) keys i u
  straight : ∀ before id key after, Guest.Reaches (b.world.machine s.session).store
    (.table (b.world.machine s.session).store.globals) keys before id key after →
    ∀ t, ((b.world.machine s.session).store.table id).getText key = .table t →
      ¬ (b.world.machine s.session).store.Passes t keys (.table (b.world.machine s.session).store.globals)

/-- A host function has its name when the assignment is done, and everything is shown that was shown before. -/
structure Names (b : Config σ) (s : State) (keys : List String) (index : Nat) (w : World σ) (s' : State) : Prop where
  leads : Leads b ⟨w, .outcome (.ok (some s') .nothing), b.stack⟩
  here : s'.session = s.session
  looks : w.MayLookUp s' keys
  names : w.Names s.session keys index
  code : w.code = b.world.code
  floor : (w.machine s.session).floor = (b.world.machine s.session).floor
  shows : ∀ d x, b.world.Shows s.session d x → w.Shows s.session d x

theorem MayName.names (may : b.MayName s keys item index) : ∃ w s', b.Names s keys index w s' := by
  obtain ⟨i, u, _, blocks, -⟩ | ⟨store', w', before, id, key, after, reaches, assigned, called, leads⟩ :=
    may.assigns.runs
  · exact absurd blocks (may.free i u)
  obtain ⟨there, plain⟩ := reaches.leads assigned may.assigns.plain (may.straight _ _ _ _ reaches)
  have globals : store'.globals = (b.world.machine s.session).store.globals := by rw [assigned.tables]
  have room : (b.world.machine s.session).HasRoomFor (keys.length + 1) := by
    have values := may.assigns.room.values
    exact ⟨may.assigns.room.call, by omega, may.assigns.room.depth⟩
  rw [← globals] at there plain
  have looks := lookup_after may.assigns.tracked may.assigns.accepted called (fun _ => room) plain
  have heap : ((w'.succeed s.session .nothing).1.machine s.session).store = store' := called.store
  have spares : w'.Spares (w'.succeed s.session .nothing).1 := w'.advance_spares s.session
  refine ⟨_, _, leads, rfl, looks, ⟨?_, looks.plain⟩, spares.code.trans called.code, called.floor, fun d x shows => ?_⟩
  · rw [heap]
    exact there
  · exact spares.shows (called.tracked may.assigns.tracked) _ _ _ (called.shows shows)

/-- Nobody is told anything. -/
def silent : Callbacks Unit := { onLog := fun _ _ memory => (memory, none) }

/-- A host function that returns its arguments, and one that hands its arguments on to this. -/
def inner : Reference := ⟨.composite .function ⟨0, 0⟩⟩
def outer : Reference := ⟨.composite .function ⟨0, 1⟩⟩

section
variable (callbacks : Callbacks Unit) (op : Operation Unit)

end

end Config

end LuaHost
