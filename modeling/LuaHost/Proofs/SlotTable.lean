import LuaHost.Proofs.Evolution
import LuaHost.Proofs.Runs
/-!
The slots of a session in whatever host code comes to. No two holders share a slot, each slot that is held
has the object of its holder in it, and giving one back is noticed by its holder only. So a handle stands
for one object for good, and a chunk that is run is run as the function that was made of it.
-/

namespace LuaHost

variable {σ : Type}

namespace World
variable {w w' : World σ} {made : Made}

/-- A holder gives back what it holds. -/
def giveBack (w : World σ) : Holder → World σ
  | .handle h => w.releaseHandle h
  | .chunk session chunk => w.releaseChunk session chunk

theorem giveBack_unheld {x : Holder} (unheld : w.slot? x = none) : w.giveBack x = w := by
  cases x with
  | handle h => exact releaseHandle_unheld unheld
  | chunk session chunk => exact releaseChunk_unheld unheld

theorem giveBack_givesBack {x : Holder} {slot : Nat} (held : w.slot? x = some slot) :
    GivesBack w (w.giveBack x) x slot := by
  cases x with
  | handle h => exact releaseHandle_givesBack held
  | chunk session chunk => exact releaseChunk_givesBack held

/-- A holder stands for the object that it was made for. -/
theorem Sound.denoted (sound : w.Sound made) {x : Holder} {slot : Nat}
    (held : w.slot? x = some slot) : w.denoted? x = some (made x) := by
  rw [denoted?, held, Option.bind_some]
  exact sound.kept x slot held

/-- What another holder stands for stays the same. -/
theorem Sound.giveBack_other (sound : w.Sound made) {x y : Holder} (unlike : y ≠ x) :
    (w.giveBack x).slot? y = w.slot? y ∧ (w.giveBack x).denoted? y = w.denoted? y := by
  cases held : w.slot? x with
  | none =>
      rw [giveBack_unheld held]
      exact ⟨rfl, rfl⟩
  | some slot =>
      have back := giveBack_givesBack held
      have same := back.others y unlike
      refine ⟨same, ?_⟩
      cases held' : w.slot? y with
      | none => rw [denoted?, denoted?, same, held', Option.bind_none, Option.bind_none]
      | some other =>
          rw [sound.denoted held']
          exact (sound.givesBack back).denoted (same.trans held')

/-- A guest value is a function that the text of a chunk compiles to. -/
def IsFunctionOf (w : World σ) (session : Nat) (chunk : Chunk) (v : Guest.Value) : Prop :=
  ∃ id n p cells depth, v = .closure id ∧ chunk.compile depth = .ok p ∧
    (w.machine session).store.closures[id]? = some (.compiled n p cells)

theorem keepCompiled_function {session chunk : Nat} {p : Guest.Prototype}
    (bound : session < w.vms.size)
    (compiled : (w.chunk chunk).compile (w.machine session).mainDepth = .ok p) :
    (w.keepCompiled session chunk p).1.IsFunctionOf session (w.chunk chunk)
      (.closure (w.machine session).store.closures.size) := by
  let loaded := w.modifyMachine session fun m =>
    { m with store := (m.store.loadPrototype p (.table m.store.globals)).1 }
  have bound' : session < loaded.vms.size := by simpa [loaded, modifyMachine] using bound
  have store : ((w.keepCompiled session chunk p).1.machine session).store =
      ((w.machine session).store.loadPrototype p (.table (w.machine session).store.globals)).1 := by
    have before := w.machine_modifyMachine session session fun m =>
      { m with store := (m.store.loadPrototype p (.table m.store.globals)).1 }
    have after := loaded.machine_modifyMachine session session fun m =>
      { m with slots := m.slots.pin (.closure (w.machine session).store.closures.size) }
    rw [if_pos ⟨rfl, bound⟩] at before
    rw [if_pos ⟨rfl, bound'⟩] at after
    exact (congrArg (·.store) after).trans (congrArg (·.store) before)
  let cells := Array.range' (w.machine session).store.cells.size p.upvalues.size
  refine ⟨_, (w.machine session).store.chunks, p, cells, _, rfl, compiled, ?_⟩
  rw [store]
  simp only [Guest.Store.loadPrototype, Guest.Store.newClosure, Array.getElem?_push_size,
    Nat.add_sub_cancel]
  rfl

/-- A chunk that is compiled has its slot then. Nothing new is recorded if it had one before, and a
function of its text otherwise. -/
theorem Sound.compile {session chunk slot : Nat} (sound : w.Sound made)
    (bound : session < w.ledgers.size) (compiled : w.compile session chunk = (w', .ok slot)) :
    w'.slot? (.chunk session chunk) = some slot ∧ ∃ made', w.Evolves made w' made' ∧
      (made' = made ∨ w.slot? (.chunk session chunk) = none ∧
        w'.IsFunctionOf session (w.chunk chunk) (made' (.chunk session chunk))) := by
  unfold World.compile at compiled
  split at compiled
  · next slot' held =>
      obtain ⟨rfl, rfl⟩ : w = w' ∧ slot' = slot := by simpa using compiled
      exact ⟨held, made, .same rfl, .inl rfl⟩
  · next new =>
      split at compiled
      · simp at compiled
      · next p accepted =>
          obtain ⟨rfl, rfl⟩ : (w.keepCompiled session chunk p).1 = w' ∧
              (w.keepCompiled session chunk p).2 = slot := by simpa using compiled
          have taken := (keepCompiled_takes chunk p sound.sizes bound).slot
          refine ⟨?_, _, .compiles session chunk new accepted, .inr ⟨new, ?_⟩⟩
          · rw [taken, keepCompiled_slot, Holder.session]
          · rw [Function.update_self]
            exact keepCompiled_function (sound.sizes ▸ bound) accepted

/-- A guest object that the host is given is the one that its handle is recorded for. -/
theorem receive_evolves {session : Nat} {v : Guest.Value} {kind : CompositeKind} {h : Handle}
    (given : (w.receive session v).2 = .composite kind h) :
    w.Evolves made (w.receive session v).1 (Function.update made (.handle h) v) := by
  cases v with
  | nil | bool | int | float | string => exact nomatch given
  | table | closure | builtin | host | userdata | light | thread =>
      obtain ⟨-, rfl⟩ := Datum.composite.inj given
      exact .pins session _

end World

namespace Config

/-- What has been recorded on the way from host code that started without sessions. -/
inductive Recorded : Config σ → Made → Prop
  | start (client : Client σ) (directory : Directory) (memory : σ) (made : Made) :
      Recorded (start { directory, memory } client) made
  | next {c d : Config σ} {made made' : Made} (recorded : Recorded c made) (next : Next c d)
      (evolves : World.Evolves c.world made d.world made') : Recorded d made'

variable {c d : Config σ} {made : Made}

theorem Next.continues (next : Next c d) : c.world.Continues d.world := by
  cases next with
  | step => exact c.step_changes.continues
  | surroundings directory memory => exact .same rfl

theorem start_sound_slots (client : Client σ) (directory : Directory) (memory : σ) (made : Made) :
    (start { directory, memory } client).world.Sound made where
  sizes := rfl
  free := by
    intro session
    rw [World.slots_missing (Nat.zero_le session)]
    exact .default
  kept := by
    intro x slot held
    exact nomatch held.symm.trans (World.slot?_missing (Nat.zero_le x.session))
  apart := by
    intro x y slot session held
    exact nomatch held.symm.trans (World.slot?_missing (Nat.zero_le x.session))

theorem Recorded.sound (recorded : Recorded c made) : c.world.Sound made := by
  induction recorded with
  | start client directory memory made => exact start_sound_slots client directory memory made
  | next recorded next evolves ih => exact evolves.sound ih

/-- The record goes on with a run, and handles keep what they stand for. -/
theorem Recorded.run {T : List (Pending σ)} (recorded : Recorded c made) (run : Run T c d) :
    ∃ made', Recorded d made' ∧
      ∀ h, c.world.Knows h → World.Keeps c.world made d.world made' h := by
  induction run with
  | refl => exact ⟨made, recorded, fun h knows => ⟨rfl, knows, .inl rfl⟩⟩
  | tail _ next ih =>
      obtain ⟨made', recorded', kept⟩ := ih
      obtain ⟨made'', evolves⟩ := next.1.continues made'
      refine ⟨made'', .next recorded' next.1 evolves, ?_⟩
      intro h knows
      have before := kept h knows
      exact before.trans (evolves.handle recorded'.sound before.knows)

theorem Reachable.recorded (reachable : Reachable c) : ∃ made, Recorded c made := by
  obtain ⟨client, directory, memory, run⟩ := reachable
  obtain ⟨made, recorded, -⟩ := (Recorded.start client directory memory fun _ => .nil).run run
  exact ⟨made, recorded⟩

/-- A chunk is run as the function that it was made of when it was compiled. -/
theorem Recorded.runChunk {s : State} {chunk slot : Nat} {w : World σ} (recorded : Recorded c made)
    (control : c.control = .perform (.runChunk s chunk)) (accepted : c.world.stateViolation? s = none)
    (compiled : c.world.compile s.session chunk = (w, .ok slot)) :
    w.slot? (.chunk s.session chunk) = some slot ∧ ∃ made', Recorded c.step made' ∧
      (made' = made ∨ c.world.slot? (.chunk s.session chunk) = none ∧
        w.IsFunctionOf s.session (c.world.chunk chunk) (made' (.chunk s.session chunk))) ∧
      c.step = ({ c with world := w }.openingGate s).applying s (made' (.chunk s.session chunk)) [] := by
  have bound : s.session < c.world.ledgers.size := by
    have opened := ((c.world.stateViolation?_eq_none s).mp accepted).session_lt
    simpa [World.standing] using opened
  obtain ⟨held, made', evolves, same⟩ := recorded.sound.compile bound compiled
  have gate := openingGate_holdings (c := { c with world := w }) s
  have kept := (evolves.sound recorded.sound).kept _ slot held
  rw [← World.slots_congr gate] at kept
  have step : c.step =
      ({ c with world := w }.openingGate s).applying s (made' (.chunk s.session chunk)) [] := by
    rw [← Guest.Slots.content_of_get? kept]
    simp only [Config.step, control, perform, runningChunk, requiring, accepted, compiled]
    rfl
  refine ⟨held, made', .next recorded (.step c) (evolves.trans (.same ?_)), same, step⟩
  rw [step, applying_holdings, gate]

/-- The slots of all sessions, whatever has happened to handles and chunks so far. Two holders of a session
have two slots, and each holder stands for the object that it was made for. What one gives back is its
own, and only once. A handle stands for one object as long as it has not been given back, and a chunk is
run as the function that its text was compiled to. -/
theorem slot_table (reachable : Reachable c) :
    (∃ made, Recorded c made) ∧ ∀ made, Recorded c made →
      (∀ x y slot, x.session = y.session → c.world.slot? x = some slot →
        c.world.slot? y = some slot → x = y) ∧
      (∀ x slot, c.world.slot? x = some slot → c.world.denoted? x = some (made x)) ∧
      (∀ x, (c.world.giveBack x).slot? x = none ∧
        (c.world.slot? x = none → c.world.giveBack x = c.world) ∧
        ∀ y, y ≠ x → (c.world.giveBack x).slot? y = c.world.slot? y ∧
          (c.world.giveBack x).denoted? y = c.world.denoted? y) ∧
      (∀ T d h slot, Run T c d → c.world.Knows h → d.world.slot? (.handle h) = some slot →
        c.world.slot? (.handle h) = some slot ∧
          d.world.denoted? (.handle h) = some (made (.handle h))) ∧
      (∀ s chunk slot w, c.control = .perform (.runChunk s chunk) →
        c.world.stateViolation? s = none → c.world.compile s.session chunk = (w, .ok slot) →
        w.slot? (.chunk s.session chunk) = some slot ∧ ∃ made', Recorded c.step made' ∧
          (made' = made ∨ c.world.slot? (.chunk s.session chunk) = none ∧
            w.IsFunctionOf s.session (c.world.chunk chunk) (made' (.chunk s.session chunk))) ∧
          c.step =
            ({ c with world := w }.openingGate s).applying s (made' (.chunk s.session chunk)) []) := by
  refine ⟨reachable.recorded, fun made recorded => ?_⟩
  have sound := recorded.sound
  refine ⟨sound.apart, fun x slot held => sound.denoted held, ?_, ?_, ?_⟩
  · intro x
    refine ⟨?_, World.giveBack_unheld, fun y unlike => sound.giveBack_other unlike⟩
    cases held : c.world.slot? x with
    | none => rw [World.giveBack_unheld held, held]
    | some slot => exact (World.giveBack_givesBack held).gone
  · intro T d h slot run knows held
    obtain ⟨made', recorded', kept⟩ := recorded.run run
    obtain ⟨same, -, slots⟩ := kept h knows
    rcases slots with unmoved | gone
    · exact ⟨unmoved.symm.trans held, same ▸ recorded'.sound.denoted held⟩
    · exact nomatch gone.symm.trans held
  · intro s chunk slot w control accepted compiled
    exact recorded.runChunk control accepted compiled

/-- Three functions are exposed, and the first one is given back twice before the third one is made. -/
def reused : Config Unit :=
  step^[13] (opened fun s =>
    let body (t : State) (_ : List Datum) : Client Unit := .done t []
    let first : Item := .value (.composite .function ⟨0, 0⟩)
    [.expose s none body, .expose ⟨0, 1⟩ none body, .release first, .release first,
      .expose ⟨0, 2⟩ none body])

/-- The third handle has the slot that the first one had, and each of the two that are left stands for its
own function. -/
theorem reused_slots :
    reused.world.slot? (.handle ⟨0, 2⟩) = some 0 ∧ reused.world.slot? (.handle ⟨0, 1⟩) = some 1 ∧
      reused.world.giveBack (.handle ⟨0, 0⟩) = reused.world ∧
      ∃ made, Recorded reused made ∧ made (.handle ⟨0, 1⟩) = .host 1 ∧
        made (.handle ⟨0, 2⟩) = .host 2 := by
  have reachable : Reachable reused := (opened_reachable _).run (run_steps _ _)
  obtain ⟨⟨made, recorded⟩, table⟩ := slot_table reachable
  obtain ⟨-, denoted, released, -⟩ := table made recorded
  have third : reused.world.slot? (.handle ⟨0, 2⟩) = some 0 := rfl
  have second : reused.world.slot? (.handle ⟨0, 1⟩) = some 1 := rfl
  refine ⟨third, second, (released (.handle ⟨0, 0⟩)).2.1 rfl, made, recorded, ?_, ?_⟩
  · exact (Option.some.inj (denoted _ _ second)).symm
  · exact (Option.some.inj (denoted _ _ third)).symm

end Config

end LuaHost
