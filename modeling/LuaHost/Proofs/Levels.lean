import LuaHost.Proofs.GuestSteps
import LuaHost.Proofs.Stacks
/-!
Where the machine of a session stands while host code runs that the guest has called. For each call of the guest
that waits on the stack there is a gate on the machine, and for each host function there is what called it. What host
code does meanwhile opens gates further up and leaves them again, so that the machine always stands where the stack
says, and whoever returns to the guest finds it as it was left.
-/

namespace LuaHost

variable {σ : Type}

namespace Guest.Machine
variable {m m' m₀ m₁ : Machine}

/-- Nothing has happened on a machine but to its heap and its slots. -/
def Rests (m m' : Machine) : Prop := ∃ store slots, m' = { m with store, slots }

theorem Rests.refl (m : Machine) : Rests m m := ⟨_, _, rfl⟩

theorem Rests.trans (first : Rests m m₁) (second : Rests m₁ m') : Rests m m' := by
  obtain ⟨store, slots, rfl⟩ := first
  obtain ⟨store', slots', rfl⟩ := second
  exact ⟨store', slots', rfl⟩

theorem Rests.frame (rests : Rests m m') : m'.frame = m.frame := by
  obtain ⟨store, slots, rfl⟩ := rests
  rfl

theorem Rests.back (rests : Rests m m') (orderly : m.Orderly) : Back m m' := by
  obtain ⟨store, slots, rfl⟩ := rests
  exact back_of_alike orderly rfl (fun _ => rfl) fun _ => rfl

theorem Rests.goes (rests : Rests m m') (goes : Goes m₀ m) : Goes m₀ m' := by
  rcases goes with ⟨above, asks⟩ | ⟨back, signal⟩
  · refine .inl ⟨above.back (rests.back above.orderly), ?_⟩
    obtain ⟨store, slots, rfl⟩ := rests
    exact asks
  · refine .inr ⟨back.trans (rests.back back.orderly), ?_⟩
    obtain ⟨store, slots, rfl⟩ := rests
    exact signal

end Guest.Machine

open Guest.Machine (Back Above Goes Runs)

namespace World
variable {a session : Nat} {w w' w'' : World σ}

/-- The calls that are under way in a session are as they were. -/
def Rests (a : Nat) (w w' : World σ) : Prop :=
  a < w.vms.size → a < w'.vms.size ∧ (w.machine a).Rests (w'.machine a)

theorem rests_of_vms (same : w'.vms = w.vms) : w.Rests a w' := by
  intro bound
  refine ⟨same.symm ▸ bound, ?_⟩
  simp only [machine, same]
  exact .refl _

theorem Rests.refl (a : Nat) (w : World σ) : w.Rests a w := rests_of_vms rfl

theorem Rests.trans (first : w.Rests a w') (second : w'.Rests a w'') : w.Rests a w'' := by
  intro bound
  obtain ⟨bound', rests⟩ := first bound
  obtain ⟨bound'', rests'⟩ := second bound'
  exact ⟨bound'', rests.trans rests'⟩

/-- Failures and the host's memory have nothing to do with calls. -/
theorem rests_ignores (a : Nat) : Ignores (Rests (σ := σ) a) where
  refl := .refl a
  trans := .trans
  memory := fun _ _ => rests_of_vms rfl
  identity := fun _ => rests_of_vms rfl
  raised := fun _ _ => rests_of_vms rfl

theorem modifyMachine_bound (bound : a < w.vms.size) (session : Nat) (f : Guest.Machine → Guest.Machine) :
    a < (w.modifyMachine session f).vms.size := by
  simpa [modifyMachine] using bound

theorem modifyMachine_rests (session : Nat) {f : Guest.Machine → Guest.Machine}
    (rests : ∀ m : Guest.Machine, m.Rests (f m)) :
    w.Rests a (w.modifyMachine session f) := by
  intro bound
  refine ⟨modifyMachine_bound bound session f, ?_⟩
  rw [machine_modifyMachine]
  split
  · exact rests _
  · exact .refl _

/-- What goes on in one session is nothing to another one. -/
theorem elsewhere_rests (apart : session ≠ a) (f : Guest.Machine → Guest.Machine) :
    w.Rests a (w.modifyMachine session f) := by
  intro bound
  refine ⟨modifyMachine_bound bound session f, ?_⟩
  rw [machine_modifyMachine, if_neg fun both => apart both.1]
  exact .refl _

theorem occupy_rests (session : Nat) (v : Guest.Value) : w.Rests a (w.occupy session v).1 :=
  modifyMachine_rests session fun _ => ⟨_, _, rfl⟩

theorem rests_reading (a : Nat) : Reading (Rests (σ := σ) a) where
  refl := .refl a
  trans := .trans
  receive := by
    intro w session v
    have pinned : w.Rests a (w.pin session v).1 := (occupy_rests session v).trans (rests_of_vms rfl)
    cases v with
    | nil | bool | int | float | string => exact .refl a w
    | table | closure | builtin | host | userdata | light | thread => exact pinned

theorem vacate_rests (session slot : Nat) : w.Rests a (w.vacate session slot) := by
  rw [vacate]
  split
  · exact .refl a w
  · exact modifyMachine_rests session fun _ => ⟨_, _, rfl⟩

theorem release_rests (item : Item) : w.Rests a (w.release item) := by
  rw [release]
  split
  · rw [releaseHandle]
    split
    · exact .refl a w
    · exact (vacate_rests _ _).trans (rests_of_vms rfl)
  · exact .refl a w

theorem releaseChunk_rests (session chunk : Nat) : w.Rests a (w.releaseChunk session chunk) := by
  rw [releaseChunk]
  split
  · exact .refl a w
  · exact (vacate_rests _ _).trans (rests_of_vms rfl)

theorem compile_rests (session chunk : Nat) : w.Rests a (w.compile session chunk).1 := by
  rw [compile]
  split
  · exact .refl a w
  · split
    · exact (rests_ignores a).fail _ _ _
    · exact (modifyMachine_rests session fun _ => ⟨_, _, rfl⟩).trans
        ((occupy_rests session _).trans (rests_of_vms rfl))

theorem load_rests (session chunk : Nat) : w.Rests a (w.load session chunk).1 := by
  have compiles := w.compile_rests (a := a) session chunk
  rw [load]
  split
  · next compiled => rwa [compiled] at compiles
  · next compiled =>
      rw [compiled] at compiles
      exact compiles.trans (rests_of_vms rfl)

theorem expose_rests (session : Nat) (name : String) (body : State → List Datum → Client σ) :
    w.Rests a (w.expose session name body).1 := by
  let exposing (v : Vm σ) : Vm σ := { v with exposed := v.exposed.push (name, body) }
  have kept : w.Rests a { w with vms := w.vms.modify session exposing } := by
    intro bound
    refine ⟨by simpa using bound, ?_⟩
    have same : machine { w with vms := w.vms.modify session exposing } a = w.machine a := by
      by_cases here : session = a <;> simp [machine, Array.getElem_modify, bound, here, exposing]
    rw [same]
    exact .refl _
  exact kept.trans ((rests_reading a).receive _ _ _)

theorem openSession_rests (options : Options σ) : w.Rests a (w.openSession options).1 := by
  intro bound
  refine ⟨by simpa [openSession] using Nat.lt_succ_of_lt bound, ?_⟩
  have same : (w.openSession options).1.machine a = w.machine a := by
    simp [openSession, machine, Array.getElem?_push, Nat.ne_of_lt bound]
  rw [same]
  exact .refl _

theorem decode_rests (d : Datum) (decoder : Decoder) : w.Rests a (w.decode d decoder).1 := by
  have read := (rests_reading a).decodeWith decoder w d
  rw [decode]
  split
  · next decoded => rwa [decoded] at read
  · next decoded =>
      rw [decoded] at read
      exact read.trans (rests_of_vms rfl)
  · next decoded =>
      rw [decoded] at read
      exact read.trans (rests_of_vms rfl)

theorem readFailure_rests (session : Nat) (status : Guest.Status) (error : Guest.Value)
    (traceback : Option Guest.Bytes) : w.Rests a (w.readFailure session status error traceback).1 := by
  rw [readFailure.eq_def]
  dsimp only
  split
  · exact rests_of_vms rfl
  · split
    · exact .refl a w
    · exact ((rests_reading a).receive _ _ _).trans (rests_of_vms rfl)
  · exact rests_of_vms rfl

theorem returned_rests (session : Nat) (purpose : Purpose) (values : List Guest.Value) :
    w.Rests a (Config.returned session purpose values w).1 := by
  cases purpose with
  | values => exact ((rests_reading a).receiveAll _ _ _).trans (rests_of_vms rfl)
  | lookup keys asReference =>
      cases values with
      | nil => exact (rests_ignores a).fail _ _ _
      | cons v values =>
          have read := (rests_reading a).receive w session v
          simp only [Config.returned]
          split
          · exact read.trans ((rests_ignores a).fail _ _ _)
          · exact read
  | assign keys =>
      simp only [Config.returned]
      split
      · exact (rests_ignores a).fail _ _ _
      · exact rests_of_vms rfl

theorem newTable_rests (session : Nat) (t : Guest.Machine → Guest.Table) :
    w.Rests a (w.modifyMachine session fun m => { m with store := (m.store.newTable (t m)).1 }) :=
  modifyMachine_rests session fun _ => ⟨_, _, rfl⟩

end World

section Levels
variable {a : Nat} {m m' m₀ : Guest.Machine} {S : List (Pending σ)}

/-- A machine stands for what waits on a stack for calls of its session, `m₀` being the machine with nothing of this
on it: above a gate for each call, and where a host function was called for each host function. -/
def Piled (a : Nat) (m₀ : Guest.Machine) : List (Pending σ) → Guest.Machine → Prop
  | [], m => Back m₀ m
  | .guest entry _ :: S, m => if entry.session = a then ∃ m', Piled a m₀ S m' ∧ Above m' m else Piled a m₀ S m
  | .body session _ :: S, m => (session = a → ∃ n, m.frame = .native n) ∧ Piled a m₀ S m
  | _ :: S, m => Piled a m₀ S m

theorem Piled.orderly (stands : Piled a m₀ S m) : m.Orderly := by
  induction S generalizing m with
  | nil => exact Back.orderly stands
  | cons f S ih =>
      cases f with
      | guest entry purpose =>
          rw [Piled] at stands
          split at stands
          · obtain ⟨m', -, above⟩ := stands
            exact above.orderly
          · exact ih stands
      | body => exact ih stands.2
      | _ => exact ih stands

/-- Whatever has come back to where it was, still stands for it. -/
theorem Piled.back (stands : Piled a m₀ S m) (back : Back m m') : Piled a m₀ S m' := by
  induction S generalizing m with
  | nil => exact Back.trans stands back
  | cons f S ih =>
      cases f with
      | guest entry purpose =>
          rw [Piled] at stands ⊢
          split
          · next here =>
              rw [if_pos here] at stands
              obtain ⟨m₁, stands, above⟩ := stands
              exact ⟨m₁, stands, above.back back⟩
          · next apart =>
              rw [if_neg apart] at stands
              exact ih stands back
      | body session name =>
          obtain ⟨framed, stands⟩ := stands
          exact ⟨fun here => (back.stands stands.orderly).1.symm ▸ framed here, ih stands back⟩
      | _ => exact ih stands back

end Levels

namespace World
variable {a : Nat} {m₀ : Guest.Machine} {w w' : World σ} {S : List (Pending σ)}

/-- The machine of a session stands for a stack. -/
structure Levels (a : Nat) (m₀ : Guest.Machine) (w : World σ) (S : List (Pending σ)) : Prop where
  bound : a < w.vms.size
  stands : Piled a m₀ S (w.machine a)

theorem Levels.rests (levels : w.Levels a m₀ S) (rests : w.Rests a w') : w'.Levels a m₀ S := by
  obtain ⟨bound, rests⟩ := rests levels.bound
  exact ⟨bound, levels.stands.back (rests.back levels.stands.orderly)⟩

end World

/-- The machine of a session is above the gate that was opened for an operation, or at the end of the call. -/
structure RunsFor (a : Nat) (m₀ : Guest.Machine) (entry : State) (S : List (Pending σ)) (w : World σ) : Prop where
  bound : a < w.vms.size
  here : entry.session = a → ∃ m, Piled a m₀ S m ∧ Goes m (w.machine a)
  elsewhere : entry.session ≠ a → Piled a m₀ S (w.machine a)

namespace RunsFor
variable {a : Nat} {m₀ : Guest.Machine} {entry : State} {S : List (Pending σ)} {w : World σ} {signal : Guest.Signal}

theorem portion (runs : RunsFor a m₀ entry S w) :
    RunsFor a m₀ entry S (w.modifyMachine entry.session (·.run Config.portion)) := by
  refine ⟨World.modifyMachine_bound runs.bound _ _, fun here => ?_, fun apart => ?_⟩
  · obtain ⟨m, stands, goes⟩ := runs.here here
    rw [World.machine_modifyMachine, if_pos ⟨here, runs.bound⟩]
    exact ⟨m, stands, Guest.Machine.run_goes _ goes⟩
  · exact ((World.Levels.mk runs.bound (runs.elsewhere apart)).rests (World.elsewhere_rests apart _)).stands

/-- A machine that asks the host for something waits for it. -/
theorem waits (runs : RunsFor a m₀ entry S w) (stopped : (w.machine entry.session).signal = some signal)
    (asks : ¬ signal.IsOver) (purpose : Purpose) (name : String) :
    w.Levels a m₀ (.body entry.session name :: .guest entry purpose :: S) := by
  refine ⟨runs.bound, ?_⟩
  rw [Piled, Piled]
  by_cases here : entry.session = a
  · obtain ⟨m, stands, goes⟩ := runs.here here
    rw [here] at stopped
    rw [if_pos here]
    rcases goes with ⟨above, asked⟩ | ⟨-, signal', ended, last⟩
    · exact ⟨fun _ => (asked signal stopped).2, m, stands, above⟩
    · obtain rfl := Option.some.inj (stopped.symm.trans ended)
      exact absurd last asks
  · rw [if_neg here]
    exact ⟨fun same => absurd same here, runs.elsewhere here⟩

/-- When its call is over, a machine stands where it stood before. -/
theorem ended (runs : RunsFor a m₀ entry S w) (stopped : (w.machine entry.session).signal = some signal)
    (last : signal.IsOver) : w.Levels a m₀ S := by
  refine ⟨runs.bound, ?_⟩
  by_cases here : entry.session = a
  · obtain ⟨m, stands, goes⟩ := runs.here here
    rw [here] at stopped
    rcases goes with ⟨above, asked⟩ | ⟨back, -⟩
    · exact absurd last (asked signal stopped).1
    · exact stands.back back
  · exact runs.elsewhere here

end RunsFor

/-- Nothing is done on a guest machine next. -/
def Control.Idle : Control σ → Prop
  | .guest _ | .lacking _ (.guest _) => False
  | _ => True

/-- What waits has nothing to do with calls. -/
def Pending.Plain : Pending σ → Prop
  | .guest _ _ | .body _ _ => False
  | _ => True

theorem Pending.Plain.stands {f : Pending σ} (plain : f.Plain) {a : Nat} {m₀ : Guest.Machine} (S : List (Pending σ))
    (m : Guest.Machine) : Piled a m₀ (f :: S) m ↔ Piled a m₀ S m := by
  cases f with
  | guest | body => exact plain.elim
  | _ => exact .rfl

/-- From host code, operations and their outcomes to others of these. -/
theorem Move.idle_stack {p q : Posture σ} (m : Move p q) (before : p.control.Idle) (after : q.control.Idle) :
    q.stack = p.stack ∨ (∃ f : Pending σ, q.stack = f :: p.stack ∧ f.Plain) ∨
      (∃ (f : Pending σ) (T : List (Pending σ)), p.stack = f :: T ∧ q.stack = T ∧ f.Plain) ∨
      ∃ (f g : Pending σ) (T : List (Pending σ)), p.stack = f :: T ∧ q.stack = g :: T ∧ f.Plain ∧ g.Plain ∧ f ≠ g := by
  cases m with
  | performs | builds => exact .inr (.inl ⟨_, rfl, trivial⟩)
  | begins _ _ _ f _ h =>
      refine .inr (.inl ⟨f, rfl, ?_⟩)
      cases h <;> trivial
  | handsOn _ _ f T h =>
      refine .inr (.inr (.inl ⟨f, T, rfl, rfl, ?_⟩))
      cases h <;> trivial
  | resumes | built | abandonsKey | abandonsValue | settles | refusesTarget =>
      exact .inr (.inr (.inl ⟨_, _, rfl, rfl, trivial⟩))
  | gotKey | gotValue | runs | callsTarget => exact .inr (.inr (.inr ⟨_, _, _, rfl, rfl, trivial, trivial, nofun⟩))
  | enters | answers => exact after.elim
  | calls | guestWaits | guestFails | guestTells | guestReturns => exact before.elim
  | _ => exact .inl rfl

/-- Host code and outcomes do not make a guest run, unless a guest waits for the host code. -/
theorem Move.idle_after {p q : Posture σ} (m : Move p q)
    (works : (∃ k, p.control = .client k) ∨ ∃ o, p.control = .outcome o)
    (nobody : ∀ session name T, p.stack ≠ .body session name :: T) : q.control.Idle := by
  cases m with
  | answers => exact absurd rfl (nobody _ _ _)
  | idle => rcases works with ⟨k, control⟩ | ⟨o, control⟩ <;> exact control ▸ trivial
  | calls | guestWaits | guestFails | guestTells | guestReturns | proceeds | enters =>
      rcases works with ⟨k, control⟩ | ⟨o, control⟩ <;> cases control
  | _ => trivial

namespace Config
variable {a : Nat} {m₀ : Guest.Machine} {K S : List (Pending σ)} {c d : Config σ} {w : World σ} {entry : State}
  {purpose : Purpose}

/-- The machine of a session stands for what waits above `K`, or runs for it. -/
inductive Keeps (a : Nat) (m₀ : Guest.Machine) (K : List (Pending σ)) (d : Config σ) : Prop
  | idle (S : List (Pending σ)) (stack : d.stack = S ++ K) (still : d.control.Idle) (levels : d.world.Levels a m₀ S)
  | inside (entry : State) (purpose : Purpose) (S : List (Pending σ))
      (stack : d.stack = .guest entry purpose :: (S ++ K))
      (guest : d.control = .guest entry.session ∨ ∃ path, d.control = .lacking path (.guest entry.session))
      (runs : RunsFor a m₀ entry S d.world)

/-- Where nothing happens in the guests, a machine stands for what waits afterwards. -/
theorem rested_keeps (levels : c.world.Levels a m₀ S) (stack : c.stack = S ++ K) (move : Move c.posture d.posture)
    (kept : K <:+ d.stack) (before : c.control.Idle) (after : d.control.Idle) (rests : c.world.Rests a d.world) :
    Keeps a m₀ K d := by
  have now := levels.rests rests
  rcases move.idle_stack before after with same | ⟨f, pushed, plain⟩ | ⟨f, T, waits, left, plain⟩ |
    ⟨f, g, T, waits, instead, plain, plain', unlike⟩
  · exact .idle S (same.trans stack) after now
  · exact .idle (f :: S) (pushed.trans (congrArg _ stack)) after ⟨now.bound, (plain.stands S _).mpr now.stands⟩
  · have stack : f :: T = S ++ K := waits.symm.trans stack
    have kept : K <:+ T := left ▸ kept
    cases S with
    | nil =>
        obtain rfl : f :: T = K := stack
        exact absurd kept (not_cons_suffix T)
    | cons g S =>
        obtain ⟨rfl, rest⟩ := List.cons.inj stack
        exact .idle S (left.trans rest) after ⟨now.bound, (plain.stands S _).mp now.stands⟩
  · have stack : f :: T = S ++ K := waits.symm.trans stack
    have kept : K <:+ g :: T := instead ▸ kept
    cases S with
    | nil =>
        obtain rfl : f :: T = K := stack
        rcases List.suffix_cons_iff.mp kept with same | kept
        · exact absurd (List.cons.inj same).1 unlike
        · exact absurd kept (not_cons_suffix T)
    | cons f' S =>
        obtain ⟨rfl, rest⟩ := List.cons.inj stack
        refine .idle (g :: S) (instead.trans (congrArg _ rest)) after ⟨now.bound, ?_⟩
        exact (plain'.stands S _).mpr ((plain.stands S _).mp now.stands)

/-! ### Operations -/

theorem ending_keeps (levels : c.world.Levels a m₀ S) (stack : c.stack = S ++ K) {r : World σ × Outcome}
    (rests : c.world.Rests a r.1) : Keeps a m₀ K (c.ending r) :=
  .idle S stack trivial (levels.rests rests)

theorem throwing_keeps (levels : c.world.Levels a m₀ S) (stack : c.stack = S ++ K) (fault : Fault) :
    Keeps a m₀ K (c.throwing fault) :=
  .idle S stack trivial (levels.rests (World.rests_of_vms rfl))

theorem requiring_keeps (levels : c.world.Levels a m₀ S) (stack : c.stack = S ++ K) (s : State)
    {k : Config σ → Config σ} (goesOn : c.world.stateViolation? s = none → Keeps a m₀ K (k c)) :
    Keeps a m₀ K (c.requiring s k) := by
  rw [requiring]
  split
  · exact throwing_keeps levels stack _
  · next accepted => exact goesOn accepted

theorem claiming_keeps (levels : c.world.Levels a m₀ S) (stack : c.stack = S ++ K) (session : Nat)
    (items : List Item) {k : Config σ → Config σ} (goesOn : Keeps a m₀ K (k c)) :
    Keeps a m₀ K (c.claiming session items k) := by
  rw [claiming]
  split
  · exact throwing_keeps levels stack _
  · exact goesOn

theorem readingFile_keeps (levels : c.world.Levels a m₀ S) (stack : c.stack = S ++ K) (path : String)
    (still : (Control.lacking path c.control).Idle) {k : ReadOutcome → Config σ → Config σ}
    (goesOn : ∀ o, Keeps a m₀ K (k o c)) : Keeps a m₀ K (c.readingFile path k) := by
  rw [readingFile]
  split
  · exact .idle S stack still levels
  · exact goesOn _

/-- A gate has been opened for an operation. -/
structure Gated (a : Nat) (m₀ : Guest.Machine) (entry : State) (S : List (Pending σ)) (w : World σ) : Prop where
  bound : a < w.vms.size
  opened : entry.session = a → ∃ m g, Piled a m₀ S m ∧ Runs m (w.machine a) ∧ (w.machine a).frame = .gate g
  elsewhere : entry.session ≠ a → Piled a m₀ S (w.machine a)

theorem enterGate_gated (levels : w.Levels a m₀ S) (entry : State) :
    Gated a m₀ entry S (w.modifyMachine entry.session (·.enterGate)) := by
  refine ⟨World.modifyMachine_bound levels.bound _ _, fun here => ?_, fun apart => ?_⟩
  · rw [World.machine_modifyMachine, if_pos ⟨here, levels.bound⟩]
    exact ⟨_, _, levels.stands, Guest.Machine.enterGate_runs levels.stands.orderly, rfl⟩
  · exact (levels.rests (World.elsewhere_rests apart _)).stands

/-- The guest is entered through the gate. -/
theorem Gated.entering (gated : Gated a m₀ entry S w) (stack : c.stack = S ++ K) (purpose : Purpose)
    {f : Guest.Machine → Guest.Machine} (goes : ∀ m m' : Guest.Machine, Runs m m' → Goes m (f m')) :
    Keeps a m₀ K (c.entering entry purpose (w.modifyMachine entry.session f)) := by
  refine .inside entry purpose S (congrArg _ stack) (.inl rfl)
    ⟨World.modifyMachine_bound gated.bound _ _, fun here => ?_, fun apart => ?_⟩
  · obtain ⟨m, g, stands, runs, -⟩ := gated.opened here
    have same := w.machine_modifyMachine entry.session a f
    rw [if_pos ⟨here, gated.bound⟩] at same
    exact ⟨m, stands, same ▸ goes m _ runs⟩
  · exact ((World.Levels.mk gated.bound (gated.elsewhere apart)).rests (World.elsewhere_rests apart f)).stands

theorem Gated.abandoning (gated : Gated a m₀ entry S w) (control : Control σ) (t : Thrown) :
    Keeps a m₀ K (abandoning ⟨w, control, S ++ K⟩ entry t) := by
  have left : (w.modifyMachine entry.session (·.abandon)).Levels a m₀ S := by
    refine ⟨World.modifyMachine_bound gated.bound _ _, ?_⟩
    by_cases here : entry.session = a
    · obtain ⟨m, g, stands, runs, frame⟩ := gated.opened here
      rw [World.machine_modifyMachine, if_pos ⟨here, gated.bound⟩]
      exact stands.back (Guest.Machine.abandon_back runs frame)
    · exact ((World.Levels.mk gated.bound (gated.elsewhere here)).rests (World.elsewhere_rests here _)).stands
  refine .idle S rfl trivial (left.rests ?_)
  exact ((World.rests_ignores a).failUnexpected _ _ _).trans (World.rests_of_vms rfl)

theorem Gated.applying (gated : Gated a m₀ entry S w) (control : Control σ) (function : Guest.Value)
    (arguments : List Item) : Keeps a m₀ K (applying ⟨w, control, S ++ K⟩ entry function arguments) := by
  rw [Config.applying]
  dsimp only
  split
  · split
    · exact gated.abandoning control _
    · exact gated.entering rfl _ fun m m' runs => Guest.Machine.callFromHost_goes runs _ _
  · exact gated.abandoning control _

theorem calling_keeps (levels : c.world.Levels a m₀ S) (stack : c.stack = S ++ K) (entry : State) (f : Item)
    (arguments : List Item) : Keeps a m₀ K (c.calling entry f arguments) := by
  obtain ⟨w, control, T⟩ := c
  obtain rfl : T = S ++ K := stack
  have gated := enterGate_gated levels entry
  rw [calling]
  split
  · exact gated.abandoning control _
  · exact gated.applying control _ _

theorem enteringProgram_keeps (levels : c.world.Levels a m₀ S) (stack : c.stack = S ++ K) (entry : State)
    (purpose : Purpose) (p : Guest.Program) : Keeps a m₀ K (c.enteringProgram entry purpose p) := by
  have gated := enterGate_gated levels entry
  have twice := c.world.modifyMachine_twice entry.session (·.enterGate) (·.runFromHost p)
  rw [enteringProgram, ← twice]
  exact gated.entering stack purpose fun m m' runs => Guest.Machine.runFromHost_goes runs p

theorem building_rests (table : TableInProgress σ) (last : State) :
    c.world.Rests a (c.building table last).world ∧ (c.building table last).control.Idle := by
  have refused (fault : Fault) : c.world.Rests a ((c.world.throwFault fault).1.restore table.origin) :=
    World.rests_of_vms rfl
  rw [building]
  dsimp only
  split
  · next fault _ => exact ⟨refused fault, trivial⟩
  · split
    · next fault _ => exact ⟨refused fault, trivial⟩
    · split
      · refine ⟨?_, trivial⟩
        exact (World.newTable_rests _ _).trans (((World.rests_reading a).receive _ _ _).trans (World.rests_of_vms rfl))
      · exact ⟨World.rests_of_vms rfl, trivial⟩

theorem nextEntry_rests (table : TableInProgress σ) (last : State) :
    c.world.Rests a (c.nextEntry table last).world ∧ (c.nextEntry table last).control.Idle := by
  rw [nextEntry]
  split
  · exact building_rests table last
  · exact ⟨.refl a _, trivial⟩

theorem loading_keeps (levels : c.world.Levels a m₀ S) (stack : c.stack = S ++ K) (s : State) (chunk : Chunk) :
    Keeps a m₀ K (c.loading s chunk) := by
  have added : c.world.Rests a (c.world.addChunk chunk).1 := World.rests_of_vms rfl
  exact ending_keeps levels stack (added.trans (World.load_rests _ _))

theorem runningChunk_keeps (levels : c.world.Levels a m₀ S) (stack : c.stack = S ++ K) (s : State) (chunk : Nat) :
    Keeps a m₀ K (c.runningChunk s chunk) := by
  obtain ⟨w, control, T⟩ := c
  obtain rfl : T = S ++ K := stack
  refine requiring_keeps levels rfl s fun _ => ?_
  have compiles := w.compile_rests (a := a) s.session chunk
  dsimp only
  split
  · next compiled =>
      rw [compiled] at compiles
      exact ending_keeps levels rfl compiles
  · next compiled =>
      rw [compiled] at compiles
      exact (enterGate_gated (levels.rests compiles) s).applying control _ _

theorem lookingUp_keeps (levels : c.world.Levels a m₀ S) (stack : c.stack = S ++ K) (s : State)
    (keys : List String) (asReference : Bool) : Keeps a m₀ K (c.lookingUp s keys asReference) := by
  refine requiring_keeps levels stack s fun _ => ?_
  split
  · exact ending_keeps levels stack ((World.rests_ignores a).fail _ _ _)
  · exact enteringProgram_keeps levels stack _ _ _

theorem assigning_keeps (levels : c.world.Levels a m₀ S) (stack : c.stack = S ++ K) (s : State)
    (keys : List String) (item : Item) : Keeps a m₀ K (c.assigning s keys item) := by
  refine requiring_keeps levels stack s fun _ => ?_
  split
  · exact ending_keeps levels stack ((World.rests_ignores a).fail _ _ _)
  · exact claiming_keeps levels stack _ _ (enteringProgram_keeps levels stack _ _ _)

theorem loadingFile_keeps (levels : c.world.Levels a m₀ S) (stack : c.stack = S ++ K) (s : State) (path : String)
    (still : (Control.lacking path c.control).Idle) : Keeps a m₀ K (c.loadingFile s path) := by
  refine requiring_keeps levels stack s fun _ => readingFile_keeps levels stack path still fun o => ?_
  cases o with
  | ok content => exact loading_keeps levels stack s _
  | error e => exact ending_keeps levels stack ((World.rests_ignores a).fail _ _ _)

/-- An operation leaves a machine where it stands, or enters the guest. -/
theorem perform_keeps {op : Operation σ} (levels : c.world.Levels a m₀ S) (stack : c.stack = S ++ K)
    (control : c.control = .perform op) : Keeps a m₀ K (c.perform op) := by
  have waiting (f : Pending σ) (op : Operation σ) (plain : ∀ m, Piled a m₀ S m → Piled a m₀ (f :: S) m) :
      Keeps a m₀ K { c with control := .perform op, stack := f :: c.stack } :=
    .idle (f :: S) (congrArg _ stack) trivial ⟨levels.bound, plain _ levels.stands⟩
  cases op with
  | init options => exact ending_keeps levels stack (World.openSession_rests options)
  | close s => exact ending_keeps levels stack (World.rests_of_vms rfl)
  | encode s p =>
      rw [perform, encoding]
      split
      · exact .idle S stack trivial levels
      · exact requiring_keeps levels stack s fun _ => ending_keeps levels stack (World.rests_of_vms rfl)
  | encodeTable s entries =>
      have builds : c.world.Rests a (c.perform (.encodeTable s entries)).world ∧
          (c.perform (.encodeTable s entries)).control.Idle := by
        rw [perform, requiring]
        split
        · exact ⟨World.rests_of_vms rfl, trivial⟩
        · exact nextEntry_rests _ s
      have move := c.perform_move (.encodeTable s entries) control
      have kept : K <:+ (c.perform (.encodeTable s entries)).stack :=
        (stack ▸ List.suffix_append S K : K <:+ c.stack).trans move.perform_keeps
      exact rested_keeps levels stack (by rwa [posture, control]) kept (by rw [control]; trivial) builds.2 builds.1
  | expose s name body =>
      rw [perform, exposing]
      refine requiring_keeps levels stack s fun _ => ?_
      exact ending_keeps levels stack ((World.expose_rests _ _ _).trans (World.rests_of_vms rfl))
  | get s keys => exact lookingUp_keeps levels stack s keys false
  | refGet s keys => exact lookingUp_keeps levels stack s keys true
  | set s keys item => exact assigning_keeps levels stack s keys item
  | load s source name =>
      rw [perform]
      refine requiring_keeps levels stack s fun _ => ?_
      exact loading_keeps levels stack s _
  | loadFile s path => exact loadingFile_keeps levels stack s path (by rw [control]; trivial)
  | run s source name => exact waiting (.compiled s) _ fun _ => id
  | runFile s path => exact waiting (.compiled s) _ fun _ => id
  | callByName s keys arguments => exact waiting (.resolved s keys arguments) _ fun _ => id
  | runChunk s chunk => exact runningChunk_keeps levels stack s chunk
  | releaseChunk s chunk => exact ending_keeps levels stack (World.releaseChunk_rests _ _)
  | call s ref arguments =>
      rw [perform]
      refine requiring_keeps levels stack s fun _ => ?_
      refine claiming_keeps levels stack _ _ ?_
      exact calling_keeps levels stack s _ _
  | decode value decoder => exact ending_keeps levels stack (World.decode_rests _ _)
  | release item => exact ending_keeps levels stack (World.release_rests item)

/-! ### Guests -/

/-- A machine that waits for the host is one that goes on from where it was left. -/
theorem resumed_keeps {name : String} (levels : w.Levels a m₀ (.body entry.session name :: .guest entry purpose :: S))
    {f : Guest.Machine → Guest.Machine}
    (goes : ∀ m m' : Guest.Machine, Above m m' → (∃ n, m'.frame = .native n) → Goes m (f m')) :
    Keeps a m₀ K ⟨w.modifyMachine entry.session f, .guest entry.session, .guest entry purpose :: (S ++ K)⟩ := by
  obtain ⟨bound, framed, stands⟩ := levels
  rw [Piled] at stands
  refine .inside entry purpose S rfl (.inl rfl)
    ⟨World.modifyMachine_bound bound _ _, fun here => ?_, fun apart => ?_⟩
  · rw [if_pos here] at stands
    obtain ⟨m, stands, above⟩ := stands
    rw [World.machine_modifyMachine, if_pos ⟨here, bound⟩]
    exact ⟨m, stands, goes m _ above (framed here)⟩
  · rw [if_neg apart] at stands
    exact ((World.Levels.mk bound stands).rests (World.elsewhere_rests apart f)).stands

theorem raising_keeps {name : String} (levels : w.Levels a m₀ (.body entry.session name :: .guest entry purpose :: S))
    (stack : c.stack = .guest entry purpose :: (S ++ K)) (t : Thrown) :
    Keeps a m₀ K (c.raising entry.session t w) := by
  obtain ⟨_, control, T⟩ := c
  obtain rfl : T = _ := stack
  have noted := (World.rests_ignores a).asFailure w .hostFunction t
  rw [raising, World.raiseInGuest]
  split
  · next told =>
      rw [told] at noted
      exact resumed_keeps (levels.rests noted) fun _ _ above _ => Guest.Machine.breakDown_goes above _
  · next w' f told =>
      rw [told] at noted
      let known : World σ := { w' with raised := (f.identity, f.fault) :: w'.raised }
      have kept : known.Levels a m₀ (.body entry.session name :: .guest entry purpose :: S) :=
        levels.rests (noted.trans (World.rests_of_vms rfl))
      refine resumed_keeps (w := known) kept fun m m' above _ => ?_
      have rests : m'.Rests { m' with store := (m'.store.newTable (World.errorObject m'.store f)).1 } := ⟨_, _, rfl⟩
      exact Guest.Machine.raiseFromHost_goes (above.back (rests.back above.orderly)) _

/-- The guest calls a host function, or fails to. -/
theorem invoking_keeps {name : String}
    (levels : c.world.Levels a m₀ (.body entry.session name :: .guest entry purpose :: S))
    (stack : c.stack = .guest entry purpose :: (S ++ K)) (index : Nat) (values : List Guest.Value) :
    Keeps a m₀ K (c.invoking entry.session index values) := by
  have read := (World.rests_reading a).receiveAll c.world entry.session values
  rw [invoking]
  split
  · exact raising_keeps levels stack _
  · next called body _ =>
      dsimp only
      split
      · next told =>
          exact raising_keeps (levels.rests (read.trans ((World.rests_ignores a).told told))) stack _
      · next w told =>
          have kept := levels.rests (read.trans ((World.rests_ignores a).told told))
          refine .idle (.body entry.session called :: .guest entry purpose :: S) (congrArg _ stack) trivial ?_
          exact World.Levels.rests ⟨kept.bound, kept.stands⟩ (World.rests_of_vms rfl)

theorem answering_keeps {name : String}
    (levels : c.world.Levels a m₀ (.body entry.session name :: .guest entry purpose :: S))
    (stack : c.stack = .guest entry purpose :: (S ++ K)) (state : State) (items : List Item) :
    Keeps a m₀ K (c.answering entry.session name state items) := by
  obtain ⟨w, control, T⟩ := c
  obtain rfl : T = _ := stack
  rw [answering]
  split
  · next fault _ =>
      have noted : w.Rests a (w.throwFault fault).1 := World.rests_of_vms rfl
      have kept := levels.rests noted
      exact raising_keeps (c := ⟨w, control, .guest entry purpose :: (S ++ K)⟩) kept rfl (w.throwFault fault).2
  · split
    · split
      · next told => exact raising_keeps (levels.rests ((World.rests_ignores a).told told)) rfl _
      · next w' told =>
          have kept := levels.rests ((World.rests_ignores a).told told)
          dsimp only
          split
          · refine resumed_keeps kept fun m m' above framed => ?_
            obtain ⟨n, frame⟩ := framed
            exact Guest.Machine.answer_goes above frame _
          · exact resumed_keeps kept fun m m' above _ => Guest.Machine.breakDown_goes above _
    · exact raising_keeps levels rfl _

theorem logging_keeps {name : String}
    (levels : c.world.Levels a m₀ (.body entry.session name :: .guest entry purpose :: S))
    (stack : c.stack = .guest entry purpose :: (S ++ K)) (control : c.control = .guest entry.session) (line : String) :
    Keeps a m₀ K (c.logging entry.session line) := by
  obtain ⟨w, _, T⟩ := c
  obtain rfl : T = _ := stack
  obtain rfl : _ = _ := control
  rw [logging]
  split
  · next told =>
      refine resumed_keeps (levels.rests ((World.rests_ignores a).told told)) fun m m' above _ => ?_
      exact Guest.Machine.answerLog_goes above
  · next told => exact raising_keeps (levels.rests ((World.rests_ignores a).told told)) rfl _

theorem leaving_keeps {control : Control σ} (levels : w.Levels a m₀ S) (entry : State)
    (purpose : Purpose) {signal : Guest.Signal} (last : signal.IsOver) :
    Keeps a m₀ K (leaving ⟨w, control, .guest entry purpose :: (S ++ K)⟩ entry purpose (S ++ K) signal) := by
  cases signal with
  | failed status error traceback =>
      refine .idle S rfl trivial (levels.rests ?_)
      exact ((World.readFailure_rests _ _ _ _).trans ((World.rests_ignores a).failCall _ _ _)).trans
        (World.rests_of_vms rfl)
  | finished values =>
      have restored : w.Rests a (w.restore entry) := World.rests_of_vms rfl
      exact .idle S rfl trivial (levels.rests (restored.trans (World.returned_rests _ _ _)))
  | hostCall | log | readFile => exact last.elim

theorem guestStep_keeps (stack : c.stack = .guest entry purpose :: (S ++ K))
    (control : c.control = .guest entry.session) (runs : RunsFor a m₀ entry S c.world) :
    Keeps a m₀ K (c.guestStep entry.session) := by
  obtain ⟨w, _, T⟩ := c
  obtain rfl : T = _ := stack
  obtain rfl : _ = _ := control
  have ran := runs.portion
  rw [guestStep_eq]
  generalize w.modifyMachine entry.session (·.run Config.portion) = w' at ran
  let now : Config σ := ⟨w', .guest entry.session, .guest entry purpose :: (S ++ K)⟩
  cases stopped : (w'.machine entry.session).signal with
  | none => exact .inside entry purpose S rfl (.inl rfl) ran
  | some signal =>
      cases signal with
      | hostCall index values => exact invoking_keeps (c := now) (ran.waits stopped id purpose "") rfl _ _
      | log line => exact logging_keeps (c := now) (ran.waits stopped id purpose "") rfl rfl _
      | readFile path =>
          have waits := ran.waits stopped id purpose ""
          simp only [heeding, readingForGuest, readingFile]
          split
          · exact .inside entry purpose S rfl (.inr ⟨_, rfl⟩) ran
          · exact resumed_keeps waits fun m m' above _ => Guest.Machine.answerFile_goes above _
      | finished values =>
          have last : (Guest.Signal.finished values).IsOver := trivial
          exact leaving_keeps (ran.ended stopped last) entry purpose last
      | failed status error traceback =>
          have last : (Guest.Signal.failed status error traceback).IsOver := trivial
          exact leaving_keeps (ran.ended stopped last) entry purpose last

/-! ### Steps -/

/-- Host code that the guest does not wait for, and the outcomes of operations, have nothing to do with calls. -/
theorem clientStep_rests {client : Client σ} (nobody : ∀ session name T, c.stack ≠ .body session name :: T) :
    c.world.Rests a (c.clientStep client).world := by
  have restored (s : State) : c.world.Rests a (c.world.restore s) := World.rests_of_vms rfl
  cases client with
  | done state items =>
      rw [clientStep, done]
      split
      · next waits => exact absurd waits (nobody _ _ _)
      · rw [gotKey]
        split
        · exact restored _
        · exact .refl a _
      · next table key T _ =>
          let waiting : Config σ := { c with stack := T }
          exact (nextEntry_rests (c := waiting) { table with done := (key, items.headD nilItem) :: table.done } state).1
      · exact .refl a _
  | throw t =>
      rw [clientStep, thrown]
      split
      · next waits => exact absurd waits (nobody _ _ _)
      · exact restored _
      · exact restored _
      · exact .refl a _
  | access | identity => exact World.rests_of_vms rfl
  | perform => exact .refl a _

theorem outcomeStep_rests (o : Outcome) : c.world.Rests a (c.outcomeStep o).world := by
  rw [outcomeStep]
  split
  · exact .refl a _
  · rw [ranCompiled.eq_def]
    split <;> exact .refl a _
  · unfold ran
    dsimp only
    split
    · exact (World.releaseChunk_rests _ _).trans (World.rests_of_vms rfl)
    · exact World.releaseChunk_rests _ _
  · next s keys arguments T _ =>
      rw [resolved.eq_def]
      split
      · next given ref =>
          have refused : c.world.Rests a ((c.world.fail s.session
              (.undefinedPath keys (some ref.target.guestType))).1.release (.reference ref)) :=
            ((World.rests_ignores a).fail _ _ _).trans (World.release_rests _)
          dsimp only
          split
          · exact .refl a _
          · split
            · exact .refl a _
            · exact refused
      · exact .refl a _
  · exact World.release_rests _
  · exact .refl a _

theorem answering_stack (session : Nat) (name : String) (state : State) (items : List Item) :
    (c.answering session name state items).stack = c.stack := by
  rw [answering]
  split
  · rfl
  · split
    · split <;> rfl
    · rfl

/-- A host function on top of a stack has been called by the guest below it. -/
theorem called_below {session : Nat} {name : String} {T : List (Pending σ)} (stacked : Stacked (S ++ K))
    (waits : S ++ K = .body session name :: T) (free : ∀ entry purpose R, K ≠ .guest entry purpose :: R) :
    K = .body session name :: T ∨ ∃ entry purpose R, entry.session = session ∧
      S = .body entry.session name :: .guest entry purpose :: R ∧ T = .guest entry purpose :: (R ++ K) := by
  cases S with
  | nil => exact .inl waits
  | cons f S =>
      rw [waits] at stacked
      obtain ⟨rfl, rest⟩ := List.cons.inj waits
      cases stacked with
      | cons fits _ =>
          cases fits with
          | body entry _ purpose R =>
              cases S with
              | nil => exact absurd rest (free _ _ _)
              | cons g S =>
                  obtain ⟨rfl, rfl⟩ := List.cons.inj rest
                  exact .inr ⟨entry, purpose, S, rfl, rfl, rfl⟩

/-- A host function that a guest waits for goes on, or is over, and the guest goes on. -/
theorem bodyStep_keeps {k : Client σ} {session : Nat} {name : String} {T : List (Pending σ)}
    (levels : w.Levels a m₀ S) (stacked : Stacked (S ++ K)) (waits : S ++ K = .body session name :: T)
    (free : ∀ entry purpose R, K ≠ .guest entry purpose :: R) (kept : K <:+ (step ⟨w, .client k, S ++ K⟩).stack) :
    Keeps a m₀ K (step ⟨w, .client k, S ++ K⟩) := by
  have move := step_move ⟨w, .client k, S ++ K⟩
  cases k with
  | access | identity => exact rested_keeps levels rfl move kept trivial trivial (World.rests_of_vms rfl)
  | perform => exact rested_keeps levels rfl move kept trivial trivial (.refl a w)
  | done state items =>
      have step : step ⟨w, .client (.done state items), S ++ K⟩ =
          answering ⟨w, .client (.done state items), T⟩ session name state items := by
        simp only [Config.step, clientStep, done, waits]
      rw [step] at kept ⊢
      rw [answering_stack] at kept
      rcases called_below stacked waits free with rfl | ⟨entry, purpose, R, rfl, rfl, rfl⟩
      · exact absurd kept (not_cons_suffix T)
      · exact answering_keeps levels rfl state items
  | throw t =>
      have step : step ⟨w, .client (.throw t), S ++ K⟩ = raising ⟨w, .client (.throw t), T⟩ session t w := by
        simp only [Config.step, clientStep, thrown, waits]
      rw [step] at kept ⊢
      rcases called_below stacked waits free with rfl | ⟨entry, purpose, R, rfl, rfl, rfl⟩
      · exact absurd kept (not_cons_suffix T)
      · exact raising_keeps levels rfl t

/-- A step leaves the machine of a session where the stack says, if what is not looked at goes on waiting. -/
theorem Keeps.next (keeps : Keeps a m₀ K c) (proper : c.posture.Proper)
    (free : ∀ entry purpose R, K ≠ .guest entry purpose :: R) (kept : K <:+ c.step.stack) :
    Keeps a m₀ K c.step := by
  cases keeps with
  | inside entry purpose S stack guest runs =>
      rcases guest with control | ⟨path, control⟩
      · have step : c.step = c.guestStep entry.session := by simp only [Config.step, control]
        rw [step]
        exact guestStep_keeps stack control runs
      · simp only [Config.step, control]
        split
        · exact .inside entry purpose S stack (.inr ⟨path, control⟩) runs
        · exact .inside entry purpose S stack (.inl rfl) runs
  | idle S stack still levels =>
      obtain ⟨w, control, T⟩ := c
      obtain rfl : T = S ++ K := stack
      have fits : control.Fits (S ++ K) := proper.control
      have move := step_move ⟨w, control, S ++ K⟩
      cases control with
      | client k =>
          by_cases waits : ∃ session name T, S ++ K = .body session name :: T
          · obtain ⟨session, name, T, waits⟩ := waits
            exact bodyStep_keeps levels proper.stacked waits free kept
          · have nobody : ∀ session name T, S ++ K ≠ .body session name :: T :=
              fun session name T same => waits ⟨session, name, T, same⟩
            exact rested_keeps levels rfl move kept trivial (move.idle_after (.inl ⟨k, rfl⟩) nobody)
              (clientStep_rests (c := ⟨w, .client k, S ++ K⟩) nobody)
      | perform op => exact perform_keeps levels rfl rfl
      | outcome o =>
          have nobody : ∀ session name T, S ++ K ≠ .body session name :: T := by
            intro session name T same
            rw [same] at fits
            cases fits with
            | outcome _ _ awaits => exact awaits
          exact rested_keeps levels rfl move kept trivial (move.idle_after (.inr ⟨o, rfl⟩) nobody)
            (outcomeStep_rests (c := ⟨w, .outcome o, S ++ K⟩) o)
      | guest => exact still.elim
      | lacking path next =>
          simp only [step]
          split
          · exact .idle S rfl still levels
          · refine .idle S rfl ?_ levels
            generalize S ++ K = T at fits
            cases fits with
            | lacksGuest => exact still.elim
            | lacksFile => exact trivial
      | finished r => exact .idle S rfl trivial levels

/-- So does a run. -/
theorem Run.keeps (run : Run K c d) (reachable : Reachable c) (keeps : Keeps a m₀ K c)
    (free : ∀ entry purpose R, K ≠ .guest entry purpose :: R) : Keeps a m₀ K d := by
  induction run with
  | refl => exact keeps
  | tail before next ih =>
      obtain ⟨next, kept⟩ := next
      cases next with
      | step => exact ih.next (reachable.run before).proper free kept
      | surroundings directory memory =>
          cases ih with
          | idle S stack still levels => exact .idle S stack still (levels.rests (World.rests_of_vms rfl))
          | inside entry purpose S stack guest runs =>
              exact .inside entry purpose S stack guest ⟨runs.bound, runs.here, runs.elsewhere⟩

/-- At the end of what has been done above a stack, a machine stands where it stood at its beginning. -/
theorem Run.back (run : Run K c d) (reachable : Reachable c) (bound : a < c.world.vms.size)
    (orderly : (c.world.machine a).Orderly) (before : c.stack = K) (after : d.stack = K) (still : c.control.Idle)
    (free : ∀ entry purpose R, K ≠ .guest entry purpose :: R) :
    Back (c.world.machine a) (d.world.machine a) := by
  have levels : c.world.Levels a (c.world.machine a) ([] : List (Pending σ)) := ⟨bound, .refl orderly⟩
  cases run.keeps reachable (.idle [] before still levels) free with
  | idle S stack _ levels =>
      obtain rfl : S = [] := List.append_left_eq_self.mp (stack.symm.trans after)
      exact levels.stands
  | inside entry purpose S stack =>
      have longer := congrArg List.length (stack.symm.trans after)
      simp only [List.length_cons, List.length_append] at longer
      omega

end Config

/-! ### Machines of sessions -/

/-- A machine on whose main thread no call was nested when it was taken up. -/
structure Guest.Machine.Grounded (m : Guest.Machine) : Prop where
  orderly : m.Orderly
  base : ∃ s, m.strand? 0 = some s ∧ s.baseDepth = 0

namespace Guest.Machine
variable {m m₀ : Machine}

theorem Back.grounded (back : Back m₀ m) (grounded : m₀.Grounded) : m.Grounded := by
  obtain ⟨s, found, base⟩ := grounded.base
  exact ⟨back.orderly, s, (back.kept 0 grounded.orderly.main).2.trans found, base⟩

theorem Above.grounded (above : Above m₀ m) (grounded : m₀.Grounded) : m.Grounded := by
  obtain ⟨s, found, base⟩ := grounded.base
  obtain ⟨g, inner, s', s₀, found', found₀, -, -, -, same, -⟩ := above.main
  obtain rfl := Option.some.inj (found₀.symm.trans found)
  exact ⟨above.orderly, s', found', same.trans base⟩

theorem start_grounded (libraries : LibraryChoice) (path : Option String) : (start libraries path).Grounded where
  orderly := by
    refine ⟨rfl, rfl, fun i s other found => ?_⟩
    rw [strand?_other other] at found
    obtain ⟨t, there, -⟩ := Option.map_eq_some_iff.mp found
    obtain ⟨inside, -⟩ := Array.getElem?_eq_some_iff.mp there
    exact absurd (Nat.lt_one_iff.mp inside) other
  base := ⟨_, (start libraries path).strand?_current, rfl⟩

end Guest.Machine

section Sessions
variable {a : Nat} {m m₀ : Guest.Machine} {K S : List (Pending σ)}

theorem Piled.grounded (stands : Piled a m₀ S m) (grounded : m₀.Grounded) : m.Grounded := by
  induction S generalizing m with
  | nil => exact Guest.Machine.Back.grounded stands grounded
  | cons f S ih =>
      cases f with
      | guest entry purpose =>
          rw [Piled] at stands
          split at stands
          · obtain ⟨m', stands, above⟩ := stands
            exact above.grounded (ih stands)
          · exact ih stands
      | body => exact ih stands.2
      | _ => exact ih stands

/-- A stack on which there is nothing of a session is nothing to its machine. -/
theorem standsFor_elsewhere (entries : ∀ entry purpose, .guest entry purpose ∈ S → entry.session ≠ a)
    (bodies : ∀ session name, .body session name ∈ S → session ≠ a) (back : Back m₀ m) : Piled a m₀ S m := by
  induction S with
  | nil => exact back
  | cons f S ih =>
      have rest := ih (fun entry purpose mem => entries entry purpose (List.mem_cons_of_mem _ mem))
        fun session name mem => bodies session name (List.mem_cons_of_mem _ mem)
      cases f with
      | guest entry purpose =>
          rw [Piled, if_neg (entries entry purpose List.mem_cons_self)]
          exact rest
      | body session name => exact ⟨fun here => absurd here (bodies session name List.mem_cons_self), rest⟩
      | _ => exact rest

/-- Every host function on a stack has been called by a guest. -/
theorem Stacked.called {session : Nat} {name : String} (stacked : Stacked S) (mem : .body session name ∈ S) :
    ∃ entry purpose, .guest entry purpose ∈ S ∧ entry.session = session := by
  induction stacked with
  | nil => cases mem
  | @cons f T fits _ ih =>
      rcases List.mem_cons.mp mem with rfl | mem
      · cases fits with
        | body entry _ purpose R => exact ⟨entry, purpose, by simp, rfl⟩
      · obtain ⟨entry, purpose, below, same⟩ := ih mem
        exact ⟨entry, purpose, List.mem_cons_of_mem _ below, same⟩

end Sessions

namespace Config
variable {a : Nat} {m₀ : Guest.Machine} {K : List (Pending σ)} {c d : Config σ}

theorem Keeps.grounded (keeps : Keeps a m₀ K d) (grounded : m₀.Grounded) : (d.world.machine a).Grounded := by
  cases keeps with
  | idle S _ _ levels => exact levels.stands.grounded grounded
  | inside entry purpose S _ _ runs =>
      by_cases here : entry.session = a
      · obtain ⟨m, stands, goes⟩ := runs.here here
        rcases goes with ⟨above, -⟩ | ⟨back, -⟩
        · exact above.grounded (stands.grounded grounded)
        · exact back.grounded (stands.grounded grounded)
      · exact (runs.elsewhere here).grounded grounded

/-- A session is opened with a machine on which nothing is under way. -/
theorem opening_keeps {options : Options σ} (reachable : Reachable c) (control : c.control = .perform (.init options)) :
    ∃ m₀ : Guest.Machine, m₀.Grounded ∧ Keeps c.world.vms.size m₀ [] c.step := by
  have bound : c.world.vms.size < (c.world.openSession options).1.vms.size := by simp [World.openSession]
  have fresh : (c.world.openSession options).1.machine c.world.vms.size =
      .start options.libraries options.packagePath := by
    simp [World.openSession, World.machine]
  have grounded := Guest.Machine.start_grounded options.libraries options.packagePath
  have step : c.step =
      c.ending ((c.world.openSession options).1, .ok (some (c.world.openSession options).2) .nothing) := by
    simp only [Config.step, control, perform]
  have sizes : c.world.standing.lineages.size = c.world.vms.size := by
    simpa [posture, World.standing] using reachable.sound.standing.sessions
  have entries (entry : State) (purpose : Purpose) (mem : .guest entry purpose ∈ c.stack) :
      entry.session ≠ c.world.vms.size :=
    Nat.ne_of_lt (sizes ▸ (reachable.sound.revived _ mem entry rfl).1)
  refine ⟨_, grounded, step ▸ .idle c.stack (List.append_nil _).symm trivial ⟨bound, ?_⟩⟩
  refine standsFor_elsewhere entries (fun session name mem => ?_) (fresh.symm ▸ .refl grounded.orderly)
  obtain ⟨entry, purpose, below, rfl⟩ := reachable.proper.stacked.called mem
  exact entries entry purpose below

/-- The machine of every session stands for the stack. -/
theorem Reachable.keeps (reachable : Reachable c) (bound : a < c.world.vms.size) :
    ∃ m₀ : Guest.Machine, m₀.Grounded ∧ Keeps a m₀ [] c := by
  have free : ∀ entry purpose (R : List (Pending σ)), [] ≠ .guest entry purpose :: R := fun _ _ _ => nofun
  obtain ⟨client, directory, memory, run⟩ := reachable
  induction run with
  | refl => exact absurd bound (Nat.not_lt_zero a)
  | @tail c d before next ih =>
      have reachable : Reachable c := ⟨client, directory, memory, before⟩
      by_cases there : a < c.world.vms.size
      · obtain ⟨m₀, grounded, keeps⟩ := ih there
        exact ⟨m₀, grounded, Run.keeps (.single next) reachable keeps free⟩
      · obtain ⟨next, -⟩ := next
        cases next with
        | surroundings => exact absurd bound there
        | step =>
            by_cases opens : ∃ options, c.control = .perform (.init options)
            · obtain ⟨options, control⟩ := opens
              have size : c.step.world.vms.size = c.world.vms.size + 1 := by
                simp [Config.step, control, perform, ending, World.openSession]
              obtain rfl : a = c.world.vms.size := by omega
              exact opening_keeps reachable control
            · have same := (c.step_move.sessions fun options control => opens ⟨options, control⟩).2
              have size : c.step.world.vms.size = c.world.vms.size := by
                simpa [posture, World.standing] using congrArg Array.size same
              exact absurd (size ▸ bound) there

/-- Whatever has happened, the machine of a session is in order. -/
theorem Reachable.grounded (reachable : Reachable c) (bound : a < c.world.vms.size) : (c.world.machine a).Grounded := by
  obtain ⟨m₀, grounded, keeps⟩ := reachable.keeps bound
  exact keeps.grounded grounded

end Config

end LuaHost
