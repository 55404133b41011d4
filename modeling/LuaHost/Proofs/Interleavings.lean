import LuaHost.Proofs.Confinement
import LuaHost.Proofs.Evolution
/-!
Two sessions of one host. Whatever is done for the one while operations are performed for the other, every
operation comes to the same as it does when the other session is left as it was. The sessions share chunks,
the numbers that error objects are known by, and the files; of these, a session that is left alone notices no
more than that there are some which were made elsewhere.
-/

namespace LuaHost

variable {ρ : Type}

/-- An operation for a session, and what can be seen of the session when it is over: the account with its
states and holders, the guest with its slots and heap, and the session's part of the host's memory. -/
structure Turn (ρ : Type) where
  operation : Operation (Nat → ρ)
  outcome : Outcome
  ledger : Ledger
  machine : Guest.Machine
  memory : ρ

namespace Config

/-- Host code performs an operation and waits for nothing else. -/
def performing {σ : Type} (w : World σ) (op : Operation σ) : Config σ := { world := w, control := .perform op }

end Config

namespace World

/-- An operation comes to an end. -/
def Performs {σ : Type} (w : World σ) (op : Operation σ) (w' : World σ) (o : Outcome) : Prop :=
  ∃ n, Config.step^[n] (.performing w op) = { world := w', control := .outcome o }

/-- An operation for a session is performed, and the host code that is run for it keeps to the session. -/
structure Acts (a : Nat) (w : World (Nat → ρ)) (t : Turn ρ) (w' : World (Nat → ρ)) : Prop where
  concerns : t.operation.Within a
  confined : ∀ n, (Config.step^[n] (.performing w t.operation)).Confined a
  performs : w.Performs t.operation w' t.outcome
  ledger : t.ledger = w'.ledger a
  machine : t.machine = w'.machine a
  memory : t.memory = w'.memory a

/-- Chunks and error objects are made elsewhere. -/
def Adds {σ : Type} (w w' : World σ) : Prop :=
  ∃ chunks raised count, w' = { w with
    chunks := w.chunks ++ chunks, raised := raised ++ w.raised, nextIdentity := w.nextIdentity + count }

/-- Operations are performed for two sessions, now for the one and now for the other. -/
inductive Interleaved (a b : Nat) (w : World (Nat → ρ)) :
    List (Turn ρ) → List (Turn ρ) → World (Nat → ρ) → Prop
  | start : Interleaved a b w [] [] w
  | first {A B : List (Turn ρ)} {t : Turn ρ} {w' w'' : World (Nat → ρ)} (run : Interleaved a b w A B w')
      (acts : Acts a w' t w'') : Interleaved a b w (A ++ [t]) B w''
  | second {A B : List (Turn ρ)} {t : Turn ρ} {w' w'' : World (Nat → ρ)} (run : Interleaved a b w A B w')
      (acts : Acts b w' t w'') : Interleaved a b w A (B ++ [t]) w''

/-- Operations are performed for one session only. -/
inductive Alone (a : Nat) (w : World (Nat → ρ)) : List (Turn ρ) → World (Nat → ρ) → Prop
  | start : Alone a w [] w
  | acts {A : List (Turn ρ)} {t : Turn ρ} {w' w'' : World (Nat → ρ)} (run : Alone a w A w')
      (acts : Acts a w' t w'') : Alone a w (A ++ [t]) w''
  | elsewhere {A : List (Turn ρ)} {w' w'' : World (Nat → ρ)} (run : Alone a w A w') (adds : w'.Adds w'') :
      Alone a w A w''

/-! ### What a session does to the rest -/

/-- Chunks, error objects and their numbers are only ever added. -/
structure Grows {σ : Type} (w w' : World σ) : Prop where
  chunks : ∃ more, w'.chunks = w.chunks ++ more
  raised : w.raised <:+ w'.raised
  identities : w.nextIdentity ≤ w'.nextIdentity
  directory : w'.directory = w.directory

section
variable {σ : Type} {w w' w'' : World σ}

theorem Grows.of_same (chunks : w'.chunks = w.chunks) (raised : w'.raised = w.raised)
    (identities : w'.nextIdentity = w.nextIdentity) (directory : w'.directory = w.directory) : w.Grows w' :=
  ⟨⟨#[], by simp [chunks]⟩, raised ▸ List.suffix_rfl, Nat.le_of_eq identities.symm, directory⟩

theorem Grows.trans (first : w.Grows w') (second : w'.Grows w'') : w.Grows w'' := by
  obtain ⟨more, chunks⟩ := first.chunks
  obtain ⟨more', chunks'⟩ := second.chunks
  exact ⟨⟨more ++ more', by rw [chunks', chunks, Array.append_assoc]⟩, first.raised.trans second.raised,
    Nat.le_trans first.identities second.identities, second.directory.trans first.directory⟩

theorem vacate_grows (session slot : Nat) : w.Grows (w.vacate session slot) := by
  unfold vacate
  split <;> exact .of_same rfl rfl rfl rfl

theorem Changes.grows (changes : w.Changes w') : w.Grows w' := by
  induction changes with
  | trans _ _ ih ih' => exact ih.trans ih'
  | @identity w => exact ⟨⟨#[], (Array.append_empty).symm⟩, List.suffix_rfl, Nat.le_succ _, rfl⟩
  | chunk chunk => exact ⟨⟨#[chunk], rfl⟩, List.suffix_rfl, Nat.le_refl _, rfl⟩
  | raises entry => exact ⟨⟨#[], (Array.append_empty).symm⟩, List.suffix_cons entry _, Nat.le_refl _, rfl⟩
  | releases h =>
      unfold World.releaseHandle
      split
      · exact .of_same rfl rfl rfl rfl
      · exact (vacate_grows _ _).trans (.of_same rfl rfl rfl rfl)
  | releasesChunk session chunk =>
      unfold World.releaseChunk
      split
      · exact .of_same rfl rfl rfl rfl
      · exact (vacate_grows _ _).trans (.of_same rfl rfl rfl rfl)
  | _ => exact .of_same rfl rfl rfl rfl

end

end World

namespace Config
variable {c : Config (Nat → ρ)} {a : Nat} (base : World (Nat → ρ))

/-- The steps of an operation for a session, one after the other. -/
theorem steps_alike (within : c.Within a) (confined : ∀ n, (step^[n] c).Confined a) (n : Nat) :
    (step^[n] c).Within a ∧ step^[n] (c.alone a base) = (step^[n] c).alone a base := by
  induction n with
  | zero => exact ⟨within, rfl⟩
  | succ n ih =>
      have alike : (step^[n] c).Alike a base step := step_alike (confined n) ih.1
      rw [Function.iterate_succ_apply', Function.iterate_succ_apply', ih.2]
      exact ⟨alike.within, alike.same⟩

theorem step_sessions (within : c.Within a) :
    c.step.world.ledgers.size = c.world.ledgers.size ∧
      c.step.world.standing.callbacks = c.world.standing.callbacks := by
  have opens : ∀ options, c.control ≠ .perform (.init options) := by
    intro options control
    have concerned := within.control
    rw [control] at concerned
    exact concerned
  have sessions := (step_move c).sessions opens
  exact ⟨by simpa [posture, World.standing] using sessions.1, sessions.2⟩

theorem steps_sessions (within : c.Within a) (confined : ∀ n, (step^[n] c).Confined a) (n : Nat) :
    (step^[n] c).world.ledgers.size = c.world.ledgers.size ∧
      (step^[n] c).world.standing.callbacks = c.world.standing.callbacks := by
  induction n with
  | zero => exact ⟨rfl, rfl⟩
  | succ n ih =>
      have sessions := step_sessions (steps_alike c.world within confined n).1
      rw [Function.iterate_succ_apply']
      exact ⟨sessions.1.trans ih.1, sessions.2.trans ih.2⟩

theorem steps_grow {σ : Type} {c : Config σ} (n : Nat) : c.world.Grows (step^[n] c).world := by
  induction n with
  | zero => exact .of_same rfl rfl rfl rfl
  | succ n ih =>
      rw [Function.iterate_succ_apply']
      exact ih.trans (step_changes _).grows

end Config

namespace World
variable {a b : Nat} {w w' : World (Nat → ρ)} {t : Turn ρ} (base : World (Nat → ρ))

section
variable {α : Type} {xs ys : Array α}

theorem mapIdx_congr {g : Nat → α} (size : xs.size = ys.size) (same : xs[a]? = ys[a]?) :
    (xs.mapIdx fun i x => if i = a then x else g i) = ys.mapIdx fun i x => if i = a then x else g i := by
  apply Array.ext
  · simpa using size
  · intro i bound bound'
    have lt : i < xs.size := by simpa using bound
    by_cases here : i = a
    · subst here
      rw [Array.getElem?_eq_getElem lt, Array.getElem?_eq_getElem (size ▸ lt)] at same
      simpa using Option.some.inj same
    · simp [here]

theorem mapIdx_other [Inhabited α] (ys : Array α) (apart : a ≠ b) (size : xs.size = ys.size) :
    (xs.mapIdx fun i x => if i = b then x else ys.getD i default)[a]? = ys[a]? := by
  by_cases bound : a < ys.size
  · simp [size, bound, apart]
  · simp [size, bound]

end

theorem Minds.alone (minds : w.Minds a) : (w.alone a base).Minds a := by
  have same : (w.alone a base).standing.callbacks[a]? = w.standing.callbacks[a]? := by
    simp only [standing, Array.getElem?_map, vms_alone]
  rwa [Minds, same]

/-- An operation for a session comes to the same whatever other sessions have. -/
theorem Acts.alone (acts : w.Acts a t w') : (w.alone a base).Acts a t (w'.alone a base) := by
  have within : (Config.performing w t.operation).Within a := ⟨acts.concerns, List.forall_mem_nil _⟩
  have alike := Config.steps_alike base within acts.confined
  obtain ⟨n, ended⟩ := acts.performs
  refine ⟨acts.concerns, fun i => ?_, ⟨n, ?_⟩, ?_, ?_, ?_⟩
  · have same : Config.step^[i] (.performing (w.alone a base) t.operation) = _ := (alike i).2
    rw [same]
    exact ⟨(acts.confined i).minds.alone base, (acts.confined i).client⟩
  · have same : Config.step^[n] (.performing (w.alone a base) t.operation) = _ := (alike n).2
    rw [same, ended]
    rfl
  · rw [acts.ledger, ledger_alone]
  · rw [acts.machine, machine_alone]
  · exact acts.memory.trans (Function.update_self a (w'.memory a) base.memory).symm

/-- No callbacks change. -/
theorem Acts.sessions (acts : w.Acts b t w') :
    w'.ledgers.size = w.ledgers.size ∧ w'.standing.callbacks = w.standing.callbacks := by
  have within : (Config.performing w t.operation).Within b := ⟨acts.concerns, List.forall_mem_nil _⟩
  obtain ⟨n, ended⟩ := acts.performs
  have sessions := Config.steps_sessions within acts.confined n
  rwa [ended] at sessions

theorem Grows.adds (grows : w.Grows w') (ledgers : w'.ledgers.size = w.ledgers.size)
    (vms : w'.vms.size = w.vms.size) (ledger : w'.ledgers[a]? = w.ledgers[a]?) (vm : w'.vms[a]? = w.vms[a]?)
    (memory : w'.memory a = w.memory a) : (w.alone a base).Adds (w'.alone a base) := by
  obtain ⟨more, chunks⟩ := grows.chunks
  obtain ⟨entries, raised⟩ := grows.raised
  obtain ⟨count, identities⟩ := Nat.exists_eq_add_of_le grows.identities
  refine ⟨more, entries, count, ?_⟩
  simp only [World.alone, mapIdx_congr ledgers ledger, mapIdx_congr vms vm, memory, chunks, raised, identities,
    grows.directory]

/-- An operation for one session leaves another one as it is. -/
theorem Acts.adds (acts : w.Acts b t w') (apart : a ≠ b) : (w.alone a base).Adds (w'.alone a base) := by
  have within : (Config.performing w t.operation).Within b := ⟨acts.concerns, List.forall_mem_nil _⟩
  obtain ⟨n, ended⟩ := acts.performs
  have kept := (Config.steps_alike w within acts.confined n).2
  have grows := Config.steps_grow (c := .performing w t.operation) n
  have start : (Config.performing w t.operation).alone b w = .performing w t.operation :=
    congrArg (Config.performing · t.operation) (w.alone_self b)
  rw [start, ended] at kept
  rw [ended] at grows
  have world : w' = w'.alone b w := congrArg Config.world kept
  have ledgers := acts.sessions.1
  have vms : w'.vms.size = w.vms.size := by
    simpa [standing] using congrArg Array.size acts.sessions.2
  refine grows.adds base ledgers vms ?_ ?_ ?_
  · exact (congrArg (·.ledgers[a]?) world).trans (mapIdx_other w.ledgers apart ledgers)
  · exact (congrArg (·.vms[a]?) world).trans (mapIdx_other w.vms apart vms)
  · exact (congrArg (·.memory a) world).trans (Function.update_of_ne apart _ _)

/-- What else a session has is what it had before. -/
theorem alone_alone (a : Nat) : (w.alone a base).alone a w = w := by
  have ledgers : ((w.alone a base).ledgers.mapIdx fun i l => if i = a then l else w.ledgers.getD i default) =
      w.ledgers.mapIdx fun i l => if i = a then l else w.ledgers.getD i default :=
    mapIdx_congr (by simp [World.alone]) (ledgers_alone w base)
  have vms : ((w.alone a base).vms.mapIdx fun i v => if i = a then v else w.vms.getD i default) =
      w.vms.mapIdx fun i v => if i = a then v else w.vms.getD i default :=
    mapIdx_congr (by simp [World.alone]) (vms_alone w base)
  have part : (w.alone a base).memory a = w.memory a := by simp [World.alone]
  have memory := congrArg (Function.update w.memory a) part
  have same := w.alone_self a
  simp only [World.alone] at same ledgers vms memory ⊢
  rw [ledgers, vms, memory, same]

/-- What a session does next is what it does alone. -/
theorem acts_alone_iff (a : Nat) (w base : World (Nat → ρ)) (t : Turn ρ) :
    (∃ w', (w.alone a base).Acts a t w') ↔ ∃ w', w.Acts a t w' := by
  constructor
  · rintro ⟨w', acts⟩
    have back := acts.alone w
    rw [alone_alone] at back
    exact ⟨_, back⟩
  · rintro ⟨w', acts⟩
    exact ⟨_, acts.alone base⟩

/-- In a run of two sessions that started from a world, a session did what it does alone, and goes on to do so:
each of its operations ended as it does alone, with the same to be seen of the session, and the next operation
will. -/
structure Undisturbed (a : Nat) (w : World (Nat → ρ)) (A : List (Turn ρ)) (w' : World (Nat → ρ)) : Prop where
  run : Alone a w A (w'.alone a w)
  next : ∀ t, (∃ u, (w'.alone a w).Acts a t u) ↔ ∃ u, w'.Acts a t u

/-- The first session of an interleaved run, as it fares alone. -/
theorem Interleaved.first_alone {A B : List (Turn ρ)} (run : Interleaved a b w A B w') (apart : a ≠ b) :
    Alone a w A (w'.alone a w) := by
  induction run with
  | start =>
      rw [alone_self]
      exact .start
  | first run acts ih => exact .acts ih (acts.alone w)
  | second run acts ih => exact .elsewhere ih (acts.adds w apart)

theorem Interleaved.swap {A B : List (Turn ρ)} (run : Interleaved a b w A B w') :
    Interleaved b a w B A w' := by
  induction run with
  | start => exact .start
  | first run acts ih => exact .second ih acts
  | second run acts ih => exact .first ih acts

/-- Two sessions do not disturb each other. -/
theorem interleaved_undisturbed {A B : List (Turn ρ)} (apart : a ≠ b) (run : Interleaved a b w A B w') :
    Undisturbed a w A w' ∧ Undisturbed b w B w' :=
  ⟨⟨run.first_alone apart, acts_alone_iff a w' w⟩,
    ⟨run.swap.first_alone apart.symm, acts_alone_iff b w' w⟩⟩

/-! ### A run -/

def turn (w : World (Nat → ρ)) (a : Nat) (op : Operation (Nat → ρ)) (o : Outcome) : Turn ρ :=
  ⟨op, o, w.ledger a, w.machine a, w.memory a⟩

/-- An operation that ends with its first step runs no host code but the callbacks. -/
theorem Acts.atOnce {op : Operation (Nat → ρ)} {o : Outcome} (concerns : op.Within a) (minds : w.Minds a)
    (ends : (Config.performing w op).step = { world := w', control := .outcome o }) :
    w.Acts a (w'.turn a op o) w' := by
  have within : (Config.performing w op).Within a := ⟨concerns, List.forall_mem_nil _⟩
  have minds' : w'.Minds a := by
    have same := (Config.step_sessions within).2
    rw [ends] at same
    exact minds.congr same
  have finished : ∀ n, ∃ control, Config.step^[n + 1] (.performing w op) = { world := w', control } ∧
      ∀ k, control ≠ .client k := by
    intro n
    rw [Function.iterate_succ_apply, ends]
    cases n with
    | zero => exact ⟨_, rfl, nofun⟩
    | succ n =>
        refine ⟨.finished (.error (.value .undefined)), ?_, nofun⟩
        rw [Function.iterate_succ_apply]
        exact Function.iterate_fixed rfl n
  refine ⟨concerns, fun n => ?_, ⟨1, ends⟩, rfl, rfl, rfl⟩
  cases n with
  | zero => exact ⟨minds, nofun⟩
  | succ n =>
      obtain ⟨control, same, other⟩ := finished n
      have confined : ({ world := w', control } : Config (Nat → ρ)).Confined a :=
        ⟨minds', fun k given => absurd given (other k)⟩
      rwa [← same] at confined

/-- The lines that the guest of a session prints are kept in the session's part of the memory. -/
def logsTo (a : Nat) : Callbacks (Nat → List String) where
  onLog line _ memory := (Function.update memory a (line :: memory a), none)

theorem logsTo_keepTo (a : Nat) : (logsTo a).KeepTo a where
  onLog line ledgers ledgers' memory memory' _ same := by
    refine ⟨?_, rfl, fun i other => Function.update_of_ne other _ _⟩
    simp only [logsTo, Function.update_self, same]
  onHostCall := nofun
  onHostReturn := nofun
  onError := nofun

/-- Two sessions. -/
def both : World (Nat → List String) :=
  let w : World (Nat → List String) := { directory := default, memory := fun _ => [] }
  ((w.openSession { callbacks := logsTo 0 }).1.openSession { callbacks := logsTo 1 }).1

theorem both_minds : both.Minds 0 ∧ both.Minds 1 := by
  have callbacks : both.standing.callbacks = #[logsTo 0, logsTo 1] := by
    simp [both, standing, openSession]
  constructor
  · intro given found
    rw [callbacks] at found
    obtain rfl : logsTo 0 = given := Option.some.inj found
    exact logsTo_keepTo 0
  · intro given found
    rw [callbacks] at found
    obtain rfl : logsTo 1 = given := Option.some.inj found
    exact logsTo_keepTo 1

theorem both_accepted : both.stateViolation? ⟨0, 0⟩ = none := rfl

/-- The first session has loaded source text. -/
def loaded : World (Nat → List String) × Outcome := (both.addChunk (.ofText "return 1" none)).1.load 0 0

/-- The second session has given the compiled form of the chunk back, which it does not have. -/
def freed : World (Nat → List String) := loaded.1.releaseChunk 1 0

def shut : World (Nat → List String) := freed.close 1

def loads : Turn (List String) := loaded.1.turn 0 (.load ⟨0, 0⟩ "return 1" none) loaded.2

def frees : Turn (List String) := freed.turn 1 (.releaseChunk ⟨1, 0⟩ 0) (.ok none .nothing)

def shuts : Turn (List String) := shut.turn 1 (.close ⟨1, 0⟩) (.ok none .nothing)

/-- The first session gives the compiled form back when the second one is closed. -/
def releases : Turn (List String) :=
  (shut.releaseChunk 0 0).turn 0 (.releaseChunk ⟨0, 0⟩ 0) (.ok none .nothing)

theorem both_load : both.Acts 0 loads loaded.1 := by
  refine .atOnce rfl both_minds.1 ?_
  simp only [Config.performing, Config.step, Config.perform, Config.requiring, both_accepted]
  rfl

theorem releaseChunk_acts (minds : w.Minds a) (generation chunk : Nat) :
    w.Acts a ((w.releaseChunk a chunk).turn a (.releaseChunk ⟨a, generation⟩ chunk) (.ok none .nothing))
      (w.releaseChunk a chunk) :=
  .atOnce rfl minds rfl

theorem close_acts (minds : w.Minds a) (generation : Nat) :
    w.Acts a ((w.close a).turn a (.close ⟨a, generation⟩) (.ok none .nothing)) (w.close a) :=
  .atOnce rfl minds rfl

theorem both_run :
    Interleaved 0 1 both [loads, releases] [frees, shuts] (shut.releaseChunk 0 0) := by
  have minds : loaded.1.Minds 1 := both_minds.2.congr both_load.sessions.2
  have free : loaded.1.Acts 1 frees freed := releaseChunk_acts minds 0 0
  have close : freed.Acts 1 shuts shut := close_acts (minds.congr free.sessions.2) 0
  have minds' : shut.Minds 0 :=
    both_minds.1.congr (close.sessions.2.trans (free.sessions.2.trans both_load.sessions.2))
  have release : shut.Acts 0 releases (shut.releaseChunk 0 0) := releaseChunk_acts minds' 0 0
  exact .first (.second (.second (.first .start both_load) free) close) release

/-- A chunk is loaded in one session and released in both, and the other session is closed in between. -/
theorem both_undisturbed :
    Undisturbed 0 both [loads, releases] (shut.releaseChunk 0 0) ∧
      Undisturbed 1 both [frees, shuts] (shut.releaseChunk 0 0) :=
  interleaved_undisturbed (by decide) both_run

end World

end LuaHost
