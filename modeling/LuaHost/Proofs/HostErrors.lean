import LuaHost.Proofs.ErrorObjects
import LuaHost.Proofs.Evolution
import LuaHost.Proofs.Runs
/-!
Failures on their way out. What host code throws that the guest called is raised in the guest as an object
that stands for a failure. When the guest fails with this object, the operation that had called the guest
ends with the failure; when the host code that waits for this operation throws it again, the same failure
is raised one level further out.
-/

namespace LuaHost

variable {σ : Type}

namespace World
variable {w w' : World σ} {session : Nat} {x : Thrown} {f : Failure}

theorem asFailure_world (classified : w.asFailure .hostFunction x = (w', some f)) :
    w'.vms = w.vms ∧ w'.raised = w.raised := by
  cases x with
  | failure identity fault =>
      obtain ⟨rfl, -⟩ := Prod.mk.inj classified
      exact ⟨rfl, rfl⟩
  | exception | value =>
      simp only [asFailure] at classified
      split at classified
      · cases (Prod.mk.inj classified).2
      · obtain ⟨rfl, -⟩ := Prod.mk.inj classified
        exact ⟨rfl, rfl⟩

theorem raiseInGuest_raised (classified : w.asFailure .hostFunction x = (w', some f)) :
    (w.raiseInGuest session x).raised = (f.identity, f.fault) :: w.raised := by
  simp only [raiseInGuest, classified]
  rw [← (asFailure_world classified).2]
  rfl

/-- The heap in which an error object for a failure has been made. -/
def raisedStore (w : World σ) (session : Nat) (f : Failure) : Guest.Store :=
  ((w.machine session).store.newTable (errorObject (w.machine session).store f)).1

theorem raiseInGuest_machine (classified : w.asFailure .hostFunction x = (w', some f))
    (bound : session < w.vms.size) :
    (w.raiseInGuest session x).machine session =
      { w.machine session with store := w.raisedStore session f }.raiseFromHost
        (.table (w.machine session).store.tables.size) := by
  have vms := (asFailure_world classified).1
  have same : w'.machine session = w.machine session := by rw [machine, machine, vms]
  simp only [raiseInGuest, classified]
  rw [machine_modifyMachine, if_pos ⟨rfl, vms ▸ bound⟩]
  exact congrArg (fun m : Guest.Machine =>
    { m with store := (m.store.newTable (errorObject m.store f)).1 }.raiseFromHost
      (.table m.store.tables.size)) same

/-- Only a session that has been opened has functions that an error can leave. -/
theorem active_lt {inner outer : List Guest.Frame} {fr : Guest.Frame}
    (frames : (w.machine session).frame :: (w.machine session).callers = inner ++ fr :: outer)
    (left : ∀ fr ∈ inner, fr.IsLeft) (called : fr ≠ .bottom) : session < w.vms.size := by
  by_contra missing
  have none : w.machine session = default := by simp [machine, Nat.le_of_not_lt missing]
  rw [none] at frames
  cases inner with
  | nil => exact called (List.cons.inj frames).1.symm
  | cons below inner =>
      have bottom := left below List.mem_cons_self
      rw [← (List.cons.inj frames).1] at bottom
      exact bottom.elim

/-- An identity is that of one error object. -/
def Distinct (w : World σ) : Prop :=
  ∀ identity fault fault', (identity, fault) ∈ w.raised → (identity, fault') ∈ w.raised → fault = fault'

theorem failureOf?_bears {id : Nat} (bears : (w.machine session).store.Bears id f)
    (distinct : w.Distinct) (known : (f.identity, f.fault) ∈ w.raised) :
    w.failureOf? session (.table id) = some f := by
  have found : w.raised.find? (·.1 == f.identity) = some (f.identity, f.fault) := by
    cases searched : w.raised.find? (·.1 == f.identity) with
    | none =>
        have missing := List.find?_eq_none.mp searched _ known
        simp at missing
    | some entry =>
        obtain ⟨identity, fault⟩ := entry
        have same := List.find?_some searched
        obtain rfl : identity = f.identity := by simpa using same
        rw [distinct _ _ _ (List.mem_of_find?_eq_some searched) known]
  simp only [failureOf?, bears.metatable, beq_self_eq_true, if_true, bears.error, found]
  rfl

theorem readFailure_bears {id : Nat} (bears : (w.machine session).store.Bears id f)
    (distinct : w.Distinct) (known : (f.identity, f.fault) ∈ w.raised)
    (traceback : Option Guest.Bytes) :
    w.readFailure session .raised (.table id) traceback = (w, f) := by
  simp only [readFailure, failureOf?_bears bears distinct known]

theorem quiet_of_silent (silent : w.callback session (·.onError) = none) : w.standing.Quiet session := by
  intro callbacks found hook has
  rw [callback_onError, found, Option.bind_some, has] at silent
  exact nomatch silent

theorem failCall_heard (quiet : w.standing.Quiet session) : (w.failCall session f).2 = .err f := by
  have heard := report_quiet w quiet f
  unfold failCall
  split
  · rfl
  · next told =>
      rw [told] at heard
      exact nomatch heard

end World

/-- What lets a failure pass to what waits below it. -/
def Pending.IsPassing : Pending σ → Prop
  | .compiled _ => True
  | .ran .. => True
  | .resolved .. => True
  | .called _ => True
  | _ => False

namespace Config

theorem passing_step {w : World σ} {f : Failure} {p : Pending σ} {T : List (Pending σ)}
    (passing : p.IsPassing) : ∃ w', step ⟨w, .outcome (.err f), p :: T⟩ = ⟨w', .outcome (.err f), T⟩ := by
  cases p with
  | compiled | ran | resolved | called => exact ⟨_, rfl⟩
  | perform | body | guest | key | value => exact passing.elim

/-- A failure passes everything between the guest and the host code that waits. -/
theorem passing_steps {f : Failure} {frames T : List (Pending σ)} (w : World σ)
    (passing : ∀ p ∈ frames, p.IsPassing) :
    ∃ w', step^[frames.length] ⟨w, .outcome (.err f), frames ++ T⟩ = ⟨w', .outcome (.err f), T⟩ := by
  induction frames generalizing w with
  | nil => exact ⟨w, rfl⟩
  | cons p frames ih =>
      obtain ⟨w₁, handed⟩ := passing_step (w := w) (f := f) (T := frames ++ T) (passing p List.mem_cons_self)
      obtain ⟨w₂, others⟩ := ih w₁ fun p mem => passing p (List.mem_cons_of_mem _ mem)
      refine ⟨w₂, ?_⟩
      rw [List.length_cons, Function.iterate_succ_apply, List.cons_append, handed, others]

/-- Host code throws that a guest called: a host function, or a hook that is told about a line. -/
inductive Throws (x : Thrown) (session : Nat) (stack : List (Pending σ)) : World σ → Config σ → Prop
  | body (w : World σ) (name : String) :
      Throws x session stack w ⟨w, .client (.throw x), .body session name :: stack⟩
  | log {w w' : World σ} {line : String}
      (logs : ((w.modifyMachine session (·.run portion)).machine session).signal = some (.log line))
      (told : (w.modifyMachine session (·.run portion)).notify
        ((w.modifyMachine session (·.run portion)).callback session fun callbacks =>
          some callbacks.onLog) line = (w', some x)) :
      Throws x session stack w' ⟨w, .guest session, stack⟩

theorem Throws.step {x : Thrown} {session : Nat} {stack : List (Pending σ)} {w : World σ} {c : Config σ}
    (throws : Throws x session stack w c) :
    c.step = ⟨w.raiseInGuest session x, .guest session, stack⟩ := by
  cases throws with
  | body name => rfl
  | log logs told =>
      simp only [Config.step, guestStep, logs, logging, told]
      rfl

/-- An operation whose guest calls host code that throws: where the code throws, what waits between the
guest and the host code that performs the operation, and where the guest fails. -/
structure Level (σ : Type) where
  throwing : Config σ
  before : World σ
  entry : State
  purpose : Purpose
  frames : List (Pending σ)
  passing : ∀ p ∈ frames, p.IsPassing
  k : Outcome → Client σ
  below : List (Pending σ)
  failing : Config σ

namespace Level
variable (l : Level σ)

def session : Nat := l.entry.session

def waiting : List (Pending σ) := .perform l.k :: l.below

def stack : List (Pending σ) := .guest l.entry l.purpose :: (l.frames ++ l.waiting)

/-- The error object that is raised. -/
def object : Nat := (l.before.machine l.session).store.tables.size

/-- The guest runs until it fails. -/
def ran : World σ := l.failing.world.modifyMachine l.session (·.run portion)

def failed : Guest.Machine := l.ran.machine l.session

/-- Where the operation has ended. -/
def ending : Config σ := step^[l.frames.length + 1] l.failing

/-- Whatever the guest does with the error object of a failure, it fails with the object in the end, and
leaves it as it was. -/
structure Fails (f : Failure) : Prop where
  run : Run l.stack l.throwing.step l.failing
  control : l.failing.control = .guest l.session
  stack : l.failing.stack = l.stack
  signal : ∃ traceback, l.failed.signal = some (.failed .raised (.table l.object) traceback)
  unaltered : (l.before.raisedStore l.session f).Unaltered l.failed.store l.object

/-- The operation ends with a failure. -/
def Reports (f : Failure) : Prop := ∃ w, l.ending = ⟨w, .outcome (.err f), l.waiting⟩

end Level

theorem Run.raised {T : List (Pending σ)} {c d : Config σ} (run : Run T c d) :
    c.world.raised <:+ d.world.raised := by
  induction run with
  | refl => exact List.suffix_rfl
  | tail _ next ih =>
      refine ih.trans ?_
      cases next.1 with
      | step => exact (step_changes _).raised
      | surroundings directory memory => exact List.suffix_rfl

theorem failed_step {c : Config σ} {entry : State} {purpose : Purpose} {T : List (Pending σ)}
    {status : Guest.Status} {error : Guest.Value} {traceback : Option Guest.Bytes} {w : World σ}
    {f : Failure} (control : c.control = .guest entry.session)
    (waits : c.stack = .guest entry purpose :: T)
    (signal : ((c.world.modifyMachine entry.session (·.run portion)).machine entry.session).signal =
      some (.failed status error traceback))
    (read : (c.world.modifyMachine entry.session (·.run portion)).readFailure entry.session status error
      traceback = (w, f)) (quiet : w.standing.Quiet entry.session) :
    c.step = ⟨(w.failCall entry.session f).1.restore entry, .outcome (.err f), T⟩ := by
  have reported := World.failCall_heard (f := f) quiet
  simp only [Config.step, control, guestStep, signal, guestEnded, waits, leaving, read, ending, reported]

theorem Level.Fails.bears {l : Level σ} {f : Failure} (fails : l.Fails f) :
    l.failed.store.Bears l.object f :=
  (Guest.Store.errorObject_bears _ f).unaltered fails.unaltered

/-- The failure that was raised has not been forgotten. -/
theorem Level.Fails.known {l : Level σ} {f : Failure} {x : Thrown} {w : World σ} (fails : l.Fails f)
    (throws : Throws x l.session l.stack l.before l.throwing)
    (classified : l.before.asFailure .hostFunction x = (w, some f)) :
    (f.identity, f.fault) ∈ l.failing.world.raised := by
  refine (fails.run.raised).subset ?_
  rw [throws.step, World.raiseInGuest_raised classified]
  exact List.mem_cons_self

theorem Level.Fails.step {l : Level σ} {f : Failure} {x : Thrown} {w : World σ} (fails : l.Fails f)
    (throws : Throws x l.session l.stack l.before l.throwing)
    (classified : l.before.asFailure .hostFunction x = (w, some f))
    (quiet : l.failing.world.standing.Quiet l.session) (distinct : l.failing.world.Distinct) :
    l.failing.step = ⟨(l.ran.failCall l.session f).1.restore l.entry, .outcome (.err f),
      l.frames ++ l.waiting⟩ := by
  obtain ⟨traceback, signal⟩ := fails.signal
  have quiet : l.ran.standing.Quiet l.session := by
    rwa [Level.ran, World.modifyMachine_standing]
  have read := World.readFailure_bears (w := l.ran) fails.bears distinct
    (fails.known throws classified) traceback
  exact failed_step fails.control fails.stack signal read quiet

theorem Level.Fails.reports {l : Level σ} {f : Failure} {x : Thrown} {w : World σ} (fails : l.Fails f)
    (throws : Throws x l.session l.stack l.before l.throwing)
    (classified : l.before.asFailure .hostFunction x = (w, some f))
    (quiet : l.failing.world.standing.Quiet l.session) (distinct : l.failing.world.Distinct) :
    l.Reports f := by
  have step := fails.step throws classified quiet distinct
  obtain ⟨w', ended⟩ := passing_steps (f := f) (T := l.waiting)
    ((l.ran.failCall l.session f).1.restore l.entry) l.passing
  refine ⟨w', ?_⟩
  rw [Level.ending, Function.iterate_succ_apply, step, ended]

theorem Level.Reports.unique {l : Level σ} {f f' : Failure} (reports : l.Reports f)
    (reports' : l.Reports f') : f = f' := by
  obtain ⟨w, ended⟩ := reports
  obtain ⟨w', ended'⟩ := reports'
  rw [ended] at ended'
  cases ended'
  rfl

theorem Throws.fails {l : Level σ} {f : Failure} {x : Thrown} {w : World σ} {g : Guest.Gate}
    {inner outer : List Guest.Frame} (throws : Throws x l.session l.stack l.before l.throwing)
    (classified : l.before.asFailure .hostFunction x = (w, some f))
    (frames : (l.before.machine l.session).frame :: (l.before.machine l.session).callers =
      inner ++ .gate g :: outer) (left : ∀ fr ∈ inner, fr.IsLeft)
    (shallow : (l.before.machine l.session).depth + 1 < Guest.callLimit)
    (atOnce : l.failing = l.throwing.step) : l.Fails f := by
  have bound := World.active_lt frames left (by simp)
  have raised := World.raiseInGuest_machine classified bound
  obtain ⟨traceback, signal, tables, hostError⟩ := Guest.Machine.raise_uncaught
    (m := { l.before.machine l.session with
      store := l.before.raisedStore l.session f, signal := none }) frames left shallow (.table l.object)
  have failing : l.failing = ⟨l.before.raiseInGuest l.session x, .guest l.session, l.stack⟩ := by
    rw [atOnce, throws.step]
  have failed : l.failed = { l.before.machine l.session with
      store := l.before.raisedStore l.session f }.raiseFromHost (.table l.object) := by
    rw [Level.failed, Level.ran, failing, World.machine_modifyMachine, raised]
    split
    · exact Guest.Machine.run_stopped signal _
    · rfl
  refine ⟨?_, ?_, ?_, ?_, ?_⟩
  · rw [atOnce]
    exact .refl
  · rw [failing]
  · rw [failing]
  · exact ⟨traceback, by rw [failed]; exact signal⟩
  · rw [failed]
    exact ⟨congrArg (·.getD l.object {}) tables, hostError⟩

/-- What a guest can see of a failure: a protected call is given the error object, and the text of the
object is the failure's message. -/
structure Level.Shows (l : Level σ) (f : Failure) : Prop where
  caught : ∀ inner n level k outer, (∀ fr ∈ inner, fr.IsLeft) →
    (l.before.machine l.session).frame :: (l.before.machine l.session).callers =
      inner ++ .native n :: outer →
    n.activity = .protecting none level k →
    (l.throwing.step.world.machine l.session).frame =
      .native { n with activity := .running (k false [.table l.object]) }
  text : ∀ s, (l.before.raisedStore l.session f).Unaltered s l.object → s.Tells →
    Guest.Evaluates s (Guest.Library.run .tostring [.table l.object]) [Guest.ofText f.message]

theorem Throws.shows {l : Level σ} {f : Failure} {x : Thrown} {w : World σ}
    (throws : Throws x l.session l.stack l.before l.throwing)
    (classified : l.before.asFailure .hostFunction x = (w, some f)) : l.Shows f := by
  refine ⟨?_, ?_⟩
  · intro inner n level k outer left frames protecting
    have bound := World.active_lt frames left (by simp)
    have caught := Guest.Machine.raise_caught (m := { l.before.machine l.session with
      store := l.before.raisedStore l.session f, signal := none }) frames left protecting
      (.table l.object)
    rw [throws.step, World.raiseInGuest_machine classified bound]
    exact congrArg (·.frame) caught
  · intro s unaltered tells
    exact ((Guest.Store.errorObject_bears _ f).unaltered unaltered).tostring tells

/-- Operations that are nested in each other, from the innermost one out. The guest of each fails with the
error object for what host code throws that it called; and the host code that waits for an operation
throws the error again that the operation ends with, but for the outermost. -/
inductive Chain : Thrown → List (Level σ) → Prop
  | outermost {x : Thrown} {l : Level σ} (throws : Throws x l.session l.stack l.before l.throwing)
      (fails : ∀ f, (l.before.asFailure .hostFunction x).2 = some f → l.Fails f) : Chain x [l]
  | enclosed {x x' : Thrown} {l l' : Level σ} {ls : List (Level σ)}
      (throws : Throws x l.session l.stack l.before l.throwing)
      (fails : ∀ f, (l.before.asFailure .hostFunction x).2 = some f → l.Fails f)
      (goesOn : Run l.below l.ending.step l'.throwing)
      (rethrows : ∀ f, l.Reports f → x' = f.thrown) (outer : Chain x' (l' :: ls)) :
      Chain x (l :: l' :: ls)

/-- The host is told about failures without throwing, and no two error objects have one identity. -/
structure Level.Heard (l : Level σ) : Prop where
  quiet : l.failing.world.standing.Quiet l.session
  distinct : l.failing.world.Distinct

variable {x : Thrown} {f : Failure} {l : Level σ} {ls : List (Level σ)}

theorem Chain.innermost (chain : Chain x (l :: ls)) :
    Throws x l.session l.stack l.before l.throwing ∧
      ∀ f, (l.before.asFailure .hostFunction x).2 = some f → l.Fails f := by
  cases chain with
  | outermost throws fails => exact ⟨throws, fails⟩
  | enclosed throws fails => exact ⟨throws, fails⟩

theorem Chain.reports {w : World σ} (chain : Chain x (l :: ls))
    (classified : l.before.asFailure .hostFunction x = (w, some f)) (heard : l.Heard) :
    l.Reports f ∧ l.Shows f := by
  obtain ⟨throws, fails⟩ := chain.innermost
  have fails := fails f (by rw [classified])
  exact ⟨fails.reports throws classified heard.quiet heard.distinct, throws.shows classified⟩

/-- A failure that is thrown is the one that all operations of a chain end with. -/
theorem Chain.failure (chain : Chain x ls) (same : x = f.thrown) (heard : ∀ l ∈ ls, l.Heard) :
    ∀ l ∈ ls, l.Reports f ∧ l.Shows f := by
  -- A failure that is thrown again is classified as itself, so no level makes a new one.
  induction chain with
  | @outermost x l throws fails =>
      have classified : l.before.asFailure .hostFunction x = (l.before, some f) := same ▸ rfl
      intro l' mem
      obtain rfl := List.mem_singleton.mp mem
      exact (Chain.outermost throws fails).reports classified (heard _ mem)
  | @enclosed x x' l l' ls throws fails goesOn rethrows outer ih =>
      have classified : l.before.asFailure .hostFunction x = (l.before, some f) := same ▸ rfl
      have here := (Chain.enclosed throws fails goesOn rethrows outer).reports classified
        (heard l List.mem_cons_self)
      have others := ih (rethrows f here.1) fun l mem => heard l (List.mem_cons_of_mem _ mem)
      intro l'' mem
      rcases List.mem_cons.mp mem with rfl | mem
      · exact here
      · exact others l'' mem

/-- A host function throws, and another one that calls it throws the error again. -/
def nested : Config Unit :=
  opened fun s =>
    let inner (_ : State) (_ : List Datum) : Client Unit := .throw (.exception (.ofMessage .error "nope"))
    let outer (t : State) (_ : List Datum) : Client Unit :=
      Client.ofOperation (.call t ⟨.composite .function ⟨0, 0⟩⟩ [])
    [.expose s none inner, .expose ⟨0, 1⟩ none outer,
      .call ⟨0, 2⟩ ⟨.composite .function ⟨0, 1⟩⟩ []]

end Config

end LuaHost
