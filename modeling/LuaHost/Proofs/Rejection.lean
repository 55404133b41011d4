import LuaHost.Proofs.Runs
/-!
What becomes of an operation whose state is no longer accepted: it throws, and that is all it does. The
one thing that is complained about before the state is a number that cannot be encoded.
-/

namespace LuaHost

variable {σ : Type}

namespace World
variable (w : World σ)

/-- Why a state that is not accepted is turned away. -/
def staleness (s : State) : Fault :=
  if (w.ledger s.session).closed then .lineage .closed []
  else .lineage .staleState [("generation", .number (Float.ofNat s.generation)),
    ("current", .number (Float.ofNat (w.ledger s.session).head))]

theorem stateViolation?_of_not_accepts {s : State} (h : ¬ w.standing.Accepts s) :
    w.stateViolation? s = some (w.staleness s) := by
  rw [← stateViolation?_eq_none] at h
  unfold stateViolation? Ledger.stateViolation? staleness at *
  split
  · simp_all
  · split
    · simp_all
    · simp_all

/-- How an operation throws for a fault of its state. -/
def rejection (fault : Fault) : Operation σ → World σ × Thrown
  | .encode _ p =>
    match encodePrimitive p with
    | .error t => (w, t)
    | .ok _ => w.throwFault fault
  | _ => w.throwFault fault

/-- Performing an operation ends with throwing for a fault of its state, whatever waits for it. -/
def TurnsAway (op : Operation σ) (fault : Fault) : Prop :=
  ∀ T : List (Pending σ), ∃ n, Config.step^[n] ⟨w, .perform op, T⟩ =
    ⟨(w.rejection fault op).1, .outcome (.threw (w.rejection fault op).2), T⟩

end World

namespace Config

theorem requiring_violation (c : Config σ) {s : State} {fault : Fault} (k : Config σ → Config σ)
    (h : c.world.stateViolation? s = some fault) : c.requiring s k = c.throwing fault := by
  simp only [requiring, h]

end Config

/-- An operation that is made of two throws what the first part throws. -/
theorem Config.step_begins {op op' : Operation σ} {f : Pending σ} (h : op.Begins op' f)
    {w w' : World σ} {t : Thrown} {T : List (Pending σ)}
    (threw : (⟨w, .perform op', f :: T⟩ : Config σ).step = ⟨w', .outcome (.threw t), f :: T⟩) :
    Config.step^[3] ⟨w, .perform op, T⟩ = ⟨w', .outcome (.threw t), T⟩ := by
  have begun : (⟨w, .perform op, T⟩ : Config σ).step = ⟨w, .perform op', f :: T⟩ := by
    cases h <;> rfl
  have handed : (⟨w', .outcome (.threw t), f :: T⟩ : Config σ).step =
      ⟨w', .outcome (.threw t), T⟩ := by
    cases h <;> rfl
  simp only [Function.iterate_succ, Function.iterate_zero, Function.comp_apply]
  rw [begun, threw, handed]
  rfl

/-- Whatever is not made of two operations looks at its state at once. -/
theorem World.refuses (w : World σ) {s : State} (h : ¬ w.standing.Accepts s)
    (op : Operation σ) (subject : op.subject? = some s) (whole : ∀ op' f, ¬ op.Begins op' f)
    (T : List (Pending σ)) :
    (⟨w, .perform op, T⟩ : Config σ).step =
      ⟨(w.rejection (w.staleness s) op).1, .outcome (.threw (w.rejection (w.staleness s) op).2),
        T⟩ := by
  have violation := w.stateViolation?_of_not_accepts h
  have refused : ∀ k : Config σ → Config σ, Config.requiring ⟨w, .perform op, T⟩ s k =
      ⟨(w.throwFault (w.staleness s)).1, .outcome (.threw (w.throwFault (w.staleness s)).2), T⟩ :=
    fun k => Config.requiring_violation _ k violation
  cases op with
  | encode s p =>
      cases subject
      simp only [rejection, Config.step, Config.perform, Config.encoding]
      cases encodePrimitive p with
      | error t => rfl
      | ok d => exact refused _
  | encodeTable | expose | get | refGet | set | load | loadFile | runChunk | call =>
      cases subject
      simp only [rejection, Config.step, Config.perform, Config.exposing, Config.lookingUp,
        Config.assigning, Config.loadingFile, Config.runningChunk]
      exact refused _
  | run s source name => exact absurd (.run s source name) (whole _ _)
  | runFile s path => exact absurd (.runFile s path) (whole _ _)
  | callByName s keys arguments => exact absurd (.callByName s keys arguments) (whole _ _)
  | init | close | releaseChunk | decode | release => cases subject

/-- A state that is not the head of an open session is turned away by every operation. -/
theorem World.turnsAway (w : World σ) {s : State} (h : ¬ w.standing.Accepts s)
    (op : Operation σ) (subject : op.subject? = some s) : w.TurnsAway op (w.staleness s) := by
  intro T
  by_cases whole : ∀ op' f, ¬ op.Begins op' f
  · exact ⟨1, w.refuses h op subject whole T⟩
  · -- The first part begins, is refused, and what it throws is handed on.
    refine ⟨3, ?_⟩
    cases op with
    | run s source name =>
        cases subject
        exact Config.step_begins (.run s source name)
          (w.refuses h (.load s source name) rfl (fun _ _ begins => nomatch begins) _)
    | runFile s path =>
        cases subject
        exact Config.step_begins (.runFile s path)
          (w.refuses h (.loadFile s path) rfl (fun _ _ begins => nomatch begins) _)
    | callByName s keys arguments =>
        cases subject
        exact Config.step_begins (.callByName s keys arguments)
          (w.refuses h (.refGet s keys) rfl (fun _ _ begins => nomatch begins) _)
    | _ => exact absurd (fun _ _ begins => nomatch begins) whole

namespace Posture

/-- An operation, or the one that it begins with, and the stack above which it is performed. -/
inductive Performed (T : List (Pending σ)) : Operation σ → List (Pending σ) → Prop
  | whole (op) : Performed T op T
  | first {op op' f} (h : Operation.Begins op op' f) : Performed T op' (f :: T)

/-- What is left of an operation whose state is not accepted. -/
inductive Refused (s : State) (T : List (Pending σ)) : Posture σ → Prop
  | asked {S op R} (stale : ¬ S.Accepts s) (subject : Operation.subject? op = some s)
      (performed : Performed T op R) : Refused s T ⟨S, .perform op, R⟩
  | handed {S op op' f o} (begins : Operation.Begins op op' f) (failed : ¬ Outcome.IsOk o) :
      Refused s T ⟨S, .outcome o, f :: T⟩
  | ended {S o} (failed : ¬ Outcome.IsOk o) : Refused s T ⟨S, .outcome o, T⟩
  | finished {S r R} : Refused s T ⟨S, .finished r, R⟩

theorem Refused.move {s : State} {T : List (Pending σ)} {p q : Posture σ} (h : Refused s T p)
    (m : Move p q) (kept : T <:+ q.stack) : Refused s T q := by
  cases h with
  | asked stale subject performed =>
      cases m with
      | idle => exact .asked stale subject performed
      | finishes => exact .finished
      | fails _ _ o _ failed =>
          cases performed with
          | whole => exact .ended failed
          | first begins => exact .handed begins failed
      | ends _ _ _ _ free => exact nomatch subject.symm.trans free
      | closes | opens => exact nomatch subject
      | loadWaits _ _ _ _ _ accepted | builds _ _ _ _ _ _ _ accepted =>
          obtain rfl := Option.some.inj subject
          exact absurd accepted stale
      | succeeds _ _ _ _ _ subject' accepted =>
          obtain rfl := Option.some.inj (subject.symm.trans subject')
          exact absurd accepted stale
      | enters _ _ _ _ _ h accepted =>
          obtain rfl := Option.some.inj (subject.symm.trans h.subject)
          exact absurd accepted stale
      | begins _ _ op' f _ begins =>
          cases performed with
          | whole => exact .asked stale (begins.subject subject) (.first begins)
          | first before => cases before <;> exact nomatch begins
  | handed begins failed =>
      cases m with
      | idle => exact .handed begins failed
      | finishes => exact .finished
      | handsOn => exact .ended failed
      | resumes | settles => exact nomatch begins
      | runs | callsTarget | refusesTarget => exact absurd trivial failed
  | ended failed =>
      rcases m.outcome_kept kept with rfl | ⟨r, rfl⟩
      · exact .ended failed
      · exact .finished
  | finished => cases m <;> exact .finished

/-- An operation whose state is not accepted does not end well. -/
theorem Run.refused {s : State} {T : List (Pending σ)} {S : Standing σ} {op : Operation σ}
    (stale : ¬ S.Accepts s) (subject : op.subject? = some s) {q : Posture σ} {o : Outcome}
    (run : Run T ⟨S, .perform op, T⟩ q) (ended : q.control = .outcome o) (back : q.stack = T) :
    ¬ o.IsOk := by
  have refused : Refused s T q := by
    clear ended back
    induction run with
    | refl => exact .asked stale subject (.whole op)
    | tail _ next ih => exact ih.move next.1 next.2
  obtain ⟨S', control, stack⟩ := q
  obtain rfl : control = _ := ended
  obtain rfl : stack = _ := back
  cases refused with
  | ended failed => exact failed

end Posture

end LuaHost
