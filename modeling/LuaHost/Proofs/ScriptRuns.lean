import LuaHost.Proofs.Stacks
/-!
Operations that run source text, from their beginning to their end. The text is compiled and then called, and
what waits for the operation goes on waiting all the time; whatever the guest and the host do in between, the
operation ends with values or not at all well.
-/

namespace LuaHost

variable {σ : Type}

/-- How an operation may end that runs source text in a session: with values, or not well. -/
def Outcome.EndsRun (session : Nat) (o : Outcome) : Prop :=
  ¬ o.IsOk ∨ ∃ s values, o = .ok (some s) (.values values) ∧ s.session = session

/-- How the compilation for it may end. -/
def Outcome.EndsCompilation (session : Nat) (o : Outcome) : Prop :=
  ¬ o.IsOk ∨ ∃ s id chunk, o = .ok (some s) (.chunk id chunk) ∧ s.session = session

/-- Where an operation that runs source text has come to, above what waits for it. -/
inductive Underway (session : Nat) (T : List (Pending σ)) : Control σ → List (Pending σ) → Prop
  | asked {op op' : Operation σ} {s : State} (begins : op.Begins op' (.compiled s))
      (here : s.session = session) : Underway session T (.perform op) T
  | compiles {op : Operation σ} {s : State} (compiles : op.Compiles s) (here : s.session = session) :
      Underway session T (.perform op) (.compiled s :: T)
  | lacks {path path' : String} {s : State} (here : s.session = session) :
      Underway session T (.lacking path (.perform (.loadFile s path'))) (.compiled s :: T)
  | compiled {o : Outcome} {s : State} (ends : o.EndsCompilation session) :
      Underway session T (.outcome o) (.compiled s :: T)
  | runs {origin s : State} {chunk : Nat} (here : s.session = session) :
      Underway session T (.perform (.runChunk s chunk)) (.ran origin s chunk :: T)
  | inside {control : Control σ} {stack : List (Pending σ)} {entry origin s : State} {chunk : Nat}
      (here : entry.session = session) (kept : (.guest entry .values :: .ran origin s chunk :: T) <:+ stack) :
      Underway session T control stack
  | ran {o : Outcome} {origin s : State} {chunk : Nat} (ends : o.EndsRun session) :
      Underway session T (.outcome o) (.ran origin s chunk :: T)

namespace Underway
variable {session : Nat} {T stack : List (Pending σ)} {control : Control σ}

theorem suffix (underway : Underway session T control stack) : T <:+ stack := by
  cases underway with
  | asked => exact List.suffix_refl T
  | compiles | lacks | compiled | runs | ran => exact List.suffix_cons _ T
  | inside _ kept => exact ((List.suffix_cons _ T).trans (List.suffix_cons _ _)).trans kept

/-- An outcome that nothing of the operation waits for is its last one. -/
theorem not_over {o : Outcome} : ¬ Underway session T (.outcome o) T := by
  intro underway
  cases underway with
  | inside _ kept =>
      have longer := kept.length_le
      simp only [List.length_cons] at longer
      omega

end Underway

namespace Config
variable {c : Config σ} {session : Nat} {T : List (Pending σ)}

/-- A configuration in which an operation that runs source text has come so far, or is over. -/
def Proceeds (session : Nat) (T : List (Pending σ)) (d : Config σ) : Prop :=
  Underway session T d.control d.stack ∨
    ∃ o, d.control = .outcome o ∧ d.stack = T ∧ o.EndsRun session

/-! ### Compilation -/

theorem loading_proceeds {w : World σ} {control : Control σ} {s : State} (here : s.session = session)
    (chunk : Chunk) : Proceeds session T (loading ⟨w, control, .compiled s :: T⟩ s chunk) := by
  refine .inl (.compiled ?_)
  rcases World.load_cases (w.addChunk chunk).1 s.session (w.addChunk chunk).2 with ⟨failed, -⟩ | ⟨-, gave⟩
  · exact .inl failed
  · exact .inr ⟨_, _, _, gave, here⟩

theorem compiles_proceeds {w : World σ} {op : Operation σ} {s : State} (compiles : op.Compiles s)
    (here : s.session = session) :
    Proceeds session T (Config.step ⟨w, .perform op, .compiled s :: T⟩) := by
  have refused (fault : Fault) :
      Proceeds session T (throwing ⟨w, .perform op, .compiled s :: T⟩ fault) :=
    .inl (.compiled (.inl id))
  cases op with
  | load s' source name =>
      obtain rfl : s' = s := compiles
      simp only [Config.step, perform, requiring]
      split
      · exact refused _
      · exact loading_proceeds here _
  | loadFile s' path =>
      obtain rfl : s' = s := compiles
      simp only [Config.step, perform, loadingFile, requiring]
      split
      · exact refused _
      · rw [readingFile]
        split
        · exact .inl (.lacks here)
        · split
          · exact loading_proceeds here _
          · exact .inl (.compiled (.inl (World.fail_not_ok _ _ _)))
  | _ => exact compiles.elim

theorem compiled_proceeds {w : World σ} {o : Outcome} {s : State} (ends : o.EndsCompilation session) :
    Proceeds session T (Config.step ⟨w, .outcome o, .compiled s :: T⟩) := by
  rcases ends with failed | ⟨s', id, chunk, rfl, here⟩
  · cases o with
    | ok => exact absurd trivial failed
    | err | threw => exact .inr ⟨_, rfl, rfl, .inl id⟩
  · exact .inl (.runs here)

/-! ### The run of what is compiled -/

/-- A call that is asked for is given up, or the guest is entered. -/
theorem applying_cases (c : Config σ) (entry : State) (function : Guest.Value) (arguments : List Item) :
    (∃ w, c.applying entry function arguments = c.entering entry .values w) ∨
      ∃ r : World σ × Outcome, c.applying entry function arguments = c.ending r ∧ ¬ r.2.IsOk := by
  have abandoned (t : Thrown) : ∃ r : World σ × Outcome, c.abandoning entry t = c.ending r ∧ ¬ r.2.IsOk :=
    ⟨_, rfl, World.failUnexpected_not_ok _ _ _⟩
  rw [applying]
  split
  · split
    · exact .inr (abandoned _)
    · exact .inl ⟨_, rfl⟩
  · exact .inr (abandoned _)

theorem applying_proceeds {origin s entry : State} {chunk : Nat} (waits : c.stack = .ran origin s chunk :: T)
    (here : entry.session = session) (function : Guest.Value) :
    Proceeds session T (c.applying entry function []) := by
  obtain ⟨w, control, _⟩ := c
  subst waits
  rcases applying_cases ⟨w, control, .ran origin s chunk :: T⟩ entry function [] with
    ⟨w', entered⟩ | ⟨r, ended, failed⟩
  · rw [entered]
    exact .inl (.inside here (List.suffix_refl _))
  · rw [ended]
    exact .inl (.ran (.inl failed))

theorem runs_proceeds {w : World σ} {origin s : State} {chunk : Nat} (here : s.session = session) :
    Proceeds session T (Config.step ⟨w, .perform (.runChunk s chunk), .ran origin s chunk :: T⟩) := by
  simp only [Config.step, perform, runningChunk, requiring]
  split
  · exact .inl (.ran (.inl id))
  · split
    · next compiled => exact .inl (.ran (.inl (World.compile_error _ compiled).1))
    · exact applying_proceeds rfl here _

/-- The guest comes to the end of the call. -/
theorem leaving_proceeds {w : World σ} {control : Control σ} {R : List (Pending σ)} {entry origin s : State}
    {chunk : Nat} (here : entry.session = session) (signal : Guest.Signal)
    (ended : (∃ status error traceback, signal = .failed status error traceback) ∨
      ∃ values, signal = .finished values) :
    Proceeds session T
      (leaving ⟨w, control, R⟩ entry .values (.ran origin s chunk :: T) signal) := by
  rcases ended with ⟨status, error, traceback, rfl⟩ | ⟨values, rfl⟩
  · exact .inl (.ran (.inl (World.failCall_not_ok _ _ _)))
  · exact .inl (.ran (.inr ⟨_, _, rfl, here⟩))

/-- The guest runs, directly for the operation. -/
theorem guest_proceeds {w : World σ} {entry origin s : State} {chunk : Nat} (here : entry.session = session) :
    Proceeds session T (Config.step
      ⟨w, .guest entry.session, .guest entry .values :: .ran origin s chunk :: T⟩) := by
  have kept (control : Control σ) (f : List (Pending σ)) :
      Underway session T control (f ++ .guest entry .values :: .ran origin s chunk :: T) :=
    .inside here (List.suffix_append f _)
  have raised (w : World σ) (t : Thrown) : Proceeds session T (raising
      ⟨w, .guest entry.session, .guest entry .values :: .ran origin s chunk :: T⟩ entry.session t w) :=
    .inl (kept _ [])
  simp only [Config.step]
  rw [guestStep_eq]
  generalize w.modifyMachine entry.session (·.run portion) = w
  generalize (w.machine entry.session).signal = signal
  rcases signal with _ | (values | ⟨status, error, traceback⟩ | ⟨index, values⟩ | line | path)
  · exact .inl (kept _ [])
  · exact leaving_proceeds here _ (.inr ⟨_, rfl⟩)
  · exact leaving_proceeds here _ (.inl ⟨_, _, _, rfl⟩)
  · simp only [heeding, invoking]
    split
    · exact raised _ _
    · split
      · exact .inl (kept _ [])
      · exact .inl (kept _ [_])
  · simp only [heeding, logging]
    split <;> exact .inl (kept _ [])
  · simp only [heeding, readingForGuest, readingFile]
    split <;> exact .inl (kept _ [])

theorem ran_proceeds {w : World σ} {o : Outcome} {origin s : State} {chunk : Nat} (ends : o.EndsRun session) :
    Proceeds session T (Config.step ⟨w, .outcome o, .ran origin s chunk :: T⟩) := by
  refine .inr ⟨o, ?_, ?_, ends⟩ <;> cases o <;> rfl

/-! ### Whole runs -/

theorem step_proceeds (reachable : Reachable c) (underway : Underway session T c.control c.stack) :
    Proceeds session T c.step := by
  have proper := reachable.proper
  have tail := c.step_move.tail_suffix
  obtain ⟨w, control, stack⟩ := c
  cases underway with
  | asked begins here =>
      cases begins with
      | run | runFile => exact .inl (.compiles rfl here)
  | compiles compiles here => exact compiles_proceeds compiles here
  | @lacks path path' s here =>
      simp only [Config.step]
      split
      · exact .inl (.lacks here)
      · exact .inl (.compiles rfl here)
  | compiled ends => exact compiled_proceeds ends
  | runs here => exact runs_proceeds here
  | ran ends => exact ran_proceeds ends
  | @inside _ _ entry origin s chunk here kept =>
      obtain ⟨above, rfl⟩ := kept
      cases above with
      | cons f above => exact .inl (.inside here ((List.suffix_append above _).trans tail))
      | nil =>
          have fits : Control.Fits control (.guest entry .values :: .ran origin s chunk :: T) := proper.control
          cases fits with
          | client _ _ awaits => exact awaits.elim
          | perform _ _ fits => cases fits
          | outcome _ _ awaits => exact awaits.elim
          | guest => exact guest_proceeds here
          | lacksGuest path =>
              have waits (control : Control σ) :
                  Underway session T control (.guest entry .values :: .ran origin s chunk :: T) :=
                .inside here (List.suffix_refl _)
              simp only [Config.step]
              split
              · exact .inl (waits _)
              · exact .inl (waits _)
          | lacksFile _ _ _ _ fits => cases fits

/-- An operation that is performed has come to its outcome after so many steps, and what waited for it has gone
on waiting. -/
structure Performed (c : Config σ) (n : Nat) (o : Outcome) : Prop where
  control : (step^[n] c).control = .outcome o
  stack : (step^[n] c).stack = c.stack
  waited : ∀ m ≤ n, c.stack <:+ (step^[m] c).stack

/-- While the operation is not over, it is under way. -/
theorem underway_or_performed (reachable : Reachable c) (underway : Underway session c.stack c.control c.stack)
    (n : Nat) :
    Underway session c.stack (step^[n] c).control (step^[n] c).stack ∧
        (∀ m ≤ n, c.stack <:+ (step^[m] c).stack) ∨
      ∃ m ≤ n, ∃ o, Performed c m o ∧ o.EndsRun session := by
  induction n with
  | zero =>
      refine .inl ⟨underway, fun m le => ?_⟩
      obtain rfl : m = 0 := Nat.le_zero.mp le
      exact List.suffix_refl _
  | succ n ih =>
      rcases ih with ⟨underway, waited⟩ | ⟨m, le, performed⟩
      · have next := step_proceeds (reachable.run (run_steps c n)) underway
        rw [← Function.iterate_succ_apply' step n c] at next
        have waits : c.stack <:+ (step^[n + 1] c).stack := by
          rcases next with going | ⟨o, -, same, -⟩
          · exact going.suffix
          · exact same ▸ List.suffix_refl _
        have waited' : ∀ m ≤ n + 1, c.stack <:+ (step^[m] c).stack := by
          intro m le
          rcases Nat.le_succ_iff.mp le with earlier | rfl
          · exact waited m earlier
          · exact waits
        rcases next with going | ⟨o, control, same, ends⟩
        · exact .inl ⟨going, waited'⟩
        · exact .inr ⟨n + 1, Nat.le_refl _, o, ⟨control, same, waited'⟩, ends⟩
      · exact .inr ⟨m, Nat.le_succ_of_le le, performed⟩

/-- If host code that has source text run comes to its end, the run has come to an outcome before. -/
theorem performed_of_finished (reachable : Reachable c) (underway : Underway session c.stack c.control c.stack)
    (waits : c.stack ≠ []) {n : Nat} {r : Except Thrown (State × List Item)}
    (finished : (step^[n] c).control = .finished r) :
    ∃ m ≤ n, ∃ o, Performed c m o ∧ o.EndsRun session := by
  rcases underway_or_performed reachable underway n with ⟨going, -⟩ | performed
  · have some : (step^[n] c).stack ≠ [] := fun none =>
      waits (List.suffix_nil.mp (none ▸ going.suffix))
    exact absurd finished ((reachable.run (run_steps c n)).going some r)
  · exact performed

/-- What is performed for host code has come to one outcome, and to no other one after it. -/
theorem Performed.unique {k : Outcome → Client σ} {R : List (Pending σ)} (waits : c.stack = .perform k :: R)
    {n m : Nat} {o o' : Outcome} (performed : Performed c n o) (performed' : Performed c m o') (le : m ≤ n) :
    o = o' := by
  rcases Nat.eq_or_lt_of_le le with rfl | lt
  · exact Control.outcome.inj (performed.control.symm.trans performed'.control)
  · have waited := performed.waited (m + 1) lt
    have control := performed'.control
    have stack := performed'.stack.trans waits
    rw [Function.iterate_succ_apply'] at waited
    generalize step^[m] c = d at waited control stack
    obtain ⟨w, _, _⟩ := d
    subst control stack
    rw [waits] at waited
    have longer : (Pending.perform k :: R).length ≤ R.length := waited.length_le
    exact absurd longer (Nat.not_succ_le_self _)

/-- However source text has been run, it has ended with values or not well. -/
theorem Performed.endsRun (reachable : Reachable c)
    (underway : Underway session c.stack c.control c.stack) {k : Outcome → Client σ} {R : List (Pending σ)}
    (waits : c.stack = .perform k :: R) {n : Nat} {o : Outcome} (performed : Performed c n o) :
    o.EndsRun session := by
  rcases underway_or_performed reachable underway n with ⟨going, -⟩ | ⟨m, le, o', performed', ends⟩
  · rw [performed.control, performed.stack] at going
    exact absurd going Underway.not_over
  · exact performed.unique waits performed' le ▸ ends

end Config

end LuaHost
