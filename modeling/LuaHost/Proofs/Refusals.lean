import LuaHost.Proofs.Failures
import LuaHost.Proofs.Rejection
/-!
Why calls are refused, and how a call goes on that is not. An operation looks at its state first, and then at
the values and references that it is handed; if it throws for one of them, nothing else has happened. A call
by name is made of two operations, and its values are looked at in the second one: by then the first has
walked along the path.
-/

namespace LuaHost

variable {σ : Type}

namespace Operation

/-- The operations that report failures. -/
def Reports : Operation σ → Prop
  | get _ _ | refGet _ _ | set _ _ _ | load _ _ _ | loadFile _ _ | run _ _ _ | runFile _ _ | runChunk _ _
  | call _ _ _ | callByName _ _ _ => True
  | _ => False

/-- The values and references that an operation is handed. -/
def items : Operation σ → List Item
  | set _ _ item => [item]
  | call _ ref arguments => .reference ref :: arguments
  | callByName _ _ arguments => arguments
  | _ => []

/-- The values and references that an operation looks at before it does anything. An assignment to an empty
path looks at none, and a call by name leaves them to the call. -/
def claims : Operation σ → List Item
  | set _ keys item => if keys.isEmpty then [] else [item]
  | call _ ref arguments => .reference ref :: arguments
  | _ => []

theorem Begins.claims {op op' : Operation σ} {f : Pending σ} (h : op.Begins op' f) :
    op'.claims = op.claims := by
  cases h <;> rfl

theorem Begins.reports {op op' : Operation σ} {f : Pending σ} (h : op.Begins op' f) :
    op'.Reports ∧ ∀ op'' g, ¬ op'.Begins op'' g := by
  cases h <;> exact ⟨trivial, fun _ _ begins => nomatch begins⟩

end Operation

namespace Ledger
variable {l : Ledger} {fault : Fault}

end Ledger

theorem Outcome.IsThrown.of_eq {o : Outcome} {t : Thrown} (h : o = .threw t) : o.IsThrown :=
  h ▸ trivial

namespace World
variable {w w' w'' : World σ} {s : State} {op op' : Operation σ} {t : Thrown}

/-- Why an operation is refused before it does anything. -/
def refusal? (w : World σ) (s : State) (op : Operation σ) : Option Fault :=
  (w.stateViolation? s).or ((w.ledger s.session).claimViolation? s.session op.claims)

theorem refusal?_eq_none : w.refusal? s op = none ↔ w.stateViolation? s = none ∧
    (w.ledger s.session).claimViolation? s.session op.claims = none :=
  Option.or_eq_none_iff

/-- With an open session, nothing is wrong with no values. -/
theorem refusal?_of_no_claims (op : Operation σ) (accepted : w.stateViolation? s = none)
    (none : op.claims = []) : w.refusal? s op = .none := by
  refine refusal?_eq_none.mpr ⟨accepted, ?_⟩
  have opened : (w.ledger s.session).closed = false := by
    have := ((w.stateViolation?_eq_none s).mp accepted).1
    rwa [standing_lineage] at this
  simp [none, Ledger.claimViolation?, opened]

/-- A world is as another one was but for what surrounds the sessions: files that have been found meanwhile, and
what the host has in its memory. -/
def Beside (w w' : World σ) : Prop := w' = { w with directory := w'.directory, memory := w'.memory }

theorem Beside.refl (w : World σ) : w.Beside w := rfl

theorem Beside.surroundings (beside : w.Beside w') (directory : Directory) (memory : σ) :
    w.Beside { w' with directory, memory } := by
  rw [Beside] at beside ⊢
  rw [beside]

theorem Beside.trans (first : w.Beside w') (second : w'.Beside w'') : w.Beside w'' := by
  rw [Beside] at second
  rw [second]
  exact first.surroundings _ _

theorem Beside.standing (beside : w.Beside w') : w'.standing = w.standing := by
  rw [Beside] at beside
  rw [beside]
  rfl

theorem Beside.refusal? (beside : w.Beside w') : w'.refusal? s op = w.refusal? s op := by
  rw [Beside] at beside
  rw [beside]
  rfl

theorem Beside.throwFault (beside : w.Beside w') (fault : Fault) :
    (w.throwFault fault).1.Beside (w'.throwFault fault).1 ∧
      (w'.throwFault fault).2 = (w.throwFault fault).2 := by
  rw [Beside] at beside
  rw [beside]
  exact ⟨rfl, rfl⟩

theorem Beside.ledger (beside : w.Beside w') (session : Nat) : w'.ledger session = w.ledger session := by
  rw [Beside] at beside
  rw [beside]
  rfl

theorem Beside.modifyLedger (beside : w.Beside w') (session : Nat) (f : Ledger → Ledger) :
    (w.modifyLedger session f).Beside (w'.modifyLedger session f) := by
  rw [Beside] at beside
  rw [beside]
  rfl

theorem Beside.vacate (beside : w.Beside w') (session slot : Nat) :
    (w.vacate session slot).Beside (w'.vacate session slot) := by
  simp only [World.vacate, beside.ledger]
  split
  · exact beside
  · rw [Beside] at beside
    rw [beside]
    rfl

theorem Beside.release (beside : w.Beside w') (item : Item) :
    (w.release item).Beside (w'.release item) := by
  simp only [World.release, World.releaseHandle, beside.ledger]
  split
  · split
    · exact beside
    · exact (beside.vacate _ _).modifyLedger _ _
  · exact beside

/-- An operation that was performed in a world has been refused: it has thrown a failure of its own, and there
is nothing else to it. -/
def Refuses (w : World σ) (s : State) (op : Operation σ) (t : Thrown) (w' : World σ) : Prop :=
  ∃ fault, w.refusal? s op = some fault ∧ t = (w.throwFault fault).2 ∧
    (w.throwFault fault).1.Beside w'

theorem Refuses.beside (refuses : w.Refuses s op t w') (beside : w'.Beside w'') :
    w.Refuses s op t w'' := by
  obtain ⟨fault, refused, thrown, same⟩ := refuses
  exact ⟨fault, refused, thrown, same.trans beside⟩

theorem Refuses.of_beside {w₀ : World σ} (before : w₀.Beside w) (refuses : w.Refuses s op t w') :
    w₀.Refuses s op t w' := by
  obtain ⟨fault, refused, thrown, same⟩ := refuses
  have threw := before.throwFault fault
  exact ⟨fault, before.refusal? ▸ refused, thrown.trans threw.2, threw.1.trans same⟩

theorem Refuses.congr (claims : op'.claims = op.claims) (refuses : w.Refuses s op' t w') :
    w.Refuses s op t w' := by
  simpa only [Refuses, World.refusal?, claims] using refuses

/-- How an operation that is not made of two can end, in `w'`, that was performed in `w`. It throws only if it is
refused, or if the host throws on being told about its failure. -/
structure Ends (w : World σ) (s : State) (op : Operation σ) (o : Outcome) (w' : World σ) : Prop where
  thrown : ∀ t, o = .threw t → w.Refuses s op t w' ∨
    w.refusal? s op = none ∧ ¬ w.standing.Quiet s.session
  allowed : ¬ o.IsThrown → w.refusal? s op = none
  gave : op.Compiles s → ∀ state r, o = .ok (some state) r →
    state.session = s.session ∧ w'.standing.Accepts state

theorem Ends.beside {o : Outcome} (ends : w.Ends s op o w') (beside : w'.Beside w'') :
    w.Ends s op o w'' where
  thrown t threw := (ends.thrown t threw).imp_left (·.beside beside)
  allowed := ends.allowed
  gave compiles state r gives := beside.standing ▸ ends.gave compiles state r gives

theorem Ends.of_beside {w₀ : World σ} {o : Outcome} (before : w₀.Beside w) (ends : w.Ends s op o w') :
    w₀.Ends s op o w' where
  thrown t threw := by
    rw [← before.refusal?, ← before.standing]
    exact (ends.thrown t threw).imp_left (·.of_beside before)
  allowed quietly := before.refusal? ▸ ends.allowed quietly
  gave := ends.gave

/-- A call that was not refused has failed, and a quiet host has just heard of it. -/
theorem Ends.failed {o : Outcome} (allowed : w.refusal? s op = none) (failed : ¬ o.IsOk)
    (heard : w.standing.Quiet s.session → ¬ o.IsThrown) : w.Ends s op o w' where
  thrown _ threw := .inr ⟨allowed, fun quiet => heard quiet (.of_eq threw)⟩
  allowed _ := allowed
  gave _ _ _ gives := absurd (gives ▸ trivial) failed

theorem load_quiet {session : Nat} (quiet : w.standing.Quiet session) (chunk : Nat) :
    ¬ (w.load session chunk).2.IsThrown := by
  unfold load
  split
  · next failed => exact (compile_error w failed).2 quiet
  · exact fun thrown => nomatch thrown

/-- The state that comes with a chunk is the head of the session that compiled it. -/
theorem load_accepts {chunk : Nat} {state : State} {r : Result} (accepted : w.standing.Accepts s)
    (gave : (w.load s.session chunk).2 = .ok (some state) r) :
    state.session = s.session ∧ (w.load s.session chunk).1.standing.Accepts state := by
  rcases w.load_cases s.session chunk with ⟨bad, -⟩ | ⟨advanced, outcome⟩
  · exact absurd (gave ▸ trivial) bad
  · have same := outcome.symm.trans gave
    simp only [Outcome.ok.injEq, Option.some.injEq] at same
    obtain ⟨rfl, -⟩ := same
    refine ⟨rfl, ?_, ?_⟩
    · simp only [advanced, Standing.advance_lineage]
      split <;> exact accepted.1
    · rw [advanced]
      rfl

end World

namespace Config
variable {w : World σ} {s : State} {op : Operation σ} {T : List (Pending σ)}

/-- How an operation that is not made of two has come along that was performed in the world `w` above `T`: it
is about to be performed, the guest works for it, or it has ended. -/
inductive Course (w : World σ) (s : State) (op : Operation σ) (T : List (Pending σ)) : Config σ → Prop
  | asked {d} (control : d.control = .perform op ∨ ∃ path, d.control = .lacking path (.perform op))
      (stack : d.stack = T) (same : w.Beside d.world) : Course w s op T d
  | inside {d} (purpose) (allowed : w.refusal? s op = none) (h : op.Enters s purpose)
      (kept : (.guest s purpose :: T) <:+ d.stack) : Course w s op T d
  | ended {d} (o) (control : d.control = .outcome o) (stack : d.stack = T)
      (ends : w.Ends s op o d.world) : Course w s op T d
  | finished {d} (r) (control : d.control = .finished r) : Course w s op T d

variable {c d : Config σ}

namespace Course

theorem of_beside {w₀ : World σ} (before : w₀.Beside w) (course : Course w s op T d) :
    Course w₀ s op T d := by
  cases course with
  | asked control stack same => exact .asked control stack (before.trans same)
  | inside purpose allowed h kept => exact .inside purpose (before.refusal? ▸ allowed) h kept
  | ended o control stack ends => exact .ended o control stack (ends.of_beside before)
  | finished r control => exact .finished r control

theorem refused {fault : Fault} (why : c.world.refusal? s op = some fault) :
    Course c.world s op c.stack (c.throwing fault) := by
  refine .ended _ rfl rfl ⟨fun t threw => ?_, fun quietly => absurd trivial quietly, ?_⟩
  · exact .inl ⟨fault, why, (Outcome.threw.inj threw).symm, .refl _⟩
  · exact fun _ _ _ gives => nomatch gives

theorem requiring {k : Config σ → Config σ}
    (goesOn : c.world.stateViolation? s = none → Course c.world s op c.stack (k c)) :
    Course c.world s op c.stack (c.requiring s k) := by
  unfold Config.requiring
  split
  · next fault violation => exact refused (by simp [World.refusal?, violation])
  · next accepted => exact goesOn accepted

theorem claiming {k : Config σ → Config σ} {items : List Item} (claims : op.claims = items)
    (accepted : c.world.stateViolation? s = none)
    (goesOn : c.world.refusal? s op = none → Course c.world s op c.stack (k c)) :
    Course c.world s op c.stack (c.claiming s.session items k) := by
  unfold Config.claiming
  split
  · next fault violation => exact refused (by simp [World.refusal?, accepted, claims, violation])
  · next claimed => exact goesOn (World.refusal?_eq_none.mpr ⟨accepted, claims ▸ claimed⟩)

theorem fail (allowed : w.refusal? s op = none) (same : c.world.standing = w.standing)
    (fault : Fault) : Course w s op c.stack (c.ending (c.world.fail s.session fault)) :=
  .ended _ rfl rfl (.failed allowed (c.world.fail_not_ok s.session fault) fun quiet =>
    c.world.fail_quiet (same ▸ quiet) fault)

theorem abandoning (allowed : w.refusal? s op = none) (same : c.world.standing = w.standing)
    (e : Exception) : Course w s op c.stack (c.abandoning s (.exception e)) := by
  refine .ended _ rfl rfl (.failed allowed (World.failUnexpected_not_ok _ _ _) fun quiet => ?_)
  refine World.failUnexpected_quiet _ ?_ e
  rwa [World.modifyMachine_standing, same]

theorem applying (allowed : w.refusal? s op = none) (h : op.Enters s .values)
    (same : c.world.standing = w.standing) (function : Guest.Value) (arguments : List Item) :
    Course w s op c.stack (c.applying s function arguments) := by
  unfold Config.applying
  dsimp only
  split
  · split
    · exact abandoning allowed same _
    · exact .inside .values allowed h (List.suffix_refl _)
  · exact abandoning allowed same _

theorem calling (allowed : c.world.refusal? s op = none) (h : op.Enters s .values) (f : Item)
    (arguments : List Item) : Course c.world s op c.stack (c.calling s f arguments) := by
  have same : (c.openingGate s).world.standing = c.world.standing :=
    World.modifyMachine_standing _ _ _
  unfold Config.calling
  dsimp only
  split
  · exact abandoning (c := c.openingGate s) allowed same _
  · exact applying (c := c.openingGate s) allowed h same _ arguments

theorem loading (allowed : w.refusal? s op = none) (same : c.world.standing = w.standing)
    (accepted : w.standing.Accepts s) (chunk : Chunk) : Course w s op c.stack (c.loading s chunk) := by
  have standing : (c.world.addChunk chunk).1.standing = w.standing :=
    (World.addChunk_standing _ _).trans same
  refine .ended _ rfl rfl ⟨fun t threw => .inr ⟨allowed, fun quiet => ?_⟩, fun _ => allowed, ?_⟩
  · exact World.load_quiet (standing ▸ quiet) _ (.of_eq threw)
  · exact fun _ _ _ gave => World.load_accepts (standing ▸ accepted) gave

theorem lookingUp (claims : op.claims = []) {keys : List String} {asReference : Bool}
    (h : op.Enters s (.lookup keys asReference)) :
    Course c.world s op c.stack (c.lookingUp s keys asReference) := by
  refine requiring fun accepted => ?_
  have allowed := World.refusal?_of_no_claims _ accepted claims
  split
  · exact fail allowed rfl _
  · exact .inside _ allowed h (List.suffix_refl _)

theorem assigning (keys : List String) (item : Item) :
    Course c.world s (.set s keys item) c.stack (c.assigning s keys item) := by
  refine requiring fun accepted => ?_
  split
  · next empty =>
      have allowed := World.refusal?_of_no_claims (.set s keys item) accepted
        (by simp [Operation.claims, empty])
      exact fail allowed rfl _
  · next some =>
      have claims : (Operation.set s keys item : Operation σ).claims = [item] := by
        simp [Operation.claims, some]
      refine claiming claims accepted fun allowed => ?_
      exact .inside _ allowed (.set s keys item) (List.suffix_refl _)

theorem loadingFile {path : String} (control : c.control = .perform (.loadFile s path)) :
    Course c.world s (.loadFile s path) c.stack (c.loadingFile s path) := by
  refine requiring fun accepted => ?_
  have allowed := World.refusal?_of_no_claims (.loadFile s path) accepted rfl
  unfold readingFile
  split
  · exact .asked (.inr ⟨path, congrArg _ control⟩) rfl (.refl _)
  · next outcome _ =>
      cases outcome with
      | ok content => exact loading allowed rfl ((c.world.stateViolation?_eq_none s).mp accepted) _
      | error e => exact fail allowed rfl _

theorem runningChunk (chunk : Nat) :
    Course c.world s (.runChunk s chunk) c.stack (c.runningChunk s chunk) := by
  refine requiring fun accepted => ?_
  have allowed := World.refusal?_of_no_claims (.runChunk s chunk) accepted rfl
  have same := c.world.compile_standing s.session chunk
  split
  · next w₁ o compiled =>
      have bad := c.world.compile_error compiled
      exact .ended o rfl rfl (.failed allowed bad.1 bad.2)
  · next w₁ slot compiled =>
      rw [compiled] at same
      refine applying (c := { c with world := w₁ }.openingGate s) allowed (.runChunk s chunk) ?_ _ []
      exact (World.modifyMachine_standing _ _ _).trans same

/-- What an operation comes to in the step in which it is performed. -/
theorem perform (control : c.control = .perform op) (reports : op.Reports)
    (whole : ∀ op' f, ¬ op.Begins op' f) (subject : op.subject? = some s) :
    Course c.world s op c.stack c.step := by
  simp only [Config.step, control]
  cases op with
  | get _ keys =>
      cases subject
      exact lookingUp rfl (.get s keys)
  | refGet _ keys =>
      cases subject
      exact lookingUp rfl (.refGet s keys)
  | set _ keys item =>
      cases subject
      exact assigning keys item
  | load _ source name =>
      cases subject
      simp only [Config.perform]
      refine requiring fun accepted => ?_
      have allowed := World.refusal?_of_no_claims (.load s source name) accepted rfl
      exact loading allowed rfl ((c.world.stateViolation?_eq_none s).mp accepted) _
  | loadFile _ path =>
      cases subject
      exact loadingFile control
  | runChunk _ chunk =>
      cases subject
      exact runningChunk chunk
  | call _ ref arguments =>
      cases subject
      simp only [Config.perform]
      refine requiring fun accepted => ?_
      refine claiming rfl accepted fun allowed => ?_
      exact calling allowed (.call s ref arguments) _ arguments
  | run _ source name => exact absurd (.run _ source name) (whole _ _)
  | runFile _ path => exact absurd (.runFile _ path) (whole _ _)
  | callByName _ keys arguments => exact absurd (.callByName _ keys arguments) (whole _ _)
  | _ => exact reports.elim

/-- An operation has ended if its outcome is there. -/
theorem ends {o : Outcome} (course : Course w s op T d) (control : d.control = .outcome o)
    (stack : d.stack = T) : w.Ends s op o d.world := by
  cases course with
  | asked asks =>
      rw [control] at asks
      rcases asks with same | ⟨_, same⟩ <;> exact nomatch same
  | inside purpose _ _ kept => exact absurd (stack ▸ kept) (not_cons_suffix T)
  | ended o' control' _ ends =>
      obtain rfl := Control.outcome.inj (control.symm.trans control')
      exact ends
  | finished r control' => exact nomatch control.symm.trans control'

theorem above {o : Outcome} (course : Course w s op T d) (control : d.control = .outcome o) :
    T <:+ d.stack := by
  cases course with
  | asked _ stack => exact stack ▸ List.suffix_refl _
  | inside _ _ _ kept => exact (List.suffix_cons _ _).trans kept
  | ended _ _ stack => exact stack ▸ List.suffix_refl _
  | finished r control' => exact nomatch control.symm.trans control'

end Course

end Config

/-- The guest goes on working for an operation, or its call is over. Then the operation has an outcome, and if
it throws, the host has thrown. -/
theorem Move.guest_over {s : State} {purpose : Purpose} {T : List (Pending σ)} {p q : Posture σ}
    (m : Move p q) (kept : (.guest s purpose :: T) <:+ p.stack) :
    (.guest s purpose :: T) <:+ q.stack ∨ ∃ S o, q = ⟨S, .outcome o, T⟩ ∧
      (o.IsThrown → ¬ p.standing.Quiet s.session) := by
  rcases m.waiting_cases kept with still | stack
  · exact .inl still
  · cases m with
    | performs | begins | enters | builds | calls => exact .inl (stack ▸ List.suffix_cons _ _)
    | guestFails S session entry purpose o T' failed heard =>
        cases stack
        exact .inr ⟨_, o, rfl, fun thrown quiet => heard quiet thrown⟩
    | guestTells | guestReturns =>
        cases stack
        exact .inr ⟨_, _, rfl, False.elim⟩
    | handsOn _ _ _ _ h =>
        cases stack
        exact nomatch h
    | resumes | answers | settles | runs | callsTarget | refusesTarget | gotKey | gotValue | built
    | abandonsKey | abandonsValue => exact nomatch stack
    | _ => exact .inl (stack ▸ List.suffix_refl _)

namespace Config
variable {w : World σ} {s : State} {op : Operation σ} {T : List (Pending σ)} {c c' : Config σ}

/-- An operation goes on until its outcome is taken up. -/
theorem Course.next {d d' : Config σ} (course : Course w s op T d) (reports : op.Reports)
    (whole : ∀ op' f, ¬ op.Begins op' f) (subject : op.subject? = some s)
    (still : w.refusal? s op = none → w.standing.Quiet s.session → d.world.standing.Quiet s.session)
    (next : Next d d') :
    Course w s op T d' ∨ (∃ o, d.control = .outcome o) ∧ d.stack = T ∧ d' = d.step := by
  cases next with
  | surroundings directory memory =>
      left
      cases course with
      | asked control stack same => exact .asked control stack (same.surroundings directory memory)
      | inside purpose allowed h kept => exact .inside purpose allowed h kept
      | ended o control stack ends =>
          exact .ended o control stack (ends.beside ((World.Beside.refl _).surroundings directory memory))
      | finished r control => exact .finished r control
  | step =>
      cases course with
      | asked asks stack same =>
          left
          subst stack
          rcases asks with control | ⟨path, control⟩
          · exact (Course.perform control reports whole subject).of_beside same
          · simp only [Config.step, control]
            split
            · exact .asked (.inr ⟨path, control⟩) rfl same
            · exact .asked (.inl rfl) rfl same
      | inside purpose allowed h kept =>
          left
          rcases d.step_move.guest_over kept with still' | ⟨S, o, halted, thrown⟩
          · exact .inside purpose allowed h still'
          · refine .ended o (congrArg Posture.control halted) (congrArg Posture.stack halted) ?_
            refine ⟨fun t threw => .inr ⟨allowed, fun quiet => ?_⟩, fun _ => allowed, ?_⟩
            · exact thrown (.of_eq threw) (still allowed quiet)
            · intro compiles
              cases h <;> exact compiles.elim
      | ended o control stack => exact .inr ⟨⟨o, control⟩, stack, rfl⟩
      | finished r control =>
          left
          have same : d.step = d := by simp only [Config.step, control]
          exact .finished r (by rw [same, control])

theorem step_of_begins {op' : Operation σ} {f : Pending σ} (h : op.Begins op' f)
    (control : c.control = .perform op) : c.step = ⟨c.world, .perform op', f :: c.stack⟩ := by
  simp only [Config.step, control]
  cases h <;> rfl

/-- The target of a call by name is called, or it cannot be called. -/
theorem resolved_cases (c : Config σ) (s : State) (keys : List String) (arguments : List Item)
    (state : Option State) (ref : Reference) :
    c.resolved s keys arguments (.ok state (.reference ref)) =
        ⟨c.world, .perform (.call s ref arguments), .called ref :: c.stack⟩ ∨
      ∃ fault, c.resolved s keys arguments (.ok state (.reference ref)) =
        c.ending ((c.world.fail s.session fault).1.release (.reference ref),
          (c.world.fail s.session fault).2) := by
  unfold resolved
  dsimp only
  split
  · exact .inl rfl
  · split
    · exact .inl rfl
    · exact .inr ⟨_, rfl⟩

/-- An outcome is taken up by what is on top of the stack, and if nothing is there, that is the end. -/
theorem finished_of_kept {o : Outcome} (control : c.control = .outcome o)
    (kept : c.stack <:+ c.step.stack) : ∃ r, c.step.control = .finished r := by
  have move := c.step_move
  rw [posture, control] at move
  rcases move.outcome_kept kept with same | ⟨r, halted⟩
  · obtain ⟨w, control', T⟩ := c
    obtain rfl : control' = _ := control
    have stack : (⟨w, .outcome o, T⟩ : Config σ).step.stack = T := congrArg Posture.stack same
    cases T with
    | nil => exact ⟨_, rfl⟩
    | cons f R =>
        simp only [Config.step, outcomeStep] at stack ⊢
        cases f with
        | perform | called => simp [ending] at stack
        | compiled origin =>
            simp only [ranCompiled] at stack
            split at stack <;> simp at stack
        | ran origin s chunk =>
            simp only [ran] at stack
            split at stack <;> simp [ending] at stack
        | resolved s keys arguments =>
            dsimp only at stack
            rcases o with ⟨state, _ | _ | _ | ref | _ | _⟩ | _ | _
            case ok.reference =>
              rcases resolved_cases ⟨w, .outcome (.ok state (.reference ref)), R⟩ s keys arguments state ref
                with same | ⟨fault, same⟩ <;> simp [same, ending] at stack
            all_goals simp [resolved] at stack
        | _ => exact ⟨_, rfl⟩
  · exact ⟨r, congrArg Posture.control halted⟩

/-- A call by name has got its target, and calls it. -/
structure Resolves (c d : Config σ) (s : State) (keys : List String) (arguments : List Item)
    (ref : Reference) : Prop where
  run : Run c.stack c d
  given : ∃ state, d.control = .outcome (.ok state (.reference ref))
  waits : d.stack = .resolved s keys arguments :: c.stack
  step : d.step = ⟨d.world, .perform (.call s ref arguments), .called ref :: c.stack⟩

/-- An operation throws because it is refused: at once, or, if it is a call by name, because the call of its
target is refused; the reference to the target is given back then. -/
def Rejects (c : Config σ) (s : State) (op : Operation σ) (t : Thrown) (w : World σ) : Prop :=
  c.world.Refuses s op t w ∨ ∃ keys arguments d ref w', op = .callByName s keys arguments ∧
    c.world.refusal? s op = none ∧ Resolves c d s keys arguments ref ∧
    d.world.Refuses s (.call s ref arguments) t w' ∧ (w'.release (.reference ref)).Beside w

/-- How an operation can throw: it is refused, or the host throws on being told about its failure. -/
def Throwing (c : Config σ) (s : State) (op : Operation σ) (o : Outcome) (w : World σ) : Prop :=
  ∀ t, o = .threw t → Rejects c s op t w ∨
    c.world.refusal? s op = none ∧ ¬ c.world.standing.Quiet s.session

theorem Throwing.beside {o : Outcome} {w' : World σ} (throwing : Throwing c s op o w)
    (beside : w.Beside w') : Throwing c s op o w' := by
  intro t threw
  refine (throwing t threw).imp_left fun rejects => ?_
  rcases rejects with refuses | ⟨keys, arguments, d, ref, w₁, is, allowed, resolves, refuses, same⟩
  · exact .inl (refuses.beside beside)
  · exact .inr ⟨keys, arguments, d, ref, w₁, is, allowed, resolves, refuses, same.trans beside⟩

theorem Throwing.of_ends {o : Outcome} (ends : c.world.Ends s op o w) : Throwing c s op o w :=
  fun t threw => (ends.thrown t threw).imp_left .inl

/-- How an operation has come along: by itself, or by its first or its second part. -/
inductive Progress (c : Config σ) (s : State) (op : Operation σ) : Config σ → Prop
  | whole {d} (h : ∀ op' f, ¬ op.Begins op' f) (course : Course c.world s op c.stack d) :
      Progress c s op d
  | asked {d op' f} (h : op.Begins op' f) (control : d.control = .perform op) (stack : d.stack = c.stack)
      (same : c.world.Beside d.world) : Progress c s op d
  | first {d op' f} (h : op.Begins op' f) (course : Course c.world s op' (f :: c.stack) d) :
      Progress c s op d
  | runs {d w t chunk} (allowed : c.world.refusal? s op = none)
      (quiet : w.standing.Quiet s.session ↔ c.world.standing.Quiet s.session)
      (accepted : w.stateViolation? t = none) (session : t.session = s.session)
      (course : Course w t (.runChunk t chunk) (.ran s t chunk :: c.stack) d) : Progress c s op d
  | calls {d e keys arguments ref} (allowed : c.world.refusal? s op = none)
      (quiet : e.world.standing.Quiet s.session ↔ c.world.standing.Quiet s.session)
      (is : op = .callByName s keys arguments) (resolves : Resolves c e s keys arguments ref)
      (course : Course e.world s (.call s ref arguments) (.called ref :: c.stack) d) :
      Progress c s op d
  | ended {d} (o) (control : d.control = .outcome o) (stack : d.stack = c.stack)
      (throwing : Throwing c s op o d.world) : Progress c s op d
  | finished {d} (r) (control : d.control = .finished r) : Progress c s op d

namespace Progress
variable {d : Config σ}

/-- Whether the host throws on being told about a failure does not change while an operation goes on. -/
theorem quiet_kept (sound : c.posture.Sound) (allowed : c.world.refusal? s op = none)
    (run : Run c.stack c d) :
    d.world.standing.Quiet s.session ↔ c.world.standing.Quiet s.session := by
  refine run.posture.quiet ?_
  have accepted := (c.world.stateViolation?_eq_none s).mp (World.refusal?_eq_none.mp allowed).1
  exact lt_of_lt_of_eq accepted.session_lt sound.standing.sessions

/-- Source text has been compiled that is to be run, or has not. -/
theorem compiled {op' : Operation σ} {o : Outcome} (sound : c.posture.Sound)
    (begins : op.Begins op' (.compiled s)) (compiles : op'.Compiles s) (run : Run c.stack c d)
    (control : d.control = .outcome o) (stack : d.stack = .compiled s :: c.stack)
    (ends : c.world.Ends s op' o d.world) : Progress c s op d.step := by
  have same : c.world.refusal? s op' = c.world.refusal? s op := by
    simp only [World.refusal?, begins.claims]
  have step : d.step = { d with stack := c.stack }.ranCompiled s o := by
    simp only [Config.step, control, outcomeStep, stack]
  rw [step]
  have handed : Progress c s op { d with control := .outcome o, stack := c.stack } := by
    refine .ended o rfl rfl fun t threw => ?_
    exact (ends.thrown t threw).imp (fun refuses => .inl (refuses.congr begins.claims)) (same ▸ ·)
  unfold ranCompiled
  split
  · next t chunk text =>
      have allowed := same ▸ ends.allowed fun thrown => by cases thrown
      have gave := ends.gave compiles t _ rfl
      exact .runs allowed (quiet_kept sound allowed run) ((d.world.stateViolation?_eq_none t).mpr gave.2)
        gave.1 (.asked (.inl rfl) rfl (.refl _))
  · exact handed

/-- A call by name has its target, or has none that can be called. -/
theorem resolved {keys : List String} {arguments : List Item} {o : Outcome} (sound : c.posture.Sound)
    (is : op = .callByName s keys arguments) (run : Run c.stack c d)
    (control : d.control = .outcome o) (stack : d.stack = .resolved s keys arguments :: c.stack)
    (ends : c.world.Ends s (.refGet s keys) o d.world) : Progress c s op d.step := by
  have claims : (.refGet s keys : Operation σ).claims = op.claims := is ▸ rfl
  have same : c.world.refusal? s (.refGet s keys) = c.world.refusal? s op := by
    simp only [World.refusal?, claims]
  have step : d.step = { d with stack := c.stack }.resolved s keys arguments o := by
    simp only [Config.step, control, outcomeStep, stack]
  have handed : Progress c s op { d with control := .outcome o, stack := c.stack } := by
    refine .ended o rfl rfl fun t threw => ?_
    exact (ends.thrown t threw).imp (fun refuses => .inl (refuses.congr claims)) (same ▸ ·)
  rcases o with ⟨state, _ | _ | _ | ref | _ | _⟩ | _ | _
  case ok.reference =>
    have allowed := same ▸ ends.allowed fun thrown => by cases thrown
    have quiet := quiet_kept sound allowed run
    rcases resolved_cases { d with stack := c.stack } s keys arguments state ref
      with calls | ⟨fault, refuses⟩
    · rw [calls] at step
      refine .calls allowed quiet is ⟨run, ⟨state, control⟩, stack, step⟩ ?_
      rw [step]
      exact .asked (.inl rfl) rfl (.refl _)
    · rw [step, refuses]
      refine .ended _ rfl rfl fun t threw => .inr ⟨allowed, fun silent => ?_⟩
      exact d.world.fail_quiet (quiet.mpr silent) fault (.of_eq threw)
  all_goals exact step ▸ handed

/-- An operation goes on by itself, or by one of its parts, until its outcome is taken up. -/
theorem next {d' : Config σ} (sound : c.posture.Sound) (reports : op.Reports)
    (subject : op.subject? = some s) (run : Run c.stack c d) (progress : Progress c s op d)
    (next : Next d d') (kept : c.stack <:+ d'.stack) : Progress c s op d' := by
  have still : c.world.refusal? s op = none → _ := fun allowed => (quiet_kept sound allowed run).mpr
  cases progress with
  | whole h course =>
      rcases course.next reports h subject still next with course | ⟨⟨o, control⟩, stack, rfl⟩
      · exact .whole h course
      · obtain ⟨r, halted⟩ := finished_of_kept control (stack ▸ kept)
        exact .finished r halted
  | asked h control stack same =>
      cases next with
      | surroundings directory memory =>
          exact .asked h control stack (same.surroundings directory memory)
      | step =>
          have begun := step_of_begins h control
          rw [begun, stack]
          exact .first h (.asked (.inl rfl) rfl same)
  | @first op' f h course =>
      have same : c.world.refusal? s op' = c.world.refusal? s op := by
        simp only [World.refusal?, h.claims]
      rcases course.next h.reports.1 h.reports.2 (h.subject subject) (same ▸ still) next
        with course | ⟨⟨o, control⟩, stack, rfl⟩
      · exact .first h course
      · have ends := course.ends control stack
        cases h with
        | run _ source name =>
            cases subject
            exact compiled sound (.run s source name) rfl run control stack ends
        | runFile _ path =>
            cases subject
            exact compiled sound (.runFile s path) rfl run control stack ends
        | callByName _ keys arguments =>
            cases subject
            exact resolved sound rfl run control stack ends
  | @runs w t chunk allowed quiet accepted session course =>
      have loud := (quiet.trans (quiet_kept sound allowed run).symm).mp
      rcases course.next trivial (fun _ _ h => by cases h) rfl (fun _ => session ▸ loud) next
        with course | ⟨⟨o, control⟩, stack, rfl⟩
      · exact .runs allowed quiet accepted session course
      · have ends := course.ends control stack
        have halted : d.step.control = .outcome o ∧ d.step.stack = c.stack := by
          simp only [Config.step, control, outcomeStep, stack, ran]
          split <;> exact ⟨rfl, rfl⟩
        refine .ended o halted.1 halted.2 fun t' threw => ?_
        rcases ends.thrown t' threw with ⟨fault, refused, -⟩ | ⟨-, loud⟩
        · have claims : (.runChunk t chunk : Operation σ).claims = [] := rfl
          rw [World.refusal?_of_no_claims _ accepted claims] at refused
          cases refused
        · exact .inr ⟨allowed, fun silent => loud (session ▸ quiet.mpr silent)⟩
  | @calls e keys arguments ref allowed quiet is resolves course =>
      have loud := (quiet.trans (quiet_kept sound allowed run).symm).mp
      rcases course.next trivial (fun _ _ h => by cases h) rfl (fun _ => loud) next
        with course | ⟨⟨o, control⟩, stack, rfl⟩
      · exact .calls allowed quiet is resolves course
      · have ends := course.ends control stack
        have step : d.step = ⟨d.world.release (.reference ref), .outcome o, c.stack⟩ := by
          simp only [Config.step, control, outcomeStep, stack, ending]
        rw [step]
        refine .ended o rfl rfl fun t' threw => ?_
        rcases ends.thrown t' threw with refuses | ⟨-, loud⟩
        · exact .inl (.inr ⟨keys, arguments, e, ref, d.world, is, allowed, resolves, refuses, .refl _⟩)
        · exact .inr ⟨allowed, fun silent => loud (quiet.mpr silent)⟩
  | ended o control stack throwing =>
      cases next with
      | surroundings directory memory =>
          exact .ended o control stack (throwing.beside ((World.Beside.refl _).surroundings directory memory))
      | step =>
          obtain ⟨r, halted⟩ := finished_of_kept control (stack ▸ kept)
          exact .finished r halted
  | finished r control =>
      cases next with
      | surroundings directory memory => exact .finished r control
      | step => exact .finished r (by simp only [Config.step, control])

/-- Where the outcome of an operation is there, it is known how it can have been thrown. -/
theorem throwing {o : Outcome} (progress : Progress c s op d) (control : d.control = .outcome o)
    (back : d.stack = c.stack) : Throwing c s op o d.world := by
  have not_above {w t op' f} (course : Course w t op' (f :: c.stack) d) : False :=
    not_cons_suffix c.stack (back ▸ course.above control)
  cases progress with
  | whole h course => exact .of_ends (course.ends control back)
  | asked _ control' => exact nomatch control.symm.trans control'
  | first h course => exact (not_above course).elim
  | runs _ _ _ _ course => exact (not_above course).elim
  | calls _ _ _ _ course => exact (not_above course).elim
  | ended o' control' _ throwing =>
      obtain rfl := Control.outcome.inj (control.symm.trans control')
      exact throwing
  | finished r control' => exact nomatch control.symm.trans control'

end Progress

/-- How an operation throws, whatever the guest, the host functions and the hooks do on the way. -/
theorem Run.throwing {o : Outcome} (sound : c.posture.Sound) (control : c.control = .perform op)
    (reports : op.Reports) (subject : op.subject? = some s) (run : Run c.stack c c')
    (ended : c'.control = .outcome o) (back : c'.stack = c.stack) :
    Throwing c s op o c'.world := by
  have progress : Progress c s op c' := by
    clear ended back
    induction run with
    | refl =>
        by_cases h : ∀ op' f, ¬ op.Begins op' f
        · exact .whole h (.asked (.inl control) rfl (.refl _))
        · simp only [not_forall, not_not] at h
          obtain ⟨op', f, begins⟩ := h
          exact .asked begins control rfl (.refl _)
    | tail before next ih => exact ih.next sound reports subject before next.1 next.2
  exact progress.throwing ended back

end Config

end LuaHost
