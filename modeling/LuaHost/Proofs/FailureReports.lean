import LuaHost.Proofs.Tidings
import Mathlib
/-!
Each failure is reported exactly once. Operations are made of others, and are performed by host functions that
guests call for operations; whichever part of an operation fails, it alone tells the failure, and all that it passes
through hands it on in silence. So the failures that a host has been told are those that operations have ended
with, in the order in which they ended.
-/

namespace LuaHost

variable {σ : Type}

/-- A journal of the failures that are reported. -/
def failureJournal (read : σ → List Failure) : Journal σ Failure where
  read := read
  notes
    | .failed f => [f]
    | _ => []

/-- That a value cannot be decoded is not reported. -/
def Operation.Tells (op : Operation σ) : Prop := ∀ value decoder, op ≠ .decode value decoder

/-- The failure that an operation reports itself. -/
def Operation.reported : Operation σ × Outcome → List Failure
  | (.decode _ _, _) => []
  | (_, o) => o.failure?.toList

theorem Operation.Tells.reported {op : Operation σ} (tells : op.Tells) (o : Outcome) :
    Operation.reported (op, o) = o.failure?.toList := by
  cases op with
  | decode value decoder => exact absurd rfl (tells value decoder)
  | _ => rfl

/-- The operations that host code performs: those under way, the innermost first, and those that have ended, in the
order in which they did. -/
structure Performances (σ : Type) where
  underway : List (Operation σ) := []
  ended : List (Operation σ × Outcome) := []

/-- In the next step host code performs an operation, or is given the outcome of one, or neither. -/
def Performances.after (p : Performances σ) (c : Config σ) : Performances σ :=
  match c.control, c.stack, p.underway with
  | .client (.perform op _), _, ops => { p with underway := op :: ops }
  | .outcome o, .perform _ :: _, op :: ops => ⟨ops, p.ended ++ [(op, o)]⟩
  | _, _, _ => p

namespace Config
variable {c d : Config σ} {T : List (Pending σ)}

/-- The runs within a stack in which the host's surroundings leave the journal alone, with the operations that are
performed in them. -/
inductive Performs {ε : Type} (j : Journal σ ε) (T : List (Pending σ)) (c : Config σ) (first : Performances σ) :
    Config σ → Performances σ → Prop
  | refl : Performs j T c first c first
  | step {d : Config σ} {p : Performances σ} (before : Performs j T c first d p)
      (within : T <:+ d.step.stack) : Performs j T c first d.step (p.after d)
  | surroundings {d : Config σ} {p : Performances σ} (before : Performs j T c first d p)
      (within : T <:+ d.stack) (directory : Directory) (memory : σ)
      (spared : j.read memory = j.read d.world.memory) :
      Performs j T c first { d with world := { d.world with directory, memory } } p

theorem Performs.run {ε : Type} {j : Journal σ ε} {first p : Performances σ}
    (performs : Performs j T c first d p) : Run T c d := by
  induction performs with
  | refl => exact .refl
  | step _ within ih => exact .tail ih ⟨.step _, within⟩
  | surroundings _ within directory memory _ ih => exact .tail ih ⟨.surroundings _ directory memory, within⟩

end Config

/-! ### What waits for which operation -/

/-- The operations under way are those that host code on the stack waits for, above the stack from which they have
been performed. Parts of operations wait only for those that tell their failures. -/
inductive Awaits (first : List (Operation σ)) (bottom : List (Pending σ)) :
    List (Operation σ) → List (Pending σ) → Prop
  | base (tells : (∀ k R, bottom ≠ .perform k :: R) → ∀ op ∈ first.head?, op.Tells) : Awaits first bottom first bottom
  | perform {ops : List (Operation σ)} {T : List (Pending σ)} (op k) (below : Awaits first bottom ops T) :
      Awaits first bottom (op :: ops) (.perform k :: T)
  | part {ops : List (Operation σ)} {T : List (Pending σ)} {f : Pending σ} (other : ∀ k, f ≠ .perform k)
      (tells : ∀ op ∈ ops.head?, op.Tells) (below : Awaits first bottom ops T) : Awaits first bottom ops (f :: T)

namespace Awaits
variable {first ops : List (Operation σ)} {bottom T : List (Pending σ)} {f g : Pending σ}

theorem suffix (awaits : Awaits first bottom ops T) : bottom <:+ T := by
  induction awaits with
  | base => exact List.suffix_refl _
  | perform | part => exact List.IsSuffix.trans (by assumption) (List.suffix_cons _ _)

theorem tells (awaits : Awaits first bottom ops T) (other : ∀ k R, T ≠ .perform k :: R) :
    ∀ op ∈ ops.head?, op.Tells := by
  cases awaits with
  | base tells => exact tells other
  | perform op k => exact absurd rfl (other k _)
  | part _ tells => exact tells

theorem push (awaits : Awaits first bottom ops T) (other : ∀ k, f ≠ .perform k)
    (tells : ∀ op ∈ ops.head?, op.Tells) : Awaits first bottom ops (f :: T) :=
  .part other tells awaits

theorem pop (awaits : Awaits first bottom ops (f :: T)) (other : ∀ k, f ≠ .perform k) (within : bottom <:+ T) :
    Awaits first bottom ops T := by
  cases awaits with
  | base => exact absurd within (not_cons_suffix T)
  | perform op k => exact absurd rfl (other k)
  | part _ _ below => exact below

/-- A part of an operation goes on to the next one. -/
theorem replace (awaits : Awaits first bottom ops (f :: T)) (other : ∀ k, f ≠ .perform k)
    (next : ∀ k, g ≠ .perform k) (within : bottom <:+ g :: T) : Awaits first bottom ops (g :: T) := by
  cases awaits with
  | base tells =>
      have same : f :: T = g :: T := within.eq_of_length (by simp)
      exact same ▸ .base tells
  | perform op k => exact absurd rfl (other k)
  | part _ tells below => exact .part next tells below

/-- The operation whose outcome host code is given. -/
theorem ended {k : Outcome → Client σ} (awaits : Awaits first bottom ops (.perform k :: T))
    (within : bottom <:+ T) : ∃ op rest, ops = op :: rest ∧ Awaits first bottom rest T := by
  cases awaits with
  | base => exact absurd within (not_cons_suffix T)
  | perform op _ below => exact ⟨op, _, rfl, below⟩
  | part other => exact absurd rfl (other k)

/-- At the stack from which operations have been performed the first ones are under way again. -/
theorem back (awaits : Awaits first bottom ops T) (same : T = bottom) : ops = first := by
  cases awaits with
  | base => rfl
  | perform op k below => exact absurd (same ▸ below.suffix) (not_cons_suffix _)
  | part _ _ below => exact absurd (same ▸ below.suffix) (not_cons_suffix _)

end Awaits

/-- The operation that is performed next, now or when a file is known. -/
def Control.performing? : Control σ → Option (Operation σ)
  | .perform op => some op
  | .lacking _ next => next.performing?
  | _ => none

/-- The operations under way are known, and the one that host code performs is the innermost. -/
structure Posture.Performing (first : List (Operation σ)) (bottom : List (Pending σ)) (p : Posture σ)
    (ops : List (Operation σ)) : Prop where
  awaits : Awaits first bottom ops p.stack
  performs : ∀ op, p.control.performing? = some op → ∀ k R, p.stack = .perform k :: R → ops.head? = some op

section Moves
variable {first ops : List (Operation σ)} {bottom : List (Pending σ)} {p q : Posture σ}

/-- Whatever waits for an operation, the operation under way tells its failures if this one does. -/
theorem Posture.Performing.tells {S : Standing σ} {op : Operation σ} {T : List (Pending σ)}
    (performing : Performing first bottom ⟨S, .perform op, T⟩ ops) (tells : op.Tells) :
    ∀ op ∈ ops.head?, op.Tells := by
  by_cases performs : ∃ k R, T = .perform k :: R
  · obtain ⟨k, R, rfl⟩ := performs
    intro op' mem
    have same := performing.performs op rfl k R rfl
    obtain rfl : op = op' := by simpa [same] using mem
    exact tells
  · exact performing.awaits.tells fun k R same => performs ⟨k, R, same⟩

/-- Neither does host code perform an operation, nor is it given an outcome: the same operations are under way. -/
theorem Move.performing (m : Move p q) (proper : p.Proper) (performing : p.Performing first bottom ops)
    (within : bottom <:+ q.stack) (asks : ∀ op k, p.control ≠ .client (.perform op k))
    (resumes : ∀ o k R, p.control = .outcome o → p.stack ≠ .perform k :: R) :
    q.Performing first bottom ops := by
  have known := performing.awaits
  -- where no operation is performed next, only what waits is of interest
  have waiting {S : Standing σ} {control : Control σ} {T : List (Pending σ)}
      (awaits : Awaits first bottom ops T) (none : control.performing? = none) :
      Posture.Performing first bottom ⟨S, control, T⟩ ops :=
    ⟨awaits, fun op performs => nomatch none.symm.trans performs⟩
  have part {S : Standing σ} {control : Control σ} {f : Pending σ} {T : List (Pending σ)}
      (awaits : Awaits first bottom ops (f :: T)) (other : ∀ k, f ≠ .perform k) :
      Posture.Performing first bottom ⟨S, control, f :: T⟩ ops :=
    ⟨awaits, fun op _ k R same => absurd (List.cons.inj same).1 (other k)⟩
  cases m with
  | idle => exact performing
  | works | guestWaits | finishes | fails | ends | closes | opens | succeeds => exact waiting known rfl
  | loadWaits | proceeds => exact ⟨known, performing.performs⟩
  | performs S op k T => exact absurd rfl (asks op k)
  | resumes S o k T => exact absurd rfl (resumes o k T rfl)
  | begins S op op' f T h =>
      have tells : op.Tells := by cases h <;> exact fun _ _ same => nomatch same
      have other : ∀ k, f ≠ .perform k := by cases h <;> exact fun _ same => nomatch same
      exact part (known.push other (performing.tells tells)) other
  | enters S op s purpose T h =>
      have tells : op.Tells := by cases h <;> exact fun _ _ same => nomatch same
      exact waiting (known.push (fun _ same => nomatch same) (performing.tells tells)) rfl
  | builds S s entries k table value T =>
      have tells : (Operation.encodeTable s entries).Tells := fun _ _ same => nomatch same
      exact waiting (known.push (fun _ same => nomatch same) (performing.tells tells)) rfl
  | calls S session name k T =>
      have fits : Control.Fits (.guest session) T := proper.control
      cases fits with
      | guest => exact waiting (known.push (fun _ same => nomatch same) (known.tells fun _ _ same => nomatch same)) rfl
  | answers | guestFails | guestTells | guestReturns | built | abandonsKey | abandonsValue | settles
  | refusesTarget =>
      exact waiting (known.pop (fun _ same => nomatch same) within) rfl
  | gotKey | gotValue =>
      exact waiting (known.replace (fun _ same => nomatch same) (fun _ same => nomatch same) within) rfl
  | handsOn S o f T h =>
      have other : ∀ k, f ≠ .perform k := by cases h <;> exact fun _ same => nomatch same
      exact waiting (known.pop other within) rfl
  | runs | callsTarget =>
      exact part (known.replace (fun _ same => nomatch same) (fun _ same => nomatch same) within)
        fun _ same => nomatch same

end Moves

namespace Performances
variable {p : Performances σ} {control : Control σ}

/-- What the operation under way has reported when it has come to its outcome. -/
def due (p : Performances σ) : Control σ → List Failure
  | .outcome o =>
    match p.underway with
    | op :: _ => Operation.reported (op, o)
    | [] => o.failure?.toList
  | _ => []

/-- All failures that have been reported. -/
def reports (p : Performances σ) (control : Control σ) : List Failure :=
  p.ended.flatMap Operation.reported ++ p.due control

theorem due_of_tells (tells : ∀ op ∈ p.underway.head?, op.Tells) :
    p.due control = control.failure?.toList := by
  cases control with
  | outcome o =>
      rw [due]
      split
      · next op ops underway =>
          rw [underway] at tells
          exact (tells op rfl).reported o
      · rfl
  | _ => rfl

theorem due_nil (well : control.failure? = none) : p.due control = [] := by
  cases control with
  | outcome o =>
      have none : o.failure? = none := well
      rw [due]
      split
      · next op _ _ => cases op <;> simp [Operation.reported, none]
      · simp [none]
  | _ => rfl

end Performances

namespace Config
variable {read : σ → List Failure} {first : List (Operation σ)} {bottom T : List (Pending σ)}
  {p : Performances σ} {c d : Config σ}

theorem flatMap_failed (fs : List Failure) :
    (fs.map Event.failed).flatMap (failureJournal read).notes = fs := by
  rw [List.flatMap_map]
  exact List.flatMap_singleton' fs

/-- The operations that are under way after a step. -/
theorem step_performing (reachable : Reachable d)
    (performing : d.posture.Performing first bottom p.underway) (within : bottom <:+ d.step.stack) :
    d.step.posture.Performing first bottom (p.after d).underway := by
  have move := d.step_move
  have proper := reachable.proper
  obtain ⟨w, control, T⟩ := d
  have waiting {q : Posture σ} (move : Move (posture ⟨w, control, T⟩) q) (within : bottom <:+ q.stack)
      (same : p.after ⟨w, control, T⟩ = p)
      (asks : ∀ op k, control ≠ .client (.perform op k))
      (resumes : ∀ o k R, control = .outcome o → T ≠ .perform k :: R) :
      q.Performing first bottom (p.after ⟨w, control, T⟩).underway := by
    rw [same]
    exact move.performing proper performing within asks resumes
  cases control with
  | client k =>
      cases k with
      | perform op k =>
          refine ⟨.perform op k performing.awaits, fun op' performs k' R same => ?_⟩
          exact performs
      | done | throw | access | identity =>
          exact waiting move within rfl (fun _ _ same => nomatch same) fun _ _ _ same => nomatch same
  | outcome o =>
      by_cases resumes : ∃ k R, T = .perform k :: R
      · obtain ⟨k, R, rfl⟩ := resumes
        obtain ⟨op, rest, underway, below⟩ := performing.awaits.ended within
        have after : (p.after ⟨w, .outcome o, .perform k :: R⟩).underway = rest := by
          simp only [Performances.after, underway]
        rw [after]
        exact ⟨below, fun _ performs => nomatch performs⟩
      · have same : p.after ⟨w, .outcome o, T⟩ = p := by
          rw [Performances.after]
          split
          · next same _ => exact nomatch same
          · next waits _ => exact absurd ⟨_, _, waits⟩ resumes
          · rfl
        exact waiting move within same (fun _ _ same => nomatch same)
          fun o k R _ same => resumes ⟨k, R, same⟩
  | perform | guest | lacking | finished =>
      exact waiting move within rfl (fun _ _ same => nomatch same) fun _ _ _ same => nomatch same

/-- Nothing but failures is noted. -/
theorem announced_unnoted (w : World σ) (session : Nat) (signal : Option Guest.Signal) :
    (announced w session signal).flatMap (failureJournal read).notes = [] := by
  rw [announced.eq_def]
  split
  · split <;> rfl
  · rfl
  · rfl

theorem returning_unnoted (c : Config σ) (state : State) (items : List Item) :
    (c.returning state items).flatMap (failureJournal read).notes = [] := by
  rw [returning.eq_def]
  split
  · split <;> rfl
  · rfl

/-- A failure is handed on to whatever waits for it. -/
theorem handed_on {f : Failure} (reachable : Reachable d) (control : d.control = .outcome (.err f))
    (part : ∀ k R, d.stack ≠ .perform k :: R) : d.step.control = .outcome (.err f) := by
  have fits := reachable.proper.control
  obtain ⟨w, _, T⟩ := d
  cases control
  have fits : Control.Fits (.outcome (.err f)) T := fits
  cases fits with
  | outcome _ _ awaits =>
      obtain _ | ⟨g, T⟩ := T
      · exact awaits.elim
      · cases g with
        | perform k => exact absurd rfl (part k T)
        | compiled | ran | resolved | called => rfl
        | body | guest | key | value => exact awaits.elim

/-- What a step tells is what the operations under way have reported in it. -/
def Accords (read : σ → List Failure) (p : Performances σ) (d : Config σ) : Prop :=
  p.reports d.control ++ d.tidings.flatMap (failureJournal read).notes = (p.after d).reports d.step.control

/-- Nothing ends. -/
theorem Accords.quiet (ended : (p.after d).ended = p.ended) (before : d.control.failure? = none)
    (after : d.step.control.failure? = none)
    (silent : d.tidings.flatMap (failureJournal read).notes = []) : Accords read p d := by
  rw [Accords, silent, Performances.reports, Performances.reports, ended, Performances.due_nil before,
    Performances.due_nil after, List.append_nil]

/-- A part of an operation that tells its failures goes on, or comes to an end. -/
theorem Accords.telling (same : p.after d = p) (before : d.control.failure? = none)
    (tells : ∀ op ∈ p.underway.head?, op.Tells)
    (told : d.tidings.flatMap (failureJournal read).notes = d.step.control.failure?.toList) :
    Accords read p d := by
  rw [Accords, same, told, Performances.reports, Performances.reports, Performances.due_nil before,
    Performances.due_of_tells tells, List.append_nil]

theorem told_failures (c : Config σ) :
    c.told.flatMap (failureJournal read).notes = c.control.failure?.toList :=
  flatMap_failed _

theorem client_accords {k : Client σ} (control : d.control = .client k) : Accords read p d := by
  have step : d.step = d.clientStep k := by simp only [Config.step, control]
  have quiet : d.step.control.failure? = none := by
    have nothing := clientStep_told d k
    rw [← step, told] at nothing
    simpa using nothing
  refine .quiet ?_ (by rw [control]; rfl) quiet ?_
  · rw [Performances.after, control]
    cases k <;> rfl
  · rw [tidings, control]
    cases k with
    | done state items => exact returning_unnoted d state items
    | throw | access | identity | perform => rfl

theorem perform_accords {op : Operation σ} (reachable : Reachable d) (control : d.control = .perform op)
    (performing : d.posture.Performing first bottom p.underway) : Accords read p d := by
  have fits := reachable.proper.control
  obtain ⟨w, _, T⟩ := d
  cases control
  have fits : Control.Fits (.perform op) T := fits
  have telling (tells : op.Tells) (told : tidings ⟨w, .perform op, T⟩ = (step ⟨w, .perform op, T⟩).told) :
      Accords read p ⟨w, .perform op, T⟩ := by
    refine .telling rfl rfl (performing.tells tells) ?_
    rw [told, told_failures]
  cases op with
  | decode value decoder =>
      cases fits with
      | perform _ _ fits =>
          cases fits with
          | compiled _ _ _ compiles => exact compiles.elim
          | perform _ k R =>
              have underway := performing.performs _ rfl k R rfl
              obtain ⟨rest, same⟩ := List.head?_eq_some_iff.mp underway
              have due (o : Outcome) : p.due (.outcome o : Control σ) = [] := by
                rw [Performances.due, same]
                rfl
              have after : p.reports (step ⟨w, .perform (.decode value decoder), .perform k :: R⟩).control =
                  p.ended.flatMap Operation.reported := by
                rw [Performances.reports]
                exact (congrArg _ (due _)).trans (List.append_nil _)
              have before : p.reports (.perform (.decode value decoder)) = p.ended.flatMap Operation.reported :=
                List.append_nil _
              exact (List.append_nil _).trans (before.trans after.symm)
  | _ => exact telling (fun _ _ same => nomatch same) rfl

theorem guest_accords {session : Nat} (reachable : Reachable d) (control : d.control = .guest session)
    (performing : d.posture.Performing first bottom p.underway) : Accords read p d := by
  have fits := reachable.proper.control
  obtain ⟨w, _, T⟩ := d
  cases control
  have fits : Control.Fits (.guest session) T := fits
  cases fits with
  | guest entry purpose R =>
      have tells := performing.awaits.tells fun _ _ same => nomatch same
      refine .telling rfl rfl tells ?_
      have unnoted (signal : Option Guest.Signal) :
          (announced (w.modifyMachine entry.session (·.run portion)) entry.session signal).flatMap
            (failureJournal read).notes = [] :=
        announced_unnoted _ _ signal
      simp only [tidings, List.flatMap_append, unnoted, List.nil_append]
      exact told_failures _

/-- Host code is given the outcome of the operation under way. -/
theorem resumed_accords {o : Outcome} {k : Outcome → Client σ} {w : World σ}
    (performing : Posture.Performing first bottom (posture ⟨w, .outcome o, .perform k :: T⟩) p.underway)
    (within : bottom <:+ T) : Accords read p ⟨w, .outcome o, .perform k :: T⟩ := by
  obtain ⟨op, rest, underway, -⟩ := performing.awaits.ended within
  have after : p.after ⟨w, .outcome o, .perform k :: T⟩ = ⟨rest, p.ended ++ [(op, o)]⟩ := by
    simp only [Performances.after, underway]
  have silent : (tidings ⟨w, .outcome o, .perform k :: T⟩).flatMap (failureJournal read).notes = [] := by
    cases o <;> rfl
  have going : (step ⟨w, .outcome o, .perform k :: T⟩).control = .client (k o) := rfl
  have due : p.due (.outcome o : Control σ) = Operation.reported (op, o) := by
    simp only [Performances.due, underway]
  have none : Performances.due ⟨rest, p.ended ++ [(op, o)]⟩ (.client (k o)) = [] := rfl
  rw [Accords, silent, after, going]
  simp [Performances.reports, due, none]

theorem outcome_accords {o : Outcome} (reachable : Reachable d) (control : d.control = .outcome o)
    (performing : d.posture.Performing first bottom p.underway) (within : bottom <:+ d.step.stack) :
    Accords read p d := by
  by_cases resumes : ∃ k R, d.stack = .perform k :: R
  · obtain ⟨k, R, waits⟩ := resumes
    obtain ⟨w, _, _⟩ := d
    cases control
    cases waits
    exact resumed_accords performing within
  · have part : ∀ k R, d.stack ≠ .perform k :: R := fun k R same => resumes ⟨k, R, same⟩
    have same : p.after d = p := by
      rw [Performances.after, control]
      split
      · next same _ => exact nomatch same
      · next waits _ => exact absurd waits (part _ _)
      · rfl
    cases o with
    | err f =>
        have handed := handed_on reachable control part
        have silent : d.tidings = [] := by rw [tidings, control]
        rw [Accords, silent, same, handed, control]
        exact List.append_nil _
    | ok | threw =>
        refine .telling same (by rw [control]; rfl) (performing.awaits.tells part) ?_
        rw [tidings, control]
        exact told_failures _

/-- What a step tells has been reported by the operation that it ends, and by no other. -/
theorem step_accords (reachable : Reachable d) (performing : d.posture.Performing first bottom p.underway)
    (within : bottom <:+ d.step.stack) : Accords read p d := by
  cases control : d.control with
  | client k => exact client_accords control
  | perform op => exact perform_accords reachable control performing
  | outcome o => exact outcome_accords reachable control performing within
  | guest session => exact guest_accords reachable control performing
  | lacking path next =>
      have going : next.failure? = none := by
        rcases reachable.sound.waits path next control with ⟨session, rfl⟩ | ⟨s, file, rfl⟩ <;> rfl
      refine .quiet ?_ ?_ ?_ ?_
      · rw [Performances.after, control]
      · rw [control]
        rfl
      · simp only [step, control]
        split
        · rw [control]
          rfl
        · exact going
      · rw [tidings, control]
        rfl
  | finished r =>
      have stays : d.step = d := by simp only [step, control]
      refine .quiet ?_ ?_ ?_ ?_
      · rw [Performances.after, control]
      · rw [control]
        rfl
      · rw [stays, control]
        rfl
      · rw [tidings, control]
        rfl

/-! ### Runs -/

/-- Over a run the journal grows by what the operations report. -/
theorem Performs.reports {start : Performances σ} (performs : Performs (failureJournal read) bottom c start d p)
    (reachable : Reachable c) (respects : c.Respects (failureJournal read))
    (performing : c.posture.Performing start.underway bottom start.underway) (none : start.ended = [])
    (due : start.due c.control = []) :
    d.posture.Performing start.underway bottom p.underway ∧ d.Respects (failureJournal read) ∧
      read d.world.memory = read c.world.memory ++ p.reports d.control := by
  induction performs with
  | refl => exact ⟨performing, respects, by simp [Performances.reports, none, due]⟩
  | @step d p before within ih =>
      obtain ⟨performing, respects, written⟩ := ih
      have there := reachable.run before.run
      have told := respects.step there
      refine ⟨step_performing there performing within, told.respects, ?_⟩
      have accords : Accords read p d := step_accords there performing within
      rw [← accords, ← List.append_assoc, ← written]
      exact told.journal
  | @surroundings d p before within directory memory spared ih =>
      obtain ⟨performing, respects, written⟩ := ih
      refine ⟨⟨performing.awaits, performing.performs⟩, ⟨respects.world, respects.control, respects.stack⟩, ?_⟩
      exact spared.trans written

/-- So many steps, with the operations that are performed in them. -/
def observed (first : Performances σ) (n : Nat) (c : Config σ) : Config σ × Performances σ :=
  (fun x => (x.1.step, x.2.after x.1))^[n] (c, first)

end Config

end LuaHost
