import LuaHost.Proofs.Moves
import Mathlib.Logic.Function.Iterate
import Mathlib.Logic.Relation
/-!
Runs of host code, and what holds of every posture on the way. A run within a stack is one in which
everything on it goes on waiting, so that it is what the part on top of the stack does.
-/

namespace LuaHost

variable {σ : Type}

theorem not_cons_suffix {f : Pending σ} (T : List (Pending σ)) : ¬ (f :: T) <:+ T := by
  intro h
  have longer := h.length_le
  simp only [List.length_cons] at longer
  omega

/-- An outcome whose whole stack goes on waiting is not taken up. -/
theorem Move.outcome_kept {S : Standing σ} {o : Outcome} {T : List (Pending σ)} {q : Posture σ}
    (m : Move ⟨S, .outcome o, T⟩ q) (kept : T <:+ q.stack) :
    q = ⟨S, .outcome o, T⟩ ∨ ∃ r, q = ⟨S, .finished r, T⟩ := by
  cases m with
  | idle => exact .inl rfl
  | finishes _ _ r => exact .inr ⟨r, rfl⟩
  | resumes | handsOn | settles | refusesTarget => exact absurd kept (not_cons_suffix _)
  | runs | callsTarget =>
      exact absurd (List.suffix_cons_iff.mp kept) (by simp [not_cons_suffix])

/-- What is waiting goes on waiting while an operation is performed. -/
theorem Move.perform_keeps {S : Standing σ} {op : Operation σ} {T : List (Pending σ)} {q : Posture σ}
    (m : Move ⟨S, .perform op, T⟩ q) : T <:+ q.stack := by
  cases m with
  | begins | enters | builds => exact List.suffix_cons _ _
  | _ => exact List.suffix_refl _

namespace Config

/-- A step, or a change of what surrounds the sessions: a file is found, or the host works on its
memory. -/
inductive Next : Config σ → Config σ → Prop
  | step (c) : Next c c.step
  | surroundings (c : Config σ) (directory : Directory) (memory : σ) :
      Next c { c with world := { c.world with directory, memory } }

/-- The runs in which all of a stack goes on waiting. -/
def Run (T : List (Pending σ)) : Config σ → Config σ → Prop :=
  Relation.ReflTransGen fun c d => Next c d ∧ T <:+ d.stack

/-- What host code can come to that starts without sessions. -/
def Reachable (c : Config σ) : Prop :=
  ∃ client directory memory, Run [] (start { directory, memory } client) c

end Config

namespace Posture

def Run (T : List (Pending σ)) : Posture σ → Posture σ → Prop :=
  Relation.ReflTransGen fun p q => Move p q ∧ T <:+ q.stack

end Posture

namespace Config

theorem Next.move {c d : Config σ} (h : Next c d) : Move c.posture d.posture := by
  cases h with
  | step => exact c.step_move
  | surroundings directory memory => exact .idle _

theorem Run.posture {T : List (Pending σ)} {c d : Config σ} (run : Run T c d) :
    Posture.Run T c.posture d.posture := by
  induction run with
  | refl => exact .refl
  | tail _ next ih => exact .tail ih ⟨next.1.move, next.2⟩

theorem Run.within_nil {T : List (Pending σ)} {c d : Config σ} (run : Run T c d) : Run [] c d := by
  induction run with
  | refl => exact .refl
  | tail _ next ih => exact .tail ih ⟨next.1, List.nil_suffix⟩

theorem Run.suffix {T : List (Pending σ)} {c d : Config σ} (run : Run T c d) (kept : T <:+ c.stack) :
    T <:+ d.stack := by
  cases run with
  | refl => exact kept
  | tail _ next => exact next.2

theorem run_steps (c : Config σ) (n : Nat) : Run [] c (step^[n] c) := by
  induction n with
  | zero => exact .refl
  | succ n ih =>
      rw [Function.iterate_succ_apply']
      exact .tail ih ⟨.step _, List.nil_suffix⟩

/-- All of a stack goes on waiting for so many steps. -/
def KeepsWaiting (T : List (Pending σ)) : Nat → Config σ → Prop
  | 0, _ => True
  | n + 1, c => T = c.step.stack.drop (c.step.stack.length - T.length) ∧ KeepsWaiting T n c.step

theorem KeepsWaiting.run {T : List (Pending σ)} {n : Nat} {c : Config σ}
    (h : KeepsWaiting T n c) : Run T c (step^[n] c) := by
  induction n generalizing c with
  | zero => exact .refl
  | succ n ih =>
      rw [Function.iterate_succ_apply]
      exact .head ⟨.step c, List.suffix_iff_eq_drop.mpr h.1⟩ (ih h.2)

end Config

namespace Standing
variable {S : Standing σ}

/-- No session's head is ahead of what it has issued. -/
structure Sound (S : Standing σ) : Prop where
  sessions : S.lineages.size = S.callbacks.size
  heads : ∀ session, (S.lineage session).head ≤ (S.lineage session).issued

theorem Accepts.session_lt {s : State} (h : S.Accepts s) : s.session < S.lineages.size := by
  rcases Nat.lt_or_ge s.session S.lineages.size with opened | missing
  · exact opened
  · have closed := h.1
    simp [S.lineage_missing missing] at closed

theorem Accepts.issued (sound : S.Sound) {s : State} (h : S.Accepts s) : S.Issued s := by
  refine ⟨h.session_lt, ?_⟩
  have heads := sound.heads s.session
  rwa [← congrArg State.generation h.2]

/-- What becomes of the sessions in one move. -/
inductive Shift (S : Standing σ) (revived : State → Prop) : Standing σ → Prop
  | same : Shift S revived S
  | advance (session) : Shift S revived (S.advance session)
  | restore (s) (h : revived s) : Shift S revived (S.restore s)
  | renew (s) (h : revived s) : Shift S revived ((S.restore s).advance s.session)
  | close (session) : Shift S revived (S.close session)
  | openSession (callbacks) : Shift S revived (S.openSession callbacks)

end Standing

namespace Standing
variable {S S' : Standing σ} {revived : State → Prop}

theorem Shift.size_le (h : S.Shift revived S') : S.lineages.size ≤ S'.lineages.size := by
  cases h with
  | same => exact Nat.le_refl _
  | _ => simp

/-- What has been issued stays issued. -/
theorem Shift.issued (h : S.Shift revived S') {s : State} (issued : S.Issued s) :
    S'.Issued s := by
  refine ⟨Nat.lt_of_lt_of_le issued.1 h.size_le, Nat.le_trans issued.2 ?_⟩
  cases h with
  | same => exact Nat.le_refl _
  | advance session =>
      rw [advance_lineage]
      split <;> simp [Lineage.advance]
  | restore t =>
      rw [restore_lineage]
      split <;> simp [Lineage.restore]
  | renew t =>
      rw [renew_lineage]
      split <;> simp [Lineage.advance, Lineage.restore]
  | close session =>
      rw [close_lineage]
      split <;> simp [Lineage.close]
  | openSession callbacks =>
      exact Nat.le_of_eq (by rw [S.openSession_lineage callbacks issued.1])

theorem Issued.advance {s : State} (h : S.Issued s) (session : Nat) :
    (S.advance session).Issued s :=
  (@Shift.advance σ S (fun _ => False) session).issued h

theorem Issued.restore {s : State} (h : S.Issued s) (t : State) : (S.restore t).Issued s :=
  (@Shift.restore σ S (fun _ => True) t trivial).issued h

/-- A session that is closed stays closed. -/
theorem Shift.closed (h : S.Shift revived S') {session : Nat}
    (opened : session < S.lineages.size) (closed : (S.lineage session).closed = true) :
    (S'.lineage session).closed = true := by
  cases h with
  | same => exact closed
  | advance other =>
      rw [advance_lineage]
      split <;> simpa [Lineage.advance] using closed
  | restore t =>
      rw [restore_lineage]
      split <;> simpa [Lineage.restore] using closed
  | renew t =>
      rw [renew_lineage]
      split <;> simpa [Lineage.advance, Lineage.restore] using closed
  | close other =>
      rw [close_lineage]
      split <;> simp [Lineage.close, closed]
  | openSession callbacks => rwa [S.openSession_lineage callbacks opened]

/-- A head has been the head before, or is revived, or is new. -/
theorem Shift.head (h : S.Shift revived S') {s : State} (head : S'.head s.session = s)
    (issued : S.Issued s) : S.head s.session = s ∨ revived s := by
  have generation := congrArg State.generation head
  simp only [Standing.head] at generation
  have old : (S.lineage s.session).head = s.generation → S.head s.session = s :=
    fun same => by simp [Standing.head, same]
  cases h with
  | same => exact .inl head
  | advance session =>
      rw [advance_lineage] at generation
      split at generation
      · have fresh := issued.2
        simp only [Lineage.advance] at generation
        omega
      · exact .inl (old generation)
  | restore t revives =>
      rw [restore_lineage] at generation
      split at generation
      · next same =>
          have : t = s := by
            cases t
            cases s
            simp_all [Lineage.restore]
          exact .inr (this ▸ revives)
      · exact .inl (old generation)
  | renew t revives =>
      rw [renew_lineage] at generation
      split at generation
      · have fresh := issued.2
        simp only [Lineage.advance, Lineage.restore] at generation
        omega
      · exact .inl (old generation)
  | close session =>
      rw [close_lineage] at generation
      split at generation
      · exact .inl (old generation)
      · exact .inl (old generation)
  | openSession callbacks =>
      rw [S.openSession_lineage callbacks issued.1] at generation
      exact .inl (old generation)

theorem Shift.sound (h : S.Shift revived S') (sound : S.Sound)
    (issued : ∀ s, revived s → S.Issued s) : S'.Sound := by
  refine ⟨?_, fun session => ?_⟩
  · have sessions := sound.sessions
    cases h with
    | openSession => simp [Standing.openSession, sessions]
    | _ => simpa using sessions
  · have heads := sound.heads session
    cases h with
    | same => exact heads
    | advance other =>
        rw [advance_lineage]
        split
        · exact Nat.le_refl _
        · exact heads
    | restore t revives =>
        rw [restore_lineage]
        split
        · next same =>
            have := (issued t revives).2
            rwa [same.1] at this
        · exact heads
    | renew t revives =>
        rw [renew_lineage]
        split
        · exact Nat.le_refl _
        · exact heads
    | close other =>
        rw [close_lineage]
        split <;> exact heads
    | openSession callbacks =>
        rcases Nat.lt_trichotomy session S.lineages.size with old | rfl | missing
        · rwa [S.openSession_lineage callbacks old]
        · exact Nat.le_of_eq (by rw [S.openSession_lineage_last])
        · have missing' : (S.openSession callbacks).lineages.size ≤ session := by
            simpa using Nat.succ_le_of_lt missing
          exact Nat.le_of_eq (by rw [Standing.lineage_missing _ missing'])

/-- What is issued has not been issued before. -/
theorem advance_fresh (session : Nat) : ¬ S.Issued ((S.advance session).head session) := by
  rintro ⟨opened, issued⟩
  have opened : session < S.lineages.size := opened
  simp only [head, advance_lineage, opened, and_self, ↓reduceIte, Lineage.advance] at issued
  omega

theorem advance_issued {session : Nat} (opened : session < S.lineages.size) :
    (S.advance session).Issued ((S.advance session).head session) := by
  refine ⟨by simpa [head] using opened, ?_⟩
  simp [head, advance_lineage, opened, Lineage.advance]

theorem openSession_fresh (callbacks : Callbacks σ) :
    ¬ S.Issued ((S.openSession callbacks).head S.lineages.size) :=
  fun issued => Nat.lt_irrefl _ issued.1

theorem openSession_issued (callbacks : Callbacks σ) :
    (S.openSession callbacks).Issued ((S.openSession callbacks).head S.lineages.size) := by
  refine ⟨by simp [head], ?_⟩
  simp [head, openSession_lineage_last]

end Standing

/-- A move changes where sessions stand in few ways; a state becomes a head again only if what was on top
of the stack says so. -/
theorem Move.shift {p q : Posture σ} (m : Move p q) :
    p.standing.Shift (fun s => ∃ f T, p.stack = f :: T ∧ q.stack = T ∧ f.revived? = some s)
      q.standing := by
  cases m with
  | closes => exact .close _
  | opens => exact .openSession _
  | succeeds | calls => exact .advance _
  | built => exact .advance _
  | guestFails | guestTells => exact .restore _ ⟨_, _, rfl, rfl, rfl⟩
  | guestReturns => exact .renew _ ⟨_, _, rfl, rfl, rfl⟩
  | abandonsKey | abandonsValue | settles => exact .restore _ ⟨_, _, rfl, rfl, rfl⟩
  | _ => exact .same

/-- What is done while source text is compiled from a state that it is to be run from. -/
inductive Control.CompilesFor (S : Standing σ) (origin : State) : Control σ → Prop
  | asked (op) (h : op.Compiles origin) : CompilesFor S origin (.perform op)
  | waits (path op) (h : op.Compiles origin) : CompilesFor S origin (.lacking path (.perform op))
  | ended (o) (issued : o.IsOk → S.Issued origin) : CompilesFor S origin (.outcome o)
  | finished (r) : CompilesFor S origin (.finished r)

namespace Posture

/-- What holds of every posture in a run: what is to become a head again has been issued, and a state that
comes with an outcome is a head. -/
structure Sound (p : Posture σ) : Prop where
  standing : p.standing.Sound
  revived : ∀ f ∈ p.stack, ∀ s, f.revived? = some s → p.standing.Issued s
  deep : ∀ f ∈ p.stack.tail, ∀ origin, f ≠ .compiled origin
  top : ∀ origin T, p.stack = .compiled origin :: T → p.control.CompilesFor p.standing origin
  waits : ∀ path next, p.control = .lacking path next →
    (∃ session, next = .guest session) ∨ ∃ s path, next = .perform (.loadFile s path)
  gives : ∀ s r, p.control = .outcome (.ok (some s) r) →
    p.standing.Issued s ∧ p.standing.head s.session = s

end Posture

namespace Move
variable {p q : Posture σ}

/-- Only the top of the stack changes. -/
theorem tail_suffix (m : Move p q) : p.stack.tail <:+ q.stack := by
  have same : ∀ T : List (Pending σ), T.tail <:+ T := List.tail_suffix
  cases m with
  | performs | begins | enters | builds | calls =>
      exact (same _).trans (List.suffix_cons _ _)
  | gotKey | gotValue | runs | callsTarget => exact List.suffix_cons _ _
  | resumes | answers | guestFails | guestTells | guestReturns | built | abandonsKey
  | abandonsValue | handsOn | settles | refusesTarget => exact List.suffix_refl _
  | _ => exact same _

theorem standing_sound (m : Move p q) (sound : p.Sound) : q.standing.Sound := by
  refine m.shift.sound sound.standing ?_
  rintro s ⟨f, T, stack, -, revives⟩
  exact sound.revived f (by simp [stack]) s revives

theorem issued (m : Move p q) {s : State} (h : p.standing.Issued s) : q.standing.Issued s :=
  m.shift.issued h

theorem revived_sound (m : Move p q) (sound : p.Sound) :
    ∀ f ∈ q.stack, ∀ s, f.revived? = some s → q.standing.Issued s := by
  have old : ∀ f ∈ p.stack, ∀ s, f.revived? = some s → q.standing.Issued s :=
    fun f mem s revives => m.issued (sound.revived f mem s revives)
  have accepts : ∀ s, p.standing.Accepts s → q.standing.Issued s :=
    fun s accepted => m.issued (accepted.issued sound.standing)
  cases m with
  | performs S op k T => simpa [Pending.revived?] using old
  | begins S op op' f T h => cases h <;> simpa [Pending.revived?] using old
  | enters S op s purpose T h accepted =>
      simpa [Pending.revived?] using ⟨accepts s accepted, old⟩
  | builds S s entries k table value T accepted origin =>
      subst origin
      simpa [Pending.revived?] using ⟨accepts _ accepted, old⟩
  | calls S session name k T => simpa [Pending.revived?] using old
  | gotKey S k k' table value key T => simpa [Pending.revived?] using old
  | gotValue S k k' table table' key value T origin =>
      simpa [Pending.revived?, origin] using old
  | callsTarget S s r state keys arguments target T => simpa [Pending.revived?] using old
  | runs S origin s chunk c T =>
      have compiled := sound.top origin T rfl
      cases compiled with
      | ended o issued =>
          simp only [List.mem_cons, forall_eq_or_imp, Pending.revived?, Option.some.injEq,
            forall_eq']
          exact ⟨issued trivial, fun f mem => old f (List.mem_cons_of_mem _ mem)⟩
  | resumes | answers | guestFails | guestTells | guestReturns | built | abandonsKey
  | abandonsValue | handsOn | settles | refusesTarget =>
      exact fun f mem => old f (List.mem_cons_of_mem _ mem)
  | _ => exact old

theorem deep_sound (m : Move p q) (sound : p.Sound) :
    ∀ f ∈ q.stack.tail, ∀ origin, f ≠ .compiled origin := by
  have deep := sound.deep
  have pushed : ∀ control : Control σ, p.control = control →
      (∀ S origin, ¬ control.CompilesFor S origin) → ∀ f ∈ p.stack, ∀ origin, f ≠ .compiled origin := by
    intro control same other f mem origin isCompiled
    obtain ⟨S, control', stack⟩ := p
    cases stack with
    | nil => simp at mem
    | cons g T =>
        rcases List.mem_cons.mp mem with rfl | mem
        · subst isCompiled
          exact other _ _ (same ▸ sound.top origin T rfl)
        · exact deep f mem origin isCompiled
  cases m with
  | performs S op k T => exact pushed _ rfl fun _ _ h => nomatch h
  | begins S op op' f T h =>
      refine pushed _ rfl ?_
      intro S origin compiles
      cases compiles with
      | asked _ compiles => cases h <;> exact compiles
  | enters S op s purpose T h accepted =>
      refine pushed _ rfl ?_
      intro S origin compiles
      cases compiles with
      | asked _ compiles => cases h <;> exact compiles
  | builds S s entries k table value T accepted origin =>
      refine pushed _ rfl ?_
      intro S origin compiles
      cases compiles with
      | asked _ compiles => exact compiles
  | calls S session name k T => exact pushed _ rfl fun _ _ h => nomatch h
  | gotKey | gotValue | runs | callsTarget => exact deep
  | resumes | answers | guestFails | guestTells | guestReturns | built | abandonsKey
  | abandonsValue | handsOn | settles | refusesTarget =>
      exact fun f mem => deep f (List.mem_of_mem_tail mem)
  | _ => exact deep

theorem top_sound (m : Move p q) (sound : p.Sound) :
    ∀ origin T, q.stack = .compiled origin :: T → q.control.CompilesFor q.standing origin := by
  have top := sound.top
  have deep : ∀ origin T f, p.stack ≠ f :: .compiled origin :: T := by
    intro origin T f stack
    exact sound.deep (.compiled origin) (by simp [stack]) origin rfl
  intro origin T stack
  cases m with
  | idle => exact top origin T stack
  | works | guestWaits => exact nomatch top origin T stack
  | loadWaits S s path path' T' =>
      cases top origin T stack with
      | asked _ compiles => exact .waits _ _ compiles
  | proceeds S path next T' =>
      cases top origin T stack with
      | waits _ op compiles => exact .asked op compiles
  | finishes => exact .finished _
  | fails S op o T' failed => exact .ended o fun ok => absurd ok failed
  | ends S op r T' free =>
      cases top origin T stack with
      | asked _ compiles => cases op <;> first | exact compiles.elim | exact nomatch free
  | closes | opens =>
      cases top origin T stack with
      | asked _ compiles => exact compiles.elim
  | succeeds S op s r T' subject accepted =>
      refine .ended _ fun _ => Standing.Issued.advance ?_ _
      cases top origin T stack with
      | asked _ compiles => exact compiles.subject subject ▸ accepted.issued sound.standing
  | begins S op op' f T' h =>
      cases h <;> cases stack <;> exact .asked _ rfl
  | performs | enters | builds | calls | gotKey | gotValue | runs | callsTarget =>
      exact nomatch stack
  | resumes | answers | guestFails | guestTells | guestReturns | built | abandonsKey
  | abandonsValue | handsOn | settles | refusesTarget =>
      exact absurd (congrArg _ stack) (deep origin T _)

theorem waits_sound (m : Move p q) (sound : p.Sound) :
    ∀ path next, q.control = .lacking path next →
      (∃ session, next = .guest session) ∨ ∃ s path, next = .perform (.loadFile s path) := by
  intro path next control
  cases m with
  | idle => exact sound.waits path next control
  | guestWaits S session =>
      cases control
      exact .inl ⟨session, rfl⟩
  | loadWaits S s path' =>
      cases control
      exact .inr ⟨s, path', rfl⟩
  | proceeds S path' =>
      rcases sound.waits _ _ rfl with ⟨_, guest⟩ | ⟨_, _, load⟩
      · rw [guest] at control
        exact nomatch control
      · rw [load] at control
        exact nomatch control
  | _ => exact nomatch control

/-- A state that comes with a new outcome is new, and it is the head. -/
theorem gives_fresh (m : Move p q) (sound : p.Sound) (new : ∀ o, p.control ≠ .outcome o)
    {s : State} {r : Result} (control : q.control = .outcome (.ok (some s) r)) :
    ¬ p.standing.Issued s ∧ q.standing.Issued s ∧ q.standing.head s.session = s := by
  cases m with
  | idle => exact absurd control (new _)
  | proceeds S path =>
      rcases sound.waits _ _ rfl with ⟨_, guest⟩ | ⟨_, _, load⟩
      · rw [guest] at control
        cases control
      · rw [load] at control
        cases control
  | fails S op o T failed =>
      cases control
      exact absurd trivial failed
  | opens S options =>
      cases control
      simp only [← sound.standing.sessions]
      have head : (S.openSession options.callbacks).head S.lineages.size = ⟨S.lineages.size, 0⟩ := by
        simp [Standing.head, S.openSession_lineage_last]
      rw [← head]
      exact ⟨S.openSession_fresh _, S.openSession_issued _, rfl⟩
  | succeeds S op s r T subject accepted =>
      cases control
      exact ⟨S.advance_fresh _, S.advance_issued accepted.session_lt, rfl⟩
  | built S last items table key r T accepted =>
      cases control
      exact ⟨S.advance_fresh _, S.advance_issued accepted.session_lt, rfl⟩
  | guestFails S session entry purpose o T failed =>
      cases control
      exact absurd trivial failed
  | guestReturns S session entry purpose r T gives =>
      cases control
      have opened : entry.session < (S.restore entry).lineages.size := by
        simpa using (sound.revived _ (List.mem_cons_self ..) entry rfl).1
      exact ⟨fun issued => Standing.advance_fresh _ (issued.restore entry),
        Standing.advance_issued opened, rfl⟩
  | handsOn | settles | refusesTarget => exact absurd rfl (new _)
  | _ => cases control

theorem gives_sound (m : Move p q) (sound : p.Sound) :
    ∀ s r, q.control = .outcome (.ok (some s) r) →
      q.standing.Issued s ∧ q.standing.head s.session = s := by
  intro s r control
  by_cases new : ∀ o, p.control ≠ .outcome o
  · exact (m.gives_fresh sound new control).2
  · cases m with
    | idle | handsOn => exact sound.gives s r control
    | refusesTarget S s' r' state keys arguments o T failed =>
        cases control
        exact absurd trivial failed
    | finishes | resumes | settles | runs | callsTarget => exact nomatch control
    | _ => exact absurd (fun _ same => nomatch same) new

theorem sound (m : Move p q) (sound : p.Sound) : q.Sound where
  standing := m.standing_sound sound
  revived := m.revived_sound sound
  deep := m.deep_sound sound
  top := m.top_sound sound
  waits := m.waits_sound sound
  gives := m.gives_sound sound

end Move

namespace Posture
variable {T : List (Pending σ)} {p q : Posture σ}

theorem Run.sound (run : Run T p q) (sound : p.Sound) : q.Sound := by
  induction run with
  | refl => exact sound
  | tail _ next ih => exact next.1.sound ih

theorem Run.issued (run : Run T p q) {s : State} (issued : p.standing.Issued s) :
    q.standing.Issued s := by
  induction run with
  | refl => exact issued
  | tail _ next ih => exact next.1.issued ih

theorem Run.closed (run : Run T p q) {session : Nat}
    (opened : session < p.standing.lineages.size)
    (closed : (p.standing.lineage session).closed = true) :
    session < q.standing.lineages.size ∧ (q.standing.lineage session).closed = true := by
  induction run with
  | refl => exact ⟨opened, closed⟩
  | tail _ next ih =>
      exact ⟨Nat.lt_of_lt_of_le ih.1 next.1.shift.size_le, next.1.shift.closed ih.1 ih.2⟩

end Posture

namespace Config

theorem start_sound (client : Client σ) (directory : Directory) (memory : σ) :
    (start { directory, memory } client).posture.Sound where
  standing := ⟨by simp [posture, start, World.standing], fun session => by
    simp [posture, start, World.standing, Standing.lineage]⟩
  revived := fun _ mem => nomatch mem
  deep := fun _ mem => nomatch mem
  top := fun _ _ stack => nomatch stack
  waits := fun _ _ control => nomatch control
  gives := fun _ _ control => nomatch control

theorem Reachable.sound {c : Config σ} (reachable : Reachable c) : c.posture.Sound := by
  obtain ⟨client, directory, memory, run⟩ := reachable
  exact run.posture.sound (start_sound client directory memory)

theorem Reachable.run {T : List (Pending σ)} {c d : Config σ} (reachable : Reachable c)
    (run : Run T c d) : Reachable d := by
  obtain ⟨client, directory, memory, before⟩ := reachable
  exact ⟨client, directory, memory, before.trans run.within_nil⟩

end Config

/-! ### Short runs -/

/-- Performs operations one after the other, whatever their outcomes. -/
def Client.inTurn : List (Operation σ) → Client σ
  | [] => .throw (.value .undefined)
  | op :: rest => .perform op fun _ => inTurn rest

/-- Opens a session of which nobody is told anything, and performs operations that are given its first
state. -/
def Client.opening (ops : State → List (Operation Unit)) : Client Unit :=
  .perform (.init { callbacks := { onLog := fun _ _ memory => (memory, none) } }) fun
    | .ok (some s) _ => inTurn (ops s)
    | _ => .throw (.value .undefined)

namespace Config

/-- A session has been opened, and the first operation is about to be performed. -/
def opened (ops : State → List (Operation Unit)) : Config Unit :=
  step^[4] (start { directory := default, memory := () } (Client.opening ops))

theorem opened_reachable (ops : State → List (Operation Unit)) : Reachable (opened ops) :=
  ⟨Client.opening ops, default, (), run_steps _ _⟩

/-- For so many steps there is something above a stack of this height, or an operation is performed. -/
def keepsAbove (height : Nat) : Nat → Config σ → Bool
  | 0, _ => true
  | n + 1, c =>
    (decide (height < c.stack.length) || match c.control with
      | .perform _ => true
      | _ => false) && keepsAbove height n c.step

/-- Only the top of a stack changes, so that what is below it goes on waiting. -/
theorem run_of_keepsAbove {T : List (Pending σ)} {n : Nat} {c : Config σ} (kept : T <:+ c.stack)
    (above : keepsAbove T.length n c = true) : Run T c (step^[n] c) := by
  induction n generalizing c with
  | zero => exact .refl
  | succ n ih =>
      simp only [keepsAbove, Bool.and_eq_true, Bool.or_eq_true, decide_eq_true_eq] at above
      have kept' : T <:+ c.step.stack := by
        rcases above.1 with higher | performs
        · obtain ⟨front, stack⟩ := kept
          have tail := c.step_move.tail_suffix
          cases front with
          | nil => exact absurd (stack ▸ higher) (Nat.lt_irrefl _)
          | cons f front =>
              refine List.IsSuffix.trans ⟨front, ?_⟩ tail
              simp only [posture, ← stack, List.cons_append, List.tail_cons]
        · split at performs
          · next op control =>
              have move := c.step_move
              rw [posture, control] at move
              exact kept.trans move.perform_keeps
          · cases performs
      rw [Function.iterate_succ_apply]
      exact .head ⟨.step c, kept'⟩ (ih kept' above.2)

end Config

end LuaHost
