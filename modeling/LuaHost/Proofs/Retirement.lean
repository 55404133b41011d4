import LuaHost.Proofs.Runs
/-!
States that are out of use. A state can be accepted again only if it is the head or something on the
stack makes it the head again, and in a run no state comes to be of this kind that was issued before and
was not. So a state that has been issued and is not of this kind is turned away from then on.
-/

namespace LuaHost

variable {σ : Type}

namespace Posture

/-- What makes a state the head again, in a run in which all of a stack goes on waiting. -/
inductive Revivable (T : List (Pending σ)) (p : Posture σ) (s : State) : Prop
  | head (h : p.standing.head s.session = s)
  | frame (f) (above : List (Pending σ)) (stack : p.stack = above ++ T) (mem : f ∈ above)
      (revives : f.revived? = some s)
  /-- Source text has been compiled, and is run from this state next. -/
  | compiled (below : List (Pending σ)) (t r) (stack : p.stack = .compiled s :: below)
      (control : p.control = .outcome (.ok (some t) r))

/-- A state that has been issued and will not be the head any more. -/
structure Retired (T : List (Pending σ)) (p : Posture σ) (s : State) : Prop where
  issued : p.standing.Issued s
  revivable : ¬ p.Revivable T s

end Posture

namespace Move
variable {p q : Posture σ} {T : List (Pending σ)} {s : State}

/-- What a move does to the stack. -/
inductive Restacks (p : Posture σ) : List (Pending σ) → Prop
  | same : Restacks p p.stack
  | pops (f T) (stack : p.stack = f :: T) : Restacks p T
  | pushes (f : Pending σ) (head : ∀ s, f.revived? = some s → p.standing.head s.session = s) :
      Restacks p (f :: p.stack)
  | replaces (f g T) (stack : p.stack = f :: T) (kept : ∀ s, g.revived? = some s →
      f.revived? = some s ∨
        (f = .compiled s ∧ ∃ t r, p.control = .outcome (.ok (some t) r))) :
      Restacks p (g :: T)

theorem restacks (m : Move p q) : Restacks p q.stack := by
  cases m with
  | resumes | answers | guestFails | guestTells | guestReturns | built | abandonsKey
  | abandonsValue | handsOn | settles | refusesTarget => exact .pops _ _ rfl
  | performs | calls => exact .pushes _ fun _ revives => nomatch revives
  | begins S op op' f T h => exact .pushes _ fun _ revives => by cases h <;> exact nomatch revives
  | enters S op s purpose T h accepted =>
      exact .pushes _ fun _ revives => Option.some.inj revives ▸ accepted.2
  | builds S s entries k table value T accepted origin =>
      exact .pushes _ fun _ revives => Option.some.inj revives ▸ origin ▸ accepted.2
  | gotKey => exact .replaces _ _ _ rfl fun _ revives => .inl revives
  | gotValue S k k' table table' key value T origin =>
      refine .replaces _ _ _ rfl fun s revives => .inl ?_
      rw [← revives]
      exact congrArg some origin.symm
  | runs S origin s chunk c T =>
      exact .replaces _ _ _ rfl fun _ revives =>
        .inr ⟨Option.some.inj revives ▸ rfl, s, .chunk chunk c, rfl⟩
  | callsTarget => exact .replaces _ _ _ rfl fun _ revives => nomatch revives
  | _ => exact .same

/-- A frame that makes a state the head again has been there before, or the state is the head. -/
theorem frame_revivable (m : Move p q) {f : Pending σ} {above : List (Pending σ)}
    (stack : q.stack = above ++ T) (mem : f ∈ above) (revives : f.revived? = some s) :
    p.Revivable T s := by
  have change := m.restacks
  rw [stack] at change
  generalize hR : above ++ T = R at change
  cases change with
  | same => exact .frame f above hR.symm mem revives
  | pops g _ before =>
      exact .frame f (g :: above) (by rw [before, ← hR]; rfl) (List.mem_cons_of_mem _ mem) revives
  | pushes g head =>
      cases above with
      | nil => exact nomatch mem
      | cons g' above =>
          obtain ⟨rfl, rest⟩ := List.cons.inj hR
          rcases List.mem_cons.mp mem with rfl | mem
          · exact .head (head s revives)
          · exact .frame f above rest.symm mem revives
  | replaces g g' T' before keeps =>
      cases above with
      | nil => exact nomatch mem
      | cons g'' above =>
          obtain ⟨rfl, rest⟩ := List.cons.inj hR
          subst rest
          rcases List.mem_cons.mp mem with rfl | mem
          · rcases keeps s revives with revived | ⟨rfl, t, r, control⟩
            · exact .frame g (g :: above) before (List.mem_cons_self ..) revived
            · exact .compiled _ t r before control
          · exact .frame f (g :: above) before (List.mem_cons_of_mem _ mem) revives

/-- Source text has been compiled from the head. -/
theorem compiled_revivable (m : Move p q) (sound : p.Sound) {below : List (Pending σ)}
    {t : State} {r : Result} (stack : q.stack = .compiled s :: below)
    (control : q.control = .outcome (.ok (some t) r)) : p.Revivable T s := by
  have deep : ∀ f, p.stack ≠ f :: .compiled s :: below := by
    intro f stack
    exact sound.deep (.compiled s) (by simp [stack]) s rfl
  cases m with
  | idle => exact .compiled below t r stack control
  | proceeds S path =>
      rcases sound.waits _ _ rfl with ⟨_, guest⟩ | ⟨_, _, load⟩
      · rw [guest] at control
        exact nomatch control
      · rw [load] at control
        exact nomatch control
  | fails S op o T failed =>
      cases control
      exact absurd trivial failed
  | opens =>
      cases sound.top s below stack with
      | asked _ compiles => exact compiles.elim
  | succeeds S op s' r T subject accepted =>
      cases sound.top s below stack with
      | asked _ compiles => exact .head (compiles.subject subject ▸ accepted.2)
  | guestFails | guestReturns | built | handsOn | refusesTarget =>
      exact absurd (congrArg _ stack) (deep _)
  | _ => exact nomatch control

/-- A move makes no state revivable that has been issued before. -/
theorem revivable (m : Move p q) (sound : p.Sound) (keeps : T <:+ q.stack)
    (issued : p.standing.Issued s) (h : q.Revivable T s) : p.Revivable T s := by
  cases h with
  | head h =>
      rcases m.shift.head h issued with before | ⟨f, T', stack, popped, revives⟩
      · exact .head before
      · rw [popped] at keeps
        obtain ⟨above, rest⟩ := keeps
        exact .frame f (f :: above) (by rw [stack, ← rest]; rfl) (List.mem_cons_self ..) revives
  | frame f above stack mem revives => exact m.frame_revivable stack mem revives
  | compiled below t r stack control => exact m.compiled_revivable sound stack control

end Move

namespace Posture
variable {p q : Posture σ} {T : List (Pending σ)} {s : State}

/-- In a run, what is out of use stays out of use. -/
theorem Retired.run (h : p.Retired T s) (sound : p.Sound) (run : Run T p q) : q.Retired T s := by
  -- What may be revived is read off a posture that is sound, so both go through the run together.
  have both : q.Retired T s ∧ q.Sound := by
    induction run with
    | refl => exact ⟨h, sound⟩
    | tail _ next ih =>
        obtain ⟨retired, sound⟩ := ih
        refine ⟨⟨next.1.issued retired.issued, fun again => retired.revivable ?_⟩,
          next.1.sound sound⟩
        exact next.1.revivable sound next.2 retired.issued again
  exact both.1

theorem Retired.not_accepted (h : p.Retired T s) : ¬ p.standing.Accepts s :=
  fun accepted => h.revivable (.head accepted.2)

/-- When a host function is called, all that its session has issued before is out of use for as long as
the function runs. -/
theorem entered_retired {S : Standing σ} {name : String} {k : Client σ}
    (issued : S.Issued s) :
    Retired (.body s.session name :: T)
      ⟨S.advance s.session, .client k, .body s.session name :: T⟩ s := by
  refine ⟨issued.advance s.session, ?_⟩
  intro revivable
  cases revivable with
  | head h => exact S.advance_fresh s.session (h ▸ issued)
  | frame f above stack mem revives =>
      have none : above = [] := by simpa using stack
      subst none
      exact nomatch mem
  | compiled below t r stack control => exact nomatch control

/-- Where an operation has ended, nothing but the head and what the stack says can be used again. -/
theorem ended_retired {S : Standing σ} {o : Outcome} (issued : S.Issued s)
    (head : S.head s.session ≠ s) (waiting : ∀ f ∈ T, f.revived? ≠ some s)
    (top : ∀ below, T ≠ .compiled s :: below) : Retired [] ⟨S, .outcome o, T⟩ s := by
  refine ⟨issued, fun revivable => ?_⟩
  cases revivable with
  | head h => exact head h
  | frame f above stack mem revives =>
      have all : T = above := by simpa using stack
      exact waiting f (all ▸ mem) revives
  | compiled below t r stack control => exact top below stack

end Posture

end LuaHost
