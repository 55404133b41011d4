import LuaHost.Proofs.Rejection
/-!
Host functions at their two ends: what they are handed when the guest calls them, and what becomes of a
state that they return and that is not accepted.
-/

namespace LuaHost

variable {σ : Type}

namespace Config
variable (c : Config σ)

/-- What enters a host function: it has been exposed, and is given the successor of the head. -/
structure Entered (c d : Config σ) (session : Nat) (name : String) : Prop where
  handed : ∃ (index : Nat) (body : State → List Datum → Client σ) (arguments : List Datum),
    (c.world.vms[session]?).bind (·.exposed[index]?) = some (name, body) ∧
      d.control = .client (body (d.world.head session) arguments)
  standing : d.world.standing = c.world.standing.advance session

theorem invoking_entered {session index : Nat} {values : List Guest.Value}
    {session' : Nat} {name : String}
    (stack : (c.invoking session index values).stack = .body session' name :: c.stack) :
    session' = session ∧ Entered c (c.invoking session index values) session name := by
  unfold invoking at stack ⊢
  split at stack
  · exact absurd stack.symm (List.cons_ne_self _ _)
  · next name' body exposed =>
      simp only at stack ⊢
      have told := World.notify_standing (c.world.receiveAll session values).1
        ((c.world.receiveAll session values).1.callback session (·.onHostCall))
        ⟨name', (c.world.receiveAll session values).2⟩
      rw [World.receiveAll_standing] at told
      split at stack
      · exact absurd stack.symm (List.cons_ne_self _ _)
      · next w went =>
          rw [went] at told
          simp only [List.cons.injEq, Pending.body.injEq, and_true] at stack
          obtain ⟨rfl, rfl⟩ := stack
          refine ⟨rfl, ⟨index, body, _, exposed, rfl⟩, ?_⟩
          rw [World.advance_standing, told]

theorem leaving_stack (entry : State) (purpose : Purpose) (stack : List (Pending σ))
    (signal : Guest.Signal) : (c.leaving entry purpose stack signal).stack = stack := by
  cases signal <;> rfl

/-- A host function is entered in one way only. -/
theorem step_entered {session session' : Nat} {name : String} (control : c.control = .guest session)
    (stack : c.step.stack = .body session' name :: c.stack) :
    session' = session ∧ Entered c c.step session name := by
  have ran : ∀ (f : Guest.Machine → Guest.Machine) (d : Config σ),
      Entered { c with world := c.world.modifyMachine session f } d session name →
        Entered c d session name := by
    intro f d entered
    obtain ⟨⟨index, body, arguments, exposed, handed⟩, standing⟩ := entered
    refine ⟨⟨index, body, arguments, ?_, handed⟩, ?_⟩
    · rw [← exposed]
      simp only [World.modifyMachine, Array.getElem?_modify]
      cases c.world.vms[session]? <;> simp
    · rw [standing, World.modifyMachine_standing]
  have stepped : c.step = c.guestStep session := by
    simp only [step, control]
  rw [stepped] at stack ⊢
  unfold guestStep at stack ⊢
  simp only at stack ⊢
  split at stack
  · exact absurd stack.symm (List.cons_ne_self _ _)
  · next index values called =>
      obtain ⟨same, entered⟩ := invoking_entered _ stack
      exact ⟨same, ran _ _ entered⟩
  · next line _ =>
      have same := congrArg Posture.stack (logging_posture
        { c with world := c.world.modifyMachine session (·.run portion) } session line control)
      exact absurd (stack.symm.trans same) (List.cons_ne_self _ _)
  · next path _ =>
      unfold readingForGuest readingFile at stack
      split at stack <;> exact absurd stack.symm (List.cons_ne_self _ _)
  · next signal _ _ _ _ =>
      unfold guestEnded at stack
      split at stack
      · next entry purpose rest waits =>
          rw [leaving_stack] at stack
          have lengths := congrArg List.length (stack.trans (congrArg _ waits))
          simp only [List.length_cons] at lengths
          omega
      · exact absurd stack.symm (List.cons_ne_self _ _)

/-! ### Returning -/

end Config

end LuaHost
