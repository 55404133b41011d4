import LuaHost.Proofs.Deliveries
import LuaHost.Proofs.Refusals
/-!
What a rejected call leaves behind. An operation that is called with a state, a value or a reference that must
not be used throws, and then nothing else has happened: no guest code and no host code has run, and the world is
as it was. A call by name looks at its arguments when it has found its target. If one of them is rejected, whatever
ran on the path of the target has run; the rejection itself adds nothing, and the target is given back.
-/

namespace LuaHost

variable {σ : Type}

namespace World
variable {w : World σ} {s : State} {op : Operation σ}

/-- An operation is called with something that must not be used: its state is not the head of an open session,
or one of the values and references is of another session or has been given back. -/
def Misused (w : World σ) (s : State) (op : Operation σ) : Prop :=
  ¬ w.standing.Accepts s ∨ ∃ item ∈ op.items, ∃ h, item.datum.handle? = some h ∧
    (h.session ≠ s.session ∨ (w.ledger h.session).isReleased h.index = true)

/-- What is misused is noticed before anything is done, but for two operations: an assignment to an empty path
fails whatever it is handed, and a call by name looks at its arguments later. -/
theorem Misused.cases (misused : w.Misused s op) (subject : op.subject? = some s) :
    (∃ fault, w.refusal? s op = some fault) ∨ (∃ item, op = .set s [] item) ∨
      ∃ keys arguments, op = .callByName s keys arguments := by
  by_cases refused : ∃ fault, w.refusal? s op = some fault
  · exact .inl refused
  · right
    obtain ⟨accepted, claimed⟩ := refusal?_eq_none.mp (Option.eq_none_iff_forall_ne_some.mpr
      fun fault same => refused ⟨fault, same⟩)
    rcases misused with stale | ⟨item, mem, h, handle, bad⟩
    · exact absurd ((w.stateViolation?_eq_none s).mp accepted) stale
    · have unclaimed : item ∉ op.claims := by
        intro claims
        have good := of_itemViolation?_eq_none ((claimViolation?_eq_none.mp claimed).2 item claims) handle
        rcases bad with foreign | released
        · exact foreign good.1
        · exact absurd (good.2.symm.trans released) Bool.false_ne_true
      cases op with
      | set _ keys item' =>
          cases subject
          cases keys with
          | nil => exact .inl ⟨item', rfl⟩
          | cons => exact absurd mem unclaimed
      | call => exact absurd mem unclaimed
      | callByName _ keys arguments =>
          cases subject
          exact .inr ⟨keys, arguments, rfl⟩
      | _ => exact absurd mem List.not_mem_nil

end World

namespace Config
variable {c c' d : Config σ} {op : Operation σ} {s : State} {t : Thrown}

/-- What is done next, how much is waiting, how often the function has been called, and the generation that the
session has issued last. -/
structure View where
  control : Control Nat
  height : Nat
  calls : Nat
  issued : Nat

def view (c : Config Nat) : View :=
  ⟨c.control, c.stack.length, c.world.memory, (c.world.ledger 0).issued⟩

/-- What is seen of a configuration and of what it comes to in so many steps. -/
def views (n : Nat) (c : Config Nat) : View × Bool × Bool × View :=
  (view c, (c.world.ledger 0).isReleased 1, keepsAbove c.stack.length n c, view (step^[n] c))

end Config

end LuaHost
