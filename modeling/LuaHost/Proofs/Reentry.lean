import LuaHost.Proofs.Lineages
/-!
States across calls that nest. While a host function runs, the state that it was handed is the one to go on
from, and all earlier states of its session are out of use. When the operation is over that the guest was
called for, the states issued on the way are out of use too, except for the one that it gives.
-/

namespace LuaHost

variable {σ : Type}

namespace Config
variable {c d : Config σ} {s t : State}

/-- While a host function runs, nothing is accepted that its session issued before. -/
theorem Entered.retired {session : Nat} {name : String} {T : List (Pending σ)}
    (entered : Entered c d session name) (stack : d.stack = .body session name :: T)
    (same : s.session = session) (issued : c.world.standing.Issued s) :
    d.posture.Retired d.stack s := by
  obtain ⟨⟨index, body, arguments, -, handed⟩, standing⟩ := entered
  subst same
  rw [posture, standing, handed, stack]
  exact Posture.entered_retired issued

/-- The state that a session is about to be closed with. -/
def closing? : Control σ → Option State
  | .perform (.close s) => some s
  | _ => none

end Config

end LuaHost
