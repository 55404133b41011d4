import LuaHost.Proofs.Endings
/-!
The posture of a configuration: where the sessions stand, what is done next, and what waits for it.
`Move` lists what a step can make of it. What a guest machine does, and which handles and chunks there are,
is left out of it on purpose: the statements about states are derived from `Move` alone.
-/

namespace LuaHost

namespace Operation
variable {σ : Type}

/-- The state that an operation looks at before it does anything. -/
def subject? : Operation σ → Option State
  | encode s _ | encodeTable s _ | expose s _ _ | get s _ | refGet s _ | set s _ _ | load s _ _
  | loadFile s _ | run s _ _ | runFile s _ | runChunk s _ | call s _ _ | callByName s _ _ => some s
  | init _ | close _ | releaseChunk _ _ | decode _ _ | release _ => none

/-- The operations that are made of two, the one that they begin with, and what waits for it. -/
inductive Begins : Operation σ → Operation σ → Pending σ → Prop
  | run (s source name) : Begins (.run s source name) (.load s source name) (.compiled s)
  | runFile (s path) : Begins (.runFile s path) (.loadFile s path) (.compiled s)
  | callByName (s keys arguments) :
      Begins (.callByName s keys arguments) (.refGet s keys) (.resolved s keys arguments)

/-- The operations that compile source text and do not run it. -/
def Compiles (s : State) : Operation σ → Prop
  | load s' _ _ | loadFile s' _ => s' = s
  | _ => False

theorem Compiles.subject {op : Operation σ} {s t : State} (h : op.Compiles s)
    (subject : op.subject? = some t) : t = s := by
  cases op with
  | load | loadFile => exact (Option.some.inj subject).symm.trans h
  | _ => exact h.elim

/-- The operations that leave the head as it is. -/
def LooksUp : Operation σ → Prop
  | get _ _ | refGet _ _ => True
  | _ => False

/-- What the guest is entered for. -/
inductive Enters : Operation σ → State → Purpose → Prop
  | get (s keys) : Enters (.get s keys) s (.lookup keys false)
  | refGet (s keys) : Enters (.refGet s keys) s (.lookup keys true)
  | set (s keys item) : Enters (.set s keys item) s (.assign keys)
  | call (s ref arguments) : Enters (.call s ref arguments) s .values
  | runChunk (s chunk) : Enters (.runChunk s chunk) s .values

theorem Enters.subject {op : Operation σ} {s : State} {purpose : Purpose}
    (h : op.Enters s purpose) : op.subject? = some s := by
  cases h <;> rfl

theorem Begins.subject {op op' : Operation σ} {f : Pending σ} {s : State}
    (h : op.Begins op' f) (subject : op.subject? = some s) : op'.subject? = some s := by
  cases h <;> exact subject

end Operation

namespace Pending
variable {σ : Type}

/-- The state that is made the head again when the wait is over. -/
def revived? : Pending σ → Option State
  | guest entry _ => some entry
  | key table _ | value table _ => some table.origin
  | ran origin _ _ => some origin
  | _ => none

/-- What hands on an outcome as it is. -/
inductive HandsOn : Pending σ → Outcome → Prop
  | compiled (origin o) (h : ∀ s chunk c, o ≠ .ok (some s) (.chunk chunk c)) :
      HandsOn (.compiled origin) o
  | ran (origin s chunk o) (h : ∀ f, o ≠ .err f) : HandsOn (.ran origin s chunk) o
  | resolved (s keys arguments o) (h : ∀ s ref, o ≠ .ok s (.reference ref)) :
      HandsOn (.resolved s keys arguments) o
  | called (target o) : HandsOn (.called target) o

end Pending

def Purpose.GivesState : Purpose → Prop
  | .lookup _ _ => False
  | _ => True

structure Posture (σ : Type) where
  standing : Standing σ
  control : Control σ
  stack : List (Pending σ)

def Config.posture {σ : Type} (c : Config σ) : Posture σ := ⟨c.world.standing, c.control, c.stack⟩

section Moves
variable {σ : Type}

inductive Move : Posture σ → Posture σ → Prop
  | idle (p) : Move p p
  | works (S k k' T) : Move ⟨S, .client k, T⟩ ⟨S, .client k', T⟩
  | guestWaits (S session path T) :
      Move ⟨S, .guest session, T⟩ ⟨S, .lacking path (.guest session), T⟩
  | loadWaits (S s path path' T) (accepted : S.Accepts s) :
      Move ⟨S, .perform (.loadFile s path), T⟩ ⟨S, .lacking path' (.perform (.loadFile s path)), T⟩
  | proceeds (S path next T) : Move ⟨S, .lacking path next, T⟩ ⟨S, next, T⟩
  | finishes (S control r T) : Move ⟨S, control, T⟩ ⟨S, .finished r, T⟩
  /-- Host code performs an operation, and is given its outcome. -/
  | performs (S op k T) :
      Move ⟨S, .client (.perform op k), T⟩ ⟨S, .perform op, .perform k :: T⟩
  | resumes (S o k T) : Move ⟨S, .outcome o, .perform k :: T⟩ ⟨S, .client (k o), T⟩
  /-- Operations that end at once. -/
  | fails (S op o T) (failed : ¬ o.IsOk) (stays : ∀ s, op ≠ .close s)
      (heard : ∀ s chunk, op = .runChunk s chunk → S.Accepts s → S.Quiet s.session →
        ¬ o.IsThrown) :
      Move ⟨S, .perform op, T⟩ ⟨S, .outcome o, T⟩
  | ends (S op r T) (free : op.subject? = none) (stays : ∀ s, op ≠ .close s) :
      Move ⟨S, .perform op, T⟩ ⟨S, .outcome (.ok none r), T⟩
  | closes (S s r T) :
      Move ⟨S, .perform (.close s), T⟩ ⟨S.close s.session, .outcome (.ok none r), T⟩
  | opens (S options r T) :
      Move ⟨S, .perform (.init options), T⟩
        ⟨S.openSession options.callbacks, .outcome (.ok (some ⟨S.callbacks.size, 0⟩) r), T⟩
  | succeeds (S op s r T) (subject : op.subject? = some s) (accepted : S.Accepts s)
      (gives : ¬ op.LooksUp) :
      Move ⟨S, .perform op, T⟩
        ⟨S.advance s.session, .outcome (.ok (some ((S.advance s.session).head s.session)) r), T⟩
  /-- Operations that wait for another one, for the guest, or for an encoder. -/
  | begins (S op op' f T) (h : op.Begins op' f) : Move ⟨S, .perform op, T⟩ ⟨S, .perform op', f :: T⟩
  | enters (S op s purpose T) (h : op.Enters s purpose) (accepted : S.Accepts s) :
      Move ⟨S, .perform op, T⟩ ⟨S, .guest s.session, .guest s purpose :: T⟩
  | builds (S s entries k table value T) (accepted : S.Accepts s) (origin : table.origin = s) :
      Move ⟨S, .perform (.encodeTable s entries), T⟩ ⟨S, .client k, .key table value :: T⟩
  /-- The guest calls a host function, and is answered. -/
  | calls (S session name k T) :
      Move ⟨S, .guest session, T⟩
        ⟨S.advance session, .client k, .body session name :: T⟩
  | answers (S k session name T) :
      Move ⟨S, .client k, .body session name :: T⟩ ⟨S, .guest session, T⟩
  /-- The guest comes to the end of a call. -/
  | guestFails (S session entry purpose o T) (failed : ¬ o.IsOk)
      (heard : S.Quiet entry.session → ¬ o.IsThrown) :
      Move ⟨S, .guest session, .guest entry purpose :: T⟩ ⟨S.restore entry, .outcome o, T⟩
  | guestTells (S session entry keys asReference r T)
      (reference : asReference = true → ∃ ref, r = .reference ref) :
      Move ⟨S, .guest session, .guest entry (.lookup keys asReference) :: T⟩
        ⟨S.restore entry, .outcome (.ok none r), T⟩
  | guestReturns (S session entry purpose r T) (gives : purpose.GivesState) :
      Move ⟨S, .guest session, .guest entry purpose :: T⟩
        ⟨(S.restore entry).advance entry.session,
          .outcome (.ok (some (((S.restore entry).advance entry.session).head entry.session)) r), T⟩
  /-- A table comes about entry by entry, or is given up. -/
  | gotKey (S k k' table value key T) :
      Move ⟨S, .client k, .key table value :: T⟩ ⟨S, .client k', .value table key :: T⟩
  | gotValue (S k k' table table' key value T) (origin : table'.origin = table.origin) :
      Move ⟨S, .client k, .value table key :: T⟩ ⟨S, .client k', .key table' value :: T⟩
  | built (S last items table key r T) (accepted : S.Accepts last) :
      Move ⟨S, .client (.done last items), .value table key :: T⟩
        ⟨S.advance last.session,
          .outcome (.ok (some ((S.advance last.session).head last.session)) r), T⟩
  | abandonsKey (S k table value t T) :
      Move ⟨S, .client k, .key table value :: T⟩ ⟨S.restore table.origin, .outcome (.threw t), T⟩
  | abandonsValue (S k table key t T) :
      Move ⟨S, .client k, .value table key :: T⟩ ⟨S.restore table.origin, .outcome (.threw t), T⟩
  /-- The first part of an operation made of two has ended. -/
  | handsOn (S o f T) (h : f.HandsOn o) : Move ⟨S, .outcome o, f :: T⟩ ⟨S, .outcome o, T⟩
  | settles (S f origin s chunk T) :
      Move ⟨S, .outcome (.err f), .ran origin s chunk :: T⟩
        ⟨S.restore origin, .outcome (.err f), T⟩
  | runs (S origin s chunk c T) :
      Move ⟨S, .outcome (.ok (some s) (.chunk chunk c)), .compiled origin :: T⟩
        ⟨S, .perform (.runChunk s chunk), .ran origin s chunk :: T⟩
  | callsTarget (S s r state keys arguments target T) :
      Move ⟨S, .outcome (.ok s r), .resolved state keys arguments :: T⟩
        ⟨S, .perform (.call state target arguments), .called target :: T⟩
  | refusesTarget (S s r state keys arguments o T) (failed : ¬ o.IsOk) :
      Move ⟨S, .outcome (.ok s r), .resolved state keys arguments :: T⟩ ⟨S, .outcome o, T⟩

end Moves

end LuaHost
