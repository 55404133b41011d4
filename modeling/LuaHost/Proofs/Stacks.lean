import LuaHost.Proofs.Runs
/-!
What waits for what. Whatever is on a stack waits for something of a kind, and this is what is above it or what is
done next: host functions and encoders wait for host code, operations and what they are made of wait for
outcomes, and the guest runs for operations only. So host code comes to its end nowhere but at the bottom of
everything: whoever waits for an operation is given its outcome, or goes on waiting.
-/

namespace LuaHost

variable {σ : Type}

/-- Host code may run here: nothing else waits, or what is on top waits for host code. -/
def AwaitsClient : List (Pending σ) → Prop
  | [] => True
  | .body _ _ :: _ => True
  | .key _ _ :: _ => True
  | .value _ _ :: _ => True
  | _ => False

def AwaitsOutcome : List (Pending σ) → Prop
  | .perform _ :: _ => True
  | .compiled _ :: _ => True
  | .ran _ _ _ :: _ => True
  | .resolved _ _ _ :: _ => True
  | .called _ :: _ => True
  | _ => False

/-- What is on top of a stack waits for this operation. -/
inductive Operation.Fits : Operation σ → List (Pending σ) → Prop
  | perform (op k T) : Fits op (.perform k :: T)
  | compiled (op s T) (h : op.Compiles s) : Fits op (.compiled s :: T)
  | ran (origin s chunk T) : Fits (.runChunk s chunk) (.ran origin s chunk :: T)
  | resolved (s keys arguments T) : Fits (.refGet s keys) (.resolved s keys arguments :: T)
  | called (s ref arguments T) : Fits (.call s ref arguments) (.called ref :: T)

inductive Control.Fits : Control σ → List (Pending σ) → Prop
  | client (k T) (h : AwaitsClient T) : Fits (.client k) T
  | perform (op T) (h : op.Fits T) : Fits (.perform op) T
  | outcome (o T) (h : AwaitsOutcome T) : Fits (.outcome o) T
  | guest (entry purpose T) : Fits (.guest entry.session) (.guest entry purpose :: T)
  | lacksGuest (path entry purpose T) :
      Fits (.lacking path (.guest entry.session)) (.guest entry purpose :: T)
  | lacksFile (path s file T) (h : Operation.Fits (.loadFile s file) T) :
      Fits (.lacking path (.perform (.loadFile s file))) T
  | finished (r) : Fits (.finished r) []

/-- What waits here is there for what is below it. -/
inductive Pending.Fits : Pending σ → List (Pending σ) → Prop
  | perform (k T) (h : AwaitsClient T) : Fits (.perform k) T
  | body (entry name purpose T) : Fits (.body entry.session name) (.guest entry purpose :: T)
  | guest (op : Operation σ) (entry purpose T) (enters : op.Enters entry purpose) (h : op.Fits T) :
      Fits (.guest entry purpose) T
  | key (table value k T) : Fits (.key table value) (.perform k :: T)
  | value (table key k T) : Fits (.value table key) (.perform k :: T)
  | compiled (s k T) : Fits (.compiled s) (.perform k :: T)
  | ran (origin s chunk k T) : Fits (.ran origin s chunk) (.perform k :: T)
  | resolved (s keys arguments k T) : Fits (.resolved s keys arguments) (.perform k :: T)
  | called (ref k T) : Fits (.called ref) (.perform k :: T)

inductive Stacked : List (Pending σ) → Prop
  | nil : Stacked []
  | cons {f T} (fits : f.Fits T) (rest : Stacked T) : Stacked (f :: T)

/-- Everything waits for what is done above it. -/
structure Posture.Proper (p : Posture σ) : Prop where
  control : p.control.Fits p.stack
  stacked : Stacked p.stack

namespace Operation
variable {op op' : Operation σ} {f : Pending σ} {T : List (Pending σ)}

theorem Fits.awaits (fits : op.Fits T) : AwaitsOutcome T := by
  cases fits <;> trivial

/-- Only host code performs operations that are made of two, and builds tables. -/
theorem Begins.performed (begins : op.Begins op' f) (fits : op.Fits T) :
    ∃ k R, T = .perform k :: R := by
  cases fits with
  | perform _ k R => exact ⟨k, R, rfl⟩
  | compiled _ s _ h => cases begins <;> exact h.elim
  | ran | resolved | called => exact nomatch begins

theorem Begins.fits (begins : op.Begins op' f) : op'.Fits (f :: T) := by
  cases begins with
  | run => exact .compiled _ _ _ rfl
  | runFile => exact .compiled _ _ _ rfl
  | callByName => exact .resolved _ _ _ _

theorem Fits.table {s : State} {entries : Encoders σ} (fits : Fits (.encodeTable s entries) T) :
    ∃ k R, T = .perform k :: R := by
  cases fits with
  | perform _ k R => exact ⟨k, R, rfl⟩
  | compiled _ _ _ h => exact h.elim

end Operation

theorem Move.proper {p q : Posture σ} (m : Move p q) (proper : p.Proper)
    (going : ∀ r, q.control ≠ .finished r) : q.Proper := by
  obtain ⟨fits, stacked⟩ := proper
  cases m with
  | idle => exact ⟨fits, stacked⟩
  | works S k k' T =>
      cases fits with
      | client _ _ h => exact ⟨.client _ _ h, stacked⟩
  | guestWaits S session path T =>
      cases fits with
      | guest entry purpose T => exact ⟨.lacksGuest _ _ _ _, stacked⟩
  | loadWaits S s path path' T accepted =>
      cases fits with
      | perform _ _ h => exact ⟨.lacksFile _ _ _ _ h, stacked⟩
  | proceeds S path next T =>
      cases fits with
      | lacksGuest => exact ⟨.guest _ _ _, stacked⟩
      | lacksFile _ _ _ _ h => exact ⟨.perform _ _ h, stacked⟩
  | finishes S control r T => exact absurd rfl (going r)
  | performs S op k T =>
      cases fits with
      | client _ _ h => exact ⟨.perform _ _ (.perform _ _ _), .cons (.perform _ _ h) stacked⟩
  | resumes S o k T =>
      cases stacked with
      | cons fits' rest =>
          cases fits' with
          | perform _ _ h => exact ⟨.client _ _ h, rest⟩
  | fails | ends | closes | opens | succeeds =>
      cases fits with
      | perform _ _ h => exact ⟨.outcome _ _ h.awaits, stacked⟩
  | begins S op op' f T h =>
      cases fits with
      | perform _ _ fits =>
          obtain ⟨k, R, rfl⟩ := h.performed fits
          refine ⟨.perform _ _ h.fits, .cons ?_ stacked⟩
          cases h with
          | run => exact .compiled _ _ _
          | runFile => exact .compiled _ _ _
          | callByName => exact .resolved _ _ _ _ _
  | enters S op s purpose T h accepted =>
      cases fits with
      | perform _ _ fits => exact ⟨.guest _ _ _, .cons (.guest _ _ _ _ h fits) stacked⟩
  | builds S s entries k table value T accepted origin =>
      cases fits with
      | perform _ _ fits =>
          obtain ⟨k', R, rfl⟩ := fits.table
          exact ⟨.client _ _ trivial, .cons (.key _ _ _ _) stacked⟩
  | calls S session name k T =>
      cases fits with
      | guest entry purpose R => exact ⟨.client _ _ trivial, .cons (.body _ _ _ _) stacked⟩
  | answers S k session name T =>
      cases stacked with
      | cons fits' rest =>
          cases fits' with
          | body entry _ purpose R => exact ⟨.guest _ _ _, rest⟩
  | guestFails | guestTells | guestReturns =>
      cases stacked with
      | cons fits' rest =>
          cases fits' with
          | guest op _ _ _ enters h => exact ⟨.outcome _ _ h.awaits, rest⟩
  | gotKey S k k' table value key T =>
      cases stacked with
      | cons fits' rest =>
          cases fits' with
          | key _ _ k R => exact ⟨.client _ _ trivial, .cons (.value _ _ _ _) rest⟩
  | gotValue S k k' table table' key value T origin =>
      cases stacked with
      | cons fits' rest =>
          cases fits' with
          | value _ _ k R => exact ⟨.client _ _ trivial, .cons (.key _ _ _ _) rest⟩
  | built | abandonsKey | abandonsValue =>
      cases stacked with
      | cons fits' rest => cases fits' <;> exact ⟨.outcome _ _ trivial, rest⟩
  | handsOn S o f T h =>
      cases stacked with
      | cons fits' rest => cases h <;> cases fits' <;> exact ⟨.outcome _ _ trivial, rest⟩
  | settles | refusesTarget =>
      cases stacked with
      | cons fits' rest => cases fits' <;> exact ⟨.outcome _ _ trivial, rest⟩
  | runs S origin s chunk c T =>
      cases stacked with
      | cons fits' rest =>
          cases fits' with
          | compiled _ k R => exact ⟨.perform _ _ (.ran _ _ _ _), .cons (.ran _ _ _ _ _) rest⟩
  | callsTarget S s r state keys arguments target T =>
      cases stacked with
      | cons fits' rest =>
          cases fits' with
          | resolved _ _ _ k R =>
              exact ⟨.perform _ _ (.called _ _ _ _), .cons (.called _ _ _) rest⟩

namespace Config

/-- Host code has not come to its end. -/
def IsGoing (c : Config σ) : Prop := ∀ r, c.control ≠ .finished r

variable {c d : Config σ} {T : List (Pending σ)}

theorem ite_going {p : Prop} [Decidable p] (first : c.IsGoing) (second : d.IsGoing) :
    (if p then c else d).IsGoing := by
  split
  · exact first
  · exact second

theorem requiring_going (s : State) {k : Config σ → Config σ} (goesOn : (k c).IsGoing) :
    (c.requiring s k).IsGoing := by
  rw [requiring]
  split
  · exact fun _ h => by cases h
  · exact goesOn

theorem claiming_going (session : Nat) (items : List Item) {k : Config σ → Config σ}
    (goesOn : (k c).IsGoing) : (c.claiming session items k).IsGoing := by
  rw [claiming]
  split
  · exact fun _ h => by cases h
  · exact goesOn

theorem reading_going (path : String) {k : ReadOutcome → Config σ → Config σ}
    (goesOn : ∀ outcome, (k outcome c).IsGoing) : (c.readingFile path k).IsGoing := by
  rw [readingFile]
  split
  · exact fun _ h => by cases h
  · exact goesOn _

theorem applying_going (entry : State) (function : Guest.Value) (arguments : List Item) :
    (c.applying entry function arguments).IsGoing := by
  rw [applying]
  split
  · split <;> exact fun _ h => by cases h
  · exact fun _ h => by cases h

theorem building_going (table : TableInProgress σ) (last : State) :
    (c.building table last).IsGoing := by
  rw [building]
  split
  · exact fun _ h => by cases h
  · split
    · exact fun _ h => by cases h
    · split <;> exact fun _ h => by cases h

theorem nextEntry_going (table : TableInProgress σ) (last : State) :
    (c.nextEntry table last).IsGoing := by
  rw [nextEntry]
  split
  · exact building_going _ _
  · exact fun _ h => by cases h

theorem lookingUp_going (s : State) (keys : List String) (asReference : Bool) :
    (c.lookingUp s keys asReference).IsGoing :=
  requiring_going s (by split <;> exact fun _ h => by cases h)

theorem perform_going (op : Operation σ) : (c.perform op).IsGoing := by
  cases op with
  | encode s p =>
      rw [perform, encoding]
      split
      · exact fun _ h => by cases h
      · exact requiring_going s fun _ h => by cases h
  | encodeTable s entries => exact requiring_going s (nextEntry_going _ _)
  | expose s | load s => exact requiring_going s fun _ h => by cases h
  | get s keys | refGet s keys => exact lookingUp_going s keys _
  | set s keys item =>
      refine requiring_going s ?_
      split
      · exact fun _ h => by cases h
      · exact claiming_going _ _ fun _ h => by cases h
  | loadFile s path =>
      refine requiring_going s (reading_going _ fun outcome => ?_)
      cases outcome <;> exact fun _ h => by cases h
  | runChunk s chunk =>
      refine requiring_going s ?_
      split
      · exact fun _ h => by cases h
      · exact applying_going _ _ _
  | call s ref arguments =>
      refine requiring_going s (claiming_going _ _ ?_)
      rw [calling]
      split
      · exact fun _ h => by cases h
      · exact applying_going _ _ _
  | init | close | run | runFile | releaseChunk | callByName | decode | release =>
      exact fun _ h => by cases h

/-- The guest goes on, or has come to the end of a call. -/
theorem guestStep_going {session : Nat} {entry : State} {purpose : Purpose}
    (waits : c.stack = .guest entry purpose :: T) (control : c.control = .guest session) :
    (c.guestStep session).IsGoing := by
  rw [guestStep]
  dsimp only
  split
  · exact fun _ h => by cases control.symm.trans h
  · rw [invoking]
    split
    · exact fun _ h => by cases h
    · dsimp only
      split <;> exact fun _ h => by cases h
  · rw [logging]
    split
    · exact fun _ h => by cases control.symm.trans h
    · exact fun _ h => by cases h
  · exact reading_going _ fun _ _ h => by cases control.symm.trans h
  · rw [guestEnded]
    simp only [waits, leaving]
    split
    · exact fun _ h => by cases h
    · exact fun _ h => by cases h
    · exact fun _ h => by cases control.symm.trans h

/-- What waits for host code goes on when it has ended. -/
theorem clientStep_going {w : World σ} {control : Control σ} {f : Pending σ} {k : Client σ}
    (awaits : AwaitsClient (f :: T)) : (clientStep ⟨w, control, f :: T⟩ k).IsGoing := by
  cases k with
  | done state items =>
      cases f with
      | body session name =>
          simp only [clientStep, done, answering]
          split
          · exact fun _ h => by cases h
          · split
            · split <;> exact fun _ h => by cases h
            · exact fun _ h => by cases h
      | key table value =>
          simp only [clientStep, done, gotKey]
          split <;> exact fun _ h => by cases h
      | value table key => exact nextEntry_going _ _
      | perform | guest | compiled | ran | resolved | called => exact awaits.elim
  | throw t =>
      cases f with
      | body | key | value => exact fun _ h => by cases h
      | perform | guest | compiled | ran | resolved | called => exact awaits.elim
  | access | identity | perform => exact fun _ h => by cases h

theorem outcomeStep_going {w : World σ} {control : Control σ} {o : Outcome} (awaits : AwaitsOutcome T) :
    (outcomeStep ⟨w, control, T⟩ o).IsGoing := by
  obtain _ | ⟨f, T⟩ := T
  · exact awaits.elim
  cases f with
  | perform => exact fun _ h => by cases h
  | compiled origin =>
      simp only [outcomeStep]
      rw [ranCompiled.eq_def]
      split <;> exact fun _ h => by cases h
  | ran origin s chunk =>
      simp only [outcomeStep, ran]
      split <;> exact fun _ h => by cases h
  | resolved s keys arguments =>
      simp only [outcomeStep]
      rw [resolved.eq_def]
      split
      · exact ite_going (fun _ h => by cases h) fun _ h => by cases h
      · exact fun _ h => by cases h
  | called => exact fun _ h => by cases h
  | body | guest | key | value => exact awaits.elim

/-- Host code comes to its end only where nothing waits for it. -/
theorem going_or_alone (proper : c.posture.Proper) (going : c.IsGoing) :
    c.step.IsGoing ∨ c.stack = [] := by
  obtain ⟨w, control, T⟩ := c
  have fits : control.Fits T := proper.control
  cases fits with
  | client k _ awaits =>
      cases T with
      | nil => exact .inr rfl
      | cons => exact .inl (clientStep_going awaits)
  | perform op => exact .inl (perform_going op)
  | outcome o _ awaits => exact .inl (outcomeStep_going awaits)
  | guest => exact .inl (guestStep_going rfl rfl)
  | lacksGuest | lacksFile =>
      refine .inl ?_
      rw [step]
      dsimp only
      split <;> exact fun _ h => by cases h
  | finished r => exact absurd rfl (going r)

theorem Next.proper (next : Next c d) (proper : c.posture.Proper) : d.posture.Proper := by
  cases next with
  | surroundings => exact proper
  | step =>
      by_cases going : c.step.IsGoing
      · exact c.step_move.proper proper going
      · obtain ⟨w, control, T⟩ := c
        by_cases halted : ∃ r, control = .finished r
        · obtain ⟨r, rfl⟩ := halted
          exact proper
        · have alone : T = [] := (going_or_alone proper fun r same => halted ⟨r, same⟩).resolve_left going
          subst alone
          have fits : control.Fits [] := proper.control
          cases fits with
          | client k =>
              cases k with
              | done | throw => exact ⟨.finished _, .nil⟩
              | access | identity | perform => exact absurd (fun _ h => by cases h) going
          | perform _ _ fits => exact nomatch fits
          | outcome _ _ awaits => exact awaits.elim
          | lacksFile _ _ _ _ fits => exact nomatch fits
          | finished => exact ⟨.finished _, .nil⟩

theorem Reachable.proper (reachable : Reachable c) : c.posture.Proper := by
  obtain ⟨client, directory, memory, run⟩ := reachable
  induction run with
  | refl => exact ⟨.client _ _ trivial, .nil⟩
  | tail _ next ih => exact next.1.proper ih

/-- As long as something waits, host code has not come to its end. -/
theorem Reachable.going (reachable : Reachable c) (waits : c.stack ≠ []) : c.IsGoing := by
  obtain ⟨w, control, T⟩ := c
  rintro r rfl
  have fits : Control.Fits _ T := reachable.proper.control
  cases fits
  exact waits rfl

end Config

end LuaHost
