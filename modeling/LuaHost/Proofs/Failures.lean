import LuaHost.Proofs.Stages
/-!
What a failed operation leaves behind. The state that it was called with is the head again, whatever the
guest, the encoders, the host functions and the hooks did meanwhile. There is one exception: when source
text has been compiled and run and the host throws on being told about the failure of the run, the head
stays the state that the compilation gave.
-/

namespace LuaHost

variable {σ : Type}

namespace Standing
variable {S S' : Standing σ} {revived : State → Prop}

theorem Shift.callbacks (h : S.Shift revived S') {session : Nat}
    (opened : session < S.callbacks.size) : S'.callbacks[session]? = S.callbacks[session]? := by
  cases h with
  | openSession callbacks => simp [Standing.openSession, Array.getElem?_push, Nat.ne_of_lt opened]
  | _ => rfl

theorem Shift.callbacks_size (h : S.Shift revived S') :
    S.callbacks.size ≤ S'.callbacks.size := by
  cases h with
  | openSession callbacks => simp [Standing.openSession]
  | _ => exact Nat.le_refl _

end Standing

/-- Whom a session tells about anything is settled when it is opened. -/
theorem Posture.Run.callbacks {T : List (Pending σ)} {p q : Posture σ} (run : Posture.Run T p q)
    {session : Nat} (opened : session < p.standing.callbacks.size) :
    q.standing.callbacks[session]? = p.standing.callbacks[session]? ∧ session < q.standing.callbacks.size := by
  induction run with
  | refl => exact ⟨rfl, opened⟩
  | tail _ next ih =>
      exact ⟨(next.1.shift.callbacks ih.2).trans ih.1, Nat.lt_of_lt_of_le ih.2 next.1.shift.callbacks_size⟩

theorem Posture.Run.quiet {T : List (Pending σ)} {p q : Posture σ} (run : Posture.Run T p q)
    {session : Nat} (opened : session < p.standing.callbacks.size) :
    q.standing.Quiet session ↔ p.standing.Quiet session := by
  simp only [Standing.Quiet, (run.callbacks opened).1]

namespace Config

/-- Between two configurations, source text that was compiled from a state has begun to run. -/
def RunBegan (c c' : Config σ) (s : State) : Prop :=
  ∃ d t chunk, Run c.stack c d ∧ Run c.stack d c' ∧
    (.ran s t chunk :: c.stack : List (Pending σ)) <:+ d.stack

theorem RunBegan.trans {c d d' : Config σ} {s : State} (h : RunBegan c d s)
    (run : Run c.stack d d') : RunBegan c d' s := by
  obtain ⟨e, t, chunk, before, after, waits⟩ := h
  exact ⟨e, t, chunk, before, after.trans run, waits⟩

/-- Between two configurations, an encoder of a table ends with a state of another session than the one it
was given. -/
def Strays (c c' : Config σ) (session : Nat) : Prop :=
  ∃ d last items table key, Run c.stack c d ∧ Run c.stack d c' ∧
    d.control = .client (.done last items) ∧ d.stack = .value table key :: c.stack ∧
    last.session ≠ session

theorem Strays.trans {c d d' : Config σ} {session : Nat} (h : Strays c d session)
    (run : Run c.stack d d') : Strays c d' session := by
  obtain ⟨e, last, items, table, key, before, after, ends⟩ := h
  exact ⟨e, last, items, table, key, before, after.trans run, ends⟩

def log (c c' : Config σ) (s : State) : Log := ⟨RunBegan c c' s, Strays c c' s.session⟩

variable {c c' : Config σ} {op : Operation σ} {s : State} {o : Outcome}

/-- An operation that is called with the head goes from stage to stage. -/
theorem Run.stage (sound : c.posture.Sound) (control : c.control = .perform op)
    (subject : op.subject? = some s) (accepted : c.world.standing.Accepts s)
    (run : Run c.stack c c') : Stage (log c c' s) op s c.stack c'.posture := by
  have both : Stage (log c c' s) op s c.stack c'.posture ∧ c'.posture.Sound := by
    induction run with
    | refl =>
        refine ⟨?_, sound⟩
        simp only [Config.posture, control]
        exact .asked subject accepted.2 fun _ _ => accepted.1
    | @tail d d' run next ih =>
        obtain ⟨stage, sound⟩ := ih
        have move := next.1.move
        have step : Run c.stack d d' := .single next
        refine ⟨?_, move.sound sound⟩
        -- What has happened on the way so far has also happened on the way to the end.
        have now : Stage (log c d' s) op s c.stack d.posture :=
          stage.mono (RunBegan.trans · step) (Strays.trans · step)
        refine now.move sound move next.2 ?_ ?_
        · intro t chunk op' _ waits
          exact ⟨d', t, chunk, run.trans step, .refl, waits⟩
        · intro entries last items table key _ ends stack other
          exact ⟨d, last, items, table, key, run, step, ends, stack, other⟩
  exact both.1

/-- How an operation ends that is called with the head. -/
theorem Run.ends (sound : c.posture.Sound) (control : c.control = .perform op)
    (subject : op.subject? = some s) (accepted : c.world.standing.Accepts s)
    (run : Run c.stack c c') (ended : c'.control = .outcome o) (back : c'.stack = c.stack) :
    op.Ends (log c c' s) s c'.world.standing o := by
  have stage := run.stage sound control subject accepted
  apply Stage.ends (T := c.stack)
  rwa [Config.posture, ended, back] at stage

/-- Only the encoders of a table can end with a state of another session. -/
theorem Strays.table (sound : c.posture.Sound) (control : c.control = .perform op)
    (subject : op.subject? = some s) (accepted : c.world.standing.Accepts s)
    (strays : Strays c c' s.session) : ∃ entries, op = .encodeTable s entries := by
  obtain ⟨d, last, items, table, key, before, -, -, stack, -⟩ := strays
  have above : (.value table key :: c.stack) <:+ d.posture.stack :=
    (show d.posture.stack = _ from stack) ▸ List.suffix_refl _
  exact (before.stage sound control subject accepted).value_stage above

end Config

namespace Posture

/-- Where the run of compiled source text has come to: it goes on, or it is over, and if it threw, the state
that it was run from is still the head. -/
inductive RanOn (s t : State) (chunk : Nat) (T : List (Pending σ)) : Posture σ → Prop
  | goesOn {p} (stage : Stage .none (.runChunk t chunk) t (.ran s t chunk :: T) p) :
      RanOn s t chunk T p
  | ended {S o} (head : o.IsThrown → S.head t.session = t) : RanOn s t chunk T ⟨S, .outcome o, T⟩
  | finished {S r} : RanOn s t chunk T ⟨S, .finished r, T⟩

theorem RanOn.move {s t : State} {chunk : Nat} {T : List (Pending σ)} {p q : Posture σ}
    {op op' : Operation σ} (runs : op.Begins op' (.compiled s)) (session : t.session = s.session)
    (newer : s.generation < t.generation) (h : RanOn s t chunk T p) (sound : p.Sound) (m : Move p q)
    (kept : T <:+ q.stack) : RanOn s t chunk T q := by
  cases h with
  | goesOn stage =>
      have part : op.Part ⟨True, True⟩ s (.ran s t chunk) (.runChunk t chunk) t :=
        .runs s t chunk runs trivial session newer
      by_cases still : (.ran s t chunk :: T : List (Pending σ)) <:+ q.stack
      · exact .goesOn (stage.move sound m still (fun _ _ _ begins => nomatch begins)
          fun _ _ _ _ _ same => nomatch same)
      · obtain ⟨S, o, rfl⟩ := stage.part_over part m still
        have ends := stage.ends
        cases m with
        | idle | finishes => exact absurd (List.suffix_refl _) still
        | settles => exact .ended False.elim
        | handsOn =>
            refine .ended fun thrown => ?_
            cases ends with
            | failed _ _ head => exact head
            | unsettled _ _ never => exact never.elim
            | told | gave => exact thrown.elim
  | ended head =>
      rcases m.outcome_kept kept with rfl | ⟨r, rfl⟩
      · exact .ended head
      · exact .finished
  | finished => cases m <;> exact .finished

theorem RanOn.run {s t : State} {chunk : Nat} {T : List (Pending σ)} {p q : Posture σ}
    {op op' : Operation σ} (runs : op.Begins op' (.compiled s)) (session : t.session = s.session)
    (newer : s.generation < t.generation) (h : RanOn s t chunk T p) (sound : p.Sound)
    (run : Run T p q) : RanOn s t chunk T q := by
  have both : RanOn s t chunk T q ∧ q.Sound := by
    induction run with
    | refl => exact ⟨h, sound⟩
    | tail _ next ih =>
        exact ⟨ih.1.move runs session newer ih.2 next.1 next.2, next.1.sound ih.2⟩
  exact both.1

end Posture

namespace Config
variable {c c' : Config σ} {op : Operation σ} {s : State} {o : Outcome}

/-- Where compiled source text has begun to run and the whole throws, the head has moved. -/
theorem RunBegan.head (sound : c.posture.Sound) (control : c.control = .perform op)
    (subject : op.subject? = some s) (accepted : c.world.standing.Accepts s)
    (began : RunBegan c c' s) (ended : c'.control = .outcome o) (back : c'.stack = c.stack)
    (thrown : o.IsThrown) : c'.world.head s.session ≠ s := by
  obtain ⟨d, t, chunk, before, after, waits⟩ := began
  have stage := before.stage sound control subject accepted
  obtain ⟨⟨op', runs⟩, session, newer, stage⟩ := stage.ran_stage waits
  have ranOn := Posture.RanOn.run runs session newer (.goesOn stage)
    (before.posture.sound sound) after.posture
  rw [posture, ended, back] at ranOn
  rw [← World.standing_head]
  generalize c'.world.standing = S at ranOn ⊢
  cases ranOn with
  | goesOn stage => exact absurd stage.suffix (not_cons_suffix _)
  | ended head =>
      intro same
      rw [← session, head thrown] at same
      exact Nat.lt_irrefl _ (same ▸ newer)

end Config

end LuaHost
