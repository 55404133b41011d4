import LuaHost.Proofs.Failures
import LuaHost.Proofs.HostFunctions
import LuaHost.Proofs.Retirement
/-!
The lineage of a session. It issues its states one after the other and never the same twice, and of all of
them only the head is accepted. A state that an operation has consumed is turned away from then on, unless
something that waits makes it the head again; where the host itself calls, nothing does.
-/

namespace LuaHost

variable {σ : Type}

namespace Posture

/-- Where an operation that closes a session has come to. -/
inductive Closing (s : State) (T : List (Pending σ)) : Posture σ → Prop
  | asked {S} (opened : s.session < S.lineages.size) : Closing s T ⟨S, .perform (.close s), T⟩
  | closed {p} (opened : s.session < p.standing.lineages.size)
      (h : (p.standing.lineage s.session).closed = true) : Closing s T p
  | finished {S r R} : Closing s T ⟨S, .finished r, R⟩

theorem Closing.move {s : State} {T : List (Pending σ)} {p q : Posture σ} (h : Closing s T p)
    (m : Move p q) : Closing s T q := by
  cases h with
  | asked opened =>
      cases m with
      | idle => exact .asked opened
      | finishes => exact .finished
      | fails _ _ _ _ _ stays => exact absurd rfl (stays s)
      | ends _ _ _ _ _ stays => exact absurd rfl (stays s)
      | closes =>
          refine .closed (by simpa using opened) ?_
          simp [Standing.close_lineage, opened, Lineage.close]
      | succeeds _ _ _ _ _ subject => cases subject
      | begins _ _ _ _ _ h => cases h
      | enters _ _ _ _ _ h => cases h
  | closed opened h =>
      exact .closed (Nat.lt_of_lt_of_le opened m.shift.size_le) (m.shift.closed opened h)
  | finished => cases m <;> exact .finished

theorem Run.closing {s : State} {T : List (Pending σ)} {S : Standing σ} {q : Posture σ}
    {o : Outcome} (opened : s.session < S.lineages.size)
    (run : Run T ⟨S, .perform (.close s), T⟩ q) (ended : q.control = .outcome o) :
    s.session < q.standing.lineages.size ∧ (q.standing.lineage s.session).closed = true := by
  have closing : Closing s T q := by
    clear ended
    induction run with
    | refl => exact .asked opened
    | tail _ next ih => exact ih.move next.1
  cases closing with
  | asked | finished => exact nomatch ended
  | closed opened h => exact ⟨opened, h⟩

end Posture

/-- An operation that succeeds takes this state out of use. -/
def Operation.Consumes (op : Operation σ) (s : State) : Prop :=
  (op.subject? = some s ∧ ¬ op.LooksUp) ∨ op = .close s

namespace Config
variable {c d : Config σ} {s t : State}

theorem ledger_closed (c : Config σ) (session : Nat) :
    (c.posture.standing.lineage session).closed = true ↔ (c.world.ledger session).closed = true := by
  simp only [posture, World.standing_lineage, Ledger.lineage]

/-- A step issues a state: it ends an operation, or enters a host function. -/
inductive Issues (c : Config σ) : State → Prop
  | outcome (s r) (new : ∀ o, c.control ≠ .outcome o)
      (h : c.step.control = .outcome (.ok (some s) r)) : Issues c s
  | entry (session name) (guest : c.control = .guest session)
      (h : c.step.stack = .body session name :: c.stack) : Issues c (c.step.world.head session)

theorem Entered.session_lt {session : Nat} {name : String} (h : Entered c d session name)
    (sound : c.posture.Sound) : session < c.world.standing.lineages.size := by
  obtain ⟨index, body, arguments, exposed, -⟩ := h.handed
  have sessions : c.world.standing.lineages.size = c.world.vms.size :=
    sound.standing.sessions.trans (by simp [posture, World.standing])
  rw [sessions]
  rcases Nat.lt_or_ge session c.world.vms.size with opened | missing
  · exact opened
  · simp [Array.getElem?_eq_none missing] at exposed

/-- What a step issues is new. -/
theorem Issues.fresh (h : c.Issues s) (sound : c.posture.Sound) :
    ¬ c.world.standing.Issued s ∧ c.step.world.standing.Issued s := by
  cases h with
  | outcome _ r new h =>
      have fresh := c.step_move.gives_fresh sound new h
      exact ⟨fresh.1, fresh.2.1⟩
  | entry session name guest h =>
      have entered := (c.step_entered guest h).2
      rw [← World.standing_head, entered.standing]
      exact ⟨Standing.advance_fresh session, Standing.advance_issued (entered.session_lt sound)⟩

theorem Issues.increasing (first : c.Issues s) (sound : c.posture.Sound) (run : Run [] c.step d)
    (second : d.Issues t) (same : t.session = s.session) : s.generation < t.generation := by
  have before := run.posture.issued (first.fresh sound).2
  have sound' := run.posture.sound (c.step_move.sound sound)
  exact Stage.newer before (second.fresh sound').1 same

/-- Where the host itself calls, an operation that succeeds leaves its state out of use. -/
theorem Run.consumed {op : Operation σ} {k : Outcome → Client σ} {c' : Config σ}
    {given : Option State} {r : Result} (sound : c.posture.Sound)
    (control : c.control = .perform op) (stack : c.stack = [.perform k])
    (subject : op.subject? = some s) (consumes : ¬ op.LooksUp) (run : Run c.stack c c')
    (ended : c'.control = .outcome (.ok given r)) (back : c'.stack = c.stack)
    (keeps : ¬ Strays c c' s.session) : c'.posture.Retired [] s := by
  have started : c.posture = ⟨c.world.standing, .perform op, c.stack⟩ := by
    rw [Config.posture, control]
  have accepted : c.world.standing.Accepts s := by
    by_contra stale
    have moves := run.posture
    rw [started] at moves
    exact Posture.Run.refused stale subject moves ended back trivial
  have issued := run.posture.issued (accepted.issued sound.standing)
  have head : c'.world.standing.head s.session ≠ s := by
    cases run.ends sound control subject accepted ended back with
    | failed _ failed => exact absurd trivial failed
    | told _ looksUp => exact absurd looksUp consumes
    | gave t _ _ session newer _ =>
        have session := session.resolve_right keeps
        have given := ((run.posture.sound sound).gives t r ended).2
        rw [session] at given
        intro same
        have newer := newer session
        rw [← same.symm.trans given] at newer
        exact Nat.lt_irrefl _ newer
  rw [Config.posture, ended, back, stack]
  refine Posture.ended_retired issued head ?_ ?_
  · intro f mem
    rw [List.mem_singleton.mp mem]
    exact fun same => by cases same
  · exact fun _ same => by cases same

/-- What a session issues grows from state to state, and a state that comes with an outcome is the head.
Where the host itself calls, a state on which an operation succeeded is turned away from then on, and a
session that is closed turns every state away. -/
theorem single_owner_lineage (reachable : Reachable c) :
    (∀ s d t, c.Issues s → Run [] c.step d → d.Issues t → t.session = s.session →
      s.generation < t.generation) ∧
    (∀ s r, c.control = .outcome (.ok (some s) r) → c.world.head s.session = s) ∧
    (∀ op k s c' given r, c.control = .perform op → c.stack = [.perform k] → op.Consumes s →
      c.world.standing.Issued s → Run c.stack c c' → c'.control = .outcome (.ok given r) →
      c'.stack = c.stack → ¬ Strays c c' s.session →
      (op = .close s → (c'.world.ledger s.session).closed = true) ∧
      ∀ d, Run [] c' d → ∀ op', op'.subject? = some s → d.world.TurnsAway op' (d.world.staleness s)) ∧
    (∀ s d op, (c.world.ledger s.session).closed = true → s.session < c.world.ledgers.size →
      Run [] c d → op.subject? = some s → d.world.TurnsAway op (.lineage .closed [])) := by
  have sound := reachable.sound
  refine ⟨?_, ?_, ?_, ?_⟩
  · intro s d t first run second same
    exact first.increasing sound run second same
  · intro s r control
    rw [← World.standing_head]
    exact (sound.gives s r control).2
  · intro op k s c' given r control stack consumes issued run ended back keeps
    rcases consumes with ⟨subject, consumes⟩ | rfl
    · refine ⟨?_, ?_⟩
      · rintro rfl
        exact nomatch subject
      · intro d after op' subject'
        have retired := run.consumed sound control stack subject consumes ended back keeps
        have retired := retired.run (run.posture.sound sound) after.posture
        exact d.world.turnsAway retired.not_accepted op' subject'
    · have moves := run.posture
      have started : c.posture = ⟨c.world.standing, .perform (.close s), c.stack⟩ := by
        rw [Config.posture, control]
      rw [started] at moves
      obtain ⟨opened, closed⟩ := moves.closing issued.1 ended
      refine ⟨fun _ => (c'.ledger_closed s.session).mp closed, ?_⟩
      intro d after op' subject'
      refine d.world.turnsAway ?_ op' subject'
      intro accepted
      exact Bool.false_ne_true (accepted.1.symm.trans (after.posture.closed opened closed).2)
  · intro s d op closed opened run subject
    have opened : s.session < c.posture.standing.lineages.size := by
      simpa [posture, World.standing] using opened
    have closed := (run.posture.closed opened ((c.ledger_closed s.session).mpr closed)).2
    have fault : d.world.staleness s = .lineage .closed [] := by
      simp only [World.staleness, (d.ledger_closed s.session).mp closed, ↓reduceIte]
    rw [← fault]
    refine d.world.turnsAway ?_ op subject
    intro accepted
    exact Bool.false_ne_true (accepted.1.symm.trans closed)

/-- A second state has been issued and the first one is no longer accepted. -/
theorem opened_lineage :
    (opened fun s => [.encode s .nil]).Issues ⟨0, 1⟩ ∧
      (opened fun s => [.encode s .nil]).step.world.TurnsAway (.get ⟨0, 0⟩ [])
        (.lineage .staleState
          [("generation", .number (Float.ofNat 0)), ("current", .number (Float.ofNat 1))]) := by
  let c := opened fun s => [.encode s .nil]
  have reachable : Reachable c := opened_reachable _
  have asked : c.control = .perform (.encode ⟨0, 0⟩ .nil) := rfl
  have accepted : c.world.standing.Accepts ⟨0, 0⟩ :=
    (c.world.stateViolation?_eq_none ⟨0, 0⟩).mp rfl
  have waits : KeepsWaiting c.stack 1 c := ⟨rfl, trivial⟩
  have stays : ¬ Strays c c.step 0 := by
    intro strays
    obtain ⟨entries, table⟩ := Strays.table reachable.sound asked rfl accepted strays
    exact nomatch table
  have consumed := (single_owner_lineage reachable).2.2.1 _ _ ⟨0, 0⟩ c.step (some ⟨0, 1⟩)
    (.item (.value .nil)) asked rfl (.inl ⟨rfl, id⟩) (accepted.issued reachable.sound.standing)
    waits.run rfl rfl stays
  exact ⟨.outcome ⟨0, 1⟩ _ (fun _ same => nomatch asked.symm.trans same) rfl,
    consumed.2 c.step .refl (.get ⟨0, 0⟩ []) rfl⟩

/-- The first state of a session closes it although it is no longer its head. -/
theorem stale_close :
    let c := step^[3] (opened fun s => [.encode s .nil, .close s])
    c.control = .perform (.close ⟨0, 0⟩) ∧ c.world.head 0 = ⟨0, 1⟩ ∧
      c.step.control = .outcome (.ok none .nothing) ∧ (c.step.world.ledger 0).closed = true :=
  ⟨rfl, rfl, rfl, rfl⟩

end Config

end LuaHost
