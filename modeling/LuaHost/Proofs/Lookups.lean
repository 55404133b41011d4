import LuaHost.Proofs.Assignments
/-!
What a lookup along a path comes to when no metatable is met on its way, and what it comes to after an
assignment: the path that was assigned leads to the value, and a path that does not go through the cell that
was assigned leads where it led before.
-/

namespace LuaHost

variable {σ : Type}

/-- What a lookup comes to: a guest value, or a failure. -/
inductive Answer where
  | found (v : Guest.Value)
  | refused (fault : Fault)

namespace Answer

/-- The answer for a path with this value at its end. -/
def ofValue (path : List String) (v : Guest.Value) : Answer :=
  if v.isNil then .refused (.undefinedPath path none) else .found v

/-- How a lookup of a value, or of a reference, ends that comes to an answer: what it gives shows the value,
or it fails. -/
inductive Ends (session : Nat) (asReference : Bool) : Answer → World σ × Outcome → Prop
  | found {w : World σ} {v : Guest.Value} {d : Datum} (shows : w.Shows session d v.sight) :
      Ends session asReference (.found v)
        (w, .ok none (if asReference then .reference ⟨d⟩ else .item (.value d)))
  | refused (w : World σ) (fault : Fault) :
      Ends session asReference (.refused fault) (w.fail session fault)

end Answer

/-- What is at the end of a path; nothing is the same as nil. -/
def Guest.Store.answer (store : Guest.Store) : List String → Answer
  | [] => .refused .invalidPath
  | path => .ofValue path ((store.resolve path).getD .nil)

theorem Guest.Store.answer_eq {store : Guest.Store} {path : List String} (nonempty : path ≠ [])
    {v : Guest.Value} (leads : (store.resolve path).getD .nil = v) :
    store.answer path = .ofValue path v := by
  cases path with
  | nil => exact absurd rfl nonempty
  | cons name rest => exact congrArg (Answer.ofValue _) leads

def Operation.lookup (s : State) (path : List String) (asReference : Bool) : Operation σ :=
  if asReference then .refGet s path else .get s path

namespace World

/-- Lookups of a path come to an answer, whoever waits for it. -/
def Answers (w : World σ) (s : State) (path : List String) (answer : Answer) : Prop :=
  ∀ asReference T, ∃ r : World σ × Outcome, answer.Ends s.session asReference r ∧
    Config.Leads ⟨w, .perform (.lookup s path asReference), T⟩ ⟨r.1, .outcome r.2, T⟩

/-- A session can look a path up: it accepts the state, there is room for the walk, and no metatable is met
on the way. -/
structure MayLookUp (w : World σ) (s : State) (path : List String) : Prop where
  tracked : w.Tracked
  accepted : w.stateViolation? s = none
  room : path ≠ [] → (w.machine s.session).HasRoomFor (path.length + 1)
  plain : (w.machine s.session).store.Plain path (.table (w.machine s.session).store.globals)

variable {w w' : World σ} {s : State} {path : List String}

theorem step_lookup (w : World σ) (s : State) (path : List String) (asReference : Bool)
    (T : List (Pending σ)) : Config.step ⟨w, .perform (.lookup s path asReference), T⟩ =
      Config.lookingUp ⟨w, .perform (.lookup s path asReference), T⟩ s path asReference := by
  cases asReference <;> rfl

theorem Called.tracked {session : Nat} {store : Guest.Store} (called : w.Called w' session store)
    (tracked : w.Tracked) : w'.Tracked := by
  obtain ⟨made, sound⟩ := tracked
  exact ⟨made, sound.same called.holdings⟩

/-- The values of a walk are received as the answer that they stand for. -/
theorem returned_lookup (path : List String) (tracked : w.Tracked) (opened : (w.ledger s.session).closed = false)
    (asReference : Bool) (leads : Option Guest.Value) :
    (Answer.ofValue path (leads.getD .nil)).Ends s.session asReference
      (Config.returned s.session (.lookup path asReference) (Guest.found leads) w) := by
  have missing : (Answer.ofValue path .nil).Ends s.session asReference
      (Config.returned s.session (.lookup path asReference) [] w) := .refused w _
  cases leads with
  | none => exact missing
  | some v =>
      cases empty : v.isNil with
      | true =>
          rw [Guest.found, if_pos empty, Option.getD_some, Answer.ofValue, if_pos empty]
          exact missing
      | false =>
          have there : ¬ v.isNil = true := by simp [empty]
          rw [Guest.found, if_neg there, Option.getD_some, Answer.ofValue, if_neg there]
          obtain ⟨made, sound⟩ := tracked
          have shows := sound.receive_shows opened v
          have present : ¬ (w.receive s.session v).2.isNil = true := by
            rw [shows.isNil]
            cases v <;> simp_all [Guest.Value.sight, Guest.Value.isNil]
          simp only [Config.returned, present]
          exact .found shows

/-- A lookup comes to what is at the end of its path. -/
theorem MayLookUp.answers (may : w.MayLookUp s path) :
    w.Answers s path ((w.machine s.session).store.answer path) := by
  intro asReference T
  let c : Config σ := ⟨w, .perform (.lookup s path asReference), T⟩
  have step := step_lookup w s path asReference T
  simp only [Config.lookingUp, Config.requiring, may.accepted] at step
  rcases path with _ | ⟨name, rest⟩
  · exact ⟨_, .refused w .invalidPath, .step (step ▸ .refl _)⟩
  · have room := may.room (List.cons_ne_nil _ _)
    have settles := Guest.lookup_settles (w.machine s.session).slots room.values may.plain
    obtain ⟨w', called, leads⟩ := Config.program_returns (c := c)
      (.lookup (name :: rest) asReference) may.tracked may.accepted room settles
    have opened : (w'.ledger s.session).closed = false := by
      rw [closed_eq, called.standing]
      exact ((w.stateViolation?_eq_none s).mp may.accepted).1
    have ends := returned_lookup (name :: rest) (called.tracked may.tracked) opened asReference
      ((w.machine s.session).store.resolve (name :: rest))
    exact ⟨_, ends, .step (step ▸ leads)⟩

end World

namespace Config
variable {c : Config σ} {s : State} {keys : List String} {item : Item} {v : Guest.Value}

/-- What a session has once an assignment is done: its successor state is accepted, and walks go on in the
heap that was left. -/
theorem lookup_after {w' : World σ} {store : Guest.Store} {path : List String}
    (tracked : c.world.Tracked) (accepted : c.world.stateViolation? s = none)
    (called : c.world.Called w' s.session store)
    (room : path ≠ [] → (c.world.machine s.session).HasRoomFor (path.length + 1))
    (plain : store.Plain path (.table store.globals)) :
    (w'.succeed s.session .nothing).1.MayLookUp ((w'.succeed s.session .nothing).1.head s.session) path := by
  have accepts : w'.standing.Accepts s := by
    rw [called.standing]
    exact (c.world.stateViolation?_eq_none s).mp accepted
  obtain ⟨w'', s'', same, advanced⟩ := World.succeed_advanced (called.tracked tracked) accepts .nothing
  have here : (w'.succeed s.session .nothing).1 = w'' := congrArg Prod.fst same
  have head : (w'.succeed s.session .nothing).1.head s.session = s'' := by
    have given := congrArg Prod.snd same
    simpa [World.succeed, World.advance] using given
  have heap : ((w'.succeed s.session .nothing).1.machine s.session).store = store := called.store
  have floor : ((w'.succeed s.session .nothing).1.machine s.session).floor =
      (c.world.machine s.session).floor := called.floor
  rw [head, here]
  rw [here] at heap floor
  refine ⟨advanced.tracked, (w''.stateViolation?_eq_none s'').mpr advanced.accepts, ?_, ?_⟩
  · intro nonempty
    rw [advanced.session]
    have room := room nonempty
    exact ⟨floor ▸ room.call, floor ▸ room.values, floor ▸ room.depth⟩
  · rw [advanced.session, heap]
    exact plain

/-- After an assignment its path leads to the value, and all shorter paths lead to tables, unless the cell
that was assigned held a table through which the walk had come; it did not if the first name of the path was
missing. What a path leads to that does not go through this cell, and how looking it up fails, is what it was
before. -/
theorem lookups_after_assignment (may : c.MayAssign s keys item v)
    (free : ∀ i u, ¬ Guest.Blocks (c.world.machine s.session).store
      (.table (c.world.machine s.session).store.globals) keys i u) :
    let store := (c.world.machine s.session).store
    let globals := Guest.Value.table store.globals
    ∃ w' s' before id key after, Leads c ⟨w', .outcome (.ok (some s') .nothing), c.stack⟩ ∧
      Guest.Reaches store globals keys before id key after ∧
      (store.resolve (keys.take 1) = some .nil ∨
          (∀ t, (store.table id).getText key = .table t → ¬ store.Passes t keys globals) →
        w'.Answers s' keys (.ofValue keys v) ∧
        ∀ i, 0 < i → i < keys.length → ∃ t, w'.Answers s' (keys.take i) (.found (.table t))) ∧
      ∀ path, c.world.MayLookUp s path → ¬ store.Reads id key path globals →
        ∃ answer, c.world.Answers s path answer ∧ w'.Answers s' path answer := by
  intro store globals
  obtain ⟨i, u, _, blocks, -⟩ | ⟨store', w', before, id, key, after, reaches, assigned, called, leads⟩ :=
    may.runs
  · exact absurd blocks (free i u)
  have same : store'.globals = store.globals := by rw [assigned.tables]
  have heap : ((w'.succeed s.session .nothing).1.machine s.session).store = store' := called.store
  have after' : ∀ path, (path ≠ [] → (c.world.machine s.session).HasRoomFor (path.length + 1)) →
      store'.Plain path globals →
      (w'.succeed s.session .nothing).1.Answers ((w'.succeed s.session .nothing).1.head s.session) path
        (store'.answer path) := by
    intro path room plain
    have may' := lookup_after may.tracked may.accepted called room (same.symm ▸ plain)
    have answers := may'.answers
    rwa [World.head, heap] at answers
  refine ⟨_, _, before, id, key, after, leads, reaches, ?_, ?_⟩
  · intro apart
    have straight : ∀ t, (store.table id).getText key = .table t → ¬ store.Passes t keys globals := by
      rcases apart with missing | straight
      · intro t cell
        cases (reaches.fresh missing).symm.trans cell
      · exact straight
    obtain ⟨there, plain⟩ := reaches.leads assigned may.plain straight
    have room : ∀ path : List String, path.length ≤ keys.length →
        (c.world.machine s.session).HasRoomFor (path.length + 1) := by
      intro path shorter
      have values := may.room.values
      exact ⟨may.room.call, by omega, may.room.depth⟩
    refine ⟨?_, ?_⟩
    · have leads : store'.resolve keys = some v := by rwa [Guest.Store.resolve, same]
      have answer := Guest.Store.answer_eq (v := v) may.nonempty (by rw [leads, Option.getD_some])
      exact answer ▸ after' keys (fun _ => room keys (Nat.le_refl _)) plain
    · intro i positive inside
      rw [← List.take_append_drop i keys, List.drop_eq_getElem_cons inside] at there plain
      obtain ⟨t, here⟩ := Guest.Store.behind_shorter there
      have leads : store'.resolve (keys.take i) = some (.table t) := by rwa [Guest.Store.resolve, same]
      have nonempty : keys.take i ≠ [] := by
        rw [← List.length_pos_iff, List.length_take]
        omega
      have answer : store'.answer (keys.take i) = .found (.table t) :=
        Guest.Store.answer_eq nonempty (by rw [leads, Option.getD_some])
      refine ⟨t, ?_⟩
      exact answer ▸ after' _ (fun _ => room _ (List.length_take_le' i keys))
        (Guest.Store.plain_append.mp plain).1
  · intro path lookUp apart
    obtain ⟨goes, plain⟩ := assigned.walk lookUp.plain apart
    have answer : store'.answer path = store.answer path := by
      cases path with
      | nil => rfl
      | cons name rest =>
          refine Guest.Store.answer_eq (List.cons_ne_nil _ _) ?_
          rw [Guest.Store.resolve, same]
          exact congrArg (Option.getD · .nil) goes
    exact ⟨_, lookUp.answers, answer ▸ after' path lookUp.room plain⟩

/-- The number is found where it was assigned, and the path to it leads through a table. A global name that
was missing is missing still. -/
theorem grafting_found : ∃ w s, Leads grafting ⟨w, .outcome (.ok (some s) .nothing), grafting.stack⟩ ∧
    w.Answers s ["a", "b"] (.found (.int 7)) ∧ (∃ t, w.Answers s ["a"] (.found (.table t))) ∧
    ∃ answer, grafting.world.Answers ⟨0, 0⟩ ["c"] answer ∧ w.Answers s ["c"] answer := by
  obtain ⟨w, s, before, id, key, after, leads, reaches, assigned, others⟩ :=
    lookups_after_assignment grafting_mayAssign grafting_free
  obtain ⟨rfl, rfl, rfl⟩ := grafting_reaches reaches
  obtain ⟨found, tables⟩ := assigned (.inl (congrArg some grafting_missing))
  have lookUp : grafting.world.MayLookUp ⟨0, 0⟩ ["c"] :=
    ⟨grafting_mayAssign.tracked, rfl, fun _ => ⟨by decide, by decide, by decide⟩, ⟨_, rfl, rfl⟩, trivial⟩
  have apart : ¬ (grafting.world.machine 0).store.Reads 0 "a" ["c"] (.table 0) := by
    rintro (⟨-, same⟩ | further)
    · exact absurd same (by decide)
    · exact further.elim
  exact ⟨w, s, leads, found, tables 1 Nat.one_pos (by decide), others ["c"] lookUp apart⟩

end Config

end LuaHost
