import LuaHost.Proofs.Dues
import Mathlib
/-!
The slots that a session has in use, over whatever host code does. From step to step, what is taken is owed to what
the host has been handed, and to what operations keep for themselves; and what they keep they give back, however they
end. So when an operation is over there are just as many slots more as the host knows of.
-/

namespace LuaHost

variable {σ : Type}

namespace World
variable {w w' : World σ} {x : Holder}

/-- Whoever gives back what is not his own does not disturb the others. -/
theorem giveBack_other {y : Holder} (unlike : y ≠ x) : (w.giveBack x).slot? y = w.slot? y := by
  cases held : w.slot? x with
  | none => rw [giveBack_unheld held]
  | some slot => exact (giveBack_givesBack held).others y unlike

theorem giveBack_gone : (w.giveBack x).slot? x = none := by
  cases held : w.slot? x with
  | none => rw [giveBack_unheld held, held]
  | some slot => exact (giveBack_givesBack held).gone

/-- Whatever has its slot after others have given theirs back has had it before. -/
theorem held_of_giveBack {y : Holder} (held : (w.giveBack x).slot? y ≠ none) :
    y ≠ x ∧ w.slot? y ≠ none := by
  have unlike : y ≠ x := by
    rintro rfl
    exact held giveBack_gone
  exact ⟨unlike, giveBack_other unlike ▸ held⟩

/-- What is compiled has been loaded, as long as nothing else is compiled. -/
theorem Loaded.changes (loaded : w.Loaded) (changes : w.Changes w')
    (held : ∀ x, w'.slot? x ≠ none → w.slot? x ≠ none) : w'.Loaded := by
  intro session chunk compiled
  have known : w.Acquainted (.chunk session chunk) := loaded session chunk (held _ compiled)
  exact changes.acquainted known

theorem Balanced.giveBack_held (balanced : w.Balanced) (x : Holder) (session : Nat) :
    (w.giveBack x).held session + (if x.session = session ∧ w.slot? x ≠ none then 1 else 0) =
      w.held session := by
  cases held : w.slot? x with
  | none => simp [giveBack_unheld held]
  | some slot =>
      have loses := balanced.giveBack_loses held session
      simpa [eq_comm] using loses

end World

namespace Config
variable {c d : Config σ} {w : World σ} {T : List (Pending σ)} {s : State} {session : Nat}

/-- What operations keep for themselves is kept once and has its slot. What is compiled has been loaded. -/
structure InOrder (c : Config σ) : Prop where
  nodup : c.kept.Nodup
  held : ∀ x ∈ c.kept, c.world.slot? x ≠ none
  loaded : c.world.Loaded

/-- The number of slots that are kept in a session for parts of operations. -/
def keptIn (c : Config σ) (session : Nat) : Nat := c.kept.countP (·.session == session)

/-- What is given back and what is newly kept makes up for what is taken. -/
def Settles (c d : Config σ) (session gained lost : Nat) : Prop :=
  d.world.held session + lost + c.keptIn session = c.world.held session + gained + d.keptIn session

theorem Settles.trans {e : Config σ} {m n m' n' : Nat} (first : Settles c d session m n)
    (second : Settles d e session m' n') : Settles c e session (m + m') (n + n') := by
  simp only [Settles] at first second ⊢
  omega

/-- A step that gives nothing back. -/
theorem pays_settles (reachable : Reachable c) (order : InOrder c) (pays : Pays c)
    (working : ∀ o, c.control ≠ .outcome o)
    (stays : ∀ op, c.control = .perform op → op.givesBack? = none) :
    InOrder c.step ∧ ∀ session, Settles c c.step session (c.gains session) (c.loses session) := by
  obtain ⟨t, n, gains, counted⟩ := pays
  have keeps := step_keeps reachable.proper working
  have kept : c.step.kept = (c.step.control.kept? c.step.stack).toList ++ c.kept := keeps.kept
  have introduces (x : Holder) (mem : x ∈ (c.step.control.kept? c.step.stack).toList) :
      c.world.Introduces c.step.world x := by
    have taken := Option.mem_toList.mp mem
    exact takes_introduces reachable.sound (keeps.takes x taken) taken
  refine ⟨⟨?_, ?_, gains.loaded order.loaded⟩, fun session => ?_⟩
  · rw [kept, List.nodup_append]
    refine ⟨by cases c.step.control.kept? c.step.stack <;> simp, order.nodup, ?_⟩
    rintro x new _ old rfl
    exact (introduces x new).new (reachable.acquainted x old)
  · intro x mem
    rw [kept] at mem
    rcases List.mem_append.mp mem with new | old
    · exact (introduces x new).held
    · exact gains.keeps x (order.held x old)
  · have none : c.loses session = 0 := by
      rw [loses]
      split
      · next op control =>
          rw [stays op control]
      · rfl
    have held := gains.held session
    have total := counted session
    simp only [Settles, keptIn, kept, List.countP_append]
    omega

/-- What host code gives back is given back at once. -/
theorem givesBack_step {op : Operation σ} {x : Holder} (reachable : Reachable c)
    (control : c.control = .perform op) (back : op.givesBack? = some x) :
    ∃ k R, c.stack = .perform k :: R ∧
      c.step = ⟨c.world.giveBack x, .outcome (.ok none .nothing), .perform k :: R⟩ := by
  have fits := reachable.proper.control
  obtain ⟨w, _, T⟩ := c
  cases control
  have fits : Control.Fits (.perform op) T := fits
  cases fits with
  | perform _ _ fits =>
      cases fits with
      | compiled _ _ _ compiles => cases op <;> first | exact compiles.elim | cases back
      | ran | resolved | called => cases back
      | perform _ k R =>
          refine ⟨k, R, rfl, ?_⟩
          cases op with
          | releaseChunk s chunk =>
              cases back
              rfl
          | release item =>
              obtain ⟨h, handle, rfl⟩ := Option.map_eq_some_iff.mp back
              simp only [step, perform, ending, World.release, handle]
              rfl
          | _ => cases back

/-- Host code gives something back that it has been handed. -/
theorem givesBack_settles (reachable : Reachable c) (honest : c.Honest) (order : InOrder c)
    {op : Operation σ} {x : Holder} (control : c.control = .perform op)
    (back : op.givesBack? = some x) :
    InOrder c.step ∧ ∀ session, Settles c c.step session (c.gains session) (c.loses session) := by
  obtain ⟨k, R, waits, stepped⟩ := givesBack_step reachable control back
  have foreign := (honest op k R control waits).1 x back
  have before : c.kept = R.filterMap Pending.kept? := by
    simp only [kept, posture, Posture.kept, control, waits]
    rfl
  have same : c.step.kept = c.kept := by rw [stepped, kept_perform, before]
  have world : c.step.world = c.world.giveBack x := by rw [stepped]
  refine ⟨⟨?_, ?_, ?_⟩, fun session => ?_⟩
  · rw [same]
    exact order.nodup
  · intro y mem
    rw [same] at mem
    have unlike : y ≠ x := by
      rintro rfl
      exact foreign mem
    rw [world, World.giveBack_other unlike]
    exact order.held y mem
  · refine order.loaded.changes c.step_changes fun y held => ?_
    rw [world] at held
    exact (World.held_of_giveBack held).2
  · have held := reachable.balanced.2.giveBack_held x session
    have loses : c.loses session =
        if x.session = session ∧ c.world.slot? x ≠ none then 1 else 0 := by
      simp only [Config.loses, control, back]
    have gains : c.gains session = 0 := by
      have nothing : c.step.makes session = false := by
        rw [stepped]
        rfl
      rw [Config.gains.eq_def, control]
      cases op with
      | release | releaseChunk => simp [nothing]
      | _ => cases back
    simp only [Settles, keptIn, same, world, loses, gains]
    omega

/-- An outcome is handed on, and what has been kept until then is given back. -/
theorem outcome_settles (reachable : Reachable c) (order : InOrder c) {o : Outcome}
    (control : c.control = .outcome o) :
    InOrder c.step ∧ ∀ session, Settles c c.step session (c.gains session) (c.loses session) := by
  have gains (session : Nat) : c.gains session = 0 := by simp only [Config.gains, control]
  have loses (session : Nat) : c.loses session = 0 := by simp only [Config.loses, control]
  have yields : Yields c.world c.kept c.step := by
    obtain ⟨fits, stacked⟩ := reachable.proper
    obtain ⟨w, _, T⟩ := c
    cases control
    have fits : Control.Fits (.outcome o) T := fits
    cases fits with
    | outcome _ _ awaits => exact outcome_kept awaits stacked
  cases yields with
  | nothing same held =>
      refine ⟨⟨same ▸ order.nodup, fun x mem => ?_, ?_⟩, fun session => ?_⟩
      · rw [same] at mem
        rw [World.slot?_congr held]
        exact order.held x mem
      · exact order.loaded.changes c.step_changes fun y => by rw [World.slot?_congr held]; exact id
      · simp only [Settles, keptIn, same, gains, loses, World.held_congr held]
  | holder x w' kept beneath back =>
      have balanced : w'.Balanced :=
        reachable.balanced.2.congr beneath.2 fun s opened => by rwa [World.ledger, beneath.1] at opened
      have nodup := order.nodup
      rw [kept, List.nodup_cons] at nodup
      refine ⟨⟨nodup.2, fun y mem => ?_, ?_⟩, fun session => ?_⟩
      · have unlike : y ≠ x := by
          rintro rfl
          exact nodup.1 mem
        rw [World.slot?_congr back, World.giveBack_other unlike, World.slot?_congr beneath.2]
        exact order.held y (kept ▸ List.mem_cons_of_mem x mem)
      · refine order.loaded.changes c.step_changes fun y held => ?_
        rw [World.slot?_congr back] at held
        rw [← World.slot?_congr beneath.2]
        exact (World.held_of_giveBack held).2
      · have held := balanced.giveBack_held x session
        have taken := order.held x (kept ▸ List.mem_cons_self)
        rw [← World.slot?_congr beneath.2] at taken
        simp only [taken, ne_eq, not_false_eq_true, and_true] at held
        rw [World.held_congr beneath.2] at held
        simp only [Settles, keptIn, kept, gains, loses, World.held_congr back, List.countP_cons, beq_iff_eq]
        omega

theorem step_settles (reachable : Reachable c) (honest : c.Honest) (order : InOrder c) :
    InOrder c.step ∧ ∀ session, Settles c c.step session (c.gains session) (c.loses session) := by
  by_cases ended : ∃ o, c.control = .outcome o
  · obtain ⟨o, control⟩ := ended
    exact outcome_settles reachable order control
  · have working : ∀ o, c.control ≠ .outcome o := fun o same => ended ⟨o, same⟩
    by_cases back : ∃ op x, c.control = .perform op ∧ op.givesBack? = some x
    · obtain ⟨op, x, control, back⟩ := back
      exact givesBack_settles reachable honest order control back
    · have stays (op : Operation σ) (control : c.control = .perform op) : op.givesBack? = none := by
        cases given : op.givesBack? with
        | none => rfl
        | some x => exact absurd ⟨op, x, control, given⟩ back
      exact pays_settles reachable order (step_pays reachable honest order.loaded working stays) working
        stays

/-! ### Runs -/

/-- The runs of honest host code in which all of a stack goes on waiting. -/
def HonestRun (T : List (Pending σ)) : Config σ → Config σ → Prop :=
  Relation.ReflTransGen fun c d => (Next c d ∧ c.Honest) ∧ T <:+ d.stack

/-- What honest host code can come to that starts without sessions. -/
def Earned (c : Config σ) : Prop :=
  ∃ client directory memory, HonestRun [] (start { directory, memory } client) c

/-- The slots that a run of honest host code takes in a session for the host, and those that the host gives back. -/
inductive Account (session : Nat) (T : List (Pending σ)) : Config σ → Config σ → Nat → Nat → Prop
  | refl (c : Config σ) : Account session T c c 0 0
  | step {c d : Config σ} {gained lost : Nat} (before : Account session T c d gained lost) (honest : d.Honest)
      (within : T <:+ d.step.stack) :
      Account session T c d.step (gained + d.gains session) (lost + d.loses session)
  | surroundings {c d : Config σ} {gained lost : Nat} (before : Account session T c d gained lost) (honest : d.Honest)
      (within : T <:+ d.stack) (directory : Directory) (memory : σ) :
      Account session T c { d with world := { d.world with directory, memory } } gained lost

theorem HonestRun.run (run : HonestRun T c d) : Run T c d := by
  induction run with
  | refl => exact .refl
  | tail _ next ih => exact .tail ih ⟨next.1.1, next.2⟩

theorem HonestRun.within_nil (run : HonestRun T c d) : HonestRun [] c d := by
  induction run with
  | refl => exact .refl
  | tail _ next ih => exact .tail ih ⟨next.1, List.nil_suffix⟩

theorem HonestRun.account (run : HonestRun T c d) (session : Nat) :
    ∃ gained lost, Account session T c d gained lost := by
  induction run with
  | refl => exact ⟨0, 0, .refl c⟩
  | tail _ next ih =>
      obtain ⟨gained, lost, account⟩ := ih
      obtain ⟨⟨next, honest⟩, within⟩ := next
      cases next with
      | step => exact ⟨_, _, account.step honest within⟩
      | surroundings directory memory => exact ⟨_, _, account.surroundings honest within directory memory⟩

theorem Account.run {gained lost : Nat} (account : Account session T c d gained lost) :
    HonestRun T c d := by
  induction account with
  | refl => exact .refl
  | step _ honest within ih => exact .tail ih ⟨⟨.step _, honest⟩, within⟩
  | surroundings _ honest within directory memory ih =>
      exact .tail ih ⟨⟨.surroundings _ directory memory, honest⟩, within⟩

theorem Earned.reachable (earned : Earned c) : Reachable c := by
  obtain ⟨client, directory, memory, run⟩ := earned
  exact ⟨client, directory, memory, run.run⟩

theorem Earned.run (earned : Earned c) (run : HonestRun T c d) : Earned d := by
  obtain ⟨client, directory, memory, before⟩ := earned
  exact ⟨client, directory, memory, before.trans run.within_nil⟩

/-- Neither the files nor the host's memory have to do with slots. -/
theorem InOrder.surroundings (order : InOrder c) (directory : Directory) (memory : σ) :
    InOrder { c with world := { c.world with directory, memory } } :=
  ⟨order.nodup, order.held, order.loaded⟩

theorem Earned.inOrder (earned : Earned c) : InOrder c := by
  obtain ⟨client, directory, memory, run⟩ := earned
  induction run with
  | refl =>
      refine ⟨.nil, fun x mem => (nomatch mem), fun session chunk held => ?_⟩
      exact absurd (World.slot?_missing (w := { directory, memory }) (x := .chunk session chunk)
        (Nat.zero_le session)) held
  | @tail c d before next ih =>
      have reachable : Reachable c := ⟨client, directory, memory, HonestRun.run before⟩
      obtain ⟨⟨next, honest⟩, -⟩ := next
      cases next with
      | step => exact (step_settles reachable honest ih).1
      | surroundings directory memory => exact ih.surroundings directory memory

/-- Over a whole run, what is given back and what is newly kept makes up for what is taken. -/
theorem Account.settles {gained lost : Nat} (account : Account session T c d gained lost)
    (earned : Earned c) : Settles c d session gained lost := by
  induction account with
  | refl => rfl
  | step before honest within ih =>
      have there := earned.run before.run
      exact ih.trans ((step_settles there.reachable honest there.inOrder).2 session)
  | surroundings _ _ _ directory memory ih => exact ih

/-- A session that is open at the end of a run has all of its slots in use at the start. -/
theorem slotsInUse_of_open (run : Run T c d) (opened : (d.world.ledger session).closed = false) :
    (c.world.ledger session).slotsInUse = c.world.held session := by
  rw [Ledger.slotsInUse_eq]
  split
  · next closed =>
      rcases Nat.lt_or_ge session c.world.ledgers.size with there | missing
      · have there : session < c.posture.standing.lineages.size := by
          simpa [posture, World.standing] using there
        rw [World.closed_eq] at closed opened
        cases opened.symm.trans (run.posture.closed there closed).2
      · rw [World.held, World.ledger_missing missing]
        rfl
  · rfl

/-- Where the loading of source text has come to: it goes on, or it has ended and has taken no slot if it
failed. -/
inductive Loads (op : Operation σ) (c : Config σ) (gained lost : Nat) : Prop
  | performs (control : c.control = .perform op) (gained : gained = 0) (lost : lost = 0)
  | lacks (path : String) (control : c.control = .lacking path (.perform op)) (gained : gained = 0)
      (lost : lost = 0)
  | ended (o : Outcome) (control : c.control = .outcome o) (gained : ¬ o.IsOk → gained = 0)
      (lost : lost = 0)

theorem load_perform {op : Operation σ} (compiles : op.Compiles s) (control : c.control = .perform op) :
    ((∃ o, c.step.control = .outcome o) ∨ ∃ path, c.step.control = .lacking path (.perform op)) ∧
      c.step.stack = c.stack := by
  have step : c.step = c.perform op := by simp only [Config.step, control]
  rw [step]
  cases op with
  | load s' source name =>
      simp only [perform, requiring]
      split <;> exact ⟨.inl ⟨_, rfl⟩, rfl⟩
  | loadFile s' path =>
      simp only [perform, loadingFile, requiring]
      split
      · exact ⟨.inl ⟨_, rfl⟩, rfl⟩
      · rw [readingFile]
        split
        · exact ⟨.inr ⟨path, congrArg _ control⟩, rfl⟩
        · next outcome _ => cases outcome <;> exact ⟨.inl ⟨_, rfl⟩, rfl⟩
  | _ => exact compiles.elim

theorem Loads.step {op : Operation σ} {gained lost : Nat} (loads : Loads op c gained lost)
    (compiles : op.Compiles s) {k : Outcome → Client σ} (waits : c.stack = .perform k :: T)
    (within : .perform k :: T <:+ c.step.stack) :
    Loads op c.step (gained + c.gains session) (lost + c.loses session) ∧
      c.step.stack = .perform k :: T := by
  cases loads with
  | performs control gained lost =>
      obtain ⟨shape, same⟩ := load_perform compiles control
      have gains : c.gains session =
          if c.step.makes session ∧ c.step.control.kept? c.step.stack = none then 1 else 0 := by
        rw [Config.gains.eq_def, control]
        cases op with
        | load | loadFile => rfl
        | _ => exact compiles.elim
      have loses : c.loses session = 0 := by
        rw [Config.loses, control]
        cases op with
        | load | loadFile => rfl
        | _ => exact compiles.elim
      refine ⟨?_, same.trans waits⟩
      rcases shape with ⟨o, ended⟩ | ⟨path, lacks⟩
      · refine .ended o ended (fun failed => ?_) (by omega)
        rw [gained, gains, makes_of_not_ok ended failed]
        rfl
      · refine .lacks path lacks ?_ (by omega)
        rw [gained, gains, makes_working fun o ended => by cases lacks.symm.trans ended]
        rfl
  | lacks path control gained lost =>
      have same : c.step = c ∨ c.step = { c with control := .perform op } := by
        simp only [Config.step, control]
        split
        · exact .inl rfl
        · exact .inr rfl
      have nothing : c.step.makes session = false := by
        rcases same with same | same <;> rw [same]
        · exact makes_working fun o ended => by cases control.symm.trans ended
        · rfl
      have gains : c.gains session = 0 := by
        simp only [Config.gains, control, nothing]
        rfl
      have loses : c.loses session = 0 := by simp only [Config.loses, control]
      rcases same with same | same
      · rw [same]
        exact ⟨.lacks path control (by omega) (by omega), waits⟩
      · rw [same]
        exact ⟨.performs rfl (by omega) (by omega), waits⟩
  | ended o control gained lost =>
      have step : c.step.stack = T := by
        simp only [Config.step, control, outcomeStep, waits]
      exact absurd (step ▸ within) (not_cons_suffix T)

/-- Loading takes its slot in the end, or none at all. -/
theorem Account.loads {op : Operation σ} {k : Outcome → Client σ} {gained lost : Nat}
    (account : Account session (.perform k :: T) c d gained lost) (control : c.control = .perform op)
    (compiles : op.Compiles s) (waits : c.stack = .perform k :: T) :
    Loads op d gained lost ∧ d.stack = .perform k :: T := by
  induction account with
  | refl => exact ⟨.performs control rfl rfl, waits⟩
  | step _ honest within ih =>
      obtain ⟨loads, same⟩ := ih
      exact loads.step compiles same within
  | surroundings _ _ _ directory memory ih =>
      obtain ⟨loads, same⟩ := ih
      refine ⟨?_, same⟩
      cases loads with
      | performs control gained lost => exact .performs control gained lost
      | lacks path control gained lost => exact .lacks path control gained lost
      | ended o control gained lost => exact .ended o control gained lost

/-- The slots of a session before and after an operation, whatever its outcome. There is one more for each object that
the host has been handed on the way and for each table, function and chunk that has been made for it, and one less for
each that it has given back. What operations have kept for themselves is not among them, and all slots have an object
in them. A session that has been closed meanwhile has no slots in use. -/
theorem slots_accounted {op : Operation σ} {k : Outcome → Client σ} {o : Outcome} (earned : Earned c)
    (control : c.control = .perform op) (waits : c.stack = .perform k :: T)
    (run : HonestRun c.stack c d) (ended : d.control = .outcome o) (back : d.stack = c.stack)
    (session : Nat) :
    (∃ gained lost, Account session c.stack c d gained lost) ∧
    ((d.world.ledger session).closed = true → (d.world.ledger session).slotsInUse = 0) ∧
    ∀ gained lost, Account session c.stack c d gained lost →
      ((d.world.ledger session).closed = false →
        (d.world.ledger session).slotsInUse + lost = (c.world.ledger session).slotsInUse + gained ∧
        (d.world.slots session).used = (d.world.ledger session).slotsInUse) ∧
      ∀ s, op.Compiles s → ¬ o.IsOk → gained = 0 ∧ lost = 0 := by
  refine ⟨run.account session, fun closed => ?_, fun gained lost account => ⟨fun opened => ⟨?_, ?_⟩, ?_⟩⟩
  · rw [Ledger.slotsInUse_eq, if_pos closed]
  · have settles := account.settles earned
    have kept : d.keptIn session = c.keptIn session := by
      have before : c.kept = T.filterMap Pending.kept? := by
        simp only [Config.kept, posture, Posture.kept, control, waits]
        rfl
      have after : d.kept = T.filterMap Pending.kept? := by
        have same := kept_perform d.world o k T
        rwa [← ended, ← waits, ← back] at same
      rw [keptIn, keptIn, before, after]
    rw [slotsInUse_of_open run.run opened, slotsInUse_of_open (.refl : Run T d d) opened]
    simp only [Settles, kept] at settles
    omega
  · exact (earned.run run).reachable.used opened
  · intro s compiles failed
    rw [waits] at account
    cases (account.loads control compiles waits).1 with
    | performs performs => cases ended.symm.trans performs
    | lacks path lacks => cases ended.symm.trans lacks
    | ended o' ended' gained lost =>
        obtain rfl : o = o' := Control.outcome.inj (ended.symm.trans ended')
        exact ⟨gained failed, lost⟩

/-! ### Two calls -/

/-- Does host code name only what is its own? -/
def isHonest (c : Config σ) : Bool :=
  match c.control with
  | .perform op =>
    (op.givesBack?.all fun x => !c.kept.contains x) &&
      match op with
      | .runChunk _ chunk => decide (chunk < c.world.chunks.size)
      | _ => true
  | _ => true

theorem honest_of_isHonest (honest : c.isHonest = true) : c.Honest := by
  intro op k T control _
  simp only [isHonest, control, Bool.and_eq_true] at honest
  refine ⟨fun x back => ?_, fun s chunk same => ?_⟩
  · simpa [back] using honest.1
  · simpa [same] using honest.2

/-- Is host code honest for so many steps? -/
def staysHonest : Nat → Config σ → Bool
  | 0, _ => true
  | n + 1, c => c.isHonest && staysHonest n c.step

/-- The slots that so many steps take for the host, and those that the host gives back. -/
def tally (session : Nat) : Nat → Config σ → Nat × Nat
  | 0, _ => (0, 0)
  | n + 1, c =>
    (c.gains session + (tally session n c.step).1, c.loses session + (tally session n c.step).2)

theorem honestRun_steps {n : Nat} (honest : staysHonest n c = true) :
    HonestRun [] c (step^[n] c) := by
  induction n generalizing c with
  | zero => exact .refl
  | succ n ih =>
      simp only [staysHonest, Bool.and_eq_true] at honest
      exact .head ⟨⟨.step c, honest_of_isHonest honest.1⟩, List.nil_suffix⟩ (ih honest.2)

theorem account_steps {n gained lost : Nat} (account : Account session T c d gained lost)
    (kept : T <:+ d.stack) (above : keepsAbove T.length n d = true) (honest : staysHonest n d = true) :
    Account session T c (step^[n] d) (gained + (tally session n d).1) (lost + (tally session n d).2) := by
  induction n generalizing d gained lost with
  | zero => exact account
  | succ n ih =>
      simp only [keepsAbove, Bool.and_eq_true] at above
      simp only [staysHonest, Bool.and_eq_true] at honest
      have within : T <:+ d.step.stack := by
        have next : Run T d d.step := run_of_keepsAbove (n := 1) kept (by simp [keepsAbove, above.1])
        exact next.suffix kept
      have later := ih (account.step (honest_of_isHonest honest.1) within) within above.2 honest.2
      simpa only [tally, Nat.add_assoc, ← Function.iterate_succ_apply] using later

end Config

/-- Calls a function of the host with a table. -/
def Client.lending (body : State → List Datum → Client Unit) : Client Unit :=
  .perform (.init { libraries := .only [.base], callbacks := { onLog := fun _ _ memory => (memory, none) } }) fun
    | .ok (some s) _ =>
      inTurn [.expose s none body, .encodeTable ⟨0, 1⟩ .nil,
        .call ⟨0, 2⟩ ⟨.composite .function ⟨0, 0⟩⟩ [.value (.composite .table ⟨0, 1⟩)]]
    | _ => .throw (.value .undefined)

/-- Gives back what it is called with. -/
def Client.givingBack (s : State) (given : List Datum) : Client Unit :=
  given.foldr (fun d rest => .perform (.release (.value d)) fun _ => rest) (.done s [])

/-- Has a table made in a session without libraries, and closes the session. -/
def Client.shutting : Client Unit :=
  .perform (.init { libraries := .only [], callbacks := { onLog := fun _ _ memory => (memory, none) } }) fun
    | .ok (some s) _ => inTurn [.encodeTable s .nil, .close ⟨0, 1⟩]
    | _ => .throw (.value .undefined)

namespace Config

/-- A function of the host is about to be called with a table. -/
def lending (body : State → List Datum → Client Unit) : Config Unit :=
  step^[10] (start { directory := default, memory := () } (Client.lending body))

/-- Does nothing wait but host code for an operation? -/
def waitsAlone (c : Config Unit) : Bool :=
  match c.stack with
  | [.perform _] => true
  | _ => false

/-- The control, what waits for it, and the slots in use in the first session. -/
def accountView (c : Config Unit) : Control Unit × Bool × Bool × Nat :=
  (c.control, waitsAlone c, (c.world.ledger 0).closed, (c.world.ledger 0).slotsInUse)

/-- What is seen of the call of a function when it begins and when it is over. -/
def lendingViews (body : State → List Datum → Client Unit) :=
  let c := lending body
  (staysHonest 10 (start { directory := default, memory := () } (Client.lending body)),
    keepsAbove 1 7 c && staysHonest 7 c, tally 0 7 c, accountView c, accountView (step^[7] c))

theorem stack_of_waitsAlone {c : Config Unit} (alone : waitsAlone c = true) :
    ∃ k, c.stack = [.perform k] := by
  rw [waitsAlone] at alone
  split at alone
  · next k stack => exact ⟨k, stack⟩
  · exact nomatch alone

/-- The function is called with a table. -/
def lendingCall : Operation Unit :=
  .call ⟨0, 2⟩ ⟨.composite .function ⟨0, 0⟩⟩ [.value (.composite .table ⟨0, 1⟩)]

/-- What the slots in use come to when the function has been called. -/
structure Lent (c d : Config Unit) (o : Outcome) (gained lost before after : Nat) : Prop where
  earned : Earned c
  control : c.control = .perform lendingCall
  waits : ∃ k, c.stack = [.perform k]
  account : Account 0 c.stack c d gained lost
  ended : d.control = .outcome o
  back : d.stack = c.stack
  before : (c.world.ledger 0).closed = false ∧ (c.world.ledger 0).slotsInUse = before
  after : (d.world.ledger 0).slotsInUse = after

theorem lent_of_views {body : State → List Datum → Client Unit} {o : Outcome} {closed : Bool}
    {gained lost before after : Nat}
    (views : lendingViews body = (true, true, (gained, lost),
      (.perform lendingCall, true, false, before), (.outcome o, true, closed, after))) :
    Lent (lending body) (step^[7] (lending body)) o gained lost before after ∧
      ((step^[7] (lending body)).world.ledger 0).closed = closed := by
  simp only [lendingViews, accountView, Prod.mk.injEq, Bool.and_eq_true] at views
  obtain ⟨honest, ⟨above, stays⟩, tally, ⟨control, alone, opened, used⟩, ended, alone', closed, after⟩ :=
    views
  obtain ⟨k, waits⟩ := stack_of_waitsAlone alone
  obtain ⟨k', waits'⟩ := stack_of_waitsAlone alone'
  have start : Account 0 (lending body).stack (lending body) (lending body) 0 0 := .refl _
  have account := account_steps start (List.suffix_refl _) (by rw [waits]; exact above) stays
  have back := (account.run.run.suffix (List.suffix_refl _)).eq_of_length (by rw [waits, waits']; rfl)
  rw [tally, Nat.zero_add, Nat.zero_add] at account
  exact ⟨⟨⟨Client.lending body, default, (), honestRun_steps honest⟩, control, ⟨k, waits⟩, account,
    ended, back.symm, ⟨opened, used⟩, after⟩, closed⟩

set_option maxRecDepth 8000 in
theorem lending_returned : lendingViews Client.givingBack = (true, true, (1, 1),
    (.perform lendingCall, true, false, 2),
    (.outcome (.ok (some ⟨0, 4⟩) (.values [])), true, false, 2)) := by
  cbv

/-- The function gives the table back that it has been handed, and as many slots are in use as before. -/
theorem lending_accounted :
    let c := lending Client.givingBack
    let d := step^[7] c
    Lent c d (.ok (some ⟨0, 4⟩) (.values [])) 1 1 2 2 ∧
      (d.world.ledger 0).slotsInUse + 1 = (c.world.ledger 0).slotsInUse + 1 ∧
      (d.world.slots 0).used = (d.world.ledger 0).slotsInUse := by
  intro c d
  obtain ⟨lent, opened⟩ := lent_of_views lending_returned
  obtain ⟨k, waits⟩ := lent.waits
  have accounted := slots_accounted lent.earned lent.control waits lent.account.run lent.ended lent.back 0
  exact ⟨lent, (accounted.2.2 1 1 lent.account).1 opened⟩

/-- A table has been made for the host, and its session is about to be closed. -/
def shutting : Config Unit := step^[7] (start { directory := default, memory := () } Client.shutting)

set_option maxRecDepth 8000 in
theorem shutting_views :
    (staysHonest 7 (start { directory := default, memory := () } Client.shutting), isHonest shutting,
      shutting.gains 0, shutting.loses 0, accountView shutting, accountView shutting.step) =
    (true, true, 0, 0, (.perform (.close ⟨0, 1⟩), true, false, 1), (.outcome (.ok none .nothing), true, true, 0)) := by
  cbv

/-- The host has given nothing back when its session is closed, and yet no slot is in use any more. -/
theorem closing_unaccounted :
    Earned shutting ∧ shutting.control = .perform (.close ⟨0, 1⟩) ∧ (∃ k, shutting.stack = [.perform k]) ∧
      Account 0 shutting.stack shutting shutting.step 0 0 ∧
      shutting.step.control = .outcome (.ok none .nothing) ∧ shutting.step.stack = shutting.stack ∧
      (shutting.step.world.ledger 0).slotsInUse + 0 ≠ (shutting.world.ledger 0).slotsInUse + 0 := by
  have views := shutting_views
  simp only [accountView, Prod.mk.injEq] at views
  obtain ⟨stays, honest, gains, loses, ⟨control, alone, -, before⟩, ended, -, -, after⟩ := views
  have earned : Earned shutting := ⟨_, default, (), honestRun_steps stays⟩
  have back : shutting.step.stack = shutting.stack := by
    rw [Config.step, control]
    rfl
  have account : Account 0 shutting.stack shutting shutting.step 0 0 := by
    have unmoved : Account 0 shutting.stack shutting shutting 0 0 := .refl shutting
    have step := unmoved.step (honest_of_isHonest honest) (back ▸ List.suffix_refl shutting.stack)
    rwa [gains, loses] at step
  refine ⟨earned, control, stack_of_waitsAlone alone, account, ended, back, ?_⟩
  rw [before, after]
  decide

end Config

end LuaHost
