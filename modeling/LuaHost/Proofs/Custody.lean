import LuaHost.Proofs.Sights
import LuaHost.Proofs.Stacks
/-!
What operations keep for themselves. Source text that is run at once is compiled for this run alone, and a call
by name has the only reference to its target. Neither is ever seen by host code: what keeps them waits on the
stack, or is handed them in the next step.
-/

namespace LuaHost

variable {σ : Type}

/-- What is given back when the wait is over. -/
def Pending.kept? : Pending σ → Option Holder
  | .ran _ s chunk => some (.chunk s.session chunk)
  | .called ref => ref.target.handle?.map .handle
  | _ => none

/-- What is handed from one part of an operation to the next. -/
def Control.kept? : Control σ → List (Pending σ) → Option Holder
  | .outcome (.ok (some s) (.chunk chunk _)), .compiled _ :: _ => some (.chunk s.session chunk)
  | .outcome (.ok _ (.reference ref)), .resolved _ _ _ :: _ => ref.target.handle?.map .handle
  | _, _ => none

namespace Posture

/-- What is kept for parts of operations, the innermost first. -/
def kept (p : Posture σ) : List Holder :=
  (p.control.kept? p.stack).toList ++ p.stack.filterMap Pending.kept?

end Posture

theorem Outcome.IsOk.of_eq {o : Outcome} {s : Option State} {r : Result} (same : o = .ok s r) :
    o.IsOk := by
  rw [same]
  trivial

theorem Control.kept?_not_ok {o : Outcome} {T : List (Pending σ)} (failed : ¬ o.IsOk) :
    (Control.outcome o).kept? T = none := by
  cases o with
  | ok => exact absurd trivial failed
  | err | threw => rfl

/-- Host code is handed nothing that is kept. -/
theorem Control.kept?_perform (o : Outcome) (k : Outcome → Client σ) (T : List (Pending σ)) :
    (Control.outcome o).kept? (.perform k :: T) = none := by
  simp only [Control.kept?]

namespace World

/-- Accounts and slots are as they were; something may have been said about a failure. -/
def Beneath (w w' : World σ) : Prop := w'.ledgers = w.ledgers ∧ w'.holdings = w.holdings

theorem beneath_overlooks : Overlooks (Beneath (σ := σ)) where
  refl := fun _ => ⟨rfl, rfl⟩
  trans := fun first second => ⟨second.1.trans first.1, second.2.trans first.2⟩
  memory := fun _ _ => ⟨rfl, rfl⟩
  identity := fun _ => ⟨rfl, rfl⟩
  raised := fun _ _ => ⟨rfl, rfl⟩
  machines := fun w session f same => ⟨rfl, w.modifyMachine_holdings session f same⟩

/-- There has been such a holder, whether or not it still has its slot. -/
def Acquainted (w : World σ) : Holder → Prop
  | .handle h => w.Knows h
  | .chunk _ chunk => chunk < w.chunks.size

/-- A holder that has not been there is there now, and has a slot. -/
structure Introduces (w w' : World σ) (x : Holder) : Prop where
  new : ¬ w.Acquainted x
  acquainted : w'.Acquainted x
  held : w'.slot? x ≠ none

theorem Introduces.congr {w w₀ w' : World σ} {x : Holder} (introduces : w.Introduces w' x)
    (same : w.holdings = w₀.holdings) (chunks : w.chunks = w₀.chunks) : w₀.Introduces w' x where
  new := by
    intro known
    refine introduces.new ?_
    cases x with
    | handle h =>
        exact Knows.congr known same
    | chunk => rwa [Acquainted, chunks]
  acquainted := introduces.acquainted
  held := introduces.held

theorem opened_of_accepted {w : World σ} {s : State} (accepted : w.stateViolation? s = none) :
    s.session < w.ledgers.size := by
  have opened := ((w.stateViolation?_eq_none s).mp accepted).1
  rw [← closed_eq] at opened
  exact opened_lt opened

/-- A chunk that is compiled has its slot then. -/
theorem compile_held {w w' : World σ} {session chunk slot : Nat} (opened : session < w.ledgers.size)
    (compiled : w.compile session chunk = (w', .ok slot)) : w'.slot? (.chunk session chunk) ≠ none := by
  rw [compile] at compiled
  split at compiled
  · next slot' held =>
      obtain ⟨rfl, -⟩ := Prod.mk.inj compiled
      exact fun none => nomatch held.symm.trans none
  · split at compiled
    · exact nomatch (Prod.mk.inj compiled).2
    · next p _ =>
        obtain ⟨rfl, -⟩ : (w.keepCompiled session chunk p).1 = w' ∧
            (w.keepCompiled session chunk p).2 = slot := by simpa using compiled
        have ledger : (w.keepCompiled session chunk p).1.ledger session =
            (w.ledger session).addCompiled chunk (w.keepCompiled session chunk p).2 :=
          (ledger_modifyLedger _ session session _).trans (if_pos ⟨rfl, opened⟩)
        rw [slot?, Holder.session, ledger, Ledger.held?, Ledger.compiledSlot?_addCompiled]
        exact Option.some_ne_none _

theorem load_held {w : World σ} {session chunk : Nat} (opened : session < w.ledgers.size)
    (ok : (w.load session chunk).2.IsOk) : (w.load session chunk).1.slot? (.chunk session chunk) ≠ none := by
  rw [load] at ok ⊢
  split at ok
  · next w' o failed => exact absurd ok (compile_error w failed).1
  · next w' slot compiled =>
      rw [slot?_congr (w'.succeed_holdings session _)]
      exact compile_held opened compiled

theorem chunks_giveBack (w : World σ) (x : Holder) : (w.giveBack x).chunks = w.chunks := by
  have vacated (session slot : Nat) : (w.vacate session slot).chunks = w.chunks := by
    rw [vacate]
    split <;> rfl
  cases x with
  | handle h =>
      rw [giveBack, releaseHandle]
      split
      · rfl
      · exact vacated _ _
  | chunk session chunk =>
      rw [giveBack, releaseChunk]
      split
      · rfl
      · exact vacated _ _

/-- A holder is not forgotten. -/
theorem Changes.acquainted {w w' : World σ} (changes : w.Changes w') {x : Holder}
    (acquainted : w.Acquainted x) : w'.Acquainted x := by
  induction changes with
  | refl => exact acquainted
  | trans _ _ ih ih' => exact ih' (ih acquainted)
  | marks session f same _ =>
      cases x with
      | handle h =>
          refine Knows.modifyLedger acquainted session fun l => Nat.le_of_eq ?_
          rw [Ledger.nextHandle, Ledger.nextHandle, (Prod.mk.inj (same l)).1]
      | chunk => exact acquainted
  | chunk chunk =>
      cases x with
      | handle h => exact acquainted
      | chunk session chunk =>
          exact Nat.lt_of_lt_of_le acquainted (by simp [addChunk])
  | opens options =>
      cases x with
      | handle h =>
          rw [Acquainted, Knows, Ledger.nextHandle, handles_eq, openSession_accounts, ← handles_eq]
          exact acquainted
      | chunk => exact acquainted
  | pins session v =>
      cases x with
      | handle h =>
          refine Knows.modifyLedger acquainted session fun l => ?_
          simp [Ledger.addHandle, Ledger.nextHandle]
      | chunk => exact acquainted
  | compiles session chunk =>
      cases x with
      | handle h => exact Knows.modifyLedger acquainted session fun l => Nat.le_refl _
      | chunk => exact acquainted
  | releases h =>
      cases x with
      | handle => exact Knows.releaseHandle acquainted h
      | chunk =>
          exact Nat.lt_of_lt_of_eq acquainted (congrArg Array.size (chunks_giveBack _ (.handle h)).symm)
  | releasesChunk session chunk =>
      cases x with
      | handle => exact Knows.releaseChunk acquainted session chunk
      | chunk =>
          exact Nat.lt_of_lt_of_eq acquainted
            (congrArg Array.size (chunks_giveBack _ (.chunk session chunk)).symm)
  | machine | exposes | memory | identity | raises => cases x <;> exact acquainted

end World

namespace Operation

theorem Compiles.free {op : Operation σ} {s : State} (compiles : op.Compiles s) :
    op.subject? ≠ none := by
  cases op with
  | load | loadFile => exact fun h => nomatch h
  | _ => exact compiles.elim

theorem Compiles.stays {op : Operation σ} {s : State} (compiles : op.Compiles s) (entry : State)
    (purpose : Purpose) : ¬ op.Enters entry purpose := by
  intro enters
  cases enters <;> exact compiles

end Operation

namespace Move
variable {p q : Posture σ}

/-- A part of an operation takes something into custody: text that has been compiled to be run, or the target
of a call by name. -/
inductive Takes (p q : Posture σ) : Prop
  | compiles {op s T} (control : p.control = .perform op) (compiles : op.Compiles s)
      (waits : p.stack = .compiled s :: T) (stays : q.stack = p.stack)
  | finds {session entry keys s arguments T} (control : p.control = .guest session)
      (waits : p.stack = .guest entry (.lookup keys true) :: .resolved s keys arguments :: T)
      (stays : q.stack = p.stack.tail)

/-- What a part of an operation keeps from now on, and why it does. -/
structure Keeps (p q : Posture σ) : Prop where
  kept : q.kept = (q.control.kept? q.stack).toList ++ p.kept
  takes : ∀ x, q.control.kept? q.stack = some x → Takes p q

theorem kept?_working {control : Control σ} (working : ∀ o, control ≠ .outcome o)
    (T : List (Pending σ)) : control.kept? T = none := by
  cases control with
  | outcome o => exact absurd rfl (working o)
  | _ => rfl

theorem Keeps.taken (working : ∀ o, p.control ≠ .outcome o)
    (same : q.stack.filterMap Pending.kept? = p.stack.filterMap Pending.kept?) (takes : Takes p q) :
    Keeps p q where
  kept := by
    simp only [Posture.kept, kept?_working working, same]
    rfl
  takes := fun _ _ => takes

theorem Keeps.nothing (working : ∀ o, p.control ≠ .outcome o)
    (same : q.stack.filterMap Pending.kept? = p.stack.filterMap Pending.kept?)
    (none : q.control.kept? q.stack = none) : Keeps p q where
  kept := by
    simp only [Posture.kept, kept?_working working, same]
    rfl
  takes := fun x taken => nomatch none.symm.trans taken

/-- Nothing is given back before an outcome is there. -/
theorem kept_working (m : Move p q) (proper : p.Proper) (going : ∀ r, q.control ≠ .finished r)
    (working : ∀ o, p.control ≠ .outcome o) : Keeps p q := by
  obtain ⟨fits, stacked⟩ := proper
  cases m with
  | idle => exact .nothing working rfl (kept?_working working _)
  | works | guestWaits | loadWaits | performs | enters | builds | calls | answers | gotKey
  | gotValue => exact .nothing working rfl rfl
  | proceeds S path next T => cases fits <;> exact .nothing working rfl rfl
  | finishes S control r => exact absurd rfl (going r)
  | begins S op op' f T h => cases h <;> exact .nothing working rfl rfl
  | fails S op o T failed => exact .nothing working rfl (Control.kept?_not_ok failed)
  | guestFails S session entry purpose o T failed =>
      exact .nothing working rfl (Control.kept?_not_ok failed)
  | ends S op r T free =>
      cases fits with
      | perform _ _ fits =>
          cases fits with
          | compiled _ s _ compiles => exact nomatch compiles.free free
          | perform => exact .nothing working rfl (Control.kept?_perform _ _ _)
          | resolved | ran | called => exact nomatch free
  | closes | opens =>
      cases fits with
      | perform _ _ fits =>
          cases fits with
          | compiled _ s _ compiles => exact compiles.elim
          | perform => exact .nothing working rfl (Control.kept?_perform _ _ _)
  | succeeds S op s r T subject accepted gives =>
      cases fits with
      | perform _ _ fits =>
          cases fits with
          | resolved => exact absurd trivial gives
          | perform => exact .nothing working rfl (Control.kept?_perform _ _ _)
          | ran | called => exact .nothing working rfl (by simp only [Control.kept?])
          | compiled _ origin T compiles => exact .taken working rfl (.compiles rfl compiles rfl rfl)
  | guestTells S session entry keys asReference r T reference =>
      cases stacked with
      | cons fits =>
          cases fits with
          | guest _ _ _ _ enters fits =>
              cases fits with
              | compiled _ s _ compiles => exact absurd enters (compiles.stays _ _)
              | ran | called => exact nomatch enters
              | perform => exact .nothing working rfl (Control.kept?_perform _ _ _)
              | resolved s keys arguments T =>
                  cases enters
                  exact .taken working rfl (.finds rfl rfl rfl)
  | guestReturns S session entry purpose r T gives =>
      cases stacked with
      | cons fits =>
          cases fits with
          | guest _ _ _ _ enters fits =>
              cases fits with
              | compiled _ s _ compiles => exact absurd enters (compiles.stays _ _)
              | perform => exact .nothing working rfl (Control.kept?_perform _ _ _)
              | ran | called => exact .nothing working rfl (by simp only [Control.kept?])
              | resolved s keys arguments T =>
                  cases enters
                  exact gives.elim
  | built | abandonsKey | abandonsValue =>
      cases stacked with
      | cons fits => cases fits <;> exact .nothing working rfl (Control.kept?_perform _ _ _)
  | resumes | handsOn | settles | runs | callsTarget | refusesTarget => exact absurd rfl (working _)

end Move

namespace Config
variable {c d : Config σ} {w : World σ} {o : Outcome} {T : List (Pending σ)}

def kept (c : Config σ) : List Holder := c.posture.kept

@[simp] theorem kept_perform (w : World σ) (o : Outcome) (k : Outcome → Client σ)
    (T : List (Pending σ)) : kept ⟨w, .outcome o, .perform k :: T⟩ = T.filterMap Pending.kept? := by
  simp only [kept, posture, Posture.kept, Control.kept?]
  rfl

/-- A call by name that waits for its end keeps its target. -/
theorem kept_called (w : World σ) (control : Control σ) (ref : Reference) (k : Outcome → Client σ)
    (T : List (Pending σ)) : kept ⟨w, control, .called ref :: .perform k :: T⟩ =
      (ref.target.handle?.map Holder.handle).toList ++ T.filterMap Pending.kept? := by
  have control : control.kept? (.called ref :: .perform k :: T) = none := by
    rw [Control.kept?.eq_def]
    split
    · next h => exact nomatch h
    · next h => exact nomatch h
    · rfl
  simp only [kept, posture, Posture.kept, control]
  cases handle : ref.target.handle? <;> simp [Pending.kept?, handle] <;> rfl

theorem ran_step (w : World σ) (o : Outcome) (origin s : State) (chunk : Nat) (T : List (Pending σ)) :
    ∃ w', step ⟨w, .outcome o, .ran origin s chunk :: T⟩ = ⟨w', .outcome o, T⟩ ∧
      w'.holdings = (w.releaseChunk s.session chunk).holdings := by
  simp only [step, outcomeStep, ran]
  split
  · exact ⟨_, rfl, World.restore_holdings _ _⟩
  · exact ⟨_, rfl, rfl⟩

/-- The target of a call by name is called, or is given back. -/
theorem resolved_step (w : World σ) (given : Option State) (ref : Reference) (s : State)
    (keys : List String) (arguments : List Item) (T : List (Pending σ)) :
    step ⟨w, .outcome (.ok given (.reference ref)), .resolved s keys arguments :: T⟩ =
        ⟨w, .perform (.call s ref arguments), .called ref :: T⟩ ∨
      ∃ (w' : World σ) (o : Outcome),
        step ⟨w, .outcome (.ok given (.reference ref)), .resolved s keys arguments :: T⟩ =
          ⟨w'.release (.reference ref), .outcome o, T⟩ ∧ w.Beneath w' := by
  simp only [step, outcomeStep, resolved]
  split
  · exact .inl rfl
  · split
    · exact .inl rfl
    · exact .inr ⟨_, _, rfl, World.beneath_overlooks.fail w _ _⟩

/-- What becomes of what is kept when an outcome is there: nothing, or the innermost of it is given back. -/
inductive Yields (w : World σ) (before : List Holder) (d : Config σ) : Prop
  | nothing (kept : d.kept = before) (same : d.world.holdings = w.holdings)
  | holder (x : Holder) (w' : World σ) (kept : before = x :: d.kept) (beneath : w.Beneath w')
      (back : d.world.holdings = (w'.giveBack x).holdings)

/-- A reference gives back the handle of its target, if the target has one. -/
theorem yields_reference {w' : World σ} (ref : Reference) (beneath : w.Beneath w') (o : Outcome)
    (k : Outcome → Client σ) (T : List (Pending σ)) :
    Yields w ((ref.target.handle?.map Holder.handle).toList ++ T.filterMap Pending.kept?)
      ⟨w'.release (.reference ref), .outcome o, .perform k :: T⟩ := by
  have same : (Item.reference ref).datum = ref.target := rfl
  cases handle : ref.target.handle? with
  | none =>
      refine .nothing (kept_perform _ _ _ _) ?_
      simp only [World.release, same, handle]
      exact beneath.2
  | some h =>
      refine .holder (.handle h) w' ?_ beneath ?_
      · rw [kept_perform]
        rfl
      · simp only [World.release, same, handle]
        rfl

theorem outcome_kept (awaits : AwaitsOutcome T) (stacked : Stacked T) :
    Yields w (kept ⟨w, .outcome o, T⟩) (step ⟨w, .outcome o, T⟩) := by
  cases stacked with
  | nil => exact awaits.elim
  | cons fits =>
  cases fits with
  | perform k => exact .nothing (kept_perform w o k _).symm rfl
  | compiled s k T =>
      simp only [step, outcomeStep]
      rw [ranCompiled.eq_def]
      split
      · exact .nothing rfl rfl
      · next whole =>
          refine .nothing ((kept_perform w o k T).trans ?_) rfl
          simp only [kept, posture, Posture.kept]
          rw [Control.kept?.eq_def]
          split
          · next h _ => exact absurd (Control.outcome.inj h) (whole _ _ _)
          · next h => cases h
          · rfl
  | ran origin s chunk k T =>
      obtain ⟨w', stepped, same⟩ := ran_step w o origin s chunk (.perform k :: T)
      rw [stepped]
      refine .holder (.chunk s.session chunk) w ?_ (World.beneath_overlooks.refl w) same
      rw [kept_perform]
      simp only [kept, posture, Posture.kept, Control.kept?]
      rfl
  | resolved s keys arguments k T =>
      by_cases found : ∃ given ref, o = .ok given (.reference ref)
      · obtain ⟨given, ref, rfl⟩ := found
        have before : kept ⟨w, .outcome (.ok given (.reference ref)),
            .resolved s keys arguments :: .perform k :: T⟩ =
              (ref.target.handle?.map Holder.handle).toList ++ T.filterMap Pending.kept? := by
          simp only [kept, posture, Posture.kept, Control.kept?]
          rfl
        rcases resolved_step w given ref s keys arguments (.perform k :: T) with
          calls | ⟨w', o, refused, beneath⟩
        · rw [calls, before]
          exact .nothing (kept_called ..) rfl
        · rw [refused, before]
          exact yields_reference ref beneath _ _ _
      · have whole : ∀ given ref, o ≠ .ok given (.reference ref) := fun given ref same => found ⟨given, ref, same⟩
        simp only [step, outcomeStep]
        rw [resolved.eq_def]
        split
        · exact absurd rfl (whole _ _)
        · refine .nothing ((kept_perform w o k T).trans ?_) rfl
          simp only [kept, posture, Posture.kept]
          rw [Control.kept?.eq_def]
          split
          · next h => cases h
          · next h _ => exact absurd (Control.outcome.inj h) (whole _ _)
          · rfl
  | called ref k T =>
      rw [kept_called]
      exact yields_reference ref (World.beneath_overlooks.refl w) _ _ _
  | body | guest | key | value => exact awaits.elim

/-- Nothing is kept when host code has come to its end. -/
theorem kept_over (proper : c.posture.Proper) (halted : ¬ c.IsGoing) : c.kept = [] := by
  obtain ⟨w, control, T⟩ := c
  obtain ⟨r, rfl⟩ : ∃ r, control = .finished r := by simpa [IsGoing] using halted
  have fits : Control.Fits _ T := proper.control
  cases fits
  rfl

/-! ### Who has been there -/

/-- What a session has just been given for an object is behind a new handle. -/
theorem receive_introduces {session : Nat} {v : Guest.Value} {h : Handle}
    (opened : session < w.ledgers.size) (handle : (w.receive session v).2.handle? = some h) :
    w.Introduces (w.receive session v).1 (.handle h) := by
  have pinned : w.Introduces (w.pin session v).1 (.handle (w.pin session v).2) := by
    have added : (w.pin session v).1.ledger session =
        (w.ledger session).addHandle (w.machine session).slots.next := by
      simp only [World.pin]
      rw [World.ledger_modifyLedger, if_pos ⟨rfl, opened⟩]
      rfl
    have handle : (w.pin session v).2 = ⟨session, (w.ledger session).nextHandle⟩ := rfl
    refine ⟨Nat.lt_irrefl _, ?_, ?_⟩
    · rw [handle, World.Acquainted, World.Knows, added]
      simp [Ledger.addHandle, Ledger.nextHandle]
    · have slot : ((w.pin session v).1.ledger session).slot? (w.ledger session).nextHandle =
          some (w.machine session).slots.next := by
        rw [added]
        exact Ledger.slot?_addHandle_next _ _
      rw [handle]
      exact slot.trans_ne (Option.some_ne_none _)
  cases v with
  | nil | bool | int | float | string => cases handle
  | table | closure | builtin | host | userdata | light | thread =>
      cases handle
      exact pinned

theorem kept?_compiled {control : Control σ} {s : State} {x : Holder}
    (kept : control.kept? (.compiled s :: T) = some x) : ∃ t chunk text,
      control = .outcome (.ok (some t) (.chunk chunk text)) ∧ x = .chunk t.session chunk := by
  rw [Control.kept?.eq_def] at kept
  split at kept
  · next t chunk text _ _ _ => exact ⟨t, chunk, text, rfl, (Option.some.inj kept).symm⟩
  · next h => exact nomatch h
  · exact nomatch kept

theorem kept?_resolved {control : Control σ} {s : State} {keys : List String} {arguments : List Item}
    {x : Holder} (kept : control.kept? (.resolved s keys arguments :: T) = some x) :
    ∃ given ref h, control = .outcome (.ok given (.reference ref)) ∧ ref.target.handle? = some h ∧
      x = .handle h := by
  rw [Control.kept?.eq_def] at kept
  split at kept
  · next h => exact nomatch h
  · next given ref _ _ _ _ _ =>
      obtain ⟨h, handle, same⟩ := Option.map_eq_some_iff.mp kept
      exact ⟨given, ref, h, rfl, handle, same.symm⟩
  · exact nomatch kept

/-- Source text that is loaded is the newest chunk. -/
theorem loading_chunk {s : State} {chunk : Chunk} {given : Option State} {id : Nat} {text : Chunk}
    (gave : (c.loading s chunk).control = .outcome (.ok given (.chunk id text))) :
    id = c.world.chunks.size := by
  have gave : ((c.world.addChunk chunk).1.load s.session c.world.chunks.size).2 =
      .ok given (.chunk id text) := Control.outcome.inj gave
  rcases (c.world.addChunk chunk).1.load_cases s.session c.world.chunks.size with ⟨failed, -⟩ | ⟨-, same⟩
  · rw [gave] at failed
    exact absurd trivial failed
  · rw [gave] at same
    cases same
    rfl

/-- Text that has just been loaded is a new chunk, and is compiled. -/
theorem loading_introduces {s t : State} {source : Chunk} {chunk : Nat} {text : Chunk}
    (opened : s.session < c.world.ledgers.size)
    (gave : (c.loading s source).control = .outcome (.ok (some t) (.chunk chunk text))) :
    c.world.Introduces (c.loading s source).world (.chunk t.session chunk) := by
  obtain rfl := loading_chunk gave
  have gave : ((c.world.addChunk source).1.load s.session c.world.chunks.size).2 =
    .ok (some t) (.chunk c.world.chunks.size text) := Control.outcome.inj gave
  have same : t.session = s.session := by
    rcases (c.world.addChunk source).1.load_cases s.session c.world.chunks.size with
      ⟨failed, -⟩ | ⟨-, ended⟩
    · rw [gave] at failed
      exact absurd trivial failed
    · rw [gave] at ended
      cases ended
      rfl
  refine ⟨Nat.lt_irrefl _, ?_, ?_⟩
  · refine (World.load_changes s.session _).acquainted (x := .chunk t.session c.world.chunks.size) ?_
    simp [World.Acquainted]
  · rw [same]
    exact World.load_held opened (Outcome.IsOk.of_eq gave)

theorem compiling_introduces {op : Operation σ} {s t : State} {chunk : Nat} {text : Chunk}
    (compiles : op.Compiles s)
    (gave : (c.perform op).control = .outcome (.ok (some t) (.chunk chunk text))) :
    c.world.Introduces (c.perform op).world (.chunk t.session chunk) := by
  cases op with
  | load s' source name =>
      simp only [perform, requiring] at gave ⊢
      split at gave
      · cases gave
      · next accepted =>
          exact loading_introduces (World.opened_of_accepted accepted) gave
  | loadFile s' path =>
      simp only [perform, loadingFile, requiring] at gave ⊢
      split at gave
      · cases gave
      · next accepted =>
          rw [readingFile] at gave ⊢
          split at gave
          · cases gave
          · next outcome _ =>
              cases outcome with
              | ok content =>
                  exact loading_introduces (World.opened_of_accepted accepted) gave
              | error e =>
                  exact absurd (Outcome.IsOk.of_eq (Control.outcome.inj gave)) (World.fail_not_ok _ _ _)
  | _ => exact compiles.elim

/-- The guest is left for good when it has come to the end of its call. -/
theorem guest_left {session : Nat} {entry : State} {purpose : Purpose} (control : c.control = .guest session)
    (waits : c.stack = .guest entry purpose :: T) (ended : c.step.control = .outcome o) :
    ∃ signal, ((c.world.modifyMachine session (·.run portion)).machine session).signal = some signal ∧
      c.step = leaving { c with world := c.world.modifyMachine session (·.run portion) } entry purpose T
        signal := by
  obtain ⟨w, _, _⟩ := c
  cases control
  cases waits
  change (guestStep _ session).control = _ at ended
  rw [step]
  dsimp only
  rw [guestStep] at ended ⊢
  dsimp only at ended ⊢
  split at ended
  · cases ended
  · rw [invoking] at ended
    split at ended
    · cases ended
    · dsimp only at ended
      split at ended <;> cases ended
  · rw [logging] at ended
    split at ended <;> cases ended
  · rw [readingForGuest, readingFile] at ended
    split at ended <;> cases ended
  · next signal _ _ _ stopped => exact ⟨signal, stopped, rfl⟩

/-- The target of a call by name is behind a handle that is made for it. -/
theorem found_introduces {entry : State} {keys : List String} {signal : Guest.Signal}
    {given : Option State} {ref : Reference} {h : Handle} (opened : entry.session < c.world.ledgers.size)
    (working : ∀ o, c.control ≠ .outcome o)
    (gave : (c.leaving entry (.lookup keys true) T signal).control = .outcome (.ok given (.reference ref)))
    (handle : ref.target.handle? = some h) :
    c.world.Introduces (c.leaving entry (.lookup keys true) T signal).world (.handle h) := by
  cases signal with
  | failed status error traceback =>
      exact absurd (Outcome.IsOk.of_eq (Control.outcome.inj gave)) (World.failCall_not_ok _ _ _)
  | finished values =>
      simp only [leaving, returned] at gave ⊢
      split at gave
      · exact absurd (Outcome.IsOk.of_eq (Control.outcome.inj gave)) (World.fail_not_ok _ _ _)
      · next v _ =>
          split at gave
          · exact absurd (Outcome.IsOk.of_eq (Control.outcome.inj gave)) (World.fail_not_ok _ _ _)
          · next present =>
              obtain ⟨-, same⟩ := Outcome.ok.inj (Control.outcome.inj gave)
              rw [if_pos trivial] at same
              cases same
              simp only [if_neg present]
              have introduces := receive_introduces (w := c.world.restore entry)
                (by simpa [World.restore, World.modifyLedger] using opened) handle
              exact introduces.congr (World.restore_holdings _ _) rfl
  | hostCall | log | readFile => exact absurd gave (working _)

/-- What is taken into custody has not been there before. -/
theorem takes_introduces (sound : c.posture.Sound)
    (takes : Move.Takes c.posture c.step.posture) {x : Holder}
    (kept : c.step.control.kept? c.step.stack = some x) : c.world.Introduces c.step.world x := by
  cases takes with
  | @compiles op s T control compiles waits stays =>
      have stays : c.step.stack = .compiled s :: T := stays.trans waits
      rw [stays] at kept
      obtain ⟨t, chunk, text, gave, rfl⟩ := kept?_compiled kept
      have control : c.control = .perform op := control
      rw [step, control] at gave ⊢
      exact compiling_introduces compiles gave
  | @finds session entry keys s arguments T control waits stays =>
      have stays : c.step.stack = .resolved s keys arguments :: T :=
        stays.trans (congrArg List.tail waits)
      rw [stays] at kept
      obtain ⟨given, ref, h, gave, handle, rfl⟩ := kept?_resolved kept
      obtain ⟨signal, -, left⟩ := guest_left control waits gave
      rw [left] at gave ⊢
      have issued := sound.revived (.guest entry (.lookup keys true))
        (waits.symm ▸ List.mem_cons_self) entry rfl
      have introduces := found_introduces (c := { c with world := c.world.modifyMachine session (·.run portion) })
        ?_ (fun o h => by cases control.symm.trans h) gave handle
      · exact introduces.congr (c.world.modifyMachine_holdings session _ fun m => m.run_slots portion) rfl
      · simpa [posture, World.standing, World.modifyMachine] using issued.1

theorem Next.acquainted (next : Next c d) (reachable : Reachable c)
    (known : ∀ x ∈ c.kept, c.world.Acquainted x) : ∀ x ∈ d.kept, d.world.Acquainted x := by
  have old {x : Holder} (mem : x ∈ c.kept) : c.step.world.Acquainted x :=
    c.step_changes.acquainted (known x mem)
  cases next with
  | surroundings directory memory =>
      intro x mem
      have here := known x mem
      cases x <;> exact here
  | step =>
      obtain ⟨fits, stacked⟩ := reachable.proper
      by_cases going : c.step.IsGoing
      · by_cases working : ∀ o, c.control ≠ .outcome o
        · have keeps := c.step_move.kept_working reachable.proper going working
          have more : c.step.kept = (c.step.control.kept? c.step.stack).toList ++ c.kept := keeps.kept
          intro y mem
          rw [more] at mem
          rcases List.mem_append.mp mem with new | mem
          · have taken := Option.mem_toList.mp new
            exact (takes_introduces reachable.sound (keeps.takes y taken) taken).acquainted
          · exact old mem
        · obtain ⟨w, control, T⟩ := c
          obtain ⟨o, rfl⟩ : ∃ o, control = .outcome o := by simpa using working
          have fits : (Control.outcome o).Fits T := fits
          cases fits with
          | outcome _ _ awaits =>
              intro x mem
              cases outcome_kept (w := w) (o := o) awaits stacked with
              | nothing same => exact old (same ▸ mem)
              | holder y w' kept => exact old (kept ▸ List.mem_cons_of_mem _ mem)
      · have nothing : c.step.kept = [] := kept_over ((Next.step c).proper reachable.proper) going
        intro x mem
        rw [nothing] at mem
        exact nomatch mem

/-- Whatever is kept, there has been such a holder. -/
theorem Reachable.acquainted (reachable : Reachable c) : ∀ x ∈ c.kept, c.world.Acquainted x := by
  obtain ⟨client, directory, memory, run⟩ := reachable
  induction run with
  | refl => exact fun x mem => nomatch mem
  | @tail c d before next ih =>
      exact next.1.acquainted ⟨client, directory, memory, before⟩ ih

end Config

end LuaHost
