import LuaHost.Proofs.Moves
import LuaHost.Proofs.Records
/-!
What a step of a configuration can change in the world. Whatever guests, hooks and host code do, slots are
only taken for new handles and newly compiled chunks, and given back by their holders, so that every step
goes on with the record of what holders were made for; and no failure that was raised in a guest is
forgotten.
-/

namespace LuaHost

namespace World
variable {σ : Type} (w : World σ)

/-! ### What holders do not notice -/

@[simp] theorem restore_holdings (s : State) : (w.restore s).holdings = w.holdings :=
  w.modifyLedger_holdings _ _ fun _ => rfl

@[simp] theorem advance_holdings (session : Nat) : (w.advance session).1.holdings = w.holdings :=
  w.modifyLedger_holdings _ _ fun _ => rfl

@[simp] theorem succeed_holdings (session : Nat) (r : Result) :
    (w.succeed session r).1.holdings = w.holdings :=
  w.advance_holdings session

/-- A relation of worlds that has no regard to which states are accepted either. -/
structure Disregards (R : World σ → World σ → Prop) : Prop extends Overlooks R where
  marks : ∀ w session f, (∀ l, ((f l).handles, (f l).compiled) = (l.handles, l.compiled)) →
    (∀ l, l.closed = true → (f l).closed = true) → R w (w.modifyLedger session f)

/-- Holders have nothing to do with failures and states. -/
theorem holdings_disregards : Disregards fun w w' : World σ => w'.holdings = w.holdings where
  refl := fun _ => rfl
  trans := fun first second => second.trans first
  memory := fun _ _ => rfl
  identity := fun _ => rfl
  raised := fun _ _ => rfl
  machines := modifyMachine_holdings
  marks := fun w session f same _ => w.modifyLedger_holdings session f same

/-- A guest function for host code is kept with its session, not with the holders. -/
theorem exposing_holdings (session : Nat) (f : Vm σ → Vm σ)
    (same : ∀ v, (f v).machine = v.machine) :
    ({ w with vms := w.vms.modify session f } : World σ).holdings = w.holdings := by
  simp only [holdings, Holdings.mk.injEq, true_and]
  rw [map_modify _ _ _ _ id fun v => congrArg (·.slots) (same v), modify_id]

/-! ### Changes -/

/-- What can become of a world, change by change. -/
inductive Changes : World σ → World σ → Prop
  | refl (w : World σ) : Changes w w
  | trans {w w' w'' : World σ} (first : Changes w w') (second : Changes w' w'') : Changes w w''
  /-- The account of a session changes apart from its holders; a session that is closed stays closed. -/
  | marks {w : World σ} (session : Nat) (f : Ledger → Ledger)
      (same : ∀ l, ((f l).handles, (f l).compiled) = (l.handles, l.compiled))
      (closed : ∀ l, l.closed = true → (f l).closed = true) : Changes w (w.modifyLedger session f)
  /-- A guest runs, is called or is answered. -/
  | machine {w : World σ} (session : Nat) (f : Guest.Machine → Guest.Machine)
      (same : ∀ m, (f m).slots = m.slots) : Changes w (w.modifyMachine session f)
  | exposes {w : World σ} (session : Nat) (f : Vm σ → Vm σ) (same : ∀ v, (f v).machine = v.machine) :
      Changes w { w with vms := w.vms.modify session f }
  | memory {w : World σ} (memory : σ) : Changes w { w with memory }
  | identity {w : World σ} : Changes w w.freshIdentity.1
  | chunk {w : World σ} (chunk : Chunk) : Changes w (w.addChunk chunk).1
  | raises {w : World σ} (entry : Nat × Fault) : Changes w { w with raised := entry :: w.raised }
  | opens {w : World σ} (options : Options σ) : Changes w (w.openSession options).1
  | pins {w : World σ} (session : Nat) (v : Guest.Value) : Changes w (w.pin session v).1
  | compiles {w : World σ} {p : Guest.Prototype} (session chunk : Nat)
      (new : (w.ledger session).compiledSlot? chunk = none)
      (compiled : (w.chunk chunk).compile (w.machine session).mainDepth = .ok p) :
      Changes w (w.keepCompiled session chunk p).1
  | releases {w : World σ} (h : Handle) : Changes w (w.releaseHandle h)
  | releasesChunk {w : World σ} (session chunk : Nat) : Changes w (w.releaseChunk session chunk)

theorem changes_disregards : Disregards (Changes (σ := σ)) where
  refl := .refl
  trans := .trans
  memory := fun _ => .memory
  identity := fun _ => .identity
  raised := fun _ => .raises
  machines := fun _ => .machine
  marks := fun _ => .marks

variable {w} {w' w'' : World σ}

theorem restore_changes (s : State) : w.Changes (w.restore s) := .marks _ _ (fun _ => rfl) fun _ h => h

theorem advance_changes (session : Nat) : w.Changes (w.advance session).1 :=
  .marks _ _ (fun _ => rfl) fun _ h => h

theorem succeed_changes (session : Nat) (r : Result) : w.Changes (w.succeed session r).1 :=
  advance_changes session

theorem fail_changes (session : Nat) (fault : Fault) : w.Changes (w.fail session fault).1 :=
  changes_disregards.fail w session fault

theorem release_changes (item : Item) : w.Changes (w.release item) := by
  unfold release
  split
  · exact .releases _
  · exact .refl w

theorem receive_changes (session : Nat) (v : Guest.Value) :
    w.Changes (w.receive session v).1 := by
  cases v with
  | nil | bool | int | float | string => exact .refl w
  | table | closure | builtin | host | userdata | light | thread => exact .pins session _

theorem changes_reading : Reading (Changes (σ := σ)) where
  refl := .refl
  trans := Changes.trans
  receive := fun _ => receive_changes

theorem decode_changes (d : Datum) (decoder : Decoder) : w.Changes (w.decode d decoder).1 := by
  have read := changes_reading.decodeWith decoder w d
  unfold decode
  split
  · next w' x decoded => simpa [decoded] using read
  · next w' fault refused =>
      rw [refused] at read
      exact read.trans .identity
  · next w' e o path refused =>
      rw [refused] at read
      exact read.trans .identity

theorem expose_changes (session : Nat) (name : String) (body : State → List Datum → Client σ) :
    w.Changes (w.expose session name body).1 := by
  refine .trans (.exposes session _ fun _ => ?_) (receive_changes session _)
  rfl

theorem readFailure_changes (session : Nat) (status : Guest.Status) (error : Guest.Value)
    (traceback : Option Guest.Bytes) :
    w.Changes (w.readFailure session status error traceback).1 := by
  unfold readFailure
  split
  · exact .identity
  · split
    · exact .refl w
    · exact (receive_changes session _).trans .identity
  · exact .identity

theorem compile_changes (session chunk : Nat) : w.Changes (w.compile session chunk).1 := by
  unfold compile
  split
  · exact .refl w
  · next new =>
      split
      · exact fail_changes session _
      · next p compiled => exact .compiles session chunk new compiled

theorem load_changes (session chunk : Nat) : w.Changes (w.load session chunk).1 := by
  have compiles := w.compile_changes session chunk
  unfold load
  split
  · next w' o failed =>
      rw [failed] at compiles
      exact compiles
  · next w' slot compiled =>
      rw [compiled] at compiles
      exact compiles.trans (succeed_changes session _)

/-- Ends of a call of the guest: what it gives is read after its state has become the head again. -/
theorem returned_changes (session : Nat) (purpose : Purpose) (values : List Guest.Value) :
    w.Changes (Config.returned session purpose values w).1 := by
  cases purpose with
  | values =>
      exact (changes_reading.receiveAll w session values).trans (succeed_changes _ _)
  | lookup keys asReference =>
      cases values with
      | nil => exact fail_changes session _
      | cons v rest =>
          have read := receive_changes (w := w) session v
          simp only [Config.returned]
          split
          · exact read.trans (fail_changes _ _)
          · exact read
  | assign keys =>
      simp only [Config.returned]
      split
      · exact fail_changes session _
      · exact succeed_changes session _

theorem Ignores.told {R : World σ → World σ → Prop} (ignores : Ignores R) {ε : Type}
    {hook : Option (Hook σ ε)} {event : ε} {thrown : Option Thrown}
    (told : w.notify hook event = (w', thrown)) : R w w' := by
  have notified := ignores.notify w hook event
  rwa [told] at notified

end World

namespace Config
variable {σ : Type} {c : Config σ}

/-! ### What takes no slots

Whatever has no regard to failures, machines and states does not notice these parts of a step. -/

section Disregards
variable {R : World σ → World σ → Prop} (disregards : World.Disregards R)
include disregards

theorem requiring_disregarded (s : State) {k : Config σ → Config σ} (goesOn : R c.world (k c).world) :
    R c.world (c.requiring s k).world := by
  rcases c.requiring_cases s k with ⟨-, fault, h⟩ | ⟨-, h⟩
  · rw [h]
    exact disregards.identity _
  · rw [h]
    exact goesOn

theorem claiming_disregarded (session : Nat) (items : List Item) {k : Config σ → Config σ}
    (goesOn : R c.world (k c).world) : R c.world (c.claiming session items k).world := by
  rcases c.claiming_cases session items k with ⟨fault, h⟩ | h
  · rw [h]
    exact disregards.identity _
  · rw [h]
    exact goesOn

theorem reading_disregarded (path : String) {k : ReadOutcome → Config σ → Config σ}
    (goesOn : ∀ outcome, R c.world (k outcome c).world) :
    R c.world (c.readingFile path k).world := by
  rcases c.reading_cases path k with h | ⟨outcome, h⟩
  · rw [h]
    exact disregards.refl _
  · rw [h]
    exact goesOn outcome

theorem restore_disregarded (w : World σ) (s : State) : R w (w.restore s) :=
  disregards.marks _ _ _ (fun _ => rfl) fun _ h => h

theorem advance_disregarded (w : World σ) (session : Nat) : R w (w.advance session).1 :=
  disregards.marks _ _ _ (fun _ => rfl) fun _ h => h

theorem enteringProgram_disregarded (entry : State) (purpose : Purpose) (p : Guest.Program) :
    R c.world (c.enteringProgram entry purpose p).world := by
  have same : ∀ m : Guest.Machine, (m.enterGate.runFromHost p).slots = m.slots := fun m => by simp
  exact disregards.machines c.world entry.session _ same

theorem abandoning_disregarded (entry : State) (t : Thrown) :
    R c.world (c.abandoning entry t).world := by
  have abandoned := disregards.machines c.world entry.session (·.abandon) fun m => m.abandon_slots
  have failed := disregards.failUnexpected (c.world.modifyMachine entry.session (·.abandon))
    entry.session t
  exact disregards.trans (disregards.trans abandoned failed) (restore_disregarded disregards _ entry)

theorem openingGate_disregarded (entry : State) : R c.world (c.openingGate entry).world :=
  disregards.machines _ _ _ fun m => m.enterGate_slots

theorem applying_disregarded (entry : State) (function : Guest.Value) (arguments : List Item) :
    R c.world (c.applying entry function arguments).world := by
  unfold applying
  simp only
  split
  · split
    · exact abandoning_disregarded disregards entry _
    · exact disregards.machines _ _ _ fun m => m.callFromHost_slots _ _
  · exact abandoning_disregarded disregards entry _

theorem calling_disregarded (entry : State) (f : Item) (arguments : List Item) :
    R c.world (c.calling entry f arguments).world := by
  have gate := openingGate_disregarded (c := c) disregards entry
  unfold calling
  simp only
  split
  · exact disregards.trans gate (abandoning_disregarded disregards entry _)
  · exact disregards.trans gate (applying_disregarded disregards entry _ _)

theorem encoding_disregarded (s : State) (p : Primitive) : R c.world (c.encoding s p).world := by
  unfold encoding
  split
  · exact disregards.refl _
  · exact requiring_disregarded disregards s (advance_disregarded disregards _ _)

theorem lookingUp_disregarded (s : State) (keys : List String) (asReference : Bool) :
    R c.world (c.lookingUp s keys asReference).world := by
  refine requiring_disregarded disregards s ?_
  split
  · exact disregards.fail _ _ _
  · exact enteringProgram_disregarded disregards _ _ _

theorem assigning_disregarded (s : State) (keys : List String) (item : Item) :
    R c.world (c.assigning s keys item).world := by
  refine requiring_disregarded disregards s ?_
  split
  · exact disregards.fail _ _ _
  · exact claiming_disregarded disregards _ _ (enteringProgram_disregarded disregards _ _ _)

theorem raising_disregarded (session : Nat) (t : Thrown) (w : World σ) :
    R w (c.raising session t w).world :=
  disregards.raiseInGuest w session t

theorem logging_disregarded (session : Nat) (line : String) :
    R c.world (c.logging session line).world := by
  unfold logging
  split
  · next w told =>
      exact disregards.trans (disregards.told told)
        (disregards.machines _ session _ fun m => m.answerLog_slots)
  · next w t told =>
      exact disregards.trans (disregards.told told) (raising_disregarded disregards session t w)

theorem readingForGuest_disregarded (session : Nat) (path : String) :
    R c.world (c.readingForGuest session path).world :=
  reading_disregarded disregards path fun _ =>
    disregards.machines _ session _ fun m => m.answerFile_slots _

theorem answering_disregarded (session : Nat) (name : String) (state : State) (items : List Item) :
    R c.world (c.answering session name state items).world := by
  unfold answering
  split
  · next fault violation =>
      exact disregards.trans (disregards.identity _) (raising_disregarded disregards session _ _)
  · split
    · split
      · next w t told =>
          exact disregards.trans (disregards.told told) (raising_disregarded disregards session t w)
      · next w told =>
          refine disregards.trans (disregards.told told) ?_
          simp only
          split
          · exact disregards.machines _ session _ fun m => m.answer_slots _
          · exact disregards.machines _ session _ fun m => m.breakDown_slots _
    · exact raising_disregarded disregards session _ _

theorem gotKey_disregarded (table : TableInProgress σ) (value : State → Client σ) (state : State)
    (key : Item) : R c.world (c.gotKey table value state key).world := by
  unfold gotKey
  split
  · exact restore_disregarded disregards _ _
  · exact disregards.refl _

theorem thrown_disregarded (t : Thrown) : R c.world (c.thrown t).world := by
  unfold thrown
  split
  · exact raising_disregarded disregards _ t _
  · exact restore_disregarded disregards _ _
  · exact restore_disregarded disregards _ _
  · exact disregards.refl _

end Disregards

theorem openingGate_holdings (entry : State) :
    (c.openingGate entry).world.holdings = c.world.holdings :=
  openingGate_disregarded World.holdings_disregards entry

theorem applying_holdings (entry : State) (function : Guest.Value) (arguments : List Item) :
    (c.applying entry function arguments).world.holdings = c.world.holdings :=
  applying_disregarded World.holdings_disregards entry function arguments

/-! ### What may take slots -/

theorem leaving_changes (entry : State) (purpose : Purpose) (stack : List (Pending σ))
    (signal : Guest.Signal) :
    c.world.Changes (c.leaving entry purpose stack signal).world := by
  cases signal with
  | failed status error traceback =>
      have read := World.readFailure_changes (w := c.world) entry.session status error traceback
      have told := World.changes_disregards.failCall
        (c.world.readFailure entry.session status error traceback).1 entry.session
        (c.world.readFailure entry.session status error traceback).2
      exact (read.trans told).trans (World.restore_changes entry)
  | finished values =>
      exact (World.restore_changes entry).trans
        (World.returned_changes _ _ _)
  | hostCall | log | readFile => exact .refl _

theorem invoking_changes (session index : Nat) (values : List Guest.Value) :
    c.world.Changes (c.invoking session index values).world := by
  have disregards := World.changes_disregards (σ := σ)
  have read := World.changes_reading.receiveAll c.world session values
  unfold invoking
  split
  · exact raising_disregarded disregards session _ _
  · simp only
    split
    · next w t told =>
        exact read.trans ((disregards.told told).trans (raising_disregarded disregards session t w))
    · next w told => exact read.trans ((disregards.told told).trans (World.advance_changes session))

theorem building_changes (table : TableInProgress σ) (last : State) :
    c.world.Changes (c.building table last).world := by
  unfold building
  simp only
  split
  · exact World.Changes.identity.trans (World.restore_changes _)
  · split
    · exact World.Changes.identity.trans (World.restore_changes _)
    · split
      · next keys values _ _ =>
          have made : c.world.Changes (c.world.modifyMachine last.session fun m =>
              { m with store := (m.store.newTable (tableOf (keys.zip values))).1 }) :=
            World.Changes.machine last.session _ fun _ => rfl
          exact (made.trans (World.receive_changes last.session _)).trans
            (World.advance_changes last.session)
      · exact World.restore_changes _

theorem nextEntry_changes (table : TableInProgress σ) (last : State) :
    c.world.Changes (c.nextEntry table last).world := by
  unfold nextEntry
  split
  · exact building_changes table last
  · exact .refl _

/-! ### Steps -/

theorem done_changes (state : State) (items : List Item) :
    c.world.Changes (c.done state items).world := by
  have disregards := World.changes_disregards (σ := σ)
  unfold done
  split
  · next stack _ => exact answering_disregarded (c := { c with stack }) disregards _ _ state items
  · next stack _ => exact gotKey_disregarded (c := { c with stack }) disregards _ _ state _
  · next stack _ => exact nextEntry_changes (c := { c with stack }) _ state
  · exact .refl _

theorem clientStep_changes (client : Client σ) :
    c.world.Changes (c.clientStep client).world := by
  cases client with
  | done state items => exact done_changes state items
  | throw t => exact thrown_disregarded World.changes_disregards t
  | access => exact .memory _
  | identity => exact .identity
  | perform => exact .refl _

theorem loading_changes (s : State) (chunk : Chunk) :
    c.world.Changes (c.loading s chunk).world :=
  (World.Changes.chunk chunk).trans (World.load_changes _ _)

theorem runningChunk_changes (s : State) (chunk : Nat) :
    c.world.Changes (c.runningChunk s chunk).world := by
  unfold runningChunk
  refine requiring_disregarded World.changes_disregards s ?_
  have compiles := World.compile_changes (w := c.world) s.session chunk
  split
  · next w o failed =>
      rw [failed] at compiles
      exact compiles
  · next w slot compiled =>
      rw [compiled] at compiles
      have gate := openingGate_disregarded (c := { c with world := w }) World.changes_disregards s
      exact compiles.trans (gate.trans (applying_disregarded World.changes_disregards s _ _))

theorem perform_changes (op : Operation σ) : c.world.Changes (c.perform op).world := by
  have disregards := World.changes_disregards (σ := σ)
  cases op with
  | init options => exact .opens options
  | close s => exact .marks _ _ (fun _ => rfl) fun _ _ => rfl
  | encode s p => exact encoding_disregarded disregards s p
  | encodeTable s entries => exact requiring_disregarded disregards s (nextEntry_changes _ _)
  | expose s name body =>
      refine requiring_disregarded disregards s ?_
      exact (World.expose_changes _ _ _).trans (World.advance_changes _)
  | get s keys => exact lookingUp_disregarded disregards s keys false
  | refGet s keys => exact lookingUp_disregarded disregards s keys true
  | set s keys item => exact assigning_disregarded disregards s keys item
  | load s source name => exact requiring_disregarded disregards s (loading_changes s _)
  | loadFile s path =>
      refine requiring_disregarded disregards s (reading_disregarded disregards path fun outcome => ?_)
      cases outcome with
      | ok content => exact loading_changes s _
      | error e => exact World.fail_changes _ _
  | run | runFile | callByName => exact .refl _
  | runChunk s chunk => exact runningChunk_changes s chunk
  | releaseChunk s chunk => exact .releasesChunk _ _
  | call s ref arguments =>
      exact requiring_disregarded disregards s
        (claiming_disregarded disregards _ _ (calling_disregarded disregards _ _ _))
  | decode value decoder => exact World.decode_changes value decoder
  | release item => exact World.release_changes item

theorem ran_changes (origin s : State) (chunk : Nat) (o : Outcome) :
    c.world.Changes (c.ran origin s chunk o).world := by
  have released := World.Changes.releasesChunk (w := c.world) s.session chunk
  unfold ran
  simp only
  split
  · exact released.trans (World.restore_changes origin)
  · exact released

theorem resolved_changes (s : State) (keys : List String) (arguments : List Item) (o : Outcome) :
    c.world.Changes (c.resolved s keys arguments o).world := by
  unfold resolved
  split
  · next state ref =>
      have refused : c.world.Changes ((c.world.fail s.session
          (.undefinedPath keys (some ref.target.guestType))).1.release (.reference ref)) :=
        (World.fail_changes _ _).trans (World.release_changes _)
      simp only
      split
      · exact .refl _
      · split
        · exact .refl _
        · exact refused
  · exact .refl _

theorem outcomeStep_changes (o : Outcome) : c.world.Changes (c.outcomeStep o).world := by
  unfold outcomeStep
  split
  · exact .refl _
  · unfold ranCompiled
    split <;> exact .refl _
  · next stack _ => exact ran_changes (c := { c with stack }) _ _ _ o
  · next stack _ => exact resolved_changes (c := { c with stack }) _ _ _ o
  · exact World.release_changes _
  · exact .refl _

theorem guestEnded_changes (signal : Guest.Signal) :
    c.world.Changes (c.guestEnded signal).world := by
  unfold guestEnded
  split
  · exact leaving_changes _ _ _ signal
  · exact .refl _

theorem guestStep_changes (session : Nat) : c.world.Changes (c.guestStep session).world := by
  have ran : c.world.Changes (c.world.modifyMachine session (·.run portion)) :=
    World.Changes.machine session _ fun m => m.run_slots portion
  unfold guestStep
  simp only
  split
  · exact ran
  · exact ran.trans (invoking_changes (c := { c with world := _ }) session _ _)
  · exact ran.trans (logging_disregarded (c := { c with world := _ }) World.changes_disregards session _)
  · exact ran.trans
      (readingForGuest_disregarded (c := { c with world := _ }) World.changes_disregards session _)
  · exact ran.trans (guestEnded_changes (c := { c with world := _ }) _)

/-- Every step of a configuration is made of such changes. -/
theorem step_changes (c : Config σ) : c.world.Changes c.step.world := by
  unfold step
  split
  · exact clientStep_changes _
  · exact perform_changes _
  · exact outcomeStep_changes _
  · exact guestStep_changes _
  · split <;> exact .refl _
  · exact .refl _

end Config

namespace World
variable {σ : Type} {w w' w'' : World σ}

/-! ### Records -/

/-- Whatever has been recorded, the record goes on to another world. -/
def Continues (w w' : World σ) : Prop := ∀ made, ∃ made', Evolves w made w' made'

theorem Continues.same (same : w'.holdings = w.holdings) : w.Continues w' :=
  fun made => ⟨made, .same same⟩

theorem Continues.trans (first : w.Continues w') (second : w'.Continues w'') : w.Continues w'' := by
  intro made
  obtain ⟨made', evolves⟩ := first made
  obtain ⟨made'', evolves'⟩ := second made'
  exact ⟨made'', evolves.trans evolves'⟩

/-- Every change goes on with the record. -/
theorem Changes.continues (changes : w.Changes w') : w.Continues w' := by
  induction changes with
  | refl | memory | identity | chunk | raises => exact .same rfl
  | trans _ _ ih ih' => exact ih.trans ih'
  | marks session f same _ => exact .same (modifyLedger_holdings _ session f same)
  | machine session f same => exact .same (modifyMachine_holdings _ session f same)
  | exposes session f same => exact .same (exposing_holdings _ session f same)
  | opens options => exact fun made => ⟨made, .opens options⟩
  | pins session v => exact fun made => ⟨_, .pins session v⟩
  | compiles session chunk new compiled => exact fun made => ⟨_, .compiles session chunk new compiled⟩
  | releases h => exact fun made => ⟨made, .releases h⟩
  | releasesChunk session chunk => exact fun made => ⟨made, .releasesChunk session chunk⟩

/-! ### Failures -/

/-- No failure that was raised in a guest is forgotten. -/
theorem Changes.raised (changes : w.Changes w') : w.raised <:+ w'.raised := by
  induction changes with
  | trans _ _ ih ih' => exact ih.trans ih'
  | raises entry => exact List.suffix_cons entry _
  | releases h =>
      unfold World.releaseHandle vacate
      split
      · exact List.suffix_rfl
      · split <;> exact List.suffix_rfl
  | releasesChunk session chunk =>
      unfold World.releaseChunk vacate
      split
      · exact List.suffix_rfl
      · split <;> exact List.suffix_rfl
  | _ => exact List.suffix_rfl

end World

end LuaHost
