import LuaHost.Proofs.Posture
/-!
Every step of a configuration is one of the moves of its posture, whatever the guest, the hooks and the
host code do.
-/

namespace LuaHost

namespace Config
variable {σ : Type} (c : Config σ)

/-! ### Parts of a step -/

theorem ending_posture (r : World σ × Outcome) :
    (c.ending r).posture = ⟨r.1.standing, .outcome r.2, c.stack⟩ := rfl

/-- Either a state is turned away, or it is the head of an open session and the operation goes on. -/
theorem requiring_cases (s : State) (k : Config σ → Config σ) :
    (¬ c.world.standing.Accepts s ∧ ∃ fault, c.requiring s k = c.throwing fault) ∨
      (c.world.standing.Accepts s ∧ c.requiring s k = k c) := by
  unfold requiring
  rw [← World.stateViolation?_eq_none]
  cases h : c.world.stateViolation? s with
  | none => exact .inr ⟨rfl, rfl⟩
  | some fault => exact .inl ⟨by simp, fault, rfl⟩

theorem claiming_cases (session : Nat) (items : List Item) (k : Config σ → Config σ) :
    (∃ fault, c.claiming session items k = c.throwing fault) ∨
      c.claiming session items k = k c := by
  unfold claiming
  split
  · exact .inl ⟨_, rfl⟩
  · exact .inr rfl

theorem reading_cases (path : String) (k : ReadOutcome → Config σ → Config σ) :
    c.readingFile path k = { c with control := .lacking path c.control } ∨
      ∃ outcome, c.readingFile path k = k outcome c := by
  unfold readingFile
  split
  · exact .inl rfl
  · exact .inr ⟨_, rfl⟩

theorem raising_posture (session : Nat) (t : Thrown) (w : World σ) :
    (c.raising session t w).posture = ⟨w.standing, .guest session, c.stack⟩ := by
  simp [posture, raising]

theorem abandoningTable_posture (table : TableInProgress σ) (t : Thrown) :
    (c.abandoningTable table t).posture =
      ⟨c.world.standing.restore table.origin, .outcome (.threw t), c.stack⟩ := by
  simp [abandoningTable, ending_posture]

/-! ### Performing -/

/-- The posture before an operation is performed. -/
def asked (op : Operation σ) : Posture σ := ⟨c.world.standing, .perform op, c.stack⟩

/-- An operation on a state ends with a failure, and a quiet host has heard of it. -/
theorem failing_move (op : Operation σ) (s : State) (o : Outcome) (subject : op.subject? = some s)
    (failed : ¬ o.IsOk) (heard : ∀ chunk, op = .runChunk s chunk → c.world.standing.Accepts s →
      c.world.standing.Quiet s.session → ¬ o.IsThrown) :
    Move (c.asked op) ⟨c.world.standing, .outcome o, c.stack⟩ := by
  refine .fails _ _ _ _ failed ?_ ?_
  · rintro t rfl
    exact nomatch subject
  · rintro t chunk rfl
    obtain rfl := Option.some.inj subject
    exact heard chunk rfl

theorem requiring_move (op : Operation σ) (s : State) (k : Config σ → Config σ)
    (subject : op.subject? = some s)
    (goesOn : c.world.standing.Accepts s → Move (c.asked op) (k c).posture) :
    Move (c.asked op) (c.requiring s k).posture := by
  rcases c.requiring_cases s k with ⟨refused, fault, h⟩ | ⟨accepted, h⟩
  · rw [h]
    exact c.failing_move op s _ subject id fun _ _ accepted => absurd accepted refused
  · rw [h]
    exact goesOn accepted

theorem claiming_move (op : Operation σ) (s : State) (items : List Item)
    (k : Config σ → Config σ) (subject : op.subject? = some s)
    (other : ∀ chunk, op ≠ .runChunk s chunk) (goesOn : Move (c.asked op) (k c).posture) :
    Move (c.asked op) (c.claiming s.session items k).posture := by
  rcases c.claiming_cases s.session items k with ⟨fault, h⟩ | h
  · rw [h]
    exact c.failing_move op s _ subject id fun chunk runs => absurd runs (other chunk)
  · rw [h]
    exact goesOn

theorem fail_move (op : Operation σ) (s : State) (fault : Fault) (subject : op.subject? = some s) :
    Move (c.asked op) (c.ending (c.world.fail s.session fault)).posture := by
  rw [ending_posture, World.fail_standing]
  exact c.failing_move op s _ subject (World.fail_not_ok _ _ _)
    fun _ _ _ quiet => World.fail_quiet _ quiet _

theorem succeed_move (op : Operation σ) (s : State) (w : World σ) (r : Result)
    (same : w.standing = c.world.standing) (subject : op.subject? = some s)
    (accepted : c.world.standing.Accepts s) (gives : ¬ op.LooksUp) :
    Move (c.asked op) (c.ending (w.succeed s.session r)).posture := by
  rw [ending_posture, World.succeed_standing, World.succeed_outcome, same]
  exact .succeeds _ _ _ _ _ subject accepted gives

theorem enteringProgram_move (op : Operation σ) (s : State) (purpose : Purpose)
    (p : Guest.Program) (h : op.Enters s purpose) (accepted : c.world.standing.Accepts s) :
    Move (c.asked op) (c.enteringProgram s purpose p).posture := by
  have entered : (c.enteringProgram s purpose p).posture =
      ⟨c.world.standing, .guest s.session, .guest s purpose :: c.stack⟩ := by
    simp [posture, enteringProgram, entering]
  rw [entered]
  exact .enters _ _ _ _ _ h accepted

/-- A call that cannot be made leaves its state the head, and a quiet host hears about it. -/
theorem abandoning_move (op : Operation σ) (s : State) (e : Exception)
    (subject : op.subject? = some s) (accepted : c.world.standing.Accepts s) :
    Move (c.asked op) (c.abandoning s (.exception e)).posture := by
  unfold abandoning
  simp only
  rw [ending_posture, World.restore_standing, World.failUnexpected_standing,
    World.modifyMachine_standing, Standing.restore_head _ accepted.2]
  refine c.failing_move op s _ subject (World.failUnexpected_not_ok _ _ _) ?_
  intro _ _ _ quiet
  apply World.failUnexpected_quiet
  rwa [World.modifyMachine_standing]

theorem applying_move (op : Operation σ) (s : State) (function : Guest.Value)
    (arguments : List Item) (h : op.Enters s .values) (accepted : c.world.standing.Accepts s) :
    Move (c.asked op) (c.applying s function arguments).posture := by
  unfold applying
  simp only
  split
  · split
    · exact c.abandoning_move op s _ h.subject accepted
    · have entered : ∀ f : Guest.Machine → Guest.Machine,
          (c.entering s .values (c.world.modifyMachine s.session f)).posture =
            ⟨c.world.standing, .guest s.session, .guest s .values :: c.stack⟩ := by
        intro f
        simp [posture, entering]
      rw [entered]
      exact .enters _ _ _ _ _ h accepted
  · exact c.abandoning_move op s _ h.subject accepted

theorem openingGate_asked (s : State) (op : Operation σ) :
    (c.openingGate s).asked op = c.asked op := by
  simp [asked, openingGate]

theorem calling_move (op : Operation σ) (s : State) (f : Item) (arguments : List Item)
    (h : op.Enters s .values) (accepted : c.world.standing.Accepts s) :
    Move (c.asked op) (c.calling s f arguments).posture := by
  have gate : (c.openingGate s).world.standing = c.world.standing := by simp [openingGate]
  rw [← c.openingGate_asked s op]
  unfold calling
  simp only
  split
  · exact (c.openingGate s).abandoning_move op s _ h.subject (gate ▸ accepted)
  · exact (c.openingGate s).applying_move op s _ _ h (gate ▸ accepted)

theorem encoding_move (s : State) (p : Primitive) :
    Move (c.asked (.encode s p)) (c.encoding s p).posture := by
  unfold encoding
  split
  · exact c.failing_move _ s _ rfl id fun _ runs => nomatch runs
  · exact c.requiring_move _ s _ rfl fun accepted =>
      c.succeed_move _ s _ _ rfl rfl accepted id

theorem exposing_move (s : State) (name : Option String) (called : String)
    (body : State → List Datum → Client σ) :
    Move (c.asked (.expose s name body)) (c.exposing s called body).posture :=
  c.requiring_move _ s _ rfl fun accepted =>
    c.succeed_move _ s _ _ (c.world.expose_standing _ _ _) rfl accepted id

theorem lookingUp_move (op : Operation σ) (s : State) (keys : List String) (asReference : Bool)
    (h : op.Enters s (.lookup keys asReference)) :
    Move (c.asked op) (c.lookingUp s keys asReference).posture := by
  refine c.requiring_move _ s _ h.subject fun accepted => ?_
  split
  · exact c.fail_move op s _ h.subject
  · exact c.enteringProgram_move op s _ _ h accepted

theorem assigning_move (s : State) (keys : List String) (item : Item) :
    Move (c.asked (.set s keys item)) (c.assigning s keys item).posture := by
  refine c.requiring_move _ s _ rfl fun accepted => ?_
  split
  · exact c.fail_move _ s _ rfl
  · exact c.claiming_move _ s _ _ rfl (fun _ runs => nomatch runs)
      (c.enteringProgram_move _ s _ _ (.set s keys item) accepted)

theorem loading_move (op : Operation σ) (s : State) (chunk : Chunk)
    (h : op.Compiles s) (subject : op.subject? = some s) (accepted : c.world.standing.Accepts s) :
    Move (c.asked op) (c.loading s chunk).posture := by
  unfold loading
  simp only
  rw [ending_posture]
  rcases World.load_cases (c.world.addChunk chunk).1 s.session (c.world.addChunk chunk).2 with
    ⟨failed, same⟩ | ⟨advanced, gave⟩
  · rw [same, World.addChunk_standing]
    refine c.failing_move op s _ subject failed ?_
    rintro n rfl
    exact h.elim
  · rw [advanced, gave, World.addChunk_standing]
    refine .succeeds _ _ _ _ _ subject accepted ?_
    cases op with
    | get | refGet => exact h.elim
    | _ => exact id

theorem loadingFile_move (s : State) (path : String) :
    Move (c.asked (.loadFile s path))
      ({ c with control := .perform (.loadFile s path) }.loadingFile s path).posture := by
  refine requiring_move { c with control := .perform (.loadFile s path) } _ s _ rfl
    fun accepted => ?_
  rcases reading_cases { c with control := .perform (.loadFile s path) } path _ with
    h | ⟨outcome, h⟩
  · rw [h]
    exact .loadWaits _ _ _ _ _ accepted
  · rw [h]
    cases outcome with
    | ok content =>
        exact loading_move { c with control := .perform (.loadFile s path) } _ s _ rfl rfl accepted
    | error e => exact fail_move { c with control := .perform (.loadFile s path) } _ s _ rfl

theorem runningChunk_move (s : State) (chunk : Nat) :
    Move (c.asked (.runChunk s chunk)) (c.runningChunk s chunk).posture := by
  refine c.requiring_move _ s _ rfl fun accepted => ?_
  have same := World.compile_standing c.world s.session chunk
  split
  · next w o failed =>
      rw [failed] at same
      obtain ⟨notOk, heard⟩ := World.compile_error c.world failed
      rw [ending_posture, same]
      exact c.failing_move _ s _ rfl notOk fun _ _ _ quiet => heard quiet
  · next w slot compiled =>
      rw [compiled] at same
      have asked : ({ c with world := w }.openingGate s).asked (.runChunk s chunk) =
          c.asked (.runChunk s chunk) := by
        rw [openingGate_asked]
        simp only [Config.asked, same]
      rw [← asked]
      exact applying_move _ _ s _ _ (.runChunk s chunk)
        (by simpa [openingGate, same] using accepted)

theorem call_move (s : State) (ref : Reference) (arguments : List Item) :
    Move (c.asked (.call s ref arguments)) (c.perform (.call s ref arguments)).posture :=
  c.requiring_move _ s _ rfl fun accepted =>
    c.claiming_move _ s _ _ rfl (fun _ runs => nomatch runs)
      (c.calling_move _ s _ _ (.call s ref arguments) accepted)

/-! ### Tables -/

/-- A table is made, or it is given up and its first state is the head again. -/
theorem building_cases (table : TableInProgress σ) (last : State) :
    (∃ t, (c.building table last).posture =
        ⟨c.world.standing.restore table.origin, .outcome (.threw t), c.stack⟩) ∨
    (c.world.standing.Accepts last ∧ ∃ r, (c.building table last).posture =
        ⟨c.world.standing.advance last.session,
          .outcome (.ok (some ((c.world.standing.advance last.session).head last.session)) r),
          c.stack⟩) := by
  have refused : ∀ fault, ∃ t,
      ({ c with world := (c.world.throwFault fault).1 }.abandoningTable table
        (c.world.throwFault fault).2).posture =
        ⟨c.world.standing.restore table.origin, .outcome (.threw t), c.stack⟩ := by
    intro fault
    exact ⟨_, abandoningTable_posture _ table _⟩
  unfold building
  simp only
  split
  · exact .inl (refused _)
  · next accepted =>
      split
      · exact .inl (refused _)
      · split
        · right
          refine ⟨(c.world.stateViolation?_eq_none last).mp accepted, ?_⟩
          rw [ending_posture, World.succeed_standing, World.succeed_outcome]
          simp
        · exact .inl ⟨_, c.abandoningTable_posture table _⟩

theorem encodeTable_move (s : State) (entries : Encoders σ) :
    Move (c.asked (.encodeTable s entries)) (c.perform (.encodeTable s entries)).posture := by
  refine c.requiring_move _ s _ rfl fun accepted => ?_
  cases entries with
  | nil =>
      rcases c.building_cases ⟨s, [], .nil⟩ s with ⟨t, h⟩ | ⟨_, r, h⟩
      · simp only [nextEntry]
        rw [h, Standing.restore_head _ accepted.2]
        exact c.failing_move _ s _ rfl id fun _ runs => nomatch runs
      · simp only [nextEntry]
        rw [h]
        exact .succeeds _ _ _ _ _ rfl accepted id
  | cons key value rest => exact .builds _ _ _ _ _ _ _ accepted rfl

theorem perform_move (op : Operation σ) (control : c.control = .perform op) :
    Move (c.asked op) (c.perform op).posture := by
  cases op with
  | init options =>
      have opened : (c.perform (.init options)).posture =
          ⟨c.world.standing.openSession options.callbacks,
            .outcome (.ok (some ⟨c.world.standing.callbacks.size, 0⟩) .nothing), c.stack⟩ := by
        simp only [perform, ending_posture, World.openSession_standing]
        simp [World.standing, World.openSession]
      rw [opened]
      exact .opens _ _ _ _
  | close s =>
      simp only [perform, ending_posture, World.close_standing]
      exact .closes _ _ _ _
  | encode s p => exact c.encoding_move s p
  | encodeTable s entries => exact c.encodeTable_move s entries
  | expose s name body => exact c.exposing_move s name _ body
  | get s keys => exact c.lookingUp_move _ s keys _ (.get s keys)
  | refGet s keys => exact c.lookingUp_move _ s keys _ (.refGet s keys)
  | set s keys item => exact c.assigning_move s keys item
  | load s source name =>
      exact c.requiring_move _ s _ rfl fun accepted => c.loading_move _ s _ rfl rfl accepted
  | loadFile s path =>
      have same : { c with control := .perform (.loadFile s path) } = c := by rw [← control]
      have moved := c.loadingFile_move s path
      rwa [same] at moved
  | run s source name => exact .begins _ _ _ _ _ (.run s source name)
  | runFile s path => exact .begins _ _ _ _ _ (.runFile s path)
  | callByName s keys arguments => exact .begins _ _ _ _ _ (.callByName s keys arguments)
  | runChunk s chunk => exact c.runningChunk_move s chunk
  | call s ref arguments => exact c.call_move s ref arguments
  | releaseChunk s chunk =>
      simp only [perform, ending_posture, World.releaseChunk_standing]
      exact .ends _ _ _ _ rfl fun _ closes => by cases closes
  | release item =>
      simp only [perform, ending_posture, World.release_standing]
      exact .ends _ _ _ _ rfl fun _ closes => by cases closes
  | decode d decoder =>
      simp only [perform, ending_posture]
      obtain ⟨same, ⟨r, gave⟩ | failed⟩ := World.decode_cases c.world d decoder
      · rw [same, gave]
        exact .ends _ _ _ _ rfl fun _ closes => by cases closes
      · rw [same]
        exact .fails _ _ _ _ failed (fun _ closes => by cases closes) fun _ _ runs => by cases runs

/-! ### Outcomes -/

theorem ranCompiled_move (origin : State) (o : Outcome) :
    Move ⟨c.world.standing, .outcome o, .compiled origin :: c.stack⟩
      (c.ranCompiled origin o).posture := by
  unfold ranCompiled
  split
  · exact .runs _ _ _ _ _ _
  · next other => exact .handsOn _ _ _ _ (.compiled origin o other)

theorem ran_move (origin s : State) (chunk : Nat) (o : Outcome) :
    Move ⟨c.world.standing, .outcome o, .ran origin s chunk :: c.stack⟩
      (c.ran origin s chunk o).posture := by
  unfold ran
  simp only
  split
  · rw [ending_posture, World.restore_standing, World.releaseChunk_standing]
    exact .settles _ _ _ _ _ _
  · next other =>
      rw [ending_posture, World.releaseChunk_standing]
      exact .handsOn _ _ _ _ (.ran origin s chunk o other)

theorem resolved_move (s : State) (keys : List String) (arguments : List Item) (o : Outcome) :
    Move ⟨c.world.standing, .outcome o, .resolved s keys arguments :: c.stack⟩
      (c.resolved s keys arguments o).posture := by
  unfold resolved
  split
  · next ref =>
      refine iteInduction (motive := fun d => Move _ (posture d)) (fun _ => ?_) fun _ => ?_
      · exact .callsTarget _ _ _ _ _ _ _ _
      · rw [ending_posture, World.release_standing, World.fail_standing]
        exact .refusesTarget _ _ _ _ _ _ _ _ (World.fail_not_ok _ _ _)
  · next other => exact .handsOn _ _ _ _ (.resolved s keys arguments o other)

theorem outcomeStep_move (o : Outcome) :
    Move ⟨c.world.standing, .outcome o, c.stack⟩ (c.outcomeStep o).posture := by
  obtain ⟨world, control, stack⟩ := c
  cases stack with
  | nil => exact .finishes _ _ _ _
  | cons f stack =>
      cases f with
      | perform k => exact .resumes _ _ _ _
      | compiled origin => exact ranCompiled_move ⟨world, control, stack⟩ origin o
      | ran origin s chunk => exact ran_move ⟨world, control, stack⟩ origin s chunk o
      | resolved s keys arguments => exact resolved_move ⟨world, control, stack⟩ s keys arguments o
      | called target =>
          simp only [outcomeStep]
          rw [ending_posture, World.release_standing]
          exact .handsOn _ _ _ _ (.called target o)
      | body session name | guest entry purpose | key table value | value table key =>
          exact .finishes _ _ _ _

/-! ### The guest -/

theorem invoking_move (session index : Nat) (values : List Guest.Value) :
    Move ⟨c.world.standing, .guest session, c.stack⟩
      (c.invoking session index values).posture := by
  unfold invoking
  split
  · rw [raising_posture]
    exact .idle _
  · next name body exposed =>
      simp only
      have told := World.notify_standing (c.world.receiveAll session values).1
        ((c.world.receiveAll session values).1.callback session (·.onHostCall))
        ⟨name, (c.world.receiveAll session values).2⟩
      rw [World.receiveAll_standing] at told
      split
      · next w t threw =>
          rw [threw] at told
          rw [raising_posture, told]
          exact .idle _
      · next w went =>
          rw [went] at told
          have entered : (⟨(w.advance session).1,
              .client (body (w.advance session).2 (c.world.receiveAll session values).2),
              .body session name :: c.stack⟩ : Config σ).posture =
              ⟨c.world.standing.advance session,
                .client (body (w.advance session).2 (c.world.receiveAll session values).2),
                .body session name :: c.stack⟩ := by
            simp only [posture, World.advance_standing, told]
          rw [entered]
          exact .calls _ _ _ _ _

theorem logging_posture (session : Nat) (line : String) (control : c.control = .guest session) :
    (c.logging session line).posture = ⟨c.world.standing, .guest session, c.stack⟩ := by
  have told := World.notify_standing c.world
    (c.world.callback session fun callbacks => some callbacks.onLog) line
  unfold logging
  split
  · next w went =>
      rw [went] at told
      simp only [posture, World.modifyMachine_standing, told, control]
  · next w t threw =>
      rw [threw] at told
      rw [raising_posture, told]

theorem readingForGuest_move (session : Nat) (path : String)
    (control : c.control = .guest session) :
    Move ⟨c.world.standing, .guest session, c.stack⟩
      (c.readingForGuest session path).posture := by
  unfold readingForGuest
  rcases c.reading_cases path _ with h | ⟨outcome, h⟩
  · rw [h]
    simp only [posture, control]
    exact .guestWaits _ _ _ _
  · rw [h]
    simp only [posture, World.modifyMachine_standing, control]
    exact .idle _

/-- How a call of the guest that went well ends: for a lookup there may be nothing, for an assignment
something in the way. -/
theorem returned_cases (session : Nat) (purpose : Purpose) (values : List Guest.Value)
    (w : World σ) :
    ((returned session purpose values w).1.standing = w.standing ∧
      ¬ (returned session purpose values w).2.IsOk ∧
      (w.standing.Quiet session → ¬ (returned session purpose values w).2.IsThrown)) ∨
    ((returned session purpose values w).1.standing = w.standing ∧
      ∃ keys asReference r, purpose = .lookup keys asReference ∧
        (asReference = true → ∃ ref, r = .reference ref) ∧
        (returned session purpose values w).2 = .ok none r) ∨
    (purpose.GivesState ∧
      (returned session purpose values w).1.standing = w.standing.advance session ∧
      ∃ r, (returned session purpose values w).2 =
        .ok (some ((w.standing.advance session).head session)) r) := by
  cases purpose with
  | values =>
      refine .inr (.inr ⟨trivial, ?_, .values (w.receiveAll session values).2, ?_⟩)
      · simp [returned]
      · simp [returned, World.succeed_outcome]
  | assign keys =>
      simp only [returned]
      split
      · exact .inl ⟨World.fail_standing _ _ _, World.fail_not_ok _ _ _,
          fun quiet => World.fail_quiet _ quiet _⟩
      · exact .inr (.inr ⟨trivial, World.succeed_standing _ _ _, .nothing,
          World.succeed_outcome _ _ _⟩)
  | lookup keys asReference =>
      simp only [returned]
      split
      · exact .inl ⟨World.fail_standing _ _ _, World.fail_not_ok _ _ _,
          fun quiet => World.fail_quiet _ quiet _⟩
      · next v _ =>
          split
          · refine .inl ⟨by simp, World.fail_not_ok _ _ _, fun quiet => ?_⟩
            apply World.fail_quiet
            rwa [World.receive_standing]
          · refine .inr (.inl ⟨World.receive_standing _ _ _, keys, asReference, _, rfl, ?_, rfl⟩)
            intro wanted
            exact ⟨_, if_pos wanted⟩

/-- A call of the guest ends, and the state that it was made from is the head again before anything is
issued for it. -/
theorem leaving_move (session : Nat) (entry : State) (purpose : Purpose)
    (stack : List (Pending σ)) (signal : Guest.Signal)
    (ended : (∃ status error traceback, signal = .failed status error traceback) ∨
      ∃ values, signal = .finished values) :
    Move ⟨c.world.standing, .guest session, .guest entry purpose :: stack⟩
      (c.leaving entry purpose stack signal).posture := by
  rcases ended with ⟨status, error, traceback, rfl⟩ | ⟨values, rfl⟩
  · simp only [leaving]
    rw [ending_posture, World.restore_standing, World.failCall_standing,
      World.readFailure_standing]
    refine .guestFails _ _ _ _ _ _ (World.failCall_not_ok _ _ _) fun quiet => ?_
    apply World.failCall_quiet
    rwa [World.readFailure_standing]
  · simp only [leaving]
    rw [ending_posture]
    rcases returned_cases entry.session purpose values (c.world.restore entry) with
      ⟨same, failed, heard⟩ | ⟨same, keys, asReference, r, rfl, reference, told⟩ |
      ⟨gives, advanced, r, gave⟩
    · rw [same, World.restore_standing]
      refine .guestFails _ _ _ _ _ _ failed fun quiet => heard ?_
      rw [World.restore_standing]
      exact quiet
    · rw [same, told, World.restore_standing]
      exact .guestTells _ _ _ _ _ _ _ reference
    · rw [advanced, gave, World.restore_standing]
      exact .guestReturns _ _ _ _ _ _ gives

/-- What is done when a guest has stopped for something. -/
def heeding (c : Config σ) (session : Nat) : Option Guest.Signal → Config σ
  | none => c
  | some (.hostCall index values) => c.invoking session index values
  | some (.log line) => c.logging session line
  | some (.readFile path) => c.readingForGuest session (Text.decode path)
  | some signal => c.guestEnded signal

theorem guestStep_eq (session : Nat) : c.guestStep session =
    heeding { c with world := c.world.modifyMachine session (·.run portion) } session
      ((c.world.modifyMachine session (·.run portion)).machine session).signal := by
  rw [guestStep]
  dsimp only
  generalize ((c.world.modifyMachine session (·.run portion)).machine session).signal = signal
  rcases signal with _ | (_ | _ | _ | _ | _) <;> rfl

theorem guestStep_move (session : Nat) (control : c.control = .guest session) :
    Move ⟨c.world.standing, .guest session, c.stack⟩ (c.guestStep session).posture := by
  have ran : ∀ f : Guest.Machine → Guest.Machine,
      (⟨c.world.standing, .guest session, c.stack⟩ : Posture σ) =
        ({ c with world := c.world.modifyMachine session f } : Config σ).posture := by
    intro f
    simp [posture, control]
  obtain ⟨world, control', stack⟩ := c
  subst control
  unfold guestStep
  simp only
  rw [ran (·.run portion)]
  generalize world.modifyMachine session (·.run portion) = w
  split
  · exact .idle _
  · exact invoking_move ⟨w, .guest session, stack⟩ session _ _
  · rw [logging_posture ⟨w, .guest session, stack⟩ session _ rfl]
    exact .idle _
  · exact readingForGuest_move ⟨w, .guest session, stack⟩ session _ rfl
  · next signal noCall noLine noFile _ =>
      unfold guestEnded
      simp only
      split
      · next entry purpose stack =>
          refine leaving_move ⟨w, .guest session, _⟩ session entry purpose stack signal ?_
          cases signal with
          | finished values => exact .inr ⟨values, rfl⟩
          | failed status error traceback => exact .inl ⟨_, _, _, rfl⟩
          | hostCall index values => exact absurd rfl (noCall index values)
          | log line => exact absurd rfl (noLine line)
          | readFile path => exact absurd rfl (noFile path)
      · exact .finishes _ _ _ _

/-! ### Host code -/

theorem answering_posture (session : Nat) (name : String) (state : State) (items : List Item) :
    (c.answering session name state items).posture =
      ⟨c.world.standing, .guest session, c.stack⟩ := by
  unfold answering
  split
  · rw [raising_posture, World.throwFault_standing]
  · split
    · have told := World.notify_standing c.world
        (c.world.callback session (·.onHostReturn)) ⟨name, items⟩
      split
      · next w t threw =>
          rw [threw] at told
          rw [raising_posture, told]
      · next w went =>
          rw [went] at told
          simp only [posture]
          split <;> simp [told]
    · rw [raising_posture]

theorem done_move (state : State) (items : List Item)
    (control : c.control = .client (.done state items)) :
    Move c.posture (c.done state items).posture := by
  obtain ⟨world, control', stack⟩ := c
  subst control
  unfold done
  simp only
  split
  · next session name stack =>
      rw [answering_posture ⟨world, _, stack⟩]
      exact .answers _ _ _ _ _
  · next table value stack =>
      unfold gotKey
      split
      · rw [abandoningTable_posture]
        exact .abandonsKey _ _ _ _ _ _
      · exact .gotKey _ _ _ _ _ _ _
  · next table key stack =>
      unfold nextEntry
      split
      · rcases building_cases ⟨world, .client (.done state items), stack⟩
          { table with done := (key, items.headD nilItem) :: table.done } state with
          ⟨t, h⟩ | ⟨accepted, r, h⟩
        · rw [h]
          exact .abandonsValue _ _ _ _ _ _
        · rw [h]
          exact .built _ _ _ _ _ _ _ accepted
      · exact .gotValue _ _ _ _ _ _ _ _ rfl
  · exact .finishes _ _ _ _

theorem thrown_move (t : Thrown) (control : c.control = .client (.throw t)) :
    Move c.posture (c.thrown t).posture := by
  obtain ⟨world, control', stack⟩ := c
  subst control
  unfold thrown
  simp only
  split
  · rw [raising_posture]
    exact .answers _ _ _ _ _
  · rw [abandoningTable_posture]
    exact .abandonsKey _ _ _ _ _ _
  · rw [abandoningTable_posture]
    exact .abandonsValue _ _ _ _ _ _
  · exact .finishes _ _ _ _

theorem clientStep_move (client : Client σ) (control : c.control = .client client) :
    Move c.posture (c.clientStep client).posture := by
  cases client with
  | done state items => exact c.done_move state items control
  | throw t => exact c.thrown_move t control
  | access update next =>
      simp only [posture, clientStep, control]
      exact .works _ _ _ _
  | identity k =>
      simp only [posture, clientStep, control]
      exact .works _ _ _ _
  | perform op k =>
      simp only [posture, clientStep, control]
      exact .performs _ _ _ _

/-- Every step is a move. -/
theorem step_move : Move c.posture c.step.posture := by
  obtain ⟨world, control, stack⟩ := c
  cases control with
  | client client => exact clientStep_move ⟨world, .client client, stack⟩ client rfl
  | perform op => exact perform_move ⟨world, .perform op, stack⟩ op rfl
  | outcome o => exact outcomeStep_move ⟨world, .outcome o, stack⟩ o
  | guest session => exact guestStep_move ⟨world, .guest session, stack⟩ session rfl
  | lacking path next =>
      simp only [step]
      split
      · exact .idle _
      · exact .proceeds _ _ _ _
  | finished r => exact .idle _

end Config

/-- No session is opened but by the operation for it. -/
theorem Move.sessions {σ : Type} {p q : Posture σ} (m : Move p q)
    (opens : ∀ options, p.control ≠ .perform (.init options)) :
    q.standing.lineages.size = p.standing.lineages.size ∧ q.standing.callbacks = p.standing.callbacks := by
  cases m with
  | opens S options => exact absurd rfl (opens options)
  | _ => simp

end LuaHost
