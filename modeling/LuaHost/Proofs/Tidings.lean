import LuaHost.Proofs.Journals
/-!
What a step tells. A journal that only the callbacks write in grows with each step by the tidings of this step: the
line that a guest has printed, the host function that it calls, the return of one that has been accepted, or the
failure with which a part of an operation ends. A failure that is handed on from one part to the next is not told
again.
-/

namespace LuaHost

variable {σ ε α : Type}

/-- The failure that something has ended with. -/
def Control.failure? : Control σ → Option Failure
  | .outcome o => o.failure?
  | _ => none

namespace Config
variable {j : Journal σ ε} {c d : Config σ} {w w' : World σ} {s : State} {session : Nat}
  {T : List (Pending σ)} {events : List Event}

/-- What has been told when a configuration has come to an outcome. -/
def told (c : Config σ) : List Event := c.control.failure?.toList.map .failed

/-- From a world on these events are told, and what is done next leaves the journal to the callbacks. -/
structure Tells (j : Journal σ ε) (w : World σ) (events : List Event) (d : Config σ) : Prop where
  journal : j.read d.world.memory = j.read w.memory ++ events.flatMap j.notes
  respects : d.Respects j

theorem Tells.silent (silent : w.Silent d.world) (world : w.Respects j) (control : d.control.Respects j)
    (stack : ∀ p ∈ d.stack, p.Respects j) : Tells j w [] d :=
  ⟨silent.tells.journal, world.congr silent.2, control, stack⟩

theorem Tells.after (silent : w.Silent w') (tells : Tells j w' events d) : Tells j w events d :=
  ⟨by rw [tells.journal, silent.1], tells.respects⟩

theorem Respects.ending {r : World σ × Outcome} (respects : c.Respects j)
    (reports : World.Reports j c.world r) : Tells j c.world (c.ending r).told (c.ending r) :=
  ⟨reports.journal, respects.world.congr reports.code, trivial, respects.stack⟩

/-- An operation ends without a failure. -/
theorem Respects.ends {r : World σ × Outcome} (respects : c.Respects j) (silent : c.world.Silent r.1)
    (well : r.2.told = []) : Tells j c.world (c.ending r).told (c.ending r) :=
  respects.ending (World.Silent.reports silent well)

theorem Respects.within (respects : c.Respects j) (silent : c.world.Silent w) :
    Respects j { c with world := w } :=
  ⟨respects.world.congr silent.2, respects.control, respects.stack⟩

theorem Respects.pop {p : Pending σ} (respects : c.Respects j) (waits : c.stack = p :: T) :
    Respects j { c with stack := T } :=
  ⟨respects.world, respects.control, fun q mem => respects.stack q (waits ▸ List.mem_cons_of_mem p mem)⟩

theorem Respects.push {p : Pending σ} (respects : c.Respects j) (top : p.Respects j) :
    ∀ q ∈ p :: c.stack, q.Respects j := by
  intro q mem
  rcases List.mem_cons.mp mem with rfl | mem
  · exact top
  · exact respects.stack q mem

/-! ### Operations -/

theorem Respects.throwing (respects : c.Respects j) (fault : Fault) :
    Tells j c.world (c.throwing fault).told (c.throwing fault) :=
  respects.ends (r := (_, .threw _)) (.refl c.world) rfl

theorem Respects.requiring {k : Config σ → Config σ} (respects : c.Respects j)
    (sizes : c.world.ledgers.size = c.world.code.size)
    (goesOn : s.session < c.world.code.size → Tells j c.world (k c).told (k c)) :
    Tells j c.world (c.requiring s k).told (c.requiring s k) := by
  rw [Config.requiring]
  split
  · exact respects.throwing _
  · next accepted => exact goesOn (sizes ▸ World.opened_of_accepted accepted)

theorem Respects.claiming {items : List Item} {k : Config σ → Config σ} (respects : c.Respects j)
    (goesOn : Tells j c.world (k c).told (k c)) :
    Tells j c.world (c.claiming session items k).told (c.claiming session items k) := by
  rw [Config.claiming]
  split
  · exact respects.throwing _
  · exact goesOn

theorem Respects.entering (respects : c.Respects j) (entry : State) (purpose : Purpose)
    (silent : c.world.Silent w) : Tells j c.world [] (c.entering entry purpose w) :=
  .silent silent respects.world trivial (respects.push trivial)

theorem Respects.abandoning {entry : State} (respects : c.Respects j)
    (opened : entry.session < c.world.code.size) (t : Thrown) :
    Tells j c.world (c.abandoning entry t).told (c.abandoning entry t) := by
  have abandoned := World.modifyMachine_silent (w := c.world) entry.session (·.abandon)
  have failed := (respects.world.congr abandoned.2).failUnexpected (abandoned.2 ▸ opened) t
  refine respects.ending (r := (World.restore _ entry, _)) ?_
  exact abandoned.then (failed.then (.refl _))

theorem Respects.applying {entry : State} (respects : c.Respects j)
    (opened : entry.session < c.world.code.size) (function : Guest.Value) (arguments : List Item) :
    Tells j c.world (c.applying entry function arguments).told (c.applying entry function arguments) := by
  rw [Config.applying]
  split
  · split
    · exact respects.abandoning opened _
    · exact respects.entering entry _ (World.modifyMachine_silent _ _)
  · exact respects.abandoning opened _

theorem Respects.calling {entry : State} (respects : c.Respects j)
    (opened : entry.session < c.world.code.size) (f : Item) (arguments : List Item) :
    Tells j c.world (c.calling entry f arguments).told (c.calling entry f arguments) := by
  have gate := World.modifyMachine_silent (w := c.world) entry.session (·.enterGate)
  have inside : (c.openingGate entry).Respects j := respects.within gate
  have opened : entry.session < (c.openingGate entry).world.code.size := gate.2 ▸ opened
  refine .after gate ?_
  rw [Config.calling]
  split
  · exact inside.abandoning opened _
  · exact inside.applying opened _ _

theorem Respects.enteringProgram (respects : c.Respects j) (entry : State) (purpose : Purpose)
    (p : Guest.Program) : Tells j c.world [] (c.enteringProgram entry purpose p) :=
  respects.entering entry purpose (World.modifyMachine_silent _ _)

theorem Respects.lookingUp (respects : c.Respects j) (sizes : c.world.ledgers.size = c.world.code.size)
    (keys : List String) (asReference : Bool) :
    Tells j c.world (c.lookingUp s keys asReference).told (c.lookingUp s keys asReference) := by
  refine respects.requiring sizes fun opened => ?_
  split
  · exact respects.ending (respects.world.fail opened _)
  · exact respects.enteringProgram s _ _

theorem Respects.assigning (respects : c.Respects j) (sizes : c.world.ledgers.size = c.world.code.size)
    (keys : List String) (item : Item) :
    Tells j c.world (c.assigning s keys item).told (c.assigning s keys item) := by
  refine respects.requiring sizes fun opened => ?_
  split
  · exact respects.ending (respects.world.fail opened _)
  · exact respects.claiming (respects.enteringProgram s _ _)

theorem Respects.encoding (respects : c.Respects j) (sizes : c.world.ledgers.size = c.world.code.size)
    (p : Primitive) : Tells j c.world (c.encoding s p).told (c.encoding s p) := by
  rw [Config.encoding]
  split
  · exact respects.ends (r := (_, .threw _)) (.refl c.world) rfl
  · exact respects.requiring sizes fun _ => respects.ends (.refl c.world) rfl

theorem Respects.exposing (respects : c.Respects j) (sizes : c.world.ledgers.size = c.world.code.size)
    (name : String) {body : State → List Datum → Client σ}
    (kept : ∀ state arguments, (body state arguments).Respects j) :
    Tells j c.world (c.exposing s name body).told (c.exposing s name body) := by
  refine respects.requiring sizes fun _ => ?_
  refine ⟨?_, World.expose_respects respects.world name kept, trivial, respects.stack⟩
  have same : (c.world.expose s.session name body).1.memory = c.world.memory :=
    World.expose_memory name body
  exact (congrArg j.read same).trans (List.append_nil _).symm

theorem Respects.abandoningTable {table : TableInProgress σ} (respects : c.Respects j) (t : Thrown) :
    Tells j c.world (c.abandoningTable table t).told (c.abandoningTable table t) :=
  respects.ends (r := (_, .threw _)) (.refl c.world) rfl

theorem Respects.building (respects : c.Respects j) (table : TableInProgress σ) (last : State) :
    Tells j c.world (c.building table last).told (c.building table last) := by
  rw [Config.building]
  split
  · exact respects.ends (r := (_, .threw _)) (.refl c.world) rfl
  · split
    · exact respects.ends (r := (_, .threw _)) (.refl c.world) rfl
    · split
      · next keys values _ _ =>
          have made : c.world.Silent (c.world.modifyMachine last.session fun m =>
              { m with store := (m.store.newTable (tableOf (keys.zip values))).1 }) :=
            World.modifyMachine_silent last.session _
          have read := made.trans (World.receive_silent last.session
            (.table (c.world.machine last.session).store.tables.size))
          exact respects.ends (read.trans (.refl _)) rfl
      · exact respects.abandoningTable _

/-- A table that is given up is no failure. -/
theorem building_told (c : Config σ) (table : TableInProgress σ) (last : State) :
    (c.building table last).told = [] := by
  rw [Config.building]
  split
  · rfl
  · split
    · rfl
    · split <;> rfl

theorem nextEntry_told (c : Config σ) (table : TableInProgress σ) (last : State) :
    (c.nextEntry table last).told = [] := by
  rw [Config.nextEntry]
  split
  · exact building_told c table last
  · rfl

theorem Respects.nextEntry (respects : c.Respects j) (table : TableInProgress σ) (last : State)
    (kept : table.rest.Respects j) :
    Tells j c.world (c.nextEntry table last).told (c.nextEntry table last) := by
  rw [Config.nextEntry]
  split
  · exact respects.building table last
  · next entries =>
      rw [entries, Encoders.Respects] at kept
      exact .silent (.refl c.world) respects.world (kept.1 last) (respects.push ⟨kept.2.2, kept.2.1⟩)

theorem Respects.loading (respects : c.Respects j) (opened : s.session < c.world.code.size)
    (chunk : Chunk) : Tells j c.world (c.loading s chunk).told (c.loading s chunk) := by
  have added : c.world.Silent (c.world.addChunk chunk).1 := .refl c.world
  have loaded := (respects.world.congr added.2).load opened (c.world.addChunk chunk).2
  exact respects.ending (added.then loaded)

theorem Respects.loadingFile (respects : c.Respects j) (sizes : c.world.ledgers.size = c.world.code.size)
    (path : String) : Tells j c.world (c.loadingFile s path).told (c.loadingFile s path) := by
  refine respects.requiring sizes fun opened => ?_
  rw [readingFile]
  split
  · exact .silent (.refl c.world) respects.world respects.control respects.stack
  · next outcome _ =>
      cases outcome with
      | ok content => exact respects.loading opened _
      | error e => exact respects.ending (respects.world.fail opened _)

theorem Respects.runningChunk (respects : c.Respects j) (sizes : c.world.ledgers.size = c.world.code.size)
    (chunk : Nat) : Tells j c.world (c.runningChunk s chunk).told (c.runningChunk s chunk) := by
  refine respects.requiring sizes fun opened => ?_
  rcases respects.world.compile opened chunk with ⟨w, slot, compiled, silent⟩ | ⟨r, failed, reports⟩
  · simp only [compiled]
    have there : Respects j { c with world := w } := respects.within silent
    have gate := World.modifyMachine_silent (w := w) s.session (·.enterGate)
    have inside : Respects j (openingGate { c with world := w } s) := there.within gate
    refine .after (silent.trans gate) (inside.applying ?_ _ _)
    exact (silent.trans gate).2 ▸ opened
  · simp only [failed]
    exact respects.ending reports

/-- Operations tell the failures that they end with, but for the one that decodes. -/
theorem Respects.perform {op : Operation σ} (respects : c.Respects j)
    (sizes : c.world.ledgers.size = c.world.code.size) (kept : op.Respects j)
    (telling : ∀ value decoder, op ≠ .decode value decoder) :
    Tells j c.world (c.perform op).told (c.perform op) := by
  cases op with
  | init options =>
      exact ⟨(List.append_nil _).symm, World.openSession_respects respects.world kept, trivial, respects.stack⟩
  | close s => exact respects.ends (.refl _) rfl
  | encode s p => exact respects.encoding sizes p
  | encodeTable s entries => exact respects.requiring sizes fun _ => respects.nextEntry _ s kept
  | expose s name body => exact respects.exposing sizes _ kept
  | get s keys => exact respects.lookingUp sizes keys false
  | refGet s keys => exact respects.lookingUp sizes keys true
  | set s keys item => exact respects.assigning sizes keys item
  | load s source name => exact respects.requiring sizes fun opened => respects.loading opened _
  | loadFile s path => exact respects.loadingFile sizes path
  | run | runFile | callByName =>
      exact .silent (.refl c.world) respects.world trivial (respects.push trivial)
  | runChunk s chunk => exact respects.runningChunk sizes chunk
  | releaseChunk s chunk => exact respects.ends (World.releaseChunk_silent _ _) rfl
  | call s ref arguments =>
      exact respects.requiring sizes fun opened => respects.claiming (respects.calling opened _ _)
  | decode value decoder => exact absurd rfl (telling value decoder)
  | release item => exact respects.ends (World.release_silent item) rfl

/-- Nobody is told that a value cannot be decoded. -/
theorem Respects.decoding (respects : c.Respects j) (value : Datum) (decoder : Decoder) :
    Tells j c.world [] (c.perform (.decode value decoder)) :=
  .silent (World.decode_silent value decoder) respects.world trivial respects.stack

/-! ### Outcomes -/

/-- The call by name to which a path has led refuses what is no function. -/
theorem Respects.resolved {o : Outcome} (respects : c.Respects j)
    (opened : o.IsOk → s.session < c.world.code.size) (keys : List String) (arguments : List Item)
    (well : o.told = []) :
    Tells j c.world (c.resolved s keys arguments o).told (c.resolved s keys arguments o) := by
  rw [resolved.eq_def]
  split
  · next ref =>
      have called : Tells j c.world [] { c with
          control := .perform (.call s ref arguments), stack := .called ref :: c.stack } :=
        .silent (.refl c.world) respects.world trivial (respects.push trivial)
      have refused := (respects.world.fail (opened trivial)
        (.undefinedPath keys (some ref.target.guestType))).then (World.release_silent (.reference ref))
      dsimp only
      split <;> split <;> first | exact called | exact respects.ending refused
  · exact respects.ends (r := (_, o)) (.refl c.world) well

/-- A failure has been told before, and is handed on as it is. -/
theorem Respects.handsOn (respects : c.Respects j) (f : Failure) :
    Tells j c.world [] (c.outcomeStep (.err f)) := by
  obtain ⟨w, control, T⟩ := c
  obtain _ | ⟨p, T⟩ := T
  · exact .silent (.refl w) respects.world trivial respects.stack
  · have below := (respects.pop rfl).stack
    have top := respects.stack p List.mem_cons_self
    cases p with
    | perform k => exact .silent (.refl w) respects.world (top (.err f)) below
    | compiled | resolved => exact .silent (.refl w) respects.world trivial below
    | ran origin s chunk =>
        have released := World.releaseChunk_silent (w := w) s.session chunk
        exact .silent (released.trans (.refl _)) respects.world trivial below
    | called ref => exact .silent (World.release_silent _) respects.world trivial below
    | body | guest | key | value => exact .silent (.refl w) respects.world trivial respects.stack

/-- An outcome that is no failure is handed to what waits for it. -/
theorem Respects.handsWell {o : Outcome} (respects : c.Respects j) (well : o.told = [])
    (opened : ∀ s keys arguments T, c.stack = .resolved s keys arguments :: T → o.IsOk →
      s.session < c.world.code.size) :
    Tells j c.world (c.outcomeStep o).told (c.outcomeStep o) := by
  obtain ⟨w, control, T⟩ := c
  obtain _ | ⟨p, T⟩ := T
  · exact .silent (.refl w) respects.world trivial respects.stack
  · have below := respects.pop rfl
    have top := respects.stack p List.mem_cons_self
    cases p with
    | perform k => exact .silent (.refl w) respects.world (top o) below.stack
    | compiled origin =>
        simp only [Config.outcomeStep]
        rw [ranCompiled.eq_def]
        split
        · exact .silent (.refl w) respects.world trivial (below.push trivial)
        · exact below.ends (r := (w, o)) (.refl w) well
    | ran origin s chunk =>
        have released := World.releaseChunk_silent (w := w) s.session chunk
        simp only [Config.outcomeStep, ran]
        split
        · cases well
        · exact below.ends released well
    | resolved s keys arguments => exact below.resolved (opened s keys arguments T rfl) keys arguments well
    | called ref => exact below.ends (r := (_, o)) (World.release_silent _) well
    | body | guest | key | value => exact .silent (.refl w) respects.world trivial respects.stack

/-! ### Guests -/

theorem Respects.leaving {entry : State} {purpose : Purpose} {signal : Guest.Signal} (respects : c.Respects j)
    (opened : entry.session < c.world.code.size) (below : ∀ p ∈ T, p.Respects j)
    (ended : (∃ status error traceback, signal = .failed status error traceback) ∨
      ∃ values, signal = .finished values) :
    Tells j c.world (c.leaving entry purpose T signal).told (c.leaving entry purpose T signal) := by
  have respects : Respects j { c with stack := T } := ⟨respects.world, respects.control, below⟩
  rcases ended with ⟨status, error, traceback, rfl⟩ | ⟨values, rfl⟩
  · have read := World.readFailure_silent (w := c.world) entry.session status error traceback
    have told := (respects.world.congr read.2).failCall (read.2 ▸ opened)
      (c.world.readFailure entry.session status error traceback).2
    exact respects.ending (r := (World.restore _ entry, _)) (read.then (told.then (.refl _)))
  · have restored : c.world.Silent (c.world.restore entry) := .refl c.world
    have told := (respects.world.congr restored.2).returned opened purpose values
    exact respects.ending (restored.then told)

theorem Respects.raising (respects : c.Respects j) (session : Nat) (t : Thrown) (silent : c.world.Silent w) :
    Tells j c.world [] (c.raising session t w) :=
  .silent (silent.trans (World.raiseInGuest_silent session t)) respects.world trivial respects.stack

/-- What a guest has stopped for is told, if it is a line or the call of a host function. -/
def announced (w : World σ) (session : Nat) : Option Guest.Signal → List Event
  | some (.hostCall index values) =>
    match (w.vms[session]?).bind (·.exposed[index]?) with
    | some (name, _) => [.called ⟨name, (w.receiveAll session values).2⟩]
    | none => []
  | some (.log line) => [.logged line]
  | _ => []

theorem Respects.invoking (respects : c.Respects j) (session index : Nat) (values : List Guest.Value) :
    Tells j c.world (announced c.world session (some (.hostCall index values)))
      (c.invoking session index values) := by
  cases found : (c.world.vms[session]?).bind (·.exposed[index]?) with
  | none =>
      simp only [Config.invoking, announced, found]
      exact respects.raising session _ (.refl c.world)
  | some e =>
      obtain ⟨name, body⟩ := e
      obtain ⟨v, there, exposed⟩ := Option.bind_eq_some_iff.mp found
      have read := World.silent_reading.receiveAll c.world session values
      have reading := respects.world.congr read.2
      have opened : session < (c.world.receiveAll session values).1.code.size := by
        obtain ⟨inside, -⟩ := Array.getElem?_eq_some_iff.mp there
        rw [read.2, World.code, Array.size_map]
        exact inside
      obtain ⟨tells, -⟩ := reading.notify opened (fun _ keep => keep.calls)
        ⟨name, (c.world.receiveAll session values).2⟩
      have told := read.then tells
      simp only [Config.invoking, announced, found]
      split
      · next w t threw =>
          rw [threw] at told
          have raised := World.raiseInGuest_silent (w := w) session t
          exact ⟨(told.then raised).journal, respects.world.congr (told.then raised).code, trivial, respects.stack⟩
      · next w heard =>
          rw [heard] at told
          exact ⟨told.journal, respects.world.congr told.code,
            respects.world.exposed there exposed _ _, respects.push trivial⟩

theorem Respects.logging (respects : c.Respects j) (opened : session < c.world.code.size) (line : String) :
    Tells j c.world [.logged line] (c.logging session line) := by
  have heeds : ∀ callbacks : Callbacks σ, callbacks.Keep j → j.Heeds (some callbacks.onLog) .logged :=
    fun _ keep => keep.logs
  obtain ⟨told, -⟩ := respects.world.notify opened heeds line
  rw [Config.logging]
  split
  · next w heard =>
      rw [heard] at told
      have answered := told.then (World.modifyMachine_silent (w := w) session (·.answerLog))
      exact ⟨answered.journal, respects.world.congr answered.code, respects.control, respects.stack⟩
  · next w t threw =>
      rw [threw] at told
      have raised := told.then (World.raiseInGuest_silent (w := w) session t)
      exact ⟨raised.journal, respects.world.congr raised.code, trivial, respects.stack⟩

theorem Respects.readingForGuest (respects : c.Respects j) (session : Nat) (path : String) :
    Tells j c.world [] (c.readingForGuest session path) := by
  rw [Config.readingForGuest, readingFile]
  split
  · exact .silent (.refl c.world) respects.world respects.control respects.stack
  · exact .silent (World.modifyMachine_silent session _) respects.world respects.control respects.stack

theorem Respects.heeding {entry : State} {purpose : Purpose} (respects : c.Respects j)
    (opened : entry.session < c.world.code.size) (control : c.control = .guest entry.session)
    (waits : c.stack = .guest entry purpose :: T) (signal : Option Guest.Signal) :
    Tells j c.world (announced c.world entry.session signal ++ (c.heeding entry.session signal).told)
      (c.heeding entry.session signal) := by
  -- a guest goes on, or waits for a file: nothing has ended then
  have going {d : Config σ} (same : d.control = .guest entry.session) : d.told = [] := by
    rw [told, same]
    rfl
  have ended (signal : Guest.Signal) : c.guestEnded signal = c.leaving entry purpose T signal := by
    simp only [guestEnded, waits]
  have below := (respects.pop waits).stack
  rcases signal with _ | (values | ⟨status, error, traceback⟩ | ⟨index, values⟩ | line | path)
  · rw [Config.heeding, going control]
    exact .silent (.refl c.world) respects.world respects.control respects.stack
  · simp only [Config.heeding, announced, ended, List.nil_append]
    exact respects.leaving opened below (.inr ⟨values, rfl⟩)
  · simp only [Config.heeding, announced, ended, List.nil_append]
    exact respects.leaving opened below (.inl ⟨status, error, traceback, rfl⟩)
  · have nothing : (c.invoking entry.session index values).told = [] := by
      rw [Config.invoking]
      split
      · rfl
      · dsimp only
        split <;> rfl
    simp only [Config.heeding, nothing, List.append_nil]
    exact respects.invoking entry.session index values
  · have nothing : (c.logging entry.session line).told = [] := by
      rw [Config.logging]
      split
      · exact going control
      · rfl
    simp only [Config.heeding, nothing, List.append_nil]
    exact respects.logging opened line
  · have nothing : (c.readingForGuest entry.session (Text.decode path)).told = [] := by
      rw [Config.readingForGuest, readingFile]
      split
      · rfl
      · exact going control
    simp only [Config.heeding, announced, nothing, List.append_nil]
    exact respects.readingForGuest entry.session _

/-! ### Host code -/

/-- What a host function returns is accepted: the state is the head of the session that has called it, the values
may be handed over, and there is room for them. -/
def admits (c : Config σ) (session : Nat) (state : State) (items : List Item) : Bool :=
  (c.returnViolation? session state items).isNone && (c.world.machine session).hasRoomAbove items.length

theorem Respects.answering (respects : c.Respects j) (opened : session < c.world.code.size) (name : String)
    (state : State) (items : List Item) :
    Tells j c.world (if c.admits session state items then [.returned ⟨name, items⟩] else [])
      (c.answering session name state items) := by
  have raised (t : Thrown) : Tells j c.world [] (c.raising session t c.world) :=
    respects.raising session t (.refl c.world)
  cases accepted : c.returnViolation? session state items with
  | some fault =>
      simp only [Config.answering, admits, accepted]
      exact respects.raising session _ (w := c.world.freshIdentity.1) (.refl c.world)
  | none =>
      cases room : (c.world.machine session).hasRoomAbove items.length with
      | false =>
          simp only [Config.answering, admits, accepted, room]
          exact raised _
      | true =>
          obtain ⟨told, -⟩ := respects.world.notify opened (fun _ keep => keep.returns) ⟨name, items⟩
          simp only [Config.answering, admits, accepted, room, Option.isNone_none, Bool.and_self, if_true]
          split
          · next w t threw =>
              rw [threw] at told
              have raised := told.then (World.raiseInGuest_silent (w := w) session t)
              exact ⟨raised.journal, respects.world.congr raised.code, trivial, respects.stack⟩
          · next w heard =>
              rw [heard] at told
              have answered (f : Guest.Machine → Guest.Machine) :
                  World.Tells j c.world [.returned ⟨name, items⟩] (w.modifyMachine session f) :=
                told.then (World.modifyMachine_silent session f)
              split
              · exact ⟨(answered _).journal, respects.world.congr (answered _).code, trivial, respects.stack⟩
              · exact ⟨(answered _).journal, respects.world.congr (answered _).code, trivial, respects.stack⟩

/-- A host function that returns is told of if what it returns is accepted. -/
def returning (c : Config σ) (state : State) (items : List Item) : List Event :=
  match c.stack with
  | .body session name :: _ => if c.admits session state items then [.returned ⟨name, items⟩] else []
  | _ => []

theorem Respects.done (respects : c.Respects j) (state : State) (items : List Item)
    (opened : ∀ session name T, c.stack = .body session name :: T → session < c.world.code.size) :
    Tells j c.world (c.returning state items) (c.done state items) := by
  obtain ⟨w, control, T⟩ := c
  have finished : Tells j w [] { world := w, control := .finished (.ok (state, items)), stack := T } :=
    .silent (.refl w) respects.world trivial respects.stack
  obtain _ | ⟨p, T⟩ := T
  · exact finished
  · have below := respects.pop rfl
    have top := respects.stack p List.mem_cons_self
    cases p with
    | body session name => exact below.answering (opened session name T rfl) name state items
    | key table entry =>
        simp only [Config.done, gotKey]
        split
        · exact below.abandoningTable _
        · exact .silent (.refl w) respects.world (top.2 state) (below.push top.1)
    | value table key =>
        have built := below.nextEntry { table with done := (key, items.headD nilItem) :: table.done } state top
        rwa [nextEntry_told] at built
    | perform | guest | compiled | ran | resolved | called => exact finished

theorem Respects.thrown (respects : c.Respects j) (t : Thrown) : Tells j c.world [] (c.thrown t) := by
  obtain ⟨w, control, T⟩ := c
  have finished : Tells j w [] { world := w, control := .finished (.error t), stack := T } :=
    .silent (.refl w) respects.world trivial respects.stack
  obtain _ | ⟨p, T⟩ := T
  · exact finished
  · have below := respects.pop rfl
    cases p with
    | body session name => exact below.raising session t (.refl w)
    | key | value => exact below.abandoningTable t
    | perform | guest | compiled | ran | resolved | called => exact finished

/-- Host code does not fail; it throws. -/
theorem clientStep_told (c : Config σ) (k : Client σ) : (c.clientStep k).told = [] := by
  obtain ⟨w, control, T⟩ := c
  cases k with
  | done state items =>
      obtain _ | ⟨p, T⟩ := T
      · rfl
      · cases p with
        | body session name =>
            simp only [clientStep, Config.done, Config.answering]
            split
            · rfl
            · split
              · split <;> rfl
              · rfl
        | key table entry =>
            simp only [clientStep, Config.done, gotKey]
            split <;> rfl
        | value table key => exact nextEntry_told _ _ state
        | perform | guest | compiled | ran | resolved | called => rfl
  | throw t =>
      obtain _ | ⟨p, T⟩ := T
      · rfl
      · cases p <;> rfl
  | access | identity | perform => rfl

/-- The next step tells this. A failure is told by the part of an operation that it ends, and then handed on in
silence; decoding is silent. -/
def tidings (c : Config σ) : List Event :=
  match c.control with
  | .client (.done state items) => c.returning state items
  | .guest session =>
    let w := c.world.modifyMachine session (·.run portion)
    announced w session (w.machine session).signal ++ c.step.told
  | .perform (.decode _ _) => []
  | .perform _ => c.step.told
  | .outcome (.err _) => []
  | .outcome _ => c.step.told
  | _ => []

end Config

/-! ### Steps -/

/-- A call by name that has found something has looked for it in a session that is there. -/
def Posture.Finds (p : Posture σ) : Prop :=
  ∀ o s keys arguments T, p.control = .outcome o → o.IsOk → p.stack = .resolved s keys arguments :: T →
    s.session < p.standing.lineages.size

theorem Move.finds {p q : Posture σ} (m : Move p q) (proper : p.Proper) (sound : p.Sound)
    (before : p.Finds) : q.Finds := by
  intro o s keys arguments T control ok waits
  obtain ⟨fits, stacked⟩ := proper
  -- the guest has run for the search, from the state that is searched from
  have searched {S : Standing σ} {control : Control σ} {entry : State} {purpose : Purpose} {R : List (Pending σ)}
      (sound : Posture.Sound ⟨S, control, .guest entry purpose :: R⟩) (stacked : Stacked (.guest entry purpose :: R))
      (waits : R = .resolved s keys arguments :: T) : s.session < S.lineages.size := by
    subst waits
    cases stacked with
    | cons fits _ =>
        cases fits with
        | guest op _ _ _ enters fits =>
            cases fits
            cases enters
            exact (sound.revived _ List.mem_cons_self s rfl).1
  cases m with
  | idle => exact before o s keys arguments T control ok waits
  | proceeds S path next R =>
      rcases sound.waits _ _ rfl with ⟨_, rfl⟩ | ⟨_, _, rfl⟩ <;> exact nomatch control
  | fails S op o R failed =>
      cases control
      exact absurd ok failed
  | ends S op r R free =>
      subst waits
      cases fits with
      | perform _ _ fits =>
          cases fits
          exact nomatch free
  | closes | opens =>
      subst waits
      cases fits with
      | perform _ _ fits => cases fits
  | succeeds S op s' r R subject accepted gives =>
      subst waits
      cases fits with
      | perform _ _ fits =>
          cases fits
          exact absurd trivial gives
  | guestFails S session entry purpose o R failed =>
      cases control
      exact absurd ok failed
  | guestTells S session entry path asReference r R =>
      have opened := searched sound stacked waits
      simpa using opened
  | guestReturns S session entry purpose r R gives =>
      have opened := searched sound stacked waits
      simpa using opened
  | built =>
      subst waits
      cases stacked with
      | cons fits' _ => cases fits'
  | handsOn S o f R h =>
      subst waits
      cases stacked with
      | cons fits' _ => cases h <;> cases fits'
  | abandonsKey | abandonsValue | settles =>
      cases control
      exact ok.elim
  | refusesTarget S s r state keys arguments o R failed =>
      cases control
      exact absurd ok failed
  | _ => exact nomatch control

theorem Config.Reachable.finds {c : Config σ} (reachable : Config.Reachable c) : c.posture.Finds := by
  obtain ⟨client, directory, memory, run⟩ := reachable
  induction run with
  | refl => exact fun _ _ _ _ _ control => nomatch control
  | @tail c d before next ih =>
      have reachable : Config.Reachable c := ⟨client, directory, memory, before⟩
      exact next.1.move.finds reachable.proper reachable.sound ih

namespace Config
variable {j : Journal σ ε} {c d : Config σ} {s : State} {session : Nat} {T : List (Pending σ)}

theorem Reachable.sizes (reachable : Reachable c) : c.world.ledgers.size = c.world.code.size := by
  simpa [posture, World.standing, World.code] using reachable.sound.standing.sessions

theorem Reachable.entered {entry : State} {purpose : Purpose} (reachable : Reachable c)
    (waits : .guest entry purpose ∈ c.stack) : entry.session < c.world.code.size := by
  have issued := reachable.sound.revived _ waits entry rfl
  have opened : entry.session < c.world.ledgers.size := by
    simpa [posture, World.standing] using issued.1
  exact reachable.sizes ▸ opened

/-- A host function has been called from a session that is there. -/
theorem Reachable.called {name : String} (reachable : Reachable c)
    (waits : c.stack = .body session name :: T) : session < c.world.code.size := by
  have stacked : Stacked c.stack := reachable.proper.stacked
  rw [waits] at stacked
  cases stacked with
  | cons fits _ =>
      cases fits with
      | body entry _ purpose R =>
          have below : .guest entry purpose ∈ c.stack := by simp [waits]
          exact reachable.entered below

theorem Reachable.found {o : Outcome} {keys : List String} {arguments : List Item} (reachable : Reachable c)
    (control : c.control = .outcome o) (waits : c.stack = .resolved s keys arguments :: T) (ok : o.IsOk) :
    s.session < c.world.code.size := by
  have opened := reachable.finds o s keys arguments T control ok waits
  simpa [posture, World.standing, reachable.sizes] using opened

/-- A step tells its tidings and nothing else. -/
theorem Respects.step (respects : c.Respects j) (reachable : Reachable c) :
    Tells j c.world c.tidings c.step := by
  have proper := reachable.proper
  obtain ⟨w, control, T⟩ := c
  cases control with
  | client k =>
      cases k with
      | done state items =>
          exact respects.done state items fun session name T waits => reachable.called waits
      | throw t => exact respects.thrown t
      | access update next =>
          have spares := respects.control
          refine ⟨?_, respects.world, spares.2 _ _, respects.stack⟩
          exact (spares.1 w.ledgers w.memory).trans (List.append_nil _).symm
      | identity k => exact .silent (.refl w) respects.world (respects.control _) respects.stack
      | perform op k =>
          exact .silent (.refl w) respects.world respects.control.1 (respects.push respects.control.2)
  | perform op =>
      by_cases telling : ∀ value decoder, op ≠ .decode value decoder
      · have told := respects.perform reachable.sizes respects.control telling
        cases op with
        | decode value decoder => exact absurd rfl (telling value decoder)
        | _ => exact told
      · cases op with
        | decode value decoder => exact respects.decoding value decoder
        | _ => exact absurd (fun _ _ same => nomatch same) telling
  | outcome o =>
      cases o with
      | err f => exact respects.handsOn f
      | ok | threw =>
          exact respects.handsWell rfl fun s keys arguments R waits ok => reachable.found rfl waits ok
  | guest session =>
      have fits : Control.Fits (.guest session) T := proper.control
      cases fits with
      | guest entry purpose T =>
          have ran := World.modifyMachine_silent (w := w) entry.session (·.run portion)
          have there : Respects j ⟨w.modifyMachine entry.session (·.run portion), .guest entry.session,
              .guest entry purpose :: T⟩ := respects.within ran
          have opened : entry.session < w.code.size :=
            reachable.entered (List.mem_cons_self (a := .guest entry purpose) (l := T))
          have told := there.heeding (ran.2 ▸ opened) rfl rfl
            ((w.modifyMachine entry.session (·.run portion)).machine entry.session).signal
          have heeded := guestStep_eq (c := ⟨w, .guest entry.session, .guest entry purpose :: T⟩) entry.session
          have step : Config.step ⟨w, .guest entry.session, .guest entry purpose :: T⟩ = _ := heeded
          simp only [tidings, step]
          exact .after ran told
  | lacking path next =>
      have waits : Tells j w [] { world := w, control := .lacking path next, stack := T } :=
        .silent (.refl w) respects.world respects.control respects.stack
      have goesOn : Tells j w [] { world := w, control := next, stack := T } :=
        .silent (.refl w) respects.world respects.control respects.stack
      simp only [Config.step, tidings]
      split
      · exact waits
      · exact goesOn
  | finished r => exact .silent (.refl w) respects.world trivial respects.stack

theorem Respects.steps (respects : c.Respects j) (reachable : Reachable c) (n : Nat) :
    Respects j (Config.step^[n] c) := by
  induction n with
  | zero => exact respects
  | succ n ih =>
      rw [Function.iterate_succ_apply']
      exact (ih.step (reachable.run (run_steps c n))).respects

end Config

end LuaHost
