import LuaHost.Proofs.Assignments
import LuaHost.Proofs.Positions
import LuaHost.Proofs.Sources
/-!
The positions that failures report. Guests put the name of a chunk, as they show it, and a line in front of what they
have to say about it; a given name of less than sixty bytes, none of them zero, is shown as it is. What is reported of
such a message is the line of the chunk, whatever the message says, unless there is a position mark in the name.
-/

namespace LuaHost

namespace Guest

namespace ChunkName

/-- A message behind a line of a chunk. -/
def Places (name : Bytes) (line : Nat) (message : Bytes) : Prop :=
  ∃ text, message = untilZero (shown name) ++ bytes (":" ++ toString line ++ ": ") ++ text

/-- A name that is given to a chunk is shown in full. -/
def Printed (name : String) : Prop := untilZero (shown (bytes ("=" ++ name))) = bytes name

theorem take_findIdx? (text : List UInt8) (p : UInt8 → Bool) :
    (match text.findIdx? p with | some i => text.take i | none => text) = text.takeWhile (!p ·) := by
  induction text with
  | nil => rfl
  | cons b text ih =>
      rw [List.findIdx?_cons]
      cases found : p b with
      | true => simp [found]
      | false =>
          simp only [found, List.takeWhile_cons, Bool.false_eq_true, if_false, Bool.not_false, if_true]
          rw [← ih]
          cases text.findIdx? p <;> rfl

theorem untilZero_toList (b : Bytes) : (untilZero b).data.toList = b.data.toList.takeWhile (· != 0) := by
  refine Eq.trans ?_ (take_findIdx? b.data.toList (· == 0))
  rw [untilZero, Text.toList_eq_data]
  cases b.data.toList.findIdx? (· == 0) with
  | none => rfl
  | some i => simp [List.extract_eq_take_drop]

/-- Of a given name the first bytes are shown, and the sign in front of it is not. -/
theorem shown_given (name : String) :
    (shown (bytes ("=" ++ name))).data.toList = (bytes name).data.toList.take (limit - 1) := by
  have split : (bytes ("=" ++ name)).data.toList = 61 :: (bytes name).data.toList := by
    have joined : bytes ("=" ++ name) = bytes "=" ++ bytes name := rfl
    rw [joined, ByteArray.data_append, Array.toList_append]
    rfl
  rw [shown, Text.toList_eq_data, split]
  simp only [List.head?_cons]
  rw [ByteArray.data_extract, Array.toList_extract, split, List.extract_eq_take_drop]
  rfl

/-- A name is shown in full exactly if it is short enough and has no zero byte. -/
theorem printed_iff (name : String) :
    Printed name ↔ (bytes name).size < limit ∧ (0 : UInt8) ∉ (bytes name).data.toList := by
  have same : Printed name ↔
      ((bytes name).data.toList.take (limit - 1)).takeWhile (· != 0) = (bytes name).data.toList := by
    rw [← shown_given, ← untilZero_toList, Array.toList_inj]
    exact ⟨congrArg _, ByteArray.ext⟩
  have size : (bytes name).size = (bytes name).data.toList.length := rfl
  rw [same, size]
  generalize (bytes name).data.toList = text
  constructor
  · intro whole
    have short := (List.takeWhile_prefix (· != 0) (l := text.take (limit - 1))).length_le
    rw [whole, List.length_take] at short
    refine ⟨by have : limit = 60 := rfl; omega, fun mem => ?_⟩
    rw [← whole] at mem
    simpa using List.mem_takeWhile_imp mem
  · rintro ⟨short, plain⟩
    rw [List.take_of_length_le (by omega), List.takeWhile_eq_self_iff]
    intro b mem
    simpa using ne_of_mem_of_not_mem mem plain

variable {name : String} {line : Nat} {message : Bytes}

/-- What a message behind a line of a chunk is to the host. -/
theorem Places.decoded (printed : Printed name) (places : Places (bytes ("=" ++ name)) line message) :
    ∃ text, Text.decode message = Text.Location.written name line ++ text := by
  obtain ⟨text, rfl⟩ := places
  have joined : untilZero (shown (bytes ("=" ++ name))) ++ bytes (":" ++ toString line ++ ": ") =
      Text.encode (Text.Location.written name line) := by
    have name : bytes name ++ bytes (":" ++ toString line ++ ": ") =
        Text.encode (name ++ (":" ++ toString line ++ ": ")) := rfl
    rw [printed, name, Text.Location.written]
    simp only [String.append_assoc]
  rw [joined, Text.decode_encode_append]
  exact ⟨_, rfl⟩

end ChunkName

/-- What is wrong with source text is told behind a line of its chunk. -/
theorem Lexer.failure_places (lexer : Lexer) (message : Bytes) (near : Option TokenKind) :
    ChunkName.Places lexer.chunk lexer.line (lexer.failure message near).message := by
  rw [Lexer.failure.eq_def]
  split
  · exact ⟨_, rfl⟩
  · exact ⟨_, rfl⟩
  · next kind _ =>
      refine ⟨ChunkName.untilZero message ++ (ChunkName.bytes " near " ++ lexer.shownToken kind), ?_⟩
      simp only [ChunkName.located, ByteArray.append_assoc]

/-- What a machine puts a position in front of is told behind a line of the chunk that it runs. -/
theorem Machine.positioned_places {m : Machine} {a : Activation} (runs : m.frame = .compiled a) (message : Bytes) :
    ∃ text, m.positioned message = .string text ∧ ChunkName.Places a.prototype.source a.line text := by
  refine ⟨_, rfl, message, ?_⟩
  rw [Machine.here, runs]
  rfl

end Guest

namespace Operation

/-- The operations that compile source text under a name that it is given. -/
inductive Names (s : State) (source name : String) : Operation σ → Prop
  | load : Names s source name (.load s source (some name))
  | run : Names s source name (.run s source (some name))

end Operation

namespace Config
variable {c d : Config σ} {f : Failure}

/-- A guest has a message for an operation: the source text that it is handed under a name does not compile, or what
it runs has raised a text. -/
inductive Hears (c : Config σ) : Guest.Bytes → Prop
  | compiling {op : Operation σ} {s : State} {source name : String} {message : Guest.Bytes}
      (control : c.control = .perform op) (names : op.Names s source name)
      (accepted : c.world.stateViolation? s = none) (quiet : c.world.standing.Quiet s.session)
      (wrong : (Chunk.ofText source (some name)).compile (c.world.machine s.session).mainDepth = .error message) :
      Hears c message
  | running {session : Nat} {message : Guest.Bytes} {traceback : Option Guest.Bytes}
      (control : c.control = .guest session) (quiet : c.world.standing.Quiet session)
      (raised : ((c.world.modifyMachine session (·.run portion)).machine session).signal =
        some (.failed .raised (.string message) traceback)) : Hears c message

theorem loading_refused {s : State} {chunk : Chunk} {message : Guest.Bytes} (loaded : c.world.Loaded)
    (quiet : c.world.standing.Quiet s.session)
    (wrong : chunk.compile (c.world.machine s.session).mainDepth = .error message) :
    ∃ w identity, c.loading s chunk = ⟨w, .outcome (.err ⟨identity,
      .syntaxError (Text.decode message) (Text.Location.ofMessage? (Text.decode message))⟩), c.stack⟩ := by
  have same : ((c.world.addChunk chunk).1.chunk c.world.chunks.size).compile
      ((c.world.addChunk chunk).1.machine s.session).mainDepth = .error message := by
    rw [World.chunk_addChunk]
    exact wrong
  have refused := World.load_refused (loaded_new loaded s.session chunk) same
  obtain ⟨identity, failed⟩ := World.fail_err (w := (c.world.addChunk chunk).1) quiet
    (.syntaxError (Text.decode message) (Text.Location.ofMessage? (Text.decode message)))
  have loads : c.loading s chunk = c.ending ((c.world.addChunk chunk).1.fail s.session
      (.syntaxError (Text.decode message) (Text.Location.ofMessage? (Text.decode message)))) :=
    congrArg c.ending refused
  rw [ending, failed] at loads
  exact ⟨_, identity, loads⟩

/-- The operation that a guest has a message for fails with the place that the message names. -/
theorem Hears.fails {message : Guest.Bytes} (hears : c.Hears message) (earned : Earned c) :
    ∃ d f, Leads c d ∧ d.control = .outcome (.err f) ∧ d.stack <:+ c.stack ∧
      f.fault.location? = Text.Location.ofMessage? (Text.decode message) := by
  cases hears with
  | @compiling op s source name _ control names accepted quiet wrong =>
      cases names with
      | load =>
          obtain ⟨w, identity, refused⟩ := loading_refused earned.inOrder.loaded quiet wrong
          have next := (load_step control accepted).trans refused
          exact ⟨_, _, ⟨1, next⟩, rfl, List.suffix_rfl, rfl⟩
      | run =>
          let d : Config σ := ⟨c.world, .perform (.load s source (some name)), .compiled s :: c.stack⟩
          have loads : c.step = d := by
            simp only [step, control, perform, d]
          obtain ⟨w, identity, refused⟩ := loading_refused (c := d) earned.inOrder.loaded quiet wrong
          have next := (load_step (c := d) rfl accepted).trans refused
          have passed : step ⟨w, .outcome (.err ⟨identity, .syntaxError (Text.decode message)
              (Text.Location.ofMessage? (Text.decode message))⟩), .compiled s :: c.stack⟩ =
              ⟨w, .outcome (.err ⟨identity, .syntaxError (Text.decode message)
                (Text.Location.ofMessage? (Text.decode message))⟩), c.stack⟩ := rfl
          have ended : step^[3] c = _ := (congrArg (step ∘ step) loads).trans ((congrArg step next).trans passed)
          exact ⟨_, _, ⟨3, ended⟩, rfl, List.suffix_rfl, rfl⟩
  | @running session _ traceback control quiet raised =>
      obtain ⟨entry, purpose, passing, k, T, w, f, -, waits, ended, classified⟩ :=
        failed_call earned.reachable control raised quiet
      refine ⟨_, f, ⟨_, ended⟩, rfl, ?_, ?_⟩
      · rw [waits]
        exact (List.suffix_append passing _).trans (List.suffix_cons _ _)
      · cases classified with
        | carried carries =>
            obtain ⟨id, same, -⟩ := carries
            cases same
        | text fault => rw [fault, Fault.location?]
        | value plain => exact absurd rfl (plain _)
        | interpreter other => exact absurd rfl other

/-- The position of a message behind a line of a chunk is the one that is told of the name and the line, and this is
the line of the chunk itself exactly if there is no position mark in its name. The failure of a load or a run whose
source text does not compile gives this position, and so does that of an operation in which a text is raised, when
the guest shows the name in full and puts the line of the chunk in front of what it has to say. -/
theorem positions_reported (name : String) (line : Nat) :
    (∀ text, Text.Location.ofMessage? (Text.Location.written name line ++ text) =
      some (Text.Location.told name line)) ∧
    (Text.Location.told name line = ⟨name, line⟩ ↔ ¬ Text.Location.Marked name) ∧
    ∀ (c : Config σ) (message : Guest.Bytes), Earned c → Guest.ChunkName.Printed name → c.Hears message →
      Guest.ChunkName.Places (Guest.ChunkName.bytes ("=" ++ name)) line message →
      ∃ d f, Leads c d ∧ d.control = .outcome (.err f) ∧ d.stack <:+ c.stack ∧
        f.fault.location? = some (Text.Location.told name line) := by
  refine ⟨Text.Location.ofMessage?_written name line, Text.Location.told_eq_iff name line, ?_⟩
  intro c message earned printed hears places
  obtain ⟨d, f, leads, ended, stack, location⟩ := hears.fails earned
  obtain ⟨text, decoded⟩ := places.decoded printed
  rw [decoded, Text.Location.ofMessage?_written] at location
  exact ⟨d, f, leads, ended, stack, location⟩

/-- Source text that is not finished is about to be loaded under a name. -/
def unfinished : Config Unit :=
  step^[4] (start { directory := default, memory := () } (Client.opening fun s => [.load s "x = " (some "a")]))

/-- What is wrong with source text. -/
def wrong? : Except Guest.Bytes Guest.Prototype → Option Guest.Bytes
  | .error message => some message
  | .ok _ => none

theorem unfinished_depth : (unfinished.world.machine 0).mainDepth = 0 := by
  decide

set_option maxRecDepth 8000 in
theorem unfinished_wrong : wrong? ((Chunk.ofText "x = " (some "a")).compile 0) =
    some (Guest.ChunkName.bytes "a:1: unexpected symbol near <eof>") := by
  cbv

theorem unfinished_reported : ∃ d f, Leads unfinished d ∧ d.control = .outcome (.err f) ∧
    d.stack <:+ unfinished.stack ∧ f.fault.location? = some ⟨"a", 1⟩ := by
  have earned : Earned unfinished := ⟨_, _, _, honestRun_steps (by decide)⟩
  have quiet : unfinished.world.standing.Quiet 0 := World.quiet_of_silent rfl
  have wrong : (Chunk.ofText "x = " (some "a")).compile (unfinished.world.machine 0).mainDepth =
      .error (Guest.ChunkName.bytes "a:1: unexpected symbol near <eof>") := by
    have wrong := unfinished_wrong
    rw [wrong?.eq_def] at wrong
    split at wrong
    · next told =>
        cases wrong
        rw [unfinished_depth, told]
    · cases wrong
  have printed : Guest.ChunkName.Printed "a" := (Guest.ChunkName.printed_iff "a").mpr (by decide)
  have hears : unfinished.Hears (Guest.ChunkName.bytes "a:1: unexpected symbol near <eof>") :=
    .compiling (s := ⟨0, 0⟩) rfl .load rfl quiet wrong
  exact (positions_reported "a" 1).2.2 unfinished _ earned printed hears
    ⟨Guest.ChunkName.bytes "unexpected symbol near <eof>", by rw [printed]; rfl⟩

end Config

end LuaHost
