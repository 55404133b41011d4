import LuaHost.Proofs.Characters
import LuaHost.Proofs.Classification
import LuaHost.Proofs.Commands
import LuaHost.Proofs.Interleavings
import LuaHost.Proofs.SlotAccounting
/-!
The source text that is compiled of a file, and of what is read from standard input. A file loses a first line that
starts with `#`, so that what is left of it keeps its line numbers; guests have their own loader leave out a mark in
front of the text as well. Standard input is text to begin with, and nothing of it is left out: a script is the same
on both ways exactly if it is well-formed text that does not start with `#`.
-/

namespace LuaHost

variable {σ : Type}

namespace Chunk

/-- Text without a first line that starts with `#`; the line break at its end stays. -/
def withoutHashLine (text : List UInt8) : List UInt8 :=
  if text.head? = some hash then text.dropWhile (· != newline) else text

/-- What text in UTF-8 may be marked with at its start. -/
def mark : List UInt8 := [0xef, 0xbb, 0xbf]

def withoutMark (text : List UInt8) : List UInt8 :=
  if mark <+: text then text.drop mark.length else text

/-- The number of the line that a byte is on. -/
def lineNumber (text : List UInt8) (i : Nat) : Nat := (text.take i).count newline + 1

/-! ### Leaving out a line -/

theorem toList_extract_size (bytes : ByteArray) (i : Nat) :
    (bytes.extract i bytes.size).data.toList = bytes.data.toList.drop i := by
  rw [ByteArray.data_extract, Array.toList_extract, List.extract_eq_take_drop, List.take_of_length_le]
  rw [List.length_drop]
  exact Nat.le_refl _

theorem drop_findIdx? (text : List UInt8) (p : UInt8 → Bool) :
    (match text.findIdx? p with | some i => text.drop i | none => []) = text.dropWhile (!p ·) := by
  induction text with
  | nil => rfl
  | cons b text ih =>
      rw [List.findIdx?_cons]
      cases found : p b with
      | true => simp [found]
      | false =>
          simp only [found, List.dropWhile_cons, Bool.false_eq_true, if_false, Bool.not_false, if_true]
          rw [← ih]
          cases text.findIdx? p <;> rfl

theorem byteAt?_zero (bytes : ByteArray) : Guest.byteAt? bytes 0 = bytes.data.toList.head? := by
  obtain ⟨⟨text⟩⟩ := bytes
  cases text <;> rfl

theorem withoutFirstLine_toList (content : ByteArray) :
    (withoutFirstLine content).data.toList = withoutHashLine content.data.toList := by
  rw [withoutFirstLine, withoutHashLine, byteAt?_zero, Text.toList_eq_data]
  simp only [beq_iff_eq]
  split
  · refine Eq.trans ?_ (drop_findIdx? content.data.toList (· == newline))
    cases content.data.toList.findIdx? (· == newline) with
    | none => rfl
    | some i => exact toList_extract_size content i
  · rfl

/-- The guest's own loader leaves out the mark before it looks for a line. -/
theorem guest_withoutFirstLine_toList (content : ByteArray) :
    (Guest.Library.withoutFirstLine content).data.toList =
      withoutHashLine (withoutMark content.data.toList) := by
  have marked : (content.extract 0 3 == ⟨#[0xef, 0xbb, 0xbf]⟩) = decide (mark <+: content.data.toList) := by
    have front : (content.extract 0 3).data.toList = content.data.toList.take 3 := by
      rw [ByteArray.data_extract, Array.toList_extract, List.extract_eq_take_drop]
      rfl
    change ((content.extract 0 3).data == #[0xef, 0xbb, 0xbf]) = _
    rw [Bool.eq_iff_iff, beq_iff_eq, decide_eq_true_iff, List.prefix_iff_eq_take, ← Array.toList_inj, front]
    exact eq_comm
  have rest : withoutMark content.data.toList =
      (if content.extract 0 3 == ⟨#[0xef, 0xbb, 0xbf]⟩ then content.extract 3 content.size
        else content).data.toList := by
    rw [marked, withoutMark]
    by_cases there : mark <+: content.data.toList
    · rw [if_pos there, if_pos (decide_eq_true there), toList_extract_size]
      rfl
    · rw [if_neg there, if_neg (by rwa [decide_eq_true_iff])]
  rw [rest, ← withoutFirstLine_toList, Guest.Library.withoutFirstLine, withoutFirstLine]
  generalize (if content.extract 0 3 == ⟨#[0xef, 0xbb, 0xbf]⟩ then content.extract 3 content.size
    else content) = source
  rfl

/-- What is left out is part of the first line. -/
theorem withoutHashLine_suffix (text : List UInt8) :
    ∃ dropped, text = dropped ++ withoutHashLine text ∧ newline ∉ dropped := by
  rw [withoutHashLine]
  split
  · refine ⟨text.takeWhile (· != newline), (List.takeWhile_append_dropWhile).symm, ?_⟩
    intro mem
    simpa using List.mem_takeWhile_imp mem
  · exact ⟨[], rfl, List.not_mem_nil⟩

theorem lineNumber_append {dropped : List UInt8} (none : newline ∉ dropped) (text : List UInt8) (i : Nat) :
    lineNumber (dropped ++ text) (dropped.length + i) = lineNumber text i := by
  rw [lineNumber, List.take_append, List.count_append, List.take_of_length_le (Nat.le_add_right ..),
    List.count_eq_zero.mpr none, Nat.zero_add, Nat.add_sub_cancel_left, lineNumber]

/-- The two loaders agree on a file exactly if it starts with no mark. -/
theorem withoutHashLine_eq_iff (text : List UInt8) :
    withoutHashLine text = withoutHashLine (withoutMark text) ↔ ¬ mark <+: text := by
  rw [withoutMark]
  constructor
  · intro same marked
    rw [if_pos marked] at same
    obtain ⟨rest, rfl⟩ := marked
    have whole : withoutHashLine (mark ++ rest) = mark ++ rest := rfl
    obtain ⟨dropped, split, -⟩ := withoutHashLine_suffix rest
    rw [whole, List.drop_left] at same
    have sizes := congrArg List.length same
    have shorter := congrArg List.length split
    rw [List.length_append] at sizes shorter
    have three : mark.length = 3 := rfl
    omega
  · intro unmarked
    rw [if_neg unmarked]

/-- Nothing is left out exactly if there is no line to leave out. -/
theorem withoutHashLine_eq_self (text : List UInt8) :
    withoutHashLine text = text ↔ text.head? ≠ some hash := by
  rw [withoutHashLine]
  constructor
  · intro same first
    rw [if_pos first] at same
    cases text with
    | nil => exact nomatch first
    | cons b text =>
        obtain rfl : b = hash := Option.some.inj first
        have shorter := (List.dropWhile_suffix (· != newline) (l := text)).length_le
        have sizes : (text.dropWhile (· != newline)).length = text.length + 1 := congrArg List.length same
        omega
  · intro other
    rw [if_neg other]

end Chunk

/-! ### Compiling what has been read -/

namespace World
variable {w w' : World σ} {session : Nat} {chunk : Chunk} {made : Made}

/-- What comes of source text that a guest is handed: it is compiled, and its function is kept for it, or it is
told what is wrong with it. -/
inductive Compiled (w : World σ) (session : Nat) (chunk : Chunk) : World σ × Outcome → Prop
  | accepted {w' : World σ} {id : Nat} {s : State} {v : Guest.Value}
      (stands : w'.denoted? (.chunk session id) = some v) (function : w'.IsFunctionOf session chunk v) :
      Compiled w session chunk (w', .ok (some s) (.chunk id chunk))
  | refused {message : Guest.Bytes}
      (wrong : chunk.compile (w.machine session).mainDepth = .error message) :
      Compiled w session chunk (w.fail session
        (.syntaxError (Text.decode message) (Text.Location.ofMessage? (Text.decode message))))

theorem chunk_addChunk (chunk : Chunk) : (w.addChunk chunk).1.chunk w.chunks.size = chunk := by
  simp [World.addChunk, World.chunk]

theorem load_refused {id : Nat} {message : Guest.Bytes} (new : (w.ledger session).compiledSlot? id = none)
    (wrong : (w.chunk id).compile (w.machine session).mainDepth = .error message) :
    w.load session id = w.fail session
      (.syntaxError (Text.decode message) (Text.Location.ofMessage? (Text.decode message))) := by
  simp only [World.load, World.compile, new, wrong]

theorem load_compiled {id : Nat} (sound : w.Sound made) (opened : session < w.ledgers.size)
    (new : (w.ledger session).compiledSlot? id = none) :
    Compiled w session (w.chunk id) (w.load session id) := by
  cases result : (w.chunk id).compile (w.machine session).mainDepth with
  | error message =>
      rw [load_refused new result]
      exact .refused result
  | ok p =>
      have compiled : w.compile session id =
          ((w.keepCompiled session id p).1, .ok (w.keepCompiled session id p).2) := by
        simp only [World.compile, new, result]
      obtain ⟨held, -⟩ := sound.compile opened compiled
      have evolves : w.Evolves made (w.keepCompiled session id p).1 _ := .compiles session id new result
      have kept := (evolves.sound sound).denoted held
      rw [Function.update_self] at kept
      have function := keepCompiled_function (sound.sizes ▸ opened) result
      rw [World.load, compiled]
      have same := succeed_holdings (w.keepCompiled session id p).1 session (.chunk id (w.chunk id))
      exact .accepted ((denoted?_congr same _).trans kept) function

end World

namespace Operation

/-- The operations that read a file and compile what is in it. -/
inductive ReadsFile (s : State) (path : String) : Operation σ → Prop
  | loadFile : ReadsFile s path (.loadFile s path)
  | runFile : ReadsFile s path (.runFile s path)

end Operation

namespace Config
variable {c d : Config σ} {s : State}

/-- Source text that is loaded has not been compiled before. -/
theorem Earned.loading (earned : Earned c) (accepted : c.world.stateViolation? s = none) (chunk : Chunk) :
    World.Compiled (c.world.addChunk chunk).1 s.session chunk
      ((c.world.addChunk chunk).1.load s.session c.world.chunks.size) := by
  obtain ⟨made, recorded⟩ := earned.reachable.recorded
  have sound : (c.world.addChunk chunk).1.Sound made := recorded.sound.same rfl
  have opened : s.session < (c.world.addChunk chunk).1.ledgers.size := by
    have inside := ((c.world.stateViolation?_eq_none s).mp accepted).session_lt
    simpa [World.standing, World.addChunk] using inside
  have compiled := World.load_compiled sound opened (loaded_new earned.inOrder.loaded s.session chunk)
  rwa [World.chunk_addChunk] at compiled

theorem load_step {source : String} {name : Option String} (control : c.control = .perform (.load s source name))
    (accepted : c.world.stateViolation? s = none) : c.step = c.loading s (.ofText source name) := by
  simp only [step, control, perform, requiring, accepted]

theorem loadFile_step {path : String} {content : ByteArray} (control : c.control = .perform (.loadFile s path))
    (accepted : c.world.stateViolation? s = none) (read : c.world.directory.read? path = some (.ok content)) :
    c.step = c.loading s (.ofFile path content) := by
  simp only [step, control, perform, loadingFile, requiring, accepted, readingFile, read]

/-- Of a file that is loaded or run, the text without a first line that starts with `#` is compiled, and every byte
of it keeps the number of its line. This is what the guest's own loader compiles, unless the file starts with a
mark. -/
theorem file_source {op : Operation σ} {path : String} {content : ByteArray} (earned : Earned c)
    (control : c.control = .perform op) (reads : op.ReadsFile s path)
    (accepted : c.world.stateViolation? s = none) (read : c.world.directory.read? path = some (.ok content)) :
    ∃ (source : ByteArray) (d : Config σ) (o : Outcome), Leads c d ∧ d.control = .outcome o ∧
      World.Compiled (c.world.addChunk ⟨source, "@" ++ path⟩).1 s.session ⟨source, "@" ++ path⟩ (d.world, o) ∧
      source.data.toList = Chunk.withoutHashLine content.data.toList ∧
      (∃ dropped, content.data.toList = dropped ++ source.data.toList ∧
        ∀ i, Chunk.lineNumber content.data.toList (dropped.length + i) =
          Chunk.lineNumber source.data.toList i) ∧
      (source = Guest.Library.withoutFirstLine content ↔ ¬ Chunk.mark <+: content.data.toList) := by
  let source := Chunk.withoutFirstLine content
  let chunk : Chunk := ⟨source, "@" ++ path⟩
  have left : source.data.toList = Chunk.withoutHashLine content.data.toList :=
    Chunk.withoutFirstLine_toList content
  have leads : ∃ d, Leads c d ∧ d.control = .perform (.loadFile s path) ∧ d.world = c.world := by
    cases reads with
    | loadFile => exact ⟨c, .refl c, control, rfl⟩
    | runFile =>
        have next : c.step = ⟨c.world, .perform (.loadFile s path), .compiled s :: c.stack⟩ := by
          simp only [step, control, perform]
        exact ⟨_, ⟨1, next⟩, rfl, rfl⟩
  obtain ⟨d, leads, control, same⟩ := leads
  have next : d.step = d.loading s chunk := loadFile_step control (same ▸ accepted) (same ▸ read)
  refine ⟨source, d.loading s chunk, _, leads.trans ⟨1, next⟩, rfl, ?_, left, ?_, ?_⟩
  · rw [loading, same]
    exact earned.loading accepted chunk
  · obtain ⟨dropped, split, within⟩ := Chunk.withoutHashLine_suffix content.data.toList
    rw [← left] at split
    refine ⟨dropped, split, fun i => ?_⟩
    rw [split]
    exact Chunk.lineNumber_append within _ i
  · rw [← Chunk.withoutHashLine_eq_iff, ← left, ← Chunk.guest_withoutFirstLine_toList, Array.toList_inj]
    exact ⟨congrArg _, ByteArray.ext⟩

/-- A file whose first line is for a shell is about to be run. -/
def shebang : Config Unit :=
  step^[4] (start { directory := ⟨fun _ => some (.ok (Text.encode "#!lua\nreturn 1"))⟩, memory := () }
    (Client.opening fun s => [.runFile s "a.lua"]))

theorem shebang_source : ∃ (source : ByteArray) (d : Config Unit) (o : Outcome),
    Leads shebang d ∧ d.control = .outcome o ∧
      World.Compiled (shebang.world.addChunk ⟨source, "@a.lua"⟩).1 0 ⟨source, "@a.lua"⟩ (d.world, o) ∧
      source = Text.encode "\nreturn 1" ∧
      source = Guest.Library.withoutFirstLine (Text.encode "#!lua\nreturn 1") := by
  have earned : Earned shebang := ⟨_, _, _, honestRun_steps (by decide)⟩
  obtain ⟨source, d, o, leads, ended, compiled, left, -, guest⟩ :=
    @file_source Unit shebang ⟨0, 0⟩ _ "a.lua" (Text.encode "#!lua\nreturn 1") earned rfl .runFile rfl rfl
  have text : source = Text.encode "\nreturn 1" := ByteArray.ext (Array.toList_inj.mp (left.trans (by decide)))
  exact ⟨source, d, o, leads, ended, compiled, text, guest.mpr (by decide)⟩

/-- Source text is handed to a guest, which accepts it to compile it. -/
def Submits (c : Config σ) (chunk : Chunk) : Prop :=
  ∃ d s, Leads c d ∧ d.world.stateViolation? s = none ∧ d.step = d.loading s chunk

end Config

/-! ### Standard input -/

namespace Text

/-- A text that is read of bytes starts with `#` if they do. -/
theorem head?_encode_ofBytes {bytes : ByteArray} (first : bytes.data.toList.head? = some Chunk.hash) :
    (encode (ofBytes bytes)).data.toList.head? = some Chunk.hash := by
  have text : ∃ cs, ofBytes bytes = String.ofList ('#' :: cs) := by
    rw [← toList_eq_data] at first
    rw [ofBytes]
    cases split : bytes.toList with
    | nil =>
        rw [split] at first
        cases first
    | cons b rest =>
        rw [split] at first
        obtain rfl : b = Chunk.hash := Option.some.inj first
        have goesOn : Replacement.read (Chunk.hash :: rest) none [] = Replacement.read rest none ['#'] := by
          rw [Replacement.read.eq_def]
          simp only
          rw [Replacement.read.start, if_pos (by decide)]
          rfl
        exact ⟨_, congrArg String.ofList (goesOn.trans (Replacement.read_done rest none ['#']))⟩
  obtain ⟨cs, text⟩ := text
  have bytes : (encode (String.ofList ('#' :: cs))).toList =
      String.utf8EncodeChar '#' ++ cs.flatMap String.utf8EncodeChar := by
    rw [encode_toList, String.toList_ofList, List.flatMap_cons]
  rw [text, ← toList_eq_data, bytes]
  rfl

end Text

namespace CommandLine

section Sources
variable (configuration : Configuration) (arguments : List String) (directory : Directory)

/-- A script in a file and the same bytes on standard input are the same source text exactly if the bytes are those
of a text, and no line is left out of the file. -/
theorem script_sources {path : String} {content : ByteArray} (few : arguments.length < 2 ^ 31)
    (read : directory.read? path = some (.ok content)) :
    ∃ typed filed : ByteArray,
      (start configuration (.input (Text.ofBytes content)) arguments directory).Submits
        ⟨typed, "=" ++ inputName⟩ ∧
      (start configuration (.file path) arguments directory).Submits ⟨filed, "@" ++ path⟩ ∧
      typed = Text.encode (Text.ofBytes content) ∧
      filed.data.toList = Chunk.withoutHashLine content.data.toList ∧
      (typed = filed ↔ content.IsValidUTF8 ∧ content.data.toList.head? ≠ some Chunk.hash) := by
  have filed := Chunk.withoutFirstLine_toList content
  refine ⟨Text.encode (Text.ofBytes content), Chunk.withoutFirstLine content, ?_, ?_, rfl, filed, ?_⟩
  · obtain ⟨w, s, leads, -, accepted, -⟩ :=
      script_starts configuration (.input (Text.ofBytes content)) arguments directory few
    let d : Config Console := ⟨w, .perform (.load s (Text.ofBytes content) (some inputName)),
      [.compiled s, .perform (concluding s)]⟩
    have next : d.step = d.loading s (.ofText (Text.ofBytes content) (some inputName)) :=
      Config.load_step rfl accepted
    exact ⟨d, s, leads.trans ⟨1, rfl⟩, accepted, next⟩
  · obtain ⟨w, s, leads, -, accepted, -⟩ := script_starts configuration (.file path) arguments directory few
    have reads : w.directory = directory := by
      obtain ⟨n, leads⟩ := leads
      have grows := Config.steps_grow (c := start configuration (.file path) arguments directory) n
      rw [leads] at grows
      exact grows.directory
    exact ⟨_, s, leads.trans ⟨1, rfl⟩, accepted, Config.loadFile_step rfl accepted (reads ▸ read)⟩
  · constructor
    · intro same
      have unhashed : content.data.toList.head? ≠ some Chunk.hash := by
        intro hashed
        have first := Text.head?_encode_ofBytes hashed
        rw [same, filed, Chunk.withoutHashLine, if_pos hashed] at first
        have other := List.head?_dropWhile_not (· != Chunk.newline) content.data.toList
        rw [first] at other
        exact nomatch other
      rw [← Text.encode_ofBytes_iff, same]
      exact ⟨ByteArray.ext (Array.toList_inj.mp (filed.trans ((Chunk.withoutHashLine_eq_self _).mpr unhashed))),
        unhashed⟩
    · rintro ⟨valid, unhashed⟩
      refine ((Text.encode_ofBytes_iff content).mpr valid).trans (ByteArray.ext (Array.toList_inj.mp ?_))
      exact (filed.trans ((Chunk.withoutHashLine_eq_self _).mpr unhashed)).symm

/-- A line for a shell is left out of a file, and is compiled with the rest of what is typed. -/
theorem script_sources_shebang : ∃ typed filed : ByteArray,
    (start {} (.input (Text.ofBytes (Text.encode "#!lua\nreturn 1"))) ["a"]
      ⟨fun _ => some (.ok (Text.encode "#!lua\nreturn 1"))⟩).Submits ⟨typed, "=stdin"⟩ ∧
    (start {} (.file "a.lua") ["a"] ⟨fun _ => some (.ok (Text.encode "#!lua\nreturn 1"))⟩).Submits
      ⟨filed, "@a.lua"⟩ ∧
    filed = Text.encode "\nreturn 1" ∧ typed ≠ filed := by
  obtain ⟨typed, filed, fromInput, fromFile, -, left, same⟩ :=
    @script_sources {} ["a"] ⟨fun _ => some (.ok (Text.encode "#!lua\nreturn 1"))⟩ "a.lua"
      (Text.encode "#!lua\nreturn 1") (by decide) rfl
  have text : filed = Text.encode "\nreturn 1" := ByteArray.ext (Array.toList_inj.mp (left.trans (by decide)))
  exact ⟨typed, filed, fromInput, fromFile, text, fun alike => (same.mp alike).2 (by decide)⟩

end Sources

end CommandLine

end LuaHost
