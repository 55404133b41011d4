import LuaHost.Session.Config
import LuaHost.Session.Compile
/-!
Running host code to its end. Each operation first looks at the state it is given and at the values it
is handed; only then does it change anything. A session's machine runs in portions, between which
nothing else happens.
-/

namespace LuaHost

namespace World

variable {σ : Type} (w : World σ)

/-- Opens a new session. -/
def openSession (options : Options σ) : World σ × State :=
  let session := w.vms.size
  let vm : Vm σ :=
    { machine := .start options.libraries options.packagePath, callbacks := options.callbacks }
  ({ w with ledgers := w.ledgers.push {}, vms := w.vms.push vm }, ⟨session, 0⟩)

def close (session : Nat) : World σ := w.modifyLedger session (·.close)

/-- Makes host code a function of the guest. -/
def expose (session : Nat) (name : String) (body : State → List Datum → Client σ) : World σ × Datum :=
  let index := match w.vms[session]? with
    | some v => v.exposed.size
    | none => 0
  let w := { w with vms := w.vms.modify session fun v =>
    { v with exposed := v.exposed.push (name, body) } }
  w.receive session (.host index)

/-- The guest integers. -/
def isGuestInteger (x : Float) : Bool := (Guest.integerOfFloat? x).isSome

def integerRange : String := toString Guest.int32Min ++ ".." ++ toString Guest.int32Max

/-- The value for a primitive, or what is thrown because there is none. -/
def encodePrimitive : Primitive → Except Thrown Datum
  | .nil => .ok .nil
  | .bool b => .ok (.bool b)
  | .float x => .ok (.float x)
  | .string s => .ok (.string s)
  | .int x =>
    match Guest.integerOfFloat? x with
    | some n => .ok (.int n.toInt)
    | none =>
      .error (.exception (.ofMessage .rangeError ("Cannot encode " ++ Decimal.hostText x
        ++ " as an integer: expected a whole number in " ++ integerRange)))

/-- Does a value have a metamethod for calls? -/
def hasCallMetamethod (session : Nat) (d : Datum) : Bool :=
  match w.give? session d with
  | some v => !((w.machine session).store.metafield v Guest.Event.call).isNil
  | none => false

/-- The cause of a failure to read a file. -/
def readException (path : String) (e : ReadError) : Thrown :=
  .exception ⟨.error, e.message path, some e.code, 0⟩

end World

namespace Config

variable {σ : Type} (c : Config σ)

/-! ### Operations -/

/-- Waits until the outcome of reading a file is known. -/
@[inline] def readingFile (path : String) (k : ReadOutcome → Config σ → Config σ) : Config σ :=
  match c.world.directory.read? path with
  | none => { c with control := .lacking path c.control }
  | some outcome => k outcome c

def encoding (s : State) (p : Primitive) : Config σ :=
  match World.encodePrimitive p with
  | .error t => { c with control := .outcome (.threw t) }
  | .ok d => c.requiring s fun c => c.ending (c.world.succeed s.session (.item (.value d)))

def exposing (s : State) (name : String) (body : State → List Datum → Client σ) : Config σ :=
  c.requiring s fun c =>
    let (world, d) := c.world.expose s.session name body
    c.ending (world.succeed s.session (.item (.value d)))

def lookingUp (s : State) (keys : List String) (asReference : Bool) : Config σ :=
  c.requiring s fun c =>
    if keys.isEmpty then c.ending (c.world.fail s.session .invalidPath)
    else c.enteringProgram s (.lookup keys asReference) (Path.lookup keys)

/-- Asks for what a slot holds by then. -/
def slotContent (slot : Nat) : Guest.Act Guest.Value := fun k => .slot slot k

/-- The value that a path is assigned, looked at when the walk has come to its end. -/
def assignedValue (item : Item) : Guest.Act Guest.Value :=
  match item.datum with
  | .nil => pure .nil
  | .bool b => pure (.bool b)
  | .int n => if Guest.fitsInt32 n then pure (.int (Int32.ofInt n)) else fun _ => .breakDown
  | .float x => pure (.float x)
  | .string s => pure (Guest.ofText s)
  | .composite _ h => slotContent (c.world.slotOf h)

def assigning (s : State) (keys : List String) (item : Item) : Config σ :=
  c.requiring s fun c =>
    if keys.isEmpty then c.ending (c.world.fail s.session .invalidPath)
    else
      c.claiming s.session [item] fun c =>
        c.enteringProgram s (.assign keys) (Path.assign keys (c.assignedValue item))

def loading (s : State) (chunk : Chunk) : Config σ :=
  let (world, id) := c.world.addChunk chunk
  c.ending (world.load s.session id)

def loadingFile (s : State) (path : String) : Config σ :=
  c.requiring s fun c => c.readingFile path fun outcome c =>
    match outcome with
    | .ok content => c.loading s (.ofFile path content)
    | .error e =>
      c.ending (c.world.fail s.session (.io path (e.message path) (World.readException path e)))

def runningChunk (s : State) (chunk : Nat) : Config σ :=
  c.requiring s fun c =>
    match c.world.compile s.session chunk with
    | (world, .error o) => c.ending (world, o)
    | (world, .ok slot) =>
      let c := { c with world }.openingGate s
      c.applying s ((c.world.machine s.session).slots.content slot) []

/-- Performs an operation up to where it waits for something, or to its end. -/
def perform : Operation σ → Config σ
  | .init options =>
    let (world, s) := c.world.openSession options
    c.ending (world, .ok (some s) .nothing)
  | .close s => c.ending (c.world.close s.session, .ok none .nothing)
  | .encode s p => c.encoding s p
  | .encodeTable s entries => c.requiring s fun c => c.nextEntry ⟨s, [], entries⟩ s
  | .expose s name body => c.exposing s (name.getD "anonymous") body
  | .get s keys => c.lookingUp s keys false
  | .refGet s keys => c.lookingUp s keys true
  | .set s keys item => c.assigning s keys item
  | .load s source name => c.requiring s fun c => c.loading s (.ofText source name)
  | .loadFile s path => c.loadingFile s path
  | .run s source name =>
    { c with control := .perform (.load s source name), stack := .compiled s :: c.stack }
  | .runFile s path =>
    { c with control := .perform (.loadFile s path), stack := .compiled s :: c.stack }
  | .runChunk s chunk => c.runningChunk s chunk
  | .releaseChunk s chunk => c.ending (c.world.releaseChunk s.session chunk, .ok none .nothing)
  | .call s ref arguments =>
    c.requiring s fun c =>
      c.claiming s.session (.reference ref :: arguments) fun c =>
        c.calling s (.reference ref) arguments
  | .callByName s keys arguments =>
    { c with control := .perform (.refGet s keys), stack := .resolved s keys arguments :: c.stack }
  | .decode value decoder => c.ending (c.world.decode value decoder)
  | .release item => c.ending (c.world.release item, .ok none .nothing)

/-! ### Outcomes -/

/-- Goes on with source text that has been compiled to be run. -/
def ranCompiled (origin : State) : Outcome → Config σ
  | .ok (some s) (.chunk chunk _) =>
    { c with control := .perform (.runChunk s chunk), stack := .ran origin s chunk :: c.stack }
  | o => { c with control := .outcome o }

/-- Ends the run of source text that nobody else runs: its compiled form is given back, and a failure makes
the caller's state the head again. -/
def ran (origin s : State) (chunk : Nat) (o : Outcome) : Config σ :=
  let world := c.world.releaseChunk s.session chunk
  match o with
  | .err _ => c.ending (world.restore origin, o)
  | _ => c.ending (world, o)

/-- Calls the target of a call by name, if it can be called. -/
def resolved (s : State) (keys : List String) (arguments : List Item) : Outcome → Config σ
  | .ok _ (.reference ref) =>
    let d := ref.target
    let callable := match d with
      | .composite .function _ => true
      | d => c.world.hasCallMetamethod s.session d
    if callable then
      { c with control := .perform (.call s ref arguments), stack := .called ref :: c.stack }
    else
      let (world, o) := c.world.fail s.session (.undefinedPath keys (some d.guestType))
      c.ending (world.release (.reference ref), o)
  | o => { c with control := .outcome o }

/-- Hands an outcome to what waits for it. -/
def outcomeStep (o : Outcome) : Config σ :=
  match c.stack with
  | .perform k :: stack => { c with control := .client (k o), stack }
  | .compiled origin :: stack => { c with stack }.ranCompiled origin o
  | .ran origin s chunk :: stack => { c with stack }.ran origin s chunk o
  | .resolved s keys arguments :: stack => { c with stack }.resolved s keys arguments o
  | .called ref :: stack => { c with stack }.ending (c.world.release (.reference ref), o)
  | _ => { c with control := .finished (.error (.value .undefined)) }

/-! ### Guest machines -/

/-- Steps that a machine makes at a time. -/
def portion : Nat := 10000

/-- The guest has printed a line. -/
def logging (session : Nat) (line : String) : Config σ :=
  match c.world.notify (c.world.callback session fun callbacks => some callbacks.onLog) line with
  | (world, none) => { c with world := world.modifyMachine session (·.answerLog) }
  | (world, some t) => c.raising session t world

/-- The guest reads a file. -/
def readingForGuest (session : Nat) (path : String) : Config σ :=
  c.readingFile path fun outcome c =>
    let content := match outcome with
      | .ok content => .ok content
      | .error e => .error (e.message path)
    { c with world := c.world.modifyMachine session (·.answerFile content) }

/-- The guest has come to the end of a call. -/
def guestEnded (signal : Guest.Signal) : Config σ :=
  match c.stack with
  | .guest entry purpose :: stack => c.leaving entry purpose stack signal
  | _ => { c with control := .finished (.error (.value .undefined)) }

/-- Goes on with a machine after it has run for a while. -/
def guestStep (session : Nat) : Config σ :=
  let c := { c with world := c.world.modifyMachine session (·.run portion) }
  match (c.world.machine session).signal with
  | none => c
  | some (.hostCall index values) => c.invoking session index values
  | some (.log line) => c.logging session line
  | some (.readFile path) => c.readingForGuest session (Text.decode path)
  | some signal => c.guestEnded signal

/-- One step of host code. -/
def step : Config σ :=
  match c.control with
  | .client client => c.clientStep client
  | .perform op => c.perform op
  | .outcome o => c.outcomeStep o
  | .guest session => c.guestStep session
  | .lacking path next =>
    match c.world.directory.read? path with
    | none => c
    | some _ => { c with control := next }
  | .finished _ => c

/-- The file whose content has to be known before anything goes on. -/
def lacking? : Option String :=
  match c.control with
  | .lacking path _ => if (c.world.directory.read? path).isNone then some path else none
  | _ => none

def result? : Option (Except Thrown (State × List Item)) :=
  match c.control with
  | .finished result => some result
  | _ => none

/-- Is there nothing to do? -/
def isHalted : Bool := c.result?.isSome || c.lacking?.isSome

/-- Runs for at most so many steps. -/
def run : Nat → Config σ → Config σ
  | 0, c => c
  | n + 1, c => if c.isHalted then c else run n c.step

end Config

end LuaHost
