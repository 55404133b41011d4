import LuaHost.Session.World
/-!
Decoding: a value is compared with the shape that is expected of it, and a table is read entry by
entry. Each object on the way gets a handle, also if the whole is refused in the end. Neither guest
code nor metatables have a say in it.
-/

namespace LuaHost

namespace Decoder

/-- What is expected, for messages. -/
def expected : Decoder → String
  | nil => "nil"
  | bool => "bool"
  | int => "int"
  | float => "float"
  | number => "number"
  | string => "string"
  | value => "value"
  | reference => "non-nil value"
  | optional d => "optional " ++ d.expected
  | list item => "list of " ++ item.expected
  | table key entry => "table of " ++ key.expected ++ " to " ++ entry.expected

/-- What a decoder makes of a value without looking into it. -/
def plain? (decoder : Decoder) (d : Datum) : Option Decoded :=
  match decoder with
  | nil => if d.isNil then some .null else none
  | bool =>
    match d with
    | .bool b => some (.bool b)
    | _ => none
  | int =>
    match d with
    | .int n => some (.int n)
    | _ => none
  | float =>
    match d with
    | .float x => some (.number x)
    | _ => none
  | number =>
    match d with
    | .int n => some (.number (Float.ofInt n))
    | .float x => some (.number x)
    | _ => none
  | string =>
    match d with
    | .string s => some (.string s)
    | _ => none
  | value => some (.value d)
  | reference => if d.isNil then none else some (.reference ⟨d⟩)
  | _ => none

end Decoder

/-- Why a decoder gives nothing: a value has another shape, or its table must not be read. -/
inductive Refusal where
  | mismatch (expected observed : String) (path : List String)
  | violation (fault : Fault)
  deriving Inhabited

namespace Refusal

/-- The same refusal, seen from one level further out. -/
def within (segment : String) : Refusal → Refusal
  | mismatch e o path => mismatch e o (segment :: path)
  | r => r

def ofShape (expected : String) (d : Datum) : Refusal := mismatch expected d.kind []

end Refusal

namespace World

variable {σ : Type}

abbrev DecodeResult (σ α : Type) := World σ × Except Refusal α

/-- Decodes the items of a sequence until one is refused. -/
def decodeItems (f : World σ → Datum → DecodeResult σ Decoded) (session : Nat) :
    World σ → List (Nat × Guest.Value) → List Decoded → DecodeResult σ (List Decoded)
  | w, [], done => (w, .ok done.reverse)
  | w, (i, v) :: rest, done =>
    let (w, d) := w.receive session v
    match f w d with
    | (w, .ok x) => decodeItems f session w rest (x :: done)
    | (w, .error r) => (w, .error (r.within ("[" ++ toString i ++ "]")))

/-- A key that is decoded as a number is read as it was given. -/
def asGiven (given : Guest.Value) (d : Decoded) : Decoded :=
  match d, given with
  | .number _, .float x => .number x
  | d, _ => d

/-- Decodes the entries of a table until a key or a value is refused. -/
def decodeEntries (f g : World σ → Datum → DecodeResult σ Decoded) (session : Nat) :
    World σ → List Guest.Entry → List (Decoded × Decoded) → DecodeResult σ (List (Decoded × Decoded))
  | w, [], done => (w, .ok done.reverse)
  | w, e :: rest, done =>
    let (w, key) := w.receive session e.key
    let (w, value) := w.receive session e.value
    let segment := "[" ++ key.describe ++ "]"
    match f w key with
    | (w, .error r) => (w, .error (r.within segment))
    | (w, .ok x) =>
      match g w value with
      | (w, .error r) => (w, .error (r.within segment))
      | (w, .ok y) => decodeEntries f g session w rest ((asGiven e.given x, y) :: done)

/-- The table behind a handle. -/
def tableOf (w : World σ) (h : Handle) : Guest.Table :=
  match w.give? h.session (.composite .table h) with
  | some (.table id) => (w.machine h.session).store.table id
  | _ => {}

/-- Why the table behind a handle must not be read. -/
def readViolation? (w : World σ) (h : Handle) : Option Fault :=
  let ledger := w.ledger h.session
  if ledger.closed then some (.lineage .closed [])
  else if ledger.isReleased h.index then
    some (.lineage .released [("kind", .string CompositeKind.table.name)])
  else none

/-- Looks at the table of a value, if it is one. -/
def withTable {α : Type} (w : World σ) (expected : String) (d : Datum)
    (k : Nat → Guest.Table → DecodeResult σ α) : DecodeResult σ α :=
  match d with
  | .composite .table h =>
    match w.readViolation? h with
    | some fault => (w, .error (.violation fault))
    | none => k h.session (w.tableOf h)
  | d => (w, .error (.ofShape expected d))

/-- The items one to length of a table. -/
def itemsOf (t : Guest.Table) : List (Nat × Guest.Value) :=
  (List.range' 1 t.length).map fun i => (i, t.getInt (Int32.ofNat i))

def decodePlain (w : World σ) (decoder : Decoder) (d : Datum) : DecodeResult σ Decoded :=
  match decoder.plain? d with
  | some x => (w, .ok x)
  | none => (w, .error (.ofShape decoder.expected d))

/-- Decodes a table as a sequence. -/
def decodeList (f : World σ → Datum → DecodeResult σ Decoded) (expected : String) (w : World σ)
    (d : Datum) : DecodeResult σ Decoded :=
  w.withTable expected d fun session t =>
    match decodeItems f session w (itemsOf t) [] with
    | (w, .ok xs) => (w, .ok (.list xs))
    | (w, .error r) => (w, .error r)

/-- Decodes a table as pairs of keys and values. -/
def decodePairs (f g : World σ → Datum → DecodeResult σ Decoded) (expected : String) (w : World σ)
    (d : Datum) : DecodeResult σ Decoded :=
  w.withTable expected d fun session t =>
    match decodeEntries f g session w t.entries [] with
    | (w, .ok xs) => (w, .ok (.pairs xs))
    | (w, .error r) => (w, .error r)

def decodeWith : Decoder → World σ → Datum → DecodeResult σ Decoded
  | .optional inner, w, d => if d.isNil then (w, .ok .absent) else decodeWith inner w d
  | .list item, w, d => decodeList (decodeWith item) (Decoder.list item).expected w d
  | .table key entry, w, d =>
    decodePairs (decodeWith key) (decodeWith entry) (Decoder.table key entry).expected w d
  | decoder, w, d => w.decodePlain decoder d

/-- Decodes a value. A value that does not conform is a failure that the host is not told about. -/
def decode (w : World σ) (d : Datum) (decoder : Decoder) : World σ × Outcome :=
  match decodeWith decoder w d with
  | (w, .ok x) => (w, .ok none (.decoded x))
  | (w, .error (.violation fault)) =>
    let (w, t) := w.throwFault fault
    (w, .threw t)
  | (w, .error (.mismatch expected observed path)) =>
    let (w, f) := w.newFailure (.decode expected observed path)
    (w, .err f)

end World

end LuaHost
