import LuaHost.Guest.Library.Arguments
import LuaHost.Guest.ChunkName
/-!
The basic functions: errors and protected calls, metatables, traversal, conversion, and loading of
source text.
-/

namespace LuaHost.Guest.Library

variable (args : Arguments)

/-- Raises the first argument; a text gets the position of the function at a level in front. -/
def errorAt (message : Value) (level : Int32) : Act (List Value) := do
  match message with
  | .string s =>
    if level > 0 then
      let place ← Act.position level.toNatClampNeg
      Act.raise (.string (place ++ s))
    else Act.raise message
  | v => Act.raise v

def error : Act (List Value) := do
  let level ← args.optInt 2 1
  errorAt (args.get 1) level

def assert : Act (List Value) := do
  if (args.get 1).truthy then return args.toList
  else
    let _ ← args.any 1
    errorAt ((args.get? 2).getD (ofText "assertion failed!")) 1

/-- What the collector can be asked for; without a word it is the third. -/
def collectorOptions : List String :=
  ["stop", "restart", "collect", "count", "step", "setpause", "setstepmul", "isrunning"]

/-- Garbage is not collected on demand; what is asked for is looked at all the same. -/
def collectgarbage : Act (List Value) := do
  let option := Text.decode (← args.optString 1 (Text.encode "collect"))
  Act.require (collectorOptions.contains option) 1 ("invalid option '" ++ option ++ "'")
  let _ ← args.optInt 2 0
  Act.fail "lua_gc not implemented"

def getmetatable : Act (List Value) := do
  let v ← args.any 1
  match ← Act.query fun s => s.metatable? v with
  | none => return [.nil]
  | some m =>
    let guard ← Act.query fun s => (s.table m).get Event.metatable
    return [if guard.isNil then .table m else guard]

/-- A metatable given as an argument. -/
def metatableArgument : Act (Option Nat) :=
  match args.get? 2 with
  | some .nil => pure none
  | some (.table m) => pure (some m)
  | _ => Act.badArgument 2 "nil or table expected"

def setmetatable : Act (List Value) := do
  let t ← args.table 1
  let m ← metatableArgument args
  let guard ← Act.metafield (.table t) Event.metatable
  if !guard.isNil then Act.fail "cannot change a protected metatable"
  else
    Act.update fun s => s.setMetatable (.table t) m
    return [.table t]

def next : Act (List Value) := do
  let t ← args.table 1
  let key := args.get 2
  match ← Act.query fun s => (s.table t).next key with
  | .entry k v => return [k, v]
  | .finished => return [.nil]
  | .unknownKey => Act.raise (ofText "invalid key to 'next'")

def pairs : Act (List Value) := do
  let v ← args.any 1
  let handler ← Act.metafield v Event.pairs
  if handler.isNil then return [.builtin .next, v, .nil]
  else
    let results ← Act.call handler [v]
    return (results ++ [Value.nil, .nil, .nil]).take 3

def ipairs : Act (List Value) := do
  let v ← args.any 1
  return [.builtin .ipairsStep, v, .int 0]

def ipairsStep : Act (List Value) := do
  let i := (← args.int 2) + 1
  let v ← Act.index (args.get 1) (.int i)
  return if v.isNil then [.nil] else [.int i, v]

def pcall : Act (List Value) := do
  let f ← args.any 1
  fun k => .protect f (args.toList.drop 1) none fun ok values => k (.bool ok :: values)

def xpcall : Act (List Value) := do
  let handler ← args.function 2
  fun k => .protect (args.get 1) (args.toList.drop 2) (some handler) fun ok values =>
    k (.bool ok :: values)

/-- Hands the texts of the arguments to the host as one line. -/
def print : Act (List Value) := do
  let texts ← args.toList.mapM Act.tostring
  fun k => .log ("\t".intercalate (texts.map Text.decode)) fun _ => k []

def rawequal : Act (List Value) := do
  let a ← args.any 1
  let b ← args.any 2
  return [.bool (a.rawEquals b)]

def rawget : Act (List Value) := do
  let t ← args.table 1
  let key ← args.any 2
  return [← Act.query fun s => (s.table t).get key]

def rawset : Act (List Value) := do
  let t ← args.table 1
  let key ← args.any 2
  let value ← args.any 3
  match Store.keyProblem? key with
  | some problem => Act.raise (ofText problem)
  | none =>
    Act.update fun s => s.modifyTable t fun t => t.set key value
    return [.table t]

def rawlen : Act (List Value) := do
  match args.get 1 with
  | .table t => return [← Act.query fun s => .int (Int32.ofNat (s.table t).length)]
  | .string s => return [.int (Int32.ofNat s.size)]
  | _ => Act.badArgument 1 "table or string expected"

def select : Act (List Value) := do
  let count := args.size
  match args.get 1 with
  | .string s =>
    if byteAt? s 0 == some 35 then return [.int (Int32.ofNat (count - 1))] else selectFrom count
  | _ => selectFrom count
where
  selectFrom (count : Nat) : Act (List Value) := do
    let i := (← args.int 1).toInt
    let first : Int := if i < 0 then count + i else min i count
    if first < 1 then Act.badArgument 1 "index out of range"
    else return args.toList.drop first.toNat

/-- A numeral in a base: a sign, and digits up to the first one that is none in that base. Anything but
letters and digits makes it no numeral. -/
def inBase? (text : Bytes) (base : Nat) : Option Int32 :=
  let (negative, body) := Decimal.splitSign (Numeral.trim (Numeral.chars text))
  let isLetter (c : Char) := ('a' ≤ c && c ≤ 'z') || ('A' ≤ c && c ≤ 'Z')
  let value? (c : Char) : Option Nat :=
    if Decimal.isDigit c then some (c.toNat - '0'.toNat)
    else if 'a' ≤ c && c ≤ 'z' then some (c.toNat - 'a'.toNat + 10)
    else if 'A' ≤ c && c ≤ 'Z' then some (c.toNat - 'A'.toNat + 10)
    else none
  if body.isEmpty || !body.all fun c => isLetter c || Decimal.isDigit c then none
  else
    let digits := body.takeWhile fun c => (value? c).any (· < base)
    if digits.isEmpty then none
    else
      let n : Int := digits.foldl (fun n c => n * base + (value? c).getD 0) 0
      some (Int32.ofInt (if negative then -n else n))

def tonumber : Act (List Value) := do
  if args.isNoneOrNil 2 then
    let v ← args.any 1
    match v with
    | .int _ => return [v]
    | .float _ => return [v]
    | .string s => return [(Numeral.ofBytes? s).getD .nil]
    | _ => return [.nil]
  else
    let base ← args.int 2
    match args.get 1 with
    | .string s =>
      Act.require (2 ≤ base && base ≤ 36) 2 "base out of range"
      return [((inBase? s base.toNatClampNeg).map Value.int).getD .nil]
    | _ => args.wrongType 1 "string"

def tostring : Act (List Value) := do
  let v ← args.any 1
  return [.string (← Act.tostring v)]

def type : Act (List Value) := do
  let v ← args.any 1
  return [ofText v.typeName]

/-! ### Loading -/

/-- What precompiled code starts with. -/
def binaryMark : UInt8 := 27

/-- The bytes that precompiled code has to start with, and the complaint for each part. -/
def binaryHeader : List (List UInt8 × String) := [
  ([76, 117, 97], "not a"), ([0x53], "version mismatch in"), ([0], "format mismatch in"),
  ([0x19, 0x93, 13, 10, 0x1a, 10], "corrupted")]

def binaryProblem : List UInt8 → List (List UInt8 × String) → String
  | _, [] => "truncated"
  | bytes, (expected, complaint) :: rest =>
    if bytes.length < expected.length then "truncated"
    else if bytes.take expected.length == expected then binaryProblem (bytes.drop expected.length) rest
    else complaint

/-- The message about precompiled code, which is never complete. -/
def binaryFailure (source chunk : Bytes) : Bytes :=
  let name := match byteAt? chunk 0 with
    | some 64 => chunk.extract 1 chunk.size
    | some 61 => chunk.extract 1 chunk.size
    | some 27 => Text.encode "binary string"
    | _ => chunk
  ChunkName.untilZero name ++
    Text.encode (": " ++ binaryProblem (source.toList.drop 1) binaryHeader ++ " precompiled chunk")

/-- Compiles source text into a function, or says why that fails. -/
def compile (source chunk : Bytes) (mode : Bytes) (environment : Option Value) :
    Act (Except Bytes Value) := do
  let isBinary := byteAt? source 0 == some binaryMark
  let (kind, mark) : String × UInt8 := if isBinary then ("binary", 98) else ("text", 116)
  if !mode.toList.contains mark then
    return .error (Text.encode ("attempt to load a " ++ kind ++ " chunk (mode is '") ++ mode
      ++ Text.encode "')")
  else if isBinary then return .error (binaryFailure source chunk)
  else
    let result ← (fun k => .compile source chunk k : Act (Except Bytes Prototype))
    match result with
    | .error message => return .error message
    | .ok p =>
      let f : Act Value := fun k =>
        .query fun s =>
          let id := s.closures.size
          let globals := environment.getD (.table s.globals)
          .update (fun s => (s.loadPrototype p globals).1) fun _ => k (.closure id)
      return .ok (← f)

def loaded (result : Except Bytes Value) : List Value :=
  match result with
  | .ok f => [f]
  | .error message => [.nil, .string message]

def anyMode : Bytes := Text.encode "bt"

/-- Joins the pieces that a function yields until there are no more. -/
def readPieces (f : Value) : Nat → Bytes → Act (Except Value Bytes)
  | 0, read => pure (.ok read)
  | fuel + 1, read => do
    let (ok, values) ← (fun k => .protect f [] none fun ok values => k (ok, values)
      : Act (Bool × List Value))
    let v := values.headD .nil
    if !ok then return .error v
    else
      match v with
      | .nil => return .ok read
      | .string s => if s.isEmpty then return .ok read else readPieces f fuel (read ++ s)
      | _ => return .error (ofText "reader function must return a string")

/-- More pieces than any source text has. -/
def maxPieces : Nat := 1000000

def load : Act (List Value) := do
  let mode ← args.optString 3 anyMode
  let environment := args.get? 4
  match Arguments.text? (args.get 1) with
  | some source =>
    let chunk ← args.optString 2 source
    return loaded (← compile source chunk mode environment)
  | none =>
    let chunk ← args.optString 2 (Text.encode "=(load)")
    let f ← args.function 1
    match ← readPieces f maxPieces ByteArray.empty with
    | .error v => return [.nil, v]
    | .ok source => return loaded (← compile source chunk mode environment)

/-- The source text in a file, without a first line that starts with `#`. -/
def withoutFirstLine (source : Bytes) : Bytes :=
  let source :=
    if source.extract 0 3 == ⟨#[0xef, 0xbb, 0xbf]⟩ then source.extract 3 source.size else source
  if byteAt? source 0 == some 35 then
    match source.toList.findIdx? (· == 10) with
    | some i => source.extract i source.size
    | none => ByteArray.empty
  else source

/-- Reads and compiles a file. -/
def compileFile (path mode : Bytes) (environment : Option Value) : Act (Except Bytes Value) := do
  let content ← (fun k => .readFile path k : Act (Except String Bytes))
  match content with
  | .error reason =>
    return .error (Text.encode "cannot open " ++ path ++ Text.encode (": " ++ reason))
  | .ok source => compile (withoutFirstLine source) (Text.encode "@" ++ path) mode environment

def loadfile : Act (List Value) := do
  let path ← args.string 1
  let mode ← args.optString 2 anyMode
  return loaded (← compileFile path mode (args.get? 3))

def dofile : Act (List Value) := do
  let path ← args.string 1
  match ← compileFile path anyMode none with
  | .error message => Act.raise (.string message)
  | .ok f => Act.call f []

/-- The text of an object that stands for a failure of the host. -/
def hostErrorToString : Act (List Value) := do
  match args.get 1 with
  | .table t => return [← Act.query fun s => (s.table t).getText "message"]
  | _ => return [.nil]

end LuaHost.Guest.Library
