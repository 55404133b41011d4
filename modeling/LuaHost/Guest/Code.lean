import LuaHost.Guest.Value
/-!
Compiled code: instructions of a register machine. An operand that may be a register or a constant
is a number; from `256` on it counts constants.
-/

namespace LuaHost.Guest

inductive Opcode where
  | move | loadK | loadBool | loadNil | getUpval | getTabUp | getTable | setTabUp | setUpval
  | setTable | newTable | self
  | add | sub | mul | mod | pow | div | idiv | band | bor | bxor | shl | shr | unm | bnot | not | len
  | concat | jmp | eq | lt | le | test | testSet | call | tailCall | ret | forLoop | forPrep
  | tforCall | tforLoop | setList | closure | vararg
  deriving DecidableEq, Repr, Inhabited

/-- `a`, `b` and `c` are operands; `bx` is a constant's or prototype's number or a jump's distance. -/
structure Instruction where
  op : Opcode
  a : Nat := 0
  b : Nat := 0
  c : Nat := 0
  bx : Int := 0
  deriving Repr, Inhabited

/-- The first operand that counts constants. -/
def constantBase : Nat := 256

def isConstant (operand : Nat) : Bool := constantBase ≤ operand

/-- Where a closure finds a captured variable: in a register of the enclosing function, or among
that function's own captured variables. -/
structure UpvalueSource where
  name : Bytes
  inStack : Bool
  index : Nat
  deriving Inhabited

/-- The range of instructions in which a local variable is alive. -/
structure LocalName where
  name : Bytes
  start : Nat
  stop : Nat
  deriving Inhabited

/-- A compiled function. -/
structure Prototype where
  /-- The number of the function among those of its chunk. -/
  number : Nat
  source : Bytes
  lineDefined : Nat
  lastLine : Nat
  parameters : Nat
  isVararg : Bool
  registers : Nat
  code : Array Instruction
  lines : Array Nat
  constants : Array Value
  prototypes : Array Prototype
  upvalues : Array UpvalueSource
  locals : Array LocalName
  deriving Inhabited

namespace Prototype

/-- The number of functions in a function, itself included. -/
def count (p : Prototype) : Nat :=
  (p.prototypes.attach.map fun ⟨q, _⟩ => q.count).foldl (· + ·) 1
termination_by sizeOf p
decreasing_by
  rename_i h
  have := Array.sizeOf_lt_of_mem h
  cases p
  simp_all
  omega

def lineAt (p : Prototype) (pc : Nat) : Nat := p.lines.getD pc 0

/-- The name of the `number`-th local variable alive at an instruction, counting from one. -/
def localName? (p : Prototype) (number pc : Nat) : Option Bytes :=
  let alive := p.locals.filter fun v => v.start ≤ pc && pc < v.stop
  (alive[number - 1]?).map (·.name)

end Prototype

end LuaHost.Guest
