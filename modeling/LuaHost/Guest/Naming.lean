import LuaHost.Guest.Code
import LuaHost.Guest.Arithmetic
/-!
Names for values and functions, found by looking at the code around them: what a register holds is
told by the instruction that set it last, and what a function is called by the instruction that
called it.
-/

namespace LuaHost.Guest.Naming

/-- A kind of name, such as `local` or `field`, and the name. -/
abbrev Named := String × Bytes

/-- Instructions that set the register in their first operand and nothing else. -/
def setsFirst : Opcode → Bool
  | .setTabUp => false
  | .setUpval => false
  | .setTable => false
  | .jmp => false
  | .eq => false
  | .lt => false
  | .le => false
  | .test => false
  | .ret => false
  | .tforCall => false
  | .setList => false
  | _ => true

/-- Does an instruction set a register? -/
def sets (i : Instruction) (register : Nat) : Bool :=
  match i.op with
  | .loadNil => i.a ≤ register && register ≤ i.a + i.b
  | .tforCall => i.a + 2 ≤ register
  | .call => i.a ≤ register
  | .tailCall => i.a ≤ register
  | op => setsFirst op && register == i.a

/-- The search for the instruction that set a register: that instruction, if it was not conditional,
and the place up to which code may have been jumped over. -/
structure Search where
  found : Option Nat := none
  target : Nat := 0

def scan (register stop : Nat) (s : Search) (pc : Nat) (i : Instruction) : Search :=
  let s :=
    if i.op == .jmp then
      let target : Int := pc + 1 + i.bx
      if (pc : Int) < target && target ≤ stop && (s.target : Int) < target then
        { s with target := target.toNat }
      else s
    else s
  if sets i register then { s with found := if pc < s.target then none else some pc } else s

/-- The last instruction before `stop` that certainly set a register. -/
def setter? (p : Prototype) (register stop : Nat) : Option Nat :=
  let indexed := (p.code.extract 0 stop).toList.zipIdx
  (indexed.foldl (fun s (i, pc) => scan register stop s pc i) ({} : Search)).found

def upvalueName (p : Prototype) (i : Nat) : Bytes :=
  ((p.upvalues[i]?).map (·.name)).getD (Text.encode "?")

def environment : Bytes := Text.encode "_ENV"

def unknown : Bytes := Text.encode "?"

def constantName? (p : Prototype) (index : Nat) : Option Bytes :=
  match p.constants[index]? with
  | some (.string s) => some s
  | _ => none

/-- The name of what a register holds before the instruction at `stop`. -/
def register? (p : Prototype) : Nat → Nat → Nat → Option Named
  | 0, _, _ => none
  | fuel + 1, register, stop =>
    match p.localName? (register + 1) stop with
    | some name => some ("local", name)
    | none =>
      match setter? p register stop with
      | none => none
      | some pc =>
        let i := (p.code[pc]?).getD default
        let keyName (operand : Nat) : Bytes :=
          if isConstant operand then (constantName? p (operand - constantBase)).getD unknown
          else
            match register? p fuel operand pc with
            | some ("constant", name) => name
            | _ => unknown
        let fieldOf (table : Option Bytes) : Option Named :=
          some (if table == some environment then "global" else "field", keyName i.c)
        match i.op with
        | .move => if i.b < i.a then register? p fuel i.b pc else none
        | .getTabUp => fieldOf (some (upvalueName p i.b))
        | .getTable => fieldOf (p.localName? (i.b + 1) pc)
        | .getUpval => some ("upvalue", upvalueName p i.b)
        | .loadK => (constantName? p i.bx.toNat).map fun name => ("constant", name)
        | .self => some ("method", keyName i.c)
        | _ => none

/-- The name of what a register holds when the instruction at `pc` runs. -/
def ofRegister? (p : Prototype) (register pc : Nat) : Option Named :=
  register? p (pc + 1) register pc

/-- What the function called by the instruction at `pc` is called there. -/
def ofCall? (p : Prototype) (pc : Nat) : Option Named :=
  let i := (p.code[pc]?).getD default
  let event (op : ArithmeticOp) : Option Named := some ("metamethod", Text.encode op.event)
  let metamethod (name : String) : Option Named := some ("metamethod", Text.encode name)
  match i.op with
  | .call => ofRegister? p i.a pc
  | .tailCall => ofRegister? p i.a pc
  | .tforCall => some ("for iterator", Text.encode "for iterator")
  | .self => metamethod "__index"
  | .getTabUp => metamethod "__index"
  | .getTable => metamethod "__index"
  | .setTabUp => metamethod "__newindex"
  | .setTable => metamethod "__newindex"
  | .add => event .add
  | .sub => event .sub
  | .mul => event .mul
  | .mod => event .mod
  | .pow => event .pow
  | .div => event .div
  | .idiv => event .idiv
  | .band => event .band
  | .bor => event .bor
  | .bxor => event .bxor
  | .shl => event .shl
  | .shr => event .shr
  | .unm => event .unm
  | .bnot => event .bnot
  | .len => metamethod "__len"
  | .concat => metamethod "__concat"
  | .eq => metamethod "__eq"
  | .lt => metamethod "__lt"
  | .le => metamethod "__le"
  | _ => none

/-- The note behind a message that names the variable to blame. -/
def note (n : Option Named) : Bytes :=
  match n with
  | some (kind, name) =>
    Text.encode (" (" ++ kind ++ " '") ++ name ++ Text.encode "')"
  | none => ByteArray.empty

end LuaHost.Guest.Naming
