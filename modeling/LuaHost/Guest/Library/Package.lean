import LuaHost.Guest.Library.Base
/-!
Libraries by name: those loaded already, those that a function in `preload` makes, and those whose
source text is found along a path of templates.
-/

namespace LuaHost.Guest.Library

variable (args : Arguments)

/-- Cuts a text at each place of a mark. -/
def splitAt (mark : UInt8) (bytes : Bytes) : List Bytes :=
  let (current, done) := bytes.toList.foldl (fun (current, done) b =>
    if b == mark then (ByteArray.empty, current :: done) else (current.push b, done))
    (ByteArray.empty, [])
  (current :: done).reverse

/-- Puts a text in the place of each occurrence of another one that is not empty. -/
def replaceAll (text old new : Bytes) : Nat → Nat → Bytes → Bytes
  | 0, _, done => done
  | fuel + 1, i, done =>
    if i < text.size then
      if text.extract i (i + old.size) == old then
        replaceAll text old new fuel (i + old.size) (done ++ new)
      else replaceAll text old new fuel (i + 1) (done ++ text.extract i (i + 1))
    else done

def substitute (text old new : Bytes) : Bytes :=
  if old.isEmpty then text else replaceAll text old new (text.size + 1) 0 ByteArray.empty

/-- What stands between templates, what stands for the name, and what separates directories. -/
def pathSeparator : UInt8 := 59
def nameMark : Bytes := Text.encode "?"
def directorySeparator : Bytes := Text.encode "/"

/-- The first file along a path that can be read, or the list of those that cannot. -/
def searchAlong (name : Bytes) : List Bytes → Bytes → Act (Except Bytes Bytes)
  | [], tried => pure (.error tried)
  | template :: rest, tried => do
    let file := substitute template nameMark name
    let content ← (fun k => .readFile file k : Act (Except String Bytes))
    match content with
    | .ok _ => return .ok file
    | .error _ =>
      searchAlong name rest
        (tried ++ Text.encode "\n\tno file '" ++ file ++ Text.encode "'")

def searchPath (name path separator directory : Bytes) : Act (Except Bytes Bytes) :=
  let name := substitute name separator directory
  searchAlong name ((splitAt pathSeparator path).filter fun t => !t.isEmpty) ByteArray.empty

def packageSearchpath : Act (List Value) := do
  let name ← args.string 1
  let path ← args.string 2
  let separator ← args.optString 3 (Text.encode ".")
  let directory ← args.optString 4 directorySeparator
  match ← searchPath name path separator directory with
  | .ok file => return [.string file]
  | .error tried => return [.nil, .string tried]

/-- A field of the table of the package library. -/
def packageField (name : String) : Act Value := do
  let package ← Act.query fun s => s.package
  Act.index (.table package) (ofText name)

def searchPackagePath (name : Bytes) (field : String) : Act (Except Bytes Bytes) := do
  match Arguments.text? (← packageField field) with
  | none => Act.fail ("'package." ++ field ++ "' must be a string")
  | some path => searchPath name path (Text.encode ".") directorySeparator

def packageSearchPreload : Act (List Value) := do
  let name ← args.string 1
  let f ← Act.query fun s => (s.table s.preload).get (.string name)
  if f.isNil then
    return [.string (Text.encode "\n\tno field package.preload['" ++ name ++ Text.encode "']")]
  else return [f]

def packageSearchSource : Act (List Value) := do
  let name ← args.string 1
  match ← searchPackagePath name "path" with
  | .error tried => return [.string tried]
  | .ok file =>
    match ← compileFile file anyMode none with
    | .ok f => return [f, .string file]
    | .error message =>
      Act.failBytes (Text.encode "error loading module '" ++ name ++ Text.encode "' from file '"
        ++ file ++ Text.encode "':\n\t" ++ message)

/-- Libraries that are not source text are looked for, but cannot be loaded. -/
def packageSearchNative : Act (List Value) := do
  let name ← args.string 1
  match ← searchPackagePath name "cpath" with
  | .error tried => return [.string tried]
  | .ok file =>
    Act.failBytes (Text.encode "error loading module '" ++ name ++ Text.encode "' from file '"
      ++ file ++ Text.encode "'")

/-- Asks the searchers one after the other for a function that loads a library. -/
def findLoader (name : Bytes) (searchers : Nat) : Nat → Int32 → Bytes → Act (Value × Value)
  | 0, _, tried => Act.failBytes (Text.encode "module '" ++ name ++ Text.encode "' not found:" ++ tried)
  | fuel + 1, i, tried => do
    let searcher ← Act.query fun s => (s.table searchers).getInt i
    if searcher.isNil then findLoader name searchers 0 i tried
    else
      let results ← Act.call searcher [.string name]
      let f := results.headD .nil
      if f.isFunction then return (f, (results.drop 1).headD .nil)
      else
        findLoader name searchers fuel (i + 1)
          (tried ++ (Arguments.text? f).getD ByteArray.empty)

/-- Searchers that are asked at most. -/
def maxSearchers : Nat := 1000000

def require : Act (List Value) := do
  let name ← args.string 1
  let key := Value.string name
  let known ← Act.query fun s => (s.table s.loaded).get key
  if known.truthy then return [known]
  else
    match ← packageField "searchers" with
    | .table searchers =>
      let (loader, extra) ← findLoader name searchers maxSearchers 1 ByteArray.empty
      let result := (← Act.call loader [key, extra]).headD .nil
      if !result.isNil then
        Act.update fun s => s.modifyTable s.loaded fun t => t.set key result
      let stored ← Act.query fun s => (s.table s.loaded).get key
      if stored.isNil then
        Act.update fun s => s.modifyTable s.loaded fun t => t.set key (.bool true)
        return [.bool true]
      else return [stored]
    | _ => Act.fail "'package.searchers' must be a table"

end LuaHost.Guest.Library
