import LuaHost.Failure.Basic
/-!
Texts of details, thrown things and failures. A failure's message is its registry template filled in
with the texts of its details; a detail without a text of its own is shown by its tag.
-/

namespace LuaHost

def Exception.text (e : Exception) : String :=
  if e.message.isEmpty then e.kind.name else e.kind.name ++ ": " ++ e.message

/-- Names that every record answers to although it has no such entry, and their texts. -/
def inheritedNames : List (String × String) :=
  let function (name : String) := "function " ++ name ++ "() \x7b [native code] \x7d"
  [("constructor", function "Object"), ("__proto__", "[object Object]")] ++
    (["__defineGetter__", "__defineSetter__", "hasOwnProperty", "__lookupGetter__",
      "__lookupSetter__", "isPrototypeOf", "propertyIsEnumerable", "toString", "valueOf",
      "toLocaleString"].map fun name => (name, function name))

/-- The text put for `name` when these are the texts of the entries. -/
def entryText (entries : List (String × String)) (name : String) : String :=
  match entries.find? (·.1 == name) with
  | some entry => entry.2
  | none => ((inheritedNames.find? (·.1 == name)).map (·.2)).getD ""

/-- The registry template of `id`, filled in. -/
def fill (id : String) (entries : List (String × String)) : String :=
  match Registry.find? id with
  | some d => Template.render d.template (entryText entries)
  | none => ""

/-- How a detail is shown when it has no text. -/
def Detail.tag : Detail → String
  | .list _ => "[object Array]"
  | _ => "[object Object]"

mutual

/-- The text of a detail, if it has one: an object without any behaviour has none. -/
def Detail.text? : Detail → Option String
  | .null => some "null"
  | .undefined => some "undefined"
  | .bool b => some (Datum.boolText b)
  | .number x => some (Decimal.hostText x)
  | .string s => some s
  | .list items => (Detail.itemTexts? items).map (",".intercalate ·)
  | .object => some "[object Object]"
  | .bare => none
  | .thrown x => x.text?

/-- In a list, nothing is written for an item that is null or undefined. -/
def Detail.itemTexts? : List Detail → Option (List String)
  | [] => some []
  | .null :: rest => (Detail.itemTexts? rest).map ("" :: ·)
  | .undefined :: rest => (Detail.itemTexts? rest).map ("" :: ·)
  | d :: rest =>
    match d.text?, Detail.itemTexts? rest with
    | some t, some ts => some (t :: ts)
    | _, _ => none

def Thrown.text? : Thrown → Option String
  | .failure _ fault =>
    let message := fault.message
    some (if message.isEmpty then fault.className else fault.className ++ ": " ++ message)
  | .exception e => some e.text
  | .value d => d.text?

/-- Entries without a value show as nothing. -/
def entryPair : String × Detail → String × String
  | (name, .undefined) => (name, "")
  | (name, d) => (name, d.text?.getD d.tag)

def contextTexts : List (String × Detail) → List (String × String)
  | [] => []
  | entry :: rest => entryPair entry :: contextTexts rest

/-- The message of a fault. -/
def Fault.message : Fault → String
  | .syntaxError message _ => fill "LUA-S001" [("message", message)]
  | .runtime code context .. => fill code.id (contextTexts context)
  | .undefinedPath keys none => fill "LUA-P001" [("path", pathText keys)]
  | .undefinedPath keys (some o) => fill "LUA-P004" [("path", pathText keys), ("observed", o)]
  | .invalidPath => fill "LUA-P002" []
  | .pathCollision keys prior o =>
    fill "LUA-P003" [("path", pathText keys), ("at", pathText prior), ("observed", o)]
  | .decode e o path =>
    fill "LUA-D001" [("expected", e), ("observed", o), ("where", positionText path)]
  | .io path reason _ => fill "LUA-I001" [("path", path), ("reason", reason)]
  | .lineage v context => fill v.id (contextTexts context)

end

/-- How a detail is put into a message. -/
def Detail.shown (d : Detail) : String := (entryPair ("", d)).2

/-- A template filled in with the details of a context. -/
def renderMessage (template : String) (context : Context) : String :=
  Template.render template (entryText (contextTexts context))

/-- The message of a thrown thing: an error's own, or else the text of the value. -/
def Thrown.message? : Thrown → Option String
  | .failure _ fault => some fault.message
  | .exception e => some e.message
  | .value d => d.text?

/-- The failure to read a file; there is none if its cause has no text. -/
def Fault.ofReadFailure? (path : String) (cause : Thrown) : Option Fault :=
  cause.message?.map fun reason => .io path reason cause

def Failure.message (f : Failure) : String := f.fault.message

end LuaHost
