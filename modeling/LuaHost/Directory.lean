import LuaHost.Guest.Value
/-!
Files below a working directory, as far as they are known. A path is walked part by part; a part that
leads through a file, or to nothing, tells why the path cannot be read.
-/

namespace LuaHost

/-- Why a file cannot be read. -/
inductive ReadError where
  | missing
  | isDirectory
  | notDirectory
  deriving DecidableEq, Repr, Inhabited

namespace ReadError

def code : ReadError → String
  | missing => "ENOENT"
  | isDirectory => "EISDIR"
  | notDirectory => "ENOTDIR"

def message (path : String) : ReadError → String
  | missing => "ENOENT: no such file or directory, open '" ++ path ++ "'"
  | isDirectory => "EISDIR: illegal operation on a directory, read"
  | notDirectory => "ENOTDIR: not a directory, open '" ++ path ++ "'"

end ReadError

abbrev ReadOutcome := Except ReadError ByteArray

/-- Where files are read: the outcome of reading each path that has been looked at. -/
structure Directory where
  read? : String → Option ReadOutcome

instance : Inhabited Directory := ⟨⟨fun _ => some (.error .missing)⟩⟩

namespace Directory

/-- Nothing is known yet. -/
def unknown : Directory := ⟨fun _ => none⟩

/-- Learns the outcome of one more path. -/
def learn (d : Directory) (path : String) (outcome : ReadOutcome) : Directory :=
  ⟨fun p => if p == path then some outcome else d.read? p⟩

/-- A file with its content, or a directory. -/
inductive Node where
  | file (content : ByteArray)
  | folder
  deriving Inhabited

/-- What there is, by the parts of its path. -/
abbrev Tree := List (List String × Node)

def parts (path : String) : List String := path.splitOn "/"

/-- Adds something together with the directories it lies in. -/
def Tree.add (t : Tree) (path : String) (node : Node) : Tree :=
  let ps := (parts path).filter fun p => !p.isEmpty && p != "."
  let parents := (List.range ps.length).map fun n => (ps.take n, Node.folder)
  (ps, node) :: (parents ++ t)

def Tree.find? (t : Tree) (place : List String) : Option Node :=
  if place.isEmpty then some .folder else (List.find? (fun (e : List String × Node) => e.1 == place) t).map (·.2)

/-- Walks from a directory along the parts of a path. -/
def Tree.walk (t : Tree) : List String → List String → ReadOutcome
  | place, [] =>
    match t.find? place with
    | some (.file content) => .ok content
    | some .folder => .error .isDirectory
    | none => .error .missing
  | place, p :: rest =>
    match t.find? place with
    | none => .error .missing
    | some (.file _) => .error .notDirectory
    | some .folder =>
      if p.isEmpty || p == "." then t.walk place rest
      else if p == ".." then t.walk place.dropLast rest
      else t.walk (place ++ [p]) rest

def Tree.read (t : Tree) (path : String) : ReadOutcome :=
  if path.isEmpty then .error .missing else t.walk [] (parts path)

/-- All there is to know of a tree of files. -/
def ofTree (t : Tree) : Directory := ⟨fun path => some (t.read path)⟩

end Directory

/-- A path without `.` and without what `..` takes back. -/
def normalizedPath (path : String) : String :=
  let step (done : List String) (p : String) : List String :=
    if p.isEmpty || p == "." then done
    else if p == ".." then
      match done with
      | [] => [".."]
      | ".." :: _ => ".." :: done
      | _ :: rest => rest
    else p :: done
  "/".intercalate ((Directory.parts path).foldl step []).reverse

end LuaHost
