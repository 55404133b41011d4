import LuaHost.Yaml.Scalar
/-!
Nodes and documents. Block collections are told by the columns of their entries; flow collections are
written between brackets. A text is a document only if all of it is read.
-/

namespace LuaHost.Yaml

/-- What stands before a node: an anchor, and a tag. -/
structure Properties where
  anchor : Option String := none
  tag : Option String := none
  deriving Inhabited

namespace Reader

/-! ### Anchors and tags -/

def isAnchorChar (c : Char) : Bool := !isBlank c && c != '\n' && !isFlowMark c

/-- The name of a standard tag by the ways of writing it; other tags have no say. -/
def tagName (written : String) : String :=
  match written.toList with
  | '!' :: '!' :: name => String.ofList name
  | cs =>
    let standard := "!<tag:yaml.org,2002:".toList
    if standard.isPrefixOf cs then String.ofList ((cs.drop standard.length).takeWhile (· != '>'))
    else written

/-- The handle that a tag is written with, if it is one that has to be declared. -/
def handle? (written : String) : Option String :=
  match written.toList with
  | '!' :: '!' :: _ => none
  | '!' :: '<' :: _ => none
  | '!' :: cs =>
    let name := cs.takeWhile (· != '!')
    if name.length < cs.length then some (String.ofList ('!' :: name ++ ['!'])) else none
  | _ => none

def readTag : Reader String := do
  let isVerbatim := (← peek 1) == some '<'
  let written ← takeWhile fun c => !isBlank c && c != '\n' && (isVerbatim || !isFlowMark c)
  if isVerbatim && written.toList.getLast? != some '>' then failure
  match handle? written with
  | some handle => if !(← get).handles.contains handle then failure
  | none => pure ()
  return tagName written

/-- Reads the anchor and the tag that stand here on the line, in either order. -/
def properties : Nat → Properties → Reader Properties
  | 0, p => return p
  | fuel + 1, p => do
    match ← peek 0 with
    | some '&' =>
      advance 1
      let name ← takeWhile isAnchorChar
      if name.isEmpty || p.anchor.isSome || !isGap (← peek 0) && !(← peek 0).any isFlowMark then failure
      skipBlanks
      properties fuel { p with anchor := some name }
    | some '!' =>
      let tag ← readTag
      if p.tag.isSome || !isGap (← peek 0) && !(← peek 0).any isFlowMark then failure
      skipBlanks
      properties fuel { p with tag := some tag }
    | _ => return p

def setAnchor (name : String) (n : Node) : Reader Unit :=
  modify fun c => { c with anchors := (name, n) :: c.anchors }

/-- Reads a node under its anchor. Inside itself, a collection is known as what encloses it. -/
def anchored (p : Properties) (r : Reader Node) : Reader Node := do
  match p.anchor with
  | none => r
  | some name =>
    setAnchor name .enclosing
    let n ← r
    setAnchor name n
    return n

def aliased : Reader Node := do
  advance 1
  let name ← takeWhile isAnchorChar
  match (← get).anchors.find? (·.1 == name) with
  | some (_, n) => return n
  | none => failure

/-- A scalar that is not plain is text, unless a tag says otherwise. -/
def ofText (p : Properties) (s : String) : Node :=
  match p.tag with
  | some tag => .ofTagged tag s
  | none => .string s

def ofPlain (p : Properties) (s : String) : Node :=
  match p.tag with
  | some tag => .ofTagged tag s
  | none => .ofPlain s

/-- A node of which nothing is written. -/
def empty (p : Properties) : Reader Node := anchored p (return ofPlain p "")

/-- Adds an entry to a mapping, whose keys have to differ. -/
def addEntry (done : List (Node × Node)) (key value : Node) : Reader (List (Node × Node)) :=
  if done.any fun e => Node.sameKey e.1 key then failure else return (key, value) :: done

/-! ### Flow collections -/

/-- Skips blanks, comments and line breaks inside brackets. A new line is indented by `low` or more, but
for a closing bracket that may stand one column to the left of the outermost collection. -/
def flowGap (low depth : Nat) : Reader Unit := do
  let crossed ← skipGap ((← get).text.size + 1) false
  if crossed then
    let c ← get
    let start := c.position - Cursor.columnOf c.text c.position
    let indentation := Cursor.after c.text (· == ' ') start - start
    let atClosing := depth == 1 && indentation + 1 == low
      && (c.text[c.position]? == some ']' || c.text[c.position]? == some '\x7d')
    if (indentation < low && !atClosing) || (indentation == 0 && Cursor.isMarker c.text start) then
      failure

/-- Are two places on one line? -/
def sameLine (start : Nat) : Reader Bool := do
  let c ← get
  return !(c.text.extract start c.position).contains '\n'

/-- Is a value about to follow its key? -/
def atFlowValue (afterQuote : Bool) : Reader Bool := do
  let next ← peek 1
  return (← peek 0) == some ':' && (afterQuote || isGap next || next.any isFlowMark)

/-- Is there a mark that ends an entry? -/
def atFlowEnd : Reader Bool := do
  match ← peek 0 with
  | some c => return c == ',' || c == ']' || c == '\x7d'
  | none => failure

mutual

/-- A node inside brackets; tells whether it ends with a quote or a bracket. -/
def flowNode : Nat → Nat → Nat → Reader (Node × Bool)
  | 0, _, _ => failure
  | fuel + 1, low, depth => do
    let p ← properties 3 {}
    flowGap low depth
    match ← peek 0 with
    | some '[' =>
      advance 1
      return (← anchored p (return .list (← flowItems fuel low (depth + 1) [])), true)
    | some '\x7b' =>
      advance 1
      return (← anchored p (return .map (← flowEntries fuel low (depth + 1) [])), true)
    | some '*' => return (← aliased, false)
    | some '"' => return (← anchored p (return ofText p (← quoted '"' low)), true)
    | some '\'' => return (← anchored p (return ofText p (← quoted '\'' low)), true)
    | _ =>
      if (← atFlowEnd) || (← atFlowValue false) then return (← empty p, false)
      else return (← anchored p (return ofPlain p (← plain true (some low))), false)

/-- The value of an entry, behind its colon. -/
def flowValue : Nat → Nat → Nat → Reader Node
  | 0, _, _ => failure
  | fuel + 1, low, depth => do
    advance 1
    flowGap low depth
    if ← atFlowEnd then return .null
    let (value, _) ← flowNode fuel low depth
    flowGap low depth
    return value

/-- The items of a list up to its closing bracket; an item may be a single entry. -/
def flowItems : Nat → Nat → Nat → List Node → Reader (List Node)
  | 0, _, _, _ => failure
  | fuel + 1, low, depth, done => do
    flowGap low depth
    if (← peek 0) == some ']' then
      advance 1
      return done.reverse
    let explicit ← atMark '?'
    if explicit then
      advance 1
      flowGap low depth
    let start := (← get).position
    if !explicit && (← peek 0) == some ',' then failure
    let (key, afterQuote) ← flowNode fuel low depth
    let keyOnLine ← sameLine start
    flowGap low depth
    let item ←
      if ← atFlowValue afterQuote then
        if !explicit && !keyOnLine then failure
        let value ← flowValue fuel low depth
        pure (.map [(key, value)])
      else pure (if explicit then .map [(key, .null)] else key)
    match ← peek 0 with
    | some ',' =>
      advance 1
      flowItems fuel low depth (item :: done)
    | some ']' => flowItems fuel low depth (item :: done)
    | _ => failure

/-- The entries of a mapping up to its closing bracket. -/
def flowEntries : Nat → Nat → Nat → List (Node × Node) → Reader (List (Node × Node))
  | 0, _, _, _ => failure
  | fuel + 1, low, depth, done => do
    flowGap low depth
    if (← peek 0) == some '\x7d' then
      advance 1
      return done.reverse
    if ← atMark '?' then
      advance 1
      flowGap low depth
    if (← peek 0) == some ',' then failure
    let (key, afterQuote) ← flowNode fuel low depth
    flowGap low depth
    let value ← if ← atFlowValue afterQuote then flowValue fuel low depth else pure .null
    let done ← addEntry done key value
    match ← peek 0 with
    | some ',' =>
      advance 1
      flowEntries fuel low depth done
    | some '\x7d' => flowEntries fuel low depth done
    | _ => failure

end

/-! ### Block collections -/

/-- Reads a key that stands before a colon on one line, together with the colon; if there is none, nothing
is read. -/
def implicitKey? (fuel low : Nat) (p : Properties) : Reader (Option Node) := do
  let start ← get
  let key ← match ← peek 0 with
    | some '*' => aliased
    | some '"' => anchored p (return ofText p (← quoted '"' low))
    | some '\'' => anchored p (return ofText p (← quoted '\'' low))
    | some '[' => return (← flowKey start)
    | some '\x7b' => return (← flowKey start)
    | _ =>
      if ← atMark ':' then empty p
      else if canStartPlain false (← peek 0) (← peek 1) then
        anchored p (return ofPlain p (← plain false none))
      else
        return none
  withColon start key
where
  withColon (start : Cursor) (key : Node) : Reader (Option Node) := do
    let onLine ← sameLine start.position
    skipBlanks
    if ← atMark ':' then
      if !onLine then failure
      advance 1
      return some key
    else
      set start
      return none
  flowKey (start : Cursor) : Reader (Option Node) := do
    let (key, _) ← flowNode fuel low 0
    withColon start key

/-- A node that is no block collection, and the end of its line. -/
def inlineNode (fuel low : Nat) (p : Properties) : Reader Node := do
  let n ← match ← peek 0 with
    | some '*' => aliased
    | some '"' => anchored p (return ofText p (← quoted '"' low))
    | some '\'' => anchored p (return ofText p (← quoted '\'' low))
    | some '[' => anchored p (return (← flowNode fuel low 0).1)
    | some '\x7b' => anchored p (return (← flowNode fuel low 0).1)
    | some '|' => return (← anchored p (return ofText p (← block low)))
    | some '>' => return (← anchored p (return ofText p (← block low)))
    | _ => anchored p (return ofPlain p (← plain false (some low)))
  lineEnd
  return n

def orElse (a b : Properties) : Properties := ⟨a.anchor <|> b.anchor, a.tag <|> b.tag⟩

mutual

/-- A node whose lines are indented by `low` or more; a list may start at `listLow` already. A block
collection may start here only if the line is `fresh`. -/
def blockNode : Nat → Nat → Nat → Bool → Properties → Reader Node
  | 0, _, _, _, _ => failure
  | fuel + 1, low, listLow, fresh, outer => do
    let crossed ← toContent
    let fresh := fresh || crossed
    let here ← column
    let atItem ← atMark '-'
    if (← atEnd) || (crossed && here < low && !(atItem && listLow ≤ here)) then empty outer
    else if fresh && atItem then anchored outer (return .list (← blockItems fuel here []))
    else if fresh && (← atMark '?') then anchored outer (return .map (← blockEntries fuel here []))
    else
      let start ← get
      let own ← properties 3 {}
      if isLineEnd (← peek 0) || (← atComment) then
        if own.anchor.isNone && own.tag.isNone then failure
        blockNode fuel low listLow false (orElse own outer)
      else
        let key ← if fresh then implicitKey? fuel low own else pure none
        match key with
        | some _ =>
          set start
          anchored outer (return .map (← blockEntries fuel here []))
        | none => inlineNode fuel low (orElse own outer)

/-- The items of a list whose dashes stand in a column. -/
def blockItems : Nat → Nat → List Node → Reader (List Node)
  | 0, _, _ => failure
  | fuel + 1, here, done => do
    advance 1
    let item ← blockNode fuel (here + 1) (here + 1) true {}
    let done := item :: done
    discard toContent
    if ← atEnd then return done.reverse
    let next ← column
    if here < next then failure
    if next == here && (← atMark '-') then blockItems fuel here done
    else return done.reverse

/-- The entries of a mapping whose keys stand in a column. -/
def blockEntries : Nat → Nat → List (Node × Node) → Reader (List (Node × Node))
  | 0, _, _ => failure
  | fuel + 1, here, done => do
    let (key, value) ←
      if ← atMark '?' then
        advance 1
        let key ← blockNode fuel (here + 1) (here + 1) true {}
        discard toContent
        if !(← atEnd) && (← column) == here && (← atMark ':') then
          advance 1
          let value ← blockNode fuel (here + 1) here true {}
          pure (key, value)
        else pure (key, .null)
      else
        let own ← properties 3 {}
        match ← implicitKey? fuel 0 own with
        | none => failure
        | some key =>
          let value ← blockNode fuel (here + 1) here false {}
          pure (key, value)
    let done ← addEntry done key value
    discard toContent
    if ← atEnd then return done.reverse
    let next ← column
    if here < next then failure
    if next == here then blockEntries fuel here done
    else return done.reverse

end

/-! ### Documents -/

/-- Notes a directive that declares a handle for tags. -/
def directive (line : String) : Reader Unit :=
  match (line.splitOn " ").filter fun w => !w.isEmpty with
  | ["%TAG", handle, _] => modify fun c => { c with handles := handle :: c.handles }
  | _ => pure ()

/-- Reads the directives before a document; tells whether there are any. -/
def directives : Nat → Bool → Reader Bool
  | 0, found => return found
  | fuel + 1, found => do
    discard (skipGap ((← get).text.size + 1) false)
    if (← peek 0) == some '%' && (← column) == 0 then
      directive (← takeWhile (· != '\n'))
      directives fuel true
    else return found

/-- Is this a mark of the start of a document? -/
def atStartMarker : Reader Bool := do
  let c ← get
  return Cursor.columnOf c.text c.position == 0 && Cursor.isMarker c.text c.position
    && c.text[c.position]? == some '-'

/-- Skips marks of the end of a document; nothing may follow them. -/
def documentEnd : Nat → Reader Unit
  | 0 => failure
  | fuel + 1 => do
    discard toContent
    if (← peek 0).isSome then
      if !(← atEnd) || (← atStartMarker) then failure
      advance 3
      lineEnd
      documentEnd fuel

/-- The only document of a text. -/
def document : Reader Node := do
  let size := (← get).text.size
  let declared ← directives (size + 1) false
  let marked ← atStartMarker
  if marked then advance 3
  else
    if declared then failure
    modify fun c => { c with position := c.position - Cursor.columnOf c.text c.position }
  let n ← blockNode (2 * size + 4) 0 0 (!marked) {}
  documentEnd (size + 1)
  return n

end Reader

/-- The characters of a text without a byte order mark, with line breaks written one way. -/
def characters (s : String) : Array Char :=
  let cs := match s.toList with
    | '\ufeff' :: cs => cs
    | cs => cs
  (joinBreaks cs).toArray
where
  joinBreaks : List Char → List Char
    | '\r' :: '\n' :: rest => '\n' :: joinBreaks rest
    | c :: rest => c :: joinBreaks rest
    | [] => []

/-- The document that a text holds, if it holds just one. -/
def parse? (s : String) : Option Node :=
  (Reader.document.run { text := characters s }).map (·.1)

end LuaHost.Yaml
