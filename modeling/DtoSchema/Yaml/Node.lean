import DtoSchema.Yaml.Token

/-!
# Nodes of a document

The tokens of a document form a tree of scalars, sequences and mappings.  Only the first document of
a stream is read; of what follows it no more is looked at than is needed to see where it ends.
-/

namespace DtoSchema.Yaml

open Text

/-- A node. -/
inductive Node where
  /-- A scalar with its tag, if there is one, written without quotes or not. -/
  | scalar (tag : Option Text) (plain : Bool) (value : Text)
  /-- A sequence of nodes. -/
  | sequence (items : List Node)
  /-- A mapping with its keys and values in order. -/
  | mapping (entries : List (Node × Node))
  /-- The node with the given name once more, by the number of its anchor. -/
  | alias (name : Text) (anchor : Nat)

namespace Node

/-- What stands where a node may be left out. -/
def absent : Node := .scalar none true []

end Node

/-- A document: its root, and the nodes with an anchor. -/
structure Stream where
  /-- The root, if there is a document. -/
  root : Option Node
  /-- The nodes with an anchor, by number. -/
  anchored : List (Nat × Node)
  /-- The number of characters of the stream, which no nesting exceeds. -/
  size : Nat

/-- The state of reading nodes. -/
structure Reader where
  /-- The tokens that are left. -/
  scanner : Scanner
  /-- The number of the anchor that each name stands for, the latest first. -/
  names : List (Text × Nat) := []
  /-- The nodes with an anchor, by number. -/
  anchored : List (Nat × Node) := []
  /-- The number of anchors so far. -/
  anchorCount : Nat := 0
  /-- What the handles of tags stand for. -/
  handles : List (Text × Text) := []

/-- A step of reading, which fails if the document is malformed. -/
abbrev Reading := StateT Reader Option

namespace Reading

/-- The next token. -/
def peek : Reading Token := fun r =>
  r.scanner.peek?.map fun (t, scanner) => (t, { r with scanner := scanner })

/-- Passes the next token, which has been looked at. -/
def skip : Reading Unit := modify fun r => { r with scanner := r.scanner.skip }

/-- Passes the next token and gives the one after it. -/
def skipPeek : Reading Token := do skip; peek

/-- The document is malformed. -/
def fail {α : Type} : Reading α := fun _ => none

/-! ### Tags and anchors -/

/-- The expansions of the handles that need no directive. -/
def standardHandles : List (Text × Text) :=
  [("!", "!"), ("!!", "tag:yaml.org,2002:")]

/-- The short form of a tag. -/
def shortTag (tag : Text) : Text :=
  match afterPrefix? "tag:yaml.org,2002:" tag with
  | some name => "!!" ++ name
  | none => tag

/-- The tag that a handle and what follows it stand for.  The mark alone stands for no tag. -/
def expandTag (handle suffix : Text) : Reading (Option Text) := do
  if handle.isEmpty then
    return if suffix = "!" then none else some (shortTag suffix)
  else
    match ((← get).handles ++ standardHandles).lookup handle with
    | some expansion => return some (shortTag (expansion ++ suffix))
    | none => fail

/-- The properties of a node: its tag, with whether there is one at all, and the number of its
anchor. -/
structure Properties where
  /-- The tag. -/
  tag : Option Text := none
  /-- The name of the anchor. -/
  anchor : Option Text := none
  /-- There is a tag or an anchor. -/
  present : Bool := false

/-- The tag here, after other properties. -/
def readTag (p : Properties) : Reading Properties := do
  match ← peek with
  | .tag handle suffix => skip; return { p with tag := ← expandTag handle suffix, present := true }
  | _ => return p

/-- The anchor here, after other properties. -/
def readAnchor (p : Properties) : Reading Properties := do
  match ← peek with
  | .anchor name => skip; return { p with anchor := some name, present := true }
  | _ => return p

/-- The properties here: a tag and an anchor in either order. -/
def readProperties : Reading Properties := do
  match ← peek with
  | .anchor _ => readTag (← readAnchor {})
  | _ => readAnchor (← readTag {})

/-- Gives a name to the node that is about to be read, and its number. -/
def declare (anchor : Option Text) : Reading (Option Nat) := do
  match anchor with
  | none => return none
  | some name =>
    modifyGet fun r =>
      (some r.anchorCount,
        { r with anchorCount := r.anchorCount + 1, names := (name, r.anchorCount) :: r.names })

/-- Keeps a node under the number of its anchor. -/
def keep (number : Option Nat) (n : Node) : Reading Node := do
  match number with
  | none => return n
  | some i => modify fun r => { r with anchored := (i, n) :: r.anchored }; return n

/-! ### Nodes

The functions below read one another's nodes.  The fuel bounds the number of steps from a node to
the parts of it. -/

mutual

/-- A node, which may be a block if `block` holds, or a sequence that is not indented further than
the mapping that it belongs to if `indentless` holds. -/
def node : (fuel : Nat) → (block indentless : Bool) → Reading Node
  | 0, _, _ => fail
  | fuel + 1, block, indentless => do
    match ← peek with
    | .alias name =>
      skip
      match (← get).names.lookup name with
      | some i => return .alias name i
      | none => fail
    | _ =>
      let p ← readProperties
      let number ← declare p.anchor
      match ← peek with
      | .scalar plain value => skip; keep number (.scalar p.tag plain value)
      | .flowSequence => skip; keep number (.sequence (← flowItems fuel true))
      | .flowMapping => skip; keep number (.mapping (← flowEntries fuel true))
      | .blockEntry =>
        if indentless then keep number (.sequence (← indentlessItems fuel))
        else if p.present then keep number (.scalar p.tag true [])
        else fail
      | .blockSequence =>
        if block then skip; keep number (.sequence (← blockItems fuel))
        else if p.present then keep number (.scalar p.tag true [])
        else fail
      | .blockMapping =>
        if block then skip; keep number (.mapping (← blockEntries fuel))
        else if p.present then keep number (.scalar p.tag true [])
        else fail
      | _ => if p.present then keep number (.scalar p.tag true []) else fail

/-- The items of a sequence in lines. -/
def blockItems : (fuel : Nat) → Reading (List Node)
  | 0 => fail
  | fuel + 1 => do
    match ← peek with
    | .blockEntry =>
      let item ← match ← skipPeek with
        | .blockEntry | .blockEnd => pure Node.absent
        | _ => node fuel true false
      return item :: (← blockItems fuel)
    | .blockEnd => skip; return []
    | _ => fail

/-- The items of a sequence that is not indented. -/
def indentlessItems : (fuel : Nat) → Reading (List Node)
  | 0 => fail
  | fuel + 1 => do
    match ← peek with
    | .blockEntry =>
      let item ← match ← skipPeek with
        | .blockEntry | .key | .value | .blockEnd => pure Node.absent
        | _ => node fuel true false
      return item :: (← indentlessItems fuel)
    | _ => return []

/-- The value of an entry of a mapping in lines. -/
def blockValue : (fuel : Nat) → Reading Node
  | 0 => fail
  | fuel + 1 => do
    match ← peek with
    | .value =>
      match ← skipPeek with
      | .key | .value | .blockEnd => return Node.absent
      | _ => node fuel true true
    | _ => return Node.absent

/-- The entries of a mapping in lines. -/
def blockEntries : (fuel : Nat) → Reading (List (Node × Node))
  | 0 => fail
  | fuel + 1 => do
    match ← peek with
    | .key =>
      let key ← match ← skipPeek with
        | .key | .value | .blockEnd => pure Node.absent
        | _ => node fuel true true
      let value ← blockValue fuel
      return (key, value) :: (← blockEntries fuel)
    | .blockEnd => skip; return []
    | _ => fail

/-- The items of a sequence in brackets; before every item but the first there is a comma. -/
def flowItems : (fuel : Nat) → (first : Bool) → Reading (List Node)
  | 0, _ => fail
  | fuel + 1, first => do
    match ← peek with
    | .flowSequenceEnd => skip; return []
    | t =>
      let t ← if first then pure t else match t with
        | .flowEntry => skipPeek
        | _ => fail
      match t with
      | .flowSequenceEnd => skip; return []
      | .key => skip; return .mapping [← flowPair fuel] :: (← flowItems fuel false)
      | _ => return (← node fuel false false) :: (← flowItems fuel false)

/-- An item of a sequence in brackets that is a mapping with one entry. -/
def flowPair : (fuel : Nat) → Reading (Node × Node)
  | 0 => fail
  | fuel + 1 => do
    let key ← match ← peek with
      | .value | .flowEntry | .flowSequenceEnd => do skip; pure Node.absent
      | _ => node fuel false false
    match ← peek with
    | .value =>
      match ← skipPeek with
      | .flowEntry | .flowSequenceEnd => return (key, Node.absent)
      | _ => return (key, ← node fuel false false)
    | _ => return (key, Node.absent)

/-- The value of an entry of a mapping in braces. -/
def flowValue : (fuel : Nat) → Reading Node
  | 0 => fail
  | fuel + 1 => do
    match ← peek with
    | .value =>
      match ← skipPeek with
      | .flowEntry | .flowMappingEnd => return Node.absent
      | _ => node fuel false false
    | _ => return Node.absent

/-- The entries of a mapping in braces; before every entry but the first there is a comma. -/
def flowEntries : (fuel : Nat) → (first : Bool) → Reading (List (Node × Node))
  | 0, _ => fail
  | fuel + 1, first => do
    match ← peek with
    | .flowMappingEnd => skip; return []
    | t =>
      let t ← if first then pure t else match t with
        | .flowEntry => skipPeek
        | _ => fail
      match t with
      | .flowMappingEnd => skip; return []
      | .key =>
        let key ← match ← skipPeek with
          | .value | .flowEntry | .flowMappingEnd => pure Node.absent
          | _ => node fuel false false
        let value ← flowValue fuel
        return (key, value) :: (← flowEntries fuel false)
      | _ =>
        let key ← node fuel false false
        return (key, Node.absent) :: (← flowEntries fuel false)

end

/-! ### Documents -/

/-- The directives before a document, and the mark of its start. -/
def directives : (fuel : Nat) → (versioned : Bool) → Reading Unit
  | 0, _ => fail
  | fuel + 1, versioned => do
    match ← peek with
    | .directive (.version major minor) =>
      if versioned || major != 1 || minor != 1 then fail
      else do skip; directives fuel true
    | .directive (.tagHandle handle expansion) =>
      if ((← get).handles.lookup handle).isSome then fail
      else do
        modify fun r => { r with handles := (handle, expansion) :: r.handles }
        skip
        directives fuel versioned
    | .documentStart => skip
    | _ => fail

/-- The first document of a stream. -/
def document (fuel : Nat) : Reading (Option Node) := do
  match ← peek with
  | .streamEnd => return none
  | .directive _ | .documentStart =>
    directives fuel false
    let root ← match ← peek with
      | .directive _ | .documentStart | .documentEnd | .streamEnd => pure Node.absent
      | _ => node fuel true false
    let _ ← peek
    return some root
  | _ =>
    let root ← node fuel true false
    let _ ← peek
    return some root

end Reading

/-- The first document of a stream, if it is well-formed. -/
def parse? (s : Text) : Option Stream :=
  let start := Cursor.start s
  ((Reading.document (4 * start.size + 16)).run { scanner := { cursor := start } }).map
    fun (root, r) => ⟨root, r.anchored, start.size⟩

end DtoSchema.Yaml
