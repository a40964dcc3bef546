import DtoSchema.Yaml.Node
import DtoSchema.Yaml.Value

/-!
# Decoding of nodes

A document is decoded from its root: a mapping gives a record, whose fields are known by name, or a
map from texts to texts, and a scalar gives a text, a number or a truth value.  A scalar without a
value leaves unset what it is given for.

A mapping may take over the entries of others.  Its own entries come first, and a name that is taken
is not taken again.

An alias repeats the node that it stands for.  A small document can be made to repeat its nodes very
often, so that the nodes are counted, and a document in which nearly all of them are repeated is
refused.
-/

namespace DtoSchema.Yaml

open Text

/-! ### Counting -/

/-- How many nodes have been decoded. -/
structure Tally where
  /-- The number of nodes. -/
  nodes : Nat := 0
  /-- The number of those that were reached through an alias. -/
  repeated : Nat := 0

/-- More nodes are repeated than is allowed: 99 of a hundred in a document of up to 400000 nodes,
ten of a hundred from 4000000 nodes on, and in between a share that falls evenly. -/
def Tally.isLopsided (t : Tally) : Bool :=
  if t.nodes ≤ 400000 then 99 * t.nodes < 100 * t.repeated
  else if 4000000 ≤ t.nodes then t.nodes < 10 * t.repeated
  else t.nodes * (356400000 - 89 * (t.nodes - 400000)) < 360000000 * t.repeated

/-- The document is refused.  What is small is never refused. -/
def Tally.isExcessive (t : Tally) : Bool := 100 < t.repeated && 1000 < t.nodes && t.isLopsided

/-- A step of decoding, which fails if the document does not have the form that is asked for. -/
abbrev Decoding := StateT Tally Option

/-- A node where it occurs. -/
structure Occurrence where
  /-- The document. -/
  stream : Stream
  /-- The anchors that it was reached through. -/
  inside : List Nat := []
  /-- The node. -/
  node : Node

namespace Occurrence

/-- A part of a node, where the node occurs. -/
def part (o : Occurrence) (n : Node) : Occurrence := { o with node := n }

end Occurrence

namespace Decoding

/-- The document does not have the form that is asked for. -/
def refuse {α : Type} : Decoding α := fun _ => none

/-- Counts a node. -/
def count (o : Occurrence) : Decoding Unit := fun t =>
  let t : Tally := ⟨t.nodes + 1, if o.inside.isEmpty then t.repeated else t.repeated + 1⟩
  if t.isExcessive then none else some ((), t)

/-- The node that a node stands for, which is not part of itself. -/
def target (o : Occurrence) : Decoding Occurrence := do
  count o
  match o.node with
  | .alias _ anchor =>
    match o.stream.anchored.lookup anchor with
    | some n =>
      if o.inside.contains anchor then refuse
      else
        let o : Occurrence := ⟨o.stream, anchor :: o.inside, n⟩
        count o
        return o
    | none => refuse
  | _ => return o

/-! ### Scalars -/

/-- What a scalar gives, where `read` understands its value.  A scalar without a value gives
nothing, and what is no scalar cannot be understood. -/
def scalar {α : Type} (read : Value → Option α) (o : Occurrence) : Decoding (Option α) := do
  match (← target o).node with
  | .scalar tag plain text =>
    match Value.ofScalar? tag plain text with
    | none => refuse
    | some v =>
      if v.meaning = .null then return none
      else match read v with
        | some a => return some a
        | none => refuse
  | _ => refuse

/-- The text that a scalar gives. -/
def text (o : Occurrence) : Decoding (Option Text) := scalar (fun v => some v.text) o

/-- The text that a key gives if it is nothing but a text. -/
def plainText (o : Occurrence) : Decoding (Option Text) := do
  let found ← scalar (fun v => some (if v.meaning = .text then some v.text else none)) o
  return found.join

/-! ### Mappings -/

/-- Two keys are written alike. -/
def alike : Node → Node → Bool
  | .scalar _ _ a, .scalar _ _ b => a == b
  | .alias a _, .alias b _ => a == b
  | .sequence _, .sequence _ => true
  | .mapping _, .mapping _ => true
  | _, _ => false

/-- No two keys are written alike. -/
def distinct : List Node → Bool
  | [] => true
  | k :: ks => !ks.any (alike k) && distinct ks

/-- The key under which the entries of other mappings are taken over. -/
def isMergeKey : Node → Bool
  | .scalar tag plain text =>
    text == ("<<" : Text) && ((plain && tag.isNone) || tag == some ("!!merge" : Text))
  | _ => false

/-- What an entry does to what has been decoded: it is an entry of the mapping itself, or one that
is taken over, and it has a name and a value. -/
abbrev Entry (σ : Type) := (own : Bool) → (name : Text) → Occurrence → σ → Decoding σ

/-- The own entries of a mapping, where `taken` holds the names that are taken if the mapping is
itself taken over.  A key without a value is passed over. -/
def ownEntries {σ : Type} (entry : Entry σ) (o : Occurrence) :
    List (Node × Node) → (taken : Option (List Text)) → σ → Decoding (Option (List Text) × σ)
  | [], taken, a => return (taken, a)
  | (k, v) :: entries, taken, a => do
    if isMergeKey k then ownEntries entry o entries taken a
    else match ← text (o.part k), taken with
      | none, _ => ownEntries entry o entries taken a
      | some name, none =>
        ownEntries entry o entries none (← entry true name (o.part v) a)
      | some name, some names =>
        if names.contains name then ownEntries entry o entries taken a
        else ownEntries entry o entries (some (name :: names)) (← entry false name (o.part v) a)

/-- The names that the keys of a mapping take: those of the keys that are texts. -/
def namesTaken (o : Occurrence) (keys : List Node) : Decoding (List Text) := do
  return (← keys.mapM fun k => plainText (o.part k)).filterMap id

/-- The mappings whose entries are taken over: one mapping, or a sequence of them. -/
def sources : Node → List Node
  | .sequence items => items
  | n => [n]

/-- All entries of a mapping: its own, and then those that it takes over. -/
def allEntries {σ : Type} (entry : Entry σ) :
    (fuel : Nat) → Occurrence → List (Node × Node) → (taken : Option (List Text)) → σ →
    Decoding (Option (List Text) × σ)
  | 0, _, _, _, _ => refuse
  | fuel + 1, o, entries, taken, a => do
    if !distinct (entries.map (·.1)) then refuse
    else
      let (taken, a) ← ownEntries entry o entries taken a
      match entries.find? fun e => isMergeKey e.1 with
      | none => return (taken, a)
      | some (_, source) =>
        let names ← match taken with
          | some names => pure names
          | none => namesTaken o (entries.map (·.1))
        let (names, a) ← (sources source).foldlM (fun ((names, a) : List Text × σ) n => do
          let o ← target (o.part n)
          match o.node with
          | .mapping entries =>
            let (taken, a) ← allEntries entry fuel o entries (some names) a
            return (taken.getD names, a)
          | _ => refuse) (names, a)
        return (taken.map fun _ => names, a)

/-- What the entries of a mapping do to what has been decoded; a scalar without a value does
nothing. -/
def mapping {σ : Type} (entry : Entry σ) (o : Occurrence) (a : σ) : Decoding σ := do
  let o ← target o
  match o.node with
  | .mapping entries =>
    let fuel := (o.stream.size + 1) * (o.stream.size + 1)
    return (← allEntries entry fuel o entries none a).2
  | .scalar tag plain text =>
    match Value.ofScalar? tag plain text with
    | some v => if v.meaning = .null then return a else refuse
    | none => refuse
  | _ => refuse

/-! ### Records and maps -/

/-- What the value of a field does to a record. -/
abbrev Setter (ρ : Type) := ρ → Occurrence → Decoding ρ

/-- A record with the fields that a mapping gives.  A name that is no field is passed over, and no
field is given twice. -/
def record {ρ : Type} (fields : List (Text × Setter ρ)) (r : ρ) (o : Occurrence) : Decoding ρ := do
  let entry : Entry (List Text × ρ) := fun _ name o (given, r) =>
    match fields.lookup name with
    | none => return (given, r)
    | some set =>
      if given.contains name then refuse else return (name :: given, ← set r o)
  return (← mapping entry o ([], r)).2

/-- The map with a text for a name, the last one that was given. -/
def put (name value : Text) (map : List (Text × Text)) : List (Text × Text) :=
  map.filter (·.1 != name) ++ [(name, value)]

/-- The map from names to texts that a mapping gives.  What has no value is the empty text, unless
it is taken over and there is another one. -/
def textMap (o : Occurrence) : Decoding (List (Text × Text)) :=
  let entry : Entry (List (Text × Text)) := fun own name o map => do
    match ← text o with
    | some value => return put name value map
    | none => return if own || (map.lookup name).isNone then put name [] map else map
  mapping entry o []

end Decoding

/-- What is decoded from the root of a document, or nothing if there is no document.  The document
itself counts as a node. -/
def Stream.decode? {α : Type} (st : Stream) (empty : α) (read : Occurrence → Decoding α) :
    Option α :=
  match st.root with
  | none => some empty
  | some root => ((read { stream := st, node := root }).run { nodes := 1 }).map (·.1)

end DtoSchema.Yaml
