import Runbook.Document.Node
import Runbook.Text.Lower
import Runbook.Text.Words
import Runbook.Yaml.Reading

set_option autoImplicit false

/-! # The values of a document

Turns the tree of a document into its values. Merge keys are applied first: the entries that a
mapping takes from others stand before its own, so that its own win. The tag of a node says what it
becomes; a tag that is local to the document is kept for later, with the values below it.

Values are made from the top down: a list or mapping is made empty, and filled when everything that
was met before it is done; only below a local tag all is made at once. That order decides which of
two faults is reported, so the faults are sought in that order before the values are built.

The order shows in one more way. Applying the merge keys of a mapping changes the nodes themselves,
and they may stand elsewhere too: the mappings have their merge keys replaced by entries, and a sign
for a default value that is a key has become a text. So what a node stands for is seen as it is at
the moment when the node is made. -/

namespace Runbook.Yaml

/-! ## Merge keys -/

namespace Tree

/-- A key. The sign for a default value is a text here. -/
def asKey : Tree → Tree
  | scalar p t s => scalar p (if t = coreTag "value" then coreTag "str" else t) s
  | other => other

mutual

/-- The entries that the value of a merge key stands for: those of a mapping, or those of the
    mappings in a list. -/
def mergedValue : Tree → Except Fault (List (Tree × Tree))
  | mapping _ _ entries => do
    let (taken, own) ← splitEntries entries
    return taken ++ own
  | sequence _ _ items => mergedItems items
  | scalar _ _ _ => malformed

/-- The entries that a mapping takes from others, and its own. -/
def splitEntries : List (Tree × Tree) →
    Except Fault (List (Tree × Tree) × List (Tree × Tree))
  | [] => .ok ([], [])
  | (key, value) :: rest => do
    if key.tag = coreTag "merge" then
      let taken ← mergedValue value
      let (more, own) ← splitEntries rest
      return (taken ++ more, own)
    else
      let (more, own) ← splitEntries rest
      return (more, (key.asKey, value) :: own)

/-- The entries of some mappings, those of the last one first. -/
def mergedItems : List Tree → Except Fault (List (Tree × Tree))
  | [] => .ok []
  | mapping _ _ entries :: rest => do
    let (taken, own) ← splitEntries entries
    let more ← mergedItems rest
    return more ++ (taken ++ own)
  | _ :: _ => malformed

end

/-- The entries of a mapping with its merge keys applied. -/
def merged (entries : List (Tree × Tree)) : Except Fault (List (Tree × Tree)) :=
  (splitEntries entries).map fun (taken, own) => taken ++ own

mutual

/-- The places of the nodes that change when the entries of a node are taken for a merge key. -/
def touched : Tree → List Nat
  | mapping place _ entries => place :: touchedEntries entries
  | sequence _ _ items => touchedItems items
  | scalar _ _ _ => []

/-- The places of the nodes that change, by the entries of a mapping. -/
def touchedEntries : List (Tree × Tree) → List Nat
  | [] => []
  | (key, value) :: rest =>
    let here := if key.tag = coreTag "merge" then touched value
      else if key.tag = coreTag "value" then [key.place] else []
    here ++ touchedEntries rest

/-- The places of the nodes that change, by the items of a list of mappings. -/
def touchedItems : List Tree → List Nat
  | [] => []
  | item :: rest => touched item ++ touchedItems rest

end

end Tree

/-! ## What is made -/

/-- What is known while the values of a document are made. -/
structure Progress where
  /-- The places of the nodes that are made. -/
  made : List Nat
  /-- The texts of the scalars that are made, by their places. -/
  texts : List (Nat × String)
  /-- The places of the nodes that the application of merge keys has changed. -/
  changed : List Nat
  /-- The nodes that are made and still to be filled, in order. -/
  waiting : List Tree

namespace Progress

/-- Before the first node is made. -/
def start : Progress := ⟨[], [], [], []⟩

/-- The tag of a node as it stands by now. -/
def tagOf (s : Progress) (t : Tree) : String :=
  if t.tag = coreTag "value" && s.changed.contains t.place then coreTag "str" else t.tag

/-- The entries of a mapping as they stand by now. -/
def entriesOf (s : Progress) (place : Nat) (entries : List (Tree × Tree)) :
    Except Fault (List (Tree × Tree)) :=
  if s.changed.contains place then Tree.merged entries else .ok entries

/-- The text of a scalar as it stands by now. A mapping with a default value stands for that value.
    -/
def textOf (s : Progress) : Nat → Tree → Except Fault String
  | 0, _ => malformed
  | _ + 1, .scalar _ _ text => .ok text
  | fuel + 1, .mapping place _ entries => do
    match (← s.entriesOf place entries).find? fun (k, _) => s.tagOf k = coreTag "value" with
    | some (_, v) => textOf s fuel v
    | none => malformed
  | _ + 1, .sequence _ _ _ => malformed

/-- Applies the merge keys of a mapping. -/
def change (s : Progress) (t : Tree) : Progress := { s with changed := t.touched ++ s.changed }

/-- The text of a scalar that is made. -/
def madeText (s : Progress) (t : Tree) : String := (s.texts.lookup t.place).getD ""

end Progress

/-! ## Scalars by tag -/

/-- A numeral that may be read with a fault. -/
def numeral {α : Type} : Except NumeralFault α → Except Fault α
  | .ok x => .ok x
  | .error e => .error (.numeral e)

/-- A text without its underscores. -/
def ungrouped (s : String) : String := String.ofList (s.toList.filter (· ≠ '_'))

/-- A text with its sign taken off. -/
def signedBody (s : String) : Except Fault (Bool × List Char) :=
  match s.toList with
  | [] => .error .emptyNumeral
  | '-' :: rest => .ok (true, rest)
  | '+' :: rest => .ok (false, rest)
  | cs => .ok (false, cs)

/-- The parts of a text between colons. -/
def colonParts (cs : List Char) : List String := (Text.splitAtChar ':' cs).map String.ofList

/-- An integer with its sign. -/
def withSign (negative : Bool) (n : Int) : Int := if negative then -n else n

/-- The integer that a text stands for. -/
def integerOf (s : String) : Except Fault Int := do
  let (negative, cs) ← signedBody (ungrouped s)
  let n ← match cs with
    | ['0'] => pure 0
    | '0' :: 'b' :: rest => numeral (Numeral.readInt 2 (String.ofList rest))
    | '0' :: 'x' :: rest => numeral (Numeral.readInt 16 (String.ofList rest))
    | '0' :: _ => numeral (Numeral.readInt 8 (String.ofList cs))
    | [] => .error .emptyNumeral
    | _ =>
      if ':' ∈ cs then do
        let parts ← (colonParts cs).mapM fun p => numeral (Numeral.readInt 10 p)
        pure (parts.foldl (fun n p => n * 60 + p) 0)
      else numeral (Numeral.readInt 10 (String.ofList cs))
  return withSign negative n

/-- The sum of numbers, the first of which counts once, the next sixty times, and so on. -/
def sixtiesSum (base : Nat) (sum : Binary64) : List Binary64 → Except Fault Binary64
  | [] => .ok sum
  | x :: rest =>
    match Binary64.ofNat base with
    | .infinite _ => .error .numberOverflow
    | b => sixtiesSum (base * 60) (sum.add (x.mul b)) rest

/-- The number that a text stands for. -/
def floatOf (s : String) : Except Fault Binary64 := do
  let (negative, cs) ← signedBody (Text.lower (ungrouped s))
  let x ←
    if String.ofList cs = ".inf" then pure (Binary64.infinite false)
    else if String.ofList cs = ".nan" then pure Binary64.nan
    else if ':' ∈ cs then do
      let parts ← (colonParts cs).mapM fun p => numeral (Numeral.readDecimal p)
      sixtiesSum 1 (Binary64.zero false) parts.reverse
    else numeral (Numeral.readDecimal (String.ofList cs))
  return if negative then x.neg else x

/-- Whether a text is the word for not-a-number, which stands for the same one wherever it occurs.
    -/
def isNanWord (s : String) : Bool :=
  match signedBody (Text.lower (ungrouped s)) with
  | .ok (_, cs) => String.ofList cs = ".nan"
  | .error _ => false

/-- The truth value that a text stands for. -/
def truthOf (s : String) : Except Fault Bool :=
  let word := Text.lower s
  if ["yes", "true", "on"].contains word then .ok true
  else if ["no", "false", "off"].contains word then .ok false
  else .error (.notTruth word)

/-- The first six digits of a fraction of a second. -/
def microseconds (ds : List Char) : Nat :=
  let ds := ds.take 6
  Numeral.natOf (ds ++ List.replicate (6 - ds.length) '0')

/-- The day or moment that a text stands for. -/
def timestampOf (s : String) : Except Fault Scalar := do
  let fault {α : Type} : Except CalendarFault α → Except Fault α
    | .ok x => .ok x
    | .error e => .error (.calendar e)
  match TimeParts.read (formChars s.toList) with
  | none => .error .notTimestamp
  | some parts =>
    let n := Numeral.natOf
    let (year, month, day) := (n parts.year, n parts.month, n parts.day)
    match parts.time with
    | none => return .date (← fault (Date.make year month day))
    | some (hour, minute, second, fraction) =>
      let offset : Option Int := parts.zone.map fun (sign, hours, minutes) =>
        let o : Int := n hours * 60 + n minutes
        if sign = some '-' then -o else o
      return .moment (← fault (Moment.make year month day (n hour) (n minute) (n second)
        (microseconds fraction) offset))

/-- The value of a character in text that carries bytes. -/
def sextet? (c : Char) : Option Nat :=
  if 'A' ≤ c && c ≤ 'Z' then some (c.toNat - 65)
  else if 'a' ≤ c && c ≤ 'z' then some (c.toNat - 71)
  else if c.isDigit then some (c.toNat + 4)
  else if c = '+' then some 62
  else if c = '/' then some 63
  else none

/-- The bytes that a text carries, four characters for three bytes. Other characters do not count.
    `filled` is how many characters of the current four are read, `left` the bits that remain of the
    last one, and `pads` the count of signs that fill up the last four. -/
def bytesFrom (filled left pads : Nat) : List Char → Except Fault Bytes
  | [] => if filled = 0 then .ok [] else malformed
  | c :: rest =>
    if c = '=' then
      if 2 ≤ filled then
        if 4 ≤ filled + pads + 1 then .ok [] else bytesFrom filled left (pads + 1) rest
      else bytesFrom filled left pads rest
    else match sextet? c with
      | none => bytesFrom filled left pads rest
      | some v =>
        if filled = 0 then bytesFrom 1 v 0 rest
        else
          let (byte, left) := if filled = 1 then (left * 4 + v / 16, v % 16)
            else if filled = 2 then (left * 16 + v / 4, v % 4) else (left * 64 + v, 0)
          (bytesFrom ((filled + 1) % 4) left 0 rest).map (UInt8.ofNat byte :: ·)

/-- The bytes that a text of ASCII characters carries. -/
def bytesOf (s : String) : Except Fault Bytes :=
  if s.toList.all (·.toNat < 128) then bytesFrom 0 0 0 s.toList else malformed

/-- The day or moment that a node with a text stands for. A mapping with a default value is none,
    whatever the value. -/
def timestampAt : Tree → String → Except Fault Scalar
  | .scalar _ _ _, s => timestampOf s
  | _, _ => .error .timestampFromMapping

/-- What a tag makes of a node. A scalar is made of the node and the text it stands for. -/
inductive Role where
  | scalar (read : Tree → String → Except Fault Scalar)
  | list
  | map
  | pairs
  | set
  | tagged (name : String)

/-- The roles of the tags of the language. -/
def coreRoles : List (String × Role) :=
  [("null", .scalar fun _ _ => .ok .null), ("bool", .scalar fun _ s => (truthOf s).map .bool),
    ("int", .scalar fun _ s => (integerOf s).map .int),
    ("float", .scalar fun _ s => (floatOf s).map .float),
    ("binary", .scalar fun _ s => (bytesOf s).map .bytes), ("timestamp", .scalar timestampAt),
    ("str", .scalar fun _ s => .ok (.text s)), ("seq", .list), ("map", .map), ("omap", .pairs),
    ("pairs", .pairs), ("set", .set)]

/-- The role of a tag, if it has one. -/
def role? (tag : String) : Option Role :=
  match coreRoles.find? fun (name, _) => tag = coreTag name with
  | some (_, role) => some role
  | none =>
    match tag.toList with
    | '!' :: name => some (.tagged (String.ofList name))
    | _ => none

/-- Whether a tag makes a scalar, which may be a key. -/
def makesKey (tag : String) : Bool :=
  match role? tag with
  | some (.scalar _) => true
  | _ => false

/-! ## The first fault -/

mutual

/-- Makes a node: meets the first fault, or knows what is made and what waits. -/
def make (atOnce : Bool) : Nat → Tree → Progress → Except Fault Progress
  | 0, _, _ => malformed
  | fuel + 1, t, s =>
    if s.made.contains t.place then .ok s
    else do
      let s ← match role? (s.tagOf t) with
        | none => malformed
        | some (.scalar read) => do
          let text ← s.textOf (fuel + 1) t
          let _ ← read t text
          pure { s with texts := (t.place, text) :: s.texts }
        | some (.tagged _) => fill true fuel t s
        | some _ =>
          if atOnce then fill true fuel t s else pure { s with waiting := s.waiting ++ [t] }
      return { s with made := t.place :: s.made }

/-- Fills a node: makes what it holds, in order. The merge keys of a mapping are applied first. -/
def fill (atOnce : Bool) : Nat → Tree → Progress → Except Fault Progress
  | 0, _, _ => malformed
  | fuel + 1, t, s =>
    match role? (s.tagOf t), t with
    | some .list, .sequence _ _ items => makeItems atOnce fuel items s
    | some .map, .mapping _ _ entries => do
      makeEntries atOnce fuel (← Tree.merged entries) (s.change t)
    | some .set, .mapping _ _ entries => do
      makeEntries atOnce fuel (← Tree.merged entries) (s.change t)
    | some .pairs, .sequence _ _ items => makePairs atOnce fuel items s
    | some (.tagged _), .mapping _ _ entries => do
      makeEntries atOnce fuel (← Tree.merged entries) (s.change t)
    | some (.tagged _), .sequence _ _ items => makeItems atOnce fuel items s
    | some (.tagged _), .scalar _ _ _ => .ok s
    | _, _ => malformed

/-- Makes items in order. -/
def makeItems (atOnce : Bool) : Nat → List Tree → Progress → Except Fault Progress
  | 0, _, _ => malformed
  | _ + 1, [], s => .ok s
  | fuel + 1, t :: rest, s => do makeItems atOnce fuel rest (← make atOnce fuel t s)

/-- Makes keys and values in order. A key has to be a scalar. -/
def makeEntries (atOnce : Bool) : Nat → List (Tree × Tree) → Progress → Except Fault Progress
  | 0, _, _ => malformed
  | _ + 1, [], s => .ok s
  | fuel + 1, (k, v) :: rest, s => do
    let s ← make atOnce fuel k s
    if makesKey k.tag then makeEntries atOnce fuel rest (← make atOnce fuel v s) else malformed

/-- Makes pairs in order. Each has to be a mapping of one entry by now. -/
def makePairs (atOnce : Bool) : Nat → List Tree → Progress → Except Fault Progress
  | 0, _, _ => malformed
  | _ + 1, [], s => .ok s
  | fuel + 1, .mapping place _ entries :: rest, s => do
    match ← s.entriesOf place entries with
    | [(k, v)] => makePairs atOnce fuel rest (← make atOnce fuel v (← make atOnce fuel k s))
    | _ => malformed
  | _ + 1, _ :: _, _ => malformed

end

/-- Fills the nodes that wait, first come, first served. -/
def fillWaiting (depth : Nat) : Nat → Progress → Except Fault Progress
  | 0, _ => malformed
  | fuel + 1, s =>
    match s.waiting with
    | [] => .ok s
    | t :: rest => do fillWaiting depth fuel (← fill false depth t { s with waiting := rest })

/-! ## The values -/

/-- A key of a mapping, with what tells one not-a-number from another: the place of its node, or
    nothing if it is written as the word for it. -/
structure Key where
  scalar : Scalar
  source : Option Nat

namespace Key

/-- Whether two keys are the same. Not-a-number is the same key only if it comes from one source. -/
def same (a b : Key) : Bool :=
  a.scalar.sameKey b.scalar
    || (a.scalar = .float .nan && b.scalar = .float .nan && a.source = b.source)

end Key

namespace Progress

/-- The scalar of a node that is made. -/
def scalarOf (s : Progress) (t : Tree) : Except Fault Scalar :=
  match role? (s.tagOf t) with
  | some (.scalar read) => read t (s.madeText t)
  | _ => malformed

/-- The key of a node that is made. -/
def keyOf (s : Progress) (t : Tree) : Except Fault Key :=
  (s.scalarOf t).map fun x => ⟨x, if isNanWord (s.madeText t) then none else some t.place⟩

mutual

/-- The value of a node that is made. -/
def build (s : Progress) : Nat → Tree → Except Fault Node
  | 0, _ => malformed
  | fuel + 1, t =>
    match role? (s.tagOf t), t with
    | some (.scalar _), t => (s.scalarOf t).map .scalar
    | some .list, .sequence p _ items => (buildItems s fuel items).map (.list (some p))
    | some .map, .mapping p _ entries => (buildMap s fuel entries).map (.map (some p))
    | some .set, .mapping _ _ entries =>
      (buildMap s fuel entries).map fun entries => .set (entries.map (·.1))
    | some .pairs, .sequence p _ items => (buildPairs s fuel items).map (.list (some p))
    | some (.tagged name), .mapping p _ entries =>
      (buildMap s fuel entries).map fun entries => .tagged name (.map (some p) entries)
    | some (.tagged name), .sequence p _ items =>
      (buildItems s fuel items).map fun items => .tagged name (.list (some p) items)
    | some (.tagged name), .scalar _ _ text => .ok (.tagged name (.text text))
    | _, _ => malformed

/-- The values of items. -/
def buildItems (s : Progress) : Nat → List Tree → Except Fault (List Node)
  | 0, _ => malformed
  | _ + 1, [] => .ok []
  | fuel + 1, t :: rest => do return (← build s fuel t) :: (← buildItems s fuel rest)

/-- The mapping of some entries. -/
def buildMap (s : Progress) : Nat → List (Tree × Tree) → Except Fault Entries
  | 0, _ => malformed
  | fuel + 1, entries => do
    let kvs ← buildEntries s fuel (← Tree.merged entries)
    return (Entries.ofListWith Key.same kvs).map fun (key, value) => (key.scalar, value)

/-- The keys and values of entries. -/
def buildEntries (s : Progress) : Nat → List (Tree × Tree) → Except Fault (List (Key × Node))
  | 0, _ => malformed
  | _ + 1, [] => .ok []
  | fuel + 1, (k, v) :: rest => do
    return (← s.keyOf k, ← build s fuel v) :: (← buildEntries s fuel rest)

/-- The values of pairs. -/
def buildPairs (s : Progress) : Nat → List Tree → Except Fault (List Node)
  | 0, _ => malformed
  | _ + 1, [] => .ok []
  | fuel + 1, .mapping _ _ entries :: rest => do
    match ← Tree.merged entries with
    | [(k, v)] => return .pair (← build s fuel k) (← build s fuel v) :: (← buildPairs s fuel rest)
    | _ => malformed
  | _ + 1, _ :: _ => malformed

end

end Progress

/-- The document that a text holds. A text without a document holds the null. A path through the
    document passes each token at most once for each level, which bounds the depth of the calls. -/
def read (text : String) : Except Fault Node := do
  let tokens := Token.ofText text
  match ← Tree.ofTokens tokens with
  | none => return .scalar .null
  | some t =>
    let depth := (tokens.length + 4) * (tokens.length + 4)
    let s ← fillWaiting depth depth (← make false depth t .start)
    s.build depth t

end Runbook.Yaml
