import PipelineCompiler.Keyed
import PipelineCompiler.Yaml.Lexer
import PipelineCompiler.Yaml.Node

namespace PipelineCompiler.Yaml

/-!
# From tokens to nodes

* `Reader` — the tokens that are left, the handles of tags, the nodes so far and their names;
* `Reader.node` — reads one node;
* `Document.ofText?` — the document in a text, which holds at most one.
-/

/-- What reading nodes needs to know. -/
structure Reader where
  tokens : List Token
  handles : Keyed String
  /-- The nodes by their places; a node that is being read is not there yet. -/
  nodes : Array (Option Node) := #[]
  /-- The places of the named nodes. -/
  anchors : Keyed Nat := []
  hasAliases : Bool := false
  isKnotted : Bool := false

namespace Reader

/-- The handles that need no directive. -/
def defaultHandles : Keyed String := [("!", "!"), ("!!", Tag.space)]

/-- The next token. -/
def peek (r : Reader) : Token := r.tokens.headD .streamEnd

/-- Moves behind the next token. -/
def step (r : Reader) : Reader := { r with tokens := r.tokens.tail }

/-- Whether the next token is one of these. -/
def sees (r : Reader) (tokens : List Token) : Bool := tokens.contains r.peek

/-- The fault of a token that cannot stand where it stands. -/
def faultOf : Token → Fault
  | .broken fault => fault
  | _ => .malformed

/-- Refuses the next token. -/
def refuse (r : Reader) : Except Fault α := .error (faultOf r.peek)

/-- Takes a place for a node that is read next, and names it. -/
def reserve (r : Reader) (anchor : Option String) : Nat × Reader :=
  let place := r.nodes.size
  let anchors := (anchor.map fun name => Keyed.put r.anchors name place).getD r.anchors
  (place, { r with nodes := r.nodes.push none, anchors })

/-- Puts a node at its place. -/
def fill (r : Reader) (place : Nat) (node : Node) : Reader :=
  { r with nodes := r.nodes.setIfInBounds place (some node) }

/-- Adds a node. -/
def add (r : Reader) (node : Node) : Nat × Reader :=
  (r.nodes.size, { r with nodes := r.nodes.push (some node) })

/-- Notes that the node at a place is named by an alias.  A node that is not there yet contains
    the alias. -/
def noteAlias (r : Reader) (place : Nat) : Reader :=
  { r with hasAliases := true, isKnotted := r.isKnotted || (r.nodes.getD place none).isNone }

/-- The properties of a node, in either order.  After the first of them the next token is looked
    at, and has to be one. -/
def properties (r : Reader) :
    Except Fault (Option String × Option (Option String × String) × Reader) :=
  match r.tokens with
  | .anchor anchor :: .tag handle suffix :: rest =>
    .ok (some anchor, some (handle, suffix), { r with tokens := rest })
  | .tag handle suffix :: .anchor anchor :: rest =>
    .ok (some anchor, some (handle, suffix), { r with tokens := rest })
  | .anchor _ :: .broken fault :: _ | .tag _ _ :: .broken fault :: _ => .error fault
  | .anchor anchor :: rest => .ok (some anchor, none, { r with tokens := rest })
  | .tag handle suffix :: rest => .ok (none, some (handle, suffix), { r with tokens := rest })
  | _ => .ok (none, none, r)

/-- The full tag of a node. -/
def fullTag (r : Reader) : Option (Option String × String) → Except Fault (Option String)
  | none => .ok none
  | some (none, suffix) => .ok (some suffix)
  | some (some handle, suffix) =>
    match Keyed.find? r.handles handle with
    | some expansion => .ok (some (expansion ++ suffix))
    | none => .error .malformed

/-- The type of a scalar: its tag, or else what its text looks like if it is plain. -/
def scalarTag (tag : Option String) (plain : Bool) (text : String) : Tag :=
  match tag with
  | some "!" => Tag.ofPlain text
  | some uri => Tag.ofUri uri
  | none => if plain then Tag.ofPlain text else .str

/-- The type of a sequence or mapping: its tag, or else the usual one. -/
def collectionTag (usual : Tag) : Option String → Tag
  | none | some "!" => usual
  | some uri => Tag.ofUri uri

/-- How many sequences and mappings may lie inside one another. -/
def depthLimit : Nat := 488

mutual

/-- Reads a node inside `depth` others and returns its place.  `inBlock` admits blocks, and
    `bareDashes` admits items that are not indented deeper than the key before them. -/
def node (inBlock bareDashes : Bool) (depth : Nat) :
    (fuel : Nat) → Reader → Except Fault (Nat × Reader)
  | 0, r => r.refuse
  | fuel + 1, r => do
    -- An alias stands for a node that was read; all others are made here.
    if let .alias anchor := r.peek then
      match Keyed.find? r.anchors anchor with
      | some place => pure (place, r.step.noteAlias place)
      | none => throw .malformed
    else
      let (anchor, tag, r) ← r.properties
      let tag ← r.fullTag tag
      if let .broken fault := r.peek then throw fault
      if anchor.any (Keyed.has r.anchors) then throw .malformed
      if depthLimit < depth then throw .illTyped
      -- The place comes before the content, which may refer to it.
      let (place, r) := r.reserve anchor
      let (found, r) ← content inBlock bareDashes (anchor.isSome || tag.isSome) tag (depth + 1)
        fuel r
      pure (place, r.fill place found)
termination_by structural fuel => fuel

/-- Reads a node without its properties; a node that has some may be empty. -/
def content (inBlock bareDashes hasProperties : Bool) (tag : Option String) (depth : Nat) :
    (fuel : Nat) → Reader → Except Fault (Node × Reader)
  | 0, r => r.refuse
  | fuel + 1, r => do
    match r.peek with
    | .scalar text plain =>
      pure ({ tag := scalarTag tag plain text, content := .scalar text }, r.step)
    | .bracketOpen =>
      let (items, r) ← bracketItems true depth fuel r.step
      pure ({ tag := collectionTag .seq tag, content := .sequence items }, r)
    | .braceOpen =>
      let (entries, r) ← braceEntries true depth fuel r.step
      pure ({ tag := collectionTag .map tag, content := .mapping entries }, r)
    -- Blocks are admitted in some places only, and so is an empty node.
    | token =>
      if bareDashes && token == .dash then
        let (items, r) ← bareItems depth fuel r
        pure ({ tag := collectionTag .seq tag, content := .sequence items }, r)
      else if inBlock && token == .sequenceOpen then
        let (items, r) ← blockItems depth fuel r.step
        pure ({ tag := collectionTag .seq tag, content := .sequence items }, r)
      else if inBlock && token == .mappingOpen then
        let (entries, r) ← blockEntries depth fuel r.step
        pure ({ tag := collectionTag .map tag, content := .mapping entries }, r)
      else if hasProperties then
        pure ({ tag := scalarTag tag true "", content := .scalar "" }, r)
      else r.refuse
termination_by structural fuel => fuel

/-- Reads a node, or nothing before one of the tokens `ends`. -/
def optionalNode (inBlock bareDashes : Bool) (ends : List Token) (depth : Nat) :
    (fuel : Nat) → Reader → Except Fault (Nat × Reader)
  | 0, r => r.refuse
  | fuel + 1, r =>
    if r.sees ends then .ok (r.add .empty) else node inBlock bareDashes depth fuel r
termination_by structural fuel => fuel

/-- The items of a block sequence, and the token that closes it. -/
def blockItems (depth : Nat) : (fuel : Nat) → Reader → Except Fault (List Nat × Reader)
  | 0, r => r.refuse
  | fuel + 1, r => do
    match r.peek with
    | .dash =>
      let (item, r) ← optionalNode true false [.dash, .blockClose] depth fuel r.step
      let (items, r) ← blockItems depth fuel r
      pure (item :: items, r)
    | .blockClose => pure ([], r.step)
    | _ => r.refuse
termination_by structural fuel => fuel

/-- The items of a sequence that is not indented; no token closes it. -/
def bareItems (depth : Nat) : (fuel : Nat) → Reader → Except Fault (List Nat × Reader)
  | 0, r => r.refuse
  | fuel + 1, r => do
    match r.peek with
    | .dash =>
      let (item, r) ←
        optionalNode true false [.dash, .key, .value, .blockClose] depth fuel r.step
      let (items, r) ← bareItems depth fuel r
      pure (item :: items, r)
    | _ => pure ([], r)
termination_by structural fuel => fuel

/-- The value behind a key of a block mapping, if there is one. -/
def blockValue (depth : Nat) : (fuel : Nat) → Reader → Except Fault (Nat × Reader)
  | 0, r => r.refuse
  | fuel + 1, r =>
    match r.peek with
    | .value => optionalNode true true [.key, .value, .blockClose] depth fuel r.step
    | _ => .ok (r.add .empty)
termination_by structural fuel => fuel

/-- The entries of a block mapping, and the token that closes it. -/
def blockEntries (depth : Nat) : (fuel : Nat) → Reader → Except Fault (List Entry × Reader)
  | 0, r => r.refuse
  | fuel + 1, r => do
    match r.peek with
    | .key =>
      let (key, r) ← optionalNode true true [.key, .value, .blockClose] depth fuel r.step
      let (found, r) ← blockValue depth fuel r
      let (entries, r) ← blockEntries depth fuel r
      pure ((key, found) :: entries, r)
    | .blockClose => pure ([], r.step)
    | _ => r.refuse
termination_by structural fuel => fuel

/-- The value behind a key inside brackets or braces, if there is one. -/
def flowValue (closing : Token) (depth : Nat) :
    (fuel : Nat) → Reader → Except Fault (Nat × Reader)
  | 0, r => r.refuse
  | fuel + 1, r =>
    match r.peek with
    | .value => optionalNode false false [.comma, closing] depth fuel r.step
    | _ => .ok (r.add .empty)
termination_by structural fuel => fuel

/-- The items between brackets; an item with a key is a mapping of one entry. -/
def bracketItems (first : Bool) (depth : Nat) :
    (fuel : Nat) → Reader → Except Fault (List Nat × Reader)
  | 0, r => r.refuse
  | fuel + 1, r => do
    if r.peek == .bracketClose then pure ([], r.step)
    else
      if !first && r.peek != .comma then r.refuse
      let r := if first then r else r.step
      match r.peek with
      | .key =>
        let (place, r) := r.step.reserve none
        let (key, r) ← optionalNode false false [.value, .comma, .bracketClose] (depth + 1) fuel r
        let (found, r) ← flowValue .bracketClose (depth + 1) fuel r
        let r := r.fill place { tag := .map, content := .mapping [(key, found)] }
        let (items, r) ← bracketItems false depth fuel r
        pure (place :: items, r)
      | .bracketClose => pure ([], r.step)
      | _ =>
        let (item, r) ← node false false depth fuel r
        let (items, r) ← bracketItems false depth fuel r
        pure (item :: items, r)
termination_by structural fuel => fuel

/-- The entries between braces; a node without a key mark is a key without a value. -/
def braceEntries (first : Bool) (depth : Nat) :
    (fuel : Nat) → Reader → Except Fault (List Entry × Reader)
  | 0, r => r.refuse
  | fuel + 1, r => do
    if r.peek == .braceClose then pure ([], r.step)
    else
      if !first && r.peek != .comma then r.refuse
      let r := if first then r else r.step
      match r.peek with
      | .key =>
        let (key, r) ← optionalNode false false [.value, .comma, .braceClose] depth fuel r.step
        let (found, r) ← flowValue .braceClose depth fuel r
        let (entries, r) ← braceEntries false depth fuel r
        pure ((key, found) :: entries, r)
      | .braceClose => pure ([], r.step)
      | _ =>
        let (key, r) ← node false false depth fuel r
        let (found, r) := r.add .empty
        let (entries, r) ← braceEntries false depth fuel r
        pure ((key, found) :: entries, r)
termination_by structural fuel => fuel

end

/-- Reads the directives before a document: at most one version, which is `1.x`, and no handle
    twice. -/
def directives (versioned : Bool) (handles : Keyed String) :
    List Token → Except Fault (Keyed String × List Token)
  | .version major _ :: rest =>
    if versioned || major != 1 then .error .malformed else directives true handles rest
  | .handle handle expansion :: rest =>
    if Keyed.has handles handle then .error .malformed
    else directives versioned (handles ++ [(handle, expansion)]) rest
  | .comment :: rest => directives versioned handles rest
  | rest => .ok (handles, rest)

/-- Whether a token starts or ends a document, rather than its node. -/
def isDocumentToken : Token → Bool
  | .version .. | .handle .. | .comment | .documentStart | .documentEnd | .streamEnd => true
  | _ => false

/-- Reads the node of a document that has an opening mark. -/
def markedDocument (tokens : List Token) : Except Fault Reader := do
  let (handles, tokens) ← directives false [] tokens
  let .documentStart :: tokens := tokens | throw (faultOf (tokens.headD .streamEnd))
  let r : Reader := { tokens, handles := handles ++ defaultHandles }
  if isDocumentToken r.peek then pure (r.add .empty).2
  else (node true false 0 (5 * tokens.length + 5) r).map (·.2)

/-- Reads the node of the first document. -/
def document (tokens : List Token) : Except Fault Reader :=
  match tokens.headD .streamEnd with
  | .version .. | .handle .. | .comment | .documentStart => markedDocument tokens
  | _ =>
    (node true false 0 (5 * tokens.length + 5) { tokens, handles := defaultHandles }).map (·.2)

/-- The document of the nodes that were read. -/
def result (r : Reader) : Document :=
  { nodes := r.nodes.map fun node => node.getD .empty
    hasAliases := r.hasAliases
    isKnotted := r.isKnotted }

end Reader

/-- The document in a text.  An empty text has none, and a text of several documents is
    refused. -/
def Document.ofText? (text : String) : Except Fault (Option Document) := do
  let tokens := Token.scan text
  if tokens.headD .streamEnd == .streamEnd then pure none
  else
    let r ← Reader.document tokens
    let last := (r.tokens.dropWhile (· == .documentEnd)).headD .streamEnd
    if last == .streamEnd then pure (some r.result) else throw (Reader.faultOf last)

end PipelineCompiler.Yaml
