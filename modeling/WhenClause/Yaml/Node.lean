import WhenClause.Yaml.Token

set_option autoImplicit false

/-! # Nodes of YAML

The one document of a YAML text: a tree of nodes, and the nodes that have anchors. The number of
an anchor is the number of different names that anchors had before it, so two anchors may share a
number when a name comes again. A reference takes the number that its name has where the
reference stands, and stands for the last node of the document with that number. Where a node may
be left out, an empty plain scalar stands for it. The readers carry a bound on the number of their
steps, which a multiple of the number of tokens always meets. -/

namespace WhenClause.Yaml

/-- A node. -/
inductive Node where
  | scalar (style : Style) (tag : Option (List Char)) (text : List Char)
  | sequence (items : List Node)
  | mapping (entries : List (Node × Node))
  /-- A reference to the node whose anchor has the number. -/
  | reference (number : Nat)

/-- What stands where a node is left out. -/
def Node.absent : Node := .scalar .plain none []

/-- A document. -/
structure Document where
  /-- The tree, where the text is not without any contents. -/
  root : Option Node
  /-- The nodes that have anchors, each with the number of its anchor, the last anchor first. -/
  anchors : List (Nat × Node)

/-- The node itself, or the one that a reference stands for. Anchors are never put on references,
so that this is no reference. -/
def Document.resolve (d : Document) : Node → Node
  | .reference number => (d.anchors.lookup number).getD .absent
  | n => n

/-- The tokens left, and what has been met so far. -/
structure Tree where
  tokens : List Token
  /-- The names of the anchors, each with the number of the last anchor of that name. -/
  names : List (List Char × Nat)
  /-- The anchors, the last one first. A node that is not complete is absent. -/
  anchors : List (Nat × Node)
  /-- What the handles of tags stand for that directives declared. -/
  handles : List (List Char × List Char)

/-- A reader of tokens. -/
abbrev TreeM := StateT Tree Option

namespace TreeM

def peek : TreeM (Option Token) := do return (← get).tokens.head?

def drop : TreeM Unit := modify fun t => { t with tokens := t.tokens.tail }

def expect (t : Token) : TreeM Unit := do
  if (← peek) = some t then drop else failure

/-- The next token is one of the given ones, or there is none. -/
def atAny (ts : List Token) : TreeM Bool := do
  match ← peek with
  | some t => return ts.contains t
  | none => return true

def tagName (t : Tag) : TreeM (List Char) := do
  match t.name? (← get).handles with
  | some name => return name
  | none => failure

/-- The anchor and the tag before a node, in either order. -/
def properties : TreeM (Option (List Char) × Option (List Char)) := do
  match ← peek with
  | some (.anchor a) => do
      drop
      match ← peek with
      | some (.tag t) => do drop; return (some a, some (← tagName t))
      | _ => return (some a, none)
  | some (.tag t) => do
      drop
      match ← peek with
      | some (.anchor a) => do drop; return (some a, some (← tagName t))
      | _ => return (none, some (← tagName t))
  | _ => return (none, none)

/-- An anchor is met, and the node that it is put on is read. -/
def anchored (anchor : Option (List Char)) (read : TreeM Node) : TreeM Node := do
  match anchor with
  | none => read
  | some a => do
      let t ← get
      let number := t.names.length
      set { t with
        names := (a, number) :: t.names.filter (fun e => e.1 ≠ a)
        anchors := (number, .absent) :: t.anchors }
      let n ← read
      modify fun u => { u with
        anchors := u.anchors.set (u.anchors.length - 1 - t.anchors.length) (number, n) }
      return n

def numberOf (name : List Char) : TreeM Nat := do
  match (← get).names.lookup name with
  | some number => return number
  | none => failure

mutual

/-- A node. Blocks are allowed if `block`, and items without a block of their own if `dashes`. -/
def node : Nat → Bool → Bool → TreeM Node
  | 0, _, _ => failure
  | fuel + 1, block, dashes => do
      match ← peek with
      | some (.reference a) => do
          drop
          return .reference (← numberOf a)
      | _ =>
          let (anchor, tag) ← properties
          anchored anchor do
            match ← peek with
            | some (.scalar style text) => do drop; return .scalar style tag text
            | some .flowSequenceStart => do drop; return .sequence (← flowItems fuel true)
            | some .flowMappingStart => do drop; return .mapping (← flowEntries fuel true)
            | some .sequenceStart => do
                if block then do drop; return .sequence (← blockItems fuel)
                else omitted anchor tag
            | some .mappingStart => do
                if block then do drop; return .mapping (← blockEntries fuel)
                else omitted anchor tag
            | some .entry => do
                if dashes then return .sequence (← dashedItems fuel) else omitted anchor tag
            | _ => omitted anchor tag

/-- A node of which only the properties stand there. -/
def omitted (anchor tag : Option (List Char)) : TreeM Node :=
  if anchor.isSome || tag.isSome then pure (.scalar .plain tag []) else failure

/-- A node that may be left out before the given tokens. -/
def nodeUnless : Nat → Bool → List Token → TreeM Node
  | 0, _, _ => failure
  | fuel + 1, block, ts => do
      if ← atAny ts then return .absent else node fuel block block

def blockItems : Nat → TreeM (List Node)
  | 0 => failure
  | fuel + 1 => do
      match ← peek with
      | some .entry => do
          drop
          let item ← if ← atAny [.entry, .blockEnd] then pure .absent else node fuel true false
          return item :: (← blockItems fuel)
      | some .blockEnd => do drop; return []
      | _ => failure

/-- Items that stand in the block of the key before them. -/
def dashedItems : Nat → TreeM (List Node)
  | 0 => failure
  | fuel + 1 => do
      match ← peek with
      | some .entry => do
          drop
          let item ←
            if ← atAny [.entry, .key, .value, .blockEnd] then pure .absent else node fuel true false
          return item :: (← dashedItems fuel)
      | _ => return []

def blockEntries : Nat → TreeM (List (Node × Node))
  | 0 => failure
  | fuel + 1 => do
      match ← peek with
      | some .key => do
          drop
          let k ← nodeUnless fuel true [.key, .value, .blockEnd]
          let v ←
            match ← peek with
            | some .value => do drop; nodeUnless fuel true [.key, .value, .blockEnd]
            | _ => pure .absent
          return (k, v) :: (← blockEntries fuel)
      | some .blockEnd => do drop; return []
      | _ => failure

/-- The items between flow brackets, up to the closing one. -/
def flowItems : Nat → Bool → TreeM (List Node)
  | 0, _ => failure
  | fuel + 1, first => do
      if (← peek) = some .flowSequenceEnd then do drop; return []
      else do
        if !first then expect .comma
        match ← peek with
        | some .flowSequenceEnd => do drop; return []
        | some .key => do
            drop
            let k ← pairKey fuel
            let v ←
              match ← peek with
              | some .value => do drop; nodeUnless fuel false [.comma, .flowSequenceEnd]
              | _ => pure .absent
            return .mapping [(k, v)] :: (← flowItems fuel false)
        | _ => do
            let item ← node fuel false false
            return item :: (← flowItems fuel false)

/-- The key of a pair between flow brackets. Where it is left out, the token in its place is taken
for it. -/
def pairKey : Nat → TreeM Node
  | 0 => failure
  | fuel + 1 => do
      if ← atAny [.value, .comma, .flowSequenceEnd] then do drop; return .absent
      else node fuel false false

/-- The entries between flow braces, up to the closing one. -/
def flowEntries : Nat → Bool → TreeM (List (Node × Node))
  | 0, _ => failure
  | fuel + 1, first => do
      if (← peek) = some .flowMappingEnd then do drop; return []
      else do
        if !first then expect .comma
        match ← peek with
        | some .flowMappingEnd => do drop; return []
        | some .key => do
            drop
            let k ← nodeUnless fuel false [.value, .comma, .flowMappingEnd]
            let v ←
              match ← peek with
              | some .value => do drop; nodeUnless fuel false [.comma, .flowMappingEnd]
              | _ => pure .absent
            return (k, v) :: (← flowEntries fuel false)
        | _ => do
            let k ← node fuel false false
            return (k, .absent) :: (← flowEntries fuel false)

end

/-- A directive can be followed: the version is a known one, and nothing is declared twice. -/
def followDirective (versioned : Bool) (d : Directive) : TreeM Bool := do
  match d with
  | .version major minor =>
      if versioned || major != 1 || (minor != 1 && minor != 2) then failure else return true
  | .handle name lead => do
      let t ← get
      if (t.handles.lookup name).isSome then failure
      else do
        set { t with handles := (name, lead) :: t.handles }
        return versioned

/-- Directives come before the start of a document. Is there any? -/
def directives : Nat → Bool → TreeM Bool
  | 0, _ => failure
  | fuel + 1, versioned => do
      match ← peek with
      | some (.directive d) => do
          drop
          let _ ← directives fuel (← followDirective versioned d)
          return true
      | _ => return false

/-- Markers that end a document. -/
def documentEnds : Nat → TreeM Unit
  | 0 => failure
  | fuel + 1 => do
      match ← peek with
      | some .documentEnd => do drop; documentEnds fuel
      | _ => return ()

/-- The only document, or nothing where the text has none. -/
def document (fuel : Nat) : TreeM (Option Node) := do
  match ← peek with
  | none => return none
  | _ =>
      let directed ← directives fuel false
      let root ←
        match ← peek with
        | some .documentStart => do
            drop
            match ← peek with
            | none | some (.directive _) | some .documentStart | some .documentEnd => pure .absent
            | _ => node fuel true false
        | _ => if directed then failure else node fuel true false
      documentEnds fuel
      match ← peek with
      | none => return some root
      | some _ => failure

end TreeM

/-- The document of a text, which must not have a second one. -/
def parse (s : List Char) : Option Document := do
  let tokens ← tokenize s
  let (root, tree) ← (TreeM.document (8 * tokens.length + 16)).run ⟨tokens, [], [], []⟩
  return ⟨root, tree.anchors⟩

end WhenClause.Yaml
