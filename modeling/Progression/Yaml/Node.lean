import Progression.Yaml.Token

/-!
A YAML document as a tree. Anchors are numbers: every anchored node has one, and an alias
keeps the number that its name had when it was met.
-/

namespace Progression.Yaml

inductive Node
  | scalar (tag : Option String) (text : String) (plain : Bool)
  | sequence (tag : Option String) (items : List Node)
  | mapping (tag : Option String) (entries : List (Node × Node))
  | anchored (id : Nat) (node : Node)
  | alias (id : Nat)
  deriving Repr, Inhabited

namespace Node

def empty : Node := scalar none "" true

/-- Collections that may sit inside each other. -/
def maxDepth : Nat := 128

/-- What is left to be read. -/
structure Feed where
  tokens : List Token
  /-- What tag handles stand for. -/
  handles : List (String × String)
  /-- The number that each name has now. -/
  anchors : List (String × Nat) := []

namespace Feed

def advance (f : Feed) : Feed :=
  { f with tokens := f.tokens.tail }

def head? (f : Feed) : Option Token :=
  f.tokens.head?

/-- Gives a name the number of names before it. A name that is used again gets a new
number, which may be that of another name. -/
def addAnchor (f : Feed) (name : String) : Feed × Nat :=
  let id := f.anchors.length
  ({ f with anchors := (name, id) :: f.anchors.filter (·.1 != name) }, id)

def anchor? (f : Feed) (name : String) : Option Nat :=
  (f.anchors.find? (·.1 == name)).map (·.2)

/-- The tag that a handle and a suffix stand for. -/
def tag? (f : Feed) (handle suffix : String) : Option String :=
  if handle.isEmpty then some suffix
  else (f.handles.find? (·.1 == handle)).map fun h => h.2 ++ suffix

end Feed

/-- What may stand before a node: an anchor, a tag, or both in either order. -/
structure Properties where
  anchor : Option String := none
  tag : Option String := none

def properties? (f : Feed) : Option (Properties × Feed) :=
  match f.tokens with
  | .anchor a :: .tag h s :: rest =>
    (f.tag? h s).map fun t => (⟨some a, some t⟩, { f with tokens := rest })
  | .tag h s :: .anchor a :: rest =>
    (f.tag? h s).map fun t => (⟨some a, some t⟩, { f with tokens := rest })
  | .anchor a :: rest => some (⟨some a, none⟩, { f with tokens := rest })
  | .tag h s :: rest => (f.tag? h s).map fun t => (⟨none, some t⟩, { f with tokens := rest })
  | _ => some ({}, f)

def atKeyOrEnd : List Token → Bool
  | .key :: _ | .value :: _ | .blockEnd :: _ => true
  | _ => false

def atHyphenOrEnd : List Token → Bool
  | .hyphen :: _ | .blockEnd :: _ => true
  | _ => false

def atHyphenOrKey : List Token → Bool
  | .hyphen :: _ | .key :: _ | .value :: _ | .blockEnd :: _ => true
  | _ => false

def atCommaOrBracket : List Token → Bool
  | .comma :: _ | .closeBracket :: _ => true
  | _ => false

def atCommaOrBrace : List Token → Bool
  | .comma :: _ | .closeBrace :: _ => true
  | _ => false

mutual

/-- A node inside `level` collections. In a block, block collections may follow; a sequence
that is a value there need not be indented. Four times as much fuel as there are tokens is
enough, here and below. -/
def node? (block hyphens : Bool) (level : Nat) : Nat → Feed → Option (Node × Feed)
  | 0, _ => none
  | fuel + 1, f =>
    match f.tokens with
    | .alias name :: _ => (f.anchor? name).map fun id => (.alias id, f.advance)
    | _ =>
      match if maxDepth < level then none else properties? f with
      | none => none
      | some (p, f) =>
        let (f, id) := match p.anchor with
          | some name => let (f, id) := f.addAnchor name; (f, some id)
          | none => (f, none)
        let named (n : Node) : Node := match id with
          | some id => .anchored id n
          | none => n
        let inside (read : Option (Node × Feed)) : Option (Node × Feed) :=
          read.map fun (n, f) => (named n, f)
        match f.head? with
        | some (.scalar text plain) =>
          some (named (.scalar p.tag text plain), f.advance)
        | some .hyphen =>
          if hyphens then inside (looseItems? p.tag (level + 1) [] fuel f)
          else if p.anchor.isSome || p.tag.isSome then some (named (.scalar p.tag "" true), f)
          else none
        | some .openBracket => inside (bracketItems? p.tag (level + 1) [] fuel f.advance)
        | some .openBrace => inside (braceEntries? p.tag (level + 1) [] fuel f.advance)
        | t =>
          match block, t with
          | true, some .blockSequence => inside (blockItems? p.tag (level + 1) [] fuel f.advance)
          | true, some .blockMapping => inside (blockEntries? p.tag (level + 1) [] fuel f.advance)
          | _, _ =>
            if p.anchor.isSome || p.tag.isSome then some (named (.scalar p.tag "" true), f)
            else none
termination_by structural fuel => fuel

/-- The items of an indented sequence; here and below the parts so far come newest first. -/
def blockItems? (tag : Option String) (level : Nat) (items : List Node) :
    Nat → Feed → Option (Node × Feed)
  | 0, _ => none
  | fuel + 1, f =>
    match f.head? with
    | some .hyphen =>
      let f := f.advance
      if atHyphenOrEnd f.tokens then blockItems? tag level (empty :: items) fuel f
      else
        match node? true false level fuel f with
        | some (n, f) => blockItems? tag level (n :: items) fuel f
        | none => none
    | some .blockEnd => some (.sequence tag items.reverse, f.advance)
    | _ => none
termination_by structural fuel => fuel

/-- The items of a sequence that is not indented. -/
def looseItems? (tag : Option String) (level : Nat) (items : List Node) :
    Nat → Feed → Option (Node × Feed)
  | 0, _ => none
  | fuel + 1, f =>
    match f.head? with
    | some .hyphen =>
      let f := f.advance
      if atHyphenOrKey f.tokens then looseItems? tag level (empty :: items) fuel f
      else
        match node? true false level fuel f with
        | some (n, f) => looseItems? tag level (n :: items) fuel f
        | none => none
    | _ => some (.sequence tag items.reverse, f)
termination_by structural fuel => fuel

/-- The entries of a mapping in a block. -/
def blockEntries? (tag : Option String) (level : Nat) (entries : List (Node × Node)) :
    Nat → Feed → Option (Node × Feed)
  | 0, _ => none
  | fuel + 1, f =>
    match f.head? with
    | some .key =>
      let f := f.advance
      match if atKeyOrEnd f.tokens then some (empty, f) else node? true true level fuel f with
      | none => none
      | some (k, f) =>
        match f.head? with
        | some .value =>
          let f := f.advance
          match if atKeyOrEnd f.tokens then some (empty, f) else node? true true level fuel f with
          | some (v, f) => blockEntries? tag level ((k, v) :: entries) fuel f
          | none => none
        | _ => blockEntries? tag level ((k, empty) :: entries) fuel f
    | some .blockEnd => some (.mapping tag entries.reverse, f.advance)
    | _ => none
termination_by structural fuel => fuel

/-- The items of a sequence in brackets, from the start of an item on. -/
def bracketItems? (tag : Option String) (level : Nat) (items : List Node) :
    Nat → Feed → Option (Node × Feed)
  | 0, _ => none
  | fuel + 1, f =>
    if f.head? matches some .closeBracket then some (.sequence tag items.reverse, f.advance)
    else
      match if f.head? matches some .key then bracketPair? (level + 1) fuel f.advance
        else node? false false level fuel f with
      | none => none
      | some (n, f) =>
        match f.head? with
        | some .comma => bracketItems? tag level (n :: items) fuel f.advance
        | some .closeBracket => some (.sequence tag (n :: items).reverse, f.advance)
        | _ => none
termination_by structural fuel => fuel

/-- A mapping of one entry that stands in brackets without braces of its own. A key that is
left out takes the token after it along. -/
def bracketPair? (level : Nat) : Nat → Feed → Option (Node × Feed)
  | 0, _ => none
  | fuel + 1, f =>
    match if f.head? matches some .value || atCommaOrBracket f.tokens then some (empty, f.advance)
      else node? false false level fuel f with
    | none => none
    | some (k, f) =>
      match f.head? with
      | some .value =>
        let f := f.advance
        match if atCommaOrBracket f.tokens then some (empty, f)
          else node? false false level fuel f with
        | some (v, f) => some (.mapping none [(k, v)], f)
        | none => none
      | _ => some (.mapping none [(k, empty)], f)
termination_by structural fuel => fuel

/-- The entries of a mapping in braces, from the start of an entry on. -/
def braceEntries? (tag : Option String) (level : Nat) (entries : List (Node × Node)) :
    Nat → Feed → Option (Node × Feed)
  | 0, _ => none
  | fuel + 1, f =>
    if f.head? matches some .closeBrace then some (.mapping tag entries.reverse, f.advance)
    else
      match bracePair? level fuel f with
      | none => none
      | some (e, f) =>
        match f.head? with
        | some .comma => braceEntries? tag level (e :: entries) fuel f.advance
        | some .closeBrace => some (.mapping tag (e :: entries).reverse, f.advance)
        | _ => none
termination_by structural fuel => fuel

/-- One entry in braces. Without a sign of a key it has no value. -/
def bracePair? (level : Nat) : Nat → Feed → Option ((Node × Node) × Feed)
  | 0, _ => none
  | fuel + 1, f =>
    if f.head? matches some .key then
      let f := f.advance
      match if f.head? matches some .value || atCommaOrBrace f.tokens then some (empty, f)
        else node? false false level fuel f with
      | none => none
      | some (k, f) =>
        match f.head? with
        | some .value =>
          let f := f.advance
          match if atCommaOrBrace f.tokens then some (empty, f)
            else node? false false level fuel f with
          | some (v, f) => some ((k, v), f)
          | none => none
        | _ => some ((k, empty), f)
    else (node? false false level fuel f).map fun (k, f) => ((k, empty), f)
termination_by structural fuel => fuel

end

/-! ### Documents -/

/-- The handles that need no directive. -/
def commonHandles : List (String × String) :=
  [("!", "!"), ("!!", "tag:yaml.org,2002:")]

/-- Reads the directives in front of a document. Only two versions are known, and nothing is
said twice. -/
def directives? (versioned : Bool) (handles : List (String × String)) :
    List Token → Option (List (String × String) × List Token)
  | .version major minor :: ts =>
    if versioned || major != 1 || (minor != 1 && minor != 2) then none
    else directives? true handles ts
  | .tagHandle handle start :: ts =>
    if handles.any (·.1 == handle) then none
    else directives? versioned (handles ++ [(handle, start)]) ts
  | ts => some (handles ++ commonHandles, ts)

def startsDocument : List Token → Bool
  | .version _ _ :: _ | .tagHandle _ _ :: _ | .documentStart :: _ => true
  | _ => false

def isDocumentEnd : Token → Bool
  | .documentEnd => true
  | _ => false

/-- The root of the only document of a text; nothing at all is a document too. -/
def ofTokens? (tokens : List Token) : Option Node := do
  let fuel := 4 * tokens.length + 4
  let (root, rest) ←
    if tokens.isEmpty then some (empty, tokens)
    else if startsDocument tokens then do
      let (handles, tokens) ← directives? false [] tokens
      match tokens with
      | .documentStart :: tokens =>
        if tokens.isEmpty || startsDocument tokens || tokens.head?.any isDocumentEnd then
          some (empty, tokens)
        else (node? true false 0 fuel { tokens, handles }).map fun (n, f) => (n, f.tokens)
      | _ => none
    else
      (node? true false 0 fuel { tokens, handles := commonHandles }).map fun (n, f) =>
        (n, f.tokens)
  if rest.all isDocumentEnd then some root else none

end Node

end Progression.Yaml
