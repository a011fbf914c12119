import Golden.Yaml.Lexer

/-!
# YAML nodes

The document that the tokens of a text describe. An alias stands for the node that was last given
its name, so a document holds no names; a scalar that is left out is a plain one without text.

## Main definitions

* `Yaml.Node` — a scalar, a sequence or a mapping
* `Yaml.Feed` — the tokens that are left, and the nodes that have a name
* `Yaml.node?` — the node at the beginning of some tokens
* `Yaml.Content` — a stream without a document, or the node of its only one
* `Yaml.content?` — the content of a text
-/

namespace Golden.Yaml

/-- A node of a document. -/
inductive Node where
  | scalar (tag : Option Text) (style : Style) (text : Text)
  | sequence (items : List Node)
  | mapping (pairs : List (Node × Node))

namespace Node

/-- A scalar that is left out. -/
def missing : Node := scalar none .plain []

/-- What every tag of the language itself begins with. -/
def coreTag : Text := "tag:yaml.org,2002:".toList

end Node

/-- The tokens that are left, and the nodes that have a name, latest first. -/
structure Feed where
  tokens : List Token
  names : List (Text × Node)

/-- The feed behind a node that has a name; `outer` are the names that were given in front of the
node. A name counts from the beginning of its node, so those given inside of the node are later. -/
def Feed.define (feed : Feed) (outer : List (Text × Node)) (name : Text) (node : Node) : Feed :=
  let inner := feed.names.take (feed.names.length - outer.length)
  { feed with names := inner ++ (name, node) :: outer }

/-- Where a node stands, which decides what blocks it may open. -/
inductive Place where
  /-- Inside brackets or braces: none. -/
  | flow
  /-- In a document or a sequence: those that are indented further. -/
  | block
  /-- Behind a key or its colon: also a sequence that is not indented. -/
  | pair
  deriving DecidableEq

/-- The anchor and the tag in front of a node. -/
structure Properties where
  anchor : Option Text
  tag : Option (Text × Text)

/-- The properties at the beginning of some tokens, in either order, and the tokens behind them. -/
def properties : List Token → Properties × List Token
  | .anchor a :: .tag h t :: rest => (⟨some a, some (h, t)⟩, rest)
  | .tag h t :: .anchor a :: rest => (⟨some a, some (h, t)⟩, rest)
  | .anchor a :: rest => (⟨some a, none⟩, rest)
  | .tag h t :: rest => (⟨none, some (h, t)⟩, rest)
  | rest => (⟨none, none⟩, rest)

/-- The tag that a handle and a suffix stand for; the handle has to be known. -/
def tagOf? (handles : List (Text × Text)) (h suffix : Text) : Option Text :=
  if h = [] then some suffix else (handles.lookup h).map (· ++ suffix)

/-- The tag of the properties of a node, if it has one; its handle has to be known. -/
def Properties.tag? (handles : List (Text × Text)) (p : Properties) : Option (Option Text) :=
  match p.tag with
  | none => some none
  | some (h, suffix) => (tagOf? handles h suffix).map some

/-- The scalar with a tag; the tag of a single exclamation mark says nothing. -/
def scalarOf (tag : Option Text) (style : Style) (text : Text) : Node :=
  .scalar (tag.filter (· != ['!'])) style text

/-- Whether some tokens begin with something that leaves out the scalar in front of it. -/
def endsPair : List Token → Bool
  | .key :: _ | .value :: _ | .blockEnd :: _ | [] => true
  | _ => false

/-- The same inside of brackets and braces. -/
def endsFlow (close : Token) : List Token → Bool
  | .value :: _ | .flowEntry :: _ | [] => true
  | t :: _ => t == close

mutual

/-- The node at the beginning of the tokens. The first argument bounds the depth of the search. -/
def node? (handles : List (Text × Text)) : Nat → Place → Feed → Option (Node × Feed)
  | 0, _, _ => none
  | _ + 1, _, ⟨.alias name :: rest, names⟩ => do
    return (← names.lookup name, ⟨rest, names⟩)
  | depth + 1, place, ⟨tokens, names⟩ => do
    let (p, rest) := properties tokens
    let tag ← p.tag? handles
    let (node, feed) ← bare? handles depth place (p.anchor.isSome || tag.isSome) tag ⟨rest, names⟩
    match p.anchor with
    | none => return (node, feed)
    | some name => return (node, feed.define names name node)

/-- The node at the beginning of the tokens behind its properties; it may be left out if it has
any. -/
def bare? (handles : List (Text × Text)) :
    Nat → Place → Bool → Option Text → Feed → Option (Node × Feed)
  | 0, _, _, _, _ => none
  | depth + 1, place, hasProperties, tag, feed =>
    match feed.tokens with
    | .scalar style text :: rest => some (scalarOf tag style text, { feed with tokens := rest })
    | .flowSequence :: rest => do
      let (items, feed) ← flowItems? handles depth true { feed with tokens := rest }
      return (.sequence items, feed)
    | .flowMapping :: rest => do
      let (pairs, feed) ← flowPairs? handles depth true { feed with tokens := rest }
      return (.mapping pairs, feed)
    | .blockSequence :: rest =>
      if place = .flow then none
      else do
        let (items, feed) ← blockItems? handles depth { feed with tokens := rest }
        return (.sequence items, feed)
    | .blockMapping :: rest =>
      if place = .flow then none
      else do
        let (pairs, feed) ← blockPairs? handles depth { feed with tokens := rest }
        return (.mapping pairs, feed)
    | .blockEntry :: _ =>
      if place = .pair then do
        let (items, feed) ← looseItems? handles depth feed
        return (.sequence items, feed)
      else if hasProperties then some (scalarOf tag .plain [], feed)
      else none
    | _ => if hasProperties then some (scalarOf tag .plain [], feed) else none

/-- The items of an indented sequence, up to its end. -/
def blockItems? (handles : List (Text × Text)) : Nat → Feed → Option (List Node × Feed)
  | 0, _ => none
  | depth + 1, feed =>
    match feed.tokens with
    | .blockEnd :: rest => some ([], { feed with tokens := rest })
    | .blockEntry :: rest => do
      let (item, feed) ←
        match rest with
        | .blockEntry :: _ | .blockEnd :: _ => some (.missing, { feed with tokens := rest })
        | _ => node? handles depth .block { feed with tokens := rest }
      let (items, feed) ← blockItems? handles depth feed
      return (item :: items, feed)
    | _ => none

/-- The items of a sequence that is not indented; it has no end of its own. -/
def looseItems? (handles : List (Text × Text)) : Nat → Feed → Option (List Node × Feed)
  | 0, _ => none
  | depth + 1, feed =>
    match feed.tokens with
    | .blockEntry :: rest => do
      let (item, feed) ←
        match rest with
        | .blockEntry :: _ | .key :: _ | .value :: _ | .blockEnd :: _ =>
          some (.missing, { feed with tokens := rest })
        | _ => node? handles depth .block { feed with tokens := rest }
      let (items, feed) ← looseItems? handles depth feed
      return (item :: items, feed)
    | _ => some ([], feed)

/-- A node behind a key or its colon in a block, which may be left out. -/
def pairNode? (handles : List (Text × Text)) : Nat → Feed → Option (Node × Feed)
  | 0, _ => none
  | depth + 1, feed =>
    if endsPair feed.tokens then some (.missing, feed) else node? handles depth .pair feed

/-- The pairs of a mapping, up to its end. -/
def blockPairs? (handles : List (Text × Text)) : Nat → Feed → Option (List (Node × Node) × Feed)
  | 0, _ => none
  | depth + 1, feed =>
    match feed.tokens with
    | .blockEnd :: rest => some ([], { feed with tokens := rest })
    | .key :: rest => do
      let (key, feed) ← pairNode? handles depth { feed with tokens := rest }
      let (value, feed) ←
        match feed.tokens with
        | .value :: rest => pairNode? handles depth { feed with tokens := rest }
        | _ => some (.missing, feed)
      let (pairs, feed) ← blockPairs? handles depth feed
      return ((key, value) :: pairs, feed)
    | _ => none

/-- A node inside of brackets or braces, which may be left out. -/
def flowNode? (handles : List (Text × Text)) (close : Token) : Nat → Feed → Option (Node × Feed)
  | 0, _ => none
  | depth + 1, feed =>
    if endsFlow close feed.tokens then some (.missing, feed) else node? handles depth .flow feed

/-- The value behind a key inside of brackets or braces; without a colon it is left out. -/
def flowValue? (handles : List (Text × Text)) (close : Token) : Nat → Feed → Option (Node × Feed)
  | 0, _ => none
  | depth + 1, feed =>
    match feed.tokens with
    | .value :: .value :: _ => none
    | .value :: rest => flowNode? handles close depth { feed with tokens := rest }
    | _ => some (.missing, feed)

/-- The items between brackets, up to the closing one; all but the first follow a comma. -/
def flowItems? (handles : List (Text × Text)) : Nat → Bool → Feed → Option (List Node × Feed)
  | 0, _, _ => none
  | depth + 1, first, feed => do
    let tokens ←
      match first, feed.tokens with
      | false, .flowEntry :: rest => some rest
      | false, .flowSequenceEnd :: _ => some feed.tokens
      | false, _ => none
      | true, tokens => some tokens
    match tokens with
    | .flowSequenceEnd :: rest => return ([], { feed with tokens := rest })
    | .key :: rest =>
      let (key, feed) ← flowNode? handles .flowSequenceEnd depth { feed with tokens := rest }
      let (value, feed) ← flowValue? handles .flowSequenceEnd depth feed
      let (items, feed) ← flowItems? handles depth false feed
      return (.mapping [(key, value)] :: items, feed)
    | _ =>
      let (item, feed) ← node? handles depth .flow { feed with tokens := tokens }
      let (items, feed) ← flowItems? handles depth false feed
      return (item :: items, feed)

/-- The pairs between braces, up to the closing one; all but the first follow a comma. -/
def flowPairs? (handles : List (Text × Text)) :
    Nat → Bool → Feed → Option (List (Node × Node) × Feed)
  | 0, _, _ => none
  | depth + 1, first, feed => do
    let tokens ←
      match first, feed.tokens with
      | false, .flowEntry :: rest => some rest
      | false, .flowMappingEnd :: _ => some feed.tokens
      | false, _ => none
      | true, tokens => some tokens
    match tokens with
    | .flowMappingEnd :: rest => return ([], { feed with tokens := rest })
    | .key :: rest =>
      let (key, feed) ← flowNode? handles .flowMappingEnd depth { feed with tokens := rest }
      let (value, feed) ← flowValue? handles .flowMappingEnd depth feed
      let (pairs, feed) ← flowPairs? handles depth false feed
      return ((key, value) :: pairs, feed)
    | _ =>
      let (key, feed) ← node? handles depth .flow { feed with tokens := tokens }
      let (pairs, feed) ← flowPairs? handles depth false feed
      return ((key, .missing) :: pairs, feed)

end

/-- The directives at the beginning of a stream, and the tokens behind them: at most one version,
and each handle once. -/
def directives? (version : Bool) (handles : List (Text × Text)) :
    List Token → Option (Bool × List (Text × Text) × List Token)
  | .version major minor :: rest =>
    if version || major ≠ 1 || (minor ≠ 1 && minor ≠ 2) then none
    else directives? true handles rest
  | .handle name uri :: rest =>
    if (handles.lookup name).isSome then none
    else directives? version ((name, uri) :: handles) rest
  | rest => some (version, handles, rest)

/-- The handles that are known without a directive. -/
def coreHandles : List (Text × Text) :=
  [(['!'], ['!']), (['!', '!'], Node.coreTag)]

/-- What a stream holds. -/
inductive Content where
  /-- No document at all. -/
  | nothing
  /-- One document. -/
  | document (node : Node)

/-- The node of a document behind its beginning; the document may be empty. -/
def documentNode? (handles : List (Text × Text)) (tokens : List Token) :
    Option (Node × List Token) :=
  match tokens with
  | [] | .version _ _ :: _ | .handle _ _ :: _ | .documentStart :: _ | .documentEnd :: _ =>
    some (.missing, tokens)
  | _ =>
    (node? (handles ++ coreHandles) (4 * tokens.length + 4) .block ⟨tokens, []⟩).map
      fun r => (r.1, r.2.tokens)

/-- The content of a stream, which holds at most one document. -/
def contentOf? (tokens : List Token) : Option Content := do
  if tokens = [] then return .nothing
  let (version, handles, rest) ← directives? false [] tokens
  let (node, rest) ←
    match rest with
    | .documentStart :: rest => documentNode? handles rest
    | rest =>
      if version || !handles.isEmpty then none
      else if rest.head? = some .documentEnd then none
      else documentNode? handles rest
  if rest.all (· == .documentEnd) then some (.document node) else none

/-- The content of a text. -/
def content? (text : Text) : Option Content :=
  (tokens? text).bind contentOf?

end Golden.Yaml
