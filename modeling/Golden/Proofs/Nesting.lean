import Golden.Proofs.Indentation
import Golden.Proofs.Naming
import Golden.Settings.Yaml

/-!
# The nodes of indented lines

What the tokens of lines and variables are read as, and what configuration that is. The reader of
nodes has as many steps as the whole text has room for, so that a piece of the tokens is read the
same wherever it stands: four steps for each of its own tokens are enough. Scalars and mappings are
put together from that, whatever the names and values in them.

A plain word means what its field wants, and a text in double quotes means itself, be it a word for
nothing, a number or the beginning of something else.

## Main definitions

* `Yaml.Reads`, `Yaml.ReadsPairs` — tokens that are read as a node, or as the pairs of a mapping
* `Yaml.nodesOf` — the nodes of lines and variables under their names

## Main results

* `Yaml.ReadsPairs.flatMap`, `Yaml.Reads.mapping` — mappings are read
* `Yaml.contentOf?_tokensFrom` — the document of lines and variables
* `Settings.ofYaml?_toYaml` — what lines and variables mean is what stands under the names
* `Settings.ofNodes?_words` — the words for the fields and the variables mean the configuration
* `Settings.ofYaml?_eq_none` — a name that no field has is refused
-/

namespace Golden

namespace Yaml

variable {tokens keyTokens valueTokens : List Token} {node key value : Node}
  {pairs : List (Node × Node)} {n : Nat}

/-- Without an alias or properties in front, a node is what it is by itself. -/
theorem node?_eq_bare? (halias : ∀ name rest, tokens ≠ .alias name :: rest)
    (hproperties : properties tokens = (⟨none, none⟩, tokens)) (handles : List (Text × Text))
    (depth : Nat) (place : Place) (names : List (Text × Node)) :
    node? handles (depth + 1) place ⟨tokens, names⟩ =
      bare? handles depth place false none ⟨tokens, names⟩ := by
  rw [node?]
  · rw [hproperties]
    simp only [Properties.tag?, Option.bind_eq_bind, Option.bind_some, Option.isSome_none,
      Bool.or_false]
    cases bare? handles depth place false none ⟨tokens, names⟩ <;> rfl
  · exact halias

/-- Tokens that are read as a node, outside of brackets and braces and whatever follows them. Four
steps for each of the tokens are enough, as it takes four to get one mapping deeper: for the node,
for what it is, for its pairs, and for one side of a pair. -/
structure Reads (tokens : List Token) (node : Node) : Prop where
  /-- A node that begins with these is not left out. -/
  begins (more : List Token) : endsPair (tokens ++ more) = false
  node?_eq (handles : List (Text × Text)) (depth : Nat) (place : Place)
    (names : List (Text × Node)) (more : List Token) (hdepth : 4 * tokens.length ≤ depth)
    (hplace : place ≠ .flow) :
    node? handles depth place ⟨tokens ++ more, names⟩ = some (node, ⟨more, names⟩)

/-- Tokens that are read as the pairs of a mapping, up to the end of its block. -/
def ReadsPairs (tokens : List Token) (pairs : List (Node × Node)) : Prop :=
  ∀ handles depth names more, 4 * tokens.length < depth →
    blockPairs? handles depth ⟨tokens ++ .blockEnd :: more, names⟩ = some (pairs, ⟨more, names⟩)

theorem Reads.scalar (style : Style) (text : Text) :
    Reads [.scalar style text] (.scalar none style text) where
  begins _ := rfl
  node?_eq handles depth place names more hdepth _ := by
    obtain ⟨depth, rfl⟩ := Nat.exists_eq_add_of_le' (Nat.le_trans (by decide : 2 ≤ 4) hdepth)
    rw [List.singleton_append, node?_eq_bare? (by simp) rfl, bare?]
    rfl

/-- The pairs of a mapping, between the tokens of its block, are read as the mapping. -/
theorem Reads.mapping (h : ReadsPairs tokens pairs) :
    Reads (.blockMapping :: tokens ++ [.blockEnd]) (.mapping pairs) where
  begins _ := rfl
  node?_eq handles depth place names more hdepth hplace := by
    rw [List.length_append, List.length_cons, List.length_singleton] at hdepth
    obtain ⟨depth, rfl⟩ := Nat.exists_eq_add_of_le' (Nat.le_trans (by omega : 2 ≤ _) hdepth)
    have hpairs := h handles depth names more (by omega)
    rw [List.cons_append, List.cons_append, List.append_assoc, List.singleton_append,
      node?_eq_bare? (by simp) rfl, bare?]
    simp only [if_neg hplace, hpairs]
    rfl

theorem ReadsPairs.nil : ReadsPairs [] [] := by
  intro handles depth names more hdepth
  obtain ⟨depth, rfl⟩ := Nat.exists_eq_add_one_of_ne_zero (Nat.ne_zero_of_lt hdepth)
  rw [List.nil_append, blockPairs?]

theorem Reads.pairNode?_eq (h : Reads tokens node) (handles : List (Text × Text)) (depth : Nat)
    (names : List (Text × Node)) (more : List Token) (hdepth : 4 * tokens.length < depth) :
    pairNode? handles depth ⟨tokens ++ more, names⟩ = some (node, ⟨more, names⟩) := by
  obtain ⟨depth, rfl⟩ := Nat.exists_eq_add_one_of_ne_zero (Nat.ne_zero_of_lt hdepth)
  rw [pairNode?, h.begins, if_neg Bool.false_ne_true]
  exact h.node?_eq handles depth .pair names more (Nat.le_of_lt_succ hdepth) (by decide)

/-- A key and its value are read in front of further pairs. -/
theorem ReadsPairs.cons (hkey : Reads keyTokens key) (hvalue : Reads valueTokens value)
    (h : ReadsPairs tokens pairs) :
    ReadsPairs (.key :: (keyTokens ++ .value :: (valueTokens ++ tokens)))
      ((key, value) :: pairs) := by
  intro handles depth names more hdepth
  simp only [List.length_append, List.length_cons] at hdepth
  obtain ⟨depth, rfl⟩ := Nat.exists_eq_add_one_of_ne_zero (Nat.ne_zero_of_lt hdepth)
  have hfirst := hkey.pairNode?_eq handles depth names
    (.value :: (valueTokens ++ (tokens ++ .blockEnd :: more))) (by omega)
  have hsecond := hvalue.pairNode?_eq handles depth names (tokens ++ .blockEnd :: more) (by omega)
  have hothers := h handles depth names more (by omega)
  simp only [List.cons_append, List.append_assoc]
  rw [blockPairs?]
  simp only [hfirst, Option.bind_eq_bind, Option.bind_some, hsecond, hothers]
  rfl

/-- Keys and values that are read one by one are read in front of further pairs. -/
theorem ReadsPairs.flatMap {α : Type} {xs : List α} {keyTokens valueTokens : α → List Token}
    {key value : α → Node} (hkey : ∀ x ∈ xs, Reads (keyTokens x) (key x))
    (hvalue : ∀ x ∈ xs, Reads (valueTokens x) (value x)) (h : ReadsPairs tokens pairs) :
    ReadsPairs (xs.flatMap (fun x => .key :: (keyTokens x ++ .value :: valueTokens x)) ++ tokens)
      (xs.map (fun x => (key x, value x)) ++ pairs) := by
  induction xs with
  | nil => exact h
  | cons x xs ih =>
    obtain ⟨hfirst, hkey⟩ := List.forall_mem_cons.mp hkey
    obtain ⟨hsecond, hvalue⟩ := List.forall_mem_cons.mp hvalue
    simpa using ReadsPairs.cons hfirst hsecond (ih hkey hvalue)

/-! ### Lines -/

/-- The mapping of variables. -/
def block (vars : List (Text × Text)) : Node :=
  .mapping (vars.map fun v => (.scalar none .doubleQuoted v.1, .scalar none .doubleQuoted v.2))

/-- The node of the variables under their field, if there are any. -/
def envNode (vars : List (Text × Text)) : List (Settings.Field × Node) :=
  if vars = [] then [] else [(.env, block vars)]

/-- The nodes of lines and variables under their names. -/
def nodesOf (lines vars : List (Text × Text)) : List (Text × Node) :=
  lines.map (fun l => (l.1, .scalar none .plain l.2)) ++ Settings.named (envNode vars)

/-- A node under a plain name. -/
def keyed (entry : Text × Node) : Node × Node :=
  (.scalar none .plain entry.1, entry.2)

theorem reads_block (vars : List (Text × Text)) :
    Reads (.blockMapping :: vars.flatMap quotedTokens ++ [.blockEnd]) (block vars) := by
  have hvars : ReadsPairs (vars.flatMap quotedTokens ++ []) (vars.map (fun v =>
      (.scalar none .doubleQuoted v.1, .scalar none .doubleQuoted v.2)) ++ []) :=
    .flatMap (fun (v : Text × Text) _ => .scalar .doubleQuoted v.1)
      (fun v _ => .scalar .doubleQuoted v.2) .nil
  rw [List.append_nil, List.append_nil] at hvars
  exact .mapping hvars

theorem readsPairs_blockTokens (vars : List (Text × Text)) :
    ReadsPairs (blockTokens vars) ((Settings.named (envNode vars)).map keyed) := by
  rw [blockTokens, envNode]
  split
  · exact .nil
  · simpa [Settings.named, keyed] using
      ReadsPairs.cons (.scalar .plain Settings.Field.env.name) (reads_block vars) .nil

/-- The tokens between the beginning and the end of lines and variables are read as pairs. -/
theorem readsPairs_nodesOf (lines vars : List (Text × Text)) :
    ReadsPairs (lines.flatMap wordTokens ++ blockTokens vars) ((nodesOf lines vars).map keyed) := by
  have hsplit : (nodesOf lines vars).map keyed = lines.map (fun l =>
      (.scalar none .plain l.1, .scalar none .plain l.2)) ++
        (Settings.named (envNode vars)).map keyed := by
    simp [nodesOf, keyed]
  rw [hsplit]
  exact .flatMap (fun (l : Text × Text) _ => .scalar .plain l.1) (fun l _ => .scalar .plain l.2)
    (readsPairs_blockTokens vars)

/-- A block that is read is the only document. -/
theorem Reads.contentOf?_eq (h : Reads (.blockMapping :: tokens) node) :
    contentOf? (.blockMapping :: tokens) = some (.document node) := by
  have hnode := h.node?_eq ([] ++ coreHandles) _ .block [] [] (Nat.le_add_right _ 4) (by decide)
  rw [List.append_nil] at hnode
  have hdocument : documentNode? [] (.blockMapping :: tokens) = some (node, []) := by
    rw [documentNode?, hnode]
    · rfl
    all_goals simp
  simp [contentOf?, directives?, hdocument]

/-- The document of lines and variables is a mapping, unless there are none at all. -/
theorem contentOf?_tokensFrom (lines vars : List (Text × Text)) :
    contentOf? (State.tokensFrom [] lines vars) =
      some (if lines = [] ∧ vars = [] then .nothing
        else .document (.mapping ((nodesOf lines vars).map keyed))) := by
  have hopening : State.opening 0 [] = [.blockMapping] := rfl
  rw [State.tokensFrom]
  split
  · rfl
  · simpa [hopening] using (Reads.mapping (readsPairs_nodesOf lines vars)).contentOf?_eq

/-! ### Words -/

namespace Node

theorem radix?_decimal (n : Nat) : radix? (Numeral.decimal n) = none := by
  have hx : 'x' ∉ Numeral.decimal n := Numeral.not_mem_decimal rfl n
  have ho : 'o' ∉ Numeral.decimal n := Numeral.not_mem_decimal rfl n
  have hb : 'b' ∉ Numeral.decimal n := Numeral.not_mem_decimal rfl n
  -- In front of a numeral in another base stands a letter.
  rw [radix?.eq_def]
  split
  next h => simp [h] at hx
  next h => simp [h] at ho
  next h => simp [h] at hb
  · rfl

theorem numeral?_decimal (n : Nat) : numeral? (Numeral.decimal n) = some n := by
  have hsign : after? ['+'] (Numeral.decimal n) = none := after?_eq_none fun h =>
    Numeral.not_mem_decimal rfl n (List.mem_of_mem_head? h)
  have hpadded : isPadded (Numeral.decimal n) = false := by
    rw [isPadded]
    by_cases hlength : 1 < (Numeral.decimal n).length
    · simp [Numeral.head?_decimal hlength]
    · simp [hlength]
  simp [numeral?, hsign, radix?_decimal, hpadded, Numeral.natural?_decimal]

theorem nullable?_decimal (h : n ≤ Numeral.word64Max) :
    nullable? natural? (.scalar none .plain (Numeral.decimal n)) = some (some n) := by
  have hnull : isNull (Numeral.decimal n) = false := by
    rw [isNull, decide_eq_false_iff_not]
    intro hword
    simp only [List.mem_cons, List.not_mem_nil, or_false] at hword
    -- None of the words for nothing is written in digits.
    rcases hword with hword | hword | hword | hword
    · exact Numeral.not_mem_decimal (c := 'n') rfl n (by rw [hword]; decide)
    · exact Numeral.not_mem_decimal (c := 'N') rfl n (by rw [hword]; decide)
    · exact Numeral.not_mem_decimal (c := 'N') rfl n (by rw [hword]; decide)
    · exact Numeral.not_mem_decimal (c := '~') rfl n (by rw [hword]; decide)
  simp [nullable?, Numeral.decimal_ne_nil, hnull, natural?, bareText?, numeral?_decimal, h]

theorem nullable?_truthWord (b : Bool) :
    nullable? truth? (.scalar none .plain (truthWord b)) = some (some b) := by
  cases b <;> rfl

theorem optional?_decimal {limit : Option Nat} (h : ∀ n ∈ limit, n ≤ Numeral.word64Max) :
    optional? natural? ((limit.map Numeral.decimal).map (scalar none .plain)) = some limit := by
  cases limit with
  | none => rfl
  | some n => exact nullable?_decimal (h n rfl)

theorem optional?_truthWord (flag : Option Bool) :
    optional? truth? ((flag.map truthWord).map (scalar none .plain)) = some flag := by
  cases flag with
  | none => rfl
  | some b => exact nullable?_truthWord b

end Node

end Yaml

namespace Settings

open Yaml (FitsLine FitsBlock block envNode nodesOf)

variable {s : Settings} {fields : List (Field × Text)} {lines vars stored : List (Text × Text)}
  {indent : Nat}

/-- Lines and variables in YAML mean what stands under the names. -/
theorem ofYaml?_toYaml (hlines : ∀ l ∈ lines, FitsLine l) (hvars : ∀ v ∈ vars, FitsBlock v)
    (hindent : 0 < indent) :
    ofYaml? (toYaml indent lines vars) = (byName? (nodesOf lines vars)).bind ofNodes? := by
  have hnamed : ((nodesOf lines vars).map Yaml.keyed).mapM named? = some (nodesOf lines vars) := by
    apply mapM_map_eq_some
    exact fun entry => rfl
  rw [ofYaml?, Yaml.content?, Yaml.tokens?_toYaml hlines hvars hindent, Option.bind_some,
    Yaml.contentOf?_tokensFrom]
  by_cases hnone : lines = [] ∧ vars = []
  · rw [if_pos hnone, hnone.1, hnone.2]
    rfl
  · rw [if_neg hnone]
    exact congrArg (Option.bind · fun values => (byName? values).bind ofNodes?) hnamed

theorem nodup_words_append (h : fields.Perm s.words) (vars : List (Text × Text))
    (f : Text → Yaml.Node) :
    ((fields.map (fun field => (field.1, f field.2)) ++ envNode vars).map Prod.fst).Nodup := by
  have hperm : ((fields.map (fun field => (field.1, f field.2)) ++ envNode vars).map Prod.fst).Perm
      (s.words.map Prod.fst ++ (envNode vars).map Prod.fst) := by
    rw [List.map_append, List.map_map]
    exact (h.map Prod.fst).append_right _
  rw [hperm.nodup_iff, envNode]
  obtain ⟨timeout, mergeStderr, inheritEnv, env⟩ := s
  split <;> cases timeout <;> cases mergeStderr <;> cases inheritEnv <;> simp [words]

theorem variables?_block (vars : List (Text × Text)) :
    Yaml.Node.variables? (block vars) = some (Variables.ofList vars) := by
  have hpairs : (vars.map fun v : Text × Text =>
      (Yaml.Node.scalar none .doubleQuoted v.1, Yaml.Node.scalar none .doubleQuoted v.2)).mapM
        Yaml.Node.pairText? = some vars := by
    apply mapM_map_eq_some
    exact fun v => rfl
  rw [block, Yaml.Node.variables?, hpairs]
  rfl

theorem lookup_envNode_of_ne (vars : List (Text × Text)) {field : Field} (h : field ≠ .env) :
    (envNode vars).lookup field = none := by
  have hne : (field == .env) = false := beq_false_of_ne h
  rw [envNode]
  split
  · rfl
  · rw [List.lookup_cons, hne]
    rfl

theorem variables?_envNode (vars : List (Text × Text)) :
    (((envNode vars).lookup .env).map Yaml.Node.variables?).getD (some .empty) =
      some (Variables.ofList vars) := by
  rw [envNode]
  split
  next h =>
    rw [h]
    rfl
  · exact variables?_block vars

/-- What stands under the fields and above the variables means the configuration. -/
theorem ofNodes?_words (h : fields.Perm s.words) (hstored : stored.Perm s.env.entries)
    (htimeout : ∀ n ∈ s.timeout, n ≤ Numeral.word64Max) :
    (byName? (nodesOf (named fields) stored)).bind ofNodes? = some s := by
  have hnodes : nodesOf (named fields) stored =
      named (fields.map (fun f => (f.1, .scalar none .plain f.2)) ++ envNode stored) := by
    simp [nodesOf, named]
  obtain ⟨htimeoutWord, hmergeWord, hinheritWord, henvWord⟩ := lookup_words h
  rw [hnodes, byName?_named (nodup_words_append h stored _), Option.bind_some, ofNodes?]
  simp only [List.lookup_append, lookup_map]
  rw [htimeoutWord, hmergeWord, hinheritWord, henvWord, lookup_envNode_of_ne stored (by decide),
    lookup_envNode_of_ne stored (by decide), lookup_envNode_of_ne stored (by decide),
    Option.or_none, Option.or_none, Option.or_none, Option.map_none, Option.none_or,
    Yaml.Node.optional?_decimal htimeout, Yaml.Node.optional?_truthWord,
    Yaml.Node.optional?_truthWord, variables?_envNode, Variables.ofList_eq_of_perm hstored]
  rfl

/-- A line whose name is that of no field is refused, wherever it stands. -/
theorem ofYaml?_eq_none {above below : List (Text × Text)} {line : Text × Text}
    (habove : ∀ l ∈ above, FitsLine l) (hbelow : ∀ l ∈ below, FitsLine l)
    (hvars : ∀ v ∈ vars, FitsBlock v) (hindent : 0 < indent) (hword : line.1.IsWord)
    (hvalue : line.2.IsWord) (hname : Field.ofName? line.1 = none) :
    ofYaml? (toYaml indent (above ++ line :: below) vars) = none := by
  by_cases hlong : Yaml.State.maxKey < line.1.length
  · -- A longer name is no key, so that the text has no tokens.
    have htokens := Yaml.tokens?_eq_none_of_long habove hbelow hvars hword hvalue hlong indent
    rw [ofYaml?, Yaml.content?, htokens]
    rfl
  · have hline : FitsLine line := ⟨hword, hvalue, Nat.le_of_not_lt hlong⟩
    have hlines := List.forall_mem_append.mpr ⟨habove, List.forall_mem_cons.mpr ⟨hline, hbelow⟩⟩
    rw [ofYaml?_toYaml hlines hvars hindent, byName?_eq_none hname (by simp [nodesOf]),
      Option.bind_none]

end Settings

end Golden
