import ScriptEngine.Proofs.Tree.Grouped

/-!
# Reading lists back

Calls, sequences, arrays and objects are lists with commas between their items. Each item is read up
to the comma or the closing bracket behind it (`yields_commaList`), and the nodes of the items are
built into what they were rendered from.
-/
namespace ScriptEngine.Script

section

variable {source text rest more : List Char} {e : Expression} {r : Rule}

/-! ## Lists -/

theorem commas_cons {α : Type} (text : α → List Char) (x : α) (xs : List α) :
    commas ((x :: xs).map text) = text x ++ xs.flatMap fun y => ',' :: text y := by
  induction xs generalizing x with
  | nil => simp [commas]
  | cons y ys ih =>
    have later := ih y
    simp only [commas, List.map_cons, List.flatMap_cons] at later ⊢
    rw [List.intercalate_cons_cons, later, List.append_assoc]
    rfl

/-- What follows an item of a list begins with a comma or the closing bracket. -/
theorem behind_item {α : Type} (text : α → List Char) (close : Char) (more : List Char)
    (xs : List α) : ∃ c ∈ [',', close], ∃ rest,
      (xs.flatMap fun x => ',' :: text x) ++ close :: more = c :: rest := by
  cases xs with
  | nil => exact ⟨close, by simp, more, rfl⟩
  | cons x xs => exact ⟨',', by simp, _, rfl⟩

/-- No white space stands in front of a list if it does not stand in front of an item. -/
theorem skips_gap_commas {α : Type} {text : α → List Char} {x : α} (close : Char) (xs : List α)
    (begins : ∀ c ∈ [',', close], ∀ more,
      grammar.Skips gap (text x ++ c :: more) (text x ++ c :: more)) (more : List Char) :
    grammar.Skips gap (commas ((x :: xs).map text) ++ close :: more)
      (commas ((x :: xs).map text) ++ close :: more) := by
  obtain ⟨c, mem, rest, eq⟩ := behind_item text close more xs
  rw [commas_cons, List.append_assoc, eq]
  exact begins c mem rest

/-- Items with commas between them, each of which makes one node, up to a closing bracket. -/
theorem yields_commaList {α : Type} {item : Part} {text : α → List Char} (close : Char)
    (made : α → Node Rule → Prop)
    (closes : grammar.foresee false 200 (gap ++ sign ",") [close] = .fails) (more : List Char)
    {xs : List α} (some : xs ≠ [])
    (begins : ∀ x ∈ xs, ∀ c ∈ [',', close], ∀ more,
      grammar.Skips gap (text x ++ c :: more) (text x ++ c :: more))
    (each : ∀ x ∈ xs, ∀ c ∈ [',', close], ∀ more,
      grammar.Yields item (text x ++ c :: more) (c :: more) fun nodes =>
        ∃ node, nodes = [node] ∧ made x node) :
    grammar.Yields (commaList item) (commas (xs.map text) ++ close :: more) (close :: more)
      (List.Forall₂ made xs) := by
  have tail (xs : List α)
      (begins : ∀ x ∈ xs, ∀ c ∈ [',', close], ∀ more,
        grammar.Skips gap (text x ++ c :: more) (text x ++ c :: more))
      (each : ∀ x ∈ xs, ∀ c ∈ [',', close], ∀ more,
        grammar.Yields item (text x ++ c :: more) (c :: more) fun nodes =>
          ∃ node, nodes = [node] ∧ made x node) :
      grammar.Yields (.many (gap ++ sign "," ++ gap ++ item))
        ((xs.flatMap fun y => ',' :: text y) ++ close :: more) (close :: more)
        (List.Forall₂ made xs) := by
    induction xs with
    | nil =>
      have ends : grammar.Refuses (gap ++ sign ",") (close :: more) :=
        Grammar.refuses_of_foresee [close] closes
      refine ends.seq.seq.many.mono ?_
      rintro _ rfl
      exact .nil
    | cons y ys ih =>
      obtain ⟨c, mem, rest, eq⟩ := behind_item text close more ys
      have later := ih (fun x mem => begins x (List.mem_cons_of_mem _ mem))
        (fun x mem => each x (List.mem_cons_of_mem _ mem))
      rw [eq] at later
      rw [List.flatMap_cons, List.append_assoc, eq]
      have comma := ((skips_gap_of_foresee (c := ',') (by decide) _).skip
        (Grammar.skips_text [','] _)).skip (begins y List.mem_cons_self c mem rest)
      have round := Grammar.Skips.seq comma (each y List.mem_cons_self c mem rest)
      refine (round.many ?_ later).mono ?_
      · show (c :: rest).length < (',' :: (text y ++ c :: rest)).length
        simp only [List.length_cons, List.length_append]
        omega
      · rintro _ ⟨_, _, ⟨node, rfl, known⟩, others, rfl⟩
        exact .cons known others
  cases xs with
  | nil => exact absurd rfl some
  | cons x xs =>
    obtain ⟨c, mem, rest, eq⟩ := behind_item text close more xs
    have later := tail xs (fun y mem => begins y (List.mem_cons_of_mem _ mem))
      (fun y mem => each y (List.mem_cons_of_mem _ mem))
    rw [eq] at later
    rw [commas_cons, List.append_assoc, eq]
    refine ((each x List.mem_cons_self c mem rest).seq later).mono ?_
    rintro _ ⟨_, _, ⟨node, rfl, known⟩, others, rfl⟩
    exact .cons known others

/-- The node is built into an expression of the same shape. -/
def Builds (source : List Char) (e : Expression) (node : Node Rule) : Prop :=
  ∃ built, buildExpression source node = pure built ∧ built.shape = e.shape

theorem buildExpressions_of_builds {es : List Expression} {nodes : List (Node Rule)}
    (each : List.Forall₂ (Builds source) es nodes) :
    ∃ built, buildExpressions source nodes = pure built ∧
      Expression.shapes built = Expression.shapes es := by
  induction each with
  | nil => exact ⟨[], by rw [buildExpressions], rfl⟩
  | cons first _ ih =>
    obtain ⟨e, eq, shape⟩ := first
    obtain ⟨es, eq', shapes⟩ := ih
    refine ⟨e :: es, ?_, by rw [Expression.shapes, Expression.shapes, shape, shapes]⟩
    rw [buildExpressions, eq, eq']
    rfl

theorem texts_eq_map (es : List Expression) :
    texts es = es.map fun e => parenthesized (render e) := by
  induction es with
  | nil => rfl
  | cons e es ih => rw [texts, ih, List.map_cons]

/-- Expressions in parentheses, with commas between them. -/
theorem yields_assignments {es : List Expression} (close : Char)
    (closes : grammar.foresee false 200 (gap ++ sign ",") [close] = .fails)
    (passed : passes true false [close] .primaryExpression 30 .assignment = true) (some : es ≠ [])
    (each : ∀ e ∈ es, Grouped source e) (more : List Char) :
    grammar.Yields (commaList assignment) (commas (texts es) ++ close :: more) (close :: more)
      (List.Forall₂ (Builds source) es) := by
  rw [texts_eq_map]
  refine yields_commaList close _ closes more some
    (fun e _ c _ more => skips_gap_of_foresee (c := '(') (by decide) _) fun e mem c listed more => ?_
  have operand : Parses source .assignment (parenthesized (render e) ++ c :: more) (c :: more)
      e.shape := by
    rcases List.mem_cons.1 listed with rfl | listed
    · exact (each e mem).operand [','] (by decide) more
    · cases List.mem_singleton.1 listed
      exact (each e mem).operand [close] passed more
  exact operand.mono fun _ ⟨node, built, eq, builds, shape⟩ => ⟨node, eq, built, builds, shape⟩

theorem yields_arguments {es : List Expression} (each : ∀ e ∈ es, Grouped source e)
    (more : List Char) :
    grammar.Yields (.rule .arguments) (parenthesized (commas (texts es)) ++ more) more fun nodes =>
      ∃ span children, List.Forall₂ (Builds source) es children ∧
        nodes = [.branch .arguments span children] := by
  have closing := (skips_gap_of_foresee (c := ')') (by decide) more)
  rw [parenthesized, List.cons_append, List.append_assoc]
  refine Grammar.Yields.branch .arguments (g := grammar) rfl ?_
  cases es with
  | nil =>
    have none : grammar.Refuses (commaList assignment) (')' :: more) :=
      Grammar.refuses_of_foresee [')'] (by decide)
    refine (((((Grammar.skips_text ['('] _).skip closing).skip none.optional).skip closing).skip
      (Grammar.skips_text [')'] more)).mono ?_
    rintro _ rfl
    exact .nil
  | cons e es =>
    have list := yields_assignments ')' (by decide) (by decide) (List.cons_ne_nil e es)
      each more
    have first : grammar.Skips gap (commas (texts (e :: es)) ++ ')' :: more)
        (commas (texts (e :: es)) ++ ')' :: more) := by
      rw [texts_eq_map, commas_cons]
      exact skips_gap_of_foresee (c := '(') (by decide) _
    have opened := (Grammar.skips_text ['('] _).skip first
    exact ((Grammar.Skips.seq opened list.optional).skip closing).skip (Grammar.skips_text [')'] more)

theorem returns_call (span : Span) {callee : Expression} {arguments : List Expression}
    (first : Grouped source callee) (each : ∀ e ∈ arguments, Grouped source e) :
    Returns source (.call span callee arguments) := by
  intro more
  have operand : Parses source .memberExpression _ _ _ :=
    first.operand ['('] (by decide) ((commas (texts arguments) ++ [')']) ++ ')' :: more)
  have ends : grammar.Refuses
      (gap ++ (.rule .arguments ||| .rule .memberDot ||| .rule .memberIndex)) (')' :: more) :=
    Grammar.refuses_of_foresee [')'] (by decide)
  have list := yields_arguments each (')' :: more)
  have call : grammar.Yields (.rule .arguments ||| .rule .memberDot ||| .rule .memberIndex)
      (parenthesized (commas (texts arguments)) ++ ')' :: more) (')' :: more) _ :=
    list.alt_left.alt_left
  have round := Grammar.Skips.seq (skips_gap_of_foresee (c := '(') (by decide) _) call
  have shorter : (')' :: more).length <
      (parenthesized (commas (texts arguments)) ++ ')' :: more).length := by
    simp only [parenthesized, List.length_append, List.length_cons]
    omega
  have reads := operand.seq (round.many shorter ends.many)
  rw [render, List.append_assoc]
  refine Parses.close_fresh (r := .lhsExpression) ?_ (refuses_prefixOperator_paren _) (by decide)
  refine .of_children rfl (reads.alt_left.mono ?_)
  rintro _ ⟨_, _, ⟨node, built, rfl, eq, shape⟩,
    ⟨_, _, ⟨span', children, known, rfl⟩, rfl, rfl⟩, rfl⟩ span
  obtain ⟨es, eq', shapes⟩ := buildExpressions_of_builds known
  refine ⟨.call (built.span.hull span') built es, ?_,
    by rw [Expression.shape, Expression.shape, shape, shapes]⟩
  rw [List.singleton_append, buildExpression, eq]
  simp [buildTails, eq']

/-- `new` in front of a parenthesis is a word of its own, and nothing else begins so. -/
theorem foresee_new (more : List Char) :
    grammar.Skips (word "new" ++ gap) ("new".toList ++ '(' :: more) ('(' :: more) ∧
      grammar.Refuses (.rule .primaryExpression) ("new".toList ++ '(' :: more) ∧
      grammar.Refuses (.rule .prefixOperator) ("new".toList ++ '(' :: more) := by
  have text : "new".toList ++ '(' :: more = ("new".toList ++ ['(']) ++ more := by
    rw [List.append_assoc]
    rfl
  rw [text]
  exact ⟨Grammar.skips_of_foresee _ ['('] (by decide),
    Grammar.refuses_of_foresee _ (by decide),
    Grammar.refuses_of_foresee _ (by decide)⟩

theorem returns_new (span : Span) {callee : Expression} {arguments : List Expression}
    (first : Grouped source callee) (each : ∀ e ∈ arguments, Grouped source e) :
    Returns source (.new span callee arguments) := by
  intro more
  have operand : Parses source .memberExpression _ _ _ :=
    first.operand ['('] (by decide) ((commas (texts arguments) ++ [')']) ++ ')' :: more)
  have list := yields_arguments each (')' :: more)
  obtain ⟨word, noPrimary, noPrefix⟩ := foresee_new
    ((render callee ++ [')']) ++ (parenthesized (commas (texts arguments)) ++ ')' :: more))
  have ends : grammar.Skips (.many (gap ++ (.rule .memberDot ||| .rule .memberIndex))) (')' :: more)
      (')' :: more) :=
    Grammar.skips_of_foresee [')'] [')'] (by decide)
  have reads := ((Grammar.Skips.seq word operand).skip (skips_gap_of_foresee (c := '(') (by decide) _)).seq
    list
  rw [render, List.append_assoc, List.append_assoc]
  refine Parses.close_fresh (r := .memberExpression) ?_ noPrefix (by decide)
  have newWith : Parses source .newWithArguments
      ("new".toList ++ (parenthesized (render callee) ++
        (parenthesized (commas (texts arguments)) ++ ')' :: more)))
      (')' :: more) (Expression.new span callee arguments).shape := by
    refine .of_children rfl (reads.mono ?_)
    rintro _ ⟨_, _, ⟨node, built, rfl, eq, shape⟩, ⟨span', children, known, rfl⟩, rfl⟩ span
    obtain ⟨es, eq', shapes⟩ := buildExpressions_of_builds known
    refine ⟨.new span built es, ?_, by rw [Expression.shape, Expression.shape, shape, shapes]⟩
    rw [List.singleton_append, buildExpression, eq, eq']
    rfl
  refine .of_children rfl (((newWith.alt_right noPrimary).skip ends).mono ?_)
  rintro _ ⟨node, built, rfl, eq, shape⟩ span
  refine ⟨built, ?_, shape⟩
  rw [buildExpression, eq]
  simp [buildTails]

theorem returns_sequence (span : Span) {parts : List Expression} (several : 2 ≤ parts.length)
    (each : ∀ e ∈ parts, Grouped source e) : Returns source (.sequence span parts) := by
  intro more
  have list := yields_assignments ')' (by decide) (by decide)
    (by rintro rfl; simp at several) each more
  rw [render]
  refine .of_children rfl (list.mono ?_)
  intro children known span
  obtain ⟨es, eq, shapes⟩ := buildExpressions_of_builds known
  have length := congrArg List.length shapes
  rw [Expression.shapes_length, Expression.shapes_length] at length
  refine ⟨.sequence span es, ?_, by rw [Expression.shape, Expression.shape, shapes]⟩
  rw [buildExpression, eq]
  have some : 2 ≤ es.length := length ▸ several
  rcases es with _ | ⟨first, _ | ⟨second, rest⟩⟩
  · exact absurd some (by decide)
  · exact absurd some (by simp)
  · rfl

/-! ## Arrays -/

def slotText : Option Expression → List Char
  | none => []
  | some e => parenthesized (render e)

theorem slotTexts_eq_map (elements : List (Option Expression)) :
    slotTexts elements = elements.map slotText := by
  induction elements with
  | nil => rfl
  | cons slot elements ih =>
    cases slot with
    | none => rw [slotTexts, ih, List.map_cons, slotText]
    | some e => rw [slotTexts, ih, List.map_cons, slotText]

/-- The node is a slot with an expression of the same shape, or an empty one. -/
def BuildsSlot (source : List Char) (slot : Option Expression) (node : Node Rule) : Prop :=
  match slot with
  | none => ∃ span, node = .branch .arraySlot span []
  | some e => ∃ span inner, node = .branch .arraySlot span [inner] ∧ Builds source e inner

theorem skips_gap_slot (slot : Option Expression) {c : Char} (mem : c ∈ [',', ']'])
    (more : List Char) :
    grammar.Skips gap (slotText slot ++ c :: more) (slotText slot ++ c :: more) := by
  cases slot with
  | none =>
    have sees : ∀ c ∈ [',', ']'], grammar.foresee false 200 gap [c] = .leaves [c] true :=
      List.all_iff_forall_prop.1 (by decide)
    exact skips_gap_of_foresee (sees c mem) more
  | some e => exact skips_gap_of_foresee (c := '(') (by decide) _

theorem yields_slot {slot : Option Expression} (inside : ∀ e ∈ slot, Grouped source e) {c : Char}
    (mem : c ∈ [',', ']']) (more : List Char) :
    grammar.Yields (.rule .arraySlot) (slotText slot ++ c :: more) (c :: more) fun nodes =>
      ∃ node, nodes = [node] ∧ BuildsSlot source slot node := by
  cases slot with
  | none =>
    have sees : ∀ c ∈ [',', ']'], grammar.foresee false 200 assignment [c] = .fails :=
      List.all_iff_forall_prop.1 (by decide)
    have none : grammar.Refuses assignment (c :: more) :=
      Grammar.refuses_of_foresee [c] (sees c mem)
    refine (Grammar.Yields.branch .arraySlot (g := grammar) rfl none.optional).mono ?_
    rintro _ ⟨span, _, rfl, rfl⟩
    exact ⟨_, rfl, span, rfl⟩
  | some e =>
    have passed : ∀ c ∈ [',', ']'],
        passes true false [c] .primaryExpression 30 .assignment = true :=
      List.all_iff_forall_prop.1 (by decide)
    have operand : Parses source .assignment _ _ _ := (inside e rfl).operand [c] (passed c mem) more
    refine (Grammar.Yields.branch .arraySlot (g := grammar) rfl operand.optional).mono ?_
    rintro _ ⟨span, _, ⟨node, built, rfl, eq, shape⟩, rfl⟩
    exact ⟨_, rfl, span, node, rfl, built, eq, shape⟩

/-- An empty last slot is only the comma in front of it, so the slots of an array that ends in a hole
are those of its elements and one more. -/
theorem buildSlots_of_builds {elements : List (Option Expression)} {nodes : List (Node Rule)}
    (some : elements ≠ [])
    (each : List.Forall₂ (BuildsSlot source)
      (elements ++ if endsInHole elements then [none] else []) nodes) :
    ∃ built, buildSlots source nodes = pure built ∧
      Expression.slotShapes built = Expression.slotShapes elements := by
  induction elements generalizing nodes with
  | nil => exact absurd rfl some
  | cons slot elements ih =>
    cases elements with
    | nil =>
      cases slot with
      | none =>
        rcases each with _ | ⟨⟨_, rfl⟩, _ | ⟨⟨_, rfl⟩, ⟨⟩⟩⟩
        exact ⟨[none], by simp [buildSlots], rfl⟩
      | some e =>
        rcases each with _ | ⟨⟨_, inner, rfl, built, eq, shape⟩, ⟨⟩⟩
        refine ⟨[.some built], by simp [buildSlots, eq], ?_⟩
        rw [Expression.slotShapes, Expression.slotShapes, shape]
        rfl
    | cons next elements =>
      have ends : endsInHole (slot :: next :: elements) = endsInHole (next :: elements) := by
        simp [endsInHole, List.getLast?_cons_cons]
      rw [ends, List.cons_append] at each
      rcases each with _ | ⟨first, others⟩
      obtain ⟨built, eq, shapes⟩ := ih (List.cons_ne_nil _ _) others
      rcases others with _ | ⟨second, others⟩
      cases slot with
      | none =>
        obtain ⟨span, rfl⟩ := first
        refine ⟨none :: built, ?_, by rw [Expression.slotShapes, Expression.slotShapes, shapes]⟩
        rw [buildSlots, eq]
        · rfl
        · exact List.cons_ne_nil _ _
      | some e =>
        obtain ⟨span, inner, rfl, built', eq', shape⟩ := first
        refine ⟨.some built' :: built, ?_,
          by rw [Expression.slotShapes, Expression.slotShapes, shape, shapes]⟩
        rw [buildSlots, eq', eq]
        rfl

/-- The slots that are written: those of the elements, and an empty one for a hole at the end. Without
elements there is one empty slot as well. -/
def writtenSlots (elements : List (Option Expression)) : List (Option Expression) :=
  if elements = [] then [none] else elements ++ if endsInHole elements then [none] else []

theorem commas_writtenSlots (elements : List (Option Expression)) :
    commas (slotTexts elements ++ if endsInHole elements then [[]] else []) =
      commas ((writtenSlots elements).map slotText) := by
  cases elements with
  | nil => rfl
  | cons slot elements =>
    rw [writtenSlots, if_neg (List.cons_ne_nil _ _), slotTexts_eq_map, List.map_append]
    split <;> rfl

theorem grouped_writtenSlots {elements : List (Option Expression)}
    (each : ∀ slot ∈ elements, ∀ e ∈ slot, Grouped source e) :
    ∀ slot ∈ writtenSlots elements, ∀ e ∈ slot, Grouped source e := by
  intro slot mem e inside
  cases inside
  refine each _ ?_ e rfl
  unfold writtenSlots at mem
  split at mem
  · cases List.mem_singleton.1 mem
  · rcases List.mem_append.1 mem with mem | mem
    · exact mem
    · split at mem <;> simp at mem

theorem returns_array (span : Span) {elements : List (Option Expression)}
    (each : ∀ slot ∈ elements, ∀ e ∈ slot, Grouped source e) :
    Returns source (.array span elements) := by
  intro more
  have some : writtenSlots elements ≠ [] := by
    unfold writtenSlots
    split
    · nofun
    next nonempty => exact List.append_ne_nil_of_left_ne_nil nonempty _
  have list := yields_commaList ']' (BuildsSlot source) (by decide) (')' :: more)
    some (fun slot _ c mem more => skips_gap_slot slot mem more)
    (fun slot mem c listed more => yields_slot (grouped_writtenSlots each slot mem) listed more)
  have begins : grammar.Skips gap
      (commas ((writtenSlots elements).map slotText) ++ ']' :: ')' :: more)
      (commas ((writtenSlots elements).map slotText) ++ ']' :: ')' :: more) := by
    obtain ⟨first, others, eq⟩ := List.exists_cons_of_ne_nil some
    rw [eq]
    exact skips_gap_commas ']' _ (fun c mem more => skips_gap_slot first mem more) _
  have opened := (Grammar.skips_text (g := grammar) ['['] _).skip begins
  have closed := ((Grammar.Skips.seq opened list).skip
    (skips_gap_of_foresee (c := ']') (by decide) _)).skip (Grammar.skips_text [']'] (')' :: more))
  have array := Grammar.Yields.branch .arrayLiteral (g := grammar) rfl closed
  rw [render, commas_writtenSlots, List.cons_append, List.append_assoc]
  have others : grammar.Refuses (.rule .thisExpression ||| .rule .literal ||| identifier : Part)
      ('[' :: (commas ((writtenSlots elements).map slotText) ++ ']' :: ')' :: more)) :=
    Grammar.refuses_of_foresee ['['] (by decide)
  refine Parses.primary (Grammar.refuses_of_foresee ['['] (by decide))
    ((array.alt_right others).alt_left.alt_left.alt_left.mono ?_)
  rintro _ ⟨span', slots, known, rfl⟩
  obtain ⟨built, eq, shapes⟩ : ∃ built, buildSlots source slots = pure built ∧
      Expression.slotShapes built = Expression.slotShapes elements := by
    cases elements with
    | nil =>
      rcases known with _ | ⟨⟨_, rfl⟩, ⟨⟩⟩
      exact ⟨[], by simp [buildSlots], rfl⟩
    | cons slot elements => exact buildSlots_of_builds (List.cons_ne_nil _ _) known
  refine ⟨_, .array span' built, rfl, ?_, by rw [Expression.shape, Expression.shape, shapes]⟩
  rw [buildExpression, eq]
  rfl

/-! ## Objects -/

def propertyText : PropertyNode → List Char
  | .data _ key value => quoted key ++ ':' :: parenthesized (render value)
  | .getter .. | .setter .. => []

theorem propertyTexts_eq_map {properties : List PropertyNode} (plain : Plain.properties properties) :
    propertyTexts properties = properties.map propertyText := by
  induction properties with
  | nil => rfl
  | cons property properties ih =>
    cases property with
    | data span key value => rw [propertyTexts, ih plain.2, List.map_cons, propertyText]
    | getter | setter => exact plain.elim

/-- The property can be rendered, and its value is read back. -/
def GroupedProperty (source : List Char) : PropertyNode → Prop
  | .data _ _ value => Grouped source value
  | .getter .. | .setter .. => False

/-- The node is a data property with the same key and with a value of the same shape. -/
def BuildsProperty (source : List Char) (property : PropertyNode) (node : Node Rule) : Prop :=
  ∃ span key value span' keyNode valueNode, property = .data span key value ∧
    node = .branch .dataProperty span' [keyNode, valueNode] ∧ propertyKey keyNode = pure key ∧
    Builds source value valueNode

theorem skips_gap_property {property : PropertyNode} (grouped : GroupedProperty source property)
    (more : List Char) :
    grammar.Skips gap (propertyText property ++ more) (propertyText property ++ more) := by
  cases property with
  | data span key value => exact skips_gap_of_foresee (c := '"') (by decide) _
  | getter | setter => exact grouped.elim

theorem yields_property {property : PropertyNode} (grouped : GroupedProperty source property)
    {c : Char} (mem : c ∈ [',', '\x7d']) (more : List Char) :
    grammar.Yields Script.property (propertyText property ++ c :: more) (c :: more) fun nodes =>
      ∃ node, nodes = [node] ∧ BuildsProperty source property node := by
  cases property with
  | getter | setter => exact grouped.elim
  | data span key value =>
    have passed : ∀ c ∈ [',', '\x7d'],
        passes true false [c] .primaryExpression 30 .assignment = true :=
      List.all_iff_forall_prop.1 (by decide)
    have operand : Parses source .assignment _ _ _ := grouped.operand [c] (passed c mem) more
    have others : grammar.Refuses (.rule .identifierName)
        (quoted key ++ ':' :: (parenthesized (render value) ++ c :: more)) :=
      Grammar.refuses_of_foresee ['"'] (by decide)
    have name := Grammar.Yields.branch .propertyName (g := grammar) rfl
      ((yields_quoted key (':' :: (parenthesized (render value) ++ c :: more))).alt_right
        others).alt_left
    have reads := (((name.skip (skips_gap_of_foresee (c := ':') (by decide) _)).skip
      (Grammar.skips_text [':'] _)).skip (skips_gap_of_foresee (c := '(') (by decide) _)).seq operand
    have accessors : grammar.Refuses (.rule .getterProperty ||| .rule .setterProperty : Part)
        (quoted key ++ ':' :: (parenthesized (render value) ++ c :: more)) :=
      Grammar.refuses_of_foresee ['"'] (by decide)
    rw [propertyText, List.append_assoc, List.cons_append]
    refine (Grammar.Yields.alt_right accessors
      (Grammar.Yields.branch .dataProperty (g := grammar) rfl reads)).mono ?_
    rintro _ ⟨span', _, ⟨_, _, ⟨span₁, _, ⟨span₂, span₃, rfl⟩, rfl⟩,
      ⟨node, built, rfl, eq, shape⟩, rfl⟩, rfl⟩
    refine ⟨_, rfl, span, key, value, span', _, node, rfl, rfl, ?_, built, eq, shape⟩
    exact stringValue_escaped span₂ span₃ key

theorem buildProperties_of_builds {properties : List PropertyNode} {nodes : List (Node Rule)}
    (each : List.Forall₂ (BuildsProperty source) properties nodes) :
    ∃ built, buildProperties source nodes = pure built ∧
      Expression.propertyShapes built = Expression.propertyShapes properties := by
  induction each with
  | nil => exact ⟨[], by rw [buildProperties], rfl⟩
  | cons first _ ih =>
    obtain ⟨span, key, value, span', keyNode, valueNode, rfl, rfl, keyEq, built, eq, shape⟩ := first
    obtain ⟨others, eq', shapes⟩ := ih
    refine ⟨.data span' key built :: others, ?_,
      by rw [Expression.propertyShapes, Expression.propertyShapes, shape, shapes]⟩
    rw [buildProperties, keyEq, eq, eq']
    rfl

theorem returns_object (span : Span) {properties : List PropertyNode}
    (plain : Plain.properties properties)
    (each : ∀ property ∈ properties, GroupedProperty source property) :
    Returns source (.object span properties) := by
  intro more
  have closing := skips_gap_of_foresee (c := '\x7d') (by decide) (')' :: more)
  have object : grammar.Yields (.rule .objectLiteral)
      ('\x7b' :: (commas (properties.map propertyText) ++ '\x7d' :: ')' :: more)) (')' :: more)
      fun nodes => ∃ span nodes', List.Forall₂ (BuildsProperty source) properties nodes' ∧
        nodes = [.branch .objectLiteral span nodes'] := by
    refine Grammar.Yields.branch .objectLiteral (g := grammar) rfl ?_
    cases properties with
    | nil =>
      have none : grammar.Refuses (commaList property ++ .optional (gap ++ sign ","))
          ('\x7d' :: ')' :: more) :=
        Grammar.refuses_of_foresee ['\x7d'] (by decide)
      refine (((((Grammar.skips_text ['\x7b'] _).skip closing).skip none.optional).skip
        closing).skip (Grammar.skips_text ['\x7d'] (')' :: more))).mono ?_
      rintro _ rfl
      exact .nil
    | cons property properties =>
      have list := yields_commaList '\x7d' (BuildsProperty source) (by decide)
        (')' :: more) (List.cons_ne_nil property properties)
        (fun x mem c _ more => skips_gap_property (each x mem) (c :: more))
        (fun x mem c listed more => yields_property (each x mem) listed more)
      have first := skips_gap_commas '\x7d' properties
        (fun c _ more => skips_gap_property (each property List.mem_cons_self) (c :: more))
        (')' :: more)
      have comma : grammar.Refuses (gap ++ sign ",") ('\x7d' :: ')' :: more) :=
        Grammar.refuses_of_foresee ['\x7d'] (by decide)
      have opened := (Grammar.skips_text ['\x7b'] _).skip first
      exact ((Grammar.Skips.seq opened (list.skip comma.optional).optional).skip closing).skip
        (Grammar.skips_text ['\x7d'] (')' :: more))
  have others : grammar.Refuses
      (.rule .thisExpression ||| .rule .literal ||| identifier ||| .rule .arrayLiteral : Part)
      ('\x7b' :: (commas (properties.map propertyText) ++ '\x7d' :: ')' :: more)) :=
    Grammar.refuses_of_foresee ['\x7b'] (by decide)
  rw [render, propertyTexts_eq_map plain, List.cons_append, List.append_assoc]
  refine Parses.primary (Grammar.refuses_of_foresee ['\x7b'] (by decide))
    ((object.alt_right others).alt_left.alt_left.mono ?_)
  rintro _ ⟨span', nodes, known, rfl⟩
  obtain ⟨built, eq, shapes⟩ := buildProperties_of_builds known
  refine ⟨_, .object span' built, rfl, ?_, by rw [Expression.shape, Expression.shape, shapes]⟩
  rw [buildExpression, eq]
  rfl

end

end ScriptEngine.Script
