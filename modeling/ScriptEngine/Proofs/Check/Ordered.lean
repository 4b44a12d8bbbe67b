import ScriptEngine.Check.Rules
import ScriptEngine.Proofs.Source.Positions
import ScriptEngine.Proofs.Tree.NodeSpans

/-!
# The places and the order of problems

Every violation is reported where a node of the tree begins. For what a scope declares this is so as
far as what the scope records is in the tree, which holds of trees that were read
(`Script.violations_sited`).

What is wrong with a script is reported in the order of lines and columns. As positions stand in the
order of their offsets, this is the order in which the problems stand in the source
(`Program.diagnostics_eq_sorted`). Problems met while reading have the same positions as those found
afterwards (`Script.position_of_reading`).
-/
namespace ScriptEngine

/-! ## Where violations are reported -/

namespace Check

/-- The violations are at the beginnings of nodes in a tree. -/
def Sited (root : SyntaxNode) (found : Violations) : Prop :=
  ∀ v ∈ found, ∃ n, root.Contains n ∧ v.offset = n.span.start

variable {root : SyntaxNode} {context : Context} {found more : Violations}

namespace Sited

theorem nil : Sited root [] := List.forall_mem_nil _

theorem append (first : Sited root found) (second : Sited root more) :
    Sited root (found ++ more) :=
  List.forall_mem_append.2 ⟨first, second⟩

theorem report {n : SyntaxNode} (contains : root.Contains n) (problem : Problem) :
    Sited root (report problem n.span) :=
  List.forall_mem_singleton.2 ⟨n, contains, rfl⟩

theorem ite {p : Prop} [Decidable p] (first : Sited root found) (second : Sited root more) :
    Sited root (if p then found else more) := by
  by_cases holds : p
  · rwa [if_pos holds]
  · rwa [if_neg holds]

end Sited

/-! ### Single rules -/

section

variable {id : Identifier} {scope : Scope}

theorem bindingName_sited (contains : root.Contains (.name id)) :
    Sited root (bindingName context id) :=
  .ite .nil (.ite (.report contains _) (.ite (.report contains _) .nil))

theorem lexicalNames_sited {isFunction : Bool} {earlier : List String} {names : List LexicalName}
    (contains : ∀ l ∈ names, root.Contains (.name l.identifier)) :
    Sited root (lexicalNames isFunction scope earlier names) := by
  induction names generalizing earlier with
  | nil => exact .nil
  | cons l rest ih =>
    obtain ⟨first, others⟩ := List.forall_mem_cons.1 contains
    exact .append (.ite (.report first _) .nil) (ih others)

theorem blockFunctions_sited {strict : Bool} {earlier : List String} {functions : List FunctionCode}
    (contains : ∀ code ∈ functions, root.Contains (.function code)) :
    Sited root (blockFunctions strict scope earlier functions) := by
  induction functions generalizing earlier with
  | nil => exact .nil
  | cons code rest ih =>
    obtain ⟨first, others⟩ := List.forall_mem_cons.1 contains
    rw [blockFunctions]
    split
    · exact ih others
    · -- The name is reported, which is a node below the function.
      rename_i id named
      have name : root.Contains (.name id) := first.child (by simp [SyntaxNode.children, named])
      exact .append (.ite (.report name _) .nil) (ih others)

theorem declarations_sited {isFunction : Bool}
    (recorded : ∀ names ∈ scope.recordedInside, ∀ name ∈ names, root.Contains name) :
    Sited root (declarations context isFunction scope) := by
  simp only [Scope.recordedInside, List.forall_mem_cons, List.forall_mem_map] at recorded
  obtain ⟨-, lexical, functions, -⟩ := recorded
  exact .append (lexicalNames_sited lexical) (.ite .nil (blockFunctions_sited functions))

theorem parameters_sited {earlier : List String} {names : List Identifier}
    (contains : ∀ id ∈ names, root.Contains (.name id)) :
    Sited root (parameters context earlier names) := by
  induction names generalizing earlier with
  | nil => exact .nil
  | cons id rest ih =>
    obtain ⟨first, others⟩ := List.forall_mem_cons.1 contains
    exact .append (.append (bindingName_sited first) (.ite (.report first _) .nil)) (ih others)

theorem breakTarget_sited {span : Span} {name : Option Identifier}
    (contains : root.Contains (.statement (.breaks span name))) :
    Sited root (breakTarget context span name) := by
  cases name with
  | none => exact .ite .nil (.report contains _)
  | some id =>
    have name : root.Contains (.name id) := contains.child (List.mem_singleton_self _)
    exact .ite .nil (.report name _)

theorem continueTarget_sited {span : Span} {name : Option Identifier}
    (contains : root.Contains (.statement (.continues span name))) :
    Sited root (continueTarget context span name) := by
  cases name with
  | none => exact .ite .nil (.report contains _)
  | some id =>
    have name : root.Contains (.name id) := contains.child (List.mem_singleton_self _)
    rw [continueTarget]
    split
    · exact .report name _
    · exact .ite .nil (.report name _)

theorem target_sited {problem : Problem} {place : Expression}
    (contains : root.Contains (.expression place)) (inside : Sited root found) :
    Sited root (target context problem place found) := by
  cases place with
  | identifier => exact .ite (.report contains _) .nil
  | member | index => exact inside
  | _ => exact .append (.report contains _) inside

theorem deletion_sited {operator : UnaryOperator} {argument : Expression}
    (contains : root.Contains (.expression argument)) :
    Sited root (deletion context operator argument) := by
  cases argument with
  | identifier => exact .ite (.report contains _) .nil
  | _ => exact .nil

theorem catchParameter_sited {body : Block} (name : root.Contains (.name id))
    (inside : root.Contains (.block body)) : Sited root (catchParameter context id body) :=
  .append (bindingName_sited name) (.ite (.report inside _) .nil)

theorem label_sited (contains : root.Contains (.name id)) : Sited root (label context id) :=
  .ite (.report contains _) .nil

end

/-! ### The walk through the tree -/

/-- What is recorded for a node of a tree is in the tree. -/
def Records (root : SyntaxNode) : Prop :=
  ∀ n, root.Contains n → ∀ names ∈ n.recorded, ∀ name ∈ names, root.Contains name

-- By recursion along the walk: with a node all nodes below it are in the tree.
mutual

theorem expression_sited (records : Records root) (e : Expression) {context : Context}
    (contains : root.Contains (.expression e)) : Sited root (expression context e) := by
  have below : ∀ child ∈ e.children, root.Contains child := fun _ mem => contains.child mem
  match e, below with
  | .literal .., _ | .identifier _, _ | .this _, _ => exact .nil
  | .array _ elements, below =>
    apply slots_sited records elements
    intro e mem
    apply below
    exact List.mem_map_of_mem (List.mem_filterMap.2 ⟨some e, mem, rfl⟩)
  | .object _ nodes, below =>
    exact properties_sited records nodes (List.forall_mem_map.1 below)
  | .function code, below =>
    exact function_sited records code (List.forall_mem_singleton.1 below)
  | .unary _ _ argument, below =>
    have inside := List.forall_mem_singleton.1 below
    exact .append (deletion_sited inside) (expression_sited records argument inside)
  | .update _ _ _ argument, below =>
    have inside := List.forall_mem_singleton.1 below
    exact target_sited inside (expression_sited records argument inside)
  | .binary _ _ left right, below | .logical _ _ left right, below | .index _ left right, below =>
    obtain ⟨first, second⟩ := List.forall_mem_cons.1 below
    exact .append (expression_sited records left first)
      (expression_sited records right (List.forall_mem_singleton.1 second))
  | .assign _ _ place value, below =>
    obtain ⟨first, second⟩ := List.forall_mem_cons.1 below
    exact .append (target_sited first (expression_sited records place first))
      (expression_sited records value (List.forall_mem_singleton.1 second))
  | .conditional _ test consequent alternate, below =>
    simp only [Expression.children, List.forall_mem_cons] at below
    obtain ⟨first, second, third, -⟩ := below
    exact .append (.append (expression_sited records test first)
      (expression_sited records consequent second)) (expression_sited records alternate third)
  | .member _ owner _, below =>
    exact expression_sited records owner (List.forall_mem_cons.1 below).1
  | .call _ callee arguments, below | .new _ callee arguments, below =>
    obtain ⟨first, others⟩ := List.forall_mem_cons.1 below
    exact .append (expression_sited records callee first)
      (expressions_sited records arguments (List.forall_mem_map.1 others))
  | .sequence _ parts, below =>
    exact expressions_sited records parts (List.forall_mem_map.1 below)

theorem expressions_sited (records : Records root) (es : List Expression) {context : Context}
    (contains : ∀ e ∈ es, root.Contains (.expression e)) :
    Sited root (expressions context es) := by
  match es with
  | [] => exact .nil
  | e :: rest =>
    obtain ⟨first, others⟩ := List.forall_mem_cons.1 contains
    exact .append (expression_sited records e first) (expressions_sited records rest others)

theorem slots_sited (records : Records root) (elements : List (Option Expression))
    {context : Context} (contains : ∀ e, some e ∈ elements → root.Contains (.expression e)) :
    Sited root (slots context elements) := by
  match elements with
  | [] => exact .nil
  | none :: rest => exact slots_sited records rest fun e mem => contains e (.tail _ mem)
  | some e :: rest =>
    exact .append (expression_sited records e (contains e (.head _)))
      (slots_sited records rest fun e mem => contains e (.tail _ mem))

theorem properties_sited (records : Records root) (nodes : List PropertyNode) {context : Context}
    (contains : ∀ p ∈ nodes, root.Contains (.property p)) :
    Sited root (properties context nodes) := by
  match nodes with
  | [] => exact .nil
  | .data _ _ value :: rest =>
    obtain ⟨first, others⟩ := List.forall_mem_cons.1 contains
    exact .append (expression_sited records value (first.child (List.mem_singleton_self _)))
      (properties_sited records rest others)
  | .getter _ _ code :: rest | .setter _ _ code :: rest =>
    obtain ⟨first, others⟩ := List.forall_mem_cons.1 contains
    exact .append (function_sited records code (first.child (List.mem_singleton_self _)))
      (properties_sited records rest others)

theorem function_sited (records : Records root) (code : FunctionCode)
    (contains : root.Contains (.function code)) : Sited root (function code) := by
  have recorded := (List.forall_mem_cons.1 (records _ contains)).2
  have below : ∀ child ∈ (SyntaxNode.function code).children, root.Contains child :=
    fun _ mem => contains.child mem
  match code, recorded, below with
  | ⟨_, id, names, _, body, scope⟩, recorded, below =>
    simp only [SyntaxNode.children, List.forall_mem_append, List.forall_mem_map,
      List.forall_mem_singleton] at below
    obtain ⟨⟨own, parameters⟩, inside⟩ := below
    refine .append (.append (.append ?_ (parameters_sited parameters))
      (declarations_sited recorded)) (statements_sited records body ?_)
    · cases id with
      | none => exact .nil
      | some id => exact bindingName_sited (own id (.head _))
    · exact fun s mem => inside.child (List.mem_map_of_mem mem)

theorem statement_sited (records : Records root) (s : Statement) {context : Context}
    (contains : root.Contains (.statement s)) : Sited root (statement context s) := by
  have recorded := records _ contains
  have below : ∀ child ∈ s.children, root.Contains child := fun _ mem => contains.child mem
  match s, recorded, below with
  | .empty _, _, _ | .debugger _, _, _ => exact .nil
  | .expression _ value, _, below | .throws _ value, _, below =>
    exact expression_sited records value (List.forall_mem_singleton.1 below)
  | .block body, _, below => exact block_sited records body (List.forall_mem_singleton.1 below)
  | .returns span none, _, _ => exact .append (.ite .nil (.report contains _)) .nil
  | .returns span (some value), _, below =>
    exact .append (.ite .nil (.report contains _))
      (expression_sited records value (List.forall_mem_singleton.1 below))
  | .breaks .., _, _ => exact breakTarget_sited contains
  | .continues .., _, _ => exact continueTarget_sited contains
  | .labelled _ id body, _, below =>
    obtain ⟨first, second⟩ := List.forall_mem_cons.1 below
    exact .append (label_sited first)
      (statement_sited records body (List.forall_mem_singleton.1 second))
  | .branch _ test consequent alternate, _, below =>
    simp only [Statement.children, List.forall_mem_cons, List.forall_mem_map] at below
    obtain ⟨first, second, third⟩ := below
    unfold statement
    refine .append (.append (expression_sited records test first)
      (statement_sited records consequent second)) ?_
    match alternate, third with
    | none, _ => exact .nil
    | some alternate, third => exact statement_sited records alternate (third _ (.head _))
  | .select _ discriminant clauses _, recorded, below =>
    obtain ⟨first, others⟩ := List.forall_mem_cons.1 below
    exact .append (.append (expression_sited records discriminant first)
      (declarations_sited (List.forall_mem_cons.1 recorded).2))
      (cases_sited records clauses (List.forall_mem_map.1 others))
  | .attempt _ body handler finalizer, _, below =>
    simp only [Statement.children, List.forall_mem_cons, List.forall_mem_append,
      List.forall_mem_map] at below
    obtain ⟨first, second, third⟩ := below
    unfold statement
    refine .append (.append (block_sited records body first) ?_) ?_
    · match handler, second with
      | none, _ => exact .nil
      | some ⟨_, parameter, body⟩, second =>
        have clause := second _ (.head _)
        have name : root.Contains (.name parameter) := clause.child (.head _)
        have inside : root.Contains (.block body) := clause.child (.tail _ (.head _))
        exact .append (catchParameter_sited name inside) (block_sited records body inside)
    · match finalizer, third with
      | none, _ => exact .nil
      | some body, third => exact block_sited records body (third _ (.head _))
  | .whileLoop _ test body, _, below =>
    obtain ⟨first, second⟩ := List.forall_mem_cons.1 below
    exact .append (expression_sited records test first)
      (statement_sited records body (List.forall_mem_singleton.1 second))
  | .doLoop _ body test, _, below =>
    obtain ⟨first, second⟩ := List.forall_mem_cons.1 below
    exact .append (expression_sited records test (List.forall_mem_singleton.1 second))
      (statement_sited records body first)
  | .forLoop _ init test update body _, recorded, below =>
    simp only [Statement.children, List.forall_mem_append, List.forall_mem_map,
      List.forall_mem_singleton] at below
    obtain ⟨first, second, third, last⟩ := below
    unfold statement
    refine .append (.append (.append (.append
      (declarations_sited (List.forall_mem_cons.1 recorded).2) ?_) ?_) ?_)
      (statement_sited records body last)
    · match init, first with
      | none, _ => exact .nil
      | some (.declaration ⟨_, kind, parts⟩), first =>
        exact declarators_sited records kind parts fun part mem =>
          (first _ (.head _)).child (List.mem_map_of_mem mem)
      | some (.expression value), first => exact expression_sited records value (first _ (.head _))
    · match test, second with
      | none, _ => exact .nil
      | some test, second => exact expression_sited records test (second _ (.head _))
    · match update, third with
      | none, _ => exact .nil
      | some update, third => exact expression_sited records update (third _ (.head _))
  | .forInLoop _ left right body _, recorded, below =>
    simp only [Statement.children, List.forall_mem_cons] at below
    obtain ⟨first, second, last, -⟩ := below
    unfold statement
    refine .append (.append (.append
      (declarations_sited (List.forall_mem_cons.1 recorded).2) ?_)
      (expression_sited records right second)) (statement_sited records body last)
    match left, first with
    | .declaration _ id, first => exact bindingName_sited first
    | .expression place, first => exact target_sited first (expression_sited records place first)
  | .function code, _, below =>
    exact function_sited records code (List.forall_mem_singleton.1 below)
  | .declaration ⟨_, kind, parts⟩, _, below =>
    exact declarators_sited records kind parts fun part mem =>
      (List.forall_mem_singleton.1 below).child (List.mem_map_of_mem mem)

theorem statements_sited (records : Records root) (list : List Statement) {context : Context}
    (contains : ∀ s ∈ list, root.Contains (.statement s)) :
    Sited root (statements context list) := by
  match list with
  | [] => exact .nil
  | s :: rest =>
    obtain ⟨first, others⟩ := List.forall_mem_cons.1 contains
    exact .append (statement_sited records s first) (statements_sited records rest others)

theorem block_sited (records : Records root) (body : Block) {context : Context}
    (contains : root.Contains (.block body)) : Sited root (block context body) := by
  have recorded := (List.forall_mem_cons.1 (records _ contains)).2
  match body, recorded with
  | ⟨_, list, scope⟩, recorded =>
    exact .append (declarations_sited recorded)
      (statements_sited records list fun s mem => contains.child (List.mem_map_of_mem mem))

theorem cases_sited (records : Records root) (clauses : List Case) {context : Context}
    (contains : ∀ clause ∈ clauses, root.Contains (.switchCase clause)) :
    Sited root (cases context clauses) := by
  match clauses with
  | [] => exact .nil
  | ⟨_, none, body⟩ :: rest =>
    obtain ⟨first, others⟩ := List.forall_mem_cons.1 contains
    have inside s (mem : s ∈ body) := first.child (List.mem_map_of_mem mem)
    exact .append (statements_sited records body inside) (cases_sited records rest others)
  | ⟨_, some test, body⟩ :: rest =>
    obtain ⟨first, others⟩ := List.forall_mem_cons.1 contains
    have inside s (mem : s ∈ body) := first.child (.tail _ (List.mem_map_of_mem mem))
    exact .append (.append (expression_sited records test (first.child (.head _)))
      (statements_sited records body inside)) (cases_sited records rest others)

theorem declarators_sited (records : Records root) (kind : DeclarationKind)
    (parts : List Declarator) {context : Context}
    (contains : ∀ part ∈ parts, root.Contains (.declarator part)) :
    Sited root (declarators context kind parts) := by
  match parts with
  | [] => exact .nil
  | ⟨_, id, none⟩ :: rest =>
    obtain ⟨first, others⟩ := List.forall_mem_cons.1 contains
    exact .append (.append (bindingName_sited (first.child (.head _)))
      (.ite (.report first _) .nil)) (declarators_sited records kind rest others)
  | ⟨_, id, some init⟩ :: rest =>
    obtain ⟨first, others⟩ := List.forall_mem_cons.1 contains
    exact .append (.append (bindingName_sited (first.child (.head _)))
      (expression_sited records init (first.child (.tail _ (.head _)))))
      (declarators_sited records kind rest others)

end

theorem script_sited (records : Records root) (tree : ScriptTree)
    (contains : root.Contains (.script tree)) : Sited root (script tree) :=
  .append (declarations_sited (List.forall_mem_cons.1 (records _ contains)).2)
    (statements_sited records tree.body fun _ mem => contains.child (List.mem_map_of_mem mem))

end Check

namespace Script

variable {source : List Char} {forceStrict : Bool} {script : ScriptTree}

/-- All that is wrong with a script that was read is reported where a node of it begins. -/
theorem violations_sited (read : tree source forceStrict = .ok script) :
    Check.Sited (.script script) (Check.script script) := by
  have placed : (SyntaxNode.script script).IsPlaced := tree_placed read
  have records : Check.Records (.script script) := fun n contains names isRecorded name mem =>
    contains.trans (SyntaxNode.contains_recorded (placed.of_contains contains)
      ((nested_of_tree read).of_contains contains) names isRecorded name mem)
  exact Check.script_sited records script .self

end Script

/-! ## The order of problems -/

variable {source : List Char} {o : Nat}

/-- The offset is between a carriage return and the line feed behind it. -/
def SplitsBreak (source : List Char) (offset : Nat) : Prop :=
  ∃ front rest, source = front ++ '\r' :: '\n' :: rest ∧ offset = byteLength (front ++ ['\r'])

theorem splitsBreak_iff (front rest : List Char) :
    SplitsBreak (front ++ rest) (byteLength front) ↔
      front.getLast? = some '\r' ∧ rest.head? = some '\n' := by
  constructor
  · rintro ⟨front', rest', whole, eq⟩
    have whole' : front ++ rest = (front' ++ ['\r']) ++ '\n' :: rest' := by simpa using whole
    obtain rfl := eq_of_byteLength_eq whole' eq
    obtain rfl := List.append_cancel_left whole'
    exact ⟨List.getLast?_concat, rfl⟩
  · rintro ⟨carriage, feed⟩
    obtain ⟨front, rfl⟩ := List.getLast?_eq_some_iff.1 carriage
    obtain ⟨rest, rfl⟩ := List.head?_eq_some_iff.1 feed
    exact ⟨front, rest, by simp, rfl⟩

theorem Boundary.byBreak_eq (boundary : Boundary source o) (whole : ¬ SplitsBreak source o) :
    Position.byBreak source o = Position.byFeed source o := by
  obtain ⟨front, rest, rfl, rfl⟩ := boundary
  apply Position.byBreak_eq_byFeed
  rwa [← splitsBreak_iff]

namespace Script

theorem position_of_reading (problem : Problem) (boundary : Boundary source o)
    (whole : ¬ SplitsBreak source o) :
    (diagnosticOfReading source ⟨problem, o⟩).position = Position.byFeed source o :=
  boundary.byBreak_eq whole

variable {forceStrict : Bool} {script : ScriptTree}

/-- What is wrong with a script that was read is reported between characters of its source. -/
theorem violations_boundary (read : tree source forceStrict = .ok script) :
    ∀ v ∈ Check.script script, Boundary source v.offset := by
  intro v mem
  obtain ⟨n, contains, eq⟩ := violations_sited read v mem
  rw [eq]
  exact ((nested_of_tree read).of_contains contains).cuts.start

end Script

namespace Program

variable {tree : ScriptTree}

/-- Problems between characters are sorted by position if they are sorted by offset, and problems at
one place stay in the order in which they were found. -/
theorem diagnostics_eq_sorted (between : ∀ v ∈ Check.script tree, Boundary source v.offset) :
    diagnostics source tree =
      ((Check.script tree).mergeSort fun v w => decide (v.offset ≤ w.offset)).map fun v =>
        ⟨v.problem, Position.byFeed source v.offset⟩ := by
  symm
  apply List.map_mergeSort
  intro v isFound w isFound'
  -- One is not after the other by position if and only if it is not by offset.
  have later := Position.byFeed_before_iff (between w isFound') (between v isFound)
  rw [Bool.eq_iff_iff, decide_eq_true_eq, Bool.not_eq_true', ← Bool.not_eq_true, later, Nat.not_lt]

/-- Positions between characters are in the order of their offsets and tell them apart; sorting the
diagnostics of a script by position is sorting them by offset, and problems met while reading have
positions of the same kind unless they are inside of a line end. -/
theorem positions_by_offset (source : List Char) :
    (∀ o o', Boundary source o → Boundary source o' → o < o' →
      (Position.byFeed source o).before (Position.byFeed source o') = true) ∧
    (∀ o o', Boundary source o → Boundary source o' →
      Position.byFeed source o = Position.byFeed source o' → o = o') ∧
    (∀ forceStrict tree, Script.tree source forceStrict = .ok tree → diagnostics source tree =
      ((Check.script tree).mergeSort fun v w => decide (v.offset ≤ w.offset)).map fun v =>
        ⟨v.problem, Position.byFeed source v.offset⟩) ∧
    (∀ problem o, Boundary source o → ¬ SplitsBreak source o →
      (Script.diagnosticOfReading source ⟨problem, o⟩).position = Position.byFeed source o) := by
  refine ⟨?_, ?_, ?_, ?_⟩
  · intro o o' here there earlier
    exact Position.byFeed_before earlier here there
  · intro o o' here there same
    exact Position.offset_eq_of_byFeed_eq here there same
  · intro forceStrict tree read
    exact diagnostics_eq_sorted (Script.violations_boundary read)
  · intro problem o boundary whole
    exact Script.position_of_reading problem boundary whole

/-- Two problems that are found in the other order, in a source with three kinds of line ends, and a
place in it behind a character of two bytes. -/
theorem positions_by_offset_crossing :
    let source := "const a;\r\n'\u00e9';\r let a".toList
    ∃ tree, Script.tree source false = .ok tree ∧
      Check.script tree = [⟨.alreadyDeclared "a", 21⟩, ⟨.missingInitializer, 6⟩] ∧
      diagnostics source tree =
        [⟨.missingInitializer, ⟨1, 7⟩⟩, ⟨.alreadyDeclared "a", ⟨2, 11⟩⟩] ∧
      (Position.byFeed source 6).before (Position.byFeed source 13) = true ∧
      (Script.diagnosticOfReading source ⟨.unexpectedEnd, 13⟩).position =
        Position.byFeed source 13 := by
  extract_lets source
  obtain ⟨tree, read, found⟩ := Script.exists_tree (f := Check.script)
    (show (Script.tree source false).toOption.map _ =
      some [⟨.alreadyDeclared "a", 21⟩, ⟨.missingInitializer, 6⟩] by decide +kernel)
  obtain ⟨earlier, -, sorted, whole⟩ := positions_by_offset source
  have here : Boundary source 6 := ⟨"const ".toList, _, rfl, by decide⟩
  have there : Boundary source 13 := ⟨"const a;\r\n'\u00e9".toList, _, rfl, by decide⟩
  have apart : ¬ SplitsBreak source 13 := by
    have middle := splitsBreak_iff "const a;\r\n'\u00e9".toList "';\r let a".toList
    exact middle.not.2 (by decide)
  refine ⟨tree, read, found, ?_, ?_, ?_⟩
  · have exchanged (v w : LocatedProblem) (later : w.offset < v.offset) :
        [v, w].mergeSort (fun v w => decide (v.offset ≤ w.offset)) = [w, v] := by
      simp [List.mergeSort, List.MergeSort.Internal.splitInTwo, later]
    rw [sorted false tree read, found, exchanged _ _ (by decide)]
    decide
  · exact earlier 6 13 here there (by decide)
  · exact whole _ 13 there apart

end Program

end ScriptEngine
