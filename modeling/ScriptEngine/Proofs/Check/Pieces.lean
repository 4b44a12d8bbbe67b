import ScriptEngine.Tree.Basic

/-!
# The pieces of a tree

A tree is made of pieces: the script itself, statements, expressions, functions and so on, each with
the pieces directly below it (`Piece.below`). `Occurs` says where in a tree a piece stands: below
which pieces, the innermost first. So what is around a place can be asked for without walking down
to it: the labels and loops of the same function (`Path.here`), or whether the code is strict.
-/
namespace ScriptEngine

inductive Piece where
  | script (tree : ScriptTree)
  | function (code : FunctionCode)
  | statement (s : Statement)
  | expression (e : Expression)
  | block (body : Block)
  | clause (clause : Case)
  | handler (clause : Handler)
  /-- A declarator of a declaration of this kind. -/
  | declarator (kind : DeclarationKind) (part : Declarator)

/-- The value or function of a property. -/
def PropertyNode.piece : PropertyNode → Piece
  | .data _ _ value => .expression value
  | .getter _ _ code | .setter _ _ code => .function code

def Declaration.pieces (d : Declaration) : List Piece :=
  d.declarators.map (.declarator d.kind)

def ForInit.pieces : ForInit → List Piece
  | .declaration d => d.pieces
  | .expression value => [.expression value]

def ForTarget.pieces : ForTarget → List Piece
  | .declaration .. => []
  | .expression place => [.expression place]

def Expression.pieces : Expression → List Piece
  | .literal .. | .identifier _ | .this _ => []
  | .array _ elements => (elements.filterMap id).map .expression
  | .object _ nodes => nodes.map PropertyNode.piece
  | .function code => [.function code]
  | .unary _ _ argument | .update _ _ _ argument => [.expression argument]
  | .binary _ _ left right | .logical _ _ left right | .assign _ _ left right
  | .index _ left right => [.expression left, .expression right]
  | .conditional _ test consequent alternate =>
    [.expression test, .expression consequent, .expression alternate]
  | .member _ owner _ => [.expression owner]
  | .call _ callee arguments | .new _ callee arguments =>
    .expression callee :: arguments.map .expression
  | .sequence _ parts => parts.map .expression

def Statement.pieces : Statement → List Piece
  | .expression _ value | .throws _ value => [.expression value]
  | .block body => [.block body]
  | .empty _ | .debugger _ | .breaks .. | .continues .. => []
  | .returns _ argument => argument.toList.map .expression
  | .labelled _ _ body => [.statement body]
  | .branch _ test consequent alternate =>
    .expression test :: .statement consequent :: alternate.toList.map .statement
  | .select _ discriminant clauses _ => .expression discriminant :: clauses.map .clause
  | .attempt _ body clause finalizer =>
    .block body :: (clause.toList.map .handler ++ finalizer.toList.map .block)
  | .whileLoop _ test body | .doLoop _ body test => [.expression test, .statement body]
  | .forLoop _ init test update body _ =>
    init.toList.flatMap ForInit.pieces ++ (test.toList.map .expression ++
      (update.toList.map .expression ++ [.statement body]))
  | .forInLoop _ left right body _ => left.pieces ++ [.expression right, .statement body]
  | .function code => [.function code]
  | .declaration d => d.pieces

namespace Piece

/-- The pieces directly below a piece, from left to right. -/
def below : Piece → List Piece
  | script tree => tree.body.map statement
  | function code => code.body.map statement
  | statement s => s.pieces
  | expression e => e.pieces
  | block body => body.body.map statement
  | clause part => part.test.toList.map expression ++ part.consequent.map statement
  | handler part => [block part.body]
  | declarator _ part => part.init.toList.map expression

/-- The scope of a whole script or function. -/
def codeScope? : Piece → Option Scope
  | script tree => some tree.scope
  | function code => some code.scope
  | _ => none

def IsFunction (piece : Piece) : Prop := ∃ code, piece = function code

/-- The label of a labelled statement, and whether the statement behind its labels is a loop. -/
def label? : Piece → Option (String × Bool)
  | statement (.labelled _ id body) => some (id.name, body.unlabelled.isLoop)
  | _ => none

def isLoop : Piece → Bool
  | statement s => s.isLoop
  | _ => false

def isSwitch : Piece → Bool
  | statement (.select ..) => true
  | _ => false

end Piece

/-- The pieces around a place, the innermost first. -/
abbrev Path := List Piece

namespace Path

/-- The pieces around a place in the same function, or in the script itself. -/
def here (path : Path) : List Piece := path.takeWhile (·.codeScope?.isNone)

/-- Whether the place is in strict code: so is the innermost function, or the script, around it. -/
def isStrict (path : Path) : Bool := (path.findSome? Piece.codeScope?).any (·.strict)

end Path

/-- A piece stands somewhere in another, with what is around it up to and with the other one. -/
inductive Occurs (whole : Piece) : Path → Piece → Prop where
  | whole : Occurs whole [] whole
  | inside {path : Path} {outer inner : Piece} (occurs : Occurs whole path outer)
    (mem : inner ∈ outer.below) : Occurs whole (outer :: path) inner

/-- What stands in a piece stands in the pieces above it. -/
theorem Occurs.of_below {whole inner piece : Piece} {path : Path} (occurs : Occurs inner path piece)
    (mem : inner ∈ whole.below) : Occurs whole (path ++ [whole]) piece := by
  induction occurs with
  | whole => exact .inside .whole mem
  | inside _ below ih => exact .inside ih below

/-- What holds of all pieces in a piece, in whatever stands around it, holds of itself and of all
pieces in those directly below it. -/
theorem forall_occurs_iff {P : Path → Piece → Prop} {whole : Piece} {around : Path} :
    (∀ path piece, Occurs whole path piece → P (path ++ around) piece) ↔
      P around whole ∧ ∀ inner ∈ whole.below,
        ∀ path piece, Occurs inner path piece → P (path ++ whole :: around) piece := by
  constructor
  · intro all
    refine ⟨all [] whole .whole, fun inner mem path piece occurs => ?_⟩
    have holds := all _ _ (occurs.of_below mem)
    rwa [List.append_assoc, List.singleton_append] at holds
  · rintro ⟨own, inside⟩ path piece occurs
    have placed : path = [] ∧ piece = whole ∨ ∃ inner ∈ whole.below, ∃ front,
        path = front ++ [whole] ∧ Occurs inner front piece := by
      induction occurs with
      | whole => exact .inl ⟨rfl, rfl⟩
      | inside _ mem ih =>
        rcases ih with ⟨rfl, rfl⟩ | ⟨inner, first, front, rfl, within⟩
        · exact .inr ⟨_, mem, [], rfl, .whole⟩
        · exact .inr ⟨inner, first, _ :: front, rfl, .inside within mem⟩
    rcases placed with ⟨rfl, rfl⟩ | ⟨inner, mem, front, rfl, within⟩
    · exact own
    · have holds := inside inner mem front piece within
      rwa [List.append_assoc, List.singleton_append]

end ScriptEngine
