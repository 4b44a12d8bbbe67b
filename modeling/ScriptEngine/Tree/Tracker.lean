import ScriptEngine.Tree.Basic

/-!
# Tracking declarations

While a tree is being built, a frame is open for every function and every block around the place
that is being read, the innermost first. Names are declared into the innermost frame; a `var` also
goes to every frame up to the nearest function. Closing a frame yields the scope of what was
declared in it, so that a scope is only ever seen complete.
-/
namespace ScriptEngine

/-- An open scope. -/
structure ScopeFrame where
  isFunction : Bool
  scope : Scope

/-- The open scopes, the innermost first. -/
structure Tracker where
  frames : List ScopeFrame

/-- How a name is declared. -/
inductive NameKind where
  | declared (kind : DeclarationKind)
  | parameter
deriving DecidableEq, Repr

/-- Adds a `var` name to the frames up to the nearest function. -/
def declareVar (id : Identifier) : List ScopeFrame → List ScopeFrame
  | [] => []
  | frame :: outer =>
    let frame := { frame with scope := { frame.scope with vars := frame.scope.vars ++ [id] } }
    frame :: (if frame.isFunction then outer else declareVar id outer)

namespace Tracker

def empty : Tracker := ⟨[]⟩

def depth (t : Tracker) : Nat := t.frames.length

/-- Whether the innermost scope is strict. -/
def isStrict (t : Tracker) : Bool := (t.frames.head?.map (·.scope.strict)).getD false

/-- Opens a function scope, strict by its own directive or by what surrounds it. -/
def openFunction (t : Tracker) (directive : Bool) : Tracker :=
  ⟨⟨true, .empty (directive || t.isStrict)⟩ :: t.frames⟩

def openBlock (t : Tracker) : Tracker := ⟨⟨false, .empty t.isStrict⟩ :: t.frames⟩

/-- Closes the innermost scope, if one is open. -/
def close? (t : Tracker) : Option (Scope × Tracker) :=
  match t.frames with
  | [] => none
  | frame :: outer => some (frame.scope, ⟨outer⟩)

/-- Abandons all but the outermost `depth` scopes. -/
def abandonTo (t : Tracker) (depth : Nat) : Tracker := ⟨t.frames.drop (t.depth - depth)⟩

/-- Changes the innermost scope. -/
def modifyScope (t : Tracker) (change : Scope → Scope) : Tracker :=
  match t.frames with
  | [] => t
  | frame :: outer => ⟨{ frame with scope := change frame.scope } :: outer⟩

def declare (t : Tracker) (id : Identifier) : NameKind → Tracker
  | .declared .var => ⟨declareVar id t.frames⟩
  | .declared .let => t.modifyScope fun s => { s with lexical := s.lexical ++ [⟨id, false⟩] }
  | .declared .const => t.modifyScope fun s => { s with lexical := s.lexical ++ [⟨id, true⟩] }
  | .parameter => t.modifyScope fun s => { s with parameters := s.parameters ++ [id] }

/-- Records a function declaration in the innermost scope. -/
def declareFunction (t : Tracker) (code : FunctionCode) : Tracker :=
  t.modifyScope fun s => { s with functions := s.functions ++ [code] }

end Tracker

end ScriptEngine
