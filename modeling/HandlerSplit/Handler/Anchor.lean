import HandlerSplit.Print.Tree
import HandlerSplit.Trace
/-!
# Anchors

The declarations a rewrite is anchored on: the methods `Process`, `Register` and `Read`, and
a constructor whose name holds `New`. Each resolves to the last function that matches it,
and the receiver of `Process` names the handler type.
-/

namespace HandlerSplit

/-- Whether a text occurs in another. -/
def occursIn (part : List Char) : List Char → Bool
  | [] => part.isEmpty
  | c :: cs => part.isPrefixOf (c :: cs) || occursIn part cs

/-- The anchor declarations. -/
inductive Anchor where
  | process | register | read | ctor
  deriving DecidableEq, Repr

/-- How the names of declarations are matched. -/
inductive AnchorPolicy where
  /-- The name contains the fragment of the anchor. -/
  | lastContaining
  /-- The name is the fragment, or starts with it for the constructor. -/
  | exact
  deriving DecidableEq, Repr

namespace Anchor

/-- All anchors, in the order in which they are resolved. -/
def all : List Anchor :=
  [process, register, read, ctor]

/-- The fragment of a name the anchor is looked up by. -/
def fragment : Anchor → String
  | process => "Process"
  | register => "Register"
  | read => "Read"
  | ctor => "New"

/-- Whether a declaration of this name is a candidate. -/
def admits (a : Anchor) (policy : AnchorPolicy) (name : String) : Bool :=
  match policy, a with
  | .lastContaining, _ => occursIn a.fragment.toList name.toList
  | .exact, ctor => a.fragment.toList.isPrefixOf name.toList
  | .exact, _ => name == a.fragment

/-- The candidates for an anchor, with their positions. -/
def candidates (a : Anchor) (policy : AnchorPolicy) (file : SourceFile) :
    List (Nat × FuncDecl) :=
  file.funcs.filter fun (_, f) => a.admits policy f.name

/-- The position of the last candidate. -/
def find (a : Anchor) (policy : AnchorPolicy) (file : SourceFile) : Attempt Nat := do
  let candidates := a.candidates policy file
  match candidates.getLast? with
  | none => fail (.notFound a.fragment)
  | some (i, f) =>
    if candidates.length > 1 then
      report (.anchorAmbiguous a.fragment (candidates.map (·.2.name)) f.name)
    report (.anchorResolved a.fragment f.name)
    return i

end Anchor

/-- `H`, for the type `*H`. -/
def Expr.pointee? : Expr → Option String
  | .star x => x.ident?
  | _ => none

/-- The handler type `H` of a method on `*H`. -/
def FuncDecl.handlerType (f : FuncDecl) : Except ErrorKind String :=
  match f.receiverType with
  | none => .error (.invalidReceiver "no receiver")
  | some type =>
    match type.pointee? with
    | some handler => .ok handler
    | none => .error (.invalidReceiver type.print)

/-- The positions of the anchors in a file, and the handler type. -/
structure DeclIndex where
  process : Nat
  register : Nat
  read : Nat
  ctor : Nat
  handler : String
  deriving DecidableEq, Repr

namespace DeclIndex

/-- The position of an anchor. -/
def position (index : DeclIndex) : Anchor → Nat
  | .process => index.process
  | .register => index.register
  | .read => index.read
  | .ctor => index.ctor

/-- Resolves all anchors of a file. -/
def build (policy : AnchorPolicy) (file : SourceFile) : Attempt DeclIndex := do
  let process ← Anchor.process.find policy file
  let register ← Anchor.register.find policy file
  let read ← Anchor.read.find policy file
  let ctor ← Anchor.ctor.find policy file
  match file.func? process with
  | none => fail (.notFound Anchor.process.fragment)
  | some f =>
    match f.handlerType with
    | .error kind => fail kind
    | .ok handler =>
      match (file.func? register).bind FuncDecl.receiverType with
      | some type =>
        if type.pointee? != some handler then
          report (.receiverDiffers handler type.print)
      | none => pure ()
      return ⟨process, register, read, ctor, handler⟩

end DeclIndex

end HandlerSplit
