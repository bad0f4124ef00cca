import HandlerSplit.Handler.Conventions
import HandlerSplit.Print.Tree
import HandlerSplit.Tree.Rewrite
/-!
# Rewriting in place

`Read` is given the service version as a parameter, so what it selects from the active
version of the service becomes that parameter. The values a constructor returns are put into
a call of the wrapper.
-/

namespace HandlerSplit

/-- The outcome of a change in place: the declaration as it is afterwards, also on failure. -/
structure Edited (δ α : Type) where
  subject : δ
  result : Except ErrorKind α

/-! ## `Read` -/

/-- `m`, for an expression `s.m.f` on the service variable. -/
def middleSelector? (serviceVar : String) (x : Expr) : Option String :=
  match x with
  | .selector (.selector base middle) _ => if base.isIdent serviceVar then some middle else none
  | _ => none

/-- What has happened to `Read` so far. -/
structure ReadProgress where
  /-- Selectors replaced. -/
  rewritten : Nat := 0
  /-- The first selector that could not be replaced; nothing is changed after it. -/
  offending : Option Expr := none

/-- Replaces `s.ActiveVersion.f` by the version parameter, up to the first `s.m.f` with
another `m`. -/
def versionBinder (c : Conventions) : Rewriter ReadProgress :=
  { Rewriter.idle with
    onExpr := fun x => do
      let progress ← get
      if progress.offending.isSome then return .put x
      match middleSelector? c.serviceVar x with
      | none => return .enter
      | some middle =>
        if middle == c.activeVersion then
          set { progress with rewritten := progress.rewritten + 1 }
          return .put (.ident c.versionParam)
        else
          set { progress with offending := some x }
          return .put x }

/-- Rewrites a body that may be missing. -/
def rewriteBody {σ : Type} (r : Rewriter σ) (s : σ) : Option Block → Option Block × σ
  | some body =>
    let (body, s) := (body.rewrite r).run s
    (some body, s)
  | none => (none, s)

/-- Rewrites `Read`. The body is changed before the parameters, and stays changed when a
selector cannot be replaced or a type of the conventions is not one. -/
def rewriteRead (c : Conventions) (read : FuncDecl) : Traced (Edited FuncDecl Nat) := do
  let (body, progress) := rewriteBody (versionBinder c) {} read.body
  let changed := { read with body := body }
  match progress.offending with
  | some x => return ⟨changed, .error (.unexpectedSelector x.print)⟩
  | none =>
    match c.handlerParams .blank with
    | .error kind => return ⟨changed, .error kind⟩
    | .ok params =>
      report (.readRebound read.name progress.rewritten)
      return ⟨{ changed with signature := { read.signature with params := params } },
        .ok progress.rewritten⟩

/-! ## The constructor -/

/-- Puts the value of every `return` with a single value into a call. The value is not
looked into. -/
def returnWrapper (wrapper : String) : Rewriter Nat :=
  { Rewriter.idle with
    onStmt := fun s => do
      match s.kind with
      | .returns [value] =>
        modify (· + 1)
        return .put { s with kind := .returns [.callOf (.ident wrapper) [value]] }
      | _ => return .enter }

/-- Wraps the values a constructor returns, and counts them. -/
def wrapReturns (wrapper : String) (ctor : FuncDecl) : Traced (FuncDecl × Nat) := do
  let (body, wrapped) := rewriteBody (returnWrapper wrapper) 0 ctor.body
  report (.returnsWrapped ctor.name wrapper wrapped)
  return ({ ctor with body := body }, wrapped)

end HandlerSplit
