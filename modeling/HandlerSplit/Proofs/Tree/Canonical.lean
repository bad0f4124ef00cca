import HandlerSplit.Print.Tree
import HandlerSplit.Proofs.Lexer.Lexemes
import HandlerSplit.Proofs.Tree.Spelling
/-!
# Canonical trees

A tree is canonical if it holds what its printed text can tell: no comments and no line breaks, a
parenthesis around an expression only once, and operators that bind as they are nested.
`Expr.nesting` counts how many levels the parser goes down to read an expression or type.
-/

namespace HandlerSplit

/-! ## Nesting -/

/-- A name, or a name with a package before it. -/
def Expr.isQualified : Expr → Bool
  | .ident _ | .selector (.ident _) _ => true
  | _ => false

mutual

/-- How many levels the parser goes down to read an expression or type. What follows an operand is
on its level, and so are both operands of a binary operator. Bodies are not looked into. -/
def Expr.nesting : Expr → Nat
  | .ident _ => 1
  | .literal _ _ => 1
  | .composite _ es _ => elementsNesting es + 1
  | .funcLit s _ => s.nesting + 1
  | .paren x => x.nesting + 1
  | .selector x _ => x.nesting
  | .index x k => max x.nesting (k.nesting + 1)
  | .slice x l h m => max x.nesting (max (optNesting l) (max (optNesting h) (optNesting m)) + 1)
  | .typeAssert x t => max x.nesting (optNesting t + 1)
  | .call f as _ _ => max f.nesting (elementsNesting as + 1)
  | .star x => x.nesting + 1
  | .unary _ x => x.nesting + 1
  | .binary x _ y _ => max x.nesting y.nesting
  | .keyValue k v => max k.nesting v.nesting
  | .arrayType l x => max (optNesting l) x.nesting + 1
  | .mapType k v => max k.nesting v.nesting + 1
  | .chanType _ x => x.nesting + 1
  | .funcType s => s.nesting + 1
  | .structType fs => fs.nesting + 1
  | .interfaceType fs => fs.nesting + 1
  | .ellipsis x => optNesting x
termination_by structural x => x

/-- The nesting of an expression that may be missing. -/
def optNesting : Option Expr → Nat
  | none => 0
  | some x => x.nesting
termination_by structural x => x

/-- The greatest nesting of elements. -/
def elementsNesting : List Element → Nat
  | [] => 0
  | ⟨x, _⟩ :: es => max x.nesting (elementsNesting es)
termination_by structural es => es

/-- The greatest nesting of the types of fields. -/
def fieldsNesting : List Field → Nat
  | [] => 0
  | ⟨_, x, _, _⟩ :: fs => max x.nesting (fieldsNesting fs)
termination_by structural fs => fs

/-- The greatest nesting of parameters. One that is only a type name is not told from a name before
its list ends, and so is on the level of the list. -/
def paramsNesting : List Field → Nat
  | [] => 0
  | ⟨ns, x, _, _⟩ :: fs =>
    max (if ns.isEmpty && x.isQualified then 0 else x.nesting) (paramsNesting fs)
termination_by structural fs => fs

/-- The nesting of the fields of a parameter list. -/
def FieldList.nesting : FieldList → Nat
  | ⟨fs, _⟩ => paramsNesting fs
termination_by structural fs => fs

/-- The nesting of results; a lone type is no parameter list. -/
def resultsNesting : Option FieldList → Nat
  | none => 0
  | some ⟨fs, _⟩ => if isLoneType fs then fieldsNesting fs else paramsNesting fs
termination_by structural fs => fs

/-- The nesting of parameters and results. -/
def Signature.nesting : Signature → Nat
  | ⟨ps, rs⟩ => max ps.nesting (resultsNesting rs)
termination_by structural s => s

end

theorem nesting_le_of_mem_elements {es : List Element} {e : Element} (he : e ∈ es) :
    e.expr.nesting ≤ elementsNesting es := by
  induction es with
  | nil => cases he
  | cons e' es ih =>
    obtain ⟨x, d⟩ := e'
    rcases List.mem_cons.mp he with rfl | he
    · exact Nat.le_max_left _ _
    · exact Nat.le_trans (ih he) (Nat.le_max_right _ _)

/-! ## Expressions -/

namespace Expr

/-- Whether the expression is an operand with what follows it, and no operator applied. -/
def isOperand : Expr → Bool
  | binary _ _ _ _ | unary _ _ | star _ => false
  | _ => true

/-- Whether the expression is an integer literal. -/
def isInt : Expr → Bool
  | literal .int _ => true
  | _ => false

/-- How strongly the expression binds: as its operator if it is binary, and more than any operator
otherwise. -/
def strength : Expr → Nat
  | binary _ op _ _ => op.precedence
  | _ => 6

/-- A type name, with a package or without. -/
def isTypeName : Expr → Bool
  | ident n => isName n
  | selector (ident p) n => isName p && isName n
  | _ => false

/-- Key and value of a `key: value` element, or the element itself. -/
def parts : Expr → List Expr
  | keyValue k v => [k, v]
  | x => [x]

end Expr

/-- A canonical expression. -/
inductive Expr.Canonical : Expr → Prop
  | ident {name} (hname : isName name = true) : Canonical (.ident name)
  | int {text} (htext : isDecimal text = true) : Canonical (.literal .int text)
  | string {text} (htext : isInterpreted text = true) : Canonical (.literal .string text)
  | paren {x} (hx : Canonical x) (hparen : Print.isParen x = false) : Canonical (.paren x)
  | selector {x name} (hx : Canonical x) (hoperand : x.isOperand = true) (hint : x.isInt = false)
    (hname : isName name = true) : Canonical (.selector x name)
  | index {x key} (hx : Canonical x) (hoperand : x.isOperand = true) (hkey : Canonical key) :
    Canonical (.index x key)
  | slice {x low high max} (hx : Canonical x) (hoperand : x.isOperand = true)
    (hlow : ∀ y ∈ low, Canonical y) (hhigh : ∀ y ∈ high, Canonical y)
    (hmax : ∀ y ∈ max, Canonical y) (hbounds : max.isSome = true → high.isSome = true) :
    Canonical (.slice x low high max)
  | call {fn args} (hfn : Canonical fn) (hoperand : fn.isOperand = true)
    (hargs : ∀ a ∈ args, Canonical a.expr) (hdecs : ∀ a ∈ args, a.decs = .plain) :
    Canonical (.call fn args false .plain)
  | composite {type elements} (htype : type.isTypeName = true)
    (helements : ∀ e ∈ elements, ∀ y ∈ e.expr.parts, Canonical y)
    (hdecs : ∀ e ∈ elements, e.decs = .plain) :
    Canonical (.composite (some type) elements .plain)
  | unary {op x} (hx : Canonical x) (hstrength : x.strength = 6) : Canonical (.unary op x)
  | star {x} (hx : Canonical x) (hstrength : x.strength = 6) : Canonical (.star x)
  | binary {x op y} (hx : Canonical x) (hy : Canonical y) (hleft : op.precedence ≤ x.strength)
    (hright : op.precedence < y.strength) : Canonical (.binary x op y false)

/-- Reading an expression takes at least one level. -/
theorem nesting_pos_of_canonical {x : Expr} (h : x.Canonical) : 0 < x.nesting := by
  induction h with
  | selector _ _ _ _ ih => exact ih
  | index _ _ _ ih => exact Nat.lt_of_lt_of_le ih (Nat.le_max_left _ _)
  | slice _ _ _ _ _ _ ih => exact Nat.lt_of_lt_of_le ih (Nat.le_max_left _ _)
  | call _ _ _ _ ih => exact Nat.lt_of_lt_of_le ih (Nat.le_max_left _ _)
  | binary _ _ _ _ ih => exact Nat.lt_of_lt_of_le ih (Nat.le_max_left _ _)
  | _ => exact Nat.succ_pos _

/-! ## First tokens -/

theorem starts_append {p : TokenKind → Bool} {ks : List TokenKind}
    (h : ∃ k ks', ks = k :: ks' ∧ p k = true) (rest : List TokenKind) :
    ∃ k ks', ks ++ rest = k :: ks' ∧ p k = true := by
  obtain ⟨k, ks', rfl, hk⟩ := h
  exact ⟨k, ks' ++ rest, rfl, hk⟩

/-- The tokens an operand starts with. -/
def startsOperand : TokenKind → Bool
  | .ident _ | .literal _ _ | .punct .lparen => true
  | _ => false

theorem startsOperand_spelling {x : Expr} (h : x.Canonical)
    (hoperand : x.isOperand = true) : ∃ k ks, x.spelling = k :: ks ∧ startsOperand k = true := by
  induction h with
  | ident | int | string => exact ⟨_, _, rfl, rfl⟩
  | paren => exact ⟨_, _, rfl, rfl⟩
  | selector hx hop _ _ ih => exact starts_append (ih hop) _
  | index hx hop _ ih =>
    simp only [Expr.spelling, List.append_assoc]
    exact starts_append (ih hop) _
  | slice hx hop _ _ _ _ ih =>
    simp only [Expr.spelling, List.append_assoc]
    exact starts_append (ih hop) _
  | call hfn hop _ _ ih =>
    simp only [Expr.spelling, List.append_assoc]
    exact starts_append (ih hop) _
  | @composite type elements htype =>
    simp only [Expr.spelling, optSpelling, List.append_assoc]
    cases type with
    | ident name => exact ⟨_, _, rfl, rfl⟩
    | selector x name =>
      cases x with
      | ident pkg => exact ⟨_, _, rfl, rfl⟩
      | _ => cases htype
    | _ => cases htype
  | unary => cases hoperand
  | star => cases hoperand
  | binary => cases hoperand

/-- The tokens an expression starts with. -/
def startsExpr : TokenKind → Bool
  | .op .add | .op .sub | .op .xor | .op .and | .op .mul => true
  | .punct .not | .punct .tilde | .punct .arrow => true
  | k => startsOperand k

theorem startsExpr_of_startsOperand {k : TokenKind} (h : startsOperand k = true) :
    startsExpr k = true := by
  unfold startsExpr
  split <;> first | rfl | exact h

theorem startsExpr_spelling {x : Expr} (h : x.Canonical) :
    ∃ k ks, x.spelling = k :: ks ∧ startsExpr k = true := by
  by_cases hoperand : x.isOperand = true
  · obtain ⟨k, ks, hks, hk⟩ := startsOperand_spelling h hoperand
    exact ⟨k, ks, hks, startsExpr_of_startsOperand hk⟩
  · induction h with
    | @unary op => exact ⟨op.kind, _, rfl, by cases op <;> rfl⟩
    | star => exact ⟨_, _, rfl, rfl⟩
    | @binary x _ _ hx _ _ _ ih =>
      have hstart : ∃ k ks, x.spelling = k :: ks ∧ startsExpr k = true := by
        by_cases hop : x.isOperand = true
        · obtain ⟨k, ks, hks, hk⟩ := startsOperand_spelling hx hop
          exact ⟨k, ks, hks, startsExpr_of_startsOperand hk⟩
        · exact ih hop
      exact starts_append (starts_append hstart _) _
    | _ => exact absurd rfl hoperand

/-! ## Types -/

namespace Expr

/-- The type of a variadic parameter without the dots. -/
def variadicElem : Expr → Expr
  | ellipsis (some t) => t
  | t => t

/-- Whether the expression is a channel type that starts with the arrow. -/
def isRecvChan : Expr → Bool
  | chanType .recv _ => true
  | _ => false

end Expr

/-- The length of an array type: absent, `...` or a decimal integer. -/
def isLength : Option Expr → Bool
  | none => true
  | some (.ellipsis none) => true
  | some (.literal .int t) => isDecimal t
  | _ => false

/-- Fields on one line, all of them named or none. -/
structure FieldList.Uniform (fs : FieldList) : Prop where
  enclosure : fs.enclosure = .plain
  tags : ∀ f ∈ fs.fields, f.tag = none
  decs : ∀ f ∈ fs.fields, f.decs = .plain
  names : ∀ f ∈ fs.fields, ∀ name ∈ f.names, isName name = true
  named : (∀ f ∈ fs.fields, f.names ≠ []) ∨ (∀ f ∈ fs.fields, f.names = [])

namespace Signature

/-- The types of a signature, those of variadic parameters without the dots. -/
def types (s : Signature) : List Expr :=
  s.params.fields.map (·.type.variadicElem) ++ (s.results.elim [] (·.fields)).map (·.type)

theorem mem_types_of_params (s : Signature) {f : Field} (hf : f ∈ s.params.fields) :
    f.type.variadicElem ∈ s.types :=
  List.mem_append_left _ (List.mem_map_of_mem hf)

theorem mem_types_of_results (s : Signature) {fs : FieldList} (hfs : fs ∈ s.results) {f : Field}
    (hf : f ∈ fs.fields) : f.type ∈ s.types := by
  refine List.mem_append_right _ (List.mem_map.mpr ⟨f, ?_, rfl⟩)
  rw [Option.mem_def.mp hfs]
  exact hf

/-- The layout of a canonical signature. A lone result without a name is not parenthesized. -/
structure Shaped (s : Signature) : Prop where
  params : s.params.Uniform
  results : ∀ rs ∈ s.results, rs.Uniform
  lone : ∀ rs ∈ s.results, ∀ f, rs.fields = [f] → f.names = [] → Print.isParen f.type = false

end Signature

/-- A canonical type. -/
inductive Expr.CanonicalType : Expr → Prop
  | ident {name} (hname : isName name = true) : CanonicalType (.ident name)
  | qualified {pkg name} (hpkg : isName pkg = true) (hname : isName name = true) :
    CanonicalType (.selector (.ident pkg) name)
  | star {x} (hx : CanonicalType x) : CanonicalType (.star x)
  | paren {x} (hx : CanonicalType x) (hparen : Print.isParen x = false) : CanonicalType (.paren x)
  | array {len x} (hlen : isLength len = true) (hx : CanonicalType x) :
    CanonicalType (.arrayType len x)
  | map {k v} (hk : CanonicalType k) (hv : CanonicalType v) : CanonicalType (.mapType k v)
  | chan {dir x} (hx : CanonicalType x) (hdir : dir = .both → x.isRecvChan = false) :
    CanonicalType (.chanType dir x)
  | func {sig} (hsig : sig.Shaped) (htypes : ∀ t ∈ sig.types, CanonicalType t) :
    CanonicalType (.funcType sig)
  | struct : CanonicalType (.structType (.of []))
  | interface : CanonicalType (.interfaceType (.of []))

theorem variadicElem_of_canonicalType {t : Expr} (h : t.CanonicalType) : t.variadicElem = t := by
  cases h <;> rfl

end HandlerSplit
