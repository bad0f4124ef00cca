import HandlerSplit.Proofs.Tree.Words
/-!
# Spellings

A script is what the grammar sees of a text: its tokens and its line breaks. A tree without layout
of its own is written with one script, whatever the widths and depths that decide about its spaces.
`Expr.spelling` gives the tokens of an expression or type that stays on one line.
-/

namespace HandlerSplit

/-- A token, or the end of a line. -/
inductive Glyph where
  | token (kind : TokenKind)
  | lineBreak
  deriving DecidableEq, Repr

/-- Tokens and line breaks, in order. -/
abbrev Script := List Glyph

namespace Script

/-- Tokens on one line. -/
def line (ks : List TokenKind) : Script :=
  ks.map .token

@[simp] theorem line_nil : line [] = [] :=
  rfl

@[simp] theorem line_cons (k : TokenKind) (ks : List TokenKind) :
    line (k :: ks) = .token k :: line ks :=
  rfl

@[simp] theorem line_append (ks ks' : List TokenKind) : line (ks ++ ks') = line ks ++ line ks' :=
  List.map_append

/-- The tokens of a script. -/
def kinds : Script → List TokenKind
  | [] => []
  | .token k :: s => k :: kinds s
  | .lineBreak :: s => kinds s

@[simp] theorem kinds_append (s s' : Script) : kinds (s ++ s') = kinds s ++ kinds s' := by
  induction s with
  | nil => rfl
  | cons g s ih => cases g <;> simp [kinds, ih]

@[simp] theorem kinds_line (ks : List TokenKind) : kinds (line ks) = ks := by
  induction ks with
  | nil => rfl
  | cons k ks ih => exact congrArg (k :: ·) ih

/-- The number of tokens of a script. -/
def size : Script → Nat
  | [] => 0
  | .token _ :: s => size s + 1
  | .lineBreak :: s => size s

@[simp] theorem size_append (s s' : Script) : size (s ++ s') = size s + size s' := by
  induction s with
  | nil => exact (Nat.zero_add _).symm
  | cons g s ih => cases g <;> simp [size, ih, Nat.add_right_comm]

@[simp] theorem size_line (ks : List TokenKind) : size (line ks) = ks.length := by
  induction ks with
  | nil => rfl
  | cons k ks ih => simp [size, ih]

end Script

/-- Lists of tokens with commas between them. -/
def separated (kss : List (List TokenKind)) : List TokenKind :=
  (kss.intersperse [.punct .comma]).flatten

@[simp] theorem separated_nil : separated [] = [] :=
  rfl

@[simp] theorem separated_singleton (ks : List TokenKind) : separated [ks] = ks :=
  List.append_nil ks

@[simp] theorem separated_cons_cons (ks ks' : List TokenKind) (kss : List (List TokenKind)) :
    separated (ks :: ks' :: kss) = ks ++ .punct .comma :: separated (ks' :: kss) :=
  rfl

theorem length_separated_cons_cons (ks ks' : List TokenKind) (kss : List (List TokenKind)) :
    (separated (ks :: ks' :: kss)).length = ks.length + ((separated (ks' :: kss)).length + 1) := by
  rw [separated_cons_cons, List.length_append, List.length_cons]

theorem length_le_separated {ks : List TokenKind} {kss : List (List TokenKind)} (h : ks ∈ kss) :
    ks.length ≤ (separated kss).length := by
  induction kss with
  | nil => cases h
  | cons ks₁ kss ih =>
    cases kss with
    | nil =>
      obtain rfl := List.mem_singleton.mp h
      exact Nat.le_of_eq (congrArg _ (separated_singleton ks).symm)
    | cons ks₂ kss =>
      rw [length_separated_cons_cons]
      rcases List.mem_cons.mp h with rfl | h
      · omega
      · have := ih h
        omega

theorem mem_separated {k : TokenKind} {kss : List (List TokenKind)} (h : k ∈ separated kss) :
    k = .punct .comma ∨ ∃ ks ∈ kss, k ∈ ks := by
  induction kss with
  | nil => cases h
  | cons ks₁ kss ih =>
    cases kss with
    | nil =>
      rw [separated_singleton] at h
      exact .inr ⟨ks₁, List.mem_singleton_self _, h⟩
    | cons ks₂ kss =>
      rw [separated_cons_cons, List.mem_append, List.mem_cons] at h
      rcases h with h | rfl | h
      · exact .inr ⟨ks₁, List.mem_cons_self, h⟩
      · exact .inl rfl
      · exact (ih h).imp_right fun ⟨ks, hks, hk⟩ => ⟨ks, List.mem_cons_of_mem _ hks, hk⟩

theorem mem_separated_of_mem {k : TokenKind} {ks : List TokenKind} {kss : List (List TokenKind)}
    (hks : ks ∈ kss) (hk : k ∈ ks) : k ∈ separated kss := by
  induction kss with
  | nil => cases hks
  | cons ks₁ kss ih =>
    cases kss with
    | nil =>
      obtain rfl := List.mem_singleton.mp hks
      rwa [separated_singleton]
    | cons ks₂ kss =>
      rw [separated_cons_cons, List.mem_append, List.mem_cons]
      rcases List.mem_cons.mp hks with rfl | hks
      · exact .inl hk
      · exact .inr (.inr (ih hks))

/-- There is a comma between any two lists. -/
theorem card_le_separated (kss : List (List TokenKind)) :
    kss.length ≤ (separated kss).length + 1 := by
  induction kss with
  | nil => exact Nat.zero_le _
  | cons ks₁ kss ih =>
    cases kss with
    | nil => exact Nat.le_add_left 1 _
    | cons ks₂ kss =>
      rw [length_separated_cons_cons, List.length_cons]
      omega

/-- Whether fields are a single type without a name. -/
def isLoneType : List Field → Bool
  | [f] => f.names.isEmpty
  | _ => false

/-! ## Expressions and types -/

mutual

/-- The tokens of an expression or type. Structs and interfaces are spelled without members, and
function literals without their bodies. -/
def Expr.spelling : Expr → List TokenKind
  | .ident n => [.ident n]
  | .literal k t => [.literal k t]
  | .composite t es _ =>
    optSpelling t ++ [.punct .lbrace] ++ separated (elementSpellings es) ++ [.punct .rbrace]
  | .paren x => [.punct .lparen] ++ x.spelling ++ [.punct .rparen]
  | .selector x n => x.spelling ++ [.punct .period, .ident n]
  | .index x k => x.spelling ++ [.punct .lbracket] ++ k.spelling ++ [.punct .rbracket]
  | .slice x l h m =>
    x.spelling ++ [.punct .lbracket] ++ optSpelling l ++ [.punct .colon] ++ optSpelling h ++
      maxSpelling m ++ [.punct .rbracket]
  | .call f as _ _ =>
    f.spelling ++ [.punct .lparen] ++ separated (elementSpellings as) ++ [.punct .rparen]
  | .star x => [.op .mul] ++ x.spelling
  | .unary o x => [o.kind] ++ x.spelling
  | .binary x o y _ => x.spelling ++ [.op o] ++ y.spelling
  | .keyValue k v => k.spelling ++ [.punct .colon] ++ v.spelling
  | .arrayType l x => [.punct .lbracket] ++ optSpelling l ++ [.punct .rbracket] ++ x.spelling
  | .mapType k v =>
    [.keyword .map, .punct .lbracket] ++ k.spelling ++ [.punct .rbracket] ++ v.spelling
  | .chanType d x => d.words ++ x.spelling
  | .funcType s => [.keyword .func] ++ s.spelling
  | .structType _ => [.keyword .struct, .punct .lbrace, .punct .rbrace]
  | .interfaceType _ => [.keyword .interface, .punct .lbrace, .punct .rbrace]
  | .ellipsis x => [.punct .ellipsis] ++ optSpelling x
  | .funcLit s _ => [.keyword .func] ++ s.spelling
  | .typeAssert x t =>
    x.spelling ++ [.punct .period, .punct .lparen] ++ assertedSpelling t ++ [.punct .rparen]
termination_by structural x => x

/-- The tokens of an expression that may be missing. -/
def optSpelling : Option Expr → List TokenKind
  | none => []
  | some x => x.spelling
termination_by structural x => x

/-- The tokens of the third bound of a slice, with the colon before it. -/
def maxSpelling : Option Expr → List TokenKind
  | none => []
  | some x => [.punct .colon] ++ x.spelling
termination_by structural x => x

/-- The tokens of the type that is asserted, or of the guard of a type switch. -/
def assertedSpelling : Option Expr → List TokenKind
  | none => [.keyword .type]
  | some t => t.spelling
termination_by structural x => x

/-- The tokens of elements, one list for each. -/
def elementSpellings : List Element → List (List TokenKind)
  | [] => []
  | ⟨x, _⟩ :: es => x.spelling :: elementSpellings es
termination_by structural es => es

/-- The tokens of fields, one list for each. -/
def fieldSpellings : List Field → List (List TokenKind)
  | [] => []
  | ⟨ns, x, _, _⟩ :: fs =>
    (separated (ns.map fun n => [.ident n]) ++ x.spelling) :: fieldSpellings fs
termination_by structural fs => fs

/-- The tokens of a parameter list, with its parentheses. -/
def FieldList.spelling : FieldList → List TokenKind
  | ⟨fs, _⟩ => [.punct .lparen] ++ separated (fieldSpellings fs) ++ [.punct .rparen]
termination_by structural fs => fs

/-- The tokens of results; a lone type has no parentheses. -/
def resultsSpelling : Option FieldList → List TokenKind
  | none => []
  | some ⟨fs, _⟩ =>
    if isLoneType fs then (fieldSpellings fs).flatten
    else [.punct .lparen] ++ separated (fieldSpellings fs) ++ [.punct .rparen]
termination_by structural fs => fs

/-- The tokens of a signature. -/
def Signature.spelling : Signature → List TokenKind
  | ⟨ps, rs⟩ => ps.spelling ++ resultsSpelling rs
termination_by structural s => s

end

attribute [grind =] Expr.spelling optSpelling FieldList.spelling Signature.spelling

theorem elementSpellings_eq (es : List Element) :
    elementSpellings es = es.map (·.expr.spelling) := by
  induction es with
  | nil => rfl
  | cons e es ih =>
    obtain ⟨x, d⟩ := e
    exact congrArg (x.spelling :: ·) ih

theorem fieldSpellings_eq (fs : List Field) : fieldSpellings fs =
    fs.map fun f => separated (f.names.map fun n => [.ident n]) ++ f.type.spelling := by
  induction fs with
  | nil => rfl
  | cons f fs ih =>
    obtain ⟨ns, x, tag, d⟩ := f
    exact congrArg (_ :: ·) ih

/-- A single type without a name is spelled as it is. -/
theorem exists_of_isLoneType {fs : List Field} (h : isLoneType fs = true) :
    ∃ f, fs = [f] ∧ f.names = [] ∧ (fieldSpellings fs).flatten = f.type.spelling := by
  cases fs with
  | nil => cases h
  | cons f fs =>
    cases fs with
    | nil =>
      obtain ⟨ns, t, tag, d⟩ := f
      obtain rfl : ns = [] := List.isEmpty_iff.mp h
      exact ⟨_, rfl, rfl, List.append_nil _⟩
    | cons => cases h

/-- The fields of results are spelled in them, with parentheses around them or without. -/
theorem sublist_resultsSpelling (fs : List Field) (e : Enclosure) :
    (separated (fieldSpellings fs)).Sublist (resultsSpelling (some ⟨fs, e⟩)) := by
  rw [resultsSpelling]
  split
  · rename_i hlone
    obtain ⟨f, rfl, -⟩ := exists_of_isLoneType hlone
    have hsame : separated (fieldSpellings [f]) = (fieldSpellings [f]).flatten := by
      rw [fieldSpellings_eq, List.map_singleton, separated_singleton, List.flatten_singleton]
    exact hsame ▸ List.Sublist.refl _
  · exact (List.infix_append _ _ _).sublist

end HandlerSplit
