import HandlerSplit.Proofs.Print.Script
import HandlerSplit.Proofs.Print.Uncommented
import HandlerSplit.Proofs.Tree.Settled
/-!
# Printing canonical trees

A canonical tree is printed with its tokens and no others, on one line. The style and the place
decide only about the spaces between them (`spells_of_canonical`, `spells_of_canonicalType`).
-/

namespace HandlerSplit.Print

/-- An output on one line, with the tokens `ks`. -/
def Spells (o : Output) (ks : List TokenKind) : Prop :=
  o.script = Script.line ks

namespace Spells

variable {a b : Output} {ks ks' : List TokenKind}

theorem nil : Spells [] [] :=
  rfl

/-- Two outputs on one line spell their tokens in order. -/
theorem append (ha : Spells a ks) (hb : Spells b ks') : Spells (a ++ b) (ks ++ ks') := by
  rw [Spells, Output.script_append, ha, hb, Script.line_append]

/-- A space is no token. -/
theorem space (h : Spells a ks) : Spells (.space :: a) ks :=
  h

/-- A plain token is spelled as its text. -/
theorem word {k : TokenKind} (hk : k.Plain) (h : Spells a ks) :
    Spells (.word k.text :: a) (k :: ks) := by
  rw [Spells, Output.script_word, kindOf_text hk.legible, h]
  rfl

/-- A mark is spelled as it is written. -/
theorem mark (m : Punct) (h : Spells a ks) : Spells (.word m.spelling :: a) (.punct m :: ks) :=
  word (plain_punct m) h

theorem keyword (w : Keyword) (h : Spells a ks) : Spells (keywordPiece w :: a) (.keyword w :: ks) :=
  word (plain_keyword w) h

theorem op (o : BinaryOp) (h : Spells a ks) : Spells (.word o.spelling :: a) (.op o :: ks) :=
  word (plain_op o) h

/-- A name is spelled as it is written. -/
theorem name {n : String} (hn : isName n = true) (h : Spells a ks) :
    Spells (.word n :: a) (.ident n :: ks) :=
  word (plain_ident hn) h

theorem cast (h : Spells a ks) (hks : ks = ks') : Spells a ks' :=
  hks ▸ h

/-- A space that may stand before an output. -/
theorem spaceIf (isSpaced : Bool) (h : Spells a ks) :
    Spells (if isSpaced then .space :: a else a) ks := by
  cases isSpaced <;> exact h

/-- A space that may stand behind an output. -/
theorem thenSpace (isSpaced : Bool) (h : Spells a ks) :
    Spells (a ++ if isSpaced then [.space] else []) ks := by
  refine (h.append (?_ : Spells _ [])).cast (List.append_nil ks)
  cases isSpaced <;> rfl

/-- Outputs with commas between them. -/
theorem commaSeparated {os : List Output} {kss : List (List TokenKind)}
    (h : List.Forall₂ Spells os kss) : Spells (Output.commaSeparated os) (separated kss) := by
  induction h with
  | nil => exact .nil
  | cons ho hos ih =>
    cases hos with
    | nil =>
      rw [separated_singleton, Output.commaSeparated, Output.joined_singleton]
      exact ho
    | cons ho' hos =>
      rw [separated_cons_cons, Output.commaSeparated, Output.joined_cons_cons]
      exact ho.append (mark .comma ih.space)

/-- Names are spelled with commas between them. -/
theorem names {ns : List String} (h : ∀ n ∈ ns, isName n = true) :
    Spells (Output.names ns) (separated (ns.map fun n => [.ident n])) := by
  refine commaSeparated ?_
  rw [List.forall₂_map_left_iff, List.forall₂_map_right_iff, List.forall₂_same]
  exact fun n hn => name (h n hn) nil

end Spells

/-! ## Lists -/

/-- Nodes without layout stand on one line. -/
theorem breaksFrom_plain {ds : List Decorations} (h : ∀ d ∈ ds, d = .plain) :
    breaksFrom false ds = (ds.map fun _ => false, false) := by
  induction ds with
  | nil => rfl
  | cons d ds ih =>
    obtain ⟨rfl, hds⟩ := List.forall_mem_cons.mp h
    have hbreaks : breaksFrom false (.plain :: ds) =
        (false :: (breaksFrom false ds).1, (breaksFrom false ds).2) := rfl
    rw [hbreaks, ih hds]
    rfl

/-- A list of nodes without layout stands on one line. -/
theorem isMultiline_plain {ds : List Decorations} (h : ∀ d ∈ ds, d = .plain) :
    (ListShape.of ds .plain).isMultiline = false := by
  have hbreaks : breaksFrom ((Enclosure.plain.openComment.map Comment.isLine).getD false) ds =
      (ds.map fun _ => false, false) := breaksFrom_plain h
  rw [ListShape.of, hbreaks]
  have hany : ds.any Decorations.hasComments = false := by
    rw [List.any_eq_false]
    intro d hd
    rw [h d hd]
    exact Bool.false_ne_true
  simp [hany, Enclosure.hasComments, Enclosure.plain]

/-- A list without layout is kept on its line. -/
theorem Spells.bracketed (style : Style) (opening closing : Punct) {ds : List Decorations}
    (hds : ∀ d ∈ ds, d = .plain) (indent : Nat) {items : List ItemText}
    {kss : List (List TokenKind)} (h : List.Forall₂ (fun i ks => Spells i.text ks) items kss) :
    Spells (Print.bracketed style opening.spelling closing.spelling ds .plain indent false items)
      ([.punct opening] ++ separated kss ++ [.punct closing]) := by
  have hlist : Spells (Output.commaSeparated (items.map (·.text))) (separated kss) :=
    .commaSeparated (List.forall₂_map_left_iff.mpr h)
  rw [Print.bracketed]
  dsimp only
  rw [isMultiline_plain hds]
  show Spells ([.word opening.spelling] ++ _ ++ [] ++ [.word closing.spelling]) _
  rw [List.append_nil]
  exact ((Spells.mark opening .nil).append hlist).append (.mark closing .nil)

variable {style : Style}

/-- An expression that is printed with its tokens, wherever its parentheses are not left out. -/
def SpelledAnywhere (style : Style) (x : Expr) : Prop :=
  ∀ p : Place, (isParen x = true → p.inHeader = false) → Spells (exprOutput style x p) x.spelling

/-- Outside of headers an expression is printed as it is spelled. -/
theorem SpelledAnywhere.inside {x : Expr} (h : SpelledAnywhere style x) (p : Place)
    (hp : p.inHeader = false) : Spells (exprOutput style x p) x.spelling :=
  h p fun _ => hp

/-- An element, with its key if it has one. -/
theorem spells_items {es : List Element}
    (h : ∀ e ∈ es, ∀ y ∈ e.expr.parts, SpelledAnywhere style y) (pairs : Bool) (depth : Nat)
    (indents : List Nat) :
    List.Forall₂ (fun i ks => Spells i.text ks) (itemTexts style pairs depth es indents)
      (elementSpellings es) := by
  induction es generalizing indents with
  | nil => exact .nil
  | cons e es ih =>
    obtain ⟨he, hes⟩ := List.forall_mem_cons.mp h
    have hrest := ih hes indents.tail
    obtain ⟨x, d⟩ := e
    cases x with
    | keyValue k v =>
      have hk := (he k (by simp [Expr.parts])).inside (.atStart (indents.headD 0)) rfl
      have hv := (he v (by simp [Expr.parts])).inside (.atStart (indents.headD 0)) rfl
      exact .cons ((hk.append (Spells.mark .colon (Spells.nil.space))).append hv) hrest
    | _ => exact .cons ((he _ (by simp [Expr.parts])).inside _ rfl) hrest

/-- A unary operator, with a space behind it or without. -/
theorem Spells.unary (op : UnaryOp) {o : Output} {ks : List TokenKind} (h : Spells o ks) :
    Spells (unaryOutput op o) ([op.kind] ++ ks) := by
  have hop (a : Output) (ha : Spells a ks) : Spells (.word op.spelling :: a) (op.kind :: ks) := by
    have htext : op.kind.text = op.spelling := by
      cases op <;> rfl
    rw [← htext]
    refine .word ?_ ha
    cases op with
    | not | recv | tilde => exact plain_punct _
    | _ => exact plain_op _
  exact hop _ (h.spaceIf _)

/-- A binary operator, with spaces around it or without. -/
theorem Spells.binary (isSpaced : Bool) {a b : Output} {ks ks' : List TokenKind} (ha : Spells a ks)
    (op : BinaryOp) (hb : Spells b ks') :
    Spells (binaryOutput isSpaced a op b) (ks ++ [.op op] ++ ks') := by
  have hright (isSpaced : Bool) := Spells.op op (hb.spaceIf isSpaced)
  exact ((ha.thenSpace isSpaced).append (hright _)).cast (by simp)

/-- The last bound of a slice stands behind its colon. -/
theorem Spells.lastBound (blanks : Bool) {bound : Option Output} {ks : List TokenKind}
    (h : Spells (bound.getD []) ks) : Spells (boundsOutput blanks [bound]) ks :=
  h

/-- A bound of a slice with the colon behind it, and the bounds that follow. -/
theorem Spells.bound (blanks : Bool) {low high : Option Output} {bounds : List (Option Output)}
    {ks ks' : List TokenKind} (hlow : Spells (low.getD []) ks)
    (hrest : Spells (boundsOutput blanks (high :: bounds)) ks') :
    Spells (boundsOutput blanks (low :: high :: bounds)) (ks ++ [.punct .colon] ++ ks') :=
  (((hlow.thenSpace _).append (.mark .colon .nil)).thenSpace _).append hrest

theorem spells_opt {y : Option Expr} (h : ∀ z ∈ y, SpelledAnywhere style z) (p : Place)
    (hp : p.inHeader = false) :
    Spells ((optExprOutput style y p).getD []) (optSpelling y) := by
  cases y with
  | none => exact .nil
  | some y => exact (h y rfl).inside p hp

/-- A key and a value are spelled wherever their element is. -/
theorem spelled_parts {x : Expr} (hx : x.Canonical) (h : SpelledAnywhere style x) :
    ∀ y ∈ x.parts, SpelledAnywhere style y := by
  have hparts : x.parts = [x] := by
    cases hx <;> rfl
  rw [hparts]
  exact List.forall_mem_singleton.mpr h

theorem spells_of_isTypeName {t : Expr} (h : t.isTypeName = true) (p : Place) :
    Spells (exprOutput style t p) t.spelling := by
  cases t with
  | ident n => exact .name h .nil
  | selector x n =>
    cases x with
    | ident q =>
      have hnames : isName q = true ∧ isName n = true := Bool.and_eq_true_iff.mp h
      exact .name hnames.1 (.mark .period (.name hnames.2 .nil))
    | _ => cases h
  | _ => cases h

/-- No canonical expression is a function type, which would be given parentheses when called. -/
theorem isFuncType_of_canonical {x : Expr} (h : x.Canonical) : isFuncType x = false := by
  cases h <;> rfl

/-- A canonical expression is printed with its tokens. -/
theorem spells_of_canonical {x : Expr} (h : x.Canonical) : SpelledAnywhere style x := by
  induction h with
  | ident hname => exact fun _ _ => .name hname .nil
  | int htext => exact fun _ _ => .word (plain_int htext) .nil
  | string htext => exact fun _ _ => .word (plain_string htext) .nil
  | paren _ hparen ih =>
    intro p hp
    rw [exprOutput, hp rfl, hparen]
    exact ((Spells.mark .lparen (ih.inside _ rfl)).append (.mark .rparen .nil))
  | selector _ _ _ hname ih =>
    intro p _
    exact (ih.inside p.inside rfl).append (.mark .period (.name hname .nil))
  | index _ _ _ ih ihkey =>
    intro p _
    exact (((ih.inside p.outermost rfl).append (.mark .lbracket .nil)).append
      (ihkey.inside p.deeper rfl)).append (.mark .rbracket .nil)
  | @slice x low high max _ _ _ _ _ _ ih ihlow ihhigh ihmax =>
    intro p _
    have hx := (ih.inside p.outermost rfl).append (.mark .lbracket .nil)
    have hlow := spells_opt ihlow p.deeper rfl
    have hhigh := spells_opt ihhigh p.deeper rfl
    rw [exprOutput]
    cases max with
    | none =>
      exact ((hx.append (.bound _ hlow (.lastBound _ hhigh))).append (.mark .rbracket .nil)).cast
        (by simp [Expr.spelling, maxSpelling])
    | some y =>
      have hmax := spells_opt ihmax p.deeper rfl
      exact ((hx.append (.bound _ hlow (.bound _ hhigh (.lastBound _ hmax)))).append
        (.mark .rbracket .nil)).cast (by simp [Expr.spelling, maxSpelling, optSpelling])
  | @call fn args hfn _ hargs hdecs ih ihargs =>
    intro p _
    rw [exprOutput, isFuncType_of_canonical hfn]
    set place := if args.length > 1 then p.deeper else p.inside with hplace
    have hheader : place.inHeader = false := by
      rw [hplace]
      split <;> rfl
    have hitems := spells_items (fun a ha => spelled_parts (hargs a ha) (ihargs a ha)) false
      place.depth (elementIndents args .plain place.indent)
    have hlist := Spells.bracketed style .lparen .rparen
      (List.forall_mem_map.mpr hdecs) place.indent hitems
    exact ((ih.inside place hheader).append hlist).cast (by simp [Expr.spelling])
  | @composite type elements htype _ hdecs ih =>
    intro p _
    have hitems := spells_items ih true 1 (elementIndents elements .plain p.indent)
    have hlist := Spells.bracketed style .lbrace .rbrace (List.forall_mem_map.mpr hdecs) p.indent
      hitems
    exact ((spells_of_isTypeName htype p.inside).append hlist).cast
      (by simp [Expr.spelling, optSpelling])
  | unary _ _ ih =>
    intro p _
    exact .unary _ (ih.inside p.inside rfl)
  | star _ _ ih =>
    intro p _
    exact .op .mul (ih.inside p.outermost rfl)
  | @binary x op y _ _ _ _ ihx ihy =>
    intro p _
    refine .binary _ (ihx.inside _ ?_) op (ihy.inside p.deeper rfl)
    rw [leftPlace]
    split <;> rfl

/-! ## Types -/

theorem decs_fieldTexts (fs : List Field) (indents : List Nat) :
    (fieldTexts style fs indents).map (·.decs) = fs.map (·.decs) := by
  induction fs generalizing indents with
  | nil => rfl
  | cons f fs ih =>
    obtain ⟨ns, x, tag, d⟩ := f
    cases x <;> exact congrArg (d :: ·) (ih indents.tail)

/-- A field without a tag. -/
theorem Spells.field {ns : List String} (hns : ∀ n ∈ ns, isName n = true) {type : Output}
    {ks : List TokenKind} (h : Spells type ks) (signature : Option Output) (d : Decorations) :
    Spells (FieldText.output ⟨ns, type, signature, none, d⟩)
      (separated (ns.map fun n => [.ident n]) ++ ks) := by
  cases ns with
  | nil => exact h
  | cons n ns => exact (Spells.names hns).append h.space

/-- The fields of a list are spelled one by one. -/
theorem spells_fieldTexts {fs : List Field} (hnames : ∀ f ∈ fs, ∀ n ∈ f.names, isName n = true)
    (htags : ∀ f ∈ fs, f.tag = none) (htypes : ∀ f ∈ fs, SpelledAnywhere style f.type)
    (indents : List Nat) :
    List.Forall₂ (fun t ks => Spells (FieldText.output t) ks) (fieldTexts style fs indents)
      (fieldSpellings fs) := by
  induction fs generalizing indents with
  | nil => exact .nil
  | cons f fs ih =>
    obtain ⟨hname, hnames⟩ := List.forall_mem_cons.mp hnames
    obtain ⟨htag, htags⟩ := List.forall_mem_cons.mp htags
    obtain ⟨htype, htypes⟩ := List.forall_mem_cons.mp htypes
    have hrest := ih hnames htags htypes indents.tail
    obtain ⟨ns, x, tag, d⟩ := f
    obtain rfl : tag = none := htag
    have hx := htype.inside (.atStart (indents.headD 0)) rfl
    cases x <;> exact .cons (.field hname hx _ _) hrest

/-- Parameters or results in parentheses. -/
theorem Spells.params {fs : FieldList} (h : fs.Uniform)
    (htypes : ∀ f ∈ fs.fields, SpelledAnywhere style f.type) (indent : Nat) (indents : List Nat) :
    Spells (paramsOutput style fs.enclosure indent (fieldTexts style fs.fields indents))
      ([.punct .lparen] ++ separated (fieldSpellings fs.fields) ++ [.punct .rparen]) := by
  have hfields := spells_fieldTexts h.names h.tags htypes indents
  rw [paramsOutput, h.enclosure, decs_fieldTexts]
  exact .bracketed style .lparen .rparen (List.forall_mem_map.mpr h.decs) indent
    (List.forall₂_map_left_iff.mpr hfields)

/-- A lone result without a name is printed without parentheses. -/
theorem isLoneResult_eq {fs : List Field} {e : Enclosure} (h : FieldList.Uniform ⟨fs, e⟩) :
    isLoneResult ⟨fs, e⟩ = isLoneType fs := by
  obtain rfl : e = .plain := h.enclosure
  cases fs with
  | nil => rfl
  | cons f fs =>
    cases fs with
    | nil =>
      have hdecs : f.decs = .plain := h.decs f (List.mem_singleton_self f)
      show (f.names.isEmpty && !f.decs.hasComments && !Enclosure.plain.hasComments) = f.names.isEmpty
      rw [hdecs]
      exact (Bool.and_true _).trans (Bool.and_true _)
    | cons => rfl

/-- Results with a space before them, if there are any. -/
theorem Spells.results {rs : Option FieldList} (h : ∀ fs ∈ rs, fs.Uniform)
    (htypes : ∀ fs ∈ rs, ∀ f ∈ fs.fields, SpelledAnywhere style f.type) (indent : Nat) :
    Spells (resultsOutput style rs indent) (resultsSpelling rs) := by
  cases rs with
  | none => exact .nil
  | some fs =>
    specialize h fs rfl
    specialize htypes fs rfl
    obtain ⟨fs, e⟩ := fs
    rw [resultsOutput, resultsSpelling, isLoneResult_eq h]
    split
    · rename_i hlone
      obtain ⟨f, rfl, -, hspelling⟩ := exists_of_isLoneType hlone
      have hx := (htypes f (List.mem_singleton_self f)).inside (.atStart indent) rfl
      obtain ⟨ns, x, tag, d⟩ := f
      have htype : (fieldTexts style [⟨ns, x, tag, d⟩] [indent]).flatMap (·.type) =
          exprOutput style x (.atStart indent) := by
        cases x <;> exact List.append_nil _
      rw [hspelling, htype]
      exact hx.space
    · exact (Spells.params h htypes indent _).space

/-- A signature. -/
theorem Spells.signature {sig : Signature} (h : sig.Shaped)
    (hparams : ∀ f ∈ sig.params.fields, SpelledAnywhere style f.type)
    (hresults : ∀ fs ∈ sig.results, ∀ f ∈ fs.fields, SpelledAnywhere style f.type) (indent : Nat) :
    Spells (signatureOutput style sig indent) sig.spelling := by
  obtain ⟨⟨ps, e⟩, rs⟩ := sig
  exact (Spells.params h.params hparams indent _).append (.results h.results hresults indent)

theorem spelled_of_isLength {len : Option Expr} (h : isLength len = true) :
    ∀ x ∈ len, SpelledAnywhere style x := by
  rintro x rfl p -
  cases x with
  | ellipsis y =>
    cases y with
    | none => exact .mark .ellipsis .nil
    | some y => cases h
  | literal kind text =>
    cases kind with
    | int => exact .word (plain_int h) .nil
    | _ => cases h
  | _ => cases h

/-- A variadic type is spelled if the type behind its dots is. -/
theorem spelled_of_variadicElem {t : Expr} (h : SpelledAnywhere style t.variadicElem) :
    SpelledAnywhere style t := by
  cases t with
  | ellipsis y =>
    cases y with
    | none => exact h
    | some y => exact fun p _ => .mark .ellipsis (h.inside p.outermost rfl)
  | _ => exact h

/-- A canonical type is printed with its tokens. -/
theorem spells_of_canonicalType {t : Expr} (h : t.CanonicalType) : SpelledAnywhere style t := by
  induction h with
  | ident hname => exact fun _ _ => .name hname .nil
  | qualified hpkg hname => exact fun _ _ => .name hpkg (.mark .period (.name hname .nil))
  | star _ ih => exact fun p _ => .op .mul (ih.inside p.outermost rfl)
  | paren _ hparen ih =>
    intro p hp
    rw [exprOutput, hp rfl, hparen]
    exact (Spells.mark .lparen (ih.inside _ rfl)).append (.mark .rparen .nil)
  | array hlen _ ih =>
    intro p _
    have hlength : Spells ((optExprOutput style _ p.outermost).getD []) _ :=
      spells_opt (spelled_of_isLength hlen) p.outermost rfl
    exact (((Spells.mark .lbracket .nil).append hlength).append (.mark .rbracket .nil)).append
      (ih.inside p.outermost rfl)
  | map _ _ ihk ihv =>
    intro p _
    exact (((Spells.keyword .map (.mark .lbracket .nil)).append (ihk.inside p.outermost rfl)).append
      (.mark .rbracket .nil)).append (ihv.inside p.outermost rfl)
  | @chan dir x _ _ ih =>
    intro p _
    refine Spells.append ?_ (ih.inside p.outermost rfl)
    have hspace : Spells [.space] [] := Spells.nil.space
    cases dir with
    | both => exact .keyword .chan hspace
    | send => exact .keyword .chan (.mark .arrow hspace)
    | recv => exact .mark .arrow (.keyword .chan hspace)
  | @func sig hsig _ ih =>
    intro p _
    exact .keyword .func (.signature hsig
      (fun f hf => spelled_of_variadicElem (ih _ (sig.mem_types_of_params hf)))
      (fun fs hfs f hf => ih _ (sig.mem_types_of_results hfs hf)) p.indent)
  | struct => exact fun _ _ => .keyword .struct (.mark .lbrace (.mark .rbrace .nil))
  | interface => exact fun _ _ => .keyword .interface (.mark .lbrace (.mark .rbrace .nil))

end HandlerSplit.Print
