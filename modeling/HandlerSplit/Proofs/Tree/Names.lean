import HandlerSplit.Proofs.Parse.Regular.File
import HandlerSplit.Proofs.Parse.Words.File
import HandlerSplit.Tree.Events
/-!
# Names of a tree

Reading a tree meets its names one after another. They are the identifiers among its words, save
those of package clauses and imports, which no reading meets. Which identifiers these are is told
by the reserved words alone: after `package` or `import` none counts until the next reserved
word. No other place of a regular tree holds either of the two.
-/

namespace HandlerSplit

/-- Whether the identifiers after a reserved word count. -/
def Keyword.bringsNames : Keyword → Bool
  | .package | .import => false
  | _ => true

/-- The identifiers among tokens that stand neither in a package clause nor in an import.
`counted` says whether those before the first reserved word count. -/
def codeNames (counted : Bool) : List TokenKind → List String
  | [] => []
  | .keyword w :: ws => codeNames w.bringsNames ws
  | .ident n :: ws => if counted then n :: codeNames counted ws else codeNames counted ws
  | _ :: ws => codeNames counted ws

/-- Only identifiers and reserved words matter. -/
theorem codeNames_filter_isWord (counted : Bool) (kinds : List TokenKind) :
    codeNames counted (kinds.filter (·.isWord)) = codeNames counted kinds := by
  induction kinds generalizing counted with
  | nil => rfl
  | cons kind kinds ih =>
    cases hword : kind.isWord with
    | true =>
      rw [List.filter_cons_of_pos hword]
      cases kind <;> simp [codeNames, ih]
    | false =>
      rw [List.filter_cons_of_neg (by simp [hword]), ih]
      cases kind <;> first | rfl | cases hword

/-! ## What counts -/

section Words

variable (counted : Bool) (ws : List TokenKind)

@[simp] theorem codeNames_nil : codeNames counted [] = [] := rfl

/-- A name that counts comes first. -/
@[simp] theorem codeNames_ident (n : String) :
    codeNames true (.ident n :: ws) = n :: codeNames true ws := rfl

/-- From a reserved word on, names count or do not. -/
@[simp] theorem codeNames_keyword (w : Keyword) :
    codeNames counted (.keyword w :: ws) = codeNames w.bringsNames ws := rfl

@[simp] theorem codeNames_literal (kind : LitKind) (text : String) :
    codeNames counted (.literal kind text :: ws) = codeNames counted ws := rfl

@[simp] theorem codeNames_op (o : BinaryOp) :
    codeNames counted (.op o :: ws) = codeNames counted ws := rfl

@[simp] theorem codeNames_punct (mark : Punct) :
    codeNames counted (.punct mark :: ws) = codeNames counted ws := rfl

@[simp] theorem codeNames_unaryOp (o : UnaryOp) :
    codeNames counted (o.kind :: ws) = codeNames counted ws := by
  cases o <;> rfl

@[simp] theorem codeNames_assignOp (o : AssignOp) :
    codeNames counted (o.kind :: ws) = codeNames counted ws := by
  cases o <;> rfl

/-- The words of a direction hold no names. -/
@[simp] theorem codeNames_chanDir (dir : ChanDir) :
    codeNames true (dir.words ++ ws) = codeNames true ws := by
  cases dir <;> rfl

/-- A list of names counts in order. -/
@[simp] theorem codeNames_names (ns : List String) :
    codeNames true (nameWords ns ++ ws) = ns ++ codeNames true ws := by
  induction ns with
  | nil => rfl
  | cons n ns ih =>
    show n :: codeNames true (nameWords ns ++ ws) = _
    rw [ih]
    rfl

/-- A tag holds no names. -/
@[simp] theorem codeNames_tag (tag : Option String) :
    codeNames counted (tagWords tag ++ ws) = codeNames counted ws := by
  cases tag <;> rfl

@[simp] theorem codeNames_rangeOp (hasVars define : Bool) :
    codeNames counted (rangeOpWords hasVars define ++ ws) = codeNames counted ws := by
  cases hasVars <;> rfl

end Words

/-- The label behind a branch counts. -/
@[simp] theorem bringsNames_branch (kind : BranchKind) : kind.keyword.bringsNames = true := by
  cases kind <;> rfl

/-- Behind every keyword of a declaration but `import` names count. -/
theorem bringsNames_genKeyword {keyword : GenKeyword} (h : keyword ≠ .import) :
    keyword.keyword.bringsNames = true := by
  cases keyword <;> first | rfl | exact absurd rfl h

/-! ## Trees

Wherever names count, the words of a part of a regular tree give its names, and names count after
it. -/

/-- Leaving out the keyword of a method leaves out no name. -/
theorem codeNames_method {methods : Bool} {ns : List String} {x : Expr} (ws : List TokenKind) :
    codeNames true ((if isMethod methods ns x then x.words.tail else x.words) ++ ws) =
      codeNames true (x.words ++ ws) := by
  split
  · rename_i h
    unfold isMethod at h
    split at h
    · rfl
    · cases h
  · rfl

mutual

/-- The names among the words of a regular expression are those that reading it meets. -/
theorem Expr.codeNames_words (x : Expr) (h : x.Regular) (ws : List TokenKind) :
    codeNames true (x.words ++ ws) = Event.names x.inside ++ codeNames true ws := by
  cases x with
  | ident n => rfl
  | literal => rfl
  | composite t es b =>
    simp [Expr.words, Expr.inside, codeNames_optExprWords t h.1, codeNames_elementWords es h.2]
  | funcLit s b =>
    simp [Expr.words, Expr.inside, Keyword.bringsNames, s.codeNames_words h.1,
      b.codeNames_words h.2]
  | paren x => simp [Expr.words, Expr.inside, x.codeNames_words h]
  | selector x n => simp [Expr.words, Expr.inside, x.codeNames_words h]
  | index x k =>
    simp [Expr.words, Expr.inside, x.codeNames_words h.1, k.codeNames_words h.2]
  | slice x l hi m =>
    simp [Expr.words, Expr.inside, x.codeNames_words h.1, codeNames_optExprWords l h.2.1,
      codeNames_optExprWords hi h.2.2.1, codeNames_maxWords m h.2.2.2]
  | typeAssert x t =>
    cases t with
    | none =>
      simp [Expr.words, Expr.inside, x.codeNames_words h.1, optExprEvents, Keyword.bringsNames]
    | some t =>
      simp [Expr.words, Expr.inside, x.codeNames_words h.1, optExprEvents, t.codeNames_words h.2]
  | call f as v b =>
    simp [Expr.words, Expr.inside, f.codeNames_words h.1, codeNames_elementWords as h.2]
  | star x => simp [Expr.words, Expr.inside, x.codeNames_words h]
  | unary o x => simp [Expr.words, Expr.inside, x.codeNames_words h]
  | binary x o y lb =>
    simp [Expr.words, Expr.inside, x.codeNames_words h.1, y.codeNames_words h.2]
  | keyValue k v =>
    simp [Expr.words, Expr.inside, k.codeNames_words h.1, v.codeNames_words h.2]
  | arrayType l x =>
    simp [Expr.words, Expr.inside, codeNames_optExprWords l h.1, x.codeNames_words h.2]
  | mapType k v =>
    simp [Expr.words, Expr.inside, Keyword.bringsNames, k.codeNames_words h.1,
      v.codeNames_words h.2]
  | chanType d x => simp [Expr.words, Expr.inside, x.codeNames_words h]
  | funcType s =>
    simp [Expr.words, Expr.inside, Keyword.bringsNames, s.codeNames_words h]
  | structType fs =>
    simp [Expr.words, Expr.inside, Keyword.bringsNames, fs.codeNames_memberWords h]
  | interfaceType fs =>
    simp [Expr.words, Expr.inside, Keyword.bringsNames, fs.codeNames_memberWords h]
  | ellipsis x => simp [Expr.words, Expr.inside, codeNames_optExprWords x h]
termination_by structural x

theorem codeNames_optExprWords (x : Option Expr) (h : optExprRegular x) (ws : List TokenKind) :
    codeNames true (optExprWords x ++ ws) = Event.names (optExprEvents x) ++ codeNames true ws := by
  cases x with
  | none => rfl
  | some x => simp [optExprWords, optExprEvents, x.codeNames_words h]
termination_by structural x

theorem codeNames_maxWords (x : Option Expr) (h : optExprRegular x) (ws : List TokenKind) :
    codeNames true (maxWords x ++ ws) = Event.names (optExprEvents x) ++ codeNames true ws := by
  cases x with
  | none => rfl
  | some x => simp [maxWords, optExprEvents, x.codeNames_words h]
termination_by structural x

theorem codeNames_exprWords (xs : List Expr) (h : exprsRegular xs) (ws : List TokenKind) :
    codeNames true (exprWords xs ++ ws) = Event.names (exprEvents xs) ++ codeNames true ws := by
  cases xs with
  | nil => rfl
  | cons x xs =>
    simp [exprWords, exprEvents, x.codeNames_words h.1, codeNames_exprWords xs h.2]
termination_by structural xs

theorem codeNames_elementWords (es : List Element) (h : elementsRegular es)
    (ws : List TokenKind) :
    codeNames true (elementWords es ++ ws) =
      Event.names (elementEvents es) ++ codeNames true ws := by
  cases es with
  | nil => rfl
  | cons e es =>
    obtain ⟨x, d⟩ := e
    simp [elementWords, elementEvents, x.codeNames_words h.1, codeNames_elementWords es h.2]
termination_by structural es

theorem codeNames_fieldWords {tagged : Bool} (methods : Bool) (fs : List Field)
    (h : fieldsRegular tagged fs) (ws : List TokenKind) :
    codeNames true (fieldWords methods fs ++ ws) =
      Event.names (fieldEvents fs) ++ codeNames true ws := by
  cases fs with
  | nil => rfl
  | cons f fs =>
    obtain ⟨ns, x, tag, d⟩ := f
    simp [fieldWords, fieldEvents, codeNames_method, x.codeNames_words h.1.2,
      codeNames_fieldWords methods fs h.2]
termination_by structural fs

theorem FieldList.codeNames_words {tagged : Bool} (fs : FieldList) (h : fs.Regular tagged)
    (ws : List TokenKind) :
    codeNames true (fs.words ++ ws) = Event.names fs.events ++ codeNames true ws := by
  obtain ⟨fs, b⟩ := fs
  exact codeNames_fieldWords false fs h ws
termination_by structural fs

/-- Members have the names of their fields, methods or not. -/
theorem FieldList.codeNames_memberWords {methods tagged : Bool} (fs : FieldList)
    (h : fs.Regular tagged) (ws : List TokenKind) :
    codeNames true (fs.memberWords methods ++ ws) =
      Event.names fs.events ++ codeNames true ws := by
  obtain ⟨fs, b⟩ := fs
  simp [FieldList.memberWords, FieldList.events, codeNames_fieldWords methods fs h]
termination_by structural fs

theorem codeNames_resultWords (rs : Option FieldList) (h : resultsRegular rs)
    (ws : List TokenKind) :
    codeNames true (resultWords rs ++ ws) = Event.names (resultEvents rs) ++ codeNames true ws := by
  cases rs with
  | none => rfl
  | some fs => exact fs.codeNames_words h ws
termination_by structural rs

theorem Signature.codeNames_words (s : Signature) (h : s.Regular) (ws : List TokenKind) :
    codeNames true (s.words ++ ws) = Event.names s.events ++ codeNames true ws := by
  obtain ⟨ps, rs⟩ := s
  simp [Signature.words, Signature.events, ps.codeNames_words h.1, codeNames_resultWords rs h.2]
termination_by structural s

theorem Block.codeNames_words (b : Block) (h : b.Regular) (ws : List TokenKind) :
    codeNames true (b.words ++ ws) = Event.names b.events ++ codeNames true ws := by
  obtain ⟨ss, e, o⟩ := b
  simp [Block.words, Block.events, codeNames_stmtWords ss h]
termination_by structural b

theorem codeNames_stmtWords (ss : List Stmt) (h : stmtsRegular ss) (ws : List TokenKind) :
    codeNames true (stmtWords ss ++ ws) = Event.names (stmtEvents ss) ++ codeNames true ws := by
  cases ss with
  | nil => rfl
  | cons s ss =>
    simp [stmtWords, stmtEvents, s.codeNames_words h.1, codeNames_stmtWords ss h.2]
termination_by structural ss

theorem Stmt.codeNames_words (s : Stmt) (h : s.Regular) (ws : List TokenKind) :
    codeNames true (s.words ++ ws) = Event.names s.events ++ codeNames true ws := by
  obtain ⟨k, d⟩ := s
  simp [Stmt.words, Stmt.events, k.codeNames_words h.2]
termination_by structural s

theorem codeNames_headerWords (s : Option Stmt) (h : headerRegular s) (ws : List TokenKind) :
    codeNames true (optStmtWords s ++ ws) =
      Event.names (optStmtEvents s) ++ codeNames true ws := by
  cases s with
  | none => rfl
  | some s => exact s.codeNames_headerWords h ws
termination_by structural s

theorem Stmt.codeNames_headerWords (s : Stmt) (h : s.HeaderRegular) (ws : List TokenKind) :
    codeNames true (s.words ++ ws) = Event.names s.events ++ codeNames true ws := by
  obtain ⟨k, d⟩ := s
  simp [Stmt.words, Stmt.events, k.codeNames_words h.2]
termination_by structural s

theorem Stmt.codeNames_labeledWords (s : Stmt) (h : s.LabeledRegular) (ws : List TokenKind) :
    codeNames true (s.words ++ ws) = Event.names s.events ++ codeNames true ws := by
  obtain ⟨k, d⟩ := s
  simp [Stmt.words, Stmt.events, k.codeNames_words h.2]
termination_by structural s

/-- The names among the words of a regular statement are those inside it. -/
theorem StmtKind.codeNames_words (k : StmtKind) (h : k.Regular) (ws : List TokenKind) :
    codeNames true (k.words ++ ws) = Event.names k.inside ++ codeNames true ws := by
  cases k with
  | expr x => simp [StmtKind.words, StmtKind.inside, x.codeNames_words h]
  | assign l o r =>
    simp [StmtKind.words, StmtKind.inside, codeNames_exprWords l h.1,
      codeNames_exprWords r h.2.1]
  | incDec x up => simp [StmtKind.words, StmtKind.inside, x.codeNames_words h]
  | send c v =>
    simp [StmtKind.words, StmtKind.inside, c.codeNames_words h.1, v.codeNames_words h.2]
  | decl d => simp [StmtKind.words, StmtKind.inside, d.codeNames_words h.1 h.2]
  | returns vs =>
    simp [StmtKind.words, StmtKind.inside, Keyword.bringsNames, codeNames_exprWords vs h]
  | branch k l => simp [StmtKind.words, StmtKind.inside]
  | block b => simp [StmtKind.words, StmtKind.inside, b.codeNames_words h]
  | ifThen i c b e =>
    obtain ⟨hi, hc, hb, he⟩ := h
    simp [StmtKind.words, StmtKind.inside, Keyword.bringsNames, codeNames_headerWords i hi,
      c.codeNames_words hc, b.codeNames_words hb, e.codeNames_words he]
  | forLoop i c p b =>
    obtain ⟨hi, hc, hp, hb⟩ := h
    simp [StmtKind.words, StmtKind.inside, Keyword.bringsNames, codeNames_headerWords i hi,
      codeNames_optExprWords c hc, codeNames_headerWords p hp, b.codeNames_words hb]
  | rangeLoop k v d x b =>
    obtain ⟨-, hk, hv, hx, hb⟩ := h
    simp [StmtKind.words, StmtKind.inside, Keyword.bringsNames, codeNames_optExprWords k hk,
      codeNames_optExprWords v hv, x.codeNames_words hx, b.codeNames_words hb]
  | switch i t cs b =>
    obtain ⟨hi, ht, hcs⟩ := h
    simp [StmtKind.words, StmtKind.inside, Keyword.bringsNames, codeNames_headerWords i hi,
      codeNames_optExprWords t ht, codeNames_clauseWords cs hcs]
  | typeSwitch i g cs b =>
    obtain ⟨hi, hguard, hcs⟩ := h
    simp [StmtKind.words, StmtKind.inside, Keyword.bringsNames, codeNames_headerWords i hi,
      g.codeNames_headerWords hguard, codeNames_clauseWords cs hcs]
  | select cs b =>
    simp [StmtKind.words, StmtKind.inside, Keyword.bringsNames, codeNames_clauseWords cs h]
  | go x => simp [StmtKind.words, StmtKind.inside, Keyword.bringsNames, x.codeNames_words h]
  | defer x => simp [StmtKind.words, StmtKind.inside, Keyword.bringsNames, x.codeNames_words h]
  | labeled l s => simp [StmtKind.words, StmtKind.inside, s.codeNames_labeledWords h]
  | empty => rfl
termination_by structural k

theorem Else.codeNames_words (e : Else) (h : e.Regular) (ws : List TokenKind) :
    codeNames true (e.words ++ ws) = Event.names e.events ++ codeNames true ws := by
  cases e with
  | none => rfl
  | elseIf i c b e =>
    obtain ⟨hi, hc, hb, he⟩ := h
    simp [Else.words, Else.events, Keyword.bringsNames, codeNames_headerWords i hi,
      c.codeNames_words hc, b.codeNames_words hb, e.codeNames_words he]
  | block b => simp [Else.words, Else.events, Keyword.bringsNames, b.codeNames_words h]
termination_by structural e

theorem codeNames_clauseWords (cs : List Clause) (h : clausesRegular cs) (ws : List TokenKind) :
    codeNames true (clauseWords cs ++ ws) = Event.names (clauseEvents cs) ++ codeNames true ws := by
  cases cs with
  | nil => rfl
  | cons c cs =>
    obtain ⟨hd, b, d⟩ := c
    simp [clauseWords, clauseEvents, hd.codeNames_words h.1.1, codeNames_stmtWords b h.1.2,
      codeNames_clauseWords cs h.2]
termination_by structural cs

theorem ClauseHead.codeNames_words (hd : ClauseHead) (h : hd.Regular) (ws : List TokenKind) :
    codeNames true (hd.words ++ ws) = Event.names hd.events ++ codeNames true ws := by
  cases hd with
  | default => rfl
  | values xs =>
    simp [ClauseHead.words, ClauseHead.events, Keyword.bringsNames, codeNames_exprWords xs h]
  | comm s =>
    simp [ClauseHead.words, ClauseHead.events, Keyword.bringsNames, s.codeNames_headerWords h]
termination_by structural hd

/-- The names of a declaration that imports nothing. -/
theorem GenDecl.codeNames_words (d : GenDecl) (himport : d.keyword ≠ .import) (h : d.Regular)
    (ws : List TokenKind) :
    codeNames true (d.words ++ ws) = Event.names d.events ++ codeNames true ws := by
  obtain ⟨k, ss, g⟩ := d
  simp [GenDecl.words, GenDecl.events, bringsNames_genKeyword himport,
    codeNames_specWords ss himport h.2]
termination_by structural d

theorem codeNames_specWords {keyword : GenKeyword} (ss : List Spec) (himport : keyword ≠ .import)
    (h : specsRegular keyword ss) (ws : List TokenKind) :
    codeNames true (specWords ss ++ ws) = Event.names (specEvents ss) ++ codeNames true ws := by
  cases ss with
  | nil => rfl
  | cons s ss =>
    obtain ⟨k, d⟩ := s
    simp [specWords, specEvents, k.codeNames_words himport h.1.1 h.1.2,
      codeNames_specWords ss himport h.2]
termination_by structural ss

theorem SpecKind.codeNames_words {keyword : GenKeyword} (k : SpecKind)
    (himport : keyword ≠ .import) (hfits : k.fits keyword = true) (h : k.Regular)
    (ws : List TokenKind) :
    codeNames true (k.words ++ ws) = Event.names k.events ++ codeNames true ws := by
  cases k with
  | importPath => exact absurd (beq_iff_eq.mp hfits) himport
  | value ns t vs =>
    cases vs with
    | nil => simp [SpecKind.words, SpecKind.events, codeNames_optExprWords t h.1, exprEvents]
    | cons v vs =>
      simp [SpecKind.words, SpecKind.events, codeNames_optExprWords t h.1, exprEvents,
        v.codeNames_words h.2.1.1, codeNames_exprWords vs h.2.1.2]
  | type n aliased x =>
    cases aliased <;> simp [SpecKind.words, SpecKind.events, x.codeNames_words h]
termination_by structural k

end

/-! ## Source files -/

/-- Imports have no names that count. -/
theorem codeNames_importSpecs {ss : List Spec} (h : specsRegular .import ss)
    (ws : List TokenKind) : codeNames false (specWords ss ++ ws) = codeNames false ws := by
  induction ss with
  | nil => rfl
  | cons s ss ih =>
    obtain ⟨k, d⟩ := s
    obtain ⟨⟨hfits, -⟩, hss⟩ := h
    cases k with
    | importPath name path =>
      have hname : codeNames false (importNameWords name ++ (.literal .string path ::
          (specWords ss ++ ws))) = codeNames false (specWords ss ++ ws) := by
        unfold importNameWords
        split
        · rfl
        · split <;> rfl
      simpa [specWords, SpecKind.words] using hname.trans (ih hss)
    | value => cases hfits
    | type => cases hfits

/-- Reading imports meets no names. -/
theorem names_importSpecs {ss : List Spec} (h : specsRegular .import ss) :
    Event.names (specEvents ss) = [] := by
  induction ss with
  | nil => rfl
  | cons s ss ih =>
    obtain ⟨k, d⟩ := s
    obtain ⟨⟨hfits, -⟩, hss⟩ := h
    cases k with
    | importPath => simpa [specEvents, SpecKind.events] using ih hss
    | value => cases hfits
    | type => cases hfits

/-- The keyword of a function makes its names count, whatever stood before. -/
theorem FuncDecl.codeNames_words {f : FuncDecl} (h : f.Regular) (counted : Bool)
    (ws : List TokenKind) :
    codeNames counted (f.words ++ ws) = Event.names f.events ++ codeNames true ws := by
  obtain ⟨recv, name, sig, body⟩ := f
  obtain ⟨hrecv, hsig, hbody⟩ := h
  cases body with
  | none =>
    simp [FuncDecl.words, FuncDecl.events, Keyword.bringsNames, codeNames_resultWords recv hrecv,
      sig.codeNames_words hsig]
  | some b =>
    simp [FuncDecl.words, FuncDecl.events, Keyword.bringsNames, codeNames_resultWords recv hrecv,
      sig.codeNames_words hsig, b.codeNames_words (hbody b rfl)]

/-- Every declaration starts with a reserved word, so it does not matter what stands before. -/
theorem codeNames_declWords {ds : List Decl} (h : ∀ d ∈ ds, d.kind.Regular) (counted : Bool) :
    codeNames counted (ds.flatMap Decl.words) = Event.names (ds.flatMap Decl.events) := by
  induction ds generalizing counted with
  | nil => rfl
  | cons d ds ih =>
    obtain ⟨hd, hds⟩ := List.forall_mem_cons.mp h
    obtain ⟨kind, decs⟩ := d
    rw [List.flatMap_cons, List.flatMap_cons, Event.names_append]
    cases kind with
    | func f =>
      show codeNames counted (f.words ++ _) = _
      rw [f.codeNames_words hd, ih hds]
      rfl
    | gen g =>
      obtain ⟨keyword, ss, group⟩ := g
      by_cases himport : keyword = .import
      · subst himport
        show codeNames false (specWords ss ++ _) = Event.names (specEvents ss) ++ _
        rw [codeNames_importSpecs hd.2, names_importSpecs hd.2, ih hds]
        rfl
      · have hstart : codeNames counted (GenDecl.words ⟨keyword, ss, group⟩ ++
            ds.flatMap Decl.words) = codeNames true (GenDecl.words ⟨keyword, ss, group⟩ ++
            ds.flatMap Decl.words) := rfl
        show codeNames counted (GenDecl.words ⟨keyword, ss, group⟩ ++ _) = _
        rw [hstart, GenDecl.codeNames_words _ himport hd, ih hds]
        rfl

/-- The names among the words of a file are those that reading it meets. -/
theorem SourceFile.codeNames_words {file : SourceFile} (h : file.Regular) (counted : Bool) :
    codeNames counted file.words = file.names :=
  codeNames_declWords h false

/-! ## Accepted files -/

/-- Reading an accepted file meets the identifiers of its text, in order and each once, save the
package name and those of imports. -/
theorem names_parseFile {source : String} {file : SourceFile} (h : parseFile source = .ok file) :
    file.names = codeNames false ((tokenize source.toList).map (·.kind)) := by
  have hregular := Parse.regular_parseFile h
  calc file.names = codeNames false file.words := (file.codeNames_words hregular false).symm
    _ = codeNames false (wordsOf (tokenize source.toList)) := by rw [Parse.words_parseFile h]
    _ = _ := codeNames_filter_isWord _ _

/-- A file with names of all sorts: imports, a receiver, parameters that share a type, a method
of an interface, labels, loop variables and literals without types. -/
def namedSource : String :=
  "package p\n\nimport (\n\tm \"math\"\n\t. \"fmt\"\n)\n\ntype t interface \x7b\n\tg(a, b int) (c q.R)\n" ++
    "\x7d\n\nfunc (r *t) f(a, b int) \x7b\nl:\n\tfor i, v := range [][]int\x7b\x7ba\x7d, \x7bb\x7d\x7d " ++
    "\x7b\n\t\tif x := v.y[i]; x \x7b\n\t\t\tcontinue l\n\t\t\x7d\n\t\x7d\n\x7d\n"

theorem names_parseFile_named :
    ∃ file, parseFile namedSource = .ok file ∧
      file.names = codeNames false ((tokenize namedSource.toList).map (·.kind)) ∧
      file.names = ["t", "g", "a", "b", "int", "c", "q", "R", "r", "t", "f", "a", "b", "int", "l",
        "i", "v", "int", "a", "b", "x", "v", "y", "i", "x", "l"] := by
  obtain ⟨file, h⟩ := exists_ok_of_isSome (x := parseFile namedSource) (by decide +kernel)
  have hcode : codeNames false ((tokenize namedSource.toList).map (·.kind)) =
      ["t", "g", "a", "b", "int", "c", "q", "R", "r", "t", "f", "a", "b", "int", "l", "i", "v",
        "int", "a", "b", "x", "v", "y", "i", "x", "l"] := by
    decide +kernel
  exact ⟨file, h, names_parseFile h, (names_parseFile h).trans hcode⟩

end HandlerSplit
