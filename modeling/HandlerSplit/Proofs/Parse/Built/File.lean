import HandlerSplit.Parse.Source
import HandlerSplit.Proofs.Parse.Built.Stmt
import HandlerSplit.Proofs.Parse.Words.File
import HandlerSplit.Proofs.Tree.Nodes
/-!
# How the parser builds whole texts

All nodes of an accepted file, expression or type are built in its text (`Parse.built_parseFile`).
So operators and operands are grouped everywhere (`parse_grouped`), and control headers hold
literals of named types only in brackets (`headersCovered_parseFile`).
-/

namespace HandlerSplit

namespace Parse

open Event (AllBuilt Nodes)

namespace Grammar.Built

variable {g : Grammar} (hg : g.Built) (ts : List TokenKind) (x : Context)

include hg

/-- A function holds the nodes of its signature and its body. -/
theorem funcDecl : AnswersAt ts x (fun f => AllBuilt ts f.events) g.funcDecl := by
  refine .after fun _ => .bind (P := fun rs => AllBuilt ts (resultEvents rs))
    (.after fun paren => ?_) fun recv hrecv => .after fun name =>
      .bind (hg.signature ts x) fun s hs =>
        .bind (P := fun b : Option Block => AllBuilt ts ((b.map Block.events).getD []))
          (.after fun brace => ?_) fun body hbody => .pure ?_
  · split
    · exact .bind (hg.params ts x) fun fs hfs => .pure hfs.all
    · exact .pure Nodes.nil
  · split
    · exact .bind (hg.nestedBlock ts x) fun b hb => .pure hb
    · exact .pure Nodes.nil
  · exact (hrecv.append (hs.all.cons_name name)).append hbody

theorem declKind :
    AnswersAt ts x (fun kind => ∀ decs, AllBuilt ts (Decl.events ⟨kind, decs⟩)) g.declKind := by
  refine .after fun kind => ?_
  split
  · exact .bind (hg.funcDecl ts x) fun f hf => .pure fun _ => hf
  iterate 4 exact .bind (hg.genDecl ts x) fun d hd => .pure fun _ => hd
  · exact .unexpected _

/-- The nodes of declarations in order. -/
theorem decls : AnswersAt ts x (fun ds : List Decl => ∀ d ∈ ds, AllBuilt ts d.events) g.decls := by
  refine .entries (P := fun d : Decl => AllBuilt ts d.events) (.after fun kind => ?_) _
  split
  · exact .pure trivial
  · split
    · exact .after fun _ => .pure trivial
    · refine .after fun d => .bind (hg.declKind ts x) fun kind hkind => .after fun eof => ?_
      have hend : AnswersAt ts x (Turn.All fun d : Decl => AllBuilt ts d.events)
          (declEnd kind d) :=
        .after fun trailing => .pure (hkind _)
      split
      · exact .after fun _ => hend
      · exact hend

/-- A file holds the nodes of its declarations. -/
theorem sourceFile : AnswersAt ts x (fun file => AllBuilt ts file.events) g.sourceFile := by
  refine .after fun d => .after fun _ => .after fun package => .after fun _ => ?_
  refine .after fun trailing => .bind (hg.decls ts x) fun ds hds => .after fun cs => .pure ?_
  intro e he
  obtain ⟨d, hd, he⟩ := List.mem_flatMap.mp he
  exact hds d hd e he

end Grammar.Built

/-! ## Texts -/

/-- A text is read from its start on, in the outermost context. -/
theorem Cursor.stands_start {tokens : List Token} (h : Proper tokens) :
    (Cursor.start tokens).Stands (kindsOf tokens) ⟨0, 0⟩ := by
  exact ⟨(Cursor.words_start h).1, Cursor.kinds_start h ▸ List.suffix_rfl,
    Restores.advance.context_run _⟩

/-- What is read alone in a text is read in it. -/
theorem AnswersAt.alone {α : Type} {ts : List TokenKind} {x : Context} {P : α → Prop}
    {phrase : Parser α} (h : AnswersAt ts x P phrase) : AnswersAt ts x P (Parse.alone phrase) := by
  refine .bind h fun a ha => .after fun inserted => ?_
  have hend :
      AnswersAt ts x P (do if ← at? .eof then return a else Parse.unexpected .endOfInput) := by
    refine .after fun eof => ?_
    split
    · exact .pure ha
    · exact .unexpected _
  split
  · exact .after fun _ => hend
  · exact hend

/-- What is read of a text is told from its tokens. -/
theorem answers_onText {α : Type} {phrase : Grammar → Parser α} {P : α → Prop} {source : String}
    (h : ∀ g : Grammar, g.Built → AnswersAt (kindsOf (tokenize source.toList)) ⟨0, 0⟩ P (phrase g))
    {a : α} (hok : onText phrase source = .ok a) : P a := by
  obtain ⟨c, hrun⟩ := exists_runOn_ok hok
  exact (h _ (Grammar.level_built _ _) _ _ _ (Cursor.stands_start (tokenize_proper _)) hrun).2

/-- All nodes of a parsed file are built as they should be. -/
theorem built_parseFile {source : String} {file : SourceFile} (h : parseFile source = .ok file) :
    AllBuilt (kindsOf (tokenize source.toList)) file.events :=
  answers_onText (fun _ hg => hg.sourceFile _ _) h

/-- All nodes of a parsed expression are built as they should be. -/
theorem built_parseExpr {source : String} {x : Expr} (h : parseExpr source = .ok x) :
    AllBuilt (kindsOf (tokenize source.toList)) x.events :=
  (answers_onText (fun _ hg => .alone (hg.binaryFrom _ _ 1)) h).1.all

/-- All nodes of a parsed type are built as they should be. -/
theorem built_parseType {source : String} {t : Expr} (h : parseType source = .ok t) :
    AllBuilt (kindsOf (tokenize source.toList)) t.events :=
  (answers_onText (fun _ hg => .alone (hg.nestedType _ _)) h).all

end Parse

/-! ## Grouping -/

/-- In whatever the parser accepts, operators and operands are grouped. The printer relies on it: it
adds no parentheses around them. -/
theorem parse_grouped (source : String) :
    (∀ file, parseFile source = .ok file → ∀ x, .enterExpr x ∈ file.events → x.Grouped) ∧
      (∀ y, parseExpr source = .ok y → ∀ x, .enterExpr x ∈ y.events → x.Grouped) ∧
        ∀ t, parseType source = .ok t → ∀ x, .enterExpr x ∈ t.events → x.Grouped :=
  ⟨fun _ h x hx => (Parse.built_parseFile h (.enterExpr x) hx).grouped,
    fun _ h x hx => (Parse.built_parseExpr h (.enterExpr x) hx).grouped,
    fun _ h x hx => (Parse.built_parseType h (.enterExpr x) hx).grouped⟩

/-- The binary operator of an expression that is entered. -/
def Event.operator? : Event → Option BinaryOp
  | enterExpr x => x.binaryOp?
  | _ => none

/-- An operator among the nodes belongs to a binary expression. -/
theorem Event.exists_enterExpr {es : List Event} {op : BinaryOp}
    (h : op ∈ es.filterMap Event.operator?) : ∃ x, .enterExpr x ∈ es ∧ x.binaryOp? = some op := by
  obtain ⟨e, he, hop⟩ := List.mem_filterMap.mp h
  cases e with
  | enterExpr x => exact ⟨x, he, hop⟩
  | _ => cases hop

/-- An array type whose length has three operators. It may be read as an expression
and as a type. -/
def operatorType : String :=
  "[a+b*c-d]T"

/-- A file with the same operators in a function. -/
def operatorSource : String :=
  "package p\n\nfunc f() int \x7b\n\treturn a + b*-c - d\n\x7d\n"

theorem parse_grouped_operators :
    (∃ file, parseFile operatorSource = .ok file ∧
      ∃ x, .enterExpr x ∈ file.events ∧ x.binaryOp? = some .sub ∧ x.Grouped) ∧
      (∃ y, parseExpr operatorType = .ok y ∧
        ∃ x, .enterExpr x ∈ y.events ∧ x.binaryOp? = some .sub ∧ x.Grouped) ∧
      ∃ t, parseType operatorType = .ok t ∧
        ∃ x, .enterExpr x ∈ t.events ∧ x.binaryOp? = some .sub ∧ x.Grouped := by
  have hfile : (parseFile operatorSource).toOption.map
      (fun file => file.events.filterMap Event.operator?) = some [.sub, .add, .mul] := by
    decide +kernel
  have hexpr : (parseExpr operatorType).toOption.map
      (fun y => y.events.filterMap Event.operator?) = some [.sub, .add, .mul] := by
    decide +kernel
  have htype : (parseType operatorType).toOption.map
      (fun t => t.events.filterMap Event.operator?) = some [.sub, .add, .mul] := by
    decide +kernel
  have hsub {es : List Event} (h : es.filterMap Event.operator? = [.sub, .add, .mul]) :
      ∃ x, .enterExpr x ∈ es ∧ x.binaryOp? = some .sub :=
    Event.exists_enterExpr (h ▸ List.mem_cons_self)
  obtain ⟨file, h, hfile⟩ := exists_ok_of_map hfile
  obtain ⟨y, h', hexpr⟩ := exists_ok_of_map hexpr
  obtain ⟨t, h'', htype⟩ := exists_ok_of_map htype
  obtain ⟨x, hx, hop⟩ := hsub hfile
  obtain ⟨x', hx', hop'⟩ := hsub hexpr
  obtain ⟨x'', hx'', hop''⟩ := hsub htype
  exact ⟨⟨file, h, x, hx, hop, (parse_grouped _).1 file h x hx⟩,
    ⟨y, h', x', hx', hop', (parse_grouped _).2.1 y h' x' hx'⟩,
    ⟨t, h'', x'', hx'', hop'', (parse_grouped _).2.2 t h'' x'' hx''⟩⟩

/-! ## Headers -/

/-- In an accepted file, every control header holds composite literals of named types only in
brackets. -/
theorem headersCovered_parseFile {source : String} {file : SourceFile}
    (h : parseFile source = .ok file) :
    ∀ s, .enterStmt s ∈ file.events → s.kind.HeadersCovered :=
  fun s hs => Parse.built_parseFile h (.enterStmt s) hs

/-- Whether the statement is an `if`. -/
def StmtKind.isIf : StmtKind → Bool
  | .ifThen _ _ _ _ => true
  | _ => false

/-- A header with literals in parentheses, in arguments, and in a function literal that has a header
with a literal in brackets. -/
def bracketedSource : String :=
  "package p\n\nfunc f() \x7b\n\tif x == (T\x7b1\x7d) && g(T\x7b\x7d, func() \x7b\n" ++
    "\t\tif a[T\x7b\x7d] \x7b\n\t\t\tT\x7b\x7d.m()\n\t\t\x7d\n\t\x7d) \x7b\n\t\x7d\n\x7d\n"

theorem headersCovered_bracketed :
    ∃ file, parseFile bracketedSource = .ok file ∧
      ∃ s, .enterStmt s ∈ file.events ∧ s.kind.isIf = true ∧ s.kind.HeadersCovered := by
  have hheaders : (parseFile bracketedSource).toOption.map
      (fun file => ((Event.stmts file.events).filter (·.kind.isIf)).length) = some 2 := by
    decide +kernel
  obtain ⟨file, h, hlength⟩ := exists_ok_of_map hheaders
  obtain ⟨s, hs⟩ := List.exists_mem_of_length_pos (hlength ▸ Nat.two_pos)
  obtain ⟨hentered, hif⟩ := List.mem_filter.mp hs
  have hmem := Event.mem_of_mem_stmts hentered
  exact ⟨file, h, s, hmem, hif, headersCovered_parseFile h s hmem⟩

end HandlerSplit
