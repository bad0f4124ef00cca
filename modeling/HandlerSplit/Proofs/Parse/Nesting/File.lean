import HandlerSplit.Parse.Source
import HandlerSplit.Proofs.Parse.Nesting.Stmt
/-!
# The nesting of statements in source files

The parser refuses expressions, types and blocks that are nested more than `maxNesting` deep, and so
statements that are not loose are nested no deeper than that. Loose statements are not counted: a
label on a label, and a switch in a clause of a switch, are read without a block between them.
-/

namespace HandlerSplit.Parse

open Event (Deepens)

namespace Grammar.Shallow

variable {g : Grammar} (hg : g.Shallow) (x : Context)

include hg

/-- A function holds no deeper nesting than there is room. -/
theorem funcDecl : AnswersIn x (fun f => Event.Shallow x.room f.events) g.funcDecl := by
  refine .after fun _ => .bind (P := fun rs => Event.Shallow x.room (resultEvents rs))
    (.after fun paren => ?_) fun recv hrecv => .after fun name => .bind (hg.signature x) fun s hs =>
      .bind (P := fun b : Option Block => Event.Shallow x.room ((b.map Block.events).getD []))
        (.after fun brace => ?_) fun body hbody => .pure ?_
  · split
    · exact .bind (hg.params x) fun fs hfs => .pure hfs
    · exact .pure Deepens.nil
  · split
    · exact .bind (hg.nestedBlock x) fun b hb => .pure hb
    · exact .pure Deepens.nil
  · exact (hrecv.append (hs.cons_name name)).append hbody

theorem declKind :
    AnswersIn x (fun kind => ∀ f, kind = .func f → Event.Shallow x.room f.events) g.declKind := by
  refine .after fun kind => ?_
  split
  · refine .bind (hg.funcDecl x) fun f hf => .pure ?_
    rintro _ ⟨⟩
    exact hf
  iterate 4 exact .bind (hg.genDecl x) fun d hd => .pure nofun
  · exact .unexpected _

/-- Every function among the declarations stays within the room there is. -/
theorem decls :
    AnswersIn x
      (fun ds : List Decl => ∀ d ∈ ds, ∀ f, d.kind = .func f → Event.Shallow x.room f.events)
      g.decls := by
  refine .entries (P := fun d : Decl => ∀ f, d.kind = .func f → Event.Shallow x.room f.events)
    (.after fun kind => ?_) _
  split
  · exact .pure trivial
  · split
    · exact .after fun _ => .pure trivial
    · refine .after fun d => .bind (hg.declKind x) fun kind hkind => .after fun eof => ?_
      have hend : AnswersIn x
          (Turn.All fun d : Decl => ∀ f, d.kind = .func f → Event.Shallow x.room f.events)
          (declEnd kind d) :=
        .after fun trailing => .pure hkind
      split
      · exact .after fun _ => hend
      · exact hend

theorem sourceFile :
    AnswersIn x (fun file : SourceFile =>
      ∀ d ∈ file.decls, ∀ f, d.kind = .func f → Event.Shallow x.room f.events) g.sourceFile := by
  refine .after fun d => .after fun _ => .after fun package => .after fun _ => ?_
  exact .after fun trailing => .bind (hg.decls x) fun ds hds => .after fun cs => .pure hds

end Grammar.Shallow

/-- A text is read from the outermost context on. -/
theorem Cursor.context_start (tokens : List Token) : (Cursor.start tokens).context = ⟨0, 0⟩ :=
  Restores.advance.context_run _

/-- What a function of a parsed file nests is no deeper than the limit, loose statements aside. -/
theorem shallow_parseFile {source : String} {file : SourceFile} (h : parseFile source = .ok file) :
    ∀ d ∈ file.decls, ∀ f, d.kind = .func f → Event.Shallow maxNesting f.events := by
  obtain ⟨c, hrun⟩ := exists_runOn_ok h
  exact ((Grammar.level_shallow _ _).sourceFile _ _ (Cursor.context_start _)).2 _
    (congrArg Prod.fst hrun)

end Parse

/-- The functions of a file are declarations of it. -/
theorem SourceFile.exists_decl_of_mem_funcs {file : SourceFile} {i : Nat} {f : FuncDecl}
    (h : (i, f) ∈ file.funcs) : ∃ d ∈ file.decls, d.kind = .func f := by
  obtain ⟨⟨⟨kind, decs⟩, j⟩, hd, hf⟩ := List.mem_filterMap.mp h
  refine ⟨_, (List.mem_zipIdx' hd).2 ▸ List.getElem_mem _, ?_⟩
  cases kind with
  | func f' =>
    cases hf
    rfl
  | gen d => cases hf

/-- Statements that are not loose are nested at most as deep as the parser lets phrases be, and all
statements no deeper than that beyond the nesting of the loose ones. -/
theorem stmtDepth_parseFile {source : String} {file : SourceFile} {i : Nat} {f : FuncDecl}
    (h : parseFile source = .ok file) (hf : (i, f) ∈ file.funcs) :
    Event.nestingOf (fun s => !s.isLoose) f.events ≤ Parse.maxNesting ∧
      f.stmtDepth ≤ Parse.maxNesting + Event.nestingOf Stmt.isLoose f.events ∧
      (Event.nestingOf Stmt.isLoose f.events ≤ Parse.maxNesting →
        f.stmtDepth ≤ 2 * Parse.maxNesting) := by
  obtain ⟨d, hd, hkind⟩ := SourceFile.exists_decl_of_mem_funcs hf
  have hguarded : Event.nestingOf (fun s => !s.isLoose) f.events ≤ Parse.maxNesting :=
    (Parse.shallow_parseFile h d hd f hkind).nestingOf_le
  have hall : f.stmtDepth ≤ Event.nestingOf Stmt.isLoose f.events +
      Event.nestingOf (fun s => !s.isLoose) f.events :=
    Event.maxNesting_le_add Stmt.isLoose f.events
  exact ⟨hguarded, by omega, fun hloose => by omega⟩

/-- Of each function of a file, the nesting of its statements and of the loose ones. -/
def SourceFile.nestings (file : SourceFile) : List (Nat × Nat) :=
  file.funcs.map fun (_, f) => (f.stmtDepth, Event.nestingOf Stmt.isLoose f.events)

/-- A file with one function, told by its nestings. -/
theorem exists_func_of_nestings {source : String} {all loose : Nat}
    (h : (parseFile source).toOption.map SourceFile.nestings = some [(all, loose)]) :
    ∃ file i f, parseFile source = .ok file ∧ (i, f) ∈ file.funcs ∧ f.stmtDepth = all ∧
      Event.nestingOf Stmt.isLoose f.events = loose := by
  obtain ⟨file, hfile, hnestings⟩ := exists_ok_of_map h
  have hmem : (all, loose) ∈ file.nestings := by
    rw [hnestings]
    exact List.mem_singleton_self _
  obtain ⟨⟨i, f⟩, hf, hnesting⟩ := List.mem_map.mp hmem
  obtain ⟨hall, hloose⟩ := Prod.mk.inj hnesting
  exact ⟨file, i, f, hfile, hf, hall, hloose⟩

/-- A labeled loop around a switch. -/
def labeledLoop : String :=
  "package p\n\nfunc f() \x7b\nL:\n\tfor \x7b\n\t\tswitch \x7b\n\t\tdefault:\n\t\t\tbreak L\n" ++
    "\t\t\x7d\n\t\x7d\n\x7d\n"

theorem stmtDepth_labeledLoop :
    ∃ file i f, parseFile labeledLoop = .ok file ∧ (i, f) ∈ file.funcs ∧
      Event.nestingOf (fun s => !s.isLoose) f.events ≤ Parse.maxNesting ∧
      f.stmtDepth ≤ Parse.maxNesting + Event.nestingOf Stmt.isLoose f.events ∧
      f.stmtDepth ≤ 2 * Parse.maxNesting ∧
      f.stmtDepth = 4 ∧ Event.nestingOf Stmt.isLoose f.events = 2 := by
  have hnestings : (parseFile labeledLoop).toOption.map SourceFile.nestings = some [(4, 2)] := by
    decide +kernel
  obtain ⟨file, i, f, hok, hf, hall, hloose⟩ := exists_func_of_nestings hnestings
  obtain ⟨hguarded, hsum, htwice⟩ := stmtDepth_parseFile hok hf
  exact ⟨file, i, f, hok, hf, hguarded, hsum, htwice (hloose ▸ by decide), hall, hloose⟩

/-- A function with `n` labels on an empty statement. -/
def labels (n : Nat) : String :=
  "package p\n\nfunc f() \x7b\n" ++ String.join (List.replicate n "L:") ++ "\n\x7d\n"

/-- Loose statements may be nested deeper than twice as deep as phrases. -/
theorem stmtDepth_labels :
    ∃ file i f, parseFile (labels 80) = .ok file ∧ (i, f) ∈ file.funcs ∧
      2 * Parse.maxNesting < f.stmtDepth := by
  have hnestings : (parseFile (labels 80)).toOption.map SourceFile.nestings = some [(81, 80)] := by
    decide +kernel
  obtain ⟨file, i, f, hok, hf, hall, -⟩ := exists_func_of_nestings hnestings
  exact ⟨file, i, f, hok, hf, hall ▸ by decide⟩

end HandlerSplit
