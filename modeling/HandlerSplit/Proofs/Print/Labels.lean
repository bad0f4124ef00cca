import HandlerSplit.Parse.Source
import HandlerSplit.Print.Tree
/-!
# Labels are printed apart from their statements

A label stands on a line of its own, and the statement it is on follows on the next line. A label
on the empty statement is that line alone. So the text of a label hardly tells whether the statement
behind it is its own. The two trees differ in two things only: an empty line before the statement is
printed when the statement is not the label's own, and a comment that trails the label is printed
behind the statement when it is (`label_lines_eq_iff`).
-/

namespace HandlerSplit.Print

/-- Only the empty statement prints nothing. -/
theorem isEmpty_kindText (style : Style) (kind : StmtKind) (indent : Nat) (decs : Decorations) :
    (kindText style kind indent decs).isEmpty = true ↔ kind = .empty := by
  cases kind with
  | empty => exact iff_of_true rfl rfl
  | labeled label s =>
    refine iff_of_false ?_ nofun
    rw [kindText, StmtText.labeled]
    split <;> exact Bool.noConfusion
  | _ => exact iff_of_false Bool.noConfusion nofun

theorem decs_kindText (style : Style) (kind : StmtKind) (indent : Nat) (decs : Decorations) :
    (kindText style kind indent decs).decs = decs := by
  cases kind with
  | labeled label s =>
    rw [kindText, StmtText.labeled]
    split <;> rfl
  | _ => rfl

theorem stmtLines_cons (indent : Nat) (first : Bool) {s : StmtText} (hs : s.isEmpty = false)
    (ss : List StmtText) : stmtLines indent first (s :: ss) =
      leadingLines indent s.decs first ++ s.lines ++ stmtLines indent false ss := by
  rw [stmtLines, hs]
  rfl

/-- The line of a label, with what trails the label. -/
def labelLine (indent : Nat) (label : String) (trailing : Option Comment) : Line :=
  .ofCells (indent - 1) (withComment [.word label, .word ":"] trailing)

/-- The line of a label tells whether a comment trails the label. -/
theorem labelLine_eq_iff (indent : Nat) {label : String} (hlabel : '\n' ∉ label.toList)
    (trailing : Option Comment) :
    labelLine indent label trailing = labelLine indent label none ↔ trailing = none := by
  refine ⟨fun h => ?_, fun h => h ▸ rfl⟩
  cases trailing with
  | none => rfl
  | some c =>
    have hline : Output.isMultiline [.word label, .word ":"] = false := by
      simpa [Output.isMultiline, Piece.isMultiline] using hlabel
    simp only [labelLine, withComment, Line.ofCells, Line.row.injEq, Row.mk.injEq, true_and,
      Option.map_some, Option.map_none, Option.toList_some, Option.toList_none, mergeCells, hline,
      List.cons.injEq, Bool.false_eq_true, if_false] at h
    split at h <;> cases h

/-- A statement with a comment that trails it in the place of its own. -/
def StmtText.trailedBy (trailing : Option Comment) (s : StmtText) : StmtText :=
  { s with decs := { s.decs with trailing := trailing.or s.decs.trailing } }

@[simp] theorem StmtText.trailedBy_none (s : StmtText) : s.trailedBy none = s :=
  rfl

/-- The lines of a statement behind the line of its label. What trails the label is printed behind
the statement. -/
theorem lines_labeled (indent : Nat) (label : String) (decs : Decorations) {s : StmtText}
    (hs : s.isEmpty = false) :
    (StmtText.labeled indent label s decs).lines =
      labelLine indent label none ::
        (commentLines indent true s.decs.leading ++ (s.trailedBy decs.trailing).lines) := by
  have hlabeled : StmtText.labeled indent label s decs =
      { text := [.word label, .word ":"] ++ [.newline, .tabs indent] ++ s.text
        lead := labelLine indent label none :: commentLines indent true s.decs.leading ++ s.lead
        own := s.own
        ownIndent := s.ownIndent
        innerTrailing := s.decs.trailing.or s.innerTrailing
        isEmpty := false
        decs := decs } := by
    rw [StmtText.labeled, hs]
    rfl
  rw [hlabeled, StmtText.lines, StmtText.lines, StmtText.trailedBy]
  simp only [List.append_assoc, List.cons_append, Option.or_assoc]

section

variable (indent : Nat) (first : Bool) (label : String) (decs : Decorations)
  {s : StmtText} (hs : s.isEmpty = false) (ss : List StmtText)

include hs

/-- A label on the empty statement, before a statement that is not its own. -/
theorem stmtLines_emptyLabel (decs' : Decorations) :
    stmtLines indent first (.labeled indent label (.empty indent decs') decs :: s :: ss) =
      leadingLines indent decs first ++ labelLine indent label decs.trailing ::
        (leadingLines indent s.decs false ++ (s.lines ++ stmtLines indent false ss)) := by
  have hlines : (StmtText.labeled indent label (.empty indent decs') decs).lines =
      [labelLine indent label decs.trailing] := by
    show [Line.ofCells (indent - 1) (withComment _ (decs.trailing.or none))] = _
    rw [Option.or_none]
    rfl
  rw [stmtLines_cons indent first rfl, hlines, stmtLines_cons indent false hs]
  simp only [List.append_assoc, List.singleton_append]
  rfl

/-- A label on a statement of its own. -/
theorem stmtLines_ownLabel :
    stmtLines indent first (.labeled indent label s decs :: ss) =
      leadingLines indent decs first ++ labelLine indent label none ::
        (commentLines indent true s.decs.leading ++
          ((s.trailedBy decs.trailing).lines ++ stmtLines indent false ss)) := by
  have hlabeled : (StmtText.labeled indent label s decs).isEmpty = false ∧
      (StmtText.labeled indent label s decs).decs = decs := by
    rw [StmtText.labeled, hs]
    exact ⟨rfl, rfl⟩
  rw [stmtLines_cons indent first hlabeled.1, hlabeled.2, lines_labeled indent label decs hs]
  simp only [List.append_assoc, List.cons_append]

end

/-- Whether an empty line stands before a node or its first comment. -/
def startsAfterBlank (decs : Decorations) : Bool :=
  decs.blankBefore || (decs.leading.head?.map (·.blankBefore)).getD false

/-- Comment lines and empty line before a node, against the comment lines alone. -/
theorem leadingLines_eq_iff (indent : Nat) (decs : Decorations) :
    leadingLines indent decs false = commentLines indent true decs.leading ↔
      startsAfterBlank decs = false := by
  obtain ⟨blank, newline, leading, trailing⟩ := decs
  cases leading with
  | nil => cases blank <;> simp [leadingLines, commentLines, startsAfterBlank]
  | cons c cs =>
    obtain ⟨text, gap⟩ := c
    cases blank <;> cases gap <;>
      simp [leadingLines, commentLines, startsAfterBlank, Line.ofText, Line.ofCells]

/-- A label on the empty statement is printed like a label on the statement that follows, if and
only if no comment trails the label and no empty line stands between them. -/
theorem label_lines_eq_iff (style : Style) (indent : Nat) (first : Bool) {label : String}
    (hlabel : '\n' ∉ label.toList) (decs decs' : Decorations) {s : Stmt} (hs : s.kind ≠ .empty)
    (ss : List Stmt) :
    stmtLines indent first
        (stmtTexts style (⟨.labeled label ⟨.empty, decs'⟩, decs⟩ :: s :: ss) indent) =
      stmtLines indent first (stmtTexts style (⟨.labeled label s, decs⟩ :: ss) indent) ↔
    decs.trailing = none ∧ startsAfterBlank s.decs = false := by
  obtain ⟨kind, d⟩ := s
  have hempty : (kindText style kind indent d).isEmpty = false := by
    rw [Bool.eq_false_iff, Ne, isEmpty_kindText]
    exact hs
  simp only [stmtTexts, stmtText, kindText]
  rw [stmtLines_emptyLabel indent first label decs hempty,
    stmtLines_ownLabel indent first label decs hempty, decs_kindText,
    ← leadingLines_eq_iff indent d, ← labelLine_eq_iff indent hlabel]
  simp only [List.append_cancel_left_eq, List.cons.injEq]
  refine and_congr_right fun hline => ?_
  -- Without a comment behind the label the statement is printed as it would be by itself.
  rw [(labelLine_eq_iff indent hlabel decs.trailing).mp hline, StmtText.trailedBy_none]
  exact List.append_left_inj _

end HandlerSplit.Print

namespace HandlerSplit

/-- A source text as the printer lays it out, if it is accepted. -/
def reformat (source : String) : Option String :=
  (parseFile source).toOption.map fun file => file.print {}

/-- An empty line behind a label on the empty statement is kept when the text is printed, and
gone when what was printed is printed again. -/
theorem reformat_not_idempotent :
    let text := "package p\n\nfunc f() \x7b\nL:\n\n\tx()\n\x7d\n"
    let text' := "package p\n\nfunc f() \x7b\nL:\n\tx()\n\x7d\n"
    reformat "package p\n\nfunc f() \x7b\nL:\n\t;\n\n\tx()\n\x7d\n" = some text ∧
      reformat text = some text' ∧ text' ≠ text := by
  decide +kernel

end HandlerSplit
