import HandlerSplit.Proofs.Lexer.Coverage
import HandlerSplit.Proofs.Parse.Marks.File
import HandlerSplit.Proofs.Parse.Pointing.Stmt
/-!
# Where a rejected text is shown to be wrong

A rejection points at a token of the text. The error made from it has the line and column of that
token, and shows the line with that number. The line is cut out of the text around the byte offset
of the token, which is the end of a character.
-/

namespace HandlerSplit

open String (utf8Len)

/-! ## Lines of a text -/

/-- A text has one line more than line breaks. -/
theorem length_splitOn_newline (cs : List Char) :
    (cs.splitOn '\n').length = cs.count '\n' + 1 := by
  induction cs with
  | nil => rfl
  | cons c cs ih =>
    rw [List.splitOn, List.splitOnP_cons_eq_if_modifyHead, List.count_cons]
    split
    · exact congrArg Nat.succ ih
    · rw [List.length_modifyHead]
      exact ih

/-- The last line of a text starts the text or follows a newline. -/
theorem exists_append_lastLine (cs : List Char) :
    ∃ lines, cs = lines ++ lastLine cs ∧ (lines = [] ∨ ∃ earlier, lines = earlier ++ ['\n']) := by
  induction cs using List.reverseRecOn with
  | nil => exact ⟨[], rfl, .inl rfl⟩
  | append_singleton cs c ih =>
    rw [lastLine_concat]
    split
    · rename_i hc
      obtain rfl := beq_iff_eq.mp hc
      exact ⟨cs ++ ['\n'], (List.append_nil _).symm, .inr ⟨cs, rfl⟩⟩
    · obtain ⟨lines, hcs, hlines⟩ := ih
      refine ⟨lines, ?_, hlines⟩
      rw [← List.append_assoc, ← hcs]

/-- What is left of a line ends the text or stops before a newline. -/
theorem exists_takeWhile_append (cs : List Char) :
    ∃ lines, cs = cs.takeWhile (· != '\n') ++ lines ∧
      (lines = [] ∨ ∃ later, lines = '\n' :: later) := by
  refine ⟨cs.dropWhile (· != '\n'), List.takeWhile_append_dropWhile.symm, ?_⟩
  rcases hlines : cs.dropWhile (· != '\n') with _ | ⟨c, later⟩
  · exact .inl rfl
  · have hc : (c != '\n') = false := by
      have hhead := List.head?_dropWhile_not (· != '\n') cs
      rw [hlines] at hhead
      exact hhead
    obtain rfl : c = '\n' := by simpa using hc
    exact .inr ⟨later, rfl⟩

/-- The last line of a text has no line break. -/
theorem not_mem_lastLine (cs : List Char) : '\n' ∉ lastLine cs := by
  intro h
  simpa using List.mem_rtakeWhile_imp h

/-- What stands before the first line break has none. -/
theorem not_mem_takeWhile (cs : List Char) : '\n' ∉ cs.takeWhile (· != '\n') := by
  intro h
  simpa using List.mem_takeWhile_imp h

/-- The line that is left and right of an offset has as number the newlines before the offset. -/
theorem getElem?_splitOn_newline (before behind : List Char) :
    ((before ++ behind).splitOn '\n')[before.count '\n']? =
      some (lastLine before ++ behind.takeWhile (· != '\n')) := by
  obtain ⟨left, hbefore, hleft⟩ := exists_append_lastLine before
  obtain ⟨right, hbehind, hright⟩ := exists_takeWhile_append behind
  generalize hl : lastLine before = l at hbefore
  generalize hr : behind.takeWhile (· != '\n') = r at hbehind
  have hline : '\n' ∉ l ++ r := by
    rw [List.mem_append, ← hl, ← hr]
    exact not_or.mpr ⟨not_mem_lastLine before, not_mem_takeWhile behind⟩
  have hcount : l.count '\n' = 0 := List.count_eq_zero.mpr (hl ▸ not_mem_lastLine before)
  have hfirst : ((l ++ r ++ right).splitOn '\n')[0]? = some (l ++ r) := by
    rcases hright with rfl | ⟨later, rfl⟩
    · rw [List.append_nil, List.splitOn_eq_singleton hline]
      rfl
    · rw [List.splitOn_append_cons_self, List.splitOn_eq_singleton hline]
      rfl
  rw [hbefore, hbehind, List.count_append, hcount, Nat.add_zero, List.append_assoc,
    ← List.append_assoc l]
  rcases hleft with rfl | ⟨earlier, rfl⟩
  · exact hfirst
  · have hlines : (earlier.splitOn '\n').length = (earlier ++ ['\n']).count '\n' := by
      rw [length_splitOn_newline, List.count_append]
      rfl
    rw [List.append_assoc, List.singleton_append, List.splitOn_append_cons_self, ← hlines,
      List.getElem?_append_right (Nat.le_refl _), Nat.sub_self]
    exact hfirst

/-! ## The line around an offset -/

namespace Parse

/-- A text is cut at the offset that its beginning has in bytes. -/
theorem splitAtOffset_append (before behind : List Char) :
    splitAtOffset (utf8Len before) (before ++ behind) = (before, behind) := by
  induction before with
  | nil => simp [splitAtOffset]
  | cons c before ih =>
    have hpos := c.utf8Size_pos
    obtain ⟨n, hn⟩ : ∃ n, utf8Len (c :: before) = n + 1 :=
      ⟨utf8Len (c :: before) - 1, by rw [String.utf8Len_cons]; omega⟩
    have hrest : n + 1 - c.utf8Size = utf8Len before := by
      rw [← hn, String.utf8Len_cons, Nat.add_sub_cancel]
    rw [hn, List.cons_append, splitAtOffset, hrest, ih]

/-- The line around an offset is what ends the text before and what starts the text behind. -/
theorem lineAround_append (before behind : List Char) :
    lineAround (before ++ behind) (utf8Len before) =
      lastLine before ++ behind.takeWhile (· != '\n') := by
  rw [lineAround, splitAtOffset_append]
  rfl

end Parse

/-! ## Errors -/

/-- An error points at a token of the source. -/
structure SyntaxError.PointsAt (source : List Char) (e : SyntaxError) (t : Token) : Prop where
  token : t ∈ tokenize source
  line : e.line = t.span.line
  column : e.column = t.span.column
  /-- The context is the line with the number of the token, and lines are counted from 1. -/
  context : 1 ≤ e.line ∧ (source.splitOn '\n')[e.line - 1]? = some e.context.toList
  column_le : 1 ≤ e.column ∧ e.column ≤ e.context.toList.length + 1
  /-- The offset of the token cuts the source between two characters. -/
  cut : ∃ before behind, source = before ++ behind ∧ utf8Len before = t.span.start ∧
    Parse.splitAtOffset t.span.start source = (before, behind)
  /-- So do both ends of the context, which are around that offset. -/
  around : ∃ start stop, StandsBetween source e.context.toList start stop ∧
    start ≤ t.span.start ∧ t.span.start ≤ stop

/-- A text before another makes its last line no shorter. -/
theorem length_lastLine_le_append (cs ds : List Char) :
    (lastLine ds).length ≤ (lastLine (cs ++ ds)).length := by
  induction ds using List.reverseRecOn with
  | nil => exact Nat.zero_le _
  | append_singleton ds c ih =>
    rw [← List.append_assoc, lastLine_concat, lastLine_concat]
    split
    · exact Nat.le_refl _
    · rw [List.length_append, List.length_append]
      exact Nat.add_le_add_right ih 1

/-- A byte order mark has no column, but is a character of its line. -/
theorem length_lastLine_dropByteOrderMark (cs : List Char) :
    (lastLine (dropByteOrderMark cs).2).length ≤ (lastLine cs).length := by
  unfold dropByteOrderMark
  split
  · exact length_lastLine_le_append ['\ufeff'] _
  · exact Nat.le_refl _

namespace Parse

/-- The error of a rejection at a token of the source. -/
theorem pointsAt_toError {source : List Char} {r : Rejection} {t : Token}
    (ht : t ∈ tokenize source) (hr : r.span = t.span) : (r.toError source).PointsAt source t := by
  obtain ⟨before, hstands⟩ := (tokenize_covers source).stands t ht
  obtain ⟨behind, hsource⟩ : ∃ behind, source = before ++ behind := by
    obtain ⟨rest, hsource⟩ := hstands.text
    exact ⟨t.text ++ rest, by rw [← List.append_assoc, hsource]⟩
  have hcontext : (r.toError source).context.toList =
      lastLine before ++ behind.takeWhile (· != '\n') := by
    rw [Rejection.toError, String.toList_ofList, hr, hstands.start, hsource, lineAround_append]
  have hline : (r.toError source).line = 1 + before.count '\n' :=
    (congrArg Span.line hr).trans hstands.line
  have hcolumn : (r.toError source).column =
      1 + (lastLine (dropByteOrderMark before).2).length :=
    (congrArg Span.column hr).trans hstands.column
  refine ⟨ht, congrArg Span.line hr, congrArg Span.column hr, ⟨?_, ?_⟩, ⟨?_, ?_⟩, ?_, ?_⟩
  · exact hline ▸ Nat.le_add_right _ _
  · rw [hline, hcontext, hsource, Nat.add_sub_cancel_left, getElem?_splitOn_newline]
  · exact hcolumn ▸ Nat.le_add_right _ _
  · rw [hcolumn, hcontext, List.length_append]
    have := length_lastLine_dropByteOrderMark before
    omega
  · refine ⟨before, behind, hsource, hstands.start.symm, ?_⟩
    rw [hstands.start, hsource, splitAtOffset_append]
  · obtain ⟨lines, hbefore, -⟩ := exists_append_lastLine before
    obtain ⟨later, hbehind, -⟩ := exists_takeWhile_append behind
    rw [hcontext]
    refine ⟨_, _, ⟨lines, later, ?_, rfl, rfl⟩, ?_, ?_⟩
    · rw [hsource, List.append_assoc, List.append_assoc, ← List.append_assoc lines, ← hbefore,
        ← hbehind]
    · rw [hstands.start]
      conv_rhs => rw [hbefore]
      rw [String.utf8Len_append]
      exact Nat.le_add_right _ _
    · rw [hstands.start, ← List.append_assoc, ← hbefore, String.utf8Len_append]
      exact Nat.le_add_right _ _

/-- The tokens of a cursor at the start are tokens of the text. -/
theorem Cursor.tokens_start {ts : List Token} (h : Proper ts) : (Cursor.start ts).tokens ⊆ ts := by
  obtain ⟨hproper, -⟩ := Cursor.marks_start h
  rcases Cursor.tokens_advance _ with hsubset | hstay
  · exact hsubset
  · rw [Cursor.start, hstay] at hproper
    cases hproper with
    | eof heof => cases heof
    | cons _ _ hnil => cases hnil

/-- A phrase that points at the text it runs on is rejected at a token. -/
theorem pointsAt_onText {α : Type} {phrase : Grammar → Parser α} {source : String}
    {e : SyntaxError} (hphrase : ∀ ts g, g.Pointing ts → Points ts (phrase g))
    (h : onText phrase source = .error e) : ∃ t, e.PointsAt source.toList t := by
  have hstart := Cursor.tokens_start (tokenize_proper source.toList)
  obtain ⟨r, c, hrun, rfl⟩ := exists_runOn_error h
  have hlevel := Grammar.level_pointing (tokenize source.toList)
  obtain ⟨t, ht, hr⟩ := ((hphrase _ _ (hlevel _ _)).run _ hstart).2 r (congrArg Prod.fst hrun)
  exact ⟨t, pointsAt_toError ht hr⟩

end Parse

/-- The error of a rejected file points at a token of its text. -/
theorem pointsAt_parseFile {source : String} {e : SyntaxError} (h : parseFile source = .error e) :
    ∃ t, e.PointsAt source.toList t :=
  Parse.pointsAt_onText (fun _ _ hg => hg.sourceFile) h

/-- A call with an argument that is no text, behind a byte order mark and a longer character. -/
def openText : String :=
  "\ufeffpackage p\n\nfunc f() \x7b\n\tg(é, \"ü\n\x7d\n"

theorem pointsAt_openText :
    ∃ e t, parseFile openText = .error e ∧ e.PointsAt openText.toList t ∧
      e = ⟨.lexical .stringOpen, 4, 7, "\tg(é, \"ü"⟩ := by
  have herror : (parseFile openText).map (fun _ => ()) =
      .error ⟨.lexical .stringOpen, 4, 7, "\tg(é, \"ü"⟩ := by
    decide +kernel
  rcases hparse : parseFile openText with e | file
  · rw [hparse] at herror
    obtain rfl := Except.error.inj herror
    obtain ⟨t, ht⟩ := pointsAt_parseFile hparse
    exact ⟨_, t, rfl, ht, rfl⟩
  · rw [hparse] at herror
    cases herror

end HandlerSplit
