import HandlerSplit.Proofs.Parse.Marks.File
import HandlerSplit.Proofs.Parse.Regular.File
import HandlerSplit.Proofs.Parse.Words.File
import HandlerSplit.Proofs.Print.Lexed
import HandlerSplit.Proofs.Print.Tree
/-!
# The tokens of a printed source

A file that is read and printed keeps all its comments (`print_comments`). It keeps its words if and
only if no number is printed right before a character that it fuses with (`print_words_iff`).
-/

namespace HandlerSplit

theorem textsOf_marksOf (tokens : List Token) :
    textsOf (marksOf tokens) = commentsOf tokens := by
  rw [textsOf, marksOf, List.filterMap_filterMap, commentsOf]
  congr 1
  funext t
  cases t.kind <;> rfl

theorem comment?_eq_some {k : TokenKind} {text : String} (h : k.comment? = some text) :
    k = .comment text := by
  cases k with
  | comment => exact congrArg _ (Option.some.inj h)
  | _ => cases h

namespace Print

/-- The words and comments of an accepted file can be read from their own texts. -/
theorem genuine_parseFile {source : String} {file : SourceFile} (h : parseFile source = .ok file) :
    Genuine file.words file.comments := by
  constructor
  · intro k hk hfault
    rw [Parse.words_parseFile h, wordsOf, List.mem_filter, List.mem_map] at hk
    obtain ⟨⟨t, ht, rfl⟩, hword⟩ := hk
    refine legible_of_mem_tokenize ht hfault (fun hkind => ?_) fun hkind => ?_
    · rw [hkind] at hword
      cases hword
    · rw [hkind] at hword
      cases hword
  · intro text htext
    rw [comments_eq_textsBefore h] at htext
    have htext := (textsBefore_sublist _ _ _).subset htext
    rw [textsOf_marksOf, commentsOf, List.mem_filterMap] at htext
    obtain ⟨t, ht, hcomment⟩ := htext
    have hkind : t.kind = .comment text := comment?_eq_some hcomment
    rw [← hkind]
    exact legible_of_mem_tokenize ht (by simp [hkind]) (by simp [hkind]) (by simp [hkind])

theorem toList_render (o : Output) : o.render.toList = o.chars := by
  have hfold (s : String) : (o.foldl (fun s p => s ++ p.text) s).toList = s.toList ++ o.chars := by
    induction o generalizing s with
    | nil => exact (List.append_nil _).symm
    | cons p o ih =>
      rw [List.foldl_cons, ih, String.toList_append, List.append_assoc]
      rfl
  exact hfold ""

theorem dropByteOrderMark_eq {cs : List Char} (h : ∀ c ∈ cs.head?, c ≠ '\ufeff') :
    dropByteOrderMark cs = (⟨0, 1, 1⟩, cs) := by
  unfold dropByteOrderMark
  split
  · exact absurd rfl (h _ rfl)
  · rfl

/-- A text that is written starts with no byte order mark. -/
theorem head_chars {o : Output} (hlegible : o.Legible) : ∀ c ∈ o.chars.head?, c ≠ '\ufeff' := by
  induction o with
  | nil => exact nofun
  | cons piece o ih =>
    have hchars : Output.chars (piece :: o) = piece.chars ++ Output.chars o := rfl
    rw [hchars]
    cases hpiece : piece.kind? with
    | none =>
      have hblank := isBlank_of_mem_chars hpiece
      cases hchars : piece.chars with
      | nil => exact ih fun t ht => hlegible t (List.mem_cons_of_mem piece ht)
      | cons c cs =>
        rw [hchars] at hblank
        rintro d ⟨⟩ rfl
        exact absurd (hblank _ List.mem_cons_self) (by decide)
    | some j =>
      obtain ⟨t, rfl⟩ := word_of_kind? hpiece
      obtain ⟨k, hk, rfl⟩ := hlegible t List.mem_cons_self
      obtain ⟨c, cs, htext, -⟩ := id hk
      have hword : (Piece.word k.text).chars = c :: cs := htext
      rw [hword]
      rintro d ⟨⟩ rfl
      exact hk.head _ (by rw [htext]; rfl) (by decide)

theorem tokenize_chars {o : Output} (hlegible : o.Legible) :
    tokenize o.chars = tokensFrom ⟨0, 1, 1⟩ false o.chars := by
  rw [tokenize, dropByteOrderMark_eq (head_chars hlegible)]

/-- What the output of an accepted file is made of. -/
theorem written_parseFile {source : String} {file : SourceFile} (h : parseFile source = .ok file)
    (style : Style) : Written Start (fileOutput style file) Start file.words file.comments :=
  SourceFile.prints style file (Parse.regular_parseFile h) (genuine_parseFile h)

end Print

/-- The comments of a printed file are those the file records, with the same texts in the same
order. -/
theorem print_comments {source : String} {file : SourceFile} (h : parseFile source = .ok file)
    (style : Print.Style) :
    commentsOf (tokenize (file.print style).toList) = file.comments := by
  have hwritten := Print.written_parseFile h style
  rw [SourceFile.print, Print.toList_render, Print.tokenize_chars hwritten.legible,
    Print.commentsOf_chars hwritten.legible (hwritten.apart none rfl).1]
  exact hwritten.comments

/-- A file with comments between lines, in lists and behind columns. -/
def annotatedSource : String :=
  "// p\npackage p // q\n\nvar (\n\ta = 1 // a\n\tbb int // b\n)\n\nfunc f(a int, /* x */ b int) \x7b\n" ++
    "\tg(a, // one\n\t\tb /* two */)\n\t// end\n\x7d\n"

theorem print_comments_annotated :
    ∃ file, parseFile annotatedSource = .ok file ∧
      commentsOf (tokenize (file.print {}).toList) = file.comments := by
  obtain ⟨file, h⟩ := exists_ok_of_isSome (x := parseFile annotatedSource) (by decide +kernel)
  exact ⟨file, h, print_comments h {}⟩

/-- The words of a printed file are those of its source if and only if no number is printed right
before a character that it fuses with. -/
theorem print_words_iff {source : String} {file : SourceFile} (h : parseFile source = .ok file)
    (style : Print.Style) :
    wordsOf (tokenize (file.print style).toList) = wordsOf (tokenize source.toList) ↔
      (Print.fileOutput style file).Unfused := by
  have hwritten := Print.written_parseFile h style
  rw [SourceFile.print, Print.toList_render, Print.tokenize_chars hwritten.legible,
    ← Parse.words_parseFile h, ← hwritten.words]
  exact Print.wordsOf_chars_iff hwritten.legible (hwritten.apart none rfl).1

/-- A file whose only number stands before a point, with a space between them. -/
def spacedSource : String :=
  "package p\n\nvar x = 1 .y\n"

theorem print_words_iff_spaced :
    ∃ file, parseFile spacedSource = .ok file ∧
      (wordsOf (tokenize (file.print {}).toList) = wordsOf (tokenize spacedSource.toList) ↔
        (Print.fileOutput {} file).Unfused) := by
  obtain ⟨file, h⟩ := exists_ok_of_isSome (x := parseFile spacedSource) (by decide +kernel)
  exact ⟨file, h, print_words_iff h {}⟩

/-- The space is not printed, and the number is read with the point. -/
theorem print_words_lost :
    (parseFile spacedSource).toOption.map (fun file => wordsOf (tokenize (file.print {}).toList)) =
        some [.keyword .package, .ident "p", .keyword .var, .ident "x", .punct .assign,
          .literal .float "1.y"] ∧
      wordsOf (tokenize spacedSource.toList) =
        [.keyword .package, .ident "p", .keyword .var, .ident "x", .punct .assign,
          .literal .int "1", .punct .period, .ident "y"] := by
  decide +kernel

end HandlerSplit
