import HandlerSplit.Proofs.Parse.Built.File
import HandlerSplit.Proofs.Print.Nodes
import HandlerSplit.Proofs.Print.Seen
/-!
# Where `...` is printed

The parser takes `...` behind any argument of a call, and the tree holds one flag for all of them.
So the printer writes it behind the last argument, wherever it stood: it comes back where it was
read if and only if it was read behind no argument before the last (`print_spreads`).
-/

namespace HandlerSplit

/-- Which of `n` arguments are printed with `...`: only the last, if any. -/
def spreadsOf (variadic : Bool) : Nat → List Bool
  | 0 => []
  | 1 => [variadic]
  | n + 2 => false :: spreadsOf variadic (n + 1)

/-- The flag of a call stands for what was read behind its arguments if and only if nothing was read
behind those before the last. -/
theorem spreadsOf_any_iff (spreads : List Bool) :
    spreadsOf (spreads.any id) spreads.length = spreads ↔ ∀ s ∈ spreads.dropLast, s = false := by
  induction spreads with
  | nil => exact iff_of_true rfl nofun
  | cons s spreads ih =>
    cases spreads with
    | nil => exact iff_of_true (by simp [spreadsOf]) nofun
    | cons s' spreads =>
      show false :: spreadsOf _ (s' :: spreads).length = s :: s' :: spreads ↔
        ∀ t ∈ s :: (s' :: spreads).dropLast, t = false
      rw [List.forall_mem_cons, ← ih, List.cons.injEq]
      constructor
      · rintro ⟨rfl, hrest⟩
        exact ⟨rfl, hrest⟩
      · rintro ⟨rfl, hrest⟩
        exact ⟨rfl, hrest⟩

namespace Print

/-! ## What follows the arguments -/

theorem seen_dots (variadic : Bool) :
    Output.seen (if variadic then [.word "..."] else []) = spreadMark variadic := by
  cases variadic with
  | true => exact Output.seen_mark .ellipsis
  | false => rfl

theorem seen_tailOf (variadic closeNewline : Bool) (n i : Nat) :
    Output.seen (tailOf variadic closeNewline n i) = spreadMark (variadic && i + 1 == n) ++
      if i + 1 < n || closeNewline then [.punct .comma] else [] := by
  rw [tailOf, Output.seen_append, seen_dots]
  congr 1
  split
  · exact Output.seen_mark .comma
  · rfl

/-- Arguments on several lines. There is a comma behind the last if the closing bracket stands on a
line of its own. -/
theorem argumentList_tails (variadic closeNewline : Bool) {n i : Nat} {items : List ItemText}
    (h : i + items.length = n) :
    ArgumentList (items.map (·.text.seen)) (spreadsOf variadic items.length)
      ((items.zip ((List.range' i items.length).map (tailOf variadic closeNewline n))).flatMap
        fun p => p.1.text.seen ++ p.2.seen) := by
  induction items generalizing i with
  | nil => exact .nil
  | cons item items ih =>
    rw [List.length_cons] at h
    rw [List.length_cons, List.range'_succ, List.map_cons, List.map_cons, List.zip_cons_cons,
      List.flatMap_cons, seen_tailOf]
    cases items with
    | nil =>
      have hlast : i + 1 = n := h
      subst hlast
      cases closeNewline with
      | true => simpa [spreadsOf] using ArgumentList.cons item.text.seen variadic .nil
      | false => simpa [spreadsOf] using ArgumentList.last item.text.seen variadic
    | cons item' items =>
      rw [List.length_cons] at h
      have hmore : i + 1 < n := by omega
      have hrest := ih (i := i + 1) (by rw [List.length_cons]; omega)
      simpa [spreadsOf, spreadMark, hmore, hmore.ne] using
        ArgumentList.cons item.text.seen false hrest

/-- Arguments on one line. -/
theorem argumentList_inline (variadic : Bool) (items : List ItemText) :
    ArgumentList (items.map (·.text.seen)) (spreadsOf variadic items.length)
      ((Output.commaSeparated (items.map (·.text))).seen ++
        Output.seen (if variadic && !items.isEmpty then [.word "..."] else [])) := by
  rw [seen_dots]
  induction items with
  | nil =>
    rw [List.isEmpty_nil, Bool.not_true, Bool.and_false]
    exact .nil
  | cons item items ih =>
    rw [List.isEmpty_cons, Bool.not_false, Bool.and_true, List.map_cons, List.map_cons]
    cases items with
    | nil =>
      have hone : Output.commaSeparated [item.text] = item.text := Output.joined_singleton _ _
      rw [List.map_nil, List.map_nil, hone]
      exact .last item.text.seen variadic
    | cons item' items =>
      rw [List.isEmpty_cons, Bool.not_false, Bool.and_true] at ih
      have hmore : Output.commaSeparated (item.text :: (item' :: items).map (·.text)) = item.text ++
          ([.word ",", .space] ++ Output.commaSeparated ((item' :: items).map (·.text))) :=
        Output.joined_cons_cons _ _ _ _
      have hcomma : Output.seen [.word ",", .space] = [.punct .comma] := Output.seen_mark .comma
      rw [hmore, Output.seen_append, Output.seen_append, hcomma, List.append_assoc,
        List.append_assoc]
      have hcons := ArgumentList.cons item.text.seen false ih
      rwa [spreadMark, if_neg Bool.false_ne_true, List.append_nil] at hcons

/-! ## Arguments in parentheses -/

/-- The comments of arguments and parentheses, if all their texts are read as comments. -/
theorem legible_elements {es : List Element} {e : Enclosure}
    (h : ∀ t ∈ e.openComment.toList.map (·.text) ++
      (es.flatMap fun x => textsAround x.decs (textsOf x.expr.marks)) ++
      e.closeComments.map (·.text), (TokenKind.comment t).Legible) :
    (∀ c ∈ e.openComment, c.Legible) ∧ (∀ x ∈ es, x.decs.Legible) ∧
      ∀ c ∈ e.closeComments, c.Legible := by
  obtain ⟨hbefore, hclose⟩ := List.forall_mem_append.mp h
  obtain ⟨hopen, hinside⟩ := List.forall_mem_append.mp hbefore
  refine ⟨fun c hc => hopen _ (List.mem_map_of_mem (Option.mem_toList.mpr hc)), fun x hx => ?_,
    fun c hc => hclose _ (List.mem_map_of_mem hc)⟩
  obtain ⟨hbefore, htrailing⟩ :=
    List.forall_mem_append.mp fun t ht => hinside t (List.mem_flatMap.mpr ⟨x, hx, ht⟩)
  exact ⟨fun c hc => (List.forall_mem_append.mp hbefore).1 _ (List.mem_map_of_mem hc),
    fun c hc => htrailing _ (List.mem_map_of_mem (Option.mem_toList.mpr hc))⟩

theorem Genuine.element {es : List Element} {e : Enclosure}
    (h : Genuine (elementWords es) (textsOf (e.around (elementMarks es)))) {x : Element}
    (hx : x ∈ es) : Genuine x.expr.words (textsOf x.expr.marks) := by
  rw [textsOf_elements, elementWords_eq] at h
  refine h.mono (fun k hk => List.mem_flatMap.mpr ⟨x, hx, hk⟩) fun t ht => ?_
  have hinside : t ∈ es.flatMap fun x => textsAround x.decs (textsOf x.expr.marks) :=
    List.mem_flatMap.mpr ⟨x, hx, by simp [textsAround, ht]⟩
  exact List.mem_append_left _ (List.mem_append_right _ hinside)

/-- Between its parentheses a printed call has its arguments, with `...` behind the last if the call
is variadic. -/
theorem argumentList_bracketed (style : Style) {es : List Element} {items : List ItemText}
    (hitems : List.Forall₂ (fun x item => ItemWrites item x.expr.words (textsOf x.expr.marks)) es
      items)
    (hpairs : ∀ item ∈ items, item.pair = none) (e : Enclosure)
    (hgenuine : Genuine (elementWords es) (textsOf (e.around (elementMarks es)))) (indent : Nat)
    (variadic : Bool) :
    ∃ ks, ArgumentList (items.map (·.text.seen)) (spreadsOf variadic items.length) ks ∧
      (bracketed style "(" ")" (es.map (·.decs)) e indent variadic items).seen =
        .punct .lparen :: (ks ++ [.punct .rparen]) := by
  have hopening : Output.seen [.word "("] = [.punct .lparen] := Output.seen_mark .lparen
  have hclosing : Output.seen [.word ")"] = [.punct .rparen] := Output.seen_mark .rparen
  cases hmulti : (ListShape.of (es.map (·.decs)) e).isMultiline with
  | false =>
    refine ⟨_, argumentList_inline variadic items, ?_⟩
    rw [bracketed_inline hmulti]
    simp only [Output.seen_append, hopening, hclosing]
    simp
  | true =>
    rw [textsOf_elements, elementWords_eq] at hgenuine
    obtain ⟨hcomment, hdecs, hcomments⟩ := legible_elements hgenuine.2
    obtain ⟨hkeyless, hseen⟩ := seen_layOut (by rw [List.length_map, hitems.length_eq]) hpairs
      (List.forall_mem_map.mpr hdecs) e indent variadic
    rw [List.range_eq_range'] at hseen
    -- The lines are sound, so all that is seen of them is written.
    obtain ⟨isFirst, hgathers⟩ :=
      Gathers.layOut (·.decs) .lparen (fun _ => rfl) hitems e indent variadic
    obtain ⟨ws₁, ws₂, cs₁, cs₂, -, hlines, hws, hcs⟩ := hgathers.finish (indent + 1)
    have hwords : ws₂ ⊆ es.flatMap (·.expr.words) := by
      have hsuffix : es.flatMap (·.expr.words) = ws₁ ++ ws₂ := hws
      rw [hsuffix]
      exact List.subset_append_right ws₁ ws₂
    have hsound := (hlines (hgenuine.mono hwords (by grind))).sound
    have hlist := argumentList_tails variadic (ListShape.of (es.map (·.decs)) e).closeNewline
      (Nat.zero_add items.length)
    rw [← hseen] at hlist
    exact ⟨_, hlist, seen_broken style .lparen .rparen hmulti hcomment hcomments hkeyless hsound⟩

/-! ## Calls -/

/-- Arguments are laid out without keys. -/
theorem pair_itemTexts (style : Style) (depth : Nat) (es : List Element) (indents : List Nat) :
    ∀ item ∈ itemTexts style false depth es indents, item.pair = none := by
  induction es generalizing indents with
  | nil => exact nofun
  | cons e es ih =>
    obtain ⟨x, d⟩ := e
    cases x <;> exact List.forall_mem_cons.mpr ⟨rfl, ih _⟩

theorem words_of_seen (o : Output) : o.seen.filter (·.isWord) = o.words := by
  rw [Output.seen, List.filter_filter, Output.words]
  refine List.filter_congr fun k _ => ?_
  cases k <;> simp [TokenKind.isWord, TokenKind.isTrivia]

/-- A call is printed with what is called and, in parentheses, with the tokens `ks`. Its arguments
are printed with the tokens `items`. -/
def PrintsCall (style : Style) (p : Place) (fn : Expr) (args : List Element) (variadic : Bool)
    (parens : Enclosure) (items : List (List TokenKind)) (ks : List TokenKind) : Prop :=
  List.Forall₂ (fun a item => item.filter (·.isWord) = a.expr.words) args items ∧
    ∃ head, head.filter (·.isWord) = fn.words ∧
      (exprOutput style (.call fn args variadic parens) p).seen =
        head ++ .punct .lparen :: (ks ++ [.punct .rparen])

theorem printsCall (style : Style) (p : Place) {fn : Expr} {args : List Element} {variadic : Bool}
    {parens : Enclosure} (h : (Expr.call fn args variadic parens).Printable) :
    ∃ items ks, PrintsCall style p fn args variadic parens items ks ∧
      ArgumentList items (spreadsOf variadic args.length) ks := by
  obtain ⟨⟨hfn, hargs⟩, hgenuine⟩ := h
  have hcalled : Genuine fn.words (textsOf fn.marks) := hgenuine.part
  have hlist : Genuine (elementWords args) (textsOf (parens.around (elementMarks args))) :=
    hgenuine.part
  set place := if args.length > 1 then p.deeper else p.inside with hplace
  have hitems := elements_prints style args hargs false place.depth
    (elementIndents args parens place.indent)
  obtain ⟨ks, hks, hseen⟩ := argumentList_bracketed style hitems
    (pair_itemTexts style place.depth args (elementIndents args parens place.indent)) parens hlist
    place.indent variadic
  set head : Output := if isFuncType fn then inParens (exprOutput style fn place)
    else exprOutput style fn place with hheadEq
  have hhead : Phrase head fn.words (textsOf fn.marks) := by
    rw [hheadEq]
    split
    · exact (Expr.prints style fn hfn place).inParens
    · exact Expr.prints style fn hfn place
  rw [← hitems.length_eq] at hks
  refine ⟨_, ks, ⟨?_, head.seen, ?_, ?_⟩, hks⟩
  · rw [List.forall₂_map_right_iff]
    refine ((List.forall₂_and_left _ _).mpr ⟨fun a ha => hlist.element ha, hitems⟩).imp ?_
    rintro a item ⟨ha, hitem⟩
    rw [words_of_seen]
    exact (hitem.text ha).1.words
  · rw [words_of_seen]
    exact (hhead hcalled).1.words
  · rw [exprOutput, ← hplace]
    exact (Output.seen_append _ _).trans (congrArg (head.seen ++ ·) hseen)

end Print

theorem Parse.Written.length {ts : List TokenKind} {args : List Element} {spreads : List Bool}
    (h : Parse.Written ts args spreads) : spreads.length = args.length := by
  obtain ⟨_, _, items, _, _, hlist, hitems⟩ := h
  rw [hlist.length, hitems.length_eq]

/-- A call of an accepted file is printed with its arguments in parentheses, and with `...` behind
the last of them if in the source there is one behind any. So the printed call has `...` behind the
arguments that have it in the source if and only if none before the last has it there. -/
theorem print_spreads {source : String} {file : SourceFile} (h : parseFile source = .ok file)
    {fn : Expr} {args : List Element} {variadic : Bool} {parens : Enclosure}
    (hcall : .enterExpr (.call fn args variadic parens) ∈ file.events) (style : Print.Style)
    (p : Print.Place) :
    ∃ spreads items ks, Parse.Written (Parse.kindsOf (tokenize source.toList)) args spreads ∧
      Print.PrintsCall style p fn args variadic parens items ks ∧
      ArgumentList items (spreadsOf (spreads.any id) args.length) ks ∧
      (ArgumentList items spreads ks ↔ ∀ s ∈ spreads.dropLast, s = false) := by
  obtain ⟨spreads, hwritten, rfl⟩ := (Parse.built_parseFile h _ hcall).called
  obtain ⟨items, ks, hprints, hlist⟩ := Print.printsCall style p (printable_parseFile h _ hcall)
  refine ⟨spreads, items, ks, hwritten, hprints, hlist, ?_⟩
  rw [← spreadsOf_any_iff, hwritten.length]
  exact ⟨fun hkept => hlist.unique hkept rfl, fun hkept => hkept ▸ hlist⟩

/-- What is called, the arguments and their layout, if a call is entered. -/
def Event.call? : Event → Option (Expr × List Element × Bool × Enclosure)
  | enterExpr (.call fn args variadic parens) => some (fn, args, variadic, parens)
  | _ => none

theorem Event.enterExpr_of_call? {e : Event} {fn : Expr} {args : List Element} {variadic : Bool}
    {parens : Enclosure} (h : e.call? = some (fn, args, variadic, parens)) :
    e = .enterExpr (.call fn args variadic parens) := by
  unfold call? at h
  split at h
  · cases h
    rfl
  · cases h

/-- A call with a comment and with `...` behind its last argument. -/
def spreadSource : String :=
  "package p\n\nfunc f() \x7b\n\tg(a, // one\n\t\tb...)\n\x7d\n"

theorem print_spreads_last :
    ∃ file fn args parens, parseFile spreadSource = .ok file ∧
      .enterExpr (.call fn args true parens) ∈ file.events ∧ args.length = 2 ∧
      ∃ spreads items ks,
        Parse.Written (Parse.kindsOf (tokenize spreadSource.toList)) args spreads ∧
        Print.PrintsCall {} (.atStart 1) fn args true parens items ks ∧
        ArgumentList items (spreadsOf (spreads.any id) args.length) ks ∧
        (ArgumentList items spreads ks ↔ ∀ s ∈ spreads.dropLast, s = false) := by
  have hcalls : (parseFile spreadSource).toOption.map (fun file =>
      (file.events.filterMap Event.call?).map fun c => (c.2.1.length, c.2.2.1)) =
        some [(2, true)] := by
    decide +kernel
  obtain ⟨file, h, hcalls⟩ := exists_ok_of_map hcalls
  obtain ⟨⟨fn, args, variadic, parens⟩, hmem, hshape⟩ :=
    List.mem_map.mp (hcalls ▸ List.mem_cons_self)
  obtain ⟨hlength, hvariadic⟩ := Prod.mk.inj hshape
  obtain rfl : variadic = true := hvariadic
  obtain ⟨e, he, hcall⟩ := List.mem_filterMap.mp hmem
  rw [Event.enterExpr_of_call? hcall] at he
  exact ⟨file, fn, args, parens, h, he, hlength, print_spreads h he {} (.atStart 1)⟩

/-- A call with `...` behind its first argument. -/
def earlySource : String :=
  "package p\n\nfunc f() \x7b\n\tg(a..., b)\n\x7d\n"

/-- It is read, and printed behind the second. -/
theorem print_spreads_moved :
    (parseFile earlySource).toOption.map (·.print {}) =
      some "package p\n\nfunc f() \x7b\n\tg(a, b...)\n\x7d\n" := by
  decide +kernel

end HandlerSplit
