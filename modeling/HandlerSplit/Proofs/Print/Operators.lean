import HandlerSplit.Print.Tree
import HandlerSplit.Proofs.Print.Entries
/-!
# What operators and brackets of expressions write

An operator is kept away from its right operand where the two would run together, and nothing else
is needed to keep them apart: what `runsTogether` does not name is read as it is written.
-/

namespace HandlerSplit.Print

/-! ## Operators -/

/-- Whether an operator with the given spelling runs together with what starts with `c`. -/
def meets (spelling : String) (c : Char) : Bool :=
  (spelling.toList.getLast?.map (runsTogether · c)).getD false

theorem meets_of_joins {op : BinaryOp} {c : Char} (hc : opensPhrase c = true)
    (hjoins : (TokenKind.op op).joins c = true) : meets op.spelling c = true := by
  have hall : op.joins.all (fun d => !opensPhrase d || meets op.spelling d) = true := by
    cases op <;> decide
  simpa [hc] using List.all_eq_true.mp hall c (List.contains_iff_mem.mp hjoins)

theorem meets_of_joins_unary {op : UnaryOp} {c : Char} (hc : opensPhrase c = true)
    (hjoins : op.kind.joins c = true) : meets op.spelling c = true := by
  cases op with
  | pos => exact @meets_of_joins .add c hc hjoins
  | neg => exact @meets_of_joins .sub c hc hjoins
  | xor => exact @meets_of_joins .xor c hc hjoins
  | addr => exact @meets_of_joins .and c hc hjoins
  | not =>
    rw [beq_iff_eq.mp hjoins] at hc
    cases hc
  | recv => cases hjoins
  | tilde => cases hjoins

/-- A phrase behind an operator, with a space between them if they would run together. -/
theorem Writes.operand {k : TokenKind} {spelling : String} {o : Output} {ws : List TokenKind}
    {cs : List String} (h : Phrase o ws cs)
    (hk : ∀ c, opensPhrase c = true → k.joins c = true → meets spelling c = true)
    (hline : k.isLineComment = false) {isSpaced : Bool}
    (hclose : isSpaced = false → (match spelling.toList.getLast?, o.firstChar? with
      | some a, some b => runsTogether a b
      | _, _ => false) = false) :
    Writes (· = some k) (if isSpaced then .space :: o else o) Shut ws cs := by
  cases isSpaced with
  | true =>
    have hspace : Writes (· = some k) [.space] Start [] [] := by
      refine Writes.blank rfl (by decide) ?_
      rintro _ rfl j hj c hc
      cases hj
      cases List.mem_singleton.mp hc
      exact joins_of_endsAll hline rfl
    exact hspace.append h.writes
  | false =>
    refine h.after ?_
    rintro _ rfl j hj c hc hopens
    cases hj
    refine Bool.eq_false_iff.mpr fun hjoins => ?_
    have hmeets := hk c hopens hjoins
    have hclose := hclose rfl
    rw [Option.mem_def.mp hc] at hclose
    rw [meets] at hmeets
    cases hlast : spelling.toList.getLast? with
    | none =>
      rw [hlast] at hmeets
      cases hmeets
    | some a =>
      rw [hlast] at hmeets hclose
      exact absurd hmeets (Bool.eq_false_iff.mp hclose)

theorem legible_op (op : BinaryOp) : (TokenKind.op op).Legible := by
  cases op <;> exact ⟨_, _, rfl, rfl⟩

theorem legible_unary (op : UnaryOp) : op.kind.Legible := by
  cases op <;> exact ⟨_, _, rfl, rfl⟩

/-- A unary expression. -/
theorem Phrase.unary (op : UnaryOp) {o : Output} {ws : List TokenKind} {cs : List String}
    (h : Phrase o ws cs) : Phrase (unaryOutput op o) ([op.kind] ++ ws) cs := by
  have htext : op.kind.text = op.spelling := by cases op <;> rfl
  have hword : Writes Start [.word op.spelling] (· = some op.kind) [op.kind] [] := by
    have htoken : Writes Start [.word op.kind.text] (· = some op.kind) (wordOf op.kind) [] := by
      refine Writes.token (by cases op <;> rfl) (.inr (legible_unary op)) ?_ rfl
      rintro _ s rfl j hj
      cases hj
    rw [htext] at htoken
    exact htoken.cast (by cases op <;> rfl) rfl
  refine .ofWord (hword.append (Writes.operand h (fun c => meets_of_joins_unary)
    (by cases op <;> rfl) id)) fun _ => ?_
  cases op <;> exact ⟨_, _, rfl, rfl⟩

theorem Writes.op (op : BinaryOp) :
    Writes Closed [.word op.spelling] (· = some (.op op)) [.op op] [] := by
  refine Writes.token (k := .op op) rfl (.inr (legible_op op)) (fun _ s hs j hj c hc => hs j hj c ?_)
    rfl
  cases op <;> cases hc <;> decide

/-- The space before a binary operator. -/
theorem Writes.gap (blanks : Bool) : Writes Shut (if blanks then [.space] else []) Closed [] [] := by
  cases blanks with
  | true => exact Writes.space.before.behind
  | false => exact Writes.nil.behind

/-- A binary expression. -/
theorem Phrase.binary (blanks : Bool) (op : BinaryOp) {a b : Output} {ws ws' : List TokenKind}
    {cs cs' : List String} (ha : Phrase a ws cs) (hb : Phrase b ws' cs') :
    Phrase (binaryOutput blanks a op b) (ws ++ [.op op] ++ ws') (cs ++ cs') := by
  rw [binaryOutput, List.append_assoc]
  refine Phrase.cast (ha.append ((Writes.gap blanks).append ((Writes.op op).append
    (Writes.operand (k := .op op) hb (fun _ => meets_of_joins) rfl ?_)))) ?_ ?_
  · exact fun hclose => (Bool.or_eq_false_iff.mp hclose).2
  · simp
  · simp

/-- A binary expression whose operator ends a line. -/
theorem Phrase.brokenBinary (blanks : Bool) (op : BinaryOp) (indent : Nat) {a b : Output}
    {ws ws' : List TokenKind} {cs cs' : List String} (ha : Phrase a ws cs) (hb : Phrase b ws' cs') :
    Phrase (brokenBinaryOutput blanks a op indent b) (ws ++ [.op op] ++ ws') (cs ++ cs') := by
  have hop : Writes Closed [.word op.spelling] Any [.op op] [] := (Writes.op op).behind
  have hbreak : Writes Any [.newline, .tabs (indent + 1)] Start [] [] :=
    Writes.newline.append (.tabs _)
  have hright : Writes Start b Shut ws' cs' := hb.writes.before
  rw [brokenBinaryOutput, List.append_assoc, List.append_assoc]
  exact (ha.append ((Writes.gap blanks).append ((hop.append hbreak).append hright))).cast
    (by simp) (by simp)

/-- A dereference or pointer type. -/
theorem Phrase.star {o : Output} {ws : List TokenKind} {cs : List String} (h : Phrase o ws cs) :
    Phrase (.word "*" :: o) ([.op .mul] ++ ws) cs := by
  have hstar : Writes Start [.word "*"] Open [.op .mul] [] := by
    refine Writes.token (k := .op .mul) rfl (.inr (legible_op .mul)) ?_ ?_
    · rintro _ s rfl j hj
      cases hj
    · rintro k ⟨⟩ c hc
      refine Bool.eq_false_iff.mpr fun hjoins => ?_
      have hmem : c ∈ ['='] := List.contains_iff_mem.mp hjoins
      rw [List.mem_singleton.mp hmem] at hc
      cases hc
  exact .ofWord (hstar.append h.writes) fun _ => ⟨_, _, rfl, rfl⟩

/-- A channel type. -/
theorem Phrase.chan (dir : ChanDir) {o : Output} {ws : List TokenKind} {cs : List String}
    (h : Phrase o ws cs) : Phrase (chanOutput dir ++ o) (dir.words ++ ws) cs := by
  have hword : Phrase [.word "chan"] [.keyword .chan] [] := .keyword .chan
  have harrow : Writes Closed [.word "<-"] Clear [.punct .arrow] [] :=
    Writes.bracket (m := .arrow) fun _ => rfl
  have helem : Writes Ended (.space :: o) Shut ws cs := Writes.space.append h.writes
  cases dir with
  | both => exact hword.append helem
  | send => exact hword.append (harrow.append helem)
  | recv =>
    have hrest : Writes Open (.word "chan" :: .space :: o) Shut ([.keyword .chan] ++ ws) cs :=
      hword.writes.append helem
    have hall : Writes Start _ Shut _ _ := harrow.before.append hrest
    exact .ofWord hall fun _ => ⟨_, _, rfl, rfl⟩

/-! ## Brackets -/

theorem Writes.openBracket : Writes Closed [.word "["] Clear [.punct .lbracket] [] :=
  Writes.bracket (m := .lbracket) fun _ => rfl

theorem Writes.closeBracket : Writes Ended [.word "]"] Clear [.punct .rbracket] [] :=
  Writes.closing (m := .rbracket) (by decide) fun _ => rfl

theorem Writes.openParen : Writes Closed [.word "("] Clear [] [] :=
  Writes.bracket (m := .lparen) fun _ => rfl

theorem Writes.closeParen : Writes Ended [.word ")"] Clear [] [] :=
  Writes.closing (m := .rparen) (by decide) fun _ => rfl

/-- An expression in parentheses. -/
theorem Phrase.inParens {o : Output} {ws : List TokenKind} {cs : List String} (h : Phrase o ws cs) :
    Phrase (inParens o) ws cs := by
  have hall := (Writes.openParen.append h.writes).append Writes.closeParen
  have hstart : Writes Start (Print.inParens o) Shut ws cs :=
    hall.before.behind.cast (List.append_nil ws) (List.append_nil cs)
  exact .ofWord hstart fun _ => ⟨_, _, rfl, rfl⟩

/-- A phrase that may be missing. -/
def OptPhrase (o : Option Output) (ws : List TokenKind) (cs : List String) : Prop :=
  (o = none ∧ ws = [] ∧ cs = []) ∨ ∃ x, o = some x ∧ Phrase x ws cs

theorem OptPhrase.optWrites {o : Option Output} {ws : List TokenKind} {cs : List String}
    (h : OptPhrase o ws cs) : OptWrites o ws cs := by
  rcases h with ⟨rfl, rfl, rfl⟩ | ⟨x, rfl, hx⟩
  · exact ⟨Writes.nil.behind, fun _ => ⟨rfl, rfl⟩⟩
  · exact ⟨hx.writes.before.behind, nofun⟩

/-- Brackets behind a phrase. -/
theorem Phrase.bracketed {a b : Output} {ws ws' : List TokenKind} {cs cs' : List String}
    (ha : Phrase a ws cs) (hb : Writes Clear b Ended ws' cs') :
    Phrase (a ++ [.word "["] ++ b ++ [.word "]"])
      (ws ++ [.punct .lbracket] ++ ws' ++ [.punct .rbracket]) (cs ++ cs') := by
  rw [List.append_assoc, List.append_assoc]
  exact (ha.append (Writes.openBracket.append (hb.append Writes.closeBracket))).cast (by simp)
    (by simp)

/-- The point and parenthesis of a type assertion. -/
theorem Writes.asserted : Writes Closed [.word ".", .word "("] Clear [.punct .period] [] := by
  have hpoint : Writes Closed [.word "."] (· = some (.punct .period)) [.punct .period] [] := by
    refine Writes.token (k := .punct .period) rfl (.inr (legible_punct _))
      (fun _ s hs j hj c hc => hs j hj c ?_) rfl
    cases hc
    decide
  have hparen : Writes (· = some (.punct .period)) [.word "("] Clear [] [] := by
    refine Writes.token (k := .punct .lparen) rfl (.inr (legible_punct _)) ?_ ⟨_, rfl, fun _ => rfl⟩
    rintro _ _ rfl j ⟨⟩ c ⟨⟩
    rfl
  exact hpoint.append hparen

/-- A type assertion. -/
theorem Phrase.asserted {a b : Output} {ws ws' : List TokenKind} {cs cs' : List String}
    (ha : Phrase a ws cs) (hb : Writes Clear b Ended ws' cs') :
    Phrase (a ++ [.word ".", .word "("] ++ b ++ [.word ")"]) (ws ++ [.punct .period] ++ ws')
      (cs ++ cs') := by
  rw [List.append_assoc, List.append_assoc]
  exact (ha.append (Writes.asserted.append (hb.append Writes.closeParen))).cast (by simp) (by simp)

/-- A map type. -/
theorem Phrase.mapType {a b : Output} {ws ws' : List TokenKind} {cs cs' : List String}
    (hkey : Phrase a ws cs) (hvalue : Phrase b ws' cs') :
    Phrase ([keywordPiece .map, .word "["] ++ a ++ [.word "]"] ++ b)
      ([.keyword .map] ++ ([.punct .lbracket] ++ ws ++ [.punct .rbracket] ++ ws')) (cs ++ cs') := by
  have hkey' : Writes Clear a Ended ws cs := hkey.writes.before.behind
  have hrest := ((Writes.openBracket.append hkey').append Writes.closeBracket).append hvalue.writes
  exact ((Phrase.keyword .map).append hrest).cast (by simp) (by simp)

/-- An array or slice type. -/
theorem Phrase.arrayType {len : Option Output} {o : Output} {ws ws' : List TokenKind}
    {cs cs' : List String} (hlen : OptPhrase len ws cs) (helem : Phrase o ws' cs') :
    Phrase ([.word "["] ++ len.getD [] ++ [.word "]"] ++ o)
      ([.punct .lbracket] ++ ws ++ [.punct .rbracket] ++ ws') (cs ++ cs') := by
  have hlen' : Writes Clear (len.getD []) Ended ws cs := by
    rcases hlen with ⟨rfl, rfl, rfl⟩ | ⟨x, rfl, hx⟩
    · exact Writes.nil.behind
    · exact hx.writes.before.behind
  have hall := ((Writes.openBracket.append hlen').append Writes.closeBracket).append helem.writes
  refine .ofWord (b := len.getD [] ++ [.word "]"] ++ o) (hall.before.cast rfl ?_) fun _ => ⟨_, _, rfl, rfl⟩
  simp

/-- The type of the last parameter of a variadic function, or the length of an array. -/
theorem Phrase.ellipsis {o : Option Output} {ws : List TokenKind} {cs : List String}
    (h : OptPhrase o ws cs) : Phrase (.word "..." :: o.getD []) ws cs := by
  have hdots : Writes Start [.word "..."] Clear [] [] :=
    (Writes.bracket (m := .ellipsis) fun _ => rfl).before
  have hrest : Writes Clear (o.getD []) Shut ws cs := by
    rcases h with ⟨rfl, rfl, rfl⟩ | ⟨x, rfl, hx⟩
    · exact Writes.nil.behind
    · exact hx.writes.before
  exact .ofWord (hdots.append hrest) fun _ => ⟨_, _, rfl, rfl⟩

/-! ## Slices -/

/-- Only `=` would be read on with what stands before. -/
def Marked (s : Before) : Prop :=
  ∀ k ∈ s, ∀ c, c ≠ '=' → k.joins c = false

/-- No colon is read on with what stands before. -/
def Uncolon (s : Before) : Prop :=
  ∀ k ∈ s, k.joins ':' = false

instance : Leads Clear Marked := ⟨fun _ h k hk c _ => h.free k hk c⟩
instance : Leads Start Marked := ⟨fun _ h k hk c _ => h.free k hk c⟩
instance : Leads Start Uncolon := ⟨fun _ h k hk => h.free k hk ':'⟩
instance : Leads Shut Uncolon := ⟨fun _ h k hk => h.closed k hk ':' (by decide)⟩
instance : Leads Marked Uncolon := ⟨fun _ h k hk => h k hk ':' (by decide)⟩

instance : Leads Marked Open := ⟨fun _ h k hk c hc => h k hk c fun heq => by
  rw [heq] at hc
  cases hc⟩

instance : Leads Marked Ended := ⟨fun _ h => (Leads.leads (P := Marked) (Q := Open) _ h).ended⟩

theorem Writes.colon : Writes Uncolon [.word ":"] Marked [.punct .colon] [] := by
  refine Writes.token (k := .punct .colon) rfl (.inr (legible_punct _)) ?_ ?_
  · rintro _ s hs j hj c ⟨⟩
    exact hs j hj
  · rintro k ⟨⟩ c hc
    exact beq_false_of_ne hc

/-- A bound with the colon behind it. -/
theorem Writes.bound {low : Option Output} {ws : List TokenKind} {cs : List String}
    (hlow : OptPhrase low ws cs) (blanks isFollowed : Bool) :
    Writes Marked (low.getD [] ++ (if low.isSome && blanks then [.space] else []) ++ [.word ":"] ++
      if isFollowed && blanks then [.space] else []) Marked (ws ++ [.punct .colon]) cs := by
  have hbefore : Writes Marked (low.getD [] ++ if low.isSome && blanks then [.space] else [])
      Uncolon ws cs := by
    rcases hlow with ⟨rfl, rfl, rfl⟩ | ⟨x, rfl, hx⟩
    · exact Writes.nil.behind
    · have hx' : Writes Marked x Shut ws cs := hx.writes.before
      cases blanks with
      | true =>
        have hspaced : Writes Marked (x ++ [.space]) Start _ _ := hx'.append Writes.space
        exact hspaced.behind.cast (List.append_nil ws) (List.append_nil cs)
      | false =>
        show Writes Marked (x ++ []) Uncolon ws cs
        rw [List.append_nil]
        exact hx'.behind
  have hbehind : Writes Marked (if isFollowed && blanks then [.space] else []) Marked [] [] := by
    split
    · exact Writes.space.before.behind
    · exact .nil
  exact ((hbefore.append Writes.colon).append hbehind).cast (by simp) (by simp)

/-- The last bound. -/
theorem Writes.lastBound {o : Option Output} {ws : List TokenKind} {cs : List String}
    (h : OptPhrase o ws cs) : Writes Marked (o.getD []) Ended ws cs := by
  rcases h with ⟨rfl, rfl, rfl⟩ | ⟨x, rfl, hx⟩
  · exact Writes.nil.behind
  · exact hx.writes.before.behind

/-- The bounds of a slice. -/
theorem Writes.bounds {low high : Option Output} {ws ws' : List TokenKind} {cs cs' : List String}
    (hlow : OptPhrase low ws cs) (hhigh : OptPhrase high ws' cs') (blanks : Bool) :
    Writes Marked (boundsOutput blanks [low, high]) Ended (ws ++ [.punct .colon] ++ ws') (cs ++ cs') :=
  (bound hlow blanks high.isSome).append (lastBound hhigh)

theorem Writes.threeBounds {low high max : Option Output} {ws ws' ws'' : List TokenKind}
    {cs cs' cs'' : List String} (hlow : OptPhrase low ws cs) (hhigh : OptPhrase high ws' cs')
    (hmax : OptPhrase max ws'' cs'') (blanks : Bool) :
    Writes Marked (boundsOutput blanks [low, high, max]) Ended
      (ws ++ [.punct .colon] ++ (ws' ++ [.punct .colon] ++ ws'')) (cs ++ (cs' ++ cs'')) :=
  (bound hlow blanks high.isSome).append (bounds hhigh hmax blanks)

/-! ## Signs of statements -/

/-- The sign of an assignment. -/
theorem Writes.assignOp (op : AssignOp) : Writes Start [.word op.spelling] Ended [op.kind] [] := by
  have htext : op.kind.text = op.spelling := by cases op <;> rfl
  have hfault : ∀ f, op.kind ≠ .fault f := by cases op <;> exact nofun
  have htoken : Writes Start [.word op.kind.text] Ended (wordOf op.kind) [] := by
    refine Writes.token (by cases op <;> rfl) (.inl ⟨op.isWord_kind, hfault⟩) ?_ ?_
    · rintro _ s rfl j hj
      cases hj
    · rintro k ⟨⟩
      cases op <;> rfl
  rw [htext] at htoken
  exact htoken.cast (by cases op <;> rfl) rfl

/-- A sign with spaces around it. -/
theorem Writes.spacedSign {o : Output} {ws : List TokenKind} (h : Writes Start o Ended ws []) :
    Writes Ended (.space :: o ++ [.space]) Start ws [] :=
  ((Writes.space.append h).append Writes.space).cast (List.append_nil ws) rfl

theorem Writes.arrow : Writes Start [.word "<-"] Ended [.punct .arrow] [] :=
  (Writes.bracket (m := .arrow) fun _ => rfl).before.behind

/-- The sign of a statement that counts up or down. -/
theorem Writes.step (up : Bool) :
    Writes Closed [.word (if up then "++" else "--")] Clear [.punct (if up then .inc else .dec)] [] := by
  cases up with
  | true => exact Writes.bracket (m := .inc) fun _ => rfl
  | false => exact Writes.bracket (m := .dec) fun _ => rfl

/-- Expressions with commas between them. -/
theorem Writes.phrases {α : Type} {w : α → List TokenKind} {t : α → List String} {xs : List α}
    {os : List Output} (h : List.Forall₂ (fun x o => Phrase o (w x) (t x)) xs os) :
    Writes Start (Output.commaSeparated os) Closed (xs.flatMap w) (xs.flatMap t) := by
  have hall : List.Forall₂ (fun x o => Writes Start o Shut (w x) (t x)) xs os :=
    h.imp fun _ _ ho => ho.writes.before
  exact .joined Writes.comma.before hall

/-- A keyword with the space behind it. -/
theorem Writes.spacedKeyword (w : Keyword) :
    Writes Start [keywordPiece w, .space] Start [.keyword w] [] :=
  (Writes.keyword w).before.append Writes.space

/-- A part that is missing. -/
theorem OptWrites.missing : OptWrites none [] [] :=
  ⟨Writes.nil.behind, fun _ => ⟨rfl, rfl⟩⟩

/-- The label that a branch statement goes to. -/
theorem OptWrites.label (label : Option String) :
    OptWrites (label.map fun l => [.word l]) (nameWords label.toList) [] := by
  cases label with
  | none => exact .missing
  | some l => exact ⟨(Writes.ident l).before.behind, nofun⟩

/-- The first statement of a type switch, with the semicolon behind it. -/
theorem Writes.initial {init : Option Output} {ws : List TokenKind} {cs : List String} :
    OptWrites init ws cs → Writes Start (match init with
      | some init => init ++ [.word ";", .space]
      | none => []) Start ws cs := by
  intro h
  cases init with
  | none =>
    obtain ⟨rfl, rfl⟩ := h.2 rfl
    exact .nil
  | some x =>
    exact (h.1.append (Writes.semicolon.append Writes.space)).cast (List.append_nil _)
      (List.append_nil _)

/-- The variables of a range clause. -/
theorem Writes.rangeVars {key value : Option Output} {ws ws' : List TokenKind} {cs cs' : List String}
    (define : Bool) : OptPhrase key ws cs → OptPhrase value ws' cs' →
      (key = none → value = none) → Writes Start (match key with
      | none => []
      | some key => key ++ (value.map fun value => [Piece.word ",", .space] ++ value).getD [] ++
          [.space, .word (if define then ":=" else "="), .space]) Start
      (ws ++ ws' ++ rangeOpWords key.isSome define) (cs ++ cs') := by
  intro hkey hvalue hboth
  have hsign : Writes Ended [.space, .word (if define then ":=" else "="), .space] Start
      [.punct (if define then .define else .assign)] [] := by
    have hword : Writes Start [.word (if define then ":=" else "=")] Ended
        [.punct (if define then .define else .assign)] [] := by
      cases define with
      | true => exact Writes.assignOp .define
      | false => exact Writes.assignOp .assign
    exact Writes.space.append (hword.append Writes.space)
  rcases hkey with ⟨rfl, rfl, rfl⟩ | ⟨x, rfl, hx⟩
  · rcases hvalue with ⟨rfl, rfl, rfl⟩ | ⟨y, rfl, -⟩
    · exact .nil
    · cases hboth rfl
  · have hx' : Writes Start x Shut ws cs := hx.writes.before
    have hvalue' : Writes Shut ((value.map fun value => [Piece.word ",", .space] ++ value).getD [])
        Ended ws' cs' := by
      rcases hvalue with ⟨rfl, rfl, rfl⟩ | ⟨y, rfl, hy⟩
      · exact Writes.nil.behind
      · exact (Writes.comma.before.append hy.writes).behind
    exact ((hx'.append hvalue').append hsign).cast rfl (List.append_nil _)

/-! ## Statements of several phrases -/

section

variable {ws ws₁ ws₂ ws₃ ws₄ : List TokenKind} {cs cs₁ cs₂ cs₃ cs₄ : List String}

/-- A statement that counts up or down. -/
theorem Writes.incDec {x : Output} (hx : Phrase x ws cs) (up : Bool) :
    Writes Start (x ++ [.word (if up then "++" else "--")]) Closed
      (ws ++ [.punct (if up then .inc else .dec)]) cs := by
  have hx : Writes Start x Shut ws cs := hx.writes.before
  exact ((hx.append (Writes.step up)).cast rfl (List.append_nil _)).behind

/-- A value sent to a channel. -/
theorem Writes.send {chan value : Output} (hchan : Phrase chan ws₁ cs₁)
    (hvalue : Phrase value ws₂ cs₂) :
    Writes Start (chan ++ [.space, .word "<-", .space] ++ value) Closed
      (ws₁ ++ [.punct .arrow] ++ ws₂) (cs₁ ++ cs₂) := by
  have hchan : Writes Start chan Shut ws₁ cs₁ := hchan.writes.before
  have hvalue : Writes Start value Closed ws₂ cs₂ := hvalue.writes.before.behind
  exact ((hchan.append (Writes.spacedSign .arrow)).append hvalue).cast rfl
    (by rw [List.append_nil])

/-- A conditional, with its header and what follows its body. -/
theorem Writes.ifThen {init : Option Output} {cond body rest : Output}
    (hinit : OptWrites init ws₁ cs₁) (hcond : Phrase cond ws₂ cs₂)
    (hbody : Writes Closed body Clear ws₃ cs₃) (hrest : Writes Clear rest Clear ws₄ cs₄) :
    Writes Start (keywordPiece .if :: headerOutput false init (some cond) none ++ body ++ rest) Clear
      ([.keyword .if] ++ (ws₁ ++ ws₂) ++ ws₃ ++ ws₄) (cs₁ ++ cs₂ ++ cs₃ ++ cs₄) := by
  have hcond : OptWrites (some cond) ws₂ cs₂ := ⟨hcond.writes.before.behind, nofun⟩
  have hheader := Writes.headed .if false hinit hcond .missing (.inr rfl)
  exact ((hheader.append hbody).append hrest).cast (by simp) (by simp)

/-- A loop with the clauses of its header, any of which may be missing. -/
theorem Writes.forLoop {init cond post : Option Output} {body : Output}
    (hinit : OptWrites init ws₁ cs₁) (hcond : OptPhrase cond ws₂ cs₂)
    (hpost : OptWrites post ws₃ cs₃) (hbody : Writes Closed body Clear ws₄ cs₄) :
    Writes Start (keywordPiece .for :: headerOutput true init cond post ++ body) Clear
      ([.keyword .for] ++ (ws₁ ++ ws₂ ++ ws₃) ++ ws₄) (cs₁ ++ cs₂ ++ cs₃ ++ cs₄) :=
  (Writes.headed .for true hinit hcond.optWrites hpost (.inl rfl)).append hbody

/-- A loop over a range, with the variables before it. -/
theorem Writes.rangeLoop {vars x body : Output} (hvars : Writes Start vars Start ws₁ cs₁)
    (hx : Phrase x ws₂ cs₂) (hbody : Writes Closed body Clear ws₃ cs₃) :
    Writes Start ([keywordPiece .for, .space] ++ vars ++ [keywordPiece .range, .space] ++ x ++
      [.space] ++ body) Clear
      ([.keyword .for] ++ (ws₁ ++ [.keyword .range] ++ ws₂) ++ ws₃) (cs₁ ++ cs₂ ++ cs₃) := by
  have hx : Writes Start x Shut ws₂ cs₂ := hx.writes.before
  have hheader := ((((Writes.spacedKeyword .for).append hvars).append
    (Writes.spacedKeyword .range)).append hx).append Writes.space
  exact (hheader.append hbody).cast (by simp) (by simp)

/-- A switch on a value, with its clauses. -/
theorem Writes.switch {init tag : Option Output} {clauses : Output}
    (hinit : OptWrites init ws₁ cs₁) (htag : OptPhrase tag ws₂ cs₂)
    (hclauses : Writes Closed clauses Clear ws₃ cs₃) :
    Writes Start (keywordPiece .switch :: headerOutput false init tag none ++ clauses) Clear
      ([.keyword .switch] ++ (ws₁ ++ ws₂) ++ ws₃) (cs₁ ++ cs₂ ++ cs₃) :=
  ((Writes.headed .switch false hinit htag.optWrites .missing (.inr rfl)).append hclauses).cast
    (by simp) (by simp)

/-- A switch on a type, with its clauses. -/
theorem Writes.typeSwitch {init : Option Output} {guard clauses : Output}
    (hguard : Writes Start guard Closed ws₂ cs₂) (hclauses : Writes Closed clauses Clear ws₃ cs₃) :
    OptWrites init ws₁ cs₁ → Writes Start ([keywordPiece .switch, .space] ++ (match init with
      | some init => init ++ [.word ";", .space]
      | none => []) ++ guard ++ [.space] ++ clauses) Clear
      ([.keyword .switch] ++ (ws₁ ++ ws₂) ++ ws₃) (cs₁ ++ cs₂ ++ cs₃) := by
  intro hinit
  have hheader := ((Writes.spacedKeyword .switch).append (Writes.initial hinit)).append hguard
  exact ((hheader.append Writes.space).append hclauses).cast (by simp) (by simp)

end

end HandlerSplit.Print
