import HandlerSplit.Print.Tree
import HandlerSplit.Proofs.Print.Layout.Parts
import HandlerSplit.Proofs.Print.Operators
/-!
# Laying out phrases

Operators, brackets, colons and the words of a statement are written between phrases on one line, or
with a line break behind an operator. Wherever the phrases may stand, what is put together from them
may.
-/

namespace HandlerSplit.Print

open Spot

variable {o : Output}

/-! ## Operators -/

theorem Firm.operator (op : BinaryOp) : Firm [.word op.spelling] :=
  (Plainly.of_legible (k := .op op) (plain_op op).legible rfl rfl rfl).firm

theorem Firm.unary (op : UnaryOp) (ho : Firm o) : Firm (unaryOutput op o) := by
  have hop : Firm [.word op.spelling] := by
    have hkind := (Plainly.of_legible (legible_unary op) (by cases op <;> rfl) (by cases op <;> rfl)
      (by cases op <;> rfl)).firm
    have htext : op.kind.text = op.spelling := by cases op <;> rfl
    rwa [htext] at hkind
  have hrest (together : Bool) : Firm (.word op.spelling :: if together then .space :: o else o) := by
    cases together with
    | true => exact hop.then ho.space
    | false => exact hop.then ho
  exact hrest _

theorem Firm.binary {left right : Output} (hleft : Firm left) (hright : Firm right)
    (isSpaced : Bool) (op : BinaryOp) : Firm (binaryOutput isSpaced left op right) := by
  have hstart : Lays Anywhere (left ++ if isSpaced then [.space] else []) Anywhere := by
    refine hleft.then ?_
    split
    · exact .space
    · exact .nil
  have hrest (blanks : Bool) : Firm (.word op.spelling :: if blanks then .space :: right else right) := by
    cases blanks with
    | true => exact (Firm.operator op).then hright.space
    | false => exact (Firm.operator op).then hright
  exact hstart.append (hrest _)

theorem Firm.brokenBinary {left right : Output} (hleft : Firm left) (hright : Firm right)
    (isSpaced : Bool) (op : BinaryOp) (indent : Nat) :
    Firm (brokenBinaryOutput isSpaced left op indent right) := by
  have hstart : Lays Anywhere (left ++ if isSpaced then [.space] else []) Anywhere := by
    refine hleft.then ?_
    split
    · exact .space
    · exact .nil
  have hbreak : Lays Anywhere [.word op.spelling, .newline, .tabs (indent + 1)] Anywhere :=
    Lays.append (a := [_]) (Firm.operator op)
      (Lays.append (a := [.newline]) .lineEnd (.tabs (P := Anywhere) (indent + 1)))
  exact (hstart.append hbreak).append hright

/-- The bounds of a slice, of which each may be missing. -/
theorem lays_bounds (blanks : Bool) {bounds : List (Option Output)}
    (h : ∀ b ∈ bounds, ∀ o ∈ b, Firm o) : Lays Near (boundsOutput blanks bounds) Near := by
  have hspace (c : Bool) : Lays Near (if c then [.space] else []) Near := by
    split
    · exact .space
    · exact .nil
  have hcolon : Lays Near [.word ":"] Near := .mark (m := .colon) rfl rfl
  induction bounds with
  | nil => exact .nil
  | cons low bounds ih =>
    obtain ⟨hlow, hbounds⟩ := List.forall_mem_cons.mp h
    cases bounds with
    | nil => exact .optional hlow
    | cons high bounds =>
      exact ((((Lays.optional hlow).append (hspace _)).append hcolon).append (hspace _)).append
        (ih hbounds)

theorem lays_chan (dir : ChanDir) : Lays Anywhere (chanOutput dir) Anywhere := by
  have hchan : Firm [.word "chan"] := Firm.keyword .chan
  have harrow : Firm [.word "<-"] := Firm.mark .arrow rfl rfl
  cases dir with
  | both => exact Lays.then (a := [_]) hchan .space
  | send => exact (hchan.then harrow).then .space
  | recv => exact (harrow.then hchan).then .space

/-! ## Brackets and colons -/

theorem Firm.inParens (ho : Firm o) : Firm (inParens o) :=
  Lays.then (a := [_]) (Q := Near) (Lays.opening (m := .lparen) rfl).behind
    (ho.append (.closing (m := .rparen) rfl))

/-- A phrase in brackets that may be empty. -/
theorem lays_brackets (ho : Lays Near o Near) : Firm ([.word "["] ++ o ++ [.word "]"]) := by
  have hopen : Lays Anywhere [.word "["] Near := (Lays.opening (m := .lbracket) rfl).behind
  exact (hopen.append ho).append (.closing (m := .rbracket) rfl)

theorem Firm.inBrackets {x : Output} (hx : Firm x) (ho : Lays Near o Near) :
    Firm (x ++ [.word "["] ++ o ++ [.word "]"]) := by
  have h := hx.then (lays_brackets ho)
  rwa [← List.append_assoc, ← List.append_assoc] at h

theorem Firm.asserted {x : Output} (hx : Firm x) (ho : Lays Near o Near) :
    Firm (x ++ [.word ".", .word "("] ++ o ++ [.word ")"]) := by
  have hperiod : Firm [.word "."] := Firm.mark .period rfl rfl
  have hopen : Lays Anywhere [.word ".", .word "("] Near :=
    Lays.then (a := [_]) hperiod (Lays.opening (m := .lparen) rfl).behind
  exact ((hx.then hopen).append ho).append (.closing (m := .rparen) rfl)

theorem Firm.keyValue {key value : Output} (hkey : Firm key) (hvalue : Firm value) :
    Firm (key ++ [.word ":", .space] ++ value) := by
  have hcolon : Lays Anywhere [.word ":", .space] Anywhere :=
    Lays.then (a := [_]) (Firm.mark .colon rfl rfl) .space
  exact (hkey.then hcolon).append hvalue

theorem NeatItem.keyValue {key value : Output} (hkey : Firm key) (hvalue : Firm value) (pairs : Bool) :
    NeatItem ⟨key ++ [.word ":", .space] ++ value, if pairs then some (key, value) else none⟩ := by
  refine ⟨hkey.keyValue hvalue, fun kv hkv => ?_⟩
  cases pairs with
  | true =>
    cases hkv
    exact ⟨hkey, hvalue⟩
  | false => cases hkv

/-- A sign between two phrases, with spaces around it. -/
theorem lays_sign {t : String} (ht : Firm [.word t]) :
    Lays Anywhere [.space, .word t, .space] Anywhere :=
  Lays.then (a := [.space, .word t]) ht.space .space

/-! ## Phrases of statements -/

section

variable {os os' : List Output}

theorem Firm.assigned {t : String} (h : ∀ o ∈ os, Firm o) (ht : Firm [.word t])
    (h' : ∀ o ∈ os', Firm o) (hne : os' ≠ []) :
    Firm (Output.commaSeparated os ++ [.space, .word t, .space] ++ Output.commaSeparated os') := by
  have hleft : Lays Anywhere (Output.commaSeparated os) Anywhere := .joined .spacedComma h
  exact (hleft.append (lays_sign ht)).append (Firm.commaSeparated h' hne)

/-- A statement that counts up or down. -/
theorem Firm.incDec {x : Output} (hx : Firm x) (up : Bool) :
    Firm (x ++ [.word (if up then "++" else "--")]) := by
  cases up with
  | true => exact hx.then (Firm.mark .inc rfl rfl)
  | false => exact hx.then (Firm.mark .dec rfl rfl)

/-- A value sent to a channel. -/
theorem Firm.send {chan value : Output} (hchan : Firm chan) (hvalue : Firm value) :
    Firm (chan ++ [.space, .word "<-", .space] ++ value) := by
  have harrow : Lays Anywhere [.space, .word "<-", .space] Anywhere :=
    lays_sign (Firm.mark .arrow rfl rfl)
  exact (hchan.then harrow).append hvalue

/-- The values of a `return` statement, if there are any. -/
theorem Firm.returned (h : ∀ o ∈ os, Firm o) :
    Firm (keywordPiece .return :: if os.isEmpty then [] else .space :: Output.commaSeparated os) := by
  cases os with
  | nil => exact Firm.keyword .return
  | cons o os => exact (Firm.keyword .return).then (Firm.commaSeparated h (List.cons_ne_nil _ _)).space

/-- The values of a declaration, if there are any. -/
theorem firm_values (h : ∀ o ∈ os, Firm o) :
    ∀ o ∈ if os.isEmpty then none else some (Output.commaSeparated os), Firm o := by
  cases os with
  | nil => exact fun _ ho => by cases ho
  | cons o os =>
    rintro _ ⟨⟩
    exact .commaSeparated h (List.cons_ne_nil _ _)

end

theorem Firm.ifThen {init : Option Output} {cond body rest : Output} (hinit : ∀ o ∈ init, Firm o)
    (hcond : Firm cond) (hbody : Firm body) (hrest : Lays Inked rest Inked) :
    Firm (keywordPiece .if :: headerOutput false init (some cond) none ++ body ++ rest) := by
  have hheader : Lays Anywhere (headerOutput false init (some cond) none) Anywhere := by
    refine lays_header false hinit ?_ fun _ ho => by cases ho
    rintro _ ⟨⟩
    exact hcond
  have hstart : Lays Anywhere (keywordPiece .if :: headerOutput false init (some cond) none) Anywhere :=
    Lays.then (a := [_]) (Firm.keyword .if) hheader
  exact (hstart.append hbody).append hrest

/-- A loop with the clauses of its header. -/
theorem Firm.forLoop {init cond post : Option Output} {body : Output} (hinit : ∀ o ∈ init, Firm o)
    (hcond : ∀ o ∈ cond, Firm o) (hpost : ∀ o ∈ post, Firm o) (hbody : Firm body) :
    Firm (keywordPiece .for :: headerOutput true init cond post ++ body) := by
  have hstart : Lays Anywhere (keywordPiece .for :: headerOutput true init cond post) Anywhere :=
    Lays.then (a := [_]) (Firm.keyword .for) (lays_header true hinit hcond hpost)
  exact hstart.append hbody

/-- The variables of a range clause, if there are any. -/
theorem lays_rangeVars {key value : Option Output} (define : Bool) :
    (∀ o ∈ key, Firm o) → (∀ o ∈ value, Firm o) → Lays Anywhere (match key with
      | none => []
      | some key => key ++ (value.map fun value => [Piece.word ",", .space] ++ value).getD [] ++
          [.space, .word (if define then ":=" else "="), .space]) Anywhere := by
  intro hkey hvalue
  cases key with
  | none => exact .nil
  | some key =>
    have hsign : Firm [.word (if define then ":=" else "=")] := by
      cases define with
      | true => exact Firm.mark .define rfl rfl
      | false => exact Firm.mark .assign rfl rfl
    refine Lays.append (Q := Anywhere) ((hkey key rfl).then ?_) (lays_sign hsign)
    cases value with
    | none => exact .nil
    | some value => exact (Lays.spacedComma.append (hvalue value rfl)).behind

/-- A loop over a range, with the variables before it. -/
theorem Firm.rangeLoop {vars x body : Output} (hvars : Lays Anywhere vars Anywhere) (hx : Firm x)
    (hbody : Firm body) :
    Firm ([keywordPiece .for, .space] ++ vars ++ [keywordPiece .range, .space] ++ x ++ [.space] ++
      body) := by
  have hheader : Lays Anywhere ([keywordPiece .for, .space] ++ vars ++
      [keywordPiece .range, .space]) Anywhere :=
    ((Firm.keywordSpace .for).append hvars).append (Firm.keywordSpace .range)
  exact ((hheader.append hx).then .space).append hbody

/-- A switch on a value. -/
theorem Firm.switch {init tag : Option Output} {clauses : Output} (hinit : ∀ o ∈ init, Firm o)
    (htag : ∀ o ∈ tag, Firm o) (hclauses : Firm clauses) :
    Firm (keywordPiece .switch :: headerOutput false init tag none ++ clauses) := by
  have hheader : Lays Anywhere (headerOutput false init tag none) Anywhere :=
    lays_header false hinit htag fun _ ho => by cases ho
  have hstart : Lays Anywhere (keywordPiece .switch :: headerOutput false init tag none) Anywhere :=
    Lays.then (a := [_]) (Firm.keyword .switch) hheader
  exact hstart.append hclauses

/-- The statement before the guard of a type switch. -/
theorem Firm.beforeGuard {init : Output} (h : Firm init) :
    Lays Anywhere (init ++ [.word ";", .space]) Anywhere :=
  h.then (Lays.then (a := [_]) Firm.semicolon .space)

/-- A switch on a type. -/
theorem Firm.typeSwitch {init : Option Output} {guard clauses : Output} (hguard : Firm guard)
    (hclauses : Firm clauses) :
    (∀ o ∈ init, Firm o) → Firm ([keywordPiece .switch, .space] ++ (match init with
      | some init => init ++ [.word ";", .space]
      | none => []) ++ guard ++ [.space] ++ clauses) := by
  intro hinit
  have hrest {start : Output} (hstart : Lays Anywhere start Anywhere) :
      Lays Anywhere (start ++ guard ++ [.space] ++ clauses) Inked :=
    ((hstart.append hguard).then .space).append hclauses
  cases init with
  | none => exact hrest ((Firm.keywordSpace .switch).append .nil)
  | some init => exact hrest ((Firm.keywordSpace .switch).append (hinit _ rfl).beforeGuard)

end HandlerSplit.Print
