import HandlerSplit.Parse.Types
import HandlerSplit.Proofs.Parse.Reading
/-!
# Comments and names of parameter lists

The entries of a parameter list hold every comment that stands between them. Where names that
share a type are grouped into one field, the field keeps the comments before its first name and
after its type; the comments between its names are lost, and nothing else is.
-/

namespace HandlerSplit.Parse

/-! ## Entries -/

/-- The entry is what stands at the front of `s`, and `s'` is left. -/
def ParamItem.Taken (s : List Mark) (item : ParamItem) (s' : List Mark) : Prop :=
  ∃ r r', s = commentMarks item.decs.leading ++ (nameMarks item.name.toList ++ r) ∧
    r' = commentMarks item.decs.trailing.toList ++ s' ∧
    match item.type with
    | none => item.name.isSome ∧ r = r'
    | some type => Takes r type.marks r'

/-- The entries are what stands at the front of `s`, one after another. -/
inductive TakenAll : List Mark → List ParamItem → List Mark → Prop where
  | nil (s : List Mark) : TakenAll s [] s
  | cons {s s' s'' : List Mark} {item : ParamItem} {items : List ParamItem}
    (hitem : item.Taken s s') (hitems : TakenAll s' items s'') : TakenAll s (item :: items) s''

/-- What a turn of the list of entries has taken. -/
def TurnTaken (s : List Mark) : Turn ParamItem → List Mark → Prop
  | .stop, s' => s = s'
  | .skip, _ => False
  | .more item, s' => item.Taken s s'
  | .last item, s' => item.Taken s s'

/-! ## Grouping -/

/-- The marks of a type that stands for itself. -/
theorem around_taken {s r r' s' : List Mark} {d : Decorations} {ms : List Mark}
    (hs : s = commentMarks d.leading ++ r) (hr : Takes r ms r')
    (hr' : r' = commentMarks d.trailing.toList ++ s') : Takes s (d.around ms) s' := by
  rw [hs]
  refine .trans (.trans (.comments _ _) hr) ?_
  rw [hr']
  exact .comments _ _

/-- Parameters without names hold all marks that were taken for them. -/
theorem anonymousFields_taken {s s' : List Mark} {items : List ParamItem}
    (h : TakenAll s items s') (hnames : ∀ item ∈ items, item.type.isSome → item.name = none) :
    Takes s (fieldMarks true (anonymousFields items)) s' := by
  induction h with
  | nil s => exact .refl s
  | @cons s s' s'' item items hitem hitems ih =>
    have hrest := ih fun item hmem => hnames item (List.mem_cons_of_mem _ hmem)
    have hname := hnames item List.mem_cons_self
    obtain ⟨r, r', hs, hr', hitem⟩ := hitem
    obtain ⟨name, type, d⟩ := item
    cases type with
    | none =>
      obtain ⟨hsome, rfl⟩ := hitem
      obtain ⟨name, rfl⟩ := Option.isSome_iff_exists.mp hsome
      have hfield : Takes s (d.around [.name name false]) s' :=
        around_taken hs (.name [] name false r) hr'
      exact hfield.trans hrest
    | some type =>
      obtain rfl : name = none := hname rfl
      have hfield : Takes s (d.around type.marks) s' := around_taken hs hitem hr'
      exact hfield.trans hrest

/-- The names of a field with one more name. The layout of the field is that of its first entry,
up to what trails it, so the layout `d` of the last is forgotten unless it is the first. -/
theorem fieldNameMarks_append {names : List String} {decs : Option Decorations}
    (hdecs : names = [] ↔ decs = none) (d : Decorations) (n : String) :
    commentMarks (decs.getD d).leading ++ fieldNameMarks true (names ++ [n]) =
      commentMarks (decs.elim [] (·.leading)) ++
        (fieldNameMarks true names ++ keptName d.leading n (!names.isEmpty)) := by
  cases names with
  | nil =>
    obtain rfl := hdecs.mp rfl
    rfl
  | cons m names =>
    obtain ⟨d', rfl⟩ := Option.ne_none_iff_exists'.mp (mt hdecs.mpr (List.cons_ne_nil _ _))
    rw [List.cons_append, fieldNameMarks, fieldNameMarks, List.map_append]
    rfl

/-- Fields of entries with names, of which `names` have been read before under the layout
`decs`. -/
theorem namedFields_taken {s s' : List Mark} {items : List ParamItem}
    (h : TakenAll s items s') {names : List String} {decs : Option Decorations}
    (hdecs : names = [] ↔ decs = none) {fields : List Field}
    (hok : namedFields names decs items = .ok fields) :
    ∃ ms, fieldMarks true fields =
        commentMarks (decs.elim [] (·.leading)) ++ (fieldNameMarks true names ++ ms) ∧
      TakesJoined s ms s' ∧ (joinsOf ms).headD false = !names.isEmpty := by
  induction h generalizing names decs fields with
  | nil s =>
    rw [namedFields] at hok
    split at hok
    · rename_i hnames
      obtain rfl := List.isEmpty_iff.mp hnames
      obtain rfl := hdecs.mp rfl
      cases hok
      exact ⟨[], rfl, (Takes.refl s).toTakesJoined, rfl⟩
    · cases hok
  | @cons s s₁ s' item items hitem hitems ih =>
    obtain ⟨name, type, d⟩ := item
    obtain ⟨r, r', hs, hr', hitem⟩ := hitem
    cases name with
    | none => cases hok
    | some n =>
      have hmarks : ∀ ms, commentMarks (decs.getD d).leading ++
          (fieldNameMarks true (names ++ [n]) ++ ms) =
            commentMarks (decs.elim [] (·.leading)) ++ (fieldNameMarks true names ++
              (keptName d.leading n (!names.isEmpty) ++ ms)) := by
        intro ms
        simp only [← List.append_assoc, fieldNameMarks_append hdecs d n]
      have hjoins : ∀ ms, (joinsOf (keptName d.leading n (!names.isEmpty) ++ ms)).headD false =
          !names.isEmpty := by
        intro ms
        rw [joinsOf_append, joinsOf_keptName]
        rfl
      cases type with
      | none =>
        obtain ⟨-, rfl⟩ := hitem
        obtain ⟨ms, hfields, htakes, hjoined⟩ := ih (by simp) hok
        refine ⟨_, hfields.trans (hmarks ms), ?_, hjoins ms⟩
        rw [hs, hr']
        refine (htakes.lost ?_ _).name _ _ _
        rw [hjoined]
        cases names <;> rfl
      | some type =>
        rw [namedFields] at hok
        rcases hrest : namedFields [] none items with fault | rest <;> rw [hrest] at hok
        · cases hok
        · obtain rfl := Except.ok.inj hok
          obtain ⟨ms, hfields, htakes, hjoined⟩ := ih (by simp) hrest
          have htype : Takes r (type.marks ++ commentMarks d.trailing.toList ++ ms) s' := by
            refine .trans (.trans hitem ?_) ⟨htakes, hjoined⟩
            rw [hr']
            exact .comments _ _
          refine ⟨_, ?_, ?_, hjoins (type.marks ++ commentMarks d.trailing.toList ++ ms)⟩
          · rw [← hmarks, fieldMarks, hfields]
            simp only [Decorations.around, List.append_assoc]
            rfl
          · rw [hs]
            exact htype.toTakesJoined.name _ _ _

/-- The marks of the fields are what the entries are made of, less the comments between names
that are grouped. -/
theorem groupParams_taken {s s' : List Mark} {items : List ParamItem}
    (h : TakenAll s items s') {fields : List Field} (hok : groupParams items = .ok fields) :
    Takes s (fieldMarks true fields) s' := by
  rw [groupParams] at hok
  split at hok
  · obtain ⟨ms, hfields, htakes, hjoined⟩ := namedFields_taken h (iff_of_true rfl rfl) hok
    rw [hfields]
    exact ⟨htakes, hjoined⟩
  · rename_i hnamed
    obtain rfl := Except.ok.inj hok
    refine anonymousFields_taken h fun item hmem htype => ?_
    cases hname : item.name with
    | none => rfl
    | some n =>
      refine absurd (List.any_eq_true.mpr ⟨item, hmem, ?_⟩) hnamed
      rw [hname, htype]
      rfl

/-! ## Reading parameters -/

/-- The marks of the parts of an `if` statement. -/
def ifMarks (r : Option Stmt × Expr × Block × Else) : List Mark :=
  r.1.toList.flatMap Stmt.marks ++ r.2.1.marks ++ r.2.2.1.marks ++ r.2.2.2.marks

/-- A level of the grammar whose phrases answer what holds the marks they take. -/
structure Grammar.Keeps (g : Grammar) : Prop where
  binary {K : TokenKind → Prop} (strength : Nat) : Reads K [] Expr.marks (g.binary strength)
  unary {K : TokenKind → Prop} : Reads K [] Expr.marks g.unary
  elementValue {K : TokenKind → Prop} : Reads K [] Expr.marks g.elementValue
  type {K : TokenKind → Prop} : Reads K [] Expr.marks g.type
  block {K : TokenKind → Prop} : Reads K [] Block.marks g.block
  stmt {K : TokenKind → Prop} : Reads K [] StmtKind.marks g.stmt
  ifThen {K : TokenKind → Prop} : Reads K [] ifMarks g.ifThen

namespace Grammar.Keeps

variable {g : Grammar} (hg : g.Keeps) {K : TokenKind → Prop}

include hg

/-- A type, with the dots of a variadic parameter or without. -/
theorem paramType : Reads K [] Expr.marks g.paramType := by
  refine .atPunct ?_ hg.type
  refine .next rfl (.bind hg.type fun x => .pure ?_)
  simp only [Expr.marks, optExprMarks]
  rfl

/-- An entry, after the comments that lead it. -/
theorem paramItem {decs : Decorations} {c c' : Cursor} {item : ParamItem}
    (hc : Proper c.tokens) (hpending : c.pending = [])
    (hrun : (g.paramItem decs).run c = (.ok item, c')) :
    Proper c'.tokens ∧ item.decs = decs ∧ ∃ r, c.marks = nameMarks item.name.toList ++ r ∧
      match item.type with
      | none => item.name.isSome ∧ r = c'.marks
      | some type => Takes r type.marks c'.marks := by
  have hwaiting : c.waiting = [] := congrArg (List.map _) hpending
  rw [Grammar.paramItem, peekKind_bind_run] at hrun
  split at hrun
  · rename_i name hkind
    obtain ⟨_, c₁, hadvance, hrun⟩ := bind_ok hrun
    obtain rfl : c.advance = c₁ := congrArg Prod.snd hadvance
    obtain ⟨hc₁, hmarks₁⟩ := c.marks_advance hc (by rw [hkind]; exact TokenKind.noConfusion)
    have hmarks : c.marks = .name name false :: c.advance.marks := by
      rw [hmarks₁, Cursor.marks, hwaiting, Cursor.tokens, marksOf_cons_ident _ hkind]
      rfl
    rw [peekKind_bind_run] at hrun
    split at hrun
    · rename_i hperiod
      obtain ⟨_, c₂, hadvance, hrun⟩ := bind_ok hrun
      obtain rfl : c.advance.advance = c₂ := congrArg Prod.snd hadvance
      obtain ⟨member, c₃, hmember, hrun⟩ := bind_ok hrun
      obtain ⟨rfl, rfl⟩ := pure_ok hrun
      obtain ⟨hc₂, hmarks₂⟩ := c.advance.marks_advance_of_none hc₁ (by rw [hperiod]; rfl)
      obtain ⟨hc₃, ms, rfl, htakes⟩ := Reads.expectIdent (K := Anything) _ hc₂ trivial _ _ hmember
      rw [hmarks₂] at htakes
      refine ⟨hc₃, rfl, c.marks, rfl, ?_⟩
      show Takes c.marks ([.name name false] ++ [.name member false]) c'.marks
      rw [hmarks]
      exact .trans (.name [] name false _) htakes
    · obtain ⟨rfl, rfl⟩ := pure_ok hrun
      exact ⟨hc₁, rfl, _, hmarks, rfl, rfl⟩
    · obtain ⟨rfl, rfl⟩ := pure_ok hrun
      exact ⟨hc₁, rfl, _, hmarks, rfl, rfl⟩
    · obtain ⟨type, c₂, htype, hrun⟩ := bind_ok hrun
      obtain ⟨rfl, rfl⟩ := pure_ok hrun
      obtain ⟨hc₂, ms, hms, htakes⟩ := hg.paramType (K := Anything) _ hc₁ trivial _ _ htype
      obtain rfl : type.marks = ms := hms
      exact ⟨hc₂, rfl, _, hmarks, htakes⟩
  · obtain ⟨type, c₂, htype, hrun⟩ := bind_ok hrun
    obtain ⟨rfl, rfl⟩ := pure_ok hrun
    obtain ⟨hc₂, ms, hms, htakes⟩ := hg.paramType (K := Anything) _ hc trivial _ _ htype
    obtain rfl : type.marks = ms := hms
    exact ⟨hc₂, rfl, _, rfl, htakes⟩

/-- The marks of a parameter are those its turn has taken. -/
theorem paramTurn {opening : Span} {c c' : Cursor} {turn : Turn ParamItem}
    (hc : Proper c.tokens) (hrun : (g.paramTurn opening).run c = (.ok turn, c')) :
    Proper c'.tokens ∧ TurnTaken c.marks turn c'.marks := by
  rw [Grammar.paramTurn, peekKind_bind_run] at hrun
  split at hrun
  · obtain ⟨rfl, rfl⟩ := pure_ok hrun
    exact ⟨hc, rfl⟩
  · cases hrun
  · obtain ⟨decs, c₁, hstart, hrun⟩ := bind_ok hrun
    obtain ⟨hdecs, rfl⟩ := Prod.mk.inj hstart
    obtain rfl := Except.ok.inj hdecs
    have hc₁ : Proper { c with pending := [] }.tokens := hc
    obtain ⟨item, c₂, hitem, hrun⟩ := bind_ok hrun
    obtain ⟨hc₂, hitemDecs, r, hr, htype⟩ := hg.paramItem hc₁ rfl hitem
    have hleading :
        c.marks = commentMarks item.decs.leading ++ (nameMarks item.name.toList ++ r) := by
      rw [← hr, hitemDecs]
      rfl
    have htrailing : c₂.marks = commentMarks item.decs.trailing.toList ++ c₂.marks := by
      rw [hitemDecs]
      rfl
    obtain ⟨b, c₃, hcomma, hrun⟩ := bind_ok hrun
    obtain ⟨hb, rfl⟩ := Prod.mk.inj hcomma
    cases b with
    | true =>
      have hkind : c₂.current.kind = .punct .comma := beq_iff_eq.mp (Except.ok.inj hb)
      obtain ⟨_, c₄, hadvance, hrun⟩ := bind_ok hrun
      obtain ⟨t, c₅, hclaim, hrun⟩ := bind_ok hrun
      obtain ⟨rfl, rfl⟩ := pure_ok hrun
      obtain rfl : c₂.advance = c₄ := congrArg Prod.snd hadvance
      obtain ⟨hc₄, hmarks₄⟩ := c₂.marks_advance_of_none hc₂ (by rw [hkind]; rfl)
      obtain ⟨htokens, hmarks⟩ := marks_claimTrailing hclaim
      exact ⟨htokens ▸ hc₄, r, c₂.marks, hleading, hmarks₄ ▸ hmarks, htype⟩
    | false =>
      obtain ⟨rfl, rfl⟩ := pure_ok hrun
      exact ⟨hc₂, r, _, hleading, htrailing, htype⟩

/-- The marks of all parameters, turn by turn. -/
theorem paramItems {opening : Span} (n : Nat) {c c' : Cursor} {items : List ParamItem}
    (hc : Proper c.tokens)
    (hrun : (Parse.entries (g.paramTurn opening) n).run c = (.ok items, c')) :
    Proper c'.tokens ∧ TakenAll c.marks items c'.marks := by
  induction n generalizing c items with
  | zero => cases hrun
  | succ n ih =>
    obtain ⟨turn, c₁, hturn, hrun⟩ := bind_ok hrun
    obtain ⟨hc₁, htaken⟩ := hg.paramTurn hc hturn
    cases turn with
    | stop =>
      obtain ⟨rfl, rfl⟩ := pure_ok hrun
      obtain htaken : c.marks = c'.marks := htaken
      exact ⟨hc₁, htaken ▸ .nil _⟩
    | skip => exact htaken.elim
    | more item =>
      obtain ⟨items, c₂, hitems, hrun⟩ := bind_ok hrun
      obtain ⟨rfl, rfl⟩ := pure_ok hrun
      exact (ih hc₁ hitems).imp_right (.cons htaken)
    | last item =>
      obtain ⟨rfl, rfl⟩ := pure_ok hrun
      exact ⟨hc₁, .cons htaken (.nil _)⟩

/-- A parameter list reads its entries up to what is lost between grouped names. -/
theorem params : Reads K [] (FieldList.marks true) g.params := by
  refine .peek fun t => .skip (.expectPunct _) (.claimTrailing fun comment => ?_)
  intro c hc _ fs c'' hrun
  obtain ⟨items, c', hitems, hrun⟩ := bind_ok hrun
  obtain ⟨hc', htaken⟩ := hg.paramItems _ hc hitems
  cases hgroup : groupParams items with
  | error fault =>
    obtain ⟨_, c₁, -, hrun⟩ := bind_ok hrun
    obtain ⟨_, c₂, -, hrun⟩ := bind_ok hrun
    rw [hgroup] at hrun
    cases hrun
  | ok fields =>
    have htakes := groupParams_taken htaken hgroup
    have close : Reads Anything (commentMarks comment.toList ++ fieldMarks true fields)
        (FieldList.marks true) (do
          let enclosure ← Parse.closeEnclosure comment
          Parse.expectPunct .rparen
          return ⟨fields, enclosure⟩) := by
      refine .closeEnclosure _ fun b hb => .skip (.expectPunct _) (.pure ?_)
      rw [← hb, FieldList.marks, Enclosure.around]
    simp only [hgroup] at hrun
    obtain ⟨hc'', ms, hms, htakes'⟩ := close c' hc' trivial fs c'' hrun
    exact ⟨hc'', _, hms.trans (List.append_assoc _ _ _), htakes.trans htakes'⟩

end Grammar.Keeps

end HandlerSplit.Parse
