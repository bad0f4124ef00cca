import HandlerSplit.Proofs.Tree.Traversal
/-!
# Where statements stand

A statement stands in others: those that reading has entered and not left when it enters the
statement. What a part of a tree holds is read the same wherever the part stands, so the sites of
its statements are those of the part alone, within what is around the part (`Event.Balanced`).
-/

namespace HandlerSplit

/-- A statement, and the statements it stands in, the innermost first. -/
structure Site where
  stmt : Stmt
  around : List Stmt

namespace Site

/-- The site of the same statement, where the part of the tree it is in stands in others. -/
def within (around : List Stmt) (q : Site) : Site :=
  ⟨q.stmt, q.around ++ around⟩

/-- Whether a statement has a property that no statement around it has. -/
def outermost (p : Stmt → Bool) (q : Site) : Bool :=
  p q.stmt && !q.around.any p

end Site

namespace Event

/-- The sites of the statements entered, in order; `around` are those entered before and not
left. -/
def sites : List Stmt → List Event → List Site
  | _, [] => []
  | around, .enterStmt s :: es => ⟨s, around⟩ :: sites (s :: around) es
  | around, .leaveStmt _ :: es => sites around.tail es
  | around, .enterExpr _ :: es | around, .leaveExpr _ :: es | around, .name _ :: es =>
    sites around es

/-- Reading a part of a tree leaves what it enters, and meets the same wherever the part stands. -/
def Balanced (es : List Event) : Prop :=
  ∀ around rest,
    sites around (es ++ rest) = (sites [] es).map (Site.within around) ++ sites around rest

namespace Balanced

variable {es es' : List Event}

theorem sites_eq_within (h : Balanced es) (around : List Stmt) :
    sites around es = (sites [] es).map (Site.within around) := by
  simpa [sites] using h around []

theorem sites_append (h : Balanced es) (around : List Stmt) :
    sites around (es ++ es') = sites around es ++ sites around es' := by
  rw [h, ← h.sites_eq_within]

/-- No statement stands in an expression alone. -/
theorem sites_aroundExpr (h : Balanced es) (x : Expr) (around : List Stmt) :
    sites around (aroundExpr x es) = sites around es := by
  show sites around (es ++ [.leaveExpr x]) = sites around es
  rw [h.sites_append]
  exact List.append_nil _

/-- A statement stands around what is inside it. -/
theorem sites_aroundStmt (h : Balanced es) (s : Stmt) (around : List Stmt) :
    sites around (aroundStmt s es) = ⟨s, around⟩ :: sites (s :: around) es := by
  show _ :: sites (s :: around) (es ++ [.leaveStmt s]) = _
  rw [h.sites_append]
  exact congrArg _ (List.append_nil _)

protected theorem nil : Balanced [] :=
  fun _ _ => rfl

protected theorem name (n : String) : Balanced [.name n] :=
  fun _ _ => rfl

protected theorem append (h : Balanced es) (h' : Balanced es') : Balanced (es ++ es') :=
  fun around rest => by
    rw [List.append_assoc, h, h', h.sites_append, List.map_append, List.append_assoc]

protected theorem aroundExpr (h : Balanced es) (x : Expr) : Balanced (aroundExpr x es) :=
  fun around rest => by
    show sites around (es ++ [.leaveExpr x] ++ rest) = _
    rw [h.sites_aroundExpr, List.append_assoc, h]
    rfl

protected theorem aroundStmt (h : Balanced es) (s : Stmt) : Balanced (aroundStmt s es) :=
  fun around rest => by
    have hinside : sites (s :: around) es = (sites [s] es).map (Site.within around) := by
      rw [h.sites_eq_within [s], h.sites_eq_within (s :: around), List.map_map]
      exact List.map_congr_left fun q _ => by simp [Site.within]
    show ⟨s, around⟩ :: sites (s :: around) (es ++ [.leaveStmt s] ++ rest) = _
    rw [h.sites_aroundStmt, List.append_assoc, h.sites_append, hinside]
    rfl

end Balanced

theorem balanced_traversal : Traversal fun _ A a => Balanced (A.events a) where
  still h := by rw [h.events]; exact .nil
  pair ha hb := ha.append hb
  make h ha := by rw [h.events]; exact ha
  name n := .name n
  expr {x} h := h.aroundExpr x
  stmt {k d} h := h.aroundStmt ⟨k, d⟩

end Event

theorem Expr.balanced (x : Expr) : Event.Balanced x.events :=
  (x.traversed_inside Event.balanced_traversal).aroundExpr x

theorem Stmt.balanced (s : Stmt) : Event.Balanced s.events :=
  s.traversed Event.balanced_traversal

theorem Stmt.sites_events (s : Stmt) (around : List Stmt) :
    Event.sites around s.events = ⟨s, around⟩ :: Event.sites (s :: around) s.kind.inside := by
  obtain ⟨k, d⟩ := s
  exact (k.traversed_inside Event.balanced_traversal).sites_aroundStmt ⟨k, d⟩ around

/-! ## Outermost statements -/

namespace Event

/-- The sites of the outermost statements with a property. -/
def outermost (p : Stmt → Bool) (es : List Event) : List Site :=
  (sites [] es).filter (·.outermost p)

namespace Balanced

variable {p : Stmt → Bool} {es es' : List Event}

theorem outermost_append (h : Balanced es) :
    outermost p (es ++ es') = outermost p es ++ outermost p es' := by
  rw [outermost, h.sites_append, List.filter_append]
  rfl

theorem outermost_aroundExpr (h : Balanced es) (x : Expr) :
    outermost p (aroundExpr x es) = outermost p es := by
  rw [outermost, h.sites_aroundExpr]
  rfl

/-- Inside a statement with the property none is outermost. -/
theorem outermost_aroundStmt_of_pos (h : Balanced es) {s : Stmt} (hs : p s) :
    outermost p (aroundStmt s es) = [⟨s, []⟩] := by
  have hinside : (sites [s] es).filter (·.outermost p) = [] := by
    rw [h.sites_eq_within]
    simp [Site.outermost, Site.within, hs]
  rw [outermost, h.sites_aroundStmt, List.filter_cons_of_pos (by simp [Site.outermost, hs]), hinside]

/-- Inside any other the same are outermost as without it. -/
theorem outermost_aroundStmt_of_neg (h : Balanced es) {s : Stmt} (hs : ¬p s) :
    outermost p (aroundStmt s es) = (outermost p es).map (Site.within [s]) := by
  have hwithin : (Site.outermost p ∘ Site.within [s]) = Site.outermost p :=
    funext fun q => by simp [Site.outermost, Site.within, hs]
  rw [outermost, h.sites_aroundStmt, List.filter_cons_of_neg (by simp [Site.outermost, hs]),
    h.sites_eq_within, List.filter_map, hwithin, outermost]

end Balanced

end Event

end HandlerSplit
