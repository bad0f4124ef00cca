import HandlerSplit.Proofs.Tree.Canonical
import Mathlib.Data.List.Chain
/-!
# The tokens of canonical trees

The tokens of a canonical tree can be read from their texts, and none of them is read on with the
one right behind it, even if no white space stands between them (`settled_of_canonical`,
`settled_of_canonicalType`).
-/

namespace HandlerSplit

/-! ## Lists of tokens -/

/-- Tokens that are read one by one, with or without white space between them. -/
structure Settled (ks : List TokenKind) : Prop where
  plain : ∀ k ∈ ks, k.Plain
  parted : ks.IsChain TokenKind.Parted

/-- Settled tokens that do not start with a point, and so can stand behind a number. -/
structure SettledAnywhere (ks : List TokenKind) : Prop extends Settled ks where
  head : ∀ k ∈ ks.head?, ¬k.StartsPoint

namespace Settled

variable {ks ks' : List TokenKind}

theorem nil : Settled [] :=
  ⟨nofun, .nil⟩

theorem single {k : TokenKind} (hk : k.Plain) : Settled [k] :=
  ⟨fun _ h => List.mem_singleton.mp h ▸ hk, .singleton k⟩

/-- The second tokens do not start with a point. -/
theorem append (h : Settled ks) (h' : SettledAnywhere ks') : Settled (ks ++ ks') where
  plain := List.forall_mem_append.mpr ⟨h.plain, h'.plain⟩
  parted := List.isChain_append.mpr ⟨h.parted, h'.parted, fun k hk k' hk' =>
    (h.plain k (List.mem_of_getLast? hk)).parted (h'.head k' hk')⟩

/-- The first tokens do not end with a number. -/
theorem appendAny (h : Settled ks) (hlast : ∀ k ∈ ks.getLast?, ∀ c, k.fuses c = false)
    (h' : Settled ks') : Settled (ks ++ ks') where
  plain := List.forall_mem_append.mpr ⟨h.plain, h'.plain⟩
  parted := List.isChain_append.mpr ⟨h.parted, h'.parted, fun k hk _ _ c _ => hlast k hk c⟩

end Settled

namespace SettledAnywhere

variable {ks ks' : List TokenKind} {name text : String}

theorem nil : SettledAnywhere [] :=
  ⟨.nil, nofun⟩

theorem single {k : TokenKind} (hk : k.Plain) (hhead : ¬k.StartsPoint) : SettledAnywhere [k] :=
  ⟨.single hk, fun _ h => Option.some.inj h ▸ hhead⟩

/-- A name can stand behind a number. -/
theorem ident (h : isName name = true) : SettledAnywhere [.ident name] :=
  single (plain_ident h) (not_startsPoint_ident h)

theorem int (h : isDecimal text = true) : SettledAnywhere [.literal .int text] :=
  single (plain_int h) (not_startsPoint_int h)

theorem string (h : isInterpreted text = true) : SettledAnywhere [.literal .string text] :=
  single (plain_string h) (not_startsPoint_string h)

theorem keyword (w : Keyword) : SettledAnywhere [.keyword w] :=
  single (plain_keyword w) (by cases w <;> decide)

theorem op (o : BinaryOp) : SettledAnywhere [.op o] :=
  single (plain_op o) (by cases o <;> decide)

/-- All marks but the point and the dots can stand behind a number. -/
theorem mark (m : Punct) (hm : m ∉ [Punct.period, .ellipsis]) : SettledAnywhere [.punct m] :=
  single (plain_punct m) (by revert hm; cases m <;> decide)

theorem unary (o : UnaryOp) : SettledAnywhere [o.kind] := by
  cases o with
  | not | recv | tilde => exact mark _ (by decide)
  | _ => exact op _

theorem append (h : SettledAnywhere ks) (h' : SettledAnywhere ks') :
    SettledAnywhere (ks ++ ks') where
  toSettled := h.toSettled.append h'
  head := by
    cases ks with
    | nil => exact h'.head
    | cons k ks => exact h.head

/-- Tokens in brackets, which may start with a point. -/
theorem bracketed (h : SettledAnywhere ks) (h' : Settled ks') (opening closing : Punct)
    (ho : opening ∉ [Punct.period, .ellipsis]) (hc : closing ∉ [Punct.period, .ellipsis]) :
    SettledAnywhere (ks ++ [.punct opening] ++ ks' ++ [.punct closing]) where
  toSettled := by
    refine (((h.append (mark opening ho)).toSettled.appendAny ?_ h').append (mark closing hc))
    rw [List.getLast?_concat]
    rintro _ ⟨⟩ c
    rfl
  head := by
    have hopening := (h.append (mark opening ho)).head
    cases ks with
    | nil => exact hopening
    | cons k ks => exact hopening

/-- A name behind a point. -/
theorem selected (h : SettledAnywhere ks) (hlast : ∃ k ∈ ks.getLast?, ∀ c, k.fuses c = false)
    (hname : isName name = true) : SettledAnywhere (ks ++ [.punct .period, .ident name]) where
  toSettled := by
    obtain ⟨k, hk, hfuses⟩ := hlast
    refine h.toSettled.appendAny (fun k' hk' => ?_)
      (Settled.append (.single (plain_punct .period)) (.ident hname))
    obtain rfl := Option.mem_unique hk hk'
    exact hfuses
  head := by
    obtain ⟨k, hk, -⟩ := hlast
    cases ks with
    | nil => cases hk
    | cons k ks => exact h.head

end SettledAnywhere

/-- Settled tokens with commas between them. -/
theorem Settled.separated {kss : List (List TokenKind)} (h : ∀ ks ∈ kss, Settled ks) :
    Settled (separated kss) := by
  induction kss with
  | nil => exact .nil
  | cons ks kss ih =>
    obtain ⟨hks, hkss⟩ := List.forall_mem_cons.mp h
    cases kss with
    | nil =>
      rw [separated_singleton]
      exact hks
    | cons ks' kss =>
      have hcomma : SettledAnywhere [.punct .comma] := .mark .comma (by decide)
      rw [separated_cons_cons, List.append_cons]
      refine (hks.append hcomma).appendAny ?_ (ih hkss)
      rw [List.getLast?_concat]
      rintro _ ⟨⟩ c
      rfl

/-! ## Expressions -/

variable {x t : Expr}

/-- An operand that is no integer literal does not end with a number. -/
theorem getLast?_spelling (h : x.Canonical) (hoperand : x.isOperand = true)
    (hint : x.isInt = false) : ∃ k ∈ x.spelling.getLast?, ∀ c, k.fuses c = false := by
  cases h with
  | ident | string => exact ⟨_, rfl, fun _ => rfl⟩
  | int => cases hint
  | selector =>
    rw [Expr.spelling, List.append_cons]
    exact ⟨_, List.getLast?_concat, fun _ => rfl⟩
  | paren | index | slice | call | composite =>
    exact ⟨_, List.getLast?_concat, fun _ => rfl⟩
  | unary | star | binary => cases hoperand

/-- The name of a type is settled anywhere. -/
theorem settled_of_isTypeName (h : t.isTypeName = true) : SettledAnywhere t.spelling := by
  cases t with
  | ident n => exact .ident h
  | selector x n =>
    cases x with
    | ident p =>
      have hnames : isName p = true ∧ isName n = true := Bool.and_eq_true_iff.mp h
      exact (SettledAnywhere.ident hnames.1).selected ⟨_, rfl, fun _ => rfl⟩ hnames.2
    | _ => cases h
  | _ => cases h

/-- An element is settled if its key and its value are. -/
theorem settled_of_parts (h : ∀ y ∈ x.parts, SettledAnywhere y.spelling) :
    SettledAnywhere x.spelling := by
  cases x with
  | keyValue k v =>
    have hcolon : SettledAnywhere [.punct .colon] := .mark .colon (by decide)
    exact ((h k (by simp [Expr.parts])).append hcolon).append (h v (by simp [Expr.parts]))
  | _ => exact h _ (by simp [Expr.parts])

/-- Elements with commas between them are settled. -/
theorem settled_of_elements {es : List Element} (h : ∀ e ∈ es, SettledAnywhere e.expr.spelling) :
    Settled (separated (elementSpellings es)) := by
  refine .separated ?_
  rw [elementSpellings_eq, List.forall_mem_map]
  exact fun e he => (h e he).toSettled

theorem settled_of_opt {y : Option Expr} (h : ∀ z ∈ y, SettledAnywhere z.spelling) :
    SettledAnywhere (optSpelling y) := by
  cases y with
  | none => exact .nil
  | some y => exact h y rfl

theorem settled_of_max {y : Option Expr} (h : ∀ z ∈ y, SettledAnywhere z.spelling) :
    SettledAnywhere (maxSpelling y) := by
  cases y with
  | none => exact .nil
  | some y => exact SettledAnywhere.append (.mark .colon (by decide)) (h y rfl)

/-- The tokens of a canonical expression are read one by one. -/
theorem settled_of_canonical (h : x.Canonical) : SettledAnywhere x.spelling := by
  induction h with
  | ident hname => exact .ident hname
  | int htext => exact .int htext
  | string htext => exact .string htext
  | paren _ _ ih => exact .bracketed .nil ih.toSettled .lparen .rparen (by decide) (by decide)
  | selector hx hoperand hint hname ih =>
    exact ih.selected (getLast?_spelling hx hoperand hint) hname
  | index _ _ _ ihx ihkey =>
    exact ihx.bracketed ihkey.toSettled .lbracket .rbracket (by decide) (by decide)
  | @slice x low high max _ _ _ _ _ _ ihx ihlow ihhigh ihmax =>
    have hcolon : SettledAnywhere [.punct .colon] := .mark .colon (by decide)
    have hbounds : SettledAnywhere
        (optSpelling low ++ ([.punct .colon] ++ (optSpelling high ++ maxSpelling max))) :=
      (settled_of_opt ihlow).append
        (hcolon.append ((settled_of_opt ihhigh).append (settled_of_max ihmax)))
    have hslice := ihx.bracketed hbounds.toSettled .lbracket .rbracket (by decide) (by decide)
    simp only [← List.append_assoc] at hslice
    exact hslice
  | call _ _ _ _ ihfn ihargs =>
    exact ihfn.bracketed (settled_of_elements ihargs) .lparen .rparen (by decide) (by decide)
  | composite htype _ _ ih =>
    exact (settled_of_isTypeName htype).bracketed
      (settled_of_elements fun e he => settled_of_parts (ih e he)) .lbrace .rbrace (by decide)
      (by decide)
  | unary _ _ ih => exact SettledAnywhere.append (.unary _) ih
  | star _ _ ih => exact SettledAnywhere.append (.op .mul) ih
  | binary _ _ _ _ ihx ihy => exact (ihx.append (.op _)).append ihy

/-! ## Types -/

/-- The length of an array is settled between its brackets. -/
theorem settled_of_isLength {len : Option Expr} (h : isLength len = true) :
    Settled (optSpelling len) := by
  cases len with
  | none => exact .nil
  | some x =>
    cases x with
    | ellipsis y =>
      cases y with
      | none => exact .single (plain_punct .ellipsis)
      | some y => cases h
    | literal kind text =>
      cases kind with
      | int => exact (SettledAnywhere.int h).toSettled
      | _ => cases h
    | _ => cases h

theorem settled_of_dir (dir : ChanDir) : SettledAnywhere dir.words := by
  have hchan : SettledAnywhere [.keyword .chan] := .keyword .chan
  have harrow : SettledAnywhere [.punct .arrow] := .mark .arrow (by decide)
  cases dir with
  | both => exact hchan
  | send => exact hchan.append harrow
  | recv => exact harrow.append hchan

/-- A field with its names. The dots of a variadic parameter do not stand behind a number. -/
theorem settled_of_field {f : Field} (hnames : ∀ name ∈ f.names, isName name = true)
    (htype : SettledAnywhere f.type.variadicElem.spelling) :
    Settled (separated (f.names.map fun n => [.ident n]) ++ f.type.spelling) := by
  have hlist : Settled (separated (f.names.map fun n => [.ident n])) := by
    refine .separated ?_
    rw [List.forall_mem_map]
    exact fun name hname => (SettledAnywhere.ident (hnames name hname)).toSettled
  have hsettled : Settled f.type.spelling := by
    cases htyped : f.type with
    | ellipsis y =>
      rw [htyped] at htype
      cases y with
      | none => exact htype.toSettled
      | some y => exact Settled.append (.single (plain_punct .ellipsis)) htype
    | _ =>
      rw [htyped] at htype
      exact htype.toSettled
  refine hlist.appendAny (fun k hk c => ?_) hsettled
  rcases mem_separated (List.mem_of_getLast? hk) with rfl | ⟨ks, hks, hk⟩
  · rfl
  · obtain ⟨name, -, rfl⟩ := List.mem_map.mp hks
    obtain rfl := List.mem_singleton.mp hk
    rfl

/-- Parameters with commas between them are settled. -/
theorem settled_of_fields {fs : FieldList} (h : fs.Uniform)
    (htypes : ∀ f ∈ fs.fields, SettledAnywhere f.type.variadicElem.spelling) :
    Settled (separated (fieldSpellings fs.fields)) := by
  refine .separated ?_
  rw [fieldSpellings_eq, List.forall_mem_map]
  exact fun f hf => settled_of_field (h.names f hf) (htypes f hf)

theorem settled_of_results {rs : Option FieldList} (h : ∀ fs ∈ rs, fs.Uniform)
    (htypes : ∀ fs ∈ rs, ∀ f ∈ fs.fields,
      f.type.CanonicalType ∧ SettledAnywhere f.type.spelling) :
    SettledAnywhere (resultsSpelling rs) := by
  cases rs with
  | none => exact .nil
  | some fs =>
    specialize h fs rfl
    specialize htypes fs rfl
    obtain ⟨fs, e⟩ := fs
    rw [resultsSpelling]
    split
    · rename_i hlone
      obtain ⟨f, rfl, -, hspelling⟩ := exists_of_isLoneType hlone
      rw [hspelling]
      exact (htypes f (List.mem_singleton_self f)).2
    · have hfs := settled_of_fields h fun f hf => by
        obtain ⟨htype, hsettled⟩ := htypes f hf
        rwa [variadicElem_of_canonicalType htype]
      exact .bracketed .nil hfs .lparen .rparen (by decide) (by decide)

/-- A signature is settled anywhere if its types are. -/
theorem settled_of_signature {sig : Signature} (h : sig.Shaped)
    (htypes : ∀ t ∈ sig.types, t.CanonicalType ∧ SettledAnywhere t.spelling) :
    SettledAnywhere sig.spelling := by
  have hps := settled_of_fields h.params fun f hf => (htypes _ (sig.mem_types_of_params hf)).2
  have hrs := settled_of_results h.results fun fs hfs f hf =>
    htypes _ (sig.mem_types_of_results hfs hf)
  obtain ⟨⟨ps, e⟩, rs⟩ := sig
  exact (SettledAnywhere.bracketed .nil hps .lparen .rparen (by decide) (by decide)).append hrs

/-- The tokens of a canonical type are read one by one. -/
theorem settled_of_canonicalType (h : t.CanonicalType) : SettledAnywhere t.spelling := by
  induction h with
  | ident hname => exact .ident hname
  | qualified hpkg hname => exact (SettledAnywhere.ident hpkg).selected ⟨_, rfl, fun _ => rfl⟩ hname
  | star _ ih => exact SettledAnywhere.append (.op .mul) ih
  | paren _ _ ih => exact .bracketed .nil ih.toSettled .lparen .rparen (by decide) (by decide)
  | array hlen _ ih =>
    have hbrackets := SettledAnywhere.bracketed .nil (settled_of_isLength hlen) .lbracket .rbracket
      (by decide) (by decide)
    exact hbrackets.append ih
  | map _ _ ihk ihv =>
    have hkey := (SettledAnywhere.keyword .map).bracketed ihk.toSettled .lbracket .rbracket
      (by decide) (by decide)
    exact hkey.append ihv
  | @chan dir x _ _ ih => exact (settled_of_dir dir).append ih
  | func hsig htypes ih =>
    exact (SettledAnywhere.keyword .func).append
      (settled_of_signature hsig fun t ht => ⟨htypes t ht, ih t ht⟩)
  | struct => exact .bracketed (.keyword .struct) .nil .lbrace .rbrace (by decide) (by decide)
  | interface =>
    exact .bracketed (.keyword .interface) .nil .lbrace .rbrace (by decide) (by decide)

end HandlerSplit
