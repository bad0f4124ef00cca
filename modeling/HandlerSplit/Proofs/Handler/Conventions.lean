import HandlerSplit.Handler.Conventions
/-!
# Types of the conventions

Parameter lists and results are made of the types that the conventions write. They can fail in one
way: a type is none, and then every parameter list fails, for the same reason. Valid conventions
have types only.
-/

namespace HandlerSplit

variable {c : Conventions}

/-- The failure to read a type of the conventions. -/
def InvalidType (c : Conventions) (kind : ErrorKind) : Prop :=
  ∃ text ∈ c.types, Conventions.typeExpr text = .error kind

theorem typeExpr_error {text : String} {kind : ErrorKind}
    (h : Conventions.typeExpr text = .error kind) :
    ∃ fault, kind = .config (.invalidType text fault) := by
  unfold Conventions.typeExpr at h
  split at h <;> cases h
  exact ⟨_, rfl⟩

/-- Parameter lists fail together and for one reason, as they differ in names only. -/
theorem handlerParams_cases (c : Conventions) :
    (∃ kind, InvalidType c kind ∧ ∀ map, c.handlerParams map = .error kind) ∨
      ∀ map, ∃ params, c.handlerParams map = .ok params := by
  rcases hcontext : Conventions.typeExpr c.contextType with kind | context
  · exact .inl ⟨kind, ⟨_, by simp [Conventions.types], hcontext⟩, fun map => by
      rw [Conventions.handlerParams, hcontext]
      rfl⟩
  rcases hdata : Conventions.typeExpr c.resourceDataType with kind | data
  · exact .inl ⟨kind, ⟨_, by simp [Conventions.types], hdata⟩, fun map => by
      rw [Conventions.handlerParams, hcontext, hdata]
      rfl⟩
  rcases hmap : Conventions.typeExpr c.resourceMapType with kind | resource
  · exact .inl ⟨kind, ⟨_, by simp [Conventions.types], hmap⟩, fun map => by
      rw [Conventions.handlerParams, hcontext, hdata, hmap]
      rfl⟩
  rcases hversion : Conventions.typeExpr c.versionType with kind | version
  · exact .inl ⟨kind, ⟨_, by simp [Conventions.types], hversion⟩, fun map => by
      rw [Conventions.handlerParams, hcontext, hdata, hmap, hversion]
      rfl⟩
  rcases hclient : Conventions.typeExpr c.clientType with kind | client
  · exact .inl ⟨kind, ⟨_, by simp [Conventions.types], hclient⟩, fun map => by
      rw [Conventions.handlerParams, hcontext, hdata, hmap, hversion, hclient]
      rfl⟩
  refine .inr fun map => ?_
  rw [Conventions.handlerParams, hcontext, hdata, hmap, hversion, hclient]
  exact ⟨_, rfl⟩

/-- Parameters are not made if one of their types is invalid. -/
theorem handlerParams_error {map : MapParam} {kind : ErrorKind}
    (h : c.handlerParams map = .error kind) : InvalidType c kind := by
  rcases handlerParams_cases c with ⟨kind', hinvalid, hall⟩ | hall
  · rw [hall] at h
    cases h
    exact hinvalid
  · obtain ⟨params, hparams⟩ := hall map
    rw [hparams] at h
    cases h

/-- The parameters of one method are well-formed if those of another are. -/
theorem handlerParams_ok {map map' : MapParam} {params : FieldList}
    (h : c.handlerParams map = .ok params) : ∃ params', c.handlerParams map' = .ok params' := by
  rcases handlerParams_cases c with ⟨kind, -, hall⟩ | hall
  · rw [hall] at h
    cases h
  · exact hall map'

theorem result_error {text : String} {kind : ErrorKind}
    (h : Conventions.result text = .error kind) : Conventions.typeExpr text = .error kind := by
  rw [Conventions.result] at h
  cases htext : Conventions.typeExpr text with
  | ok => rw [htext] at h; cases h
  | error => rw [htext] at h; cases h; rfl

/-- The types of a valid configuration are types. -/
theorem not_invalidType_of_validate (h : c.validate = .ok ()) (kind : ErrorKind) :
    ¬InvalidType c kind := by
  rintro ⟨text, hmem, htext⟩
  have hall : ∀ texts : List String, text ∈ texts → ∃ k,
      (forIn texts PUnit.unit fun text _ => do
        let _ ← Conventions.typeExpr text
        pure (ForInStep.yield PUnit.unit) : Except ErrorKind PUnit) = .error k := by
    intro texts hmem
    induction texts with
    | nil => cases hmem
    | cons t texts ih =>
      rw [List.forIn_cons]
      cases ht : Conventions.typeExpr t with
      | error k => exact ⟨k, rfl⟩
      | ok =>
        rcases List.mem_cons.1 hmem with rfl | hmem
        · rw [htext] at ht
          cases ht
        · exact ih hmem
  obtain ⟨k, hk⟩ := hall c.types hmem
  rw [Conventions.validate, hk] at h
  cases h

/-- Conventions are refused for one of their types. -/
theorem invalidType_of_validate {kind : ErrorKind} (h : c.validate = .error kind) :
    InvalidType c kind := by
  have hall : ∀ texts ⊆ c.types,
      (do
        for text in texts do
          let _ ← Conventions.typeExpr text : Except ErrorKind Unit) = .error kind →
        InvalidType c kind := by
    intro texts hsub htexts
    induction texts with
    | nil => cases htexts
    | cons t texts ih =>
      obtain ⟨ht, hsub⟩ := List.cons_subset.mp hsub
      rw [List.forIn_cons] at htexts
      cases htype : Conventions.typeExpr t with
      | ok => exact ih hsub (by rwa [htype] at htexts)
      | error k =>
        rw [htype] at htexts
        cases htexts
        exact ⟨t, ht, htype⟩
  exact hall c.types (List.Subset.refl _) h

/-- With valid conventions the parameters of every method can be made. -/
theorem handlerParams_of_validate (h : c.validate = .ok ()) (map : MapParam) :
    ∃ params, c.handlerParams map = .ok params := by
  rcases hparams : c.handlerParams map with kind | params
  · exact absurd (handlerParams_error hparams) (not_invalidType_of_validate h kind)
  · exact ⟨params, rfl⟩

/-- With valid conventions the result of every method can be made. -/
theorem errorResult_of_validate (h : c.validate = .ok ()) :
    ∃ results, Conventions.result c.errorType = .ok results := by
  rcases hresult : Conventions.result c.errorType with kind | results
  · exact absurd ⟨c.errorType, by simp [Conventions.types], result_error hresult⟩
      (not_invalidType_of_validate h kind)
  · exact ⟨results, rfl⟩

/-- Conventions are valid as their types are. -/
theorem validate_congr {c c' : Conventions} (h : c.types = c'.types) : c.validate = c'.validate := by
  rw [Conventions.validate, h, ← Conventions.validate]

/-- The standard conventions are valid. -/
theorem validate_standard : ({} : Conventions).validate = .ok () := by
  have hok : ({} : Conventions).validate.toOption = some () := by decide +kernel
  cases hv : ({} : Conventions).validate with
  | ok => rfl
  | error => rw [hv] at hok; cases hok

end HandlerSplit
