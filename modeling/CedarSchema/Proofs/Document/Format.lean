import CedarSchema.Document.Validity
import CedarSchema.Proofs.Document.Reader
import CedarSchema.Proofs.Json.Text

/-
  The reader of documents beside the published format. Each part of the reader succeeds exactly on
  the values that pass the test of the format for that part, at every depth. There are two
  exceptions. Parents of actions may have fields that the format does not know (`isActionRef_eq`),
  and the root namespace may not be annotated (`isOk_namespaceOf`).
-/

namespace CedarSchema

namespace Document

/-! ## Succeeding -/

section

variable {α β : Type} {r : Except ShapeError α}

@[simp] theorem isOk_pure (a : α) : (pure a : Except ShapeError α).isOk = true := rfl

theorem isOk_bind {f : α → Except ShapeError β} {b : Bool}
    (h : ∀ a, r = .ok a → (f a).isOk = b) : (r >>= f).isOk = (r.isOk && b) := by
  cases r with
  | ok a => exact h a rfl
  | error e => rfl

@[simp] theorem isOk_map (f : α → β) : (f <$> r).isOk = r.isOk := by
  cases r <;> rfl

@[simp] theorem isOk_bind_pure (f : α → β) : (r >>= fun a => pure (f a)).isOk = r.isOk := by
  cases r <;> rfl

@[simp] theorem isOk_under (key : String) : (under key r).isOk = r.isOk := by
  cases r <;> rfl

theorem under_eq_ok {key : String} {a : α} : under key r = .ok a ↔ r = .ok a := by
  cases r with
  | ok b => exact Iff.rfl
  | error e => exact ⟨nofun, nofun⟩

theorem isOk_mapM (f : α → Except ShapeError β) (l : List α) :
    (l.mapM f).isOk = l.all fun a => (f a).isOk := by
  induction l with
  | nil => rfl
  | cons a l ih =>
    rw [List.mapM_cons, List.all_cons, ← ih]
    exact isOk_bind fun b _ => isOk_bind_pure _

end

/-! ## Members and items -/

section

variable {α : Type} {members : List (String × Json)} {key : String}
  {read : Json → Except ShapeError α} {test : Json → Bool}

theorem isOk_optional (h : ∀ j, (read j).isOk = test j) :
    (optional members key read).isOk = mayHaveField members key test := by
  unfold optional mayHaveField
  cases findEntry key members with
  | none => rfl
  | some j =>
    dsimp only
    rw [isOk_map, isOk_under, h, Option.all_some]

theorem isOk_required {missing : ShapeFault} (h : ∀ j, (read j).isOk = test j) :
    (required members key missing read).isOk = hasField members key test := by
  unfold required hasField
  cases findEntry key members with
  | none => rfl
  | some j =>
    dsimp only
    rw [isOk_under, h, Option.any_some]

theorem isOk_allowOnly (known : List String) (members : List (String × Json)) :
    (allowOnly known members).isOk = hasOnlyFields members known := by
  unfold allowOnly hasOnlyFields
  rw [Bool.eq_iff_iff, List.all_eq_true]
  split
  · rename_i e he
    have hunknown := List.find?_some he
    simp only [isOk_under]
    constructor
    · exact nofun
    · intro hall
      rw [hall e (List.mem_of_find?_eq_some he)] at hunknown
      cases hunknown
  · rename_i hnone
    have hall := List.find?_eq_none.1 hnone
    exact ⟨fun _ e he => by simpa using hall e he, fun _ => rfl⟩

theorem isOk_textOf (j : Json) : (textOf j).isOk = isText j := by
  cases j <;> rfl

theorem isOk_pathOf (j : Json) : (pathOf j).isOk = isText j := by
  rw [pathOf, isOk_map, isOk_textOf]

theorem isOk_eachItem (h : ∀ j, (read j).isOk = test j) (j : Json) :
    (eachItem read j).isOk = isArrayOf test j := by
  cases j with
  | array items =>
    have hfrom (n : Nat) :
        ((items.zipIdx n).all fun x => (under (toString x.2) (read x.1)).isOk) =
          items.all test := by
      induction items generalizing n with
      | nil => rfl
      | cons j items ih => rw [List.zipIdx_cons, List.all_cons, List.all_cons, ih, isOk_under, h]
    exact (isOk_mapM _ _).trans (hfrom 0)
  | _ => rfl

theorem isOk_pathsOf (j : Json) : (pathsOf j).isOk = isArrayOf isText j :=
  isOk_eachItem isOk_pathOf j

theorem isOk_eachMember {read : String → Json → Except ShapeError α}
    (h : ∀ key j, (read key j).isOk = test j) (j : Json) :
    (eachMember read j).isOk = isObjectOf test j := by
  cases j with
  | object members =>
    refine (isOk_mapM _ _).trans ?_
    simp only [isOk_under, h, isObjectOf]
  | _ => rfl

theorem isOk_annotationsOf (j : Json) : (annotationsOf j).isOk = isAnnotations j :=
  isOk_eachMember (fun _ j => (isOk_bind_pure _).trans (isOk_textOf j)) j

theorem isOk_annotationsIn (members : List (String × Json)) :
    (annotationsIn members).isOk = mayHaveField members "annotations" isAnnotations :=
  (isOk_bind_pure _).trans (isOk_optional isOk_annotationsOf)

theorem isOk_isRequiredIn (members : List (String × Json)) :
    (isRequiredIn members).isOk = mayHaveField members "required" isTruthValue := by
  unfold isRequiredIn mayHaveField
  cases findEntry "required" members with
  | none => rfl
  | some j => cases j <;> rfl

theorem isOk_nameIn (members : List (String × Json)) (tag : String) :
    (nameIn members tag).isOk = hasField members "name" isText :=
  isOk_required isOk_pathOf

end

/-- The text under a key is there or is missed. -/
theorem required_textOf (members : List (String × Json)) (key : String) (missing : ShapeFault) :
    (∃ s, findEntry key members = some (.string s) ∧
        required members key missing textOf = .ok s) ∨
      (∀ s, findEntry key members ≠ some (.string s)) ∧
        ∃ e, required members key missing textOf = .error e := by
  unfold required
  cases findEntry key members with
  | none => exact .inr ⟨nofun, _, rfl⟩
  | some j =>
    cases j with
    | string s => exact .inl ⟨s, rfl, rfl⟩
    | _ => exact .inr ⟨nofun, _, rfl⟩

/-! ## Types -/

/-- An object is an attribute if it is a type with right details. -/
theorem isOk_attributeOf {name : String} {j : Json} (h : (typeOf j).isOk = isType j) :
    (attributeOf name j).isOk = (isType j && isAttributeDetail j) := by
  cases j with
  | object members =>
    refine (isOk_bind fun _ _ => isOk_bind fun _ _ => isOk_bind_pure _).trans ?_
    rw [isOk_isRequiredIn, h, isOk_annotationsIn, Bool.and_left_comm]
    rfl
  | _ => rfl

mutual

/-- A type can be read exactly if it has the published format. -/
theorem isOk_typeOf : (j : Json) → (typeOf j).isOk = isType j
  | .object members => by
    rw [typeOf, isType]
    obtain ⟨tag, htype, htag⟩ | ⟨htype, e, he⟩ := required_textOf members "type" .missingType
    · rw [htype, htag, ok_bind]
      dsimp only
      -- Each known tag asks for something of its own, any other for nothing.
      split
      · simp [namingTags]
      · simp [namingTags]
      · simp [namingTags]
      · simp [namingTags]
      · simp [namingTags, isOk_nameIn]
      · simp [namingTags, isOk_nameIn]
      · simp [namingTags, isOk_nameIn]
      · simp [namingTags, isOk_elementOf members]
      · simp [namingTags, isOk_attributesIn members]
      · simp_all [namingTags]
    · rw [he]
      split
      · rename_i tag htag
        exact (htype tag htag).elim
      · rfl
  | .null | .bool _ | .number _ | .string _ | .array _ => rfl
termination_by structural j => j

theorem isOk_elementOf : (members : List (String × Json)) →
    (elementOf members).isOk = hasElementType members
  | [] => rfl
  | (key, j) :: rest => by
    rw [elementOf, hasElementType]
    split
    · rw [isOk_under, isOk_typeOf j]
    · exact isOk_elementOf rest
termination_by structural members => members

theorem isOk_attributesIn : (members : List (String × Json)) →
    (attributesIn members).isOk = mayHaveAttributes members
  | [] => rfl
  | (key, j) :: rest => by
    rw [attributesIn, mayHaveAttributes]
    split
    · rw [isOk_under, isOk_attributesOf j]
    · exact isOk_attributesIn rest
termination_by structural members => members

theorem isOk_attributesOf : (j : Json) → (attributesOf j).isOk = areAttributes j
  | .object members => isOk_attributeList members
  | .null | .bool _ | .number _ | .string _ | .array _ => rfl
termination_by structural j => j

theorem isOk_attributeList : (members : List (String × Json)) →
    (attributeList members).isOk = allAttributes members
  | [] => rfl
  | (name, j) :: rest => by
    rw [attributeList_eq, List.mapM_cons, ← attributeList_eq, allAttributes]
    refine (isOk_bind fun _ _ => isOk_bind_pure _).trans ?_
    rw [isOk_under, isOk_attributeOf (isOk_typeOf j), isOk_attributeList rest]
termination_by structural members => members

end

theorem isOk_commonTypeOf (name : String) (j : Json) :
    (commonTypeOf name j).isOk = isCommonType j := by
  cases j with
  | object members =>
    refine (isOk_bind fun _ _ => isOk_bind_pure _).trans ?_
    rw [isOk_annotationsIn, isOk_typeOf, Bool.and_comm]
    rfl
  | _ => rfl

theorem isOk_shapeOf (j : Json) : (shapeOf j).isOk = isRecordType j := by
  cases j with
  | object members =>
    rw [shapeOf, typeOf, isRecordType, isObjectWith]
    obtain ⟨tag, htype, htag⟩ | ⟨htype, e, he⟩ := required_textOf members "type" .missingType
    · rw [htype, htag, ok_bind]
      dsimp only
      split
      · rfl
      · rfl
      · rfl
      · rfl
      · cases nameIn members "Extension" <;> rfl
      · cases nameIn members "Entity" <;> rfl
      · cases nameIn members "EntityOrCommon" <;> rfl
      · cases elementOf members <;> rfl
      · rw [← isOk_attributesIn members]
        cases attributesIn members <;> rfl
      · rename_i hrecord
        rw [beq_eq_false_iff_ne.2 hrecord]
        rfl
    · rw [he]
      split
      · rename_i tag htag
        exact (htype tag htag).elim
      · rfl
  | _ => rfl

/-! ## Declarations -/

/-- As many values are given as are read. -/
theorem isEmpty_of_mapM {α β : Type} {f : α → Except ShapeError β} {l : List α} {bs : List β}
    (h : l.mapM f = .ok bs) : bs.isEmpty = l.isEmpty := by
  cases l with
  | nil =>
    cases h
    rfl
  | cons a l =>
    rw [List.mapM_cons] at h
    cases ha : f a with
    | error e => simp [ha, bind, Except.bind] at h
    | ok b =>
      cases hl : l.mapM f with
      | error e => simp [ha, hl, bind, Except.bind] at h
      | ok cs =>
        rw [ha, hl] at h
        cases h
        rfl

theorem isOk_enumValuesOf (j : Json) : (enumValuesOf j).isOk =
    (isArrayOf isText j && j matches .array (_ :: _)) := by
  rw [← isOk_eachItem isOk_textOf j]
  refine isOk_bind fun values hvalues => ?_
  cases j with
  | array items =>
    have hempty : values.isEmpty = items.zipIdx.isEmpty := isEmpty_of_mapM hvalues
    rw [hempty]
    cases items <;> rfl
  | _ => cases hvalues

section

variable {members : List (String × Json)} {key : String} {test : Json → Bool}

theorem hasField_of_isSome (h : (findEntry key members).isSome) :
    hasField members key test = mayHaveField members key test := by
  obtain ⟨j, hj⟩ := Option.isSome_iff_exists.1 h
  rw [hasField, mayHaveField, hj, Option.any_some, Option.all_some]

theorem hasField_of_not_isSome (h : ¬(findEntry key members).isSome) :
    hasField members key test = false := by
  rw [hasField, Option.not_isSome_iff_eq_none.1 h, Option.any_none]

theorem hasOnlyFields_of_isSome {keys : List String} (h : (findEntry key members).isSome)
    (hkey : key ∉ keys) : hasOnlyFields members keys = false := by
  obtain ⟨j, hj⟩ := Option.isSome_iff_exists.1 h
  rw [hasOnlyFields, List.all_eq_false]
  exact ⟨(key, j), mem_of_findEntry hj, fun hmem => hkey (List.contains_iff_mem.1 hmem)⟩

end

theorem isOk_entityTypeOf (name : String) (j : Json) :
    (entityTypeOf name j).isOk = isEntityType j := by
  cases j with
  | object members =>
    rw [isEntityType, isEnumType, isPlainEntityType, isObjectWith, isObjectWith]
    simp only [entityTypeOf, membersOf, ok_bind]
    by_cases henum : (findEntry "enum" members).isSome
    · simp only [if_pos henum]
      have hplain :
          hasOnlyFields members ["memberOfTypes", "shape", "tags", "annotations"] = false :=
        hasOnlyFields_of_isSome henum (by decide)
      rw [hplain, hasField_of_isSome henum]
      refine (isOk_bind fun _ _ => isOk_bind fun _ _ => isOk_bind_pure _).trans ?_
      rw [isOk_annotationsIn, isOk_allowOnly, isOk_optional isOk_enumValuesOf, Bool.and_false,
        Bool.bne_false]
      ac_rfl
    · simp only [if_neg henum]
      rw [hasField_of_not_isSome henum, Bool.false_and, Bool.false_and, Bool.false_bne]
      refine (isOk_bind fun _ _ => isOk_bind fun _ _ => isOk_bind fun _ _ => isOk_bind fun _ _ =>
        isOk_bind_pure _).trans ?_
      rw [isOk_annotationsIn, isOk_allowOnly, isOk_optional isOk_pathsOf,
        isOk_optional isOk_shapeOf, isOk_optional isOk_typeOf]
      ac_rfl
  | _ => rfl

theorem isOk_appliesToOf (j : Json) : (appliesToOf j).isOk = isAppliesTo j := by
  cases j with
  | object members =>
    refine (isOk_bind fun _ _ => isOk_bind fun _ _ => isOk_bind fun _ _ =>
      isOk_bind_pure _).trans ?_
    rw [isOk_allowOnly, isOk_optional isOk_pathsOf, isOk_optional isOk_pathsOf,
      isOk_optional isOk_typeOf, isAppliesTo, isObjectWith]
    ac_rfl
  | _ => rfl

/-! ## Actions -/

/-- What the reader asks of a parent of an action. It does not look at other fields. -/
def isLooseRef : Json → Bool := isObjectWith fun members =>
  hasField members "id" isText && mayHaveField members "type" isText

/-- An action with such parents, of the published format in all else. -/
def isLooseAction : Json → Bool := isObjectWith fun members =>
  mayHaveField members "memberOf" (isArrayOf isLooseRef) &&
    mayHaveField members "appliesTo" isAppliesTo &&
    mayHaveField members "annotations" isAnnotations &&
    hasOnlyFields members ["memberOf", "appliesTo", "annotations"]

/-- An object without fields that parents of actions have none of. -/
def isPlainRef : Json → Bool := isObjectWith fun members => hasOnlyFields members ["id", "type"]

/-- The parents of an action have no unknown fields. -/
def hasPlainParents : Json → Bool := isObjectWith fun members =>
  mayHaveField members "memberOf" (isArrayOf isPlainRef)

theorem isOk_actionRefOf (j : Json) : (actionRefOf j).isOk = isLooseRef j := by
  cases j with
  | object members =>
    refine (isOk_bind fun _ _ => isOk_bind_pure _).trans ?_
    rw [isOk_required isOk_textOf, isOk_optional isOk_pathOf]
    rfl
  | _ => rfl

theorem isOk_actionOf (name : String) (j : Json) : (actionOf name j).isOk = isLooseAction j := by
  cases j with
  | object members =>
    refine (isOk_bind fun _ _ => isOk_bind fun _ _ => isOk_bind fun _ _ =>
      isOk_bind_pure _).trans ?_
    rw [isOk_allowOnly, isOk_annotationsIn, isOk_optional (isOk_eachItem isOk_actionRefOf),
      isOk_optional isOk_appliesToOf, isLooseAction, isObjectWith]
    ac_rfl
  | _ => rfl

section

variable {members : List (String × Json)} {key : String} (p q : Json → Bool)

theorem mayHaveField_and : mayHaveField members key (fun j => p j && q j) =
    (mayHaveField members key p && mayHaveField members key q) := by
  unfold mayHaveField
  cases findEntry key members <;> rfl

theorem all_and {α : Type} (p q : α → Bool) (l : List α) :
    (l.all fun a => p a && q a) = (l.all p && l.all q) := by
  induction l with
  | nil => rfl
  | cons a l ih =>
    rw [List.all_cons, List.all_cons, List.all_cons, ih]
    ac_rfl

theorem isArrayOf_and (j : Json) :
    isArrayOf (fun j => p j && q j) j = (isArrayOf p j && isArrayOf q j) := by
  cases j with
  | array items => exact all_and p q items
  | _ => rfl

theorem isObjectOf_and (j : Json) :
    isObjectOf (fun j => p j && q j) j = (isObjectOf p j && isObjectOf q j) := by
  cases j with
  | object members => exact all_and (fun e => p e.2) (fun e => q e.2) members
  | _ => rfl

end

/-- The published format asks more of a parent of an action than the reader does. -/
theorem isActionRef_eq (j : Json) : isActionRef j = (isLooseRef j && isPlainRef j) := by
  cases j <;> rfl

theorem isAction_eq (j : Json) : isAction j = (isLooseAction j && hasPlainParents j) := by
  cases j with
  | object members =>
    rw [isAction, isLooseAction, hasPlainParents, isObjectWith, isObjectWith, isObjectWith,
      funext isActionRef_eq, funext (isArrayOf_and isLooseRef isPlainRef), mayHaveField_and]
    ac_rfl
  | _ => rfl

/-! ## Namespaces -/

/-- The test of the value under one key of an object, of any other key nothing. -/
theorem all_key_eq_mayHaveField {members : List (String × Json)} (h : Ascending members)
    (key : String) (test : Json → Bool) :
    (members.all fun e => e.1 != key || test e.2) = mayHaveField members key test := by
  rw [Bool.eq_iff_iff, List.all_eq_true, mayHaveField, Option.all_eq_true]
  constructor
  · intro hall j hj
    have hkey := hall (key, j) (mem_of_findEntry hj)
    simpa using hkey
  · rintro hall ⟨k, j⟩ he
    by_cases hk : k = key
    · subst hk
      rw [hall j (findEntry_of_mem h he), Bool.or_true]
    · simp [hk]

/-- The reading of one member of a namespace, after some annotations were found. -/
def annotationStep (found : List Annotation) (e : String × Json) :
    Except ShapeError (List Annotation) :=
  under e.1 (
    if e.1 = "annotations" then annotationsOf e.2
    else if ["entityTypes", "actions", "commonTypes"].contains e.1 then .ok found
    else fail .unknownNamespaceField)

theorem namespaceAnnotations_eq_foldlM (members : List (String × Json)) :
    namespaceAnnotations members = members.foldlM annotationStep [] := rfl

def namespaceFields : List String := ["annotations", "entityTypes", "actions", "commonTypes"]

theorem isOk_annotationStep (found : List Annotation) (e : String × Json) :
    (annotationStep found e).isOk =
      ((e.1 != "annotations" || isAnnotations e.2) && namespaceFields.contains e.1) := by
  obtain ⟨key, j⟩ := e
  rw [annotationStep, isOk_under]
  dsimp only
  split
  · rename_i hkey
    subst hkey
    rw [isOk_annotationsOf]
    simp [namespaceFields]
  · rename_i hkey
    have hother : namespaceFields.contains key =
        ["entityTypes", "actions", "commonTypes"].contains key := by
      simp [namespaceFields, hkey]
    rw [hother, bne_iff_ne.2 hkey, Bool.true_or, Bool.true_and]
    split
    · rename_i hknown
      rw [hknown]
      rfl
    · rename_i hunknown
      rw [Bool.eq_false_iff.2 hunknown]
      rfl

theorem isOk_foldlM_annotationStep (members : List (String × Json)) (found : List Annotation) :
    (members.foldlM annotationStep found).isOk = members.all fun e =>
      (e.1 != "annotations" || isAnnotations e.2) && namespaceFields.contains e.1 := by
  induction members generalizing found with
  | nil => rfl
  | cons e members ih =>
    rw [List.foldlM_cons, List.all_cons, ← isOk_annotationStep found e]
    exact isOk_bind fun found' _ => ih found'

theorem isOk_namespaceAnnotations {members : List (String × Json)} (h : Ascending members) :
    (namespaceAnnotations members).isOk =
      (mayHaveField members "annotations" isAnnotations &&
        hasOnlyFields members namespaceFields) := by
  rw [namespaceAnnotations_eq_foldlM, isOk_foldlM_annotationStep, all_and,
    all_key_eq_mayHaveField h]
  rfl

/-- An object without members. -/
def isEmptyObject : Json → Bool := isObjectWith List.isEmpty

/-- A namespace without annotations. -/
def isBare : Json → Bool := isObjectWith fun members =>
  mayHaveField members "annotations" isEmptyObject

theorem isEmpty_of_annotationsOf {j : Json} {annotations : List Annotation}
    (h : annotationsOf j = .ok annotations) : annotations.isEmpty = isEmptyObject j := by
  cases j with
  | object members => exact isEmpty_of_mapM h
  | _ => cases h

/-- A member adds annotations under the one key and nothing under another. -/
theorem of_annotationStep {found found' : List Annotation} {e : String × Json}
    (h : annotationStep found e = .ok found') :
    e.1 = "annotations" ∧ annotationsOf e.2 = .ok found' ∨
      e.1 ≠ "annotations" ∧ found' = found := by
  have hread := under_eq_ok.1 h
  split at hread
  · rename_i hkey
    exact .inl ⟨hkey, hread⟩
  · rename_i hkey
    split at hread
    · cases hread
      exact .inr ⟨hkey, rfl⟩
    · cases hread

/-- What is found in the end is what stands under the key, which is there once at most. -/
theorem isEmpty_of_foldlM_annotationStep {members : List (String × Json)}
    {found annotations : List Annotation} (hm : Ascending members)
    (h : members.foldlM annotationStep found = .ok annotations) :
    annotations.isEmpty =
      ((findEntry "annotations" members).map isEmptyObject).getD found.isEmpty := by
  induction members generalizing found with
  | nil =>
    cases h
    rfl
  | cons e members ih =>
    obtain ⟨key, j⟩ := e
    obtain ⟨hfirst, hrest⟩ := List.pairwise_cons.1 hm
    rw [List.foldlM_cons] at h
    cases hstep : annotationStep found (key, j) with
    | error e =>
      rw [hstep] at h
      cases h
    | ok found' =>
      rw [hstep, ok_bind] at h
      rw [ih hrest h]
      rcases of_annotationStep hstep with ⟨hkey, hfound⟩ | ⟨hkey, rfl⟩
      · obtain rfl : key = "annotations" := hkey
        rw [findEntry_eq_none hfirst, findEntry_of_mem hm List.mem_cons_self,
          Option.map_none, Option.map_some, isEmpty_of_annotationsOf hfound]
        rfl
      · have hne : compare "annotations" key ≠ .eq := fun heq =>
          hkey (Std.LawfulEqCmp.eq_of_compare heq).symm
        rw [findEntry, if_neg hne]

theorem isEmpty_of_namespaceAnnotations {members : List (String × Json)}
    {annotations : List Annotation} (hm : Ascending members)
    (h : namespaceAnnotations members = .ok annotations) :
    annotations.isEmpty = mayHaveField members "annotations" isEmptyObject := by
  rw [isEmpty_of_foldlM_annotationStep hm h, mayHaveField]
  cases findEntry "annotations" members <;> rfl

theorem isOk_declsUnder {members : List (String × Json)} {key : String}
    {read : String → Json → Except ShapeError Decl} {test : Json → Bool}
    (h : ∀ name j, (read name j).isOk = test j) :
    (declsUnder members key read).isOk = mayHaveField members key (isObjectOf test) :=
  (isOk_bind_pure _).trans (isOk_optional (isOk_eachMember h))

/-- A namespace of the published format but for unknown fields in parents of actions. -/
def isLooseNamespace : Json → Bool := isObjectWith fun members =>
  mayHaveField members "annotations" isAnnotations &&
    mayHaveField members "entityTypes" (isObjectOf isEntityType) &&
    mayHaveField members "actions" (isObjectOf isLooseAction) &&
    mayHaveField members "commonTypes" (isObjectOf isCommonType) &&
    hasOnlyFields members namespaceFields

/-- No parent of an action in the namespace has unknown fields. -/
def hasPlainActions : Json → Bool := isObjectWith fun members =>
  mayHaveField members "actions" (isObjectOf hasPlainParents)

theorem isNamespace_eq (j : Json) : isNamespace j = (isLooseNamespace j && hasPlainActions j) := by
  cases j with
  | object members =>
    rw [isNamespace, isLooseNamespace, hasPlainActions, isObjectWith, isObjectWith, isObjectWith,
      funext isAction_eq, funext (isObjectOf_and isLooseAction hasPlainParents), mayHaveField_and]
    unfold namespaceFields
    ac_rfl
  | _ => rfl

/-- The root namespace can be read only if it is bare. -/
theorem isOk_namespaceOf (name : String) {j : Json} (h : j.Readable) :
    (namespaceOf name j).isOk = (isLooseNamespace j && (name != "" || isBare j)) := by
  cases j with
  | object members =>
    have hlast (annotations : List Annotation) (decls : List Decl)
        (ha : namespaceAnnotations members = .ok annotations) :
        Except.isOk (if name ≠ "" then
            pure [Item.block { path := Path.ofText name, decls, annotations }]
          else if annotations.isEmpty then pure (decls.map .decl)
          else under "annotations" (fail .annotatedRoot)) =
        (name != "" || isBare (.object members)) := by
      rw [isBare, isObjectWith, ← isEmpty_of_namespaceAnnotations h.1 ha]
      by_cases hname : name = ""
      · subst hname
        cases annotations <;> rfl
      · rw [if_pos hname, bne_iff_ne.2 hname]
        rfl
    rw [namespaceOf, membersOf, ok_bind]
    refine (isOk_bind fun _ ha => isOk_bind fun _ _ => isOk_bind fun _ _ => isOk_bind fun _ _ =>
      hlast _ _ ha).trans ?_
    rw [isOk_namespaceAnnotations h.1, isOk_declsUnder isOk_commonTypeOf,
      isOk_declsUnder isOk_entityTypeOf, isOk_declsUnder isOk_actionOf, isLooseNamespace,
      isObjectWith]
    ac_rfl
  | _ => rfl

/-! ## Documents -/

/-- A document of the published format but for unknown fields in parents of actions. -/
def isLooseDocument : Json → Bool := isObjectOf isLooseNamespace

/-- No parent of an action in the document has unknown fields. -/
def hasPlainRefs : Json → Bool := isObjectOf hasPlainActions

/-- The root namespace is not annotated. -/
def hasBareRoot : Json → Bool := isObjectWith fun members => mayHaveField members "" isBare

theorem isValid_eq (j : Json) : isValid j = (isLooseDocument j && hasPlainRefs j) := by
  rw [isValid, funext isNamespace_eq, isObjectOf_and]
  rfl

theorem isOk_ofDocument {j : Json} (h : j.Readable) :
    (Schema.ofDocument j).isOk = (isLooseDocument j && hasBareRoot j) := by
  refine (isOk_bind_pure _).trans ?_
  cases j with
  | object members =>
    have hnamespace : ∀ e ∈ members, (namespaceOf e.1 e.2).isOk =
        (isLooseNamespace e.2 && (e.1 != "" || isBare e.2)) :=
      fun e he => isOk_namespaceOf e.1 (Json.readableMembers_iff.1 h.2 e he)
    refine (isOk_mapM _ _).trans ?_
    simp only [isOk_under]
    rw [hasBareRoot, isObjectWith, ← all_key_eq_mayHaveField h.1]
    refine Eq.trans ?_ (all_and (fun e => isLooseNamespace e.2) _ members)
    rw [Bool.eq_iff_iff, List.all_eq_true, List.all_eq_true]
    exact forall₂_congr fun e he => by rw [hnamespace e he]
  | _ => rfl

end Document

end CedarSchema
