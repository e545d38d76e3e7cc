import CedarSchema.Proofs.Grammar.Complete

/-
  Two texts of the same words, read side by side. Their comments, their layout and so all positions
  may differ; comments aside, the same lexemes are ahead of both states. Every parsing function
  keeps that: on both sides it succeeds, with values that differ in comments at most, or on both it
  fails for one cause. So neither a position nor a comment that waits ever decides what the parser
  does. There is one rule for each way in which readings are put together, and one lemma for each
  parsing function.
-/

namespace CedarSchema

open ParseState Grammar

/-! ## Outcomes of two runs -/

/-- Both runs succeed, with values of which `R` holds, or both fail for one cause of the grammar. -/
def Agree {α β : Type} (R : α → β → Prop) : Except ParseError α → Except ParseError β → Prop
  | .ok a, .ok b => R a b
  | .error e, .error e' =>
    ∃ cause, e.fault = .grammatical cause ∧ e'.fault = .grammatical cause
  | _, _ => False

/-- The values are the same as far as `f` sees them. -/
def Via {α β : Type} (f : α → β) (a b : α) : Prop := f a = f b

/-- Comments aside, the same lexemes are ahead of both states, and then both texts end. -/
def InStep (s₁ s₂ : ParseState) : Prop := ∃ ws, Before ws s₁ ∧ Before ws s₂

/-- The readings agree, and the states behind them are in step. -/
def ReadAlike {m n : Nat} {α : Type} (R : α → α → Prop) (r₁ : Except ParseError (Reading m α))
    (r₂ : Except ParseError (Reading n α)) : Prop :=
  Agree (fun x y => R x.value y.value ∧ InStep x.state y.state) r₁ r₂

namespace Agree

variable {α β γ δ : Type} {R R' : α → β → Prop} {S : γ → δ → Prop} {r₁ : Except ParseError α}
  {r₂ : Except ParseError β}

theorem error {p₁ p₂ : Position} {cause : SyntaxError} :
    Agree R (.error ⟨p₁, .grammatical cause⟩) (.error ⟨p₂, .grammatical cause⟩) :=
  ⟨cause, rfl, rfl⟩

/-- Values of which `R` holds, or two errors of one cause. -/
theorem cases (hr : Agree R r₁ r₂) : (∃ a b, r₁ = .ok a ∧ r₂ = .ok b ∧ R a b) ∨
    ∃ p₁ p₂ cause, r₁ = .error ⟨p₁, .grammatical cause⟩ ∧
      r₂ = .error ⟨p₂, .grammatical cause⟩ := by
  cases r₁ with
  | ok a =>
    cases r₂ with
    | ok b => exact .inl ⟨a, b, rfl, rfl, hr⟩
    | error e => exact hr.elim
  | error e =>
    cases r₂ with
    | ok b => exact hr.elim
    | error e' =>
      obtain ⟨p₁, fault₁⟩ := e
      obtain ⟨p₂, fault₂⟩ := e'
      obtain ⟨cause, rfl, rfl⟩ := hr
      exact .inr ⟨p₁, p₂, cause, rfl, rfl⟩

theorem bind {f : α → Except ParseError γ} {g : β → Except ParseError δ} (hr : Agree R r₁ r₂)
    (hf : ∀ a b, R a b → Agree S (f a) (g b)) : Agree S (r₁ >>= f) (r₂ >>= g) := by
  rcases hr.cases with ⟨a, b, rfl, rfl, hab⟩ | ⟨p₁, p₂, cause, rfl, rfl⟩
  · exact hf a b hab
  · exact error

theorem imp (hr : Agree R r₁ r₂) (h : ∀ a b, R a b → R' a b) : Agree R' r₁ r₂ := by
  rcases hr.cases with ⟨a, b, rfl, rfl, hab⟩ | ⟨p₁, p₂, cause, rfl, rfl⟩
  · exact h a b hab
  · exact error

theorem map {f : α → γ} {g : β → δ} (hr : Agree (fun a b => S (f a) (g b)) r₁ r₂) :
    Agree S (f <$> r₁) (g <$> r₂) := by
  rcases hr.cases with ⟨a, b, rfl, rfl, hab⟩ | ⟨p₁, p₂, cause, rfl, rfl⟩
  · exact hab
  · exact error

end Agree

namespace InStep

variable {s₁ s₂ : ParseState}

theorem lookahead (hs : InStep s₁ s₂) : s₁.lookahead = s₂.lookahead := by
  obtain ⟨ws, h₁, h₂⟩ := hs
  rw [h₁.lookahead_eq, h₂.lookahead_eq]

theorem takeInline (hs : InStep s₁ s₂) : InStep s₁.takeInline s₂.takeInline := by
  obtain ⟨ws, h₁, h₂⟩ := hs
  exact ⟨ws, h₁.takeInline, h₂.takeInline⟩

theorem takePending (hs : InStep s₁ s₂) : InStep s₁.takePending s₂.takePending := by
  obtain ⟨ws, h₁, h₂⟩ := hs
  exact ⟨ws, h₁.takePending, h₂.takePending⟩

end InStep

/-! ## How readings are put together -/

namespace ReadAlike

variable {m n m' n' : Nat} {α β : Type} {R R' : α → α → Prop} {S : β → β → Prop}
  {r₁ : Except ParseError (Reading m α)} {r₂ : Except ParseError (Reading n α)}

/-- Readings at the end of which something other than a reading is made. -/
theorem bindAgree {f : Reading m α → Except ParseError β} {g : Reading n α → Except ParseError β}
    (hr : ReadAlike R r₁ r₂)
    (hf : ∀ a b s₁ s₂ h₁ h₂, R a b → InStep s₁ s₂ → Agree S (f ⟨a, s₁, h₁⟩) (g ⟨b, s₂, h₂⟩)) :
    Agree S (r₁ >>= f) (r₂ >>= g) :=
  Agree.bind hr fun x y ⟨hR, hs⟩ => hf _ _ _ _ x.left_lt y.left_lt hR hs

theorem bind {f : Reading m α → Except ParseError (Reading m' β)}
    {g : Reading n α → Except ParseError (Reading n' β)} (hr : ReadAlike R r₁ r₂)
    (hf : ∀ a b s₁ s₂ h₁ h₂, R a b → InStep s₁ s₂ → ReadAlike S (f ⟨a, s₁, h₁⟩) (g ⟨b, s₂, h₂⟩)) :
    ReadAlike S (r₁ >>= f) (r₂ >>= g) :=
  Agree.bind hr fun x y ⟨hR, hs⟩ => hf _ _ _ _ x.left_lt y.left_lt hR hs

/-- What is read the same on both sides goes by one name. -/
theorem bindEq {f : Reading m α → Except ParseError (Reading m' β)}
    {g : Reading n α → Except ParseError (Reading n' β)} (hr : ReadAlike Eq r₁ r₂)
    (hf : ∀ a s₁ s₂ h₁ h₂, InStep s₁ s₂ → ReadAlike S (f ⟨a, s₁, h₁⟩) (g ⟨a, s₂, h₂⟩)) :
    ReadAlike S (r₁ >>= f) (r₂ >>= g) := by
  refine bind hr fun a b s₁ s₂ h₁ h₂ hab hs => ?_
  subst hab
  exact hf a s₁ s₂ h₁ h₂ hs

theorem map {f g : α → β} (hr : ReadAlike (fun a b => S (f a) (g b)) r₁ r₂) :
    ReadAlike S (Reading.map f <$> r₁) (Reading.map g <$> r₂) :=
  Agree.map hr

theorem below {s₁ s₂ : ParseState} {r₁ : Except ParseError (Reading s₁.left α)}
    {r₂ : Except ParseError (Reading s₂.left α)} {h₁ : s₁.left < m} {h₂ : s₂.left < n}
    (hr : ReadAlike R r₁ r₂) :
    ReadAlike R (Reading.below h₁ <$> r₁) (Reading.below h₂ <$> r₂) :=
  Agree.map hr

theorem upTo {s₁ s₂ : ParseState} {r₁ : Except ParseError (Reading (s₁.left + 1) α)}
    {r₂ : Except ParseError (Reading (s₂.left + 1) α)} {h₁ : s₁.left < m} {h₂ : s₂.left < n}
    (hr : ReadAlike R r₁ r₂) :
    ReadAlike R (Reading.upTo h₁ <$> r₁) (Reading.upTo h₂ <$> r₂) :=
  Agree.map hr

theorem behind {s₁ s₂ s₁' s₂' : ParseState} {r₁ : Except ParseError (Reading s₁'.left α)}
    {r₂ : Except ParseError (Reading s₂'.left α)} {h₁ : s₁'.left < s₁.left + 1}
    {h₂ : s₂'.left < s₂.left + 1} (hr : ReadAlike R r₁ r₂) :
    ReadAlike R (Reading.behind h₁ <$> r₁) (Reading.behind h₂ <$> r₂) :=
  Agree.map hr

/-- A check that says the same on both sides. -/
theorem guarded {c : Bool} {p₁ p₂ : Position} {cause : SyntaxError}
    {f : PUnit → Except ParseError (Reading m α)} {g : PUnit → Except ParseError (Reading n α)}
    (hf : ReadAlike R (f ⟨⟩) (g ⟨⟩)) :
    ReadAlike R
      (if c = true then (do let u ← MonadExcept.throw ⟨p₁, .grammatical cause⟩; f u)
        else f ⟨⟩)
      (if c = true then (do let u ← MonadExcept.throw ⟨p₂, .grammatical cause⟩; g u)
        else g ⟨⟩) := by
  cases c with
  | true => exact Agree.error
  | false => exact hf

end ReadAlike

/-! ## Tokens -/

section

variable {m n : Nat} {α β : Type} {R : α → α → Prop} {s₁ s₂ : ParseState}

theorem agree_unexpected {γ δ : Type} {S : γ → δ → Prop} {wanted : List Wanted}
    (hs : InStep s₁ s₂) :
    Agree S (.error (s₁.unexpected wanted)) (.error (s₂.unexpected wanted)) := by
  unfold unexpected
  rw [hs.lookahead]
  exact .error

theorem take_of_none {s : ParseState} {wanted : List Wanted} {accept : Lexeme → Option α}
    (h : accept s.lookahead = none ∨ s.words = []) :
    s.take wanted accept = .error (s.unexpected wanted) := by
  rw [take]
  split
  · rfl
  · rename_i t rest hf
    obtain h | h := h
    · rw [ParseState.lookahead, hf] at h
      rw [h]
    · rw [words, hf] at h
      cases h

theorem alike_take {wanted : List Wanted} {accept : Lexeme → Option α} (hs : InStep s₁ s₂) :
    ReadAlike Eq (s₁.take wanted accept) (s₂.take wanted accept) := by
  obtain ⟨ws, h₁, h₂⟩ := hs
  have herror (h : accept (first ws) = none ∨ ws = []) :
      ReadAlike Eq (s₁.take wanted accept) (s₂.take wanted accept) := by
    rw [take_of_none (by rwa [h₁.lookahead_eq, h₁.words]),
      take_of_none (by rwa [h₂.lookahead_eq, h₂.words])]
    exact agree_unexpected ⟨ws, h₁, h₂⟩
  cases ws with
  | nil => exact herror (.inr rfl)
  | cons l ws =>
    cases ha : accept l with
    | none => exact herror (.inl ha)
    | some a =>
      have hx : Accepts (s₁.take wanted accept) a ws := accepts_take ha h₁
      have hy : Accepts (s₂.take wanted accept) a ws := accepts_take ha h₂
      obtain ⟨x, hx, hxa, hxs⟩ := hx.exists_ok
      obtain ⟨y, hy, hya, hys⟩ := hy.exists_ok
      rw [hx, hy]
      exact ⟨hxa.trans hya.symm, ws, hxs, hys⟩

theorem alike_expectFor {wanted : List Wanted} {p : Punct} (hs : InStep s₁ s₂) :
    ReadAlike Eq (s₁.expectFor wanted p) (s₂.expectFor wanted p) := alike_take hs

theorem alike_expect {p : Punct} (hs : InStep s₁ s₂) :
    ReadAlike Eq (s₁.expect p) (s₂.expect p) := alike_expectFor hs

theorem alike_expectWord {w : String} (hs : InStep s₁ s₂) :
    ReadAlike Eq (s₁.expectWord w) (s₂.expectWord w) := alike_take hs

theorem alike_ident (hs : InStep s₁ s₂) : ReadAlike Eq s₁.ident s₂.ident := alike_take hs

theorem alike_stringLiteral (hs : InStep s₁ s₂) :
    ReadAlike Eq s₁.stringLiteral s₂.stringLiteral := alike_take hs

theorem alike_name {wanted : List Wanted} (hs : InStep s₁ s₂) :
    ReadAlike Eq (s₁.name wanted) (s₂.name wanted) := alike_take hs

/-- Punctuation that may be there is there on both sides or on none. -/
theorem alike_eat {p : Punct} {f : Option (Reading s₁.left Unit) → Except ParseError (Reading m α)}
    {g : Option (Reading s₂.left Unit) → Except ParseError (Reading n α)} (hs : InStep s₁ s₂)
    (hsome : ∀ s₁' s₂' h₁ h₂, InStep s₁' s₂' →
      ReadAlike R (f (some ⟨(), s₁', h₁⟩)) (g (some ⟨(), s₂', h₂⟩)))
    (hnone : ReadAlike R (f none) (g none)) : ReadAlike R (s₁.eat p >>= f) (s₂.eat p >>= g) := by
  unfold eat isAt
  rw [hs.lookahead]
  split
  · rw [bind_map_left, bind_map_left]
    exact ReadAlike.bindEq (alike_expect hs) fun _ _ _ h₁ h₂ hs => hsome _ _ h₁ h₂ hs
  · exact hnone

theorem alike_eatWord {w : String}
    {f : Option (Reading s₁.left Unit) → Except ParseError (Reading m α)}
    {g : Option (Reading s₂.left Unit) → Except ParseError (Reading n α)} (hs : InStep s₁ s₂)
    (hsome : ∀ s₁' s₂' h₁ h₂, InStep s₁' s₂' →
      ReadAlike R (f (some ⟨(), s₁', h₁⟩)) (g (some ⟨(), s₂', h₂⟩)))
    (hnone : ReadAlike R (f none) (g none)) :
    ReadAlike R (s₁.eatWord w >>= f) (s₂.eatWord w >>= g) := by
  unfold eatWord isAtWord
  rw [hs.lookahead]
  split
  · rw [bind_map_left, bind_map_left]
    exact ReadAlike.bindEq (alike_expectWord hs) fun _ _ _ h₁ h₂ hs => hsome _ _ h₁ h₂ hs
  · exact hnone

/-- What may be missing is there on both sides or on none. -/
theorem alike_optional {begins : List Lexeme} {S : Option α → Option α → Prop}
    {read : (s : ParseState) → Except ParseError (Reading s.left α)} (hs : InStep s₁ s₂)
    (hread : ReadAlike R (read s₁) (read s₂)) (hsome : ∀ a b, R a b → S (some a) (some b))
    (hnone : S none none) : ReadAlike S (s₁.optional begins read) (s₂.optional begins read) := by
  unfold ParseState.optional
  rw [hs.lookahead]
  split
  · exact ReadAlike.bind hread fun _ _ _ _ _ _ hab hs => ⟨hsome _ _ hab, hs⟩
  · exact ⟨hnone, hs⟩

theorem alike_optionalEq (begins : List Lexeme)
    {read : (s : ParseState) → Except ParseError (Reading s.left α)} (hs : InStep s₁ s₂)
    (hread : ReadAlike Eq (read s₁) (read s₂)) :
    ReadAlike Eq (s₁.optional begins read) (s₂.optional begins read) :=
  alike_optional hs hread (fun _ _ => congrArg some) rfl

theorem alike_optionalVia (begins : List Lexeme) {f : α → β}
    {read : (s : ParseState) → Except ParseError (Reading s.left α)} (hs : InStep s₁ s₂)
    (hread : ReadAlike (Via f) (read s₁) (read s₂)) :
    ReadAlike (Via (Option.map f)) (s₁.optional begins read) (s₂.optional begins read) :=
  alike_optional hs hread (fun _ _ => congrArg some) rfl

theorem alike_afterWord {w : String}
    {read : (s : ParseState) → Except ParseError (Reading s.left α)}
    (hread : ∀ {s₁ s₂}, InStep s₁ s₂ → ReadAlike R (read s₁) (read s₂)) (hs : InStep s₁ s₂) :
    ReadAlike R (afterWord w read s₁) (afterWord w read s₂) :=
  ReadAlike.bindEq (alike_expectWord hs) fun _ _ _ _ _ hs => ReadAlike.below (hread hs)

end

/-! ## What holds no comments -/

section

variable {α : Type} {item : (s : ParseState) → Except ParseError (Reading s.left α)}
  {s₁ s₂ : ParseState}

theorem alike_pathTail {s₁ s₂ : ParseState} (hs : InStep s₁ s₂) :
    ReadAlike Eq (pathTail s₁) (pathTail s₂) := by
  rw [pathTail.eq_def s₁, pathTail.eq_def s₂]
  refine alike_eat hs (fun _ _ _ _ hs => ?_) ⟨rfl, hs⟩
  refine ReadAlike.bindEq (.below (alike_ident hs)) fun segment _ _ _ _ hs => ?_
  exact ReadAlike.bindEq (.upTo (alike_pathTail hs)) fun _ _ _ _ _ hs => ⟨rfl, hs⟩
termination_by s₁.left

theorem alike_path (hs : InStep s₁ s₂) : ReadAlike Eq (Path.read s₁) (Path.read s₂) := by
  refine ReadAlike.bindEq (alike_ident hs) fun _ _ _ _ _ hs => ?_
  exact ReadAlike.bindEq (.upTo (alike_pathTail hs)) fun _ _ _ _ _ hs => ⟨rfl, hs⟩

theorem alike_bracketTail
    (hitem : ∀ {s₁ s₂}, InStep s₁ s₂ → ReadAlike Eq (item s₁) (item s₂)) {s₁ s₂ : ParseState}
    (hs : InStep s₁ s₂) : ReadAlike Eq (bracketTail item s₁) (bracketTail item s₂) := by
  rw [bracketTail.eq_def item s₁, bracketTail.eq_def item s₂]
  refine alike_eat hs (fun _ _ _ _ hs => ⟨rfl, hs⟩) ?_
  refine ReadAlike.bindEq (hitem hs) fun _ _ _ _ _ hs => ?_
  refine alike_eat hs (fun _ _ _ _ hs => ?_) ?_
  · refine ReadAlike.bindEq (.below (alike_bracketTail hitem hs)) fun _ _ _ _ _ hs => ?_
    exact ⟨rfl, hs⟩
  · exact ReadAlike.bindEq (.below (alike_expectFor hs)) fun _ _ _ _ _ hs => ⟨rfl, hs⟩
termination_by s₁.left

theorem alike_oneOrBracketed
    (hitem : ∀ {s₁ s₂}, InStep s₁ s₂ → ReadAlike Eq (item s₁) (item s₂)) (hs : InStep s₁ s₂) :
    ReadAlike Eq (oneOrBracketed item s₁) (oneOrBracketed item s₂) := by
  unfold oneOrBracketed
  refine alike_eat hs (fun _ _ _ _ hs => .below (alike_bracketTail hitem hs)) ?_
  exact .map (Agree.imp (hitem hs) fun _ _ ⟨h, hs⟩ => ⟨congrArg (fun x => [x]) h, hs⟩)

theorem alike_commaSeparated
    (hitem : ∀ {s₁ s₂}, InStep s₁ s₂ → ReadAlike Eq (item s₁) (item s₂)) {s₁ s₂ : ParseState}
    (hs : InStep s₁ s₂) : ReadAlike Eq (commaSeparated item s₁) (commaSeparated item s₂) := by
  rw [commaSeparated.eq_def item s₁, commaSeparated.eq_def item s₂]
  refine ReadAlike.bindEq (hitem hs) fun _ _ _ _ _ hs => ?_
  refine alike_eat hs (fun _ _ _ _ hs => ?_) ⟨rfl, hs⟩
  exact ReadAlike.bindEq (.below (alike_commaSeparated hitem hs)) fun _ _ _ _ _ hs => ⟨rfl, hs⟩
termination_by s₁.left

theorem alike_pathRefs (hs : InStep s₁ s₂) : ReadAlike Eq (pathRefs s₁) (pathRefs s₂) :=
  alike_oneOrBracketed alike_path hs

theorem alike_enumValues (hs : InStep s₁ s₂) : ReadAlike Eq (enumValues s₁) (enumValues s₂) := by
  have hlist : ReadAlike Eq (stringList s₁) (stringList s₂) :=
    .bindEq (alike_expect hs) fun _ _ _ _ _ hs => .below (alike_bracketTail alike_stringLiteral hs)
  refine ReadAlike.bindEq hlist fun values _ _ _ _ hs => ?_
  dsimp only
  split
  · exact Agree.error
  · exact ⟨rfl, hs⟩

/-- Where a reference starts does not matter to how it is read. -/
theorem alike_actionRefTail (start₁ start₂ : Position) (segments : List String)
    {s₁ s₂ : ParseState} (hs : InStep s₁ s₂) :
    ReadAlike Eq (actionRefTail start₁ segments s₁) (actionRefTail start₂ segments s₂) := by
  rw [actionRefTail.eq_def start₁ segments s₁, actionRefTail.eq_def start₂ segments s₂]
  refine alike_eat hs (fun s₁ s₂ _ _ hs => ?_) ?_
  · dsimp only
    rw [hs.lookahead]
    split
    · exact ReadAlike.bindEq (.below (alike_stringLiteral hs)) fun _ _ _ _ _ hs => ⟨rfl, hs⟩
    · refine ReadAlike.bindEq (.below (alike_ident hs)) fun x _ _ _ _ hs => ?_
      have htail := alike_actionRefTail start₁ start₂ (segments ++ [x]) hs
      exact ReadAlike.bindEq (.upTo htail) fun _ _ _ _ _ hs => ⟨rfl, hs⟩
    · exact agree_unexpected hs
  · dsimp only
    split
    · exact ⟨rfl, hs⟩
    · exact Agree.error
termination_by s₁.left

theorem alike_actionRef (hs : InStep s₁ s₂) :
    ReadAlike Eq (ActionRef.read s₁) (ActionRef.read s₂) := by
  unfold ActionRef.read
  rw [hs.lookahead]
  split
  · exact .map (Agree.imp (alike_stringLiteral hs) fun _ _ ⟨h, hs⟩ => ⟨congrArg _ h, hs⟩)
  · refine ReadAlike.bindEq (alike_ident hs) fun x _ _ _ _ hs => ?_
    exact .upTo (alike_actionRefTail _ _ [x] hs)

theorem alike_annotationValue (hs : InStep s₁ s₂) :
    ReadAlike Eq (annotationValue s₁) (annotationValue s₂) := by
  refine ReadAlike.bindEq (alike_expect hs) fun _ _ _ _ _ hs => ?_
  refine ReadAlike.bindEq (.below (alike_stringLiteral hs)) fun _ _ _ _ _ hs => ?_
  exact ReadAlike.bindEq (.below (alike_expect hs)) fun _ _ _ _ _ hs => ⟨rfl, hs⟩

theorem alike_annotationList (keys : List String) {s₁ s₂ : ParseState} (hs : InStep s₁ s₂) :
    ReadAlike Eq (annotationList keys s₁) (annotationList keys s₂) := by
  rw [annotationList.eq_def keys s₁, annotationList.eq_def keys s₂]
  refine alike_eat hs (fun _ _ _ _ hs => ?_) ⟨rfl, hs⟩
  refine ReadAlike.bindEq (.below (alike_ident hs)) fun key _ _ _ _ hs => ?_
  refine ReadAlike.guarded ?_
  have hvalue := alike_optionalEq [.punct .leftParen] hs (alike_annotationValue hs)
  refine ReadAlike.bindEq (.upTo hvalue) fun _ _ _ _ _ hs => ?_
  have htail := alike_annotationList (key :: keys) hs
  exact ReadAlike.bindEq (.upTo htail) fun _ _ _ _ _ hs => ⟨rfl, hs⟩
termination_by s₁.left

theorem alike_presence (hs : InStep s₁ s₂) : ReadAlike Eq (presence s₁) (presence s₂) :=
  .map (Agree.imp (alike_optionalEq _ hs (alike_expect hs)) fun _ _ ⟨h, hs⟩ => ⟨congrArg _ h, hs⟩)

theorem alike_emptyBraces (hs : InStep s₁ s₂) :
    ReadAlike Eq (emptyBraces s₁) (emptyBraces s₂) :=
  .bindEq (alike_expect hs) fun _ _ _ _ _ hs => .below (alike_expectFor hs)

/-- Preambles have the same annotations; their comments may differ. -/
theorem alike_preamble (hs : InStep s₁ s₂) :
    ReadAlike (Via Preamble.annotations) (Preamble.read s₁) (Preamble.read s₂) :=
  .bindEq (alike_annotationList [] hs.takePending) fun _ _ _ _ _ hs => ⟨rfl, hs.takePending⟩

end

/-! ## Types -/

theorem alike_recordEnd {wanted : List Wanted} {s₁ s₂ : ParseState} (hs : InStep s₁ s₂) :
    ReadAlike (Via Record.bare) (recordEnd s₁ wanted) (recordEnd s₂ wanted) :=
  .bindEq (alike_expectFor hs.takePending) fun _ _ _ _ _ hs => ⟨rfl, hs⟩

theorem Record.bare_cons (a : Attribute TypeExpr) (r : Record TypeExpr) :
    Record.bare { r with attributes := a :: r.attributes } =
      { Record.bare r with
        attributes := ⟨a.name, a.type.bare, a.required, a.annotations, {}⟩ ::
          (Record.bare r).attributes } := by
  rw [Record.bare_eq, Record.bare_eq]
  rfl

mutual

theorem alike_type {s₁ s₂ : ParseState} (hs : InStep s₁ s₂) :
    ReadAlike (Via TypeExpr.bare) (TypeExpr.read s₁) (TypeExpr.read s₂) := by
  rw [TypeExpr.read.eq_def s₁, TypeExpr.read.eq_def s₂, hs.lookahead]
  split
  · exact .map (Agree.imp (alike_record hs) fun _ _ ⟨h, hs⟩ => ⟨congrArg TypeExpr.record h, hs⟩)
  · refine ReadAlike.bindEq (alike_path hs) fun p _ _ _ _ hs => ?_
    dsimp only
    split
    · refine alike_eat hs (fun _ _ _ _ hs => ?_) ⟨rfl, hs⟩
      refine ReadAlike.bind (.below (alike_type hs)) fun t u _ _ _ _ htu hs => ?_
      exact ReadAlike.bindEq (.below (alike_expect hs)) fun _ _ _ _ _ hs =>
        ⟨congrArg TypeExpr.set htu, hs⟩
    · exact ⟨rfl, hs⟩
  · exact agree_unexpected hs
termination_by (s₁.left, 1)

theorem alike_record {s₁ s₂ : ParseState} (hs : InStep s₁ s₂) :
    ReadAlike (Via Record.bare) (Record.read s₁) (Record.read s₂) := by
  rw [Record.read.eq_def s₁, Record.read.eq_def s₂]
  exact ReadAlike.bindEq (alike_expect hs) fun _ _ _ _ _ hs => .below (alike_recordTail [] hs)
termination_by (s₁.left, 0)

theorem alike_recordTail (names : List String) {s₁ s₂ : ParseState} (hs : InStep s₁ s₂) :
    ReadAlike (Via Record.bare) (recordTail names s₁) (recordTail names s₂) := by
  rw [recordTail.eq_def names s₁, recordTail.eq_def names s₂]
  unfold isAt
  rw [hs.lookahead]
  split
  · exact alike_recordEnd hs
  refine ReadAlike.bind (alike_preamble hs) fun p q _ _ _ _ hpq hs => ?_
  refine ReadAlike.bindEq (.behind (alike_name hs)) fun name _ _ _ _ hs => ?_
  refine ReadAlike.guarded ?_
  refine ReadAlike.bindEq (.upTo (alike_presence hs)) fun _ _ _ _ _ hs => ?_
  refine ReadAlike.bindEq (.below (alike_expect hs)) fun _ _ _ _ _ hs => ?_
  refine ReadAlike.bind (.below (alike_type hs)) fun t u _ _ h _ htu hs => ?_
  refine alike_eat hs (fun _ _ h' _ hs => ?_) ?_
  · have h := left_trans h' h
    refine ReadAlike.bind (.below (alike_recordTail (name :: names) hs.takeInline))
      fun r r' _ _ _ _ hr hs => ⟨?_, hs⟩
    unfold Via at *
    rw [Record.bare_cons, Record.bare_cons, htu, hpq, hr]
  · refine ReadAlike.bind (.below (alike_recordEnd hs.takeInline))
      fun r r' _ _ _ _ _ hs => ⟨?_, hs⟩
    unfold Via at *
    rw [Record.bare_eq, Record.bare_eq]
    simp only [bareAttributes, htu, hpq]
termination_by (s₁.left, 2)

end

/-! ## Declarations -/

section

variable {s₁ s₂ : ParseState} {p q : Preamble}

theorem alike_declEnd {before before' : List String} {wanted : List Wanted}
    (hs : InStep s₁ s₂) :
    ReadAlike (fun _ _ => True) (declEnd before s₁ wanted) (declEnd before' s₂ wanted) :=
  .bindEq (alike_expectFor hs) fun _ _ _ _ _ hs => ⟨trivial, hs.takeInline⟩

theorem alike_shapeRecord (hs : InStep s₁ s₂) :
    ReadAlike (Via Record.bare) (shapeRecord s₁) (shapeRecord s₂) := by
  unfold shapeRecord
  exact alike_eat hs (fun _ _ _ _ hs => .below (alike_record hs)) (alike_record hs)

theorem alike_entityDecl (hp : Via Preamble.annotations p q) (hs : InStep s₁ s₂) :
    ReadAlike (Via Decl.bare) (entityDecl p s₁) (entityDecl q s₂) := by
  unfold Via at hp
  have hnames := alike_afterWord (w := "entity") (alike_commaSeparated alike_ident) hs
  refine ReadAlike.bindEq hnames fun names _ _ _ _ hs => ?_
  refine alike_eatWord hs (fun _ _ _ _ hs => ?_) ?_
  · refine ReadAlike.bindEq (.below (alike_enumValues hs)) fun values _ _ _ _ hs => ?_
    refine ReadAlike.bind (.below (alike_declEnd hs)) fun _ _ _ _ _ _ _ hs => ⟨?_, hs⟩
    simp only [Via, Decl.bare, hp]
  · have hparents := alike_optionalEq [.ident "in"] hs
      (alike_afterWord (w := "in") alike_pathRefs hs)
    refine ReadAlike.bindEq (.upTo hparents) fun parents _ _ _ _ hs => ?_
    have hshape := alike_optionalVia [.punct .equals, .punct .leftBrace] hs
      (alike_shapeRecord hs)
    refine ReadAlike.bind (.upTo hshape) fun shape shape' _ _ _ _ hshape hs => ?_
    have htags := alike_optionalVia [.ident "tags"] hs
      (alike_afterWord (w := "tags") alike_type hs)
    refine ReadAlike.bind (.upTo htags) fun tags tags' _ _ _ _ htags hs => ?_
    unfold Via at *
    dsimp only
    rw [show shape.isSome = shape'.isSome by rw [← Option.isSome_map, hshape, Option.isSome_map],
      show tags.isSome = tags'.isSome by rw [← Option.isSome_map, htags, Option.isSome_map]]
    refine ReadAlike.bind (.below (alike_declEnd hs)) fun _ _ _ _ _ _ _ hs => ⟨?_, hs⟩
    simp only [Decl.bare, hp, hshape, htags]

/-! ### Actions -/

theorem alike_readMember {a b : AppliesTo} {m : Member} (hab : a.bare = b.bare)
    (hs : InStep s₁ s₂) :
    ReadAlike (Via AppliesTo.bare) (a.readMember m s₁) (b.readMember m s₂) := by
  obtain ⟨hprincipals, hresources, hcontext, -⟩ := AppliesTo.mk.inj hab
  cases m with
  | principal =>
    refine .map (Agree.imp (alike_pathRefs hs) fun x y h => ⟨?_, h.2⟩)
    have hxy := h.1
    simp only [Via, AppliesTo.bare, hxy, hresources, hcontext]
  | resource =>
    refine .map (Agree.imp (alike_pathRefs hs) fun x y h => ⟨?_, h.2⟩)
    have hxy := h.1
    simp only [Via, AppliesTo.bare, hxy, hprincipals, hcontext]
  | context =>
    refine .map (Agree.imp (alike_type hs) fun x y h => ⟨?_, h.2⟩)
    have hxy := h.1
    unfold Via at hxy
    simp only [Via, AppliesTo.bare, Option.map_some, hxy, hprincipals, hresources]

theorem alike_readEnd {a b : AppliesTo} {wanted : List Wanted} (hab : a.bare = b.bare)
    (hs : InStep s₁ s₂) :
    ReadAlike (Via AppliesTo.bare) (a.readEnd s₁ wanted) (b.readEnd s₂ wanted) :=
  .bindEq (alike_expectFor hs.takePending) fun _ _ _ _ _ hs => ⟨hab, hs⟩

theorem alike_readTail {a b : AppliesTo} (hab : a.bare = b.bare) {s₁ s₂ : ParseState}
    (hs : InStep s₁ s₂) : ReadAlike (Via AppliesTo.bare) (a.readTail s₁) (b.readTail s₂) := by
  rw [AppliesTo.readTail.eq_def a s₁, AppliesTo.readTail.eq_def b s₂, hs.lookahead]
  split
  · exact alike_readEnd hab hs
  rename_i m _
  have hhas : a.has m = b.has m := by rw [← has_bare, hab, has_bare]
  rw [hhas]
  refine ReadAlike.guarded ?_
  refine ReadAlike.bindEq (alike_expectWord hs) fun _ _ _ _ _ hs => ?_
  refine ReadAlike.bindEq (.below (alike_expect hs)) fun _ _ _ _ _ hs => ?_
  refine ReadAlike.bind (.below (alike_readMember hab hs)) fun a b _ _ _ _ hab hs => ?_
  refine alike_eat hs (fun _ _ _ _ hs => ?_) (.below (alike_readEnd hab hs))
  exact .below (alike_readTail hab hs)
termination_by s₁.left

theorem alike_appliesTo (hs : InStep s₁ s₂) :
    ReadAlike (Via AppliesTo.bare) (AppliesTo.read s₁) (AppliesTo.read s₂) :=
  .bindEq (alike_expect hs) fun _ _ _ _ _ hs => .below (alike_readTail rfl hs)

theorem alike_actionDecl (hp : Via Preamble.annotations p q) (hs : InStep s₁ s₂) :
    ReadAlike (Via Decl.bare) (actionDecl p s₁) (actionDecl q s₂) := by
  unfold Via at hp
  have hnames : ReadAlike Eq (afterWord "action" (commaSeparated actionName) s₁)
      (afterWord "action" (commaSeparated actionName) s₂) :=
    alike_afterWord (alike_commaSeparated alike_name) hs
  refine ReadAlike.bindEq hnames fun names _ _ _ _ hs => ?_
  have hparents : ReadAlike Eq (actionParents _) (actionParents _) :=
    .map (Agree.imp (alike_optionalEq _ hs
      (alike_afterWord (alike_oneOrBracketed alike_actionRef) hs))
      fun _ _ ⟨h, hs⟩ => ⟨congrArg (Option.getD · []) h, hs⟩)
  refine ReadAlike.bindEq (.upTo hparents) fun parents _ _ _ _ hs => ?_
  have happlies := alike_optionalVia [.ident "appliesTo"] hs
    (alike_afterWord (w := "appliesTo") alike_appliesTo hs)
  refine ReadAlike.bind (.upTo happlies) fun a b _ _ _ _ hab hs => ?_
  have hnothing := alike_optionalEq [.ident "attributes"] hs
    (alike_afterWord (w := "attributes") alike_emptyBraces hs)
  refine ReadAlike.bindEq (.upTo hnothing) fun _ _ _ _ _ hs => ?_
  unfold Via at *
  dsimp only
  rw [show a.isSome = b.isSome by rw [← Option.isSome_map, hab, Option.isSome_map]]
  refine ReadAlike.bind (.below (alike_declEnd hs)) fun _ _ _ _ _ _ _ hs => ⟨?_, hs⟩
  simp only [Decl.bare, hp, hab]

theorem alike_commonTypeDecl (hp : Via Preamble.annotations p q) (hs : InStep s₁ s₂) :
    ReadAlike (Via Decl.bare) (commonTypeDecl p s₁) (commonTypeDecl q s₂) := by
  unfold Via at hp
  refine ReadAlike.bindEq (alike_expectWord hs) fun _ _ _ _ _ hs => ?_
  refine ReadAlike.bindEq (.below (alike_ident hs)) fun name _ _ _ _ hs => ?_
  refine ReadAlike.guarded ?_
  refine ReadAlike.bindEq (.below (alike_expect hs)) fun _ _ _ _ _ hs => ?_
  refine ReadAlike.bind (.below (alike_type hs)) fun t u _ _ _ _ htu hs => ?_
  refine ReadAlike.bind (.below (alike_declEnd hs)) fun _ _ _ _ _ _ _ hs => ⟨?_, hs⟩
  unfold Via at htu
  simp only [Via, Decl.bare, hp, htu]

theorem alike_decl (hp : Via Preamble.annotations p q) (hs : InStep s₁ s₂) :
    ReadAlike (Via Decl.bare) (Decl.read p s₁) (Decl.read q s₂) := by
  unfold Decl.read
  rw [hs.lookahead]
  split
  · exact alike_entityDecl hp hs
  · exact alike_actionDecl hp hs
  · exact alike_commonTypeDecl hp hs
  · exact agree_unexpected hs

/-! ## Blocks and files -/

theorem alike_blockTail {s₁ s₂ : ParseState} (hs : InStep s₁ s₂) :
    ReadAlike (Via fun x => x.1.map Decl.bare) (blockTail s₁) (blockTail s₂) := by
  rw [blockTail.eq_def s₁, blockTail.eq_def s₂, hs.lookahead]
  split
  · exact ReadAlike.bindEq (alike_expect hs.takePending) fun _ _ _ _ _ hs => ⟨rfl, hs⟩
  · exact agree_unexpected hs
  · refine ReadAlike.bind (alike_preamble hs) fun p q _ _ _ _ hpq hs => ?_
    refine ReadAlike.bind (.behind (alike_decl hpq hs)) fun d e _ _ _ _ hde hs => ?_
    refine ReadAlike.bind (.below (alike_blockTail hs)) fun x y _ _ _ _ hxy hs => ⟨?_, hs⟩
    unfold Via at *
    simp only [List.map_cons, hde, hxy]
termination_by s₁.left

theorem alike_namespaceBlock (hp : Via Preamble.annotations p q) (hs : InStep s₁ s₂) :
    ReadAlike (Via NamespaceBlock.bare) (NamespaceBlock.read p s₁) (NamespaceBlock.read q s₂) := by
  unfold Via at hp
  have hpath := alike_afterWord (w := "namespace") alike_path hs
  refine ReadAlike.bindEq hpath fun path _ _ _ _ hs => ?_
  refine ReadAlike.bindEq (.below (alike_expect hs)) fun _ _ _ _ _ hs => ?_
  refine ReadAlike.bind (.below (alike_blockTail hs)) fun x y _ _ _ _ hxy hs => ?_
  refine ⟨?_, hs.takeInline⟩
  unfold Via at hxy
  simp only [Via, NamespaceBlock.bare, hp, hxy]

theorem via_items {i j : Item} {f g : Schema} (hij : i.bare = j.bare) (hfg : Via Schema.bare f g) :
    Via Schema.bare { f with items := i :: f.items } { g with items := j :: g.items } := by
  have hitems : f.items.map Item.bare = g.items.map Item.bare := congrArg Schema.items hfg
  simp only [Via, Schema.bare, List.map_cons, hij, hitems]

/-- Files of the same words have the same items, comments aside. -/
theorem agree_fileItems {s₁ s₂ : ParseState} (hs : InStep s₁ s₂) :
    Agree (Via Schema.bare) (fileItems s₁) (fileItems s₂) := by
  rw [fileItems.eq_def s₁, fileItems.eq_def s₂, hs.lookahead]
  split
  · exact (rfl : _ = _)
  refine ReadAlike.bindAgree (alike_preamble hs) fun p q s₁ s₂ _ _ hpq hs => ?_
  dsimp only
  rw [hs.lookahead]
  split
  · refine ReadAlike.bindAgree (.behind (alike_namespaceBlock hpq hs)) fun b c _ _ _ _ hbc hs => ?_
    exact Agree.bind (agree_fileItems hs) fun f g hfg => via_items (congrArg Item.block hbc) hfg
  · exact agree_unexpected hs
  · refine ReadAlike.bindAgree (.behind (alike_decl hpq hs)) fun d e _ _ _ _ hde hs => ?_
    exact Agree.bind (agree_fileItems hs) fun f g hfg => via_items (congrArg Item.decl hde) hfg
termination_by s₁.left

end

end CedarSchema
