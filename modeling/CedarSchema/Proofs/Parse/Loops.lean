import CedarSchema.Parse.Decl
import CedarSchema.Proofs.Token.Progress

/-
  The loops of reading a schema, turn by turn. A turn fails, or it ends the loop, or the loop goes
  on from the state that the turn leaves. If it goes on, the turn has read at least one token, and
  so has a turn that ends the loop, unless the loop is over before it begins. A loop that may take
  one turn more than there are tokens ahead therefore comes to its end, with the result of the
  function that it is in the schema reader (`Repeats`). Each turn below is the body of one loop;
  those of bracketed and of comma-separated lists serve for every kind of item.
-/

namespace CedarSchema

/-! ## Turns -/

/-- What one turn of a loop comes to. The states are those the turn leaves; `memory` is what later
turns know of those before them. -/
inductive Turn (S κ α : Type)
  | stop (state : S) (result : α)
  /-- The loop goes on, and `finish` adds this turn to what the rest of the loop results in. -/
  | again (state : S) (memory : κ) (finish : α → α)

section

variable {S κ α : Type}

/-- The turn leaves fewer tokens ahead than the state `s₀`, or it is no turn: the loop is over in
that state. -/
def Turn.Advances (ahead : S → Nat) (s₀ : S) : Turn S κ α → Prop
  | stop s _ => s = s₀ ∨ ahead s < ahead s₀
  | again s _ _ => ahead s < ahead s₀

/-- Repeats a turn until the loop is over, at most so many times. -/
def repeatWithin (turn : κ → S → Except ParseError (Turn S κ α)) :
    Nat → κ → S → Option (Except ParseError α)
  | 0, _, _ => none
  | n + 1, memory, s =>
    match turn memory s with
    | .error e => some (.error e)
    | .ok (.stop _ result) => some (.ok result)
    | .ok (.again s memory finish) => (finish <$> ·) <$> repeatWithin turn n memory s

/-- The reading is a loop: it repeats the turn, each turn advances, and more turns than there are
tokens ahead are enough. -/
structure Repeats (ahead : S → Nat) (turn : κ → S → Except ParseError (Turn S κ α))
    (reading : κ → S → Except ParseError α) : Prop where
  advances : ∀ memory s t, turn memory s = .ok t → t.Advances ahead s
  ends : ∀ memory s n, ahead s < n → repeatWithin turn n memory s = some (reading memory s)

/-- What the loop results in that has come to this turn. -/
def Turn.result (reading : κ → S → Except ParseError α) : Turn S κ α → Except ParseError α
  | stop _ result => .ok result
  | again s memory finish => finish <$> reading memory s

/-- The turn `t`, begun in the state `s₀`, advances, and behind it the loop results in `r`. -/
structure OneTurn (ahead : S → Nat) (s₀ : S) (reading : κ → S → Except ParseError α)
    (r : Except ParseError α) (t : Except ParseError (Turn S κ α)) : Prop where
  advances : ∀ turn, t = .ok turn → turn.Advances ahead s₀
  unrolls : r = t >>= Turn.result reading

theorem repeats_of_oneTurn {ahead : S → Nat} {turn : κ → S → Except ParseError (Turn S κ α)}
    {reading : κ → S → Except ParseError α}
    (h : ∀ memory s, OneTurn ahead s reading (reading memory s) (turn memory s)) :
    Repeats ahead turn reading := by
  refine ⟨fun memory s => (h memory s).advances, fun memory s n hn => ?_⟩
  induction n generalizing memory s with
  | zero => exact absurd hn (Nat.not_lt_zero _)
  | succ n ih =>
    have hturn := h memory s
    rw [repeatWithin, hturn.unrolls]
    cases ht : turn memory s with
    | error e => rfl
    | ok t =>
      cases t with
      | stop s' result => rfl
      | again s' memory' finish =>
        have hlt : ahead s' < ahead s := hturn.advances _ ht
        dsimp only
        rw [ih memory' s' (by omega)]
        rfl

namespace OneTurn

variable {ahead : S → Nat} {s₀ s : S} {reading : κ → S → Except ParseError α} {β γ δ : Type}
  {p : β → α}

theorem error {e : ParseError} :
    OneTurn ahead s₀ reading (p <$> .error e) (.error e : Except ParseError (Turn S κ α)) :=
  ⟨nofun, rfl⟩

theorem stop {b : β} (h : s = s₀ ∨ ahead s < ahead s₀) :
    OneTurn ahead s₀ reading (p <$> .ok b) (.ok (.stop s (p b)) : Except ParseError (Turn S κ α)) :=
  ⟨fun _ ht => by cases ht; exact h, rfl⟩

theorem again {r : Except ParseError α} {memory : κ} {finish : α → α} (h : ahead s < ahead s₀)
    (hr : r = finish <$> reading memory s) :
    OneTurn ahead s₀ reading r (.ok (.again s memory finish)) :=
  ⟨fun _ ht => by cases ht; exact h, hr⟩

/-- The loop goes on to `x`, and what is made of that there is what the turn makes of it. -/
theorem againMap {x : Except ParseError γ} {q : γ → δ} {f : δ → Except ParseError β} {q' : γ → α}
    {memory : κ} {finish : α → α} (h : ahead s < ahead s₀) (hx : reading memory s = q' <$> x)
    (hf : ∀ c, p <$> f (q c) = .ok (finish (q' c))) :
    OneTurn ahead s₀ reading (p <$> (q <$> x >>= f)) (.ok (.again s memory finish)) := by
  refine .again h ?_
  rw [hx]
  cases x with
  | error e => rfl
  | ok c => exact hf c

theorem bind {x : Except ParseError γ} {f : γ → Except ParseError β}
    {g : γ → Except ParseError (Turn S κ α)}
    (h : ∀ c, OneTurn ahead s₀ reading (p <$> f c) (g c)) :
    OneTurn ahead s₀ reading (p <$> (x >>= f)) (x >>= g) := by
  cases x with
  | error e => exact .error
  | ok c => exact h c

theorem bindMap {q : γ → δ} {x : Except ParseError γ} {f : δ → Except ParseError β}
    {g : γ → Except ParseError (Turn S κ α)}
    (h : ∀ c, OneTurn ahead s₀ reading (p <$> f (q c)) (g c)) :
    OneTurn ahead s₀ reading (p <$> (q <$> x >>= f)) (x >>= g) := by
  cases x with
  | error e => exact .error
  | ok c => exact h c

theorem map {x : Except ParseError β} {g : β → Except ParseError (Turn S κ α)}
    (h : ∀ b, OneTurn ahead s₀ reading (p <$> .ok b) (g b)) :
    OneTurn ahead s₀ reading (p <$> x) (x >>= g) := by
  cases x with
  | error e => exact .error
  | ok b => exact h b

theorem mapMap {q : γ → β} {x : Except ParseError γ} {g : γ → Except ParseError (Turn S κ α)}
    (h : ∀ c, OneTurn ahead s₀ reading (p <$> .ok (q c)) (g c)) :
    OneTurn ahead s₀ reading (p <$> (q <$> x)) (x >>= g) := by
  cases x with
  | error e => exact .error
  | ok c => exact h c

end OneTurn

end

/-- What is read and the state behind it. -/
def Reading.pair {bound : Nat} {α : Type} (r : Reading bound α) : α × ParseState :=
  (r.value, r.state)

open ParseState

/-! ## Comments between tokens -/

def commentTurn (last : Position) (pending : List Remark) :
    TokenStream → Except ParseError (Turn TokenStream (List Remark) ParseState)
  | .eof pos => return .stop (.eof pos) ⟨.eof pos, pending, last⟩
  | .failed pos e => throw ⟨pos, .lexical e⟩
  | .token t rest =>
    match t.lexeme with
    | .comment text => return .again rest (pending ++ [⟨text, t.start⟩]) id
    | _ => return .stop rest ⟨.token t rest, pending, last⟩

theorem repeats_enter (last : Position) : Repeats TokenStream.length (commentTurn last)
    fun pending stream => Reading.state <$> enter pending last stream := by
  refine repeats_of_oneTurn fun pending stream => ?_
  cases stream with
  | eof pos => exact .stop (.inl rfl)
  | failed pos e => exact .error
  | token t rest =>
    have hrest : rest.length < (TokenStream.token t rest).length := Nat.lt_succ_self _
    obtain ⟨l, start, stop⟩ := t
    rw [enter, commentTurn]
    cases l with
    | comment text =>
      refine .again hrest ?_
      dsimp only
      cases enter (pending ++ [⟨text, start⟩]) last rest <;> rfl
    | _ => exact .stop (.inr hrest)

/-! ## Paths and lists -/

def pathTurn (s₀ : ParseState) :
    Except ParseError (Turn ParseState Unit (List String × ParseState)) := do
  match ← s₀.eat .doubleColon with
  | none => return .stop s₀ ([], s₀)
  | some ⟨_, s, _⟩ =>
    let ⟨segment, s, _⟩ ← s.ident
    return .again s () fun (segments, s) => (segment :: segments, s)

theorem repeats_pathTail :
    Repeats left (fun _ => pathTurn) fun (_ : Unit) s => Reading.pair <$> pathTail s := by
  refine repeats_of_oneTurn fun _ s₀ => ?_
  rw [pathTail, pathTurn]
  refine .bind fun r => ?_
  cases r with
  | none => exact .stop (.inl rfl)
  | some r =>
    obtain ⟨_, s, h⟩ := r
    exact .bindMap fun ⟨segment, s, h'⟩ => .againMap (left_trans h' h) rfl fun _ => rfl

section

variable {α : Type} (item : (s : ParseState) → Except ParseError (Reading s.left α))

def bracketTurn (s₀ : ParseState) :
    Except ParseError (Turn ParseState Unit (List α × ParseState)) := do
  match ← s₀.eat .rightBracket with
  | some r => return .stop r.state ([], r.state)
  | none =>
    let ⟨x, s, _⟩ ← item s₀
    match ← s.eat .comma with
    | some ⟨_, s, _⟩ => return .again s () fun (xs, s) => (x :: xs, s)
    | none =>
      let ⟨_, s, _⟩ ← s.expectFor [.punct .comma, .punct .rightBracket] .rightBracket
      return .stop s ([x], s)

theorem repeats_bracketTail : Repeats left (fun _ => bracketTurn item)
    fun (_ : Unit) s => Reading.pair <$> bracketTail item s := by
  refine repeats_of_oneTurn fun _ s₀ => ?_
  rw [bracketTail, bracketTurn]
  refine .bind fun r => ?_
  cases r with
  | some r => exact .stop (.inr r.left_lt)
  | none =>
    refine .bind fun ⟨x, s, h⟩ => .bind fun r => ?_
    cases r with
    | some r =>
      obtain ⟨_, s, h'⟩ := r
      exact .againMap (left_trans h' h) rfl fun _ => rfl
    | none => exact .bindMap fun ⟨_, s, h'⟩ => .stop (.inr (left_trans h' h))

def commaTurn (s₀ : ParseState) :
    Except ParseError (Turn ParseState Unit (List α × ParseState)) := do
  let ⟨x, s, _⟩ ← item s₀
  match ← s.eat .comma with
  | some ⟨_, s, _⟩ => return .again s () fun (xs, s) => (x :: xs, s)
  | none => return .stop s ([x], s)

theorem repeats_commaSeparated : Repeats left (fun _ => commaTurn item)
    fun (_ : Unit) s => Reading.pair <$> commaSeparated item s := by
  refine repeats_of_oneTurn fun _ s₀ => ?_
  rw [commaSeparated, commaTurn]
  refine .bind fun ⟨x, s, h⟩ => .bind fun r => ?_
  cases r with
  | some r =>
    obtain ⟨_, s, h'⟩ := r
    exact .againMap (left_trans h' h) rfl fun _ => rfl
  | none => exact .stop (.inr h)

end

/-! ## References to actions and annotations -/

def actionRefTurn (start : Position) (segments : List String) (s₀ : ParseState) :
    Except ParseError (Turn ParseState (List String) (ActionRef × ParseState)) := do
  match ← s₀.eat .doubleColon with
  | some ⟨_, s, _⟩ =>
    match s.lookahead with
    | .str _ =>
      let ⟨id, s, _⟩ ← s.stringLiteral
      return .stop s (⟨some ⟨segments⟩, id⟩, s)
    | .ident _ =>
      let ⟨segment, s, _⟩ ← s.ident
      return .again s (segments ++ [segment]) id
    | _ => throw (s.unexpected [.identifier, .stringLiteral])
  | none =>
    match segments with
    | [id] => return .stop s₀ (⟨none, id⟩, s₀)
    | _ => throw ⟨start, .grammatical (.missingActionId ⟨segments⟩)⟩

theorem repeats_actionRefTail (start : Position) : Repeats left (actionRefTurn start)
    fun segments s => Reading.pair <$> actionRefTail start segments s := by
  refine repeats_of_oneTurn fun segments s₀ => ?_
  rw [actionRefTail.eq_def]
  unfold actionRefTurn
  refine .bind fun r => ?_
  cases r with
  | some r =>
    obtain ⟨_, s, h⟩ := r
    dsimp only
    cases s.lookahead with
    | str value => exact .bindMap fun ⟨id, s, h'⟩ => .stop (.inr (left_trans h' h))
    | ident name =>
      exact .bindMap fun ⟨segment, s, h'⟩ => .againMap (left_trans h' h) rfl fun _ => rfl
    | _ => exact .error
  | none =>
    -- Only a single segment can stand for an id.
    match segments with
    | [id] => exact .stop (.inl rfl)
    | [] => exact .error
    | _ :: _ :: _ => exact .error

def annotationTurn (keys : List String) (s₀ : ParseState) :
    Except ParseError (Turn ParseState (List String) (List Annotation × ParseState)) := do
  match ← s₀.eat .atSign with
  | none => return .stop s₀ ([], s₀)
  | some ⟨_, s, _⟩ =>
    let start := s.here
    let ⟨key, s, _⟩ ← s.ident
    if keys.contains key then throw ⟨start, .grammatical (.duplicateAnnotationKey key)⟩
    let ⟨value, s, _⟩ ← s.optional [.punct .leftParen] annotationValue
    return .again s (key :: keys) fun (rest, s) => (⟨key, value⟩ :: rest, s)

theorem repeats_annotationList : Repeats left annotationTurn
    fun keys s => Reading.pair <$> annotationList keys s := by
  refine repeats_of_oneTurn fun keys s₀ => ?_
  rw [annotationList, annotationTurn]
  refine .bind fun r => ?_
  cases r with
  | none => exact .stop (.inl rfl)
  | some r =>
    obtain ⟨_, s, h⟩ := r
    refine .bindMap fun ⟨key, s, h'⟩ => ?_
    dsimp only [Reading.below]
    split
    · exact .error
    · have h := left_trans h' h
      exact .bindMap fun r => .againMap (Reading.upTo h r).left_lt rfl fun _ => rfl

/-! ## Records and clauses -/

def recordTurn (names : List String) (s₀ : ParseState) :
    Except ParseError (Turn ParseState (List String) (Record TypeExpr × ParseState)) := do
  if s₀.isAt .rightBrace then
    let ⟨r, s, _⟩ ← recordEnd s₀ [.punct .rightBrace]
    return .stop s (r, s)
  else
    let ⟨preamble, s, _⟩ ← Preamble.read s₀
    let start := s.here
    let ⟨name, s, _⟩ ← s.name [.attributeName, .punct .rightBrace]
    if names.contains name then throw ⟨start, .grammatical (.duplicateAttribute name)⟩
    let ⟨required, s, _⟩ ← presence s
    let ⟨_, s, _⟩ ← s.expect .colon
    let ⟨type, s, _⟩ ← TypeExpr.read s
    match ← s.eat .comma with
    | some ⟨_, s, _⟩ =>
      let a := ⟨name, type, required, preamble.annotations, nodeComments preamble.before s⟩
      return .again s.takeInline (name :: names)
        fun (r, s) => ({ r with attributes := a :: r.attributes }, s)
    | none =>
      let a := ⟨name, type, required, preamble.annotations, nodeComments preamble.before s⟩
      let ⟨r, s, _⟩ ← recordEnd s.takeInline [.punct .comma, .punct .rightBrace]
      return .stop s ({ r with attributes := [a] }, s)

theorem repeats_recordTail : Repeats left recordTurn
    fun names s => Reading.pair <$> recordTail names s := by
  refine repeats_of_oneTurn fun names s₀ => ?_
  rw [recordTail, recordTurn]
  split
  · exact .map fun r => .stop (.inr r.left_lt)
  · refine .bind fun preamble => .bindMap fun name => ?_
    have h := (Reading.behind preamble.left_lt name).left_lt
    dsimp only [Reading.behind] at h ⊢
    split
    · exact .error
    · refine .bindMap fun required => .bindMap fun colon => .bindMap fun type => ?_
      have h := left_trans type.left_lt (left_trans colon.left_lt (Reading.upTo h required).left_lt)
      refine .bind fun comma => ?_
      cases comma with
      | some comma => exact .againMap (left_trans comma.left_lt h) rfl fun _ => rfl
      | none => exact .bindMap fun r => .stop (.inr (left_trans r.left_lt h))

def appliesToTurn (a : AppliesTo) (s₀ : ParseState) :
    Except ParseError (Turn ParseState AppliesTo (AppliesTo × ParseState)) := do
  match Member.ofLexeme s₀.lookahead with
  | none =>
    let ⟨a, s, _⟩ ← a.readEnd s₀
      [.word "principal", .word "resource", .word "context", .punct .rightBrace]
    return .stop s (a, s)
  | some m =>
    if a.has m then throw ⟨s₀.here, .grammatical (.duplicateMember m.word)⟩
    let ⟨_, s, _⟩ ← s₀.expectWord m.word
    let ⟨_, s, _⟩ ← s.expect .colon
    let ⟨a, s, _⟩ ← a.readMember m s
    match ← s.eat .comma with
    | some ⟨_, s, _⟩ => return .again s a id
    | none =>
      let ⟨a, s, _⟩ ← a.readEnd s [.punct .comma, .punct .rightBrace]
      return .stop s (a, s)

theorem repeats_readTail : Repeats left appliesToTurn
    fun a s => Reading.pair <$> a.readTail s := by
  refine repeats_of_oneTurn fun a s₀ => ?_
  rw [AppliesTo.readTail, appliesToTurn]
  cases Member.ofLexeme s₀.lookahead with
  | none => exact .map fun r => .stop (.inr r.left_lt)
  | some m =>
    dsimp only
    split
    · exact .error
    · refine .bind fun ⟨_, s, h⟩ => .bindMap fun ⟨_, s, h'⟩ => .bindMap fun ⟨a, s, h''⟩ => ?_
      have h := left_trans h'' (left_trans h' h)
      refine .bind fun r => ?_
      cases r with
      | some r =>
        obtain ⟨_, s, h'⟩ := r
        refine .again (left_trans h' h) ?_
        dsimp only [Reading.below]
        cases a.readTail s <;> rfl
      | none => exact .mapMap fun ⟨a, s, h'⟩ => .stop (.inr (left_trans h' h))

/-! ## Blocks and files -/

def blockTurn (s₀ : ParseState) :
    Except ParseError (Turn ParseState Unit ((List Decl × List String) × ParseState)) := do
  if s₀.lookahead = .punct .rightBrace then
    let ⟨_, s, _⟩ ← s₀.takePending.expect .rightBrace
    return .stop s (([], s₀.pendingTexts), s)
  else if s₀.lookahead = .eof then
    throw (s₀.unexpected [.declarationOrEnd])
  else
    let ⟨p, s, _⟩ ← Preamble.read s₀
    let ⟨d, s, _⟩ ← Decl.read p s
    return .again s () fun ((ds, remaining), s) => ((d :: ds, remaining), s)

theorem repeats_blockTail :
    Repeats left (fun _ => blockTurn) fun (_ : Unit) s => Reading.pair <$> blockTail s := by
  refine repeats_of_oneTurn fun _ s₀ => ?_
  rw [blockTail.eq_def]
  unfold blockTurn
  split
  · rename_i hl
    rw [if_pos hl]
    exact .bind fun r => .stop (.inr r.left_lt)
  · rename_i hl
    rw [if_neg (by simp [hl]), if_pos hl]
    exact .error
  · rename_i hbrace heof
    rw [if_neg hbrace, if_neg heof]
    refine .bind fun p => .bindMap fun d => ?_
    exact .againMap (Reading.behind p.left_lt d).left_lt rfl fun _ => rfl

def fileTurn (s₀ : ParseState) : Except ParseError (Turn ParseState Unit Schema) := do
  if s₀.lookahead = .eof then
    return .stop s₀ ⟨[], s₀.pendingTexts⟩
  else
    let ⟨p, s, _⟩ ← Preamble.read s₀
    if s.lookahead = .ident "namespace" then
      let ⟨b, s, _⟩ ← NamespaceBlock.read p s
      return .again s () fun file => { file with items := .block b :: file.items }
    else if s.lookahead = .eof then
      throw (s.unexpected [.word "namespace", .word "entity", .word "action", .word "type"])
    else
      let ⟨d, s, _⟩ ← Decl.read p s
      return .again s () fun file => { file with items := .decl d :: file.items }

theorem repeats_fileItems : Repeats left (fun _ => fileTurn) fun (_ : Unit) s => fileItems s := by
  refine repeats_of_oneTurn fun _ s₀ => ?_
  rw [← id_map (fileItems s₀), fileItems.eq_def]
  unfold fileTurn
  split
  · rename_i hl
    rw [if_pos hl]
    exact .stop (.inl rfl)
  · rename_i heof
    rw [if_neg heof]
    refine .bind fun p => ?_
    dsimp only
    split
    · rename_i hl
      rw [if_pos hl]
      refine .bindMap fun b => .again (Reading.behind p.left_lt b).left_lt ?_
      dsimp only [Reading.behind]
      cases fileItems b.state <;> rfl
    · rename_i hl
      rw [if_neg (by simp [hl]), if_pos hl]
      exact .error
    · rename_i hnamespace heof
      rw [if_neg hnamespace, if_neg heof]
      refine .bindMap fun d => .again (Reading.behind p.left_lt d).left_lt ?_
      dsimp only [Reading.behind]
      cases fileItems d.state <;> rfl

/-! ## All of reading -/

/-- Every loop of reading a schema repeats turns that advance. -/
structure LoopsAdvance : Prop where
  comments (last : Position) : Repeats TokenStream.length (commentTurn last)
    fun pending stream => Reading.state <$> enter pending last stream
  path : Repeats left (fun _ => pathTurn) fun (_ : Unit) s => Reading.pair <$> pathTail s
  bracketed {α : Type} (item : (s : ParseState) → Except ParseError (Reading s.left α)) :
    Repeats left (fun _ => bracketTurn item)
      fun (_ : Unit) s => Reading.pair <$> bracketTail item s
  commaSeparated {α : Type} (item : (s : ParseState) → Except ParseError (Reading s.left α)) :
    Repeats left (fun _ => commaTurn item)
      fun (_ : Unit) s => Reading.pair <$> commaSeparated item s
  actionRef (start : Position) : Repeats left (actionRefTurn start)
    fun segments s => Reading.pair <$> actionRefTail start segments s
  annotations : Repeats left annotationTurn fun keys s => Reading.pair <$> annotationList keys s
  record : Repeats left recordTurn fun names s => Reading.pair <$> recordTail names s
  appliesTo : Repeats left appliesToTurn fun a s => Reading.pair <$> a.readTail s
  block : Repeats left (fun _ => blockTurn) fun (_ : Unit) s => Reading.pair <$> blockTail s
  file : Repeats left (fun _ => fileTurn) fun (_ : Unit) s => fileItems s

theorem loopsAdvance : LoopsAdvance where
  comments := repeats_enter
  path := repeats_pathTail
  bracketed := repeats_bracketTail
  commaSeparated := repeats_commaSeparated
  actionRef := repeats_actionRefTail
  annotations := repeats_annotationList
  record := repeats_recordTail
  appliesTo := repeats_readTail
  block := repeats_blockTail
  file := repeats_fileItems

/-- A file is read from the first state in as many turns as there are tokens, and one more. -/
theorem ofTokens_eq_of_start {stream : TokenStream} {s : ParseState} (h : start stream = .ok s) :
    s.left ≤ stream.length ∧ repeatWithin (fun _ => fileTurn) (stream.length + 1) () s =
      some (Schema.ofTokens stream) := by
  have hleft : s.left ≤ stream.length := by
    unfold start at h
    cases hr : enter [] ⟨0, 0, 0⟩ stream with
    | error e =>
      rw [hr] at h
      cases h
    | ok r =>
      rw [hr] at h
      cases h
      exact Nat.le_of_lt_succ r.left_lt
  refine ⟨hleft, ?_⟩
  rw [Schema.ofTokens, h]
  exact repeats_fileItems.ends () s _ (Nat.lt_succ_of_le hleft)

/-- Calls for tokens go forward through a text; no more calls than one for each character and one
for the end give all the tokens that the text is read from; and every loop of reading takes a token
off these at each turn, or fails. -/
theorem reading_progresses (text : String) :
    LexesForward text ∧ LoopsAdvance ∧
      ∃ stream, TokenStream.withinCalls (text.length + 1) (.ofText text) = some stream ∧
        stream.length ≤ text.length ∧ tokenize text = stream.toExcept ∧
        Schema.parse text = Schema.ofTokens stream ∧
        ∀ s, start stream = .ok s → s.left ≤ stream.length ∧
          repeatWithin (fun _ => fileTurn) (stream.length + 1) () s = some (Schema.parse text) := by
  have hcalls := TokenStream.withinCalls_ofText text
  refine ⟨lexesForward text, loopsAdvance, _, hcalls, ?_, rfl, rfl, fun _ => ofTokens_eq_of_start⟩
  exact Nat.le_of_lt_succ (TokenStream.length_lt_of_withinCalls hcalls)

end CedarSchema
