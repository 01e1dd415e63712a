import Reckoner.Proofs.Expression.Reader

/-!
# What the outcome of a reader tells about the text

A value comes with the phrase that was read. A fault of the grammar comes with the text in front of it, which
some text completes to a phrase; which text, depends on the fault. A failure of the arithmetic comes with the
operation that has no value and with its text.
-/

namespace Reckoner.Expression

set_option autoImplicit false

/-! ## Derivable texts -/

/-- The text is derivable at the level, whatever its nesting. -/
def Derivable (l : Level) (text : List Char) : Prop :=
  ∃ p : Phrase Empty l, p.text = text

/-- Behind the front, the middle and some closing parentheses complete a phrase. -/
def Completable (l : Level) (front middle : List Char) : Prop :=
  ∃ closers : Nat, Derivable l (front ++ middle ++ List.replicate closers ')')

/-- A phrase of the inner level continues the front to a phrase of the outer level, up to closing parentheses. -/
def Leads (front : List Char) (inner outer : Level) : Prop :=
  ∃ closers : Nat, ∀ text : List Char, Derivable inner text →
    Derivable outer (front ++ text ++ List.replicate closers ')')

theorem Derivable.completable {l : Level} {text : List Char} (h : Derivable l text) : Completable l [] text :=
  ⟨0, by simpa using h⟩

theorem Completable.lift {inner outer : Level} {front front' middle : List Char}
    (h : Completable inner front middle) (hl : Leads front' inner outer) : Completable outer (front' ++ front) middle := by
  obtain ⟨closers, hd⟩ := h
  obtain ⟨closers', hl⟩ := hl
  refine ⟨closers + closers', ?_⟩
  have h := hl _ hd
  rw [← List.replicate_append_replicate]
  simpa only [List.append_assoc] using h

theorem Leads.refl (l : Level) : Leads [] l l :=
  ⟨0, fun text h => by simpa using h⟩

theorem Leads.trans {inner middle outer : Level} {front front' : List Char} (h : Leads front' inner middle)
    (hl : Leads front middle outer) : Leads (front ++ front') inner outer := by
  obtain ⟨closers, h⟩ := h
  obtain ⟨closers', hl⟩ := hl
  refine ⟨closers + closers', fun text hd => ?_⟩
  have hd' := hl _ (h text hd)
  rw [← List.replicate_append_replicate]
  simpa only [List.append_assoc] using hd'

theorem leads_of_phrase {inner outer : Level} {front : List Char}
    (h : ∀ p : Phrase Empty inner, Derivable outer (front ++ p.text)) : Leads front inner outer := by
  refine ⟨0, ?_⟩
  rintro text ⟨p, rfl⟩
  simpa using h p

/-! ## Open parentheses -/

/-- The parentheses that are open behind a text, when so many are open in front of it. -/
def depthAfter : Nat → List Char → Nat
  | depth, [] => depth
  | depth, c :: rest =>
    depthAfter (if c = '(' then depth + 1 else if c = ')' then depth - 1 else depth) rest

theorem depthAfter_append (depth : Nat) (front back : List Char) :
    depthAfter depth (front ++ back) = depthAfter (depthAfter depth front) back := by
  induction front generalizing depth with
  | nil => rfl
  | cons c front ih => exact ih _

theorem depthAfter_plain {text : List Char} (h : ∀ c ∈ text, c ≠ '(' ∧ c ≠ ')') (depth : Nat) :
    depthAfter depth text = depth := by
  induction text with
  | nil => rfl
  | cons c text ih =>
    obtain ⟨hopen, hclose⟩ := h c (by simp)
    rw [depthAfter, if_neg hopen, if_neg hclose]
    exact ih (fun d hd => h d (by simp [hd]))

theorem Spelling.ne_paren {f : Function} (name : Spelling f) : ∀ c ∈ name.text, c ≠ '(' ∧ c ≠ ')' := by
  have hname : ∀ g : Function, ∀ c ∈ g.name.toList, c ≠ '(' ∧ c ≠ ')' := by
    intro g
    cases g <;> simp [Function.name]
  intro c hc
  obtain ⟨hopen, hclose⟩ := hname f _ (name.toLower_mem hc)
  constructor
  · rintro rfl
    exact hopen rfl
  · rintro rfl
    exact hclose rfl

theorem Numeral.ne_paren (n : Numeral) : ∀ c ∈ n.text, c ≠ '(' ∧ c ≠ ')' := by
  intro c hc
  have hnumeral := n.all_numeral c hc
  constructor <;> rintro rfl <;> contradiction

theorem Operator.depthAfter_symbol (op : Operator) (depth : Nat) (rest : List Char) :
    depthAfter depth (op.symbol :: rest) = depthAfter depth rest := by
  cases op <;> rfl

theorem Phrase.depthAfter_text {V : Type} : {l : Level} → (p : Phrase V l) → (depth : Nat) →
    depthAfter depth p.text = depth
  | _, .single operand, depth => operand.depthAfter_text depth
  | _, .extend left op _ right, depth => by
    rw [text, depthAfter_append, left.depthAfter_text, op.depthAfter_symbol, right.depthAfter_text]
  | _, .base b, depth => b.depthAfter_text depth
  | _, .raise b exponent, depth => by
    rw [text, depthAfter_append, b.depthAfter_text]
    exact exponent.depthAfter_text depth
  | _, .bare operand, depth => operand.depthAfter_text depth
  | _, .plus operand, depth => operand.depthAfter_text depth
  | _, .minus operand, depth => operand.depthAfter_text depth
  | _, .group inner, depth => by
    change depthAfter (depth + 1) (inner.text ++ [')']) = depth
    rw [depthAfter_append, inner.depthAfter_text]
    rfl
  | _, .call _ name argument, depth => by
    rw [text, List.append_assoc, depthAfter_append, depthAfter_plain name.ne_paren]
    change depthAfter (depth + 1) (argument.text ++ [')']) = depth
    rw [depthAfter_append, argument.depthAfter_text]
    rfl
  | _, .constant c, depth => by cases c <;> rfl
  | _, .number n, depth => depthAfter_plain n.ne_paren depth
  | _, .unknown _, _ => rfl

/-! ## Faults of the grammar -/

/-- What completes the text in front of a fault to a phrase, and what is known of the text itself. -/
def Fault.Viable (l : Level) (depth : Nat) (front back : List Char) : Fault → Prop
  | .unexpected _ => False
  | .unclosedGroup => Completable l front []
  | .unclosedCall _ => Completable l front []
  | .unopenedCall f => (∃ name : Spelling f, name.text <:+ front) ∧ Completable l front ['(', '1', ')']
  | .missingNumber => ∀ n : Numeral, Completable l front n.text
  | .invalidNumber token => token = back.takeWhile isNumeral ∧ ∀ n : Numeral, Completable l front n.text
  | .tooDeep =>
    depthAfter depth front = nestingLimit ∧ back.head? = some '(' ∧ ∃ middle, Completable l front middle

theorem Fault.Viable.lift {fault : Fault} {inner outer : Level} {depth : Nat} {front front' back : List Char}
    (h : fault.Viable inner (depthAfter depth front') front back) (hl : Leads front' inner outer) :
    fault.Viable outer depth (front' ++ front) back := by
  cases fault with
  | unexpected c => exact h
  | unclosedGroup => exact Completable.lift h hl
  | unclosedCall f => exact Completable.lift h hl
  | unopenedCall f =>
    obtain ⟨⟨name, hname⟩, hc⟩ := h
    exact ⟨⟨name, hname.trans (List.suffix_append _ _)⟩, hc.lift hl⟩
  | missingNumber => exact fun n => (h n).lift hl
  | invalidNumber token => exact ⟨h.1, fun n => (h.2 n).lift hl⟩
  | tooDeep =>
    obtain ⟨hdepth, hback, middle, hc⟩ := h
    exact ⟨by rw [depthAfter_append, hdepth], hback, middle, hc.lift hl⟩

/-! ## Operations without a value -/

variable {α : Type}

/--
An operation whose operands have values and which itself fails; it is a phrase of the level, starts at the position
and has the text.
-/
inductive Broken (m : Meaning α) : Level → Nat → List Char → Failure → Prop where
  | operator {rank : Rank} (left : Phrase Empty (.chain rank)) (op : Operator) (belongs : op.rank = rank)
      (right : Phrase Empty rank.operand) (start : Nat) (x y : α) (failure : Failure)
      (hleft : (left.treeAt start).fold m = .ok x)
      (hright : (right.treeAt (start + left.text.length + 1)).fold m = .ok y)
      (fails : m.binary op (start + left.text.length) x y = .error failure) :
      Broken m (.chain rank) start (left.extend op belongs right).text failure
  | call (f : Function) (name : Spelling f) (argument : Sentence) (start : Nat) (x : α) (failure : Failure)
      (hargument : (argument.treeAt (start + name.text.length + 1)).fold m = .ok x)
      (fails : m.call f x = .error failure) :
      Broken m .atom start (Phrase.call (V := Empty) f name argument).text failure

/-! ## Outcomes -/

/-- The phrase stands at the first cursor, the second one stands behind it, and its parentheses fit. -/
structure Spans {l : Level} (p : Phrase Empty l) (c c' : Cursor) : Prop where
  rest_eq : c.rest = p.text ++ c'.rest
  cursor_eq : c' = c.skip p.text.length
  fits : c.depth + p.nesting ≤ nestingLimit

/-- A halt is a fault of the grammar behind a viable front, or stands behind an operation without a value. -/
inductive Halt.Accounted (m : Meaning α) (l : Level) (c : Cursor) : Halt → Prop where
  | grammatical (fault : Fault) (front back : List Char) (cursor : Cursor) (rest_eq : c.rest = front ++ back)
      (viable : fault.Viable l c.depth front back) :
      Accounted m l c ⟨.failed (.malformed fault (c.position + front.length)), cursor⟩
  | computational (inner : Level) (front operation back : List Char) (failure : Failure) (cursor : Cursor)
      (rest_eq : c.rest = front ++ operation ++ back) (leads : Leads front inner l)
      (broken : Broken m inner (c.position + front.length) operation failure)
      (position_eq : cursor.position = c.position + (front ++ operation).length) :
      Accounted m l c ⟨.failed failure, cursor⟩

/-- An outcome at a cursor is a phrase of the level with its value, or an accounted halt. -/
def Explained (m : Meaning α) (l : Level) (c : Cursor) : Except Halt (α × Cursor) → Prop
  | .ok r => ∃ p : Phrase Empty l, Spans p c r.2 ∧ (p.treeAt c.position).fold m = .ok r.1
  | .error h => h.Accounted m l c

theorem Halt.Accounted.lift {m : Meaning α} {inner outer : Level} {c c' : Cursor} {h : Halt}
    (ha : h.Accounted m inner c') (front : List Char) (hrest : c.rest = front ++ c'.rest)
    (hposition : c'.position = c.position + front.length) (hdepth : c'.depth = depthAfter c.depth front)
    (hl : Leads front inner outer) : h.Accounted m outer c := by
  cases ha with
  | grammatical fault front' back cursor rest_eq viable =>
    have hplace : c'.position + front'.length = c.position + (front ++ front').length := by
      rw [hposition, List.length_append, Nat.add_assoc]
    rw [hplace]
    refine .grammatical fault (front ++ front') back cursor (by rw [hrest, rest_eq, List.append_assoc]) ?_
    rw [hdepth] at viable
    exact viable.lift hl
  | computational operationLevel front' operation back failure cursor rest_eq leads broken position_eq =>
    have hplace : c'.position + front'.length = c.position + (front ++ front').length := by
      rw [hposition, List.length_append, Nat.add_assoc]
    rw [hplace] at broken
    refine .computational operationLevel (front ++ front') operation back failure cursor ?_ (leads.trans hl) broken ?_
    · rw [hrest, rest_eq]
      simp only [List.append_assoc]
    · rw [position_eq, hposition]
      simp only [List.length_append]
      omega

end Reckoner.Expression
