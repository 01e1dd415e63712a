import Reckoner.Proofs.Expression.Refinement

/-!
# Reported positions

The position of a fault of the grammar lies in the text or at its end, and the text in front of it is the beginning
of a sentence. What completes it to a sentence, and what stands at the position, depends on the fault. The position
of a division by zero is that of its slash.
-/

namespace Reckoner.Expression

set_option autoImplicit false

/-! ## Faults of the grammar -/

/-- What a fault at a position tells about the text. -/
def Fault.Trustworthy (s : Settings) (text : List Char) (position : Nat) : Fault → Prop
  | .unexpected c => text[position]? = some c ∧ ∃ r, parse (arithmetic s) (text.take position) = .ok r
  | .unclosedGroup => Completable (.chain .sum) (text.take position) []
  | .unclosedCall _ => Completable (.chain .sum) (text.take position) []
  | .unopenedCall f =>
    (∃ name : Spelling f, name.text <:+ text.take position) ∧
      Completable (.chain .sum) (text.take position) ['(', '1', ')']
  | .missingNumber => ∀ n : Numeral, Completable (.chain .sum) (text.take position) n.text
  | .invalidNumber token =>
    token = (text.drop position).takeWhile isNumeral ∧
      ∀ n : Numeral, Completable (.chain .sum) (text.take position) n.text
  | .tooDeep => text[position]? = some '(' ∧ depthAfter 0 (text.take position) = nestingLimit

variable {s : Settings} {text front back : List Char}

theorem Completable.derivable {l : Level} {middle : List Char} (h : Completable l front middle) :
    ∃ rest, Derivable l (front ++ rest) := by
  obtain ⟨closers, hd⟩ := h
  exact ⟨middle ++ List.replicate closers ')', by rwa [← List.append_assoc]⟩

theorem Fault.Viable.derivable {fault : Fault} {l : Level} {depth : Nat} (h : fault.Viable l depth front back) :
    ∃ rest, Derivable l (front ++ rest) := by
  cases fault with
  | unexpected c => exact h.elim
  | unclosedGroup => exact Completable.derivable h
  | unclosedCall f => exact Completable.derivable h
  | unopenedCall f => exact h.2.derivable
  | missingNumber => exact (h Numeral.one).derivable
  | invalidNumber token => exact (h.2 Numeral.one).derivable
  | tooDeep =>
    obtain ⟨-, -, middle, hc⟩ := h
    exact hc.derivable

theorem Fault.Viable.trustworthy {fault : Fault} (h : fault.Viable (.chain .sum) 0 front back) :
    fault.Trustworthy s (front ++ back) front.length := by
  have htake : (front ++ back).take front.length = front := List.take_left' rfl
  cases fault with
  | unexpected c => exact h.elim
  | unclosedGroup => simpa only [Fault.Trustworthy, Fault.Viable, htake] using h
  | unclosedCall f => simpa only [Fault.Trustworthy, Fault.Viable, htake] using h
  | unopenedCall f => simpa only [Fault.Trustworthy, Fault.Viable, htake] using h
  | missingNumber => simpa only [Fault.Trustworthy, Fault.Viable, htake] using h
  | invalidNumber token =>
    have hdrop : (front ++ back).drop front.length = back := List.drop_left' rfl
    simpa only [Fault.Trustworthy, Fault.Viable, htake, hdrop] using h
  | tooDeep =>
    obtain ⟨hdepth, hhead, -⟩ := h
    refine ⟨?_, by rw [htake]; exact hdepth⟩
    rw [List.getElem?_append_right (Nat.le_refl _), Nat.sub_self, ← List.head?_eq_getElem?]
    exact hhead

/-! ## Divisions by zero -/

theorem Undefined.slash {l : Level} {operation : List Char} {position : Nat}
    (h : Undefined s l front.length operation (.divisionByZero position)) :
    (front ++ operation ++ back)[position]? = some '/' := by
  cases h with
  | division left right _ x y hleft hright hzero =>
    have hsplit : front ++ (left.text ++ '/' :: right.text) ++ back =
        (front ++ left.text) ++ '/' :: (right.text ++ back) := by
      simp only [List.append_assoc, List.cons_append]
    rw [hsplit, ← List.length_append, List.getElem?_append_right (Nat.le_refl _), Nat.sub_self]
    rfl

/-! ## Whole texts -/

theorem parse_fault {fault : Fault} {position : Nat} {h : Halt} (hparse : parse (arithmetic s) text = .error h)
    (hfailure : h.failure = .malformed fault position) :
    position ≤ text.length ∧ (∃ rest, Derivable (.chain .sum) (text.take position ++ rest)) ∧
      fault.Trustworthy s text position := by
  have hexplained := parse_explained (arithmetic s) text
  rw [hparse] at hexplained
  rcases hexplained with ⟨p, x, next, back, cursor, rfl, hnesting, hvalue, rfl⟩ | haccounted
  · obtain ⟨rfl, rfl⟩ := Failure.malformed.inj hfailure
    have htake : (p.text ++ next :: back).take p.text.length = p.text := List.take_left' rfl
    refine ⟨by simp, ⟨[], p, by rw [htake, List.append_nil]⟩, ?_, ?_⟩
    · rw [List.getElem?_append_right (Nat.le_refl _), Nat.sub_self]
      rfl
    · rw [htake]
      exact ⟨_, parse_of_sentence hnesting hvalue⟩
  · cases haccounted with
    | grammatical fault' front back cursor rest_eq viable =>
      obtain ⟨rfl, rfl⟩ := Failure.malformed.inj hfailure
      obtain rfl : text = front ++ back := rest_eq
      have htake : (front ++ back).take front.length = front := List.take_left' rfl
      simp only [Cursor.start, Nat.zero_add] at viable ⊢
      refine ⟨by simp, ?_, viable.trustworthy⟩
      rw [htake]
      exact viable.derivable
    | computational l front operation back failure cursor rest_eq leads broken position_eq =>
      obtain rfl : failure = .malformed fault position := hfailure
      cases broken.undefined

theorem parse_divisionByZero {position : Nat} {h : Halt} (hparse : parse (arithmetic s) text = .error h)
    (hfailure : h.failure = .divisionByZero position) : text[position]? = some '/' := by
  have hexplained := parse_explained (arithmetic s) text
  rw [hparse] at hexplained
  rcases hexplained with ⟨p, x, next, back, cursor, -, -, -, rfl⟩ | haccounted
  · cases hfailure
  · cases haccounted with
    | grammatical fault front back cursor rest_eq viable => cases hfailure
    | computational l front operation back failure cursor rest_eq leads broken position_eq =>
      obtain rfl : failure = .divisionByZero position := hfailure
      obtain rfl : text = front ++ operation ++ back := rest_eq
      have hundefined := broken.undefined
      simp only [Cursor.start, Nat.zero_add] at hundefined
      exact hundefined.slash

/--
Every reported position can be trusted: in front of a fault stands the beginning of a sentence, as the fault says it,
and at a division by zero stands its slash.
-/
theorem parse_position (s : Settings) (text : List Char) (h : Halt)
    (hparse : parse (arithmetic s) (Text.trim text) = .error h) :
    (∀ fault position, h.failure = .malformed fault position →
      position ≤ (Text.trim text).length ∧
      (∃ rest, Derivable (.chain .sum) ((Text.trim text).take position ++ rest)) ∧
      fault.Trustworthy s (Text.trim text) position) ∧
    ∀ position, h.failure = .divisionByZero position → (Text.trim text)[position]? = some '/' :=
  ⟨fun _ _ hfailure => parse_fault hparse hfailure, fun _ hfailure => parse_divisionByZero hparse hfailure⟩

/-- In ` pi^-(e` a parenthesis is missing at the end, and closing it completes the text. -/
theorem parse_position_unclosed :
    parse (arithmetic {}) (Text.trim [' ', 'p', 'i', '^', '-', '(', 'e']) =
        .error ⟨.failed (.malformed .unclosedGroup 6), ⟨[], 6, 1⟩⟩ ∧
      Completable (.chain .sum) ['p', 'i', '^', '-', '(', 'e'] [] :=
  ⟨rfl, ((parse_position {} [' ', 'p', 'i', '^', '-', '(', 'e'] _ rfl).1 .unclosedGroup 6 rfl).2.2⟩

end Reckoner.Expression
