import Reckoner.Proofs.Expression.Deferral
import Reckoner.Proofs.Expression.Completeness
import Reckoner.Proofs.Expression.Unambiguity

/-!
# Accepted texts

A whole text is read like a sum that nothing may follow. The parser gives a value exactly for the sentences whose
parentheses fit under the nesting limit and whose tree has a value, and it is the value of the tree.
-/

namespace Reckoner.Expression

set_option autoImplicit false

variable {α : Type} {m : Meaning α}

/-! ## Looking ahead -/

/-- Inside a phrase no word is followed by a character that would prolong it. -/
theorem Phrase.looksAhead {V : Type} : {l : Level} → (p : Phrase V l) → {after : List Char} → NoNumeral after →
    p.LooksAhead after
  | _, .single operand, _, h => operand.looksAhead h
  | _, .extend left op _ right, _, h =>
    ⟨left.looksAhead (noNumeral_cons op.isNumeral_symbol _), right.looksAhead h⟩
  | _, .base b, _, h => b.looksAhead h
  | _, .raise b exponent, _, h => ⟨b.looksAhead (noNumeral_cons rfl _), exponent.looksAhead h⟩
  | _, .bare operand, _, h => operand.looksAhead h
  | _, .plus operand, _, h => operand.looksAhead h
  | _, .minus operand, _, h => operand.looksAhead h
  | _, .group inner, _, _ => inner.looksAhead (noNumeral_cons rfl _)
  | _, .call _ _ argument, _, _ => argument.looksAhead (noNumeral_cons rfl _)
  | _, .constant .pi, _, _ => trivial
  | _, .constant .e, _, h => fun c hc => (Bool.or_eq_false_iff.mp (h c hc)).1
  | _, .number _, _, h => h
  | _, .unknown _, _, _ => trivial

/-! ## Whole texts -/

/-- The end of a whole text, which must come behind the sum. -/
def atEnd {β : Type} (r : β × Cursor) : Except Halt (β × Cursor) :=
  match r.2.rest with
  | [] => .ok r
  | next :: _ => refuse (.unexpected next) r.2

theorem parse_eq (m : Meaning α) (text : List Char) :
    parse m text = (readSum m (nestingLimit + 1) (.start text)).bind atEnd := by
  unfold parse parseWith
  cases readSum m (nestingLimit + 1) (.start text) <;> rfl

/-- The parser computes what the recognizer builds, or stops for a failure that the recognizer does not know. -/
theorem parse_tracks (m : Meaning α) (text : List Char) : Tracks m (recognize text) (parse m text) := by
  have hlevels : nestingLimit < nestingLimit + 1 + (Cursor.start text).depth := Nat.lt_succ_self _
  have hsum := readSum_follows m (nestingLimit + 1) (.start text) (Nat.zero_le _) hlevels
  rw [recognize, parse_eq, parse_eq]
  refine Tracks.bind hsum ?_ ?_
  · intro t x c _ hvalue
    cases hrest : c.rest with
    | nil =>
      simp only [atEnd, hrest]
      exact ⟨t, rfl, hvalue⟩
    | cons next rest =>
      simp only [atEnd, hrest]
      exact Tracks.refuse _ c
  · intro t c failure position _ hvalue hle
    cases hrest : c.rest with
    | nil =>
      simp only [atEnd, hrest]
      exact ⟨hvalue, hle⟩
    | cons next rest =>
      simp only [atEnd, hrest]
      intro p hp
      obtain rfl : c.position = p := Option.some.inj hp
      exact hle

/-- The outcome of a whole text: a sentence with its value, a sentence with something behind it, or a halt inside. -/
theorem parse_explained (m : Meaning α) (text : List Char) :
    match parse m text with
    | .ok r => r.2 = ⟨[], text.length, 0⟩ ∧
        ∃ p : Sentence, p.text = text ∧ p.nesting ≤ nestingLimit ∧ (p.treeAt 0).fold m = .ok r.1
    | .error h =>
      (∃ (p : Sentence) (x : α) (next : Char) (back : List Char) (cursor : Cursor), text = p.text ++ next :: back ∧
        p.nesting ≤ nestingLimit ∧ (p.treeAt 0).fold m = .ok x ∧
        h = ⟨.failed (.malformed (.unexpected next) p.text.length), cursor⟩) ∨
      h.Accounted m (.chain .sum) (.start text) := by
  have hstart := readSum_start m text
  rw [parse_eq]
  cases hread : readSum m (nestingLimit + 1) (.start text) with
  | error h =>
    rw [hread] at hstart
    exact Or.inr hstart
  | ok r =>
    rw [hread] at hstart
    obtain ⟨p, hspans, hvalue⟩ := hstart
    have hnesting : p.nesting ≤ nestingLimit := by simpa [Cursor.start] using hspans.fits
    have htext : text = p.text ++ r.2.rest := hspans.rest_eq
    cases hrest : r.2.rest with
    | nil =>
      rw [hrest, List.append_nil] at htext
      simp only [Except.bind, atEnd, hrest]
      refine ⟨?_, p, htext.symm, hnesting, hvalue⟩
      rw [hspans.cursor_eq, ← htext]
      simp [Cursor.start, Cursor.skip]
    | cons next back =>
      rw [hrest] at htext
      have hposition : r.2.position = p.text.length := by
        rw [hspans.position_eq]
        simp [Cursor.start]
      simp only [Except.bind, atEnd, hrest, refuse]
      exact Or.inl ⟨p, r.1, next, back, r.2, htext, hnesting, hvalue, by rw [hposition]⟩

/-- Where the tree reader goes through, the computing reader has the value or the failure of the tree. -/
theorem Tracks.of_ok {t : Tree} {c : Cursor} {computed : Except Halt (α × Cursor)} (h : Tracks m (.ok (t, c)) computed) :
    (∀ x, t.fold m = .ok x → computed = .ok (x, c)) ∧
      ∀ failure, t.fold m = .error failure → ∃ c', computed = .error ⟨.failed failure, c'⟩ := by
  cases computed with
  | ok r =>
    obtain ⟨t', hok, hvalue⟩ := h
    obtain ⟨rfl, rfl⟩ := Prod.mk.inj (Except.ok.inj hok)
    rw [hvalue]
    exact ⟨fun x hx => by rw [← Except.ok.inj hx], fun failure herror => by cases herror⟩
  | error halt =>
    rcases h with herror | ⟨failure, hcause, -, hstuck⟩
    · cases herror
    · have hvalue : t.fold m = .error failure := hstuck.1
      rw [hvalue]
      refine ⟨fun x hx => (by cases hx), fun failure' herror => ⟨halt.cursor, ?_⟩⟩
      rw [← Except.error.inj herror, ← hcause]

/-- A recognized text has the value or the failure of its tree. -/
theorem parse_of_recognize {text : List Char} {t : Tree} {c : Cursor} (hr : recognize text = .ok (t, c)) :
    (∀ x, t.fold m = .ok x → parse m text = .ok (x, c)) ∧
      ∀ failure, t.fold m = .error failure → ∃ c', parse m text = .error ⟨.failed failure, c'⟩ := by
  have htracks := parse_tracks m text
  rw [hr] at htracks
  exact htracks.of_ok

theorem parse_of_sentence {p : Sentence} (h : p.nesting ≤ nestingLimit) {x : α}
    (hvalue : (p.treeAt 0).fold m = .ok x) : parse m p.text = .ok (x, ⟨[], p.text.length, 0⟩) :=
  (parse_of_recognize (recognize_text p h)).1 x hvalue

/-- A character that no sum goes on with is unexpected behind a sentence with a value. -/
theorem parse_unexpected {p : Sentence} (h : p.nesting ≤ nestingLimit) {x : α} (hvalue : (p.treeAt 0).fold m = .ok x)
    {next : Char} {back : List Char} (hstop : (Level.chain .sum).Stops (next :: back)) :
    ∃ c, parse m (p.text ++ next :: back) = .error ⟨.failed (.malformed (.unexpected next) p.text.length), c⟩ := by
  have hlevels : nestingLimit < nestingLimit + 1 + (Cursor.start (p.text ++ next :: back)).depth := Nat.lt_succ_self _
  have hread := readSum_complete (nestingLimit + 1) p (.start (p.text ++ next :: back)) _ rfl hstop hlevels
    (by simpa [Cursor.start] using h)
  have htracks := readSum_follows m (nestingLimit + 1) (.start (p.text ++ next :: back)) (Nat.zero_le _) hlevels
  rw [hread] at htracks
  have hcomputed := htracks.of_ok.1 x hvalue
  have hrest : ((Cursor.start (p.text ++ next :: back)).skip p.text.length).rest = next :: back := Cursor.rest_skip rfl
  have hposition : ((Cursor.start (p.text ++ next :: back)).skip p.text.length).position = p.text.length := Nat.zero_add _
  refine ⟨(Cursor.start (p.text ++ next :: back)).skip p.text.length, ?_⟩
  rw [parse_eq, hcomputed]
  simp only [Except.bind, atEnd, hrest, refuse, hposition]

/--
The parser accepts exactly the sentences whose parentheses fit under the nesting limit and whose tree has a value,
with that value; and a text is the text of at most one sentence.
-/
theorem parse_eq_ok_iff (s : Settings) (text : List Char) :
    (∀ v : Float, (∃ c, parse (arithmetic s) (Text.trim text) = .ok (v, c)) ↔
      ∃ p : Sentence, p.text = Text.trim text ∧ p.LooksAhead [] ∧ p.nesting ≤ nestingLimit ∧
        (p.treeAt 0).value s = .ok v) ∧
    ∀ p q : Sentence, p.text = Text.trim text → q.text = Text.trim text → p = q := by
  refine ⟨fun v => ⟨?_, ?_⟩, ?_⟩
  · rintro ⟨c, hparse⟩
    have hexplained := parse_explained (arithmetic s) (Text.trim text)
    rw [hparse] at hexplained
    obtain ⟨-, p, htext, hnesting, hvalue⟩ := hexplained
    exact ⟨p, htext, p.looksAhead noNumeral_nil, hnesting, hvalue⟩
  · rintro ⟨p, htext, -, hnesting, hvalue⟩
    rw [← htext]
    exact ⟨_, parse_of_sentence hnesting hvalue⟩
  · intro p q hp hq
    exact sum_text_injective (hp.trans hq.symm)

/-- The sign in front of a base belongs to the base: ` -pi^e` is the power of `-pi`. -/
theorem parse_eq_ok_iff_signed_base :
    ∃ c, parse (arithmetic {}) (Text.trim [' ', '-', 'p', 'i', '^', 'e']) =
      .ok (power (-Function.pi) Function.e, c) :=
  ((parse_eq_ok_iff {} [' ', '-', 'p', 'i', '^', 'e']).1 (power (-Function.pi) Function.e)).mpr
    ⟨.single (.single (.raise (.minus (.constant .pi)) (.bare (.constant .e)))), rfl,
      Phrase.looksAhead _ noNumeral_nil, by decide, rfl⟩

end Reckoner.Expression
