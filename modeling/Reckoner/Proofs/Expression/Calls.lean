import Reckoner.Proofs.Expression.Acceptance

/-!
# The functions that a text calls

A text calls a function where a spelling of its name stands in front of an opening parenthesis. The parser uses the meaning of
no other function: under meanings that agree but for functions that are not called, it gives the same value or halts in the
same way.
-/

namespace Reckoner.Expression

set_option autoImplicit false

/-- Somewhere in the text a spelling of the function's name opens a parenthesis. -/
def Called (f : Function) (text : List Char) : Prop :=
  ∃ name : Spelling f, name.text ++ ['('] <:+: text

theorem Called.of_infix {f : Function} {part text : List Char} (h : Called f part) (hpart : part <:+: text) : Called f text :=
  let ⟨name, hname⟩ := h
  ⟨name, hname.trans hpart⟩

/-! ## Readers inside of a text -/

theorem Cursor.skip_suffix (c : Cursor) (count : Nat) : (c.skip count).rest <:+ c.rest :=
  List.drop_suffix count c.rest

section
variable {α : Type} {text : List Char}

/-- Two outcomes that are the same, and that do not lead out of the text. -/
structure Alike (text : List Char) (first second : Except Halt (α × Cursor)) : Prop where
  same : first = second
  inside : ∀ x c, first = .ok (x, c) → c.rest <:+ text

/-- Two readers that do the same inside of the text. -/
def AlikeIn (text : List Char) (first second : Reader α) : Prop :=
  ∀ c : Cursor, c.rest <:+ text → Alike text (first c) (second c)

theorem Alike.of_error (h : Halt) : Alike text (.error h : Except Halt (α × Cursor)) (.error h) :=
  ⟨rfl, nofun⟩

theorem Alike.of_ok (x : α) {c : Cursor} (hc : c.rest <:+ text) : Alike text (.ok (x, c)) (.ok (x, c)) :=
  ⟨rfl, fun _ _ h => (Prod.mk.inj (Except.ok.inj h)).2 ▸ hc⟩

theorem Alike.bind {β : Type} {first second : Except Halt (α × Cursor)}
    {next next' : α × Cursor → Except Halt (β × Cursor)} (h : Alike text first second)
    (hnext : ∀ x c, c.rest <:+ text → Alike text (next (x, c)) (next' (x, c))) :
    Alike text (first.bind next) (second.bind next') := by
  obtain ⟨rfl, hinside⟩ := h
  cases first with
  | error halt => exact .of_error halt
  | ok r => exact hnext r.1 r.2 (hinside r.1 r.2 rfl)

theorem Alike.map {first second : Except Halt (α × Cursor)} (h : Alike text first second) (f : α → α) :
    Alike text (first.map fun r => (f r.1, r.2)) (second.map fun r => (f r.1, r.2)) := by
  rw [map_eq_bind, map_eq_bind]
  exact h.bind fun _ _ hc => .of_ok _ hc

variable {m : Meaning α} {call : Function → α → Except Failure α} {inner inner' : Reader α} {c : Cursor}

/-! ## Atoms -/

theorem readNumber_alike (hc : c.rest <:+ text) : Alike text (readNumber m c) (readNumber { m with call } c) := by
  change Alike text (readNumber m c) (readNumber m c)
  unfold readNumber
  simp only
  split
  · exact .of_error _
  · split
    · exact .of_ok _ ((c.skip_suffix _).trans hc)
    · exact .of_error _

theorem readOperand_alike (hc : c.rest <:+ text) : Alike text (readOperand m c) (readOperand { m with call } c) := by
  unfold readOperand
  split
  · exact .of_ok _ ((c.skip_suffix _).trans hc)
  · split
    · exact readNumber_alike hc
    · exact .of_ok _ ((c.skip_suffix _).trans hc)
  · exact .of_ok _ ((c.skip_suffix _).trans hc)
  · exact readNumber_alike hc

theorem readParens_alike (hinner : AlikeIn text inner inner') (fault : Fault) (hc : c.rest <:+ text) :
    Alike text (readParens fault inner c) (readParens fault inner' c) := by
  unfold readParens openParen
  split
  · exact .of_error _
  · refine (hinner c.opened ((c.skip_suffix 1).trans hc)).bind fun x c₁ hc₁ => ?_
    unfold closeParen
    split
    · exact .of_ok x ((c₁.skip_suffix 1).trans hc₁)
    · exact .of_error _

/-- A function that is applied stands in front of an opening parenthesis, so it is called in the text. -/
theorem readCall_alike (hcall : ∀ f, Called f text → m.call f = call f) (hinner : AlikeIn text inner inner') {f : Function}
    (hf : f.opens c.rest = true) (hc : c.rest <:+ text) :
    Alike text (readCall m inner f c) (readCall { m with call } inner' f c) := by
  obtain ⟨name, rest, hrest⟩ := (opens_iff f c.rest).mp hf
  by_cases hhead : (c.skip f.name.toList.length).rest.head? = some '('
  · obtain ⟨behind, hbehind⟩ := List.head?_eq_some_iff.mp hhead
    have hskip : (c.skip f.name.toList.length).rest = rest := by
      rw [← name.length_text]
      exact Cursor.rest_skip hrest
    have hcalled : Called f text := by
      refine ⟨name, List.IsInfix.trans ⟨[], behind, ?_⟩ hc.isInfix⟩
      rw [hrest, ← hskip, hbehind]
      simp
    rw [readCall_of_cons m inner f hbehind, readCall_of_cons _ inner' f hbehind]
    refine (readParens_alike hinner _ ((c.skip_suffix _).trans hc)).bind fun x c₁ hc₁ => ?_
    change Alike text (settle c₁ (m.call f x)) (settle c₁ (call f x))
    rw [hcall f hcalled]
    cases call f x with
    | ok y => exact .of_ok y hc₁
    | error failure => exact .of_error _
  · rw [readCall_of_head m inner f hhead, readCall_of_head _ inner' f hhead]
    exact .of_error _

section
variable (hcall : ∀ f, Called f text → m.call f = call f)
include hcall

theorem readAtom_alike (hinner : AlikeIn text inner inner') :
    AlikeIn text (readAtom m inner) (readAtom { m with call } inner') := by
  intro c hc
  by_cases hhead : c.rest.head? = some '('
  · obtain ⟨rest, hrest⟩ := List.head?_eq_some_iff.mp hhead
    rw [readAtom_group m inner hrest, readAtom_group _ inner' hrest, readGroup_eq, readGroup_eq]
    exact readParens_alike hinner _ hc
  · rw [readAtom_of_head m inner hhead, readAtom_of_head _ inner' hhead]
    cases hmatch : Function.match? c.rest with
    | none => exact readOperand_alike hc
    | some f => exact readCall_alike hcall hinner ((match?_eq_some_iff f c.rest).mp hmatch) hc

/-! ## Operators -/

theorem readSigned_alike (hinner : AlikeIn text inner inner') :
    AlikeIn text (readSigned m inner) (readSigned { m with call } inner') := by
  intro c hc
  have hatom := readAtom_alike hcall hinner
  have hskip := (c.skip_suffix 1).trans hc
  by_cases hminus : c.rest.head? = some '-'
  · obtain ⟨rest, hrest⟩ := List.head?_eq_some_iff.mp hminus
    rw [readSigned_minus m inner hrest, readSigned_minus _ inner' hrest]
    exact (hatom (c.skip 1) hskip).map m.negate
  · by_cases hplus : c.rest.head? = some '+'
    · obtain ⟨rest, hrest⟩ := List.head?_eq_some_iff.mp hplus
      rw [readSigned_plus m inner hrest, readSigned_plus _ inner' hrest]
      exact hatom (c.skip 1) hskip
    · rw [readSigned_of_head m inner hminus hplus, readSigned_of_head _ inner' hminus hplus]
      exact hatom c hc

theorem readPower_alike (hinner : AlikeIn text inner inner') :
    AlikeIn text (readPower m inner) (readPower { m with call } inner') := by
  intro c hc
  have hsigned := readSigned_alike hcall hinner
  rw [readPower_eq, readPower_eq]
  refine (hsigned c hc).bind fun x c₁ hc₁ => ?_
  unfold powerTail
  split
  · exact (hsigned (c₁.skip 1) ((c₁.skip_suffix 1).trans hc₁)).map (m.power x)
  · exact .of_ok x hc₁

omit hcall

theorem readChain_alike {operand operand' : Reader α} (rank : Rank) (hoperand : AlikeIn text operand operand')
    (budget : List Char) (left : α) (hc : c.rest <:+ text) :
    Alike text (readChain m rank.operator? operand budget left c)
      (readChain { m with call } rank.operator? operand' budget left c) := by
  induction budget generalizing left c with
  | nil => exact .of_ok left hc
  | cons d budget ih =>
    cases hoperator : rank.operator? c.rest with
    | none =>
      rw [readChain_of_none m hoperator, readChain_of_none _ hoperator]
      exact .of_ok left hc
    | some op =>
      rw [readChain_of_some m hoperator, readChain_of_some _ hoperator]
      refine (hoperand (c.skip 1) ((c.skip_suffix 1).trans hc)).bind fun right c₁ hc₁ => ?_
      refine Alike.bind ?_ fun x c₂ hc₂ => ih x hc₂
      change Alike text (settle c₁ (m.binary op c.position left right)) (settle c₁ (m.binary op c.position left right))
      cases m.binary op c.position left right with
      | ok y => exact .of_ok y hc₁
      | error failure => exact .of_error _

theorem chainOver_alike {operand operand' : Reader α} (rank : Rank) (hoperand : AlikeIn text operand operand') :
    AlikeIn text (chainOver m rank operand) (chainOver { m with call } rank operand') := fun c hc =>
  (hoperand c hc).bind fun x _ hc₁ => readChain_alike rank hoperand _ x hc₁

/-! ## Whole texts -/

include hcall

theorem readSum_alike (levels : Nat) : AlikeIn text (readSum m levels) (readSum { m with call } levels) := by
  induction levels with
  | zero => exact fun c _ => .of_error ⟨.exhausted, c⟩
  | succ levels ih => exact chainOver_alike .sum (chainOver_alike .product (readPower_alike hcall ih))

/-- The parser uses only the meanings of functions that the text calls. -/
theorem parse_congr_of_called : parse m text = parse { m with call } text := by
  rw [parse_eq, parse_eq]
  have hsum := readSum_alike hcall (nestingLimit + 1) (.start text) (List.suffix_refl text)
  rw [hsum.same]

end

end

end Reckoner.Expression
