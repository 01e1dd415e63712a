import Mathlib.Data.List.TakeWhile
import Reckoner.Proofs.Expression.Phrase

/-!
# The words of the grammar as the readers see them

A function's name is recognised exactly where a spelling of it starts, and no other name starts there. The
reading of digits and points succeeds exactly on numerals, and it gives their value.
-/

namespace Reckoner.Expression

set_option autoImplicit false

/-! ## Characters of numbers -/

theorem isNumeral_iff (c : Char) : isNumeral c = true ↔ Literal.isDigit c = true ∨ c = '.' := by
  simp [isNumeral]

theorem isDigit_iff (c : Char) : Literal.isDigit c = true ↔ 48 ≤ c.toNat ∧ c.toNat ≤ 57 := by
  simp only [Literal.isDigit, Bool.and_eq_true, decide_eq_true_eq, Char.le_def, UInt32.le_iff_toNat_le]
  exact Iff.rfl

theorem isNumeral_of_isDigit {c : Char} (h : Literal.isDigit c = true) : isNumeral c = true :=
  (isNumeral_iff c).mpr (Or.inl h)

theorem eq_point_of_isNumeral {c : Char} (h : isNumeral c = true) (hd : Literal.isDigit c = false) : c = '.' := by
  rcases (isNumeral_iff c).mp h with hc | hc
  · rw [hc] at hd
    contradiction
  · exact hc

theorem toNat_le_of_isNumeral {c : Char} (h : isNumeral c = true) : c.toNat ≤ 57 := by
  rcases (isNumeral_iff c).mp h with hc | hc
  · exact ((isDigit_iff c).mp hc).2
  · rw [hc]
    decide

theorem toLower_of_not_capital {c : Char} (h : ¬ (65 ≤ c.toNat ∧ c.toNat ≤ 90)) : c.toLower = c := by
  unfold Char.toLower
  rw [dif_neg]
  rintro ⟨hlow, hhigh⟩
  exact h ⟨UInt32.le_iff_toNat_le.mp hlow, UInt32.le_iff_toNat_le.mp hhigh⟩

theorem toLower_of_isNumeral {c : Char} (h : isNumeral c = true) : c.toLower = c := by
  have hc := toNat_le_of_isNumeral h
  exact toLower_of_not_capital (by omega)

/-! ## Names of functions -/

/-- The first letters of the functions' names. -/
def initials : List Char := ['a', 's', 'c', 't', 'l', 'f', 'r']

theorem initial_mem (f : Function) : ∃ c rest, f.name.toList = c :: rest ∧ c ∈ initials := by
  cases f <;> exact ⟨_, _, rfl, by decide⟩

theorem name_prefix_eq {f g : Function} (h : f.name.toList <+: g.name.toList) : f = g := by
  revert h
  cases f <;> cases g <;> decide

theorem opens_iff (f : Function) (text : List Char) :
    f.opens text = true ↔ ∃ (name : Spelling f) (rest : List Char), text = name.text ++ rest := by
  constructor
  · intro h
    refine ⟨⟨text.take f.name.toList.length, by simpa [Function.opens] using h⟩, text.drop f.name.toList.length, ?_⟩
    exact (List.take_append_drop _ _).symm
  · rintro ⟨name, rest, rfl⟩
    have hlength : f.name.toList.length = name.text.length := by
      rw [← name.spells, Text.lower, List.length_map]
    rw [Function.opens, hlength, List.take_left, name.spells, beq_self_eq_true]

theorem Spelling.toLower_mem {f : Function} (name : Spelling f) {c : Char} (hc : c ∈ name.text) :
    c.toLower ∈ f.name.toList := by
  rw [← name.spells]
  exact List.mem_map_of_mem hc

theorem Spelling.length_text {f : Function} (name : Spelling f) : name.text.length = f.name.toList.length := by
  rw [← name.spells, Text.lower, List.length_map]

theorem opens_unique {f g : Function} {text : List Char} (hf : f.opens text = true) (hg : g.opens text = true) :
    f = g := by
  obtain ⟨nf, rf, hnf⟩ := (opens_iff f text).mp hf
  obtain ⟨ng, rg, hng⟩ := (opens_iff g text).mp hg
  have hf' : f.name.toList <+: Text.lower text := by
    rw [hnf, Text.lower, List.map_append]
    exact ⟨_, congrArg (· ++ _) nf.spells.symm⟩
  have hg' : g.name.toList <+: Text.lower text := by
    rw [hng, Text.lower, List.map_append]
    exact ⟨_, congrArg (· ++ _) ng.spells.symm⟩
  rcases List.prefix_or_prefix_of_prefix hf' hg' with h | h
  · exact name_prefix_eq h
  · exact (name_prefix_eq h).symm

theorem mem_all (f : Function) : f ∈ Function.all := by
  cases f <;> decide

theorem match?_eq_some_iff (f : Function) (text : List Char) :
    Function.match? text = some f ↔ f.opens text = true := by
  let opens : Function → Bool := fun g => g.opens text
  have hsome : ∀ g, Function.match? text = some g → g.opens text = true :=
    fun g hg => List.find?_some (p := opens) hg
  constructor
  · exact hsome f
  · intro h
    have hex : (Function.match? text).isSome = true :=
      List.find?_isSome.mpr ⟨f, mem_all f, h⟩
    obtain ⟨g, hg⟩ := Option.isSome_iff_exists.mp hex
    rw [hg, opens_unique (hsome g hg) h]

theorem match?_spelling {f : Function} (name : Spelling f) (rest : List Char) :
    Function.match? (name.text ++ rest) = some f :=
  (match?_eq_some_iff f _).mpr ((opens_iff f _).mpr ⟨name, rest, rfl⟩)

theorem Spelling.text_cons {f : Function} (name : Spelling f) :
    ∃ c rest, name.text = c :: rest ∧ c.toLower ∈ initials := by
  obtain ⟨i, r, hname, hi⟩ := initial_mem f
  have hs := name.spells
  rw [hname] at hs
  cases htext : name.text with
  | nil => simp [Text.lower, htext] at hs
  | cons c rest =>
    rw [htext, Text.lower, List.map_cons, List.cons.injEq] at hs
    exact ⟨c, rest, rfl, hs.1 ▸ hi⟩

theorem Spelling.head_append_ne {f : Function} (name : Spelling f) (rest : List Char) :
    (name.text ++ rest).head? ≠ some '(' := by
  obtain ⟨c, more, hname, hc⟩ := name.text_cons
  rw [hname]
  intro hsome
  obtain rfl : c = '(' := Option.some.inj hsome
  revert hc
  decide

theorem match?_cons_eq_none {c : Char} (h : c.toLower ∉ initials) (rest : List Char) :
    Function.match? (c :: rest) = none := by
  cases hm : Function.match? (c :: rest) with
  | none => rfl
  | some f =>
    obtain ⟨name, r, htext⟩ := (opens_iff f _).mp ((match?_eq_some_iff f _).mp hm)
    obtain ⟨c', r', hname, hc'⟩ := name.text_cons
    rw [hname, List.cons_append, List.cons.injEq] at htext
    exact absurd (htext.1 ▸ hc') h

theorem not_initial_of_isNumeral {c : Char} (h : isNumeral c = true) : c.toLower ∉ initials := by
  have hc := toNat_le_of_isNumeral h
  rw [toLower_of_isNumeral h]
  intro hmem
  have hall : ∀ i ∈ initials, 57 < i.toNat := by simp [initials]
  have := hall c hmem
  omega

/-! ## Numerals -/

theorem Numeral.text_cons (n : Numeral) : ∃ c rest, n.text = c :: rest ∧ isNumeral c = true := by
  obtain ⟨d, hd, -⟩ := n.some_digit
  cases htext : n.text with
  | nil => simp [htext] at hd
  | cons c rest => exact ⟨c, rest, rfl, n.all_numeral c (by simp [htext])⟩

theorem Numeral.text_ne_nil (n : Numeral) : n.text ≠ [] := by
  obtain ⟨c, rest, htext, -⟩ := n.text_cons
  rw [htext]
  exact List.cons_ne_nil c rest

theorem filter_isDigit_eq_self {text : List Char} (h : ∀ c ∈ text, Literal.isDigit c = true) :
    text.filter Literal.isDigit = text :=
  List.filter_eq_self.mpr h

/-- A run of digits and points is digits alone, or digits up to a first point and more of the run. -/
theorem numeral_cases {text : List Char} (h : ∀ c ∈ text, isNumeral c = true) :
    (∀ c ∈ text, Literal.isDigit c = true) ∨
      ∃ whole rest, text = whole ++ '.' :: rest ∧ (∀ c ∈ whole, Literal.isDigit c = true) ∧
        ∀ c ∈ rest, isNumeral c = true := by
  induction text with
  | nil => exact Or.inl (by simp)
  | cons c text ih =>
    have hc := h c (by simp)
    have ht := ih (fun d hd => h d (by simp [hd]))
    by_cases hd : Literal.isDigit c = true
    · rcases ht with ht | ⟨whole, rest, rfl, hw, hr⟩
      · refine Or.inl fun d hmem => ?_
        rcases List.mem_cons.mp hmem with rfl | hmem
        · exact hd
        · exact ht d hmem
      · refine Or.inr ⟨c :: whole, rest, rfl, fun d hmem => ?_, hr⟩
        rcases List.mem_cons.mp hmem with rfl | hmem
        · exact hd
        · exact hw d hmem
    · have hp : c = '.' := eq_point_of_isNumeral hc (by simpa using hd)
      exact Or.inr ⟨[], text, by rw [hp]; rfl, by simp, fun d hmem => h d (by simp [hmem])⟩

theorem mantissa?_digits {text : List Char} (h : ∀ c ∈ text, Literal.isDigit c = true) :
    Literal.mantissa? text =
      if text = [] then none else some (Double.ofDecimal false (Literal.natOfDigits text) 0) := by
  have htake : text.takeWhile Literal.isDigit = text :=
    List.takeWhile_eq_self_iff.mpr h
  have hdrop : text.dropWhile Literal.isDigit = [] :=
    List.dropWhile_eq_nil_iff.mpr h
  by_cases hnil : text = []
  · rw [hnil]
    rfl
  · simp [Literal.mantissa?, Literal.takeMantissa, Literal.scaled?, htake, hdrop, hnil]

theorem mantissa?_point {whole rest : List Char} (hw : ∀ c ∈ whole, Literal.isDigit c = true) :
    Literal.mantissa? (whole ++ '.' :: rest) =
      if rest.all Literal.isDigit = true ∧ whole ++ rest ≠ [] then
        some (Double.ofDecimal false (Literal.natOfDigits (whole ++ rest)) (-(rest.length : Int)))
      else none := by
  have htake : (whole ++ '.' :: rest).takeWhile Literal.isDigit = whole := by
    rw [List.takeWhile_append_of_pos hw, List.takeWhile_cons_of_neg (by decide), List.append_nil]
  have hdrop : (whole ++ '.' :: rest).dropWhile Literal.isDigit = '.' :: rest := by
    rw [List.dropWhile_append_of_pos hw, List.dropWhile_cons_of_neg (by decide)]
  by_cases hr : ∀ c ∈ rest, Literal.isDigit c = true
  · have htakeRest : rest.takeWhile Literal.isDigit = rest :=
      List.takeWhile_eq_self_iff.mpr hr
    have hdropRest : rest.dropWhile Literal.isDigit = [] :=
      List.dropWhile_eq_nil_iff.mpr hr
    by_cases hnil : whole ++ rest = []
    · obtain ⟨rfl, rfl⟩ := List.append_eq_nil_iff.mp hnil
      rfl
    · have hboth : ¬(whole = [] ∧ rest = []) := fun hb => hnil (List.append_eq_nil_iff.mpr hb)
      rw [if_pos ⟨List.all_eq_true.mpr hr, hnil⟩]
      simp [Literal.mantissa?, Literal.takeMantissa, Literal.scaled?, htake, hdrop, htakeRest, hdropRest, hboth]
  · have hdropRest : rest.dropWhile Literal.isDigit ≠ [] := by
      intro hnil
      exact hr (List.dropWhile_eq_nil_iff.mp hnil)
    rw [if_neg (fun hb => hr (List.all_eq_true.mp hb.1))]
    simp only [Literal.mantissa?, Literal.takeMantissa, htake, hdrop]
    cases Literal.scaled? whole (rest.takeWhile Literal.isDigit) with
    | none => rfl
    | some s =>
      cases hd : rest.dropWhile Literal.isDigit with
      | nil => exact absurd hd hdropRest
      | cons c more => rfl

theorem point_not_mem {text : List Char} (h : ∀ c ∈ text, Literal.isDigit c = true) : '.' ∉ text :=
  fun hp => absurd (h _ hp) (by decide)

theorem Numeral.parts_digits {n : Numeral} (h : ∀ c ∈ n.text, Literal.isDigit c = true) :
    n.text.filter Literal.isDigit = n.text ∧ n.places = 0 := by
  have hdrop : n.text.dropWhile Literal.isDigit = [] := List.dropWhile_eq_nil_iff.mpr h
  refine ⟨filter_isDigit_eq_self h, ?_⟩
  rw [places, hdrop]
  rfl

section
variable {whole rest : List Char}

theorem Numeral.digits_of_point {n : Numeral} (htext : n.text = whole ++ '.' :: rest) :
    ∀ c ∈ rest, Literal.isDigit c = true := by
  intro c hc
  have hmem : c ∈ n.text := by
    rw [htext]
    exact List.mem_append_right _ (List.mem_cons_of_mem _ hc)
  refine ((isNumeral_iff c).mp (n.all_numeral c hmem)).resolve_right ?_
  rintro rfl
  have hone := n.one_point
  have hcount : 0 < rest.count '.' := List.count_pos_iff.mpr hc
  rw [htext, List.count_append, List.count_cons_self] at hone
  omega

theorem Numeral.parts_point {n : Numeral} (htext : n.text = whole ++ '.' :: rest)
    (hw : ∀ c ∈ whole, Literal.isDigit c = true) (hr : ∀ c ∈ rest, Literal.isDigit c = true) :
    n.text.filter Literal.isDigit = whole ++ rest ∧ n.places = rest.length := by
  have hdrop : n.text.dropWhile Literal.isDigit = '.' :: rest := by
    rw [htext, List.dropWhile_append_of_pos hw, List.dropWhile_cons_of_neg (by decide)]
  constructor
  · rw [htext, List.filter_append, filter_isDigit_eq_self hw, List.filter_cons_of_neg (by decide),
      filter_isDigit_eq_self hr]
  · rw [places, hdrop]
    rfl

theorem mantissa?_digits_iff {text : List Char} (h : ∀ c ∈ text, Literal.isDigit c = true) (x : Float) :
    Literal.mantissa? text = some x ↔ ∃ n : Numeral, n.text = text ∧ n.value = x := by
  have hvalue : ∀ n : Numeral, n.text = text → n.value = Double.ofDecimal false (Literal.natOfDigits text) 0 := by
    rintro n rfl
    obtain ⟨hdigits, hplaces⟩ := Numeral.parts_digits h
    rw [Numeral.value, hdigits, hplaces]
    rfl
  rw [mantissa?_digits h]
  constructor
  · intro hx
    split at hx
    · contradiction
    · next hnil =>
      obtain ⟨c, hc⟩ := List.exists_mem_of_ne_nil text hnil
      have hnumeral : ∀ d ∈ text, isNumeral d = true := fun d hd => isNumeral_of_isDigit (h d hd)
      have hpoints : text.count '.' ≤ 1 := by
        rw [List.count_eq_zero.mpr (point_not_mem h)]
        omega
      refine ⟨⟨text, hnumeral, ⟨c, hc, h c hc⟩, hpoints⟩, rfl, ?_⟩
      rw [hvalue _ rfl]
      exact Option.some.inj hx
  · rintro ⟨n, hn, rfl⟩
    obtain ⟨c, hc, -⟩ := n.some_digit
    rw [if_neg (fun hnil => by rw [hn, hnil] at hc; contradiction), hvalue n hn]

/-- Behind a first point there must be digits only, and a digit on one side of it. -/
theorem mantissa?_point_iff (hw : ∀ c ∈ whole, Literal.isDigit c = true) (hr : ∀ c ∈ rest, isNumeral c = true)
    (x : Float) :
    Literal.mantissa? (whole ++ '.' :: rest) = some x ↔
      ∃ n : Numeral, n.text = whole ++ '.' :: rest ∧ n.value = x := by
  have hvalue : ∀ n : Numeral, n.text = whole ++ '.' :: rest → (∀ c ∈ rest, Literal.isDigit c = true) →
      n.value = Double.ofDecimal false (Literal.natOfDigits (whole ++ rest)) (-(rest.length : Int)) := by
    intro n hn hrest
    obtain ⟨hdigits, hplaces⟩ := Numeral.parts_point hn hw hrest
    rw [Numeral.value, hdigits, hplaces]
  have hcount : (whole ++ '.' :: rest).count '.' = rest.count '.' + 1 := by
    rw [List.count_append, List.count_eq_zero.mpr (point_not_mem hw), List.count_cons_self, Nat.zero_add]
  have hnumeral : ∀ c ∈ whole ++ '.' :: rest, isNumeral c = true := by
    simp only [List.forall_mem_append, List.forall_mem_cons]
    exact ⟨fun c hc => isNumeral_of_isDigit (hw c hc), rfl, hr⟩
  rw [mantissa?_point hw]
  constructor
  · intro hx
    split at hx
    · next hdigits =>
      obtain ⟨hdigits, hnil⟩ := hdigits
      have hrest : ∀ c ∈ rest, Literal.isDigit c = true := List.all_eq_true.mp hdigits
      obtain ⟨c, hc⟩ := List.exists_mem_of_ne_nil _ hnil
      have hdigit : Literal.isDigit c = true := (List.mem_append.mp hc).elim (hw c) (hrest c)
      have hmem : c ∈ whole ++ '.' :: rest := by
        rcases List.mem_append.mp hc with hc | hc
        · exact List.mem_append_left _ hc
        · exact List.mem_append_right _ (List.mem_cons_of_mem _ hc)
      have hpoints : (whole ++ '.' :: rest).count '.' ≤ 1 := by
        rw [hcount, List.count_eq_zero.mpr (point_not_mem hrest)]
      refine ⟨⟨_, hnumeral, ⟨c, hmem, hdigit⟩, hpoints⟩, rfl, ?_⟩
      rw [hvalue _ rfl hrest]
      exact Option.some.inj hx
    · contradiction
  · rintro ⟨n, hn, rfl⟩
    have hrest := Numeral.digits_of_point hn
    obtain ⟨c, hc, hdigit⟩ := n.some_digit
    have hnil : whole ++ rest ≠ [] := by
      intro hnil
      obtain ⟨rfl, rfl⟩ := List.append_eq_nil_iff.mp hnil
      rw [hn, List.nil_append, List.mem_singleton] at hc
      rw [hc] at hdigit
      contradiction
    rw [if_pos ⟨List.all_eq_true.mpr hrest, hnil⟩, hvalue n hn hrest]

end

/-- A run of digits and points reads as a number exactly when it is a numeral, and then as its value. -/
theorem mantissa?_eq_some_iff {text : List Char} (h : ∀ c ∈ text, isNumeral c = true) (x : Float) :
    Literal.mantissa? text = some x ↔ ∃ n : Numeral, n.text = text ∧ n.value = x := by
  rcases numeral_cases h with hd | ⟨whole, rest, rfl, hw, hr⟩
  · exact mantissa?_digits_iff hd x
  · exact mantissa?_point_iff hw hr x

end Reckoner.Expression
