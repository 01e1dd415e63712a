import Reckoner.Number.Radix
import Reckoner.Proofs.Display.Shown
import Reckoner.Proofs.Number.Integral

/-!
# Texts of integers in a base

`integer?` reads texts in any base up to sixteen. It gives an integer back from its text in the base, which has no needless
zeros and a minus sign only if the integer is negative. The texts of a double are those of its integer part, and the opposite
double has the same texts with the sign changed.
-/

namespace Reckoner.Radix

open Double (exact towardZero)

set_option autoImplicit false

/-! ## Reading -/

/-- The digits in the order of their values. -/
def symbols : List Char :=
  ['0', '1', '2', '3', '4', '5', '6', '7', '8', '9', 'A', 'B', 'C', 'D', 'E', 'F']

def digit? (base : Nat) (c : Char) : Option Nat :=
  (symbols.idxOf? c).filter (· < base)

/-- Reads digits behind a number that was read so far. -/
def digits? (base n : Nat) (text : List Char) : Option Nat :=
  text.foldlM (fun n c => (digit? base c).map (base * n + ·)) n

/-- Reads an integer: at least one digit, with or without a minus sign in front. -/
def integer? (base : Nat) : List Char → Option Int
  | [] => none
  | ['-'] => none
  | '-' :: text => (digits? base 0 text).map fun (n : Nat) => -(n : Int)
  | text => (digits? base 0 text).map Int.ofNat

/-- Digits of a base, without a zero in front unless it stands alone. -/
structure PlainDigits (base : Nat) (text : List Char) : Prop where
  digits : ∀ c ∈ text, c ∈ symbols.take base
  nonempty : text ≠ []
  no_zero_in_front : text.head? = some '0' → text = ['0']

/-- The text reads as the integer and is in its plain form, with a minus sign exactly if the integer is negative. -/
structure Writes (base : Nat) (n : Int) (text : List Char) : Prop where
  reads : integer? base text = some n
  plain : ∃ digits, PlainDigits base digits ∧ text = if n < 0 then '-' :: digits else digits

/-! ## Digits -/

section
variable {base : Nat}

theorem symbol_spec : ∀ d < 16, symbols.idxOf? (Nat.digitChar d).toUpper = some d ∧
    symbols[d]? = some (Nat.digitChar d).toUpper ∧ ((Nat.digitChar d).toUpper = '0' → d = 0) := by
  decide

theorem digit?_symbol (hlarge : base ≤ 16) {d : Nat} (hd : d < base) : digit? base (Nat.digitChar d).toUpper = some d := by
  rw [digit?, (symbol_spec d (by omega)).1, Option.filter_some, if_pos (decide_eq_true hd)]

theorem symbol_mem (hlarge : base ≤ 16) {d : Nat} (hd : d < base) : (Nat.digitChar d).toUpper ∈ symbols.take base := by
  refine List.mem_of_getElem? (i := d) ?_
  rw [List.getElem?_take_of_lt hd]
  exact (symbol_spec d (by omega)).2.1

theorem digits_of_lt {n : Nat} (h : n < base) : digits base n = [(Nat.digitChar n).toUpper] := by
  rw [digits, Nat.toDigits_of_lt_base h, List.map_singleton]

theorem digits_of_le (hbase : 1 < base) {n : Nat} (h : base ≤ n) :
    digits base n = digits base (n / base) ++ [(Nat.digitChar (n % base)).toUpper] := by
  rw [digits, Nat.toDigits_of_base_le hbase h, List.map_append, List.map_singleton, digits]

theorem digits?_digits (hbase : 1 < base) (hlarge : base ≤ 16) (n : Nat) : digits? base 0 (digits base n) = some n := by
  induction n using Nat.strongRecOn with
  | ind n ih =>
    by_cases hsmall : n < base
    · rw [digits_of_lt hsmall, digits?, List.foldlM_cons, digit?_symbol hlarge hsmall]
      simp
    · have hle := not_lt.mp hsmall
      have hrest : n % base < base := Nat.mod_lt n (by omega)
      have hread := ih (n / base) (Nat.div_lt_self (by omega) hbase)
      rw [digits?] at hread
      rw [digits_of_le hbase hle, digits?, List.foldlM_append, hread]
      simp [digit?_symbol hlarge hrest, Nat.div_add_mod]

theorem head?_digits (hbase : 1 < base) (hlarge : base ≤ 16) {n : Nat} (h : (digits base n).head? = some '0') : n = 0 := by
  induction n using Nat.strongRecOn with
  | ind n ih =>
    by_cases hsmall : n < base
    · rw [digits_of_lt hsmall, List.head?_cons, Option.some_inj] at h
      exact (symbol_spec n (by omega)).2.2 h
    · have hle := not_lt.mp hsmall
      have hne : digits base (n / base) ≠ [] := by simp [digits]
      rw [digits_of_le hbase hle, List.head?_append_of_ne_nil _ hne] at h
      have hquotient := ih (n / base) (Nat.div_lt_self (by omega) hbase) h
      have hpos : 0 < n / base := Nat.div_pos hle (by omega)
      omega

theorem digits_plain (hbase : 1 < base) (hlarge : base ≤ 16) (n : Nat) : PlainDigits base (digits base n) where
  digits := by
    induction n using Nat.strongRecOn with
    | ind n ih =>
      by_cases hsmall : n < base
      · rw [digits_of_lt hsmall]
        exact List.forall_mem_singleton.mpr (symbol_mem hlarge hsmall)
      · rw [digits_of_le hbase (not_lt.mp hsmall)]
        refine List.forall_mem_append.mpr ⟨ih (n / base) (Nat.div_lt_self (by omega) hbase), ?_⟩
        exact List.forall_mem_singleton.mpr (symbol_mem hlarge (Nat.mod_lt n (by omega)))
  nonempty := by simp [digits]
  no_zero_in_front h := by
    rw [head?_digits hbase hlarge h, digits_of_lt (by omega)]
    rfl

theorem PlainDigits.ne_minus {text : List Char} (h : PlainDigits base text) : text.head? ≠ some '-' := by
  intro hhead
  have hmem := List.mem_of_mem_take (h.digits '-' (List.mem_of_head? hhead))
  exact absurd hmem (by decide)

/-! ## Integers -/

theorem integer?_minus {text : List Char} (h : text ≠ []) :
    integer? base ('-' :: text) = (digits? base 0 text).map fun (n : Nat) => -(n : Int) := by
  cases text with
  | nil => exact absurd rfl h
  | cons c text => rfl

theorem integer?_of_head {text : List Char} (h : text ≠ []) (hhead : text.head? ≠ some '-') :
    integer? base text = (digits? base 0 text).map Int.ofNat := by
  unfold integer?
  split
  · exact absurd rfl h
  · exact absurd rfl hhead
  · exact absurd rfl hhead
  · rfl

theorem text_writes (hbase : 1 < base) (hlarge : base ≤ 16) (n : Int) : Writes base n (text base n) := by
  have hplain := digits_plain hbase hlarge n.natAbs
  refine ⟨?_, digits base n.natAbs, hplain, rfl⟩
  unfold text
  split
  · next hneg =>
    rw [integer?_minus hplain.nonempty, digits?_digits hbase hlarge, Option.map_some]
    exact congrArg some (by omega)
  · next hnonneg =>
    rw [integer?_of_head hplain.nonempty hplain.ne_minus, digits?_digits hbase hlarge, Option.map_some]
    exact congrArg some (Int.natAbs_of_nonneg (not_lt.mp hnonneg))

/-- Puts a minus sign in front or takes it away; zero stays. -/
def opposite : List Char → List Char
  | ['0'] => ['0']
  | '-' :: text => text
  | text => '-' :: text

theorem opposite_digits (hbase : 1 < base) (hlarge : base ≤ 16) {n : Nat} (hn : 0 < n) :
    opposite (digits base n) = '-' :: digits base n := by
  have hplain := digits_plain hbase hlarge n
  unfold opposite
  split
  · next hzero =>
    have hhead : (digits base n).head? = some '0' := by
      rw [hzero]
      rfl
    exact absurd (head?_digits hbase hlarge hhead) hn.ne'
  · next hminus =>
    refine absurd ?_ hplain.ne_minus
    rw [hminus]
    rfl
  · rfl

theorem text_neg (hbase : 1 < base) (hlarge : base ≤ 16) (n : Int) : text base (-n) = opposite (text base n) := by
  unfold text
  rw [Int.natAbs_neg]
  rcases lt_trichotomy n 0 with hneg | rfl | hpos
  · rw [if_neg (by omega), if_pos hneg]
    rfl
  · rw [Int.neg_zero, if_neg (lt_irrefl 0), Int.natAbs_zero, digits_of_lt (by omega)]
    rfl
  · rw [if_pos (by omega), if_neg (by omega), opposite_digits hbase hlarge (by omega)]

end

/-! ## Doubles -/

/-- The four texts of an integer, each in its plain form. -/
structure Bases.Shows (b : Bases) (n : Int) : Prop where
  hex : Writes 16 n b.hex.toList
  dec : Writes 10 n b.dec.toList
  oct : Writes 8 n b.oct.toList
  bin : Writes 2 n b.bin.toList

theorem Bases.ofInt_shows (n : Int) : (Bases.ofInt n).Shows n where
  hex := by simpa [ofInt] using text_writes (by decide) (by decide) n
  dec := by simpa [ofInt] using text_writes (by decide) (by decide) n
  oct := by simpa [ofInt] using text_writes (by decide) (by decide) n
  bin := by simpa [ofInt] using text_writes (by decide) (by decide) n

/-- The four texts with the sign changed. -/
def Bases.opposite (b : Bases) : Bases :=
  { hex := String.ofList (Radix.opposite b.hex.toList)
    dec := String.ofList (Radix.opposite b.dec.toList)
    oct := String.ofList (Radix.opposite b.oct.toList)
    bin := String.ofList (Radix.opposite b.bin.toList) }

theorem Bases.ofInt_neg (n : Int) : Bases.ofInt (-n) = (Bases.ofInt n).opposite := by
  simp [ofInt, opposite, text_neg]

section
variable {x : Float}

theorem bases?_eq (hx : x.isFinite = true) : bases? x = some (Bases.ofInt (towardZero (exact x))) := by
  rw [bases?, Double.trunc?_eq hx, Option.map_some]

theorem bases?_eq_none_iff : bases? x = none ↔ x.isFinite = false := by
  rw [bases?, Option.map_eq_none_iff, Double.trunc?_eq_none_iff]

theorem bases?_neg (x : Float) : bases? (-x) = (bases? x).map Bases.opposite := by
  by_cases hx : x.isFinite = true
  · rw [bases?_eq hx, bases?_eq (Double.neg_isFinite hx), Double.exact_neg hx, Double.towardZero_neg, Option.map_some,
      Bases.ofInt_neg]
  · rcases Double.special_of_not_isFinite (Bool.not_eq_true _ ▸ hx) with rfl | ⟨negative, rfl⟩
    · rfl
    · cases negative <;> rfl

theorem bases?_of_small (hx : x.isFinite = true) (hsmall : |exact x| < 1) : bases? x = some ⟨"0", "0", "0", "0"⟩ := by
  rw [bases?_eq hx, Double.towardZero_eq_zero hsmall]
  decide

theorem length_text_le (hx : x.isFinite = true) :
    (text 10 (towardZero (exact x))).length ≤ if towardZero (exact x) < 0 then 310 else 309 := by
  have hbound : |(towardZero (exact x) : ℚ)| < 10 ^ (309 : Int) :=
    ((Double.abs_towardZero_le _).trans (Double.abs_exact_le hx)).trans_lt Display.largest_lt_ten_zpow
  have hnat : (((towardZero (exact x)).natAbs : Nat) : ℚ) < 10 ^ 309 := by
    rwa [Nat.cast_natAbs, Int.cast_abs, ← zpow_natCast]
  have hdigits : (digits 10 (towardZero (exact x)).natAbs).length ≤ 309 := by
    rw [digits, List.length_map, Nat.length_toDigits_le_iff (by decide) (by decide)]
    exact_mod_cast hnat
  unfold text
  split
  · rw [List.length_cons]
    omega
  · exact hdigits

end

end Reckoner.Radix
