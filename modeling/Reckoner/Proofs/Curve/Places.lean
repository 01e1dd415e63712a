import Reckoner.Curve
import Reckoner.Proofs.Number.Arithmetic

/-!
# The places of a curve

The places of a curve are computed in doubles: a step times an index, and the lower bound added to it. As long as the
width of the domain is finite, each of the three roundings keeps the order, so the places go up from the lower bound. The
last place is the upper bound whatever was computed, so only the place before it can be out of order.
-/

namespace Reckoner.Curve

open Double

set_option autoImplicit false

/-- Places that a line can be drawn through from the lower to the upper bound. -/
structure Ordered (xMin xMax : Float) (xs : List Float) : Prop where
  finite : ∀ x ∈ xs, x.isFinite = true
  within : ∀ x ∈ xs, xMin ≤ x ∧ x ≤ xMax
  increasing : xs.Pairwise (· ≤ ·)
  first : ∃ x, xs.head? = some x ∧ (x == xMin) = true
  last : xs.getLast? = some xMax

/-- What is added to the lower bound at the place with the given index. -/
def offset (width parts : Float) (index : Nat) : Float :=
  if width / parts == 0 then ofInt index / parts * width else ofInt index * (width / parts)

theorem place_eq {xMin xMax : Float} {count index : Nat} (h : index + 1 ≠ count) :
    place xMin xMax count index = offset (xMax - xMin) (ofInt (count - 1 : Nat)) index + xMin := by
  unfold place offset
  rw [if_neg h]
  split <;> rfl

theorem place_last (xMin xMax : Float) {count index : Nat} (h : index + 1 = count) : place xMin xMax count index = xMax :=
  if_pos h

/-! ## Integers as doubles -/

theorem ofInt_mono {i j : Nat} (h : i ≤ j) : ofInt i ≤ ofInt j :=
  (rounds_ofInt i).mono (rounds_ofInt j) (by exact_mod_cast h)

theorem ofInt_isFinite {i j : Nat} (h : i ≤ j) (hj : (ofInt j).isFinite = true) : (ofInt i).isFinite = true := by
  rw [(rounds_ofInt _).isFinite_iff] at hj ⊢
  refine lt_of_le_of_lt ?_ hj
  push_cast
  rw [Nat.abs_cast, Nat.abs_cast]
  exact_mod_cast h

theorem exact_ofInt_mono {i j : Nat} (h : i ≤ j) (hj : (ofInt j).isFinite = true) : exact (ofInt i) ≤ exact (ofInt j) :=
  (le_iff (ofInt_isFinite h hj) hj).mp (ofInt_mono h)

theorem exact_ofInt_zero : exact (ofInt (0 : Nat)) = 0 :=
  exact_zero

theorem exact_ofInt_nonneg {i : Nat} (hi : (ofInt i).isFinite = true) : 0 ≤ exact (ofInt i) := by
  rw [← exact_ofInt_zero]
  exact exact_ofInt_mono (Nat.zero_le i) hi

theorem one_le_exact_ofInt {n : Nat} (hn : 1 ≤ n) (hfinite : (ofInt n).isFinite = true) : 1 ≤ exact (ofInt n) := by
  rw [← Nat.cast_one, ← (exact_ofInt (k := 1) (by norm_num)).2]
  exact exact_ofInt_mono hn hfinite

theorem ofInt_finite_or_infinity (n : Nat) : (ofInt n).isFinite = true ∨ ofInt n = infinity false := by
  rcases lt_or_ge |((n : Int) : ℚ)| overflow with hsmall | hlarge
  · exact Or.inl ((rounds_ofInt n).isFinite_iff.mpr hsmall)
  · refine Or.inr ?_
    rw [(rounds_ofInt n).eq_infinity hlarge, decide_eq_false (not_lt.mpr _)]
    exact_mod_cast Nat.zero_le n

/-! ## Offsets -/

/-- Up to an index the doubles are exact numbers rounded, and these begin at zero and never decrease. -/
structure Ascends (f : Nat → Float) (q : Nat → ℚ) (last : Nat) : Prop where
  zero : q 0 = 0
  rounds : ∀ {i}, i ≤ last → Rounds (f i) (q i)
  mono : ∀ {i j}, i ≤ j → j ≤ last → q i ≤ q j

section
variable {width : Float} {n last : Nat}

/-- The quotient of two numbers of which the second is at least one. -/
theorem quotient_isFinite {x : Float} (hx : x.isFinite = true) (hn : 1 ≤ n) (hparts : (ofInt n).isFinite = true) :
    Rounds (x / ofInt n) (exact x / exact (ofInt n)) ∧ (x / ofInt n).isFinite = true := by
  have hone := one_le_exact_ofInt hn hparts
  have hrounds := rounds_div hx hparts (by linarith)
  refine ⟨hrounds, hrounds.isFinite_iff.mpr ?_⟩
  rw [abs_div, abs_of_nonneg (zero_le_one.trans hone)]
  exact (div_le_self (abs_nonneg _) hone).trans_lt ((abs_exact_le hx).trans_lt largest_lt_overflow)

/-- With a step that is not zero the offsets are its multiples, rounded. -/
theorem offset_ascends_of_step (hwidth : width.isFinite = true) (hnonneg : 0 ≤ exact width) (hn : 1 ≤ n)
    (hparts : (ofInt n).isFinite = true) (hstep : (width / ofInt n == 0) = false) :
    Ascends (offset width (ofInt n)) (fun i => exact (ofInt i) * exact (width / ofInt n)) n := by
  obtain ⟨hrounds, hfinite⟩ := quotient_isFinite hwidth hn hparts
  have hpositive : 0 ≤ exact (width / ofInt n) :=
    hrounds.exact_nonneg hfinite (div_nonneg hnonneg (exact_ofInt_nonneg hparts))
  refine ⟨?_, fun hi => ?_, fun hij hj => ?_⟩
  · rw [exact_ofInt_zero, zero_mul]
  · rw [offset, hstep, if_neg Bool.false_ne_true]
    exact rounds_mul (ofInt_isFinite hi hparts) hfinite
  · exact mul_le_mul_of_nonneg_right (exact_ofInt_mono hij (ofInt_isFinite hj hparts)) hpositive

/-- With a step of zero the offsets are fractions of the width, rounded twice. -/
theorem offset_ascends_of_zero (hwidth : width.isFinite = true) (hnonneg : 0 ≤ exact width) (hn : 1 ≤ n)
    (hparts : (ofInt n).isFinite = true) (hstep : (width / ofInt n == 0) = true) :
    Ascends (offset width (ofInt n)) (fun i => exact (ofInt i / ofInt n) * exact width) n := by
  refine ⟨?_, fun {i} hi => ?_, fun {i j} hij hj => ?_⟩
  · obtain ⟨hrounds, -⟩ := quotient_isFinite (ofInt_isFinite (Nat.zero_le n) hparts) hn hparts
    rw [exact_ofInt_zero, zero_div] at hrounds
    obtain ⟨negative, hzero⟩ := hrounds.eq_zero
    rw [hzero, (exact_zero_of negative).2, zero_mul]
  · rw [offset, hstep, if_pos rfl]
    exact rounds_mul (quotient_isFinite (ofInt_isFinite hi hparts) hn hparts).2 hwidth
  · obtain ⟨hrounds, hfinite⟩ := quotient_isFinite (ofInt_isFinite (hij.trans hj) hparts) hn hparts
    obtain ⟨hrounds', hfinite'⟩ := quotient_isFinite (ofInt_isFinite hj hparts) hn hparts
    have hquotient : exact (ofInt i) / exact (ofInt n) ≤ exact (ofInt j) / exact (ofInt n) :=
      div_le_div_of_nonneg_right (exact_ofInt_mono hij (ofInt_isFinite hj hparts)) (exact_ofInt_nonneg hparts)
    exact mul_le_mul_of_nonneg_right (hrounds.exact_mono hrounds' hfinite hfinite' hquotient) hnonneg

/-- With more samples than doubles can count the offsets are zeros, as far as they are numbers. -/
theorem offset_ascends_of_infinity (hwidth : width.isFinite = true) (hparts : ofInt n = infinity false)
    (hnumber : (offset width (ofInt n) last).isNaN = false) : Ascends (offset width (ofInt n)) (fun _ => 0) last := by
  have hstep : (width / ofInt n == 0) = true := by
    obtain ⟨negative, hzero⟩ := div_infinity hwidth false
    rw [hparts, hzero]
    cases negative <;> rfl
  have hoffset : ∀ i, offset width (ofInt n) i = ofInt i / infinity false * width := by
    intro i
    rw [offset, hstep, if_pos rfl, hparts]
  have hlast : (ofInt last).isFinite = true := by
    refine (ofInt_finite_or_infinity last).resolve_right fun hinfinity => ?_
    rw [hoffset, hinfinity, isNaN_mul (isNaN_infinity_div_infinity false false)] at hnumber
    exact absurd hnumber (by decide)
  refine ⟨rfl, fun {i} hi => ?_, fun _ _ => le_rfl⟩
  obtain ⟨negative, hzero⟩ := div_infinity (ofInt_isFinite hi hlast) false
  obtain ⟨hfinite, hexact⟩ := exact_zero_of negative
  have hrounds := rounds_mul hfinite hwidth
  rwa [hexact, zero_mul, ← hzero, ← hoffset] at hrounds

theorem offset_ascends (hwidth : width.isFinite = true) (hnonneg : 0 ≤ exact width) (hn : 1 ≤ n) (hlast : last ≤ n)
    (hnumber : (offset width (ofInt n) last).isNaN = false) : ∃ q, Ascends (offset width (ofInt n)) q last := by
  rcases ofInt_finite_or_infinity n with hparts | hparts
  · cases hstep : width / ofInt n == 0 with
    | false =>
      have h := offset_ascends_of_step hwidth hnonneg hn hparts hstep
      exact ⟨_, h.zero, fun hi => h.rounds (hi.trans hlast), fun hij hj => h.mono hij (hj.trans hlast)⟩
    | true =>
      have h := offset_ascends_of_zero hwidth hnonneg hn hparts hstep
      exact ⟨_, h.zero, fun hi => h.rounds (hi.trans hlast), fun hij hj => h.mono hij (hj.trans hlast)⟩
  · exact ⟨_, offset_ascends_of_infinity hwidth hparts hnumber⟩

end

/-! ## From offsets to places -/

namespace Ascends

variable {f : Nat → Float} {q : Nat → ℚ} {last : Nat} {xMin xMax : Float}

theorem nonneg (h : Ascends f q last) {i : Nat} (hi : i ≤ last) : 0 ≤ q i := by
  rw [← h.zero]
  exact h.mono (Nat.zero_le i) hi

theorem isFinite (h : Ascends f q last) (hmin : xMin.isFinite = true) (hmax : xMax.isFinite = true)
    (hbound : f last + xMin ≤ xMax) {i : Nat} (hi : i ≤ last) : (f i).isFinite = true := by
  have hfirst : (f 0).isFinite = true := by
    have hrounds := h.rounds (Nat.zero_le last)
    rw [h.zero] at hrounds
    obtain ⟨negative, hzero⟩ := hrounds.eq_zero
    rw [hzero]
    exact (exact_zero_of negative).1
  have hle : ∀ {i j}, i ≤ j → j ≤ last → f i ≤ f j := fun hij hj =>
    (h.rounds (hij.trans hj)).mono (h.rounds hj) (h.mono hij hj)
  have hlast : (f last).isFinite = true := by
    rcases finite_or_infinity (h.rounds le_rfl).isNaN_eq with hfinite | ⟨negative, hinfinity⟩
    · exact hfinite
    · cases negative with
      | false =>
        rw [hinfinity, infinity_add hmin] at hbound
        exact absurd hbound (not_infinity_le hmax)
      | true =>
        have hzero := hle (Nat.zero_le last) le_rfl
        rw [hinfinity] at hzero
        exact absurd hzero (not_le_infinity hfirst)
  exact isFinite_of_between hfirst hlast (hle (Nat.zero_le i) hi) (hle hi le_rfl)

theorem place_le (h : Ascends f q last) (hmin : xMin.isFinite = true) (hmax : xMax.isFinite = true)
    (hbound : f last + xMin ≤ xMax) {i j : Nat} (hij : i ≤ j) (hj : j ≤ last) : f i + xMin ≤ f j + xMin := by
  have hfinite := h.isFinite hmin hmax hbound (hij.trans hj)
  have hfinite' := h.isFinite hmin hmax hbound hj
  have hexact := (h.rounds (hij.trans hj)).exact_mono (h.rounds hj) hfinite hfinite' (h.mono hij hj)
  exact (rounds_add hfinite hmin).mono (rounds_add hfinite' hmin) (by linarith)

theorem place_zero (h : Ascends f q last) (hmin : xMin.isFinite = true) :
    (f 0 + xMin).isFinite = true ∧ exact (f 0 + xMin) = exact xMin := by
  have hrounds := h.rounds (Nat.zero_le last)
  rw [h.zero] at hrounds
  obtain ⟨negative, hzero⟩ := hrounds.eq_zero
  obtain ⟨hfinite, hexact⟩ := exact_zero_of negative
  have hsum := rounds_add hfinite hmin
  rw [hexact, zero_add] at hsum
  rw [hzero]
  exact Rounds.of_exact hmin hsum

theorem place_isFinite (h : Ascends f q last) (hmin : xMin.isFinite = true) (hmax : xMax.isFinite = true)
    (hbound : f last + xMin ≤ xMax) {i : Nat} (hi : i ≤ last) : (f i + xMin).isFinite = true := by
  have hfirst := (h.place_zero hmin).1
  have hlast := isFinite_of_between hfirst hmax (h.place_le hmin hmax hbound (Nat.zero_le last) le_rfl) hbound
  exact isFinite_of_between hfirst hlast (h.place_le hmin hmax hbound (Nat.zero_le i) hi)
    (h.place_le hmin hmax hbound hi le_rfl)

theorem place_within (h : Ascends f q last) (hmin : xMin.isFinite = true) (hmax : xMax.isFinite = true)
    (hbound : f last + xMin ≤ xMax) {i : Nat} (hi : i ≤ last) : xMin ≤ f i + xMin ∧ f i + xMin ≤ xMax := by
  obtain ⟨hfirst, hexact⟩ := h.place_zero hmin
  have hfinite := h.place_isFinite hmin hmax hbound hi
  have hlast := h.place_isFinite hmin hmax hbound le_rfl
  have hlow := (le_iff hfirst hfinite).mp (h.place_le hmin hmax hbound (Nat.zero_le i) hi)
  have hhigh := (le_iff hfinite hlast).mp (h.place_le hmin hmax hbound hi le_rfl)
  have htop := (le_iff hlast hmax).mp hbound
  exact ⟨(le_iff hmin hfinite).mpr (hexact ▸ hlow), (le_iff hfinite hmax).mpr (hhigh.trans htop)⟩

end Ascends

/-! ## The order of the places -/

section
variable {xMin xMax : Float} {count : Nat}

theorem exact_lt (hmin : xMin.isFinite = true) (hmax : xMax.isFinite = true) (hlt : ¬ xMax ≤ xMin) :
    exact xMin < exact xMax :=
  not_le.mp fun hle => hlt ((le_iff hmax hmin).mpr hle)

theorem exact_width_nonneg (hmin : xMin.isFinite = true) (hmax : xMax.isFinite = true) (hlt : ¬ xMax ≤ xMin)
    (hwidth : (xMax - xMin).isFinite = true) : 0 ≤ exact (xMax - xMin) :=
  (rounds_sub hmax hmin).exact_nonneg hwidth (sub_nonneg.mpr (exact_lt hmin hmax hlt).le)

theorem place_zero_isNaN (hmin : xMin.isFinite = true) (hmax : xMax.isFinite = true) (hcount : 2 ≤ count)
    (hwidth : (xMax - xMin).isFinite = false) : (place xMin xMax count 0).isNaN = true := by
  obtain ⟨negative, hinfinity⟩ : ∃ negative, xMax - xMin = infinity negative := by
    refine (special_of_not_isFinite hwidth).resolve_left fun hnan => ?_
    have hcause := (isNaN_sub xMax xMin).mp (by rw [hnan]; decide)
    rw [isNaN_of_isFinite hmin, isNaN_of_isFinite hmax, isInf_of_isFinite hmax] at hcause
    simp at hcause
  have hstep : (infinity negative / ofInt (count - 1 : Nat) == 0) = false := by
    by_contra hzero
    have hfinite := isFinite_of_beq_zero (by simpa using hzero)
    rw [not_isFinite_infinity_div] at hfinite
    exact absurd hfinite (by decide)
  have hoffset : (offset (infinity negative) (ofInt (count - 1 : Nat)) 0).isNaN = true := by
    rw [offset, hstep, if_neg Bool.false_ne_true]
    exact isNaN_zero_mul false (not_isFinite_infinity_div negative _)
  rw [place_eq (by omega), hinfinity]
  exact (isNaN_add _ _).mpr (Or.inl hoffset)

/-- The places are in order as soon as the last one that is computed is not beyond the upper bound. -/
theorem ordered_of_le (hmin : xMin.isFinite = true) (hmax : xMax.isFinite = true) (hlt : ¬ xMax ≤ xMin) (hcount : 2 ≤ count)
    (hwidth : (xMax - xMin).isFinite = true) (hle : place xMin xMax count (count - 2) ≤ xMax) :
    Ordered xMin xMax ((List.range count).map (place xMin xMax count)) := by
  have hplace : ∀ {i}, i ≤ count - 2 →
      place xMin xMax count i = offset (xMax - xMin) (ofInt (count - 1 : Nat)) i + xMin := fun hi => place_eq (by omega)
  have hend : ∀ {i}, i < count → i ≤ count - 2 ∨ i + 1 = count := fun hi => by omega
  rw [hplace le_rfl] at hle
  have hnumber : (offset (xMax - xMin) (ofInt (count - 1 : Nat)) (count - 2)).isNaN = false := by
    by_contra hnan
    have hsum := (isNaN_add _ xMin).mpr (Or.inl (by simpa using hnan))
    rw [(isNaN_of_le hle).1] at hsum
    exact absurd hsum (by decide)
  obtain ⟨q, hascends⟩ :=
    offset_ascends hwidth (exact_width_nonneg hmin hmax hlt hwidth) (by omega) (by omega) hnumber
  have hwithin : ∀ {i}, i < count → (place xMin xMax count i).isFinite = true ∧ xMin ≤ place xMin xMax count i ∧
      place xMin xMax count i ≤ xMax := by
    intro i hi
    rcases hend hi with hinside | hlast
    · rw [hplace hinside]
      exact ⟨hascends.place_isFinite hmin hmax hle hinside, hascends.place_within hmin hmax hle hinside⟩
    · rw [place_last xMin xMax hlast]
      exact ⟨hmax, (le_iff hmin hmax).mpr (exact_lt hmin hmax hlt).le, (le_iff hmax hmax).mpr le_rfl⟩
  refine ⟨?_, ?_, ?_, ⟨place xMin xMax count 0, ?_, ?_⟩, ?_⟩
  · intro x hx
    obtain ⟨i, hi, rfl⟩ := List.mem_map.mp hx
    exact (hwithin (List.mem_range.mp hi)).1
  · intro x hx
    obtain ⟨i, hi, rfl⟩ := List.mem_map.mp hx
    exact (hwithin (List.mem_range.mp hi)).2
  · rw [List.pairwise_map]
    refine List.pairwise_lt_range.imp_of_mem fun {i j} _ hj hij => ?_
    rcases hend (List.mem_range.mp hj) with hinside | hlast
    · rw [hplace (by omega), hplace hinside]
      exact hascends.place_le hmin hmax hle hij.le hinside
    · rw [place_last xMin xMax hlast]
      exact (hwithin (hij.trans (List.mem_range.mp hj))).2.2
  · rw [List.head?_map, List.head?_range, if_neg (by omega)]
    rfl
  · obtain ⟨hfirst, hexact⟩ := hascends.place_zero hmin
    rw [hplace (Nat.zero_le _), beq_iff hfirst hmin]
    exact hexact
  · rw [List.getLast?_map, List.getLast?_range, if_neg (by omega), Option.map_some, place_last xMin xMax (by omega)]

/-- The width and the last place that is computed decide whether the places are in order. -/
theorem ordered_iff (hmin : xMin.isFinite = true) (hmax : xMax.isFinite = true) (hlt : ¬ xMax ≤ xMin) (hcount : 2 ≤ count) :
    Ordered xMin xMax ((List.range count).map (place xMin xMax count)) ↔
      (xMax - xMin).isFinite = true ∧ place xMin xMax count (count - 2) ≤ xMax := by
  have hmem : ∀ {i}, i < count → place xMin xMax count i ∈ (List.range count).map (place xMin xMax count) := fun hi =>
    List.mem_map_of_mem (List.mem_range.mpr hi)
  refine ⟨fun h => ⟨?_, (h.within _ (hmem (by omega))).2⟩, fun h => ordered_of_le hmin hmax hlt hcount h.1 h.2⟩
  by_contra hwidth
  have hnan := place_zero_isNaN hmin hmax hcount (by simpa using hwidth)
  have hfinite := isNaN_of_isFinite (h.finite _ (hmem (Nat.lt_of_lt_of_le Nat.zero_lt_two hcount)))
  rw [hnan] at hfinite
  exact absurd hfinite (by decide)

end

/-! ## Steps that keep their bits -/

/-- The unit roundoff: the greatest relative error of one rounding. -/
def unit : ℚ :=
  2 ^ (-53 : Int)

theorem exact_mul_le {x : Float} {q : ℚ} (h : Rounds x q) (hx : x.isFinite = true) (hnormal : 2 ^ (-1022 : Int) ≤ exact x) :
    exact x * (1 - unit) ≤ q := by
  have hpos : 0 ≤ exact x := (two_zpow_pos _).le.trans hnormal
  have herror := h.error hx (hnormal.trans (le_abs_self _))
  rw [abs_of_nonneg hpos] at herror
  have hle := (abs_le.mp herror).2
  unfold unit
  linarith

/-- One part of at most `2 ^ 51` is more than the errors of three roundings. -/
theorem parts_le_cube {n : Nat} (hn : 1 ≤ n) (hlarge : n ≤ 2 ^ 51) : ((n : ℚ) - 1) / n ≤ (1 - unit) ^ 3 := by
  have hpos : (0 : ℚ) < n := by exact_mod_cast hn
  have hle : (n : ℚ) ≤ 2 ^ 51 := by exact_mod_cast hlarge
  rw [div_le_iff₀ hpos]
  have hcube : (1 - unit) ^ 3 = 1 - (3 * unit - 3 * unit ^ 2 + unit ^ 3) := by ring
  have hsmall : (3 * unit - 3 * unit ^ 2 + unit ^ 3) * n ≤ (3 * unit - 3 * unit ^ 2 + unit ^ 3) * 2 ^ 51 :=
    mul_le_mul_of_nonneg_left hle (by norm_num [unit])
  have hone : (3 * unit - 3 * unit ^ 2 + unit ^ 3) * 2 ^ 51 ≤ 1 := by norm_num [unit]
  rw [hcube]
  linarith

theorem one_sub_unit_pos : 0 < 1 - unit := by
  norm_num [unit]

section
variable {n : Nat} {step whole : ℚ}

/-- All parts but one do not exceed the whole by as much as two roundings take away. -/
theorem pred_mul_le (hn : 1 ≤ n) (hlarge : n ≤ 2 ^ 51) (hwhole : 0 ≤ whole) (hstep : step * (1 - unit) ≤ whole / n) :
    ((n : ℚ) - 1) * step ≤ (1 - unit) ^ 2 * whole := by
  have hn' : (1 : ℚ) ≤ n := by exact_mod_cast hn
  refine le_of_mul_le_mul_right ?_ one_sub_unit_pos
  calc ((n : ℚ) - 1) * step * (1 - unit) = (n - 1) * (step * (1 - unit)) := mul_assoc _ _ _
    _ ≤ (n - 1) * (whole / n) := mul_le_mul_of_nonneg_left hstep (by linarith)
    _ = (n - 1) / n * whole := by ring
    _ ≤ (1 - unit) ^ 3 * whole := mul_le_mul_of_nonneg_right (parts_le_cube hn hlarge) hwhole
    _ = (1 - unit) ^ 2 * whole * (1 - unit) := by ring

theorem le_whole (hn : 2 ≤ n) (hnonneg : 0 ≤ step) (hstep : step * (1 - unit) ≤ whole / n) : step ≤ whole := by
  have hn' : (2 : ℚ) ≤ n := by exact_mod_cast hn
  have htimes : 1 ≤ (1 - unit) * n := by
    calc (1 : ℚ) ≤ (1 - unit) * 2 := by norm_num [unit]
      _ ≤ (1 - unit) * n := mul_le_mul_of_nonneg_left hn' one_sub_unit_pos.le
  calc step ≤ step * ((1 - unit) * n) := le_mul_of_one_le_right hnonneg htimes
    _ = step * (1 - unit) * n := (mul_assoc _ _ _).symm
    _ ≤ whole := (le_div_iff₀ (by linarith)).mp hstep

end

section
variable {width : Float} {n : Nat} {d : ℚ}

theorem step_ne_zero (hwidth : width.isFinite = true) (hn : 1 ≤ n) (hparts : (ofInt n).isFinite = true)
    (hpos : exact (width / ofInt n) ≠ 0) : (width / ofInt n == 0) = false := by
  by_contra hzero
  have hfinite := (quotient_isFinite hwidth hn hparts).2
  refine hpos ?_
  exact (beq_zero_iff hfinite).mp (by simpa using hzero)

/-- Three roundings of a step with all its bits do not carry the last offset beyond the exact width. -/
theorem offset_le_of_normal (hwidth : width.isFinite = true) (hd : Rounds width d) (hpos : 0 ≤ d) (hn : 1 ≤ n)
    (hlarge : n ≤ 2 ^ 51) (hnormal : 2 ^ (-1022 : Int) ≤ exact (width / ofInt n)) :
    (offset width (ofInt n) (n - 1)).isFinite = true ∧ exact (offset width (ofInt n) (n - 1)) ≤ d := by
  obtain ⟨hparts, hcount⟩ := exact_ofInt (k := n) (hlarge.trans_lt (by norm_num))
  obtain ⟨-, hcount'⟩ := exact_ofInt (k := n - 1) (by omega)
  have hnonneg : 0 ≤ exact width := hd.exact_nonneg hwidth hpos
  obtain ⟨hstep, hfinite⟩ := quotient_isFinite hwidth hn hparts
  have hstepPos : 0 < exact (width / ofInt n) := (two_zpow_pos _).trans_le hnormal
  have hrounds := (offset_ascends_of_step hwidth hnonneg hn hparts (step_ne_zero hwidth hn hparts hstepPos.ne')).rounds
    (Nat.sub_le n 1)
  have hstepLe := exact_mul_le hstep hfinite hnormal
  generalize offset width (ofInt n) (n - 1) = last at *
  generalize width / ofInt n = step at *
  rw [hcount', Nat.cast_sub hn, Nat.cast_one] at hrounds
  rw [hcount] at hstepLe
  have hn' : (1 : ℚ) ≤ n := by exact_mod_cast hn
  have hproduct := pred_mul_le hn hlarge hnonneg hstepLe
  have hlast : last.isFinite = true := by
    refine hrounds.isFinite_iff.mpr ?_
    rw [abs_of_nonneg (mul_nonneg (by linarith) hstepPos.le)]
    have hsquare : (1 - unit) ^ 2 * exact width ≤ exact width := mul_le_of_le_one_left hnonneg (by norm_num [unit])
    have hrange := abs_exact_le hwidth
    rw [abs_of_nonneg hnonneg] at hrange
    exact (hproduct.trans (hsquare.trans hrange)).trans_lt largest_lt_overflow
  refine ⟨hlast, ?_⟩
  rcases hn.eq_or_lt with rfl | htwo
  · rw [Nat.cast_one, sub_self, zero_mul] at hrounds
    obtain ⟨negative, rfl⟩ := hrounds.eq_zero
    rw [(exact_zero_of negative).2]
    exact hpos
  · have htwo' : (2 : ℚ) ≤ n := by exact_mod_cast htwo
    have hlastNormal : 2 ^ (-1022 : Int) ≤ exact last :=
      hnormal.trans (hrounds.le_exact hlast hfinite (le_mul_of_one_le_left hstepPos.le (by linarith)))
    have hwidthNormal := hnormal.trans (le_whole htwo hstepPos.le hstepLe)
    refine le_of_mul_le_mul_right ?_ one_sub_unit_pos
    calc exact last * (1 - unit) ≤ (n - 1) * exact step := exact_mul_le hrounds hlast hlastNormal
      _ ≤ (1 - unit) ^ 2 * exact width := hproduct
      _ = exact width * (1 - unit) * (1 - unit) := by ring
      _ ≤ d * (1 - unit) := mul_le_mul_of_nonneg_right (exact_mul_le hd hwidth hwidthNormal) one_sub_unit_pos.le

/-- A step that is rounded to zero belongs to a subnormal width. -/
theorem width_lt_of_step_zero (hwidth : width.isFinite = true) (hn : 1 ≤ n) (hlarge : n ≤ 2 ^ 51)
    (hzero : (width / ofInt n == 0) = true) : exact width < 2 ^ (-1022 : Int) := by
  obtain ⟨hparts, hcount⟩ := exact_ofInt (k := n) (hlarge.trans_lt (by norm_num))
  obtain ⟨hstep, hfinite⟩ := quotient_isFinite hwidth hn hparts
  obtain ⟨z, hz, hexact⟩ := exists_exact_two_zpow (e := -1073) (by decide) (by decide)
  rw [hcount] at hstep
  have hn' : (0 : ℚ) < n := by exact_mod_cast hn
  have hle : (n : ℚ) ≤ 2 ^ 51 := by exact_mod_cast hlarge
  have hquotient : exact width / n < exact z := by
    refine hstep.lt_exact hfinite hz ?_
    rw [(beq_zero_iff hfinite).mp hzero, hexact]
    exact two_zpow_pos _
  rw [hexact, div_lt_iff₀ hn'] at hquotient
  calc exact width < 2 ^ (-1073 : Int) * n := hquotient
    _ ≤ 2 ^ (-1073 : Int) * 2 ^ 51 := mul_le_mul_of_nonneg_left hle (two_zpow_pos _).le
    _ = 2 ^ (-1022 : Int) := (two_zpow_add (-1073) 51).symm

theorem exact_width_of_subnormal {xMin xMax : Float} (hmin : xMin.isFinite = true) (hmax : xMax.isFinite = true)
    (hlt : ¬ xMax ≤ xMin) (hwidth : (xMax - xMin).isFinite = true) (hsmall : exact (xMax - xMin) < 2 ^ (-1022 : Int)) :
    exact (xMax - xMin) = exact xMax - exact xMin := by
  have hrounds := rounds_sub hmax hmin
  have hlower : exact xMax - exact xMin < 2 ^ (-1022 : Int) := by
    obtain ⟨least, hleast, hexact⟩ := exists_exact_two_zpow (e := -1022) (by decide) (by decide)
    rw [← hexact] at hsmall ⊢
    exact hrounds.lt_exact hwidth hleast hsmall
  obtain ⟨k, hk⟩ := exact_sub_on_grid hmax hmin
  obtain ⟨z, hz, hexact⟩ := exists_exact_of_subnormal hk (sub_pos.mpr (exact_lt hmin hmax hlt)).le hlower
  rw [← hexact] at hrounds ⊢
  exact (Rounds.of_exact hz hrounds).2

theorem offset_le_of_zero (hwidth : width.isFinite = true) (hnonneg : 0 ≤ exact width) (hn : 1 ≤ n) (hlarge : n ≤ 2 ^ 51)
    (hzero : (width / ofInt n == 0) = true) :
    (offset width (ofInt n) (n - 1)).isFinite = true ∧ exact (offset width (ofInt n) (n - 1)) ≤ exact width := by
  obtain ⟨hparts, hcount⟩ := exact_ofInt (k := n) (hlarge.trans_lt (by norm_num))
  have hrounds := (offset_ascends_of_zero hwidth hnonneg hn hparts hzero).rounds (Nat.sub_le n 1)
  obtain ⟨hfraction, hfinite⟩ := quotient_isFinite (ofInt_isFinite (Nat.sub_le n 1) hparts) hn hparts
  obtain ⟨hone, hexactOne⟩ := exact_ofInt (k := 1) (by norm_num)
  have hpositive : 0 < exact (ofInt n) := zero_lt_one.trans_le (one_le_exact_ofInt hn hparts)
  have hle : exact (ofInt (n - 1 : Nat) / ofInt n) ≤ 1 := by
    have hquotient : exact (ofInt (n - 1 : Nat)) / exact (ofInt n) ≤ exact (ofInt (1 : Nat)) := by
      rw [hexactOne, Nat.cast_one]
      exact (div_le_one hpositive).mpr (exact_ofInt_mono (Nat.sub_le n 1) hparts)
    have hbound := hfraction.exact_le hfinite hone hquotient
    rwa [hexactOne, Nat.cast_one] at hbound
  have hproduct := mul_le_of_le_one_left hnonneg hle
  have hfractionNonneg : 0 ≤ exact (ofInt (n - 1 : Nat) / ofInt n) :=
    hfraction.exact_nonneg hfinite
      (div_nonneg (exact_ofInt_nonneg (ofInt_isFinite (Nat.sub_le n 1) hparts)) hpositive.le)
  have hlast : (offset width (ofInt n) (n - 1)).isFinite = true := by
    refine hrounds.isFinite_iff.mpr ?_
    rw [abs_of_nonneg (mul_nonneg hfractionNonneg hnonneg)]
    exact (hproduct.trans ((le_abs_self _).trans (abs_exact_le hwidth))).trans_lt largest_lt_overflow
  exact ⟨hlast, hrounds.exact_le hlast hwidth hproduct⟩

theorem offset_le_of_subnormal (hwidth : width.isFinite = true) (hnonneg : 0 ≤ exact width) (hn : 1 ≤ n)
    (hlarge : n ≤ 2 ^ 51) (hstep : (width / ofInt n == 0) = false) (hsmall : exact (width / ofInt n) < 2 ^ (-1022 : Int))
    {i : Nat} (hi : i ≤ n) :
    (offset width (ofInt n) i).isFinite = true ∧ |exact (offset width (ofInt n) i)| ≤ 2 ^ (-971 : Int) := by
  obtain ⟨hparts, -⟩ := exact_ofInt (k := n) (hlarge.trans_lt (by norm_num))
  obtain ⟨-, hindex⟩ := exact_ofInt (k := i) (hi.trans_lt (hlarge.trans_lt (by norm_num)))
  have hascends := offset_ascends_of_step hwidth hnonneg hn hparts hstep
  have hrounds := hascends.rounds hi
  have hproductNonneg := hascends.nonneg hi
  rw [hindex] at hrounds hproductNonneg
  obtain ⟨z, hz, hexact⟩ := exists_exact_two_zpow (e := -971) (by decide) (by decide)
  have hproduct : (i : ℚ) * exact (width / ofInt n) ≤ exact z := by
    have hindexLe : (i : ℚ) ≤ 2 ^ 51 := by exact_mod_cast hi.trans hlarge
    calc (i : ℚ) * exact (width / ofInt n) ≤ i * 2 ^ (-1022 : Int) :=
          mul_le_mul_of_nonneg_left hsmall.le (Nat.cast_nonneg i)
      _ ≤ 2 ^ 51 * 2 ^ (-1022 : Int) := mul_le_mul_of_nonneg_right hindexLe (two_zpow_pos _).le
      _ = exact z := (two_zpow_add 51 (-1022)).symm.trans hexact.symm
  have hoffset : (offset width (ofInt n) i).isFinite = true := by
    refine hrounds.isFinite_iff.mpr ?_
    rw [abs_of_nonneg hproductNonneg]
    exact (hproduct.trans ((le_abs_self _).trans (abs_exact_le hz))).trans_lt largest_lt_overflow
  refine ⟨hoffset, ?_⟩
  rw [abs_of_nonneg (hrounds.exact_nonneg hoffset hproductNonneg), ← hexact]
  exact hrounds.exact_le hoffset hz hproduct

end

section
variable {xMin xMax : Float} {count : Nat}

/-- The step between the places of a curve. -/
def stepOf (xMin xMax : Float) (count : Nat) : Float :=
  (xMax - xMin) / ofInt (count - 1 : Nat)

/-- The places are in order if the step is a normal double, or is zero so that it is not used. -/
theorem place_le_of_normal (hmin : xMin.isFinite = true) (hmax : xMax.isFinite = true) (hlt : ¬ xMax ≤ xMin)
    (hcount : 2 ≤ count) (hlarge : count ≤ 2 ^ 51) (hwidth : (xMax - xMin).isFinite = true)
    (hstep : (stepOf xMin xMax count == 0) = true ∨ 2 ^ (-1022 : Int) ≤ exact (stepOf xMin xMax count)) :
    place xMin xMax count (count - 2) ≤ xMax := by
  have hrounds := rounds_sub hmax hmin
  have hpos := sub_nonneg.mpr (exact_lt hmin hmax hlt).le
  have hoffset : (offset (xMax - xMin) (ofInt (count - 1 : Nat)) (count - 2)).isFinite = true ∧
      exact (offset (xMax - xMin) (ofInt (count - 1 : Nat)) (count - 2)) ≤ exact xMax - exact xMin := by
    rcases hstep with hzero | hnormal
    · have hsmall := width_lt_of_step_zero hwidth (by omega) (by omega) hzero
      rw [← exact_width_of_subnormal hmin hmax hlt hwidth hsmall]
      exact offset_le_of_zero hwidth (exact_width_nonneg hmin hmax hlt hwidth) (by omega) (by omega) hzero
    · exact offset_le_of_normal hwidth hrounds hpos (by omega) (by omega) hnormal
  rw [place_eq (by omega)]
  exact (rounds_add hoffset.1 hmin).mono (rounds_exact hmax) (by linarith [hoffset.2])

/-- Short of a domain that is too wide every place is a finite double, also where the places are not in order. -/
theorem place_isFinite (hmin : xMin.isFinite = true) (hmax : xMax.isFinite = true) (hlt : ¬ xMax ≤ xMin) (hcount : 2 ≤ count)
    (hlarge : count ≤ 2 ^ 51) (hwidth : (xMax - xMin).isFinite = true) {i : Nat} (hi : i < count) :
    (place xMin xMax count i).isFinite = true := by
  by_cases hstep : (stepOf xMin xMax count == 0) = true ∨ 2 ^ (-1022 : Int) ≤ exact (stepOf xMin xMax count)
  · have hle := place_le_of_normal hmin hmax hlt hcount hlarge hwidth hstep
    exact (ordered_of_le hmin hmax hlt hcount hwidth hle).finite _ (List.mem_map_of_mem (List.mem_range.mpr hi))
  · rw [not_or, Bool.not_eq_true, not_le] at hstep
    obtain ⟨hzero, hsmall⟩ := hstep
    by_cases hend : i + 1 = count
    · rw [place_last xMin xMax hend]
      exact hmax
    obtain ⟨hoffset, htiny⟩ := offset_le_of_subnormal hwidth (exact_width_nonneg hmin hmax hlt hwidth) (by omega)
      (by omega) hzero hsmall (show i ≤ count - 1 by omega)
    rw [place_eq hend, (rounds_add hoffset hmin).isFinite_iff]
    calc |exact (offset (xMax - xMin) (ofInt (count - 1 : Nat)) i) + exact xMin| ≤
          |exact (offset (xMax - xMin) (ofInt (count - 1 : Nat)) i)| + |exact xMin| := abs_add_le _ _
      _ ≤ 2 ^ (-971 : Int) + largest := add_le_add htiny (abs_exact_le hmin)
      _ < overflow := by
        rw [add_comm]
        exact largest_add_lt_overflow

end

end Reckoner.Curve
