import Reckoner.Expression.Function
import Reckoner.Proofs.Number.Integral

/-!
# Functions with integer values

Floor, ceiling and rounding of a finite double give the integers that its exact number calls for, and no other double is
changed by them. Rounding asks whether the double less its floor is at least one half; that difference is rounded itself, and
the answer is right nevertheless.
-/

namespace Reckoner.Expression.Function

open Double (exact floor?_eq ceil?_eq ofInt ofInt_of_near)

set_option autoImplicit false

section
variable {x : Float}

theorem floor_add_half (q : ℚ) : ⌊q + 1 / 2⌋ = if 1 / 2 ≤ q - ⌊q⌋ then ⌊q⌋ + 1 else ⌊q⌋ := by
  have hlow := Int.floor_le q
  have hhigh := Int.lt_floor_add_one q
  split
  · next hlarge =>
    rw [Int.floor_eq_iff]
    push_cast
    exact ⟨by linarith, by linarith⟩
  · next hsmall =>
    rw [Int.floor_eq_iff]
    exact ⟨by linarith, by linarith [not_le.mp hsmall]⟩

theorem roundHalfUp?_eq (hx : x.isFinite = true) : roundHalfUp? x = some ⌊exact x + 1 / 2⌋ := by
  rw [roundHalfUp?, floor?_eq hx, Option.map_some, floor_add_half]
  exact congrArg some (if_congr (Double.half_le_sub_floor hx) rfl rfl)

/-- The function has a finite value, and that is the integer. -/
def Gives (s : Settings) (f : Function) (x : Float) (n : Int) : Prop :=
  ∃ y, f.apply s x = .ok y ∧ y.isFinite = true ∧ exact y = n

theorem gives_viaInteger {s : Settings} {f : Function} {part : Float → Option Int} {n : Int}
    (hf : f.apply s x = .ok (viaInteger part x)) (hpart : part x = some n) (hx : x.isFinite = true)
    (hnear : |(n : ℚ) - exact x| < 1) : Gives s f x n := by
  refine ⟨ofInt n, ?_, ofInt_of_near hx hnear⟩
  rw [hf, viaInteger, hpart]

theorem viaInteger_of_none {part : Float → Option Int} (hpart : part x = none) : viaInteger part x = x := by
  rw [viaInteger, hpart]

theorem integers_eq_none (hx : x.isFinite = false) :
    Double.floor? x = none ∧ Double.ceil? x = none ∧ roundHalfUp? x = none := by
  have hfloor : Double.floor? x = none ∧ Double.ceil? x = none := by
    rcases Double.special_of_not_isFinite hx with rfl | ⟨negative, rfl⟩
    · exact ⟨rfl, rfl⟩
    · cases negative <;> exact ⟨rfl, rfl⟩
  refine ⟨hfloor.1, hfloor.2, ?_⟩
  rw [roundHalfUp?, hfloor.1]
  rfl

end

/--
Floor, ceiling and rounding of a finite double are the greatest integer up to it, the least integer from it on and the greatest
integer up to one half more, as doubles and without any loss. The difference by which rounding decides is a rounded one, but it
is at least one half exactly if the true one is. Every other double is its own value.
-/
theorem apply_integer_parts (s : Settings) (x : Float) :
    (x.isFinite = true →
      Gives s .floor x ⌊exact x⌋ ∧ Gives s .ceil x ⌈exact x⌉ ∧ Gives s .round x ⌊exact x + 1 / 2⌋ ∧
        (0.5 ≤ x - ofInt ⌊exact x⌋ ↔ 1 / 2 ≤ exact x - ⌊exact x⌋)) ∧
      (x.isFinite = false → ∀ f ∈ [floor, ceil, round], f.apply s x = .ok x) := by
  refine ⟨fun hx => ⟨?_, ?_, ?_, Double.half_le_sub_floor hx⟩, fun hx f hf => ?_⟩
  · exact gives_viaInteger rfl (floor?_eq hx) hx (Double.floor_near (exact x))
  · exact gives_viaInteger rfl (ceil?_eq hx) hx (Double.ceil_near (exact x))
  · exact gives_viaInteger rfl (roundHalfUp?_eq hx) hx (Double.floor_half_near (exact x))
  · obtain ⟨hfloor, hceil, hround⟩ := integers_eq_none hx
    simp only [List.mem_cons, List.not_mem_nil, or_false] at hf
    rcases hf with rfl | rfl | rfl
    · exact congrArg Except.ok (viaInteger_of_none hfloor)
    · exact congrArg Except.ok (viaInteger_of_none hceil)
    · exact congrArg Except.ok (viaInteger_of_none hround)

/-- The double below one half, to which one half cannot be added without rounding up to one, and an infinity. -/
theorem apply_integer_parts_below_half :
    exact 0.49999999999999994 = 1 / 2 - 2 ^ (-54 : Int) ∧ Gives {} .floor 0.49999999999999994 0 ∧
      Gives {} .ceil 0.49999999999999994 1 ∧ Gives {} .round 0.49999999999999994 0 ∧
      apply {} .round (Double.infinity true) = .ok (Double.infinity true) := by
  have hx : (0.49999999999999994 : Float).isFinite = true := by decide +kernel
  have hexact : exact 0.49999999999999994 = 1 / 2 - 2 ^ (-54 : Int) := by decide +kernel
  have hfloor : ⌊(1 : ℚ) / 2 - 2 ^ (-54 : Int)⌋ = 0 := by norm_num
  have hceil : ⌈(1 : ℚ) / 2 - 2 ^ (-54 : Int)⌉ = 1 := by norm_num
  have hround : ⌊(1 : ℚ) / 2 - 2 ^ (-54 : Int) + 1 / 2⌋ = 0 := by norm_num
  obtain ⟨hlower, hupper, hnearest, -⟩ := (apply_integer_parts {} 0.49999999999999994).1 hx
  rw [hexact] at hlower hupper hnearest
  rw [hfloor] at hlower
  rw [hceil] at hupper
  rw [hround] at hnearest
  exact ⟨hexact, hlower, hupper, hnearest, (apply_integer_parts {} (Double.infinity true)).2 rfl .round (by decide)⟩

end Reckoner.Expression.Function
