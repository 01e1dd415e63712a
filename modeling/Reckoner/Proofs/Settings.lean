import Reckoner.Proofs.Number.Integral
import Reckoner.Settings

/-!
# Layers of settings

Two sets of overrides that are laid on settings in turn act like one set, in which the later set has its say first. What is
loaded from a configuration is in normal form: loading it again gives the same settings.
-/

namespace Reckoner

open Double (trunc?)

set_option autoImplicit false

/-! ## Steps that succeed -/

section
variable {ε ε' α β : Type} {e : Except ε α}

theorem bind_eq_ok {f : α → Except ε β} {b : β} : e >>= f = .ok b ↔ ∃ a, e = .ok a ∧ f a = .ok b := by
  cases e <;> simp [bind, Except.bind]

theorem map_eq_ok {f : α → β} {b : β} : e.map f = .ok b ↔ ∃ a, e = .ok a ∧ f a = b := by
  cases e <;> simp [Except.map]

theorem mapError_eq_ok {f : ε → ε'} {a : α} : e.mapError f = .ok a ↔ e = .ok a := by
  cases e <;> simp [Except.mapError]

end

/-! ## Overrides -/

namespace Overrides

/-- Two sets of overrides in one: each field is that of the second set if it is given there. -/
def layer (a b : Overrides) : Overrides :=
  { angleUnit := b.angleUnit.or a.angleUnit
    precision := b.precision.or a.precision
    thousandsSeparator := b.thousandsSeparator.or a.thousandsSeparator }

/-- The fields of two sets of overrides from outside in one set. -/
def layered (a b : List (String × Datum)) : List (String × Datum) :=
  fieldNames.filterMap fun name => ((given? b name).or (given? a name)).map (name, ·)

section
variable {fields a b : List (String × Datum)} {name : String} {o oa ob : Overrides}

theorem given?_ne_null {d : Datum} (h : given? fields name = some d) : d ≠ .value .null := by
  rintro rfl
  unfold given? at h
  split at h
  · contradiction
  · next hnull => exact hnull h

theorem lookup_filterMap (f : String → Option Datum) (names : List String) (name : String) :
    (names.filterMap fun key => (f key).map (key, ·)).lookup name = if name ∈ names then f name else none := by
  induction names with
  | nil => rfl
  | cons key names ih =>
    by_cases heq : name = key
    · subst heq
      cases hvalue : f name with
      | none => simp [hvalue, ih]
      | some d => simp [hvalue]
    · cases hvalue : f key with
      | none => simp [hvalue, ih, heq]
      | some d => simp [hvalue, ih, heq, List.lookup_cons, beq_false_of_ne heq]

theorem given?_layered (hname : name ∈ fieldNames) : given? (layered a b) name = (given? b name).or (given? a name) := by
  rw [given?, layered, lookup_filterMap (fun name => (given? b name).or (given? a name)), if_pos hname]
  split
  · next hnull =>
    rcases Option.or_eq_some_iff.mp hnull with hb | ⟨-, ha⟩
    · exact absurd rfl (given?_ne_null hb)
    · exact absurd rfl (given?_ne_null ha)
  · rfl

theorem convertGiven_or {α : Type} {f g : Option Datum} {convert : Datum → Except Fault α} {x y : Option α}
    (hf : convertGiven f convert = .ok x) (hg : convertGiven g convert = .ok y) :
    convertGiven (g.or f) convert = .ok (y.or x) := by
  cases g with
  | none =>
    obtain rfl := Except.ok.inj hg
    exact hf
  | some d =>
    obtain ⟨value, -, rfl⟩ := map_eq_ok.mp hg
    exact hg

theorem read_eq_ok : read fields = .ok o ↔ (∀ field ∈ fields, field.1 ∈ fieldNames) ∧
    convertGiven (given? fields "angle_unit") AngleUnit.read = .ok o.angleUnit ∧
    convertGiven (given? fields "precision") Datum.toInt = .ok o.precision ∧
    (given? fields "thousands_sep").map (fun d => !d.isVoid) = o.thousandsSeparator := by
  have hknown : (fields.any fun field => !fieldNames.contains field.1) = false ↔ ∀ field ∈ fields, field.1 ∈ fieldNames := by
    simp
  rw [← hknown]
  unfold read
  cases fields.any fun field => !fieldNames.contains field.1 with
  | true => simp [bind, Except.bind, throw, throwThe, MonadExceptOf.throw]
  | false =>
    obtain ⟨unit, precision, separator⟩ := o
    cases convertGiven (given? fields "angle_unit") AngleUnit.read <;>
      cases convertGiven (given? fields "precision") Datum.toInt <;>
      simp [bind, Except.bind, pure, Except.pure]

theorem read_layered (ha : read a = .ok oa) (hb : read b = .ok ob) : read (layered a b) = .ok (oa.layer ob) := by
  obtain ⟨-, hunit, hprecision, hseparator⟩ := read_eq_ok.mp ha
  obtain ⟨-, hunit', hprecision', hseparator'⟩ := read_eq_ok.mp hb
  rw [read_eq_ok, given?_layered (by decide), given?_layered (by decide), given?_layered (by decide)]
  refine ⟨?_, convertGiven_or hunit hunit', convertGiven_or hprecision hprecision', ?_⟩
  · rintro ⟨key, d⟩ hentry
    obtain ⟨name, hname, hentry⟩ := List.mem_filterMap.mp hentry
    obtain ⟨d', -, hpair⟩ := Option.map_eq_some_iff.mp hentry
    obtain ⟨rfl, -⟩ := Prod.mk.inj hpair
    exact hname
  · rw [layer, ← hseparator, ← hseparator']
    cases given? b "thousands_sep" <;> rfl

end

end Overrides

/-- Degrees or radians, and no name that is not known. -/
def AngleUnit.Known (unit : AngleUnit) : Prop :=
  unit = .degrees ∨ unit = .radians

namespace Settings

open Overrides (layered)

section
variable {s t u : Settings} {fields a b : List (String × Datum)}

theorem merge_merge (s : Settings) (a b : Overrides) : (s.merge a).merge b = s.merge (a.layer b) := by
  obtain ⟨unit, precision, separator⟩ := a
  obtain ⟨unit', precision', separator'⟩ := b
  cases unit' <;> cases precision' <;> cases separator' <;> rfl

theorem mergeRead_eq_ok : s.mergeRead fields = .ok t ↔ ∃ o, Overrides.read fields = .ok o ∧ s.merge o = t :=
  map_eq_ok

theorem mergeRead_layered (ha : s.mergeRead a = .ok t) (hb : t.mergeRead b = .ok u) :
    s.mergeRead (layered a b) = .ok u := by
  obtain ⟨oa, hoa, rfl⟩ := mergeRead_eq_ok.mp ha
  obtain ⟨ob, hob, rfl⟩ := mergeRead_eq_ok.mp hb
  exact mergeRead_eq_ok.mpr ⟨_, Overrides.read_layered hoa hob, (merge_merge s oa ob).symm⟩

/-- Each setting whose field is not given stays as it was. -/
structure Keeps (s t : Settings) (fields : List (String × Datum)) : Prop where
  angleUnit : given? fields "angle_unit" = none → t.angleUnit = s.angleUnit
  precision : given? fields "precision" = none → t.precision = s.precision
  thousandsSeparator : given? fields "thousands_sep" = none → t.thousandsSeparator = s.thousandsSeparator

theorem mergeRead_keeps (h : s.mergeRead fields = .ok t) : Keeps s t fields := by
  obtain ⟨o, ho, rfl⟩ := mergeRead_eq_ok.mp h
  obtain ⟨-, hunit, hprecision, hseparator⟩ := Overrides.read_eq_ok.mp ho
  refine ⟨fun hnone => ?_, fun hnone => ?_, fun hnone => ?_⟩
  · rw [hnone] at hunit
    rw [merge, ← Except.ok.inj hunit]
    rfl
  · rw [hnone] at hprecision
    rw [merge, ← Except.ok.inj hprecision]
    rfl
  · rw [hnone] at hseparator
    rw [merge, ← hseparator]
    rfl

end

/-! ## Loading -/

structure Loadable (precision : Int) : Prop where
  nonneg : 0 ≤ precision
  trunc : trunc? (Double.ofInt precision) = some precision

theorem Loadable.eight : Loadable 8 :=
  ⟨by decide, by decide +kernel⟩

theorem Loadable.of_trunc {x : Float} {n : Int} (h : trunc? x = some n) : Loadable (max n 0) := by
  refine ⟨le_max_right n 0, ?_⟩
  rcases le_total n 0 with hnonpos | hnonneg
  · rw [max_eq_right hnonpos]
    decide +kernel
  · rw [max_eq_left hnonneg]
    exact Double.trunc?_ofInt h

theorem trunc?_of_truncated {x : Float} {n : Int} (h : Datum.truncated x = .ok n) : trunc? x = some n := by
  unfold Datum.truncated at h
  split at h
  · next m hm => rw [hm, Except.ok.inj h]
  · contradiction

theorem loadPrecision_loadable {field : Option Datum} {precision : Int} (h : loadPrecision field = .ok precision) :
    Loadable precision := by
  cases field with
  | none =>
    obtain rfl := Except.ok.inj h
    exact .eight
  | some d =>
    unfold loadPrecision at h
    dsimp only at h
    split at h
    · next n hn =>
      obtain rfl := Except.ok.inj h
      obtain ⟨x, -, hx⟩ := bind_eq_ok.mp hn
      exact .of_trunc (trunc?_of_truncated hx)
    · contradiction
    · obtain rfl := Except.ok.inj h
      exact .eight

theorem Loadable.loadPrecision_eq {precision : Int} (h : Loadable precision) :
    loadPrecision (some (.value (.int precision))) = .ok precision := by
  have hfinite : (Double.ofInt precision).isFinite = true := by
    by_contra hspecial
    have hnone := Double.trunc?_eq_none_iff.mpr (Bool.not_eq_true _ ▸ hspecial)
    rw [h.trunc] at hnone
    contradiction
  have hread : (Datum.value (.int precision)).toFloat.bind Datum.truncated = .ok precision := by
    rw [Datum.toFloat, Datum.ranged, if_pos hfinite, Except.bind, Datum.truncated, h.trunc]
  rw [loadPrecision, hread]
  exact congrArg Except.ok (max_eq_left h.nonneg)

theorem ofWord?_known {word : List Char} {unit : AngleUnit} (h : AngleUnit.ofWord? word = some unit) : unit.Known := by
  obtain ⟨before, after, heq, -⟩ := List.lookup_eq_some_iff.mp h
  have hall : ∀ entry ∈ AngleUnit.aliases, entry.2 = .degrees ∨ entry.2 = .radians := by decide
  exact hall (String.ofList word, unit) (heq ▸ by simp)

theorem loadAngleUnit_known (field : Option Datum) : (loadAngleUnit field).Known := by
  unfold loadAngleUnit
  split
  · next unit hunit =>
    obtain ⟨d, -, hread⟩ := Option.map_eq_some_iff.mp hunit
    obtain ⟨word, -, hread⟩ := bind_eq_ok.mp hread
    split at hread
    · next unit' hword =>
      obtain rfl := Except.ok.inj hread
      obtain ⟨word, -, hword⟩ := Option.bind_eq_some_iff.mp hword
      exact ofWord?_known hword
    · contradiction
  · exact Or.inl rfl

/-- The three fields under which settings are loaded. -/
def ownFields (s : Settings) : List (String × Datum) :=
  [("angle_unit", .value (.text s.angleUnit.name)), ("precision", .value (.int s.precision)),
    ("thousands_sep", .value (.bool s.thousandsSeparator))]

theorem loadAngleUnit_name {unit : AngleUnit} (h : unit.Known) :
    loadAngleUnit (some (.value (.text unit.name))) = unit := by
  rcases h with rfl | rfl <;> decide +kernel

theorem load_ownFields {s : Settings} (hunit : s.angleUnit.Known) (hprecision : Loadable s.precision) :
    load s.ownFields = .ok s := by
  change (loadPrecision (some (.value (.int s.precision)))).bind (fun precision => .ok
    (⟨loadAngleUnit (some (.value (.text s.angleUnit.name))), precision, s.thousandsSeparator⟩ : Settings)) = .ok s
  rw [hprecision.loadPrecision_eq, loadAngleUnit_name hunit]
  rfl

/-- Settings in normal form: loading them gives them back. -/
structure Normal (s : Settings) : Prop where
  angleUnit : s.angleUnit.Known
  precision : 0 ≤ s.precision
  loads : load s.ownFields = .ok s

theorem load_normal {fields : List (String × Datum)} {s : Settings} (h : load fields = .ok s) : Normal s := by
  obtain ⟨precision, hprecision, h⟩ := bind_eq_ok.mp h
  obtain ⟨separator, -, h⟩ := bind_eq_ok.mp h
  obtain rfl := Except.ok.inj h
  have hunit := loadAngleUnit_known (fields.lookup "angle_unit")
  have hloadable := loadPrecision_loadable hprecision
  exact ⟨hunit, hloadable.nonneg, load_ownFields hunit hloadable⟩

end Settings

end Reckoner
