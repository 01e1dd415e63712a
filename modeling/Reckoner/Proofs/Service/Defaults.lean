import Reckoner.Proofs.Number.Arithmetic
import Reckoner.Proofs.Number.Literal
import Reckoner.Proofs.Settings
import Reckoner.Service.Configuration

/-!
# Settings of a configuration

Six settings of a configuration are read from single values. A value that is missing or malformed leaves a setting at its
default, with one exception: where separators are chosen, a word that is not known means no. A value that is too large for
its conversion is neither: it keeps the service from starting or fails the requests that read it. So does a section of the
calculator that is void, although all other sections may be. No setting depends on another one.
-/

namespace Reckoner.Service

open Double (trunc?)

set_option autoImplicit false

/-! ## Readings -/

/-- What the value of a setting amounts to. -/
inductive Reading (α : Type) where
  | value (a : α)
  | malformed
  /-- A number beyond the doubles, or an integer with too many digits where a text is needed. -/
  | beyond
  deriving DecidableEq, Repr

namespace Reading

variable {α β : Type}

def bind (r : Reading α) (f : α → Reading β) : Reading β :=
  match r with
  | .value a => f a
  | .malformed => .malformed
  | .beyond => .beyond

def map (f : α → β) (r : Reading α) : Reading β :=
  r.bind fun a => .value (f a)

/-- A setting with one default for a missing value and one for a malformed value, and with a fault for what lies beyond. -/
def settleWith (missing malformed : α) (fault : Fault) : Option (Reading α) → Except Fault α
  | some (.value a) => .ok a
  | some .malformed => .ok malformed
  | some .beyond => .error fault
  | none => .ok missing

/-- A setting that is converted to a number. -/
def settle (default : α) : Option (Reading α) → Except Fault α :=
  settleWith default default .tooLarge

/-- A setting that takes its default for everything else than a value. -/
def orElse (default : α) : Option (Reading α) → α
  | some (.value a) => a
  | _ => default

/-- The choice of separators: on if it is missing, off if it is malformed. -/
def settleSwitch : Option (Reading Bool) → Except Fault Bool :=
  settleWith true false .unreadable

theorem settleWith_isOk (missing malformed : α) (fault : Fault) (f : Json.Value → Reading α) (v : Option Json.Value) :
    (∃ a, settleWith missing malformed fault (v.map f) = .ok a) ↔ ∀ w, v = some w → f w ≠ .beyond := by
  cases v with
  | none => simp [settleWith]
  | some w => cases hf : f w <;> simp [settleWith, hf]

/-- A conversion that may fail, seen as a reading. -/
inductive Amounts : Reading α → Except Fault α → Prop where
  | value (a : α) : Amounts (.value a) (.ok a)
  | malformed {fault : Fault} (h : fault ≠ .tooLarge) : Amounts .malformed (.error fault)
  | beyond : Amounts .beyond (.error .tooLarge)

/-- The double of a number: not-a-number is malformed, an infinity lies beyond. -/
def ofFloat (x : Float) : Reading Float :=
  if x.isNaN then .malformed else if x.isInf then .beyond else .value x

/-- The integer part of a double. -/
def whole (x : Float) : Reading Int :=
  match trunc? x with
  | some n => .value n
  | none => if x.isNaN then .malformed else .beyond

/-- A number as a double: a flag, an integer, a double or a text. -/
def number : Json.Value → Reading Float
  | .bool b => .value (if b then 1 else 0)
  | .int n => ofFloat (Double.ofInt n)
  | .float x => ofFloat x
  | .text s =>
    match Literal.float? s.toList with
    | some x => ofFloat x
    | none => .malformed
  | _ => .malformed

/-- A number as an integer; integers and texts do not go through a double. -/
def integer : Json.Value → Reading Int
  | .bool b => .value (if b then 1 else 0)
  | .int n => .value n
  | .float x => whole x
  | .text s =>
    match Literal.int? s.toList with
    | some n => .value n
    | none => .malformed
  | _ => .malformed

/-! ## The six settings -/

def unit (v : Json.Value) : Reading AngleUnit :=
  match (Datum.value v).settingWord? with
  | .error _ => .malformed
  | .ok word =>
    match word.bind AngleUnit.ofWord? with
    | some unit => .value unit
    | none => .malformed

/-- The words that switch the separators off. -/
def noWords : List (List Char) :=
  ["0".toList, "false".toList, "no".toList, "off".toList]

def switch (word : Option (List Char)) : Reading Bool :=
  match word with
  | none => .malformed
  | some w =>
    if Settings.yesWords.contains w then .value true
    else if noWords.contains w then .value false
    else .malformed

def separators : Json.Value → Reading Bool
  | .bool b => .value b
  | v =>
    match (Datum.value v).settingWord? with
    | .ok word => switch word
    | .error _ => .beyond

/-- The precision is cut to an integer and is not negative. -/
def precision (v : Json.Value) : Reading Int :=
  ((number v).bind whole).map (max · 0)

/-- A limit is at least one. -/
def limit (v : Json.Value) : Reading Int :=
  (integer v).map (max · 1)

/-- A number of mebibytes in bytes; also the product may lie beyond the doubles. -/
def bytes (v : Json.Value) : Reading Int :=
  (number v).bind fun x => whole (x * 1024 * 1024)

/-! ## Conversions -/

theorem amounts_truncated (x : Float) : Amounts (whole x) (Datum.truncated x) := by
  unfold whole Datum.truncated
  cases trunc? x with
  | some n => exact .value n
  | none =>
    cases x.isNaN with
    | true => exact .malformed (by decide)
    | false => exact .beyond

/-- How a conversion to a double goes on with a function of the double. -/
theorem amounts_bind {f : Float → Reading Int} {g : Float → Except Fault Int} (hfinite : ∀ x, Amounts (f x) (g x))
    (hnan : ∀ x, x.isNaN = true → ∃ fault, g x = .error fault ∧ fault ≠ .tooLarge)
    (hinf : ∀ x, x.isInf = true → g x = .error .tooLarge) (v : Json.Value) :
    Amounts ((number v).bind f) ((Datum.value v).toFloat.bind g) := by
  have hdouble : ∀ x, Amounts ((ofFloat x).bind f) (g x) := by
    intro x
    unfold ofFloat
    split
    · next h =>
      obtain ⟨fault, hfault, hne⟩ := hnan x h
      rw [hfault]
      exact .malformed hne
    · split
      · next h =>
        rw [hinf x h]
        exact .beyond
      · exact hfinite x
  have hranged : ∀ x : Float, x.isNaN = false → Amounts ((ofFloat x).bind f) ((Datum.ranged x).bind g) := by
    intro x hnumber
    unfold Datum.ranged
    cases hx : x.isFinite with
    | true => exact hdouble x
    | false =>
      rcases Double.finite_or_infinity hnumber with hfinite | ⟨negative, rfl⟩
      · rw [hx] at hfinite
        contradiction
      · cases negative <;> exact .beyond
  cases v with
  | bool b => exact hfinite _
  | int n => exact hranged _ (Double.rounds_ofInt n).isNaN_eq
  | float x => exact hdouble x
  | text s =>
    simp only [number, Datum.toFloat]
    cases Literal.float? s.toList with
    | some x => exact hdouble x
    | none => exact @Amounts.malformed Int .unreadable (by decide)
  | unpaired => exact .malformed (by decide)
  | null => exact .malformed (by decide)
  | list items => exact .malformed (by decide)
  | object fields => exact .malformed (by decide)

theorem whole_isNaN {x : Float} (h : x.isNaN = true) : Datum.truncated x = .error .unreadable := by
  rw [Datum.truncated, Double.trunc?_eq_none_iff.mpr (Double.not_isFinite_of_isNaN h)]
  simp only [h, if_true]

theorem whole_isInf {x : Float} (h : x.isInf = true) : Datum.truncated x = .error .tooLarge := by
  obtain ⟨negative, rfl⟩ := Double.eq_infinity_of_isInf h
  cases negative <;> rfl

theorem amounts_precision (v : Json.Value) : Amounts ((number v).bind whole) ((Datum.value v).toFloat.bind Datum.truncated) :=
  amounts_bind amounts_truncated (fun _ h => ⟨_, whole_isNaN h, by decide⟩) (fun _ => whole_isInf) v

theorem amounts_bytes (v : Json.Value) : Amounts (bytes v) (Configuration.bytesOf v) := by
  refine amounts_bind (g := fun x => Datum.truncated (x * 1024 * 1024)) (fun x => amounts_truncated _) (fun x h => ?_)
    (fun x h => ?_) v
  · exact ⟨_, whole_isNaN (Double.isNaN_mul (Double.isNaN_mul h)), by decide⟩
  · refine whole_isInf ?_
    obtain ⟨negative, rfl⟩ := Double.eq_infinity_of_isInf h
    cases negative <;> decide +kernel

theorem amounts_integer (v : Json.Value) : Amounts (integer v) (Datum.value v).toInt := by
  cases v with
  | float x => exact amounts_truncated x
  | text s =>
    simp only [integer, Datum.toInt]
    cases Literal.int? s.toList with
    | some n => exact .value n
    | none => exact .malformed (by decide)
  | bool b => exact .value _
  | int n => exact .value _
  | unpaired => exact .malformed (by decide)
  | null => exact .malformed (by decide)
  | list items => exact .malformed (by decide)
  | object fields => exact .malformed (by decide)

/-! ## Settings -/

theorem loadPrecision_eq (field : Option Json.Value) :
    Settings.loadPrecision (field.map .value) = settle 8 (field.map precision) := by
  cases field with
  | none => rfl
  | some v =>
    have hamounts := amounts_precision v
    simp only [Option.map_some, Settings.loadPrecision, precision]
    generalize (number v).bind whole = r at hamounts
    generalize (Datum.value v).toFloat.bind Datum.truncated = e at hamounts
    cases hamounts with
    | value n => rfl
    | @malformed fault h => cases fault <;> first | rfl | contradiction
    | beyond => rfl

theorem limit_eq (c : Configuration) (name : String) {default : Int} (hdefault : 1 ≤ default) :
    c.limit name default = settle default ((c.plugin.get? name).map limit) := by
  unfold Configuration.limit
  cases c.plugin.get? name with
  | none => exact congrArg Except.ok (max_eq_left hdefault)
  | some v =>
    have hamounts := amounts_integer v
    simp only [Option.map_some, limit]
    generalize integer v = r at hamounts
    generalize (Datum.value v).toInt = e at hamounts
    cases hamounts with
    | value n => rfl
    | @malformed fault h => cases fault <;> first | rfl | contradiction
    | beyond => rfl

theorem bodyLimit_eq (site : Json.Fields) :
    Configuration.bodyLimit (.object site) =
      settle Configuration.mebibyte ((site.get? "max_content_length_mb").map bytes) := by
  simp only [Configuration.bodyLimit]
  cases Json.Fields.get? site "max_content_length_mb" with
  | none => rfl
  | some v =>
    have hamounts := amounts_bytes v
    simp only [Option.map_some]
    generalize bytes v = r at hamounts
    generalize Configuration.bytesOf v = e at hamounts
    cases hamounts with
    | value n => rfl
    | @malformed fault h => cases fault <;> first | rfl | contradiction
    | beyond => rfl

theorem loadAngleUnit_eq (field : Option Json.Value) :
    Settings.loadAngleUnit (field.map .value) = orElse .degrees (field.map unit) := by
  cases field with
  | none => rfl
  | some v =>
    simp only [Option.map_some, Settings.loadAngleUnit, AngleUnit.read, unit]
    cases (Datum.value v).settingWord? with
    | error fault => rfl
    | ok word =>
      dsimp only [Bind.bind, Except.bind]
      cases word.bind AngleUnit.ofWord? <;> rfl

theorem switch_ne_beyond (word : Option (List Char)) : switch word ≠ .beyond := by
  unfold switch
  repeat' split
  all_goals exact nofun

/-- A word that is not known counts as a no. -/
theorem settleSwitch_switch (word : Option (List Char)) :
    settleSwitch (some (switch word)) = .ok (word.any (Settings.yesWords.contains ·)) := by
  cases word with
  | none => rfl
  | some w =>
    rw [switch, Option.any_some]
    cases Settings.yesWords.contains w with
    | true => rfl
    | false => cases noWords.contains w <;> rfl

theorem valueWord?_cases (v : Json.Value) : (Datum.isWritable v = true ∧ ∃ word, Datum.valueWord? v = .ok word) ∨
    (Datum.isWritable v = false ∧ Datum.valueWord? v = .error .unreadable) := by
  unfold Datum.valueWord?
  split
  · next hwritable =>
    refine Or.inl ⟨hwritable, ?_⟩
    split <;> exact ⟨_, rfl⟩
  · next hwritable => exact Or.inr ⟨Bool.eq_false_iff.mpr hwritable, rfl⟩

/-- A value is compared with the words of a setting exactly if it can be written. -/
theorem settingWord?_cases (v : Json.Value) :
    (Datum.isWritable v = true ∧ ∃ word, (Datum.value v).settingWord? = .ok word) ∨
      (Datum.isWritable v = false ∧ (Datum.value v).settingWord? = .error .unreadable) := by
  rw [Datum.settingWord?, Datum.word?]
  rcases valueWord?_cases v with ⟨hwritable, word, hword⟩ | ⟨hwritable, hword⟩
  · rw [hword]
    exact Or.inl ⟨hwritable, _, rfl⟩
  · rw [hword]
    exact Or.inr ⟨hwritable, rfl⟩

theorem loadSeparator_eq (field : Option Json.Value) :
    Settings.loadSeparator (field.map .value) = settleSwitch (field.map separators) := by
  cases field with
  | none => rfl
  | some v =>
    have hcases := settingWord?_cases v
    cases v with
    | bool b => rfl
    | _ =>
      simp only [Option.map_some, separators, Settings.loadSeparator]
      rcases hcases with ⟨-, word, hword⟩ | ⟨-, hword⟩
      · rw [hword]
        exact (settleSwitch_switch word).symm
      · rw [hword]
        rfl

theorem separators_ne_beyond_iff (v : Json.Value) : separators v ≠ .beyond ↔ Datum.isWritable v = true := by
  have hcases := settingWord?_cases v
  cases v with
  | bool b => exact iff_of_true nofun rfl
  | _ =>
    simp only [separators]
    rcases hcases with ⟨hwritable, word, hword⟩ | ⟨hwritable, hword⟩
    · rw [hword]
      exact iff_of_true (switch_ne_beyond word) hwritable
    · rw [hword]
      exact iff_of_false (fun h => h rfl) (by simp [hwritable])

end Reading

/-! ## Configurations -/

/--
The sections of a document that hold settings, each an object, void or missing: the site, the entries for the plugins, the
entry of the calculator, and the defaults in that entry.
-/
structure Sections (document : Option Json.Value) (site entries plugin defaults : Json.Fields) : Prop where
  document : ∃ fields, Configuration.sectionFields (document.getD .null) = .ok fields ∧
    Configuration.sectionOf fields "site" = .object site ∧ Configuration.sectionOf fields "plugins" = .object entries
  entry : Configuration.sectionFields ((Json.Fields.get? entries pluginName).getD (.object [])) = .ok plugin
  defaults : Configuration.sectionFields ((plugin.get? "defaults").getD .null) = .ok defaults

/-- An entry that is an object or missing, and not void. -/
def holdsFields : Option Json.Value → Bool
  | none | some (.object _) => true
  | some _ => false

open Reading (settle settleSwitch orElse)

section
variable {document : Option Json.Value} {site entries plugin defaults : Json.Fields}

theorem lookup_map_value (fields : Json.Fields) (name : String) :
    (fields.map fun field => (field.1, Datum.value field.2)).lookup name = (fields.get? name).map .value := by
  unfold Json.Fields.get?
  induction fields with
  | nil => rfl
  | cons field fields ih =>
    obtain ⟨key, v⟩ := field
    rw [List.map_cons, List.lookup_cons, List.lookup_cons]
    cases name == key with
    | true => rfl
    | false => exact ih

/-- A service whose requests read each setting from its own value. -/
structure Configuration.Reads (c : Configuration) (plugin defaults : Json.Fields) : Prop where
  expression : c.maxExpression = settle 1024 ((plugin.get? "max_expression_length").map Reading.limit)
  samples : c.maxSamples = settle 5000 ((plugin.get? "max_samples").map Reading.limit)
  settings : ∀ o, c.settings o =
    (settle 8 ((defaults.get? "precision").map Reading.precision)).bind fun precision =>
      (settleSwitch ((defaults.get? "thousands_sep").map Reading.separators)).map fun thousandsSeparator => Settings.merge
        { angleUnit := orElse .degrees ((defaults.get? "angle_unit").map Reading.unit), precision, thousandsSeparator } o

theorem Configuration.reads {c : Configuration}
    (hdefaults : Configuration.sectionFields ((c.plugin.get? "defaults").getD .null) = .ok defaults) :
    c.Reads c.plugin defaults := by
  refine ⟨Reading.limit_eq c _ (by decide), Reading.limit_eq c _ (by decide), fun o => ?_⟩
  rw [Configuration.settings, Configuration.settingsOf, hdefaults]
  simp only [bind, Except.bind, Settings.load, lookup_map_value, Reading.loadPrecision_eq, Reading.loadAngleUnit_eq,
    Reading.loadSeparator_eq]
  cases settle 8 ((defaults.get? "precision").map Reading.precision) with
  | error fault => rfl
  | ok precision => cases settleSwitch ((defaults.get? "thousands_sep").map Reading.separators) <;> rfl

theorem sectionFields_object (fields : Json.Fields) : Configuration.sectionFields (.object fields) = .ok fields := by
  cases fields <;> rfl

/-- A void entry of the calculator is no place for settings, but it is refused. -/
theorem start_eq (h : Sections document site entries plugin defaults) (setup : Option String) :
    Configuration.start document setup =
      (settle Configuration.mebibyte ((site.get? "max_content_length_mb").map Reading.bytes)).bind fun size =>
        if holdsFields (entries.get? pluginName) then .ok
          { site := .object site, plugin, manifest := manifest plugin
            maxBody := if (setup.map Configuration.setups.contains).getD false then Configuration.mebibyte else size }
        else .error .notMapping := by
  obtain ⟨fields, hfields, hsite, hplugins⟩ := h.document
  have hplugin := h.entry
  rw [Configuration.start, hfields]
  simp only [bind, Except.bind, hsite, hplugins, Reading.bodyLimit_eq]
  cases settle Configuration.mebibyte ((site.get? "max_content_length_mb").map Reading.bytes) with
  | error fault => rfl
  | ok size =>
    dsimp only
    cases hentry : Json.Fields.get? entries pluginName with
    | none =>
      rw [hentry] at hplugin
      obtain rfl := Except.ok.inj hplugin
      rfl
    | some v =>
      rw [hentry, Option.getD_some] at hplugin
      cases v with
      | object fields' =>
        obtain rfl := Except.ok.inj ((sectionFields_object fields').symm.trans hplugin)
        rfl
      | _ => rfl

/-- No value of a setting is too large for its conversion, and the entry of the calculator is not void. -/
structure Usable (site entries plugin defaults : Json.Fields) : Prop where
  entry : holdsFields (entries.get? pluginName) = true
  bytes : ∀ v, site.get? "max_content_length_mb" = some v → Reading.bytes v ≠ .beyond
  expression : ∀ v, plugin.get? "max_expression_length" = some v → Reading.limit v ≠ .beyond
  samples : ∀ v, plugin.get? "max_samples" = some v → Reading.limit v ≠ .beyond
  precision : ∀ v, defaults.get? "precision" = some v → Reading.precision v ≠ .beyond
  separators : ∀ v, defaults.get? "thousands_sep" = some v → Datum.isWritable v = true

theorem settle_isOk {α : Type} (default : α) (f : Json.Value → Reading α) (v : Option Json.Value) :
    (∃ a, settle default (v.map f) = .ok a) ↔ ∀ w, v = some w → f w ≠ .beyond :=
  Reading.settleWith_isOk default default .tooLarge f v

theorem settleSwitch_isOk (v : Option Json.Value) :
    (∃ b, settleSwitch (v.map Reading.separators) = .ok b) ↔ ∀ w, v = some w → Datum.isWritable w = true :=
  (Reading.settleWith_isOk true false .unreadable Reading.separators v).trans
    (forall₂_congr fun w _ => Reading.separators_ne_beyond_iff w)

theorem map_isOk {ε α β : Type} (e : Except ε α) (f : α → β) : (∃ b, e.map f = .ok b) ↔ ∃ a, e = .ok a := by
  cases e <;> simp [Except.map]

theorem bind_isOk {ε α β : Type} (e : Except ε α) (f : α → Except ε β) :
    (∃ b, e.bind f = .ok b) ↔ ∃ a, e = .ok a ∧ ∃ b, f a = .ok b := by
  cases e <;> simp [Except.bind]

/-- The settings of a request need a precision and a choice of separators. -/
theorem Configuration.Reads.settings_isOk {c : Configuration} (h : c.Reads plugin defaults) (o : Overrides) :
    (∃ s, c.settings o = .ok s) ↔ (∀ v, defaults.get? "precision" = some v → Reading.precision v ≠ .beyond) ∧
      ∀ v, defaults.get? "thousands_sep" = some v → Datum.isWritable v = true := by
  rw [h.settings, bind_isOk, ← settle_isOk 8, ← settleSwitch_isOk]
  simp only [map_isOk, exists_and_right]

theorem start_isOk (h : Sections document site entries plugin defaults) (setup : Option String) :
    (∃ c, Configuration.start document setup = .ok c) ↔ holdsFields (entries.get? pluginName) = true ∧
      ∀ v, site.get? "max_content_length_mb" = some v → Reading.bytes v ≠ .beyond := by
  rw [start_eq h setup, bind_isOk, ← settle_isOk Configuration.mebibyte]
  cases holdsFields (entries.get? pluginName) <;> simp

theorem start_reads (h : Sections document site entries plugin defaults) (setup : Option String) {c : Configuration}
    (hc : Configuration.start document setup = .ok c) : c.Reads plugin defaults := by
  have hplugin : c.plugin = plugin := by
    rw [start_eq h setup] at hc
    obtain ⟨size, -, hc⟩ := bind_eq_ok.mp hc
    split at hc
    · obtain rfl := Except.ok.inj hc
      rfl
    · contradiction
  subst hplugin
  exact Configuration.reads h.defaults

/-- Neither the start nor a request fails exactly if the configuration is usable. -/
theorem start_isOk_iff (h : Sections document site entries plugin defaults) (setup : Option String) :
    (∃ c, Configuration.start document setup = .ok c ∧ (∃ n, c.maxExpression = .ok n) ∧ (∃ n, c.maxSamples = .ok n) ∧
      ∀ o, ∃ s, c.settings o = .ok s) ↔ Usable site entries plugin defaults := by
  constructor
  · rintro ⟨c, hc, hexpression, hsamples, hsettings⟩
    have hread := start_reads h setup hc
    obtain ⟨hentry, hbytes⟩ := (start_isOk h setup).mp ⟨c, hc⟩
    obtain ⟨hprecision, hseparators⟩ := (hread.settings_isOk {}).mp (hsettings {})
    rw [hread.expression, settle_isOk] at hexpression
    rw [hread.samples, settle_isOk] at hsamples
    exact ⟨hentry, hbytes, hexpression, hsamples, hprecision, hseparators⟩
  · intro husable
    obtain ⟨c, hc⟩ := (start_isOk h setup).mpr ⟨husable.entry, husable.bytes⟩
    have hread := start_reads h setup hc
    refine ⟨c, hc, ?_, ?_, fun o => (hread.settings_isOk o).mpr ⟨husable.precision, husable.separators⟩⟩
    · rw [hread.expression, settle_isOk]
      exact husable.expression
    · rw [hread.samples, settle_isOk]
      exact husable.samples

/--
Each of six settings is read from its own value whatever the others hold: it is the default if the value is missing or
malformed, separators apart. Only a value too large for its conversion is a fault, of the start or of the requests that read
it, and so is a void entry of the calculator.
-/
theorem start_settle (h : Sections document site entries plugin defaults) (setup : Option String) :
    ((∃ c, Configuration.start document setup = .ok c ∧ (∃ n, c.maxExpression = .ok n) ∧ (∃ n, c.maxSamples = .ok n) ∧
        ∀ o, ∃ s, c.settings o = .ok s) ↔ Usable site entries plugin defaults) ∧
      (∀ c, Configuration.start document setup = .ok c → c.Reads plugin defaults) ∧
      Configuration.start document setup =
        (settle Configuration.mebibyte ((site.get? "max_content_length_mb").map Reading.bytes)).bind fun size =>
          if holdsFields (entries.get? pluginName) then .ok
            { site := .object site, plugin, manifest := manifest plugin
              maxBody := if (setup.map Configuration.setups.contains).getD false then Configuration.mebibyte else size }
          else .error .notMapping :=
  ⟨start_isOk_iff h setup, fun _ => start_reads h setup, start_eq h setup⟩

/-- Three malformed values and an alias. -/
theorem start_settle_malformed :
    ∃ c, Configuration.start (some (.object
        [("site", .object [("max_content_length_mb", .null)]),
          ("plugins", .object [(pluginName, .object
            [("defaults", .object [("angle_unit", .text " Radians "), ("precision", .text "many")]),
              ("max_samples", .text "1e3")])])])) none = .ok c ∧
      c.maxBody = 1048576 ∧ c.maxSamples = .ok 5000 ∧ c.settings {} = .ok { angleUnit := .radians } := by
  have hsections : Sections (some (.object
      [("site", .object [("max_content_length_mb", .null)]),
        ("plugins", .object [(pluginName, .object
          [("defaults", .object [("angle_unit", .text " Radians "), ("precision", .text "many")]),
            ("max_samples", .text "1e3")])])])) _ _ _ _ := ⟨⟨_, rfl, rfl, rfl⟩, rfl, rfl⟩
  obtain ⟨-, hreads, hstart⟩ := start_settle hsections none
  refine ⟨_, hstart, rfl, ?_, ?_⟩
  · rw [(hreads _ hstart).samples]
    rfl
  · rw [(hreads _ hstart).settings]
    rfl

theorem load_separators_of_not_short {n : Int} (h : ¬ Literal.Short n) :
    Settings.load [("thousands_sep", .value (.int n))] = .error .unreadable := by
  have hlong : ¬ Datum.isWritable (.int n) = true := by
    rw [Datum.isWritable, decide_eq_true_eq]
    exact h
  have hseparators : Settings.loadSeparator (some (.value (.int n))) = .error .unreadable := by
    have hread := Reading.loadSeparator_eq (some (.int n))
    rw [Option.map_some, Option.map_some, not_ne_iff.mp (mt (Reading.separators_ne_beyond_iff _).mp hlong)] at hread
    exact hread
  change (Except.ok 8).bind (fun precision => (Settings.loadSeparator (some (.value (.int n)))).bind
    fun separators => .ok (⟨.degrees, precision, separators⟩ : Settings)) = _
  rw [hseparators]
  rfl

/--
An infinite precision, limit or bound is a fault, and so are an integer with too many digits in the place of the choice of
separators and a void entry of the calculator. A word that is not known is a no.
-/
theorem not_default_beyond_or_unknown :
    Settings.load [("precision", .value (.text "inf"))] = .error .tooLarge ∧
      Settings.load [("thousands_sep", .value (.int (10 ^ Literal.maxIntegerDigits)))] = .error .unreadable ∧
      Settings.load [("thousands_sep", .value (.text "maybe"))] = .ok { thousandsSeparator := false } ∧
      Configuration.maxSamples ⟨.null, [("max_samples", .float (Double.infinity false))], [], 0⟩ = .error .tooLarge ∧
      Configuration.start (some (.object [("site", .object [("max_content_length_mb", .text "inf")])])) none =
        .error .tooLarge ∧
      Configuration.start (some (.object [("plugins", .object [(pluginName, .null)])])) none = .error .notMapping :=
  ⟨by decide +kernel, load_separators_of_not_short (Literal.not_short_pow le_rfl), by decide +kernel, rfl, rfl, rfl⟩

end

end Reckoner.Service
