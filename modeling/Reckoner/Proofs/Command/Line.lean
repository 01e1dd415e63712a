import Reckoner.Command.Run
import Reckoner.Proofs.Number.Literal

/-!
# Command lines with written-out options

Options with their full labels and attached values, in any order and number, followed by the separator and one value,
are read as exactly these options and that value. So there is a command line for every expression, whatever it starts
with, and for all settings with a precision of not too many digits.
-/

namespace Reckoner.Command

set_option autoImplicit false

def Opt.label (opt : Opt) : String :=
  opt.labels.getLastD ""

/-- An option as it is given on a command line, with its value if it takes one. -/
structure Given where
  opt : Opt
  value : Option String
  takes : opt ≠ .help ∧ value.isSome = opt.takesValue

namespace Given

def text (g : Given) : String :=
  match g.value with
  | some value => g.opt.label ++ "=" ++ value
  | none => g.opt.label

def piece (g : Given) : Piece :=
  .option g.opt g.value

def entry (g : Given) : Opt × String :=
  (g.opt, g.value.getD "")

end Given

/-! ## Single options -/

theorem lookup_label : ∀ name : Name, ∀ opt ∈ name.options, (spellings (.help :: name.options)).lookup opt.label = some opt := by
  intro name
  cases name <;> decide

theorem spelling_plain : ∀ name : Name, ∀ spelling ∈ spellings (.help :: name.options), '=' ∉ spelling.1.toList := by
  intro name
  cases name <;> decide

theorem label_plain (opt : Opt) : '=' ∉ opt.label.toList := by
  cases opt <;> decide

theorem label_dashes (opt : Opt) : ∃ rest, opt.label.toList = '-' :: '-' :: rest := by
  cases opt <;> exact ⟨_, rfl⟩

theorem splitAttached_label {label : String} (h : '=' ∉ label.toList) (value : String) :
    splitAttached (label ++ "=" ++ value) = (label, some value) := by
  have htext : (label ++ "=" ++ value).toList = label.toList ++ '=' :: value.toList := by simp
  obtain ⟨htake, hdrop⟩ := Text.split_first h value.toList
  rw [splitAttached, htext]
  simp only [hdrop, htake, String.ofList_toList]

/-- What starts with a label is taken for an option. -/
theorem not_value_of_label {opt : Opt} {text : String} {back : List Char} (h : text.toList = opt.label.toList ++ back) :
    (text.toList.head? != some '-' || text.length == 1) = false := by
  obtain ⟨rest, hdashes⟩ := label_dashes opt
  rw [← String.length_toList, h, hdashes]
  simp

/-- A full label with an attached value is the option with that value. -/
theorem classify_attached {name : Name} {opt : Opt} (h : opt ∈ name.options) (value : String) :
    classify (.help :: name.options) (opt.label ++ "=" ++ value) = .ok (.option opt (some value)) := by
  have htext : (opt.label ++ "=" ++ value).toList = opt.label.toList ++ '=' :: value.toList := by simp
  have hnone : (spellings (.help :: name.options)).lookup (opt.label ++ "=" ++ value) = none := by
    rw [List.lookup_eq_none_iff]
    intro spelling hspelling
    rw [bne_iff_ne]
    intro heq
    refine spelling_plain name spelling hspelling ?_
    rw [← heq, htext]
    exact List.mem_append_right _ List.mem_cons_self
  rw [classify, not_value_of_label htext, hnone, splitAttached_label (label_plain opt)]
  simp only [Bool.false_eq_true, if_false, Option.bind_some, lookup_label name opt h]

theorem classify_label {name : Name} {opt : Opt} (h : opt ∈ name.options) :
    classify (.help :: name.options) opt.label = .ok (.option opt none) := by
  have hlabel : opt.label.toList = opt.label.toList ++ [] := (List.append_nil _).symm
  rw [classify, not_value_of_label hlabel, lookup_label name opt h]
  rfl

theorem classify_given {name : Name} {g : Given} (h : g.opt ∈ name.options) :
    classify (.help :: name.options) g.text = .ok g.piece := by
  obtain ⟨opt, value, htakes⟩ := g
  cases value with
  | some value => exact classify_attached h value
  | none => exact classify_label h

/-! ## Whole lines -/

/-- Options with full labels and attached values, the separator and one value. -/
def line (given : List Given) (value : String) : List String :=
  given.map Given.text ++ ["--", value]

theorem text_ne_separator (g : Given) : g.text ≠ "--" := by
  obtain ⟨opt, value, -⟩ := g
  intro heq
  have hlength := congrArg (fun text => text.toList.length) heq
  have hlabel : 2 < opt.label.toList.length := by cases opt <;> decide
  cases value with
  | some value =>
    simp only [Given.text, String.toList_append, List.length_append] at hlength
    change _ = 2 at hlength
    omega
  | none =>
    change opt.label.toList.length = 2 at hlength
    omega

theorem pieces_line {name : Name} {given : List Given} (h : ∀ g ∈ given, g.opt ∈ name.options) (value : String) :
    pieces (.help :: name.options) (line given value) = .ok (given.map Given.piece ++ [Piece.separator, Piece.value value]) := by
  induction given with
  | nil => rfl
  | cons g given ih =>
    have hrest := ih fun other hother => h other (List.mem_cons_of_mem g hother)
    change pieces _ (g.text :: line given value) = _
    rw [pieces, if_neg (text_ne_separator g), classify_given (h g List.mem_cons_self), hrest]
    rfl

theorem sort_given (many : Bool) {budget : Nat} (a : Arguments) (g : Given) (rest : List Piece) :
    sort many (budget + 1) a (g.piece :: rest) = sort many budget { a with options := a.options ++ [g.entry] } rest := by
  obtain ⟨opt, value, hhelp, htakes⟩ := g
  cases value with
  | some value =>
    cases opt with
    | help => exact absurd rfl hhelp
    | noSeparators => contradiction
    | angleUnit | precision | xMin | xMax | samples => rfl
  | none =>
    cases opt with
    | noSeparators => rfl
    | help | angleUnit | precision | xMin | xMax | samples => contradiction

theorem sort_line (given : List Given) (a : Arguments) (ha : a.values = none) (value : String) :
    sort false (given.length + 2) a (given.map Given.piece ++ [Piece.separator, Piece.value value]) =
      .ok { values := some [value], options := a.options ++ given.map Given.entry } := by
  induction given generalizing a with
  | nil =>
    obtain ⟨values, options⟩ := a
    obtain rfl : values = none := ha
    simp [sort, takePositional]
  | cons g given ih =>
    rw [List.map_cons, List.cons_append]
    change sort false (given.length + 2 + 1) a (g.piece :: _) = _
    rw [sort_given, ih { a with options := a.options ++ [g.entry] } ha]
    simp

/-- Written-out options and the value behind the separator are read as such, whatever the value is. -/
theorem read_line {name : Name} {given : List Given} (h : ∀ g ∈ given, g.opt ∈ name.options) (value : String) :
    Arguments.read name.options false (line given value) =
      .ok { values := some [value], options := given.map Given.entry } := by
  have hlength : (given.map Given.piece ++ [Piece.separator, Piece.value value]).length = given.length + 2 := by simp
  rw [Arguments.read, pieces_line h]
  change sort false (given.map Given.piece ++ [Piece.separator, Piece.value value]).length {} _ = _
  rw [hlength, sort_line given {} rfl]
  rfl

/-! ## Reading the values -/

variable {a : Arguments} {s : Settings}

theorem readOption_single {α : Type} {opt : Opt} {text : String} (h : a.given opt = [text]) (default : α)
    (read : List Char → Option α) : readOption a opt default read = readValue read text := by
  rw [readOption, h, List.foldlM_cons, readValue]
  cases read text.toList <;> rfl

theorem readValue_int (n : Int) :
    readValue Literal.int? (toString n) = if Literal.Short n then .ok n else .error .usage := by
  rw [readValue, Literal.int?_toString]
  by_cases h : Literal.Short n
  · rw [if_pos h, if_pos h]
  · rw [if_neg h, if_neg h]

theorem readValue_unit {unit : AngleUnit} (h : unit = .degrees ∨ unit = .radians) : readValue unit? unit.name = .ok unit := by
  rcases h with rfl | rfl <;> decide

/-- The options that choose the settings, all written out. -/
def settingsGiven (s : Settings) : List Given :=
  ⟨.angleUnit, some s.angleUnit.name, by decide, rfl⟩ :: ⟨.precision, some (toString s.precision), by decide, rfl⟩ ::
    if s.thousandsSeparator then [] else [⟨.noSeparators, none, by decide, rfl⟩]

theorem settingsGiven_options (s : Settings) (name : Name) : ∀ g ∈ settingsGiven s, g.opt ∈ name.options := by
  have hall : ∀ opt ∈ [Opt.angleUnit, .precision, .noSeparators], opt ∈ name.options := by
    cases name <;> decide
  intro g hg
  refine hall g.opt ?_
  simp only [settingsGiven, List.mem_cons] at hg
  rcases hg with rfl | rfl | hg
  · simp
  · simp
  · split at hg
    · contradiction
    · rw [List.mem_singleton.mp hg]
      simp

/-- The written-out settings are read as these settings, unless the precision has too many digits. -/
theorem settingsOf_given (hunit : s.angleUnit = .degrees ∨ s.angleUnit = .radians) {others : List (Opt × String)}
    (hothers : ∀ given ∈ others, given.1 ∉ [Opt.angleUnit, .precision, .noSeparators])
    (ha : a.options = others ++ (settingsGiven s).map Given.entry) :
    settingsOf a = if Literal.Short s.precision then .ok s else .error .usage := by
  have hskip : ∀ opt ∈ [Opt.angleUnit, .precision, .noSeparators],
      a.given opt = (((settingsGiven s).map Given.entry).filter fun given => given.1 == opt).map (·.2) := by
    intro opt hopt
    rw [Arguments.given, ha, List.filter_append, List.filter_eq_nil_iff.mpr, List.nil_append]
    rintro given hgiven heq
    exact hothers given hgiven (beq_iff_eq.mp heq ▸ hopt)
  obtain ⟨unit, precision, separators⟩ := s
  have hunits : a.given .angleUnit = [unit.name] := by
    rw [hskip _ (by simp)]
    cases separators <;> rfl
  have hprecisions : a.given .precision = [toString precision] := by
    rw [hskip _ (by simp)]
    cases separators <;> rfl
  have hseparators : (a.given .noSeparators).isEmpty = separators := by
    rw [hskip _ (by simp)]
    cases separators <;> rfl
  rw [settingsOf, readOption_single hunits, readOption_single hprecisions, readValue_unit hunit, readValue_int,
    hseparators]
  by_cases hshort : Literal.Short precision
  · rw [if_pos hshort, if_pos hshort]
    rfl
  · rw [if_neg hshort, if_neg hshort]
    rfl

/-! ## Commands with written-out options -/

theorem parse_line {label : String} {name : Name} (hlabel : Name.all.lookup label = some name) (hname : name ≠ .keys)
    {given : List Given} (h : ∀ g ∈ given, g.opt ∈ name.options) (value : String) :
    parse (label :: line given value) = invocation name { values := some [value], options := given.map Given.entry } := by
  have hmany : (name == Name.keys) = false := beq_eq_false_iff_ne.mpr hname
  simp only [parse, hlabel, hmany, read_line h]
  rfl

def evalLine (s : Settings) (expression : String) : List String :=
  "eval" :: line (settingsGiven s) expression

/-- Every expression has a command line, unless the precision has too many digits. -/
theorem parse_evalLine (hunit : s.angleUnit = .degrees ∨ s.angleUnit = .radians) (expression : String) :
    parse (evalLine s expression) =
      if Literal.Short s.precision then .ok (.eval s expression) else .error .usage := by
  have hread : settingsOf { values := some [expression], options := (settingsGiven s).map Given.entry } =
      if Literal.Short s.precision then .ok s else .error .usage :=
    settingsOf_given hunit (List.forall_mem_nil _) rfl
  rw [evalLine, parse_line (by decide) (by decide) (settingsGiven_options s .eval), invocation, hread]
  by_cases hshort : Literal.Short s.precision
  · rw [if_pos hshort, if_pos hshort]
    rfl
  · rw [if_neg hshort, if_neg hshort]
    rfl

/-- The options of a curve: texts for its bounds and its number of samples. -/
def curveGiven (low high : String) (samples : Int) : List Given :=
  [⟨.xMin, some low, by decide, rfl⟩, ⟨.xMax, some high, by decide, rfl⟩,
    ⟨.samples, some (toString samples), by decide, rfl⟩]

def plotLine (s : Settings) (expression low high : String) (samples : Int) : List String :=
  "plot" :: line (curveGiven low high samples ++ settingsGiven s) expression

/-- Every template has a command line with any texts for its bounds. -/
theorem parse_plotLine (hunit : s.angleUnit = .degrees ∨ s.angleUnit = .radians) {low high : String} {xMin xMax : Float}
    (hlow : Literal.float? low.toList = some xMin) (hhigh : Literal.float? high.toList = some xMax) (samples : Int)
    (expression : String) :
    parse (plotLine s expression low high samples) =
      if Literal.Short s.precision ∧ Literal.Short samples then
        .ok (.plot s expression xMin xMax samples)
      else .error .usage := by
  have hoptions : ∀ g ∈ curveGiven low high samples ++ settingsGiven s, g.opt ∈ Name.plot.options := by
    refine List.forall_mem_append.mpr ⟨?_, settingsGiven_options s .plot⟩
    simp [curveGiven, Name.options]
  rw [plotLine, parse_line (by decide) (by decide) hoptions, List.map_append]
  have hothers : ∀ given ∈ (curveGiven low high samples).map Given.entry,
      given.1 ∉ [Opt.angleUnit, .precision, .noSeparators] := by
    simp [curveGiven, Given.entry]
  generalize ha : (⟨some [expression], (curveGiven low high samples).map Given.entry ++ (settingsGiven s).map Given.entry⟩ :
    Arguments) = a
  have hsettings := settingsOf_given hunit hothers (congrArg Arguments.options ha.symm)
  have hgiven : a.given .xMin = [low] ∧ a.given .xMax = [high] ∧ a.given .samples = [toString samples] := by
    subst ha
    obtain ⟨unit, precision, separators⟩ := s
    cases separators <;> exact ⟨rfl, rfl, rfl⟩
  have hbounds : readValue Literal.float? low = .ok xMin ∧ readValue Literal.float? high = .ok xMax := by
    rw [readValue, readValue, hlow, hhigh]
    exact ⟨rfl, rfl⟩
  have hvalues : a.values = some [expression] := by rw [← ha]
  simp only [invocation, hsettings, hvalues, readOption_single hgiven.1, readOption_single hgiven.2.1,
    readOption_single hgiven.2.2, hbounds, readValue_int]
  by_cases hprecision : Literal.Short s.precision
  · rw [if_pos hprecision]
    by_cases hsamples : Literal.Short samples
    · rw [if_pos hsamples, if_pos ⟨hprecision, hsamples⟩]
      rfl
    · rw [if_neg hsamples, if_neg (not_and_of_not_right _ hsamples)]
      rfl
  · rw [if_neg hprecision, if_neg (not_and_of_not_left _ hprecision)]
    rfl

end Reckoner.Command
