import Reckoner.Proofs.Expression.Refinement
import Reckoner.Proofs.Expression.Stack

/-!
# Where the machine stands when it fails

A fault of the grammar is reported where the machine stands; only behind an invalid number it has gone on to the end of the
run of digits and points, and reports the start. A division by zero is reported at its slash, which is behind the machine.
A chain remembers where its operator stands, and a number what it has read, so both are invariants of a run.
-/

namespace Reckoner.Expression

set_option autoImplicit false

/-- A parenthesis opens at the position, and as many as the limit allows are open in front of it. -/
def Buried (text : List Char) (position : Nat) : Prop :=
  text[position]? = some '(' ∧ (nestingLimit : Int) ≤ unclosed (text.take position)

/-- Behind a buried parenthesis more would be open than the limit allows. -/
theorem Cursor.Balanced.not_buried {text : List Char} {c : Cursor} (h : c.Balanced text) {position : Nat}
    (hless : position < c.position) : ¬ Buried text position := by
  rintro ⟨hopen, hlimit⟩
  have hbound := (h.bounded (position + 1) hless).2
  rw [List.take_add_one, hopen, Option.toList_some, unclosed_append, unclosed_open] at hbound
  omega

/-- How the position of a failure goes with the place where the machine stands. -/
def Failure.Placed (text : List Char) (place : Nat) : Failure → Prop
  | .malformed (.invalidNumber token) position =>
    (text.take place).drop position = token ∧ (text.drop position).takeWhile isNumeral = token
  | .malformed .tooDeep position => position = place ∧ Buried text position
  | .malformed _ position => position = place
  | .outsideDomain _ => True
  | .divisionByZero position => text[position]? = some '/' ∧ position < place

namespace Machine

variable {α : Type} {m : Meaning α} {settings : Settings} {text : List Char} {c : Cursor} {frame : Frame α}
  {frames : List (Frame α)}

/-! ## States -/

/-- An operator that waits for its operand stands in the text, and it has been taken. -/
def Frame.Placed (text : List Char) (place : Nat) : Frame α → Prop
  | .operand _ _ op position => text[position]? = some op.symbol ∧ position < place
  | _ => True

theorem Frame.Placed.mono {place place' : Nat} (h : frame.Placed text place) (hle : place ≤ place') :
    frame.Placed text place' := by
  cases frame with
  | operand rank left op position => exact ⟨h.1, h.2.trans_le hle⟩
  | _ => trivial

/-- What the machine has read of a number is what stands between the start of the number and the cursor. -/
def Control.Placed (text : List Char) (c : Cursor) : Control α → Prop
  | .scan start token =>
    text.drop start = token ++ c.rest ∧ start + token.length = c.position ∧ ∀ d ∈ token, isNumeral d = true
  | .raise failure => failure.Placed text c.position
  | _ => True

structure State.Placed (text : List Char) (s : State α) : Prop where
  frames : ∀ frame ∈ s.frames, frame.Placed text s.cursor.position
  control : s.control.Placed text s.cursor

theorem start_placed (text : List Char) : State.Placed (α := α) text (.start text) :=
  ⟨List.forall_mem_singleton.mpr trivial, trivial⟩

theorem frames_placed (hframes : ∀ frame ∈ frames, frame.Placed text c.position) {place : Nat} (hle : c.position ≤ place) :
    ∀ frame ∈ frames, frame.Placed text place :=
  fun f hf => (hframes f hf).mono hle

theorem push_placed (frame : Frame α) (hframes : ∀ frame ∈ frames, frame.Placed text c.position) {c' : Cursor}
    (hle : c.position ≤ c'.position) (hframe : frame.Placed text c'.position) {p : Procedure} :
    State.Placed text ⟨.enter p, c', frame :: frames⟩ :=
  ⟨List.forall_mem_cons.mpr ⟨hframe, frames_placed hframes hle⟩, trivial⟩

theorem after_placed (hframes : ∀ frame ∈ frames, frame.Placed text c.position) (outcome : Except Halt (α × Cursor))
    (hle : c.position ≤ (cursorOf outcome).position)
    (herror : ∀ h, outcome = .error h → h.failure.Placed text h.cursor.position) :
    (State.after outcome frames).Placed text := by
  cases outcome with
  | ok r => exact ⟨frames_placed hframes hle, trivial⟩
  | error h => exact ⟨frames_placed hframes hle, herror h rfl⟩

/-! ## Steps -/

theorem get_position (h : c.Balanced text) {d : Char} {rest : List Char} (hrest : c.rest = d :: rest) :
    text[c.position]? = some d := by
  have hdrop : text.drop c.position = d :: rest := h.rest_eq ▸ hrest
  have hhead := congrArg List.head? hdrop
  rwa [List.head?_drop] at hhead

theorem opening_placed (hbalanced : c.Balanced text) (hframes : ∀ frame ∈ frames, frame.Placed text c.position)
    {rest : List Char} (hrest : c.rest = '(' :: rest) (hframe : frame.Placed text (c.position + 1)) :
    (opening frame c frames).Placed text := by
  rcases opening_cases frame c frames with ⟨hfull, hopening⟩ | ⟨-, hopening⟩
  · have hburied : Buried text c.position :=
      ⟨get_position hbalanced hrest, hbalanced.depth_eq ▸ Int.ofNat_le.mpr hfull⟩
    exact hopening ▸ ⟨hframes, rfl, hburied⟩
  · exact hopening ▸ push_placed frame hframes (Nat.le_succ _) hframe

theorem word_placed (hframes : ∀ frame ∈ frames, frame.Placed text c.position) : (word m c frames).Placed text := by
  unfold word
  cases Function.match? c.rest with
  | some f => exact push_placed .word hframes (Nat.le_refl _) trivial
  | none =>
    cases constant? c.rest with
    | some k => exact ⟨frames_placed hframes (Nat.le_add_right _ _), trivial⟩
    | none => exact push_placed .word hframes (Nat.le_refl _) trivial

theorem enter_placed {p : Procedure} (hbalanced : c.Balanced text) (hfits : p.Fits c.rest)
    (hframes : ∀ frame ∈ frames, frame.Placed text c.position) : (enter m p c frames).Placed text := by
  cases p with
  | expression => exact push_placed .expression hframes (Nat.le_refl _) trivial
  | chain rank => exact push_placed (.first rank) hframes (Nat.le_refl _) trivial
  | power => exact push_placed .base hframes (Nat.le_refl _) trivial
  | signed =>
    simp only [enter]
    split
    · exact push_placed (.sign true) hframes (Nat.le_succ _) trivial
    · exact push_placed (.sign false) hframes (Nat.le_succ _) trivial
    · exact push_placed (.sign false) hframes (Nat.le_refl _) trivial
  | atom =>
    simp only [enter]
    split
    · next hrest => exact opening_placed hbalanced hframes hrest trivial
    · exact word_placed hframes
  | call f =>
    have hbehind := hbalanced.skip_name hfits
    have hframes' := frames_placed hframes (Nat.le_add_right c.position f.name.toList.length)
    simp only [enter]
    split
    · next hrest => exact opening_placed hbehind hframes' hrest trivial
    · exact ⟨hframes', rfl⟩
  | number => exact ⟨hframes, hbalanced.rest_eq.symm, rfl, List.forall_mem_nil _⟩

theorem loop_placed {rank : Rank} {left : α} (hbalanced : c.Balanced text)
    (hframes : ∀ frame ∈ frames, frame.Placed text c.position) : (loop rank left c frames).Placed text := by
  unfold loop
  cases hoperator : rank.operator? c.rest with
  | none => exact ⟨hframes, trivial⟩
  | some op =>
    obtain ⟨-, rest, hrest⟩ := Rank.operator?_eq_some hoperator
    exact push_placed (.operand rank left op c.position) hframes (Nat.le_succ _) ⟨get_position hbalanced hrest, Nat.lt_succ_self _⟩

/-- Behind the last character of a number, where no further one goes on with it. -/
theorem numberRead_placed {start : Nat} {token : List Char} (hstart : text.drop start = token ++ c.rest)
    (hlength : start + token.length = c.position) (hnumeral : ∀ d ∈ token, isNumeral d = true)
    (hstop : c.rest.takeWhile isNumeral = []) {h : Halt} (hread : numberRead m start token c = .error h) :
    h.failure.Placed text h.cursor.position := by
  unfold numberRead at hread
  split at hread
  · next hempty =>
    obtain rfl := Except.error.inj hread
    rw [List.isEmpty_iff.mp hempty] at hlength
    exact hlength
  · split at hread
    · cases hread
    · obtain rfl := Except.error.inj hread
      constructor
      · change (text.take c.position).drop start = token
        rw [← hlength, List.drop_take, hstart, Nat.add_sub_cancel_left, List.take_left]
      · rw [hstart, List.takeWhile_append_of_pos hnumeral, hstop, List.append_nil]

theorem scan_placed {start : Nat} {token : List Char} (hframes : ∀ frame ∈ frames, frame.Placed text c.position)
    (hcontrol : (Control.scan (α := α) start token).Placed text c) : (scan m start token c frames).Placed text := by
  obtain ⟨hstart, hlength, hnumeral⟩ := hcontrol
  have hread : c.rest.takeWhile isNumeral = [] → (State.after (numberRead m start token c) frames).Placed text :=
    fun hstop => after_placed hframes _ (by rw [cursorOf_numberRead])
      fun h hh => numberRead_placed hstart hlength hnumeral hstop hh
  unfold scan
  split
  · next d rest hrest =>
    split
    · next hd =>
      refine ⟨frames_placed hframes (Nat.le_succ _), ?_, ?_, ?_⟩
      · rw [hstart, hrest, Cursor.rest_skip_one hrest, List.append_assoc]
        rfl
      · rw [List.length_append, ← Nat.add_assoc, hlength]
        rfl
      · exact List.forall_mem_append.mpr ⟨hnumeral, List.forall_mem_singleton.mpr hd⟩
    · next hd => exact hread (by rw [hrest, List.takeWhile_cons_of_neg hd])
  · next hrest => exact hread (by rw [hrest, List.takeWhile_nil])

theorem closing_placed {fault : Fault} {value : α} {f : α × Cursor → Except Halt (α × Cursor)}
    (hframes : ∀ frame ∈ frames, frame.Placed text c.position) (hf : ∀ r, cursorOf (f r) = r.2)
    (hfault : (Failure.malformed fault c.position).Placed text c.position)
    (herror : ∀ r h, f r = .error h → h.failure.Placed text h.cursor.position) :
    (State.after ((closing fault (value, c)).bind f) frames).Placed text := by
  rcases closing_cases fault value c with ⟨rest, -, hclosing⟩ | hclosing
  · have hend : cursorOf (f (value, c.closed)) = c.closed := hf _
    have hposition : c.position ≤ c.closed.position := Nat.le_succ _
    rw [← hend] at hposition
    rw [hclosing]
    exact after_placed hframes _ hposition (herror _)
  · rw [hclosing]
    exact ⟨hframes, hfault⟩

theorem resume_placed {frame : Frame Float} {frames : List (Frame Float)} {value : Float} (hframe : frame.Placed text c.position)
    (hframes : ∀ frame ∈ frames, frame.Placed text c.position) :
    (resume (arithmetic settings) frame value c frames).Placed text := by
  cases frame with
  | whole =>
    refine after_placed hframes _ (by rw [cursorOf_atEnd]) fun h hh => ?_
    unfold atEnd at hh
    split at hh
    · cases hh
    · obtain rfl := Except.error.inj hh
      rfl
  | expression => exact ⟨hframes, trivial⟩
  | first rank => exact ⟨hframes, trivial⟩
  | operand rank left op position =>
    simp only [resume]
    split
    · exact ⟨hframes, trivial⟩
    · next hfails =>
      obtain ⟨rfl, -, rfl⟩ := Operator.apply_eq_error hfails
      exact ⟨hframes, hframe⟩
  | base =>
    simp only [resume]
    split
    · exact push_placed (.exponent value) hframes (Nat.le_succ _) trivial
    · exact ⟨hframes, trivial⟩
  | exponent base => exact ⟨hframes, trivial⟩
  | sign negative => exact ⟨hframes, trivial⟩
  | group =>
    rw [resume_group]
    exact closing_placed hframes (fun _ => rfl) rfl fun r h hh => by cases hh
  | word => exact ⟨hframes, trivial⟩
  | argument f =>
    refine closing_placed hframes (fun _ => cursorOf_settle _ _) rfl fun r h hh => ?_
    unfold settle at hh
    split at hh
    · cases hh
    · next hfails =>
      obtain ⟨gap, -, rfl⟩ := call_eq_error hfails
      obtain rfl := Except.error.inj hh
      trivial

theorem step_placed (s s' : State Float) (h : s.Sane text ∧ s.Placed text) (hstep : step (arithmetic settings) s = some s') :
    s'.Sane text ∧ s'.Placed text := by
  refine ⟨step_sane s s' h.1 hstep, ?_⟩
  obtain ⟨control, c, frames⟩ := s
  obtain ⟨⟨hbalanced, hstacked⟩, hframes, hcontrol⟩ := h
  cases control with
  | enter p => exact Option.some.inj hstep ▸ enter_placed hbalanced hstacked.1 hframes
  | loop rank left => exact Option.some.inj hstep ▸ loop_placed hbalanced hframes
  | scan start token => exact Option.some.inj hstep ▸ scan_placed hframes hcontrol
  | give value =>
    cases frames with
    | nil => cases hstep
    | cons frame frames =>
      obtain ⟨hframe, hframes⟩ := List.forall_mem_cons.mp hframes
      exact Option.some.inj hstep ▸ resume_placed hframe hframes
  | raise failure =>
    cases frames with
    | nil => cases hstep
    | cons frame frames =>
      obtain ⟨-, hframes⟩ := List.forall_mem_cons.mp hframes
      exact Option.some.inj hstep ▸ ⟨hframes, hcontrol⟩

theorem Runs.placed {n : Nat} {s : State Float} (h : Runs (arithmetic settings) n (.start text) s) : s.Placed text :=
  (h.invariant step_placed ⟨start_sane text, start_placed text⟩).2

end Machine

end Reckoner.Expression
