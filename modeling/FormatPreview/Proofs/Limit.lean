import FormatPreview.Proofs.Run

/-!
Reports on a sink with limited room. Such a sink takes each piece whole while there is room for it,
and of the first for which there is none as many bytes as still fit. Whatever is written to it is
therefore the beginning of what a sink without a limit takes, down to the byte.
-/
namespace FormatPreview

namespace Sink

/-- The bytes that a sink has taken, over all its pieces. -/
def bytes (s : Sink) : List UInt8 := s.pieces.flatten

theorem bytes_took (s : Sink) (text : String) :
    (s.took text).bytes = s.bytes ++ Text.encode text := by
  simp [bytes, took]

/-- The sink has room for so many bytes, and has not taken more of them. -/
structure Limited (s : Sink) (room : Nat) : Prop where
  failure : s.failure? = (empty (some room)).failure?
  within : s.bytes.length ≤ room

theorem limited_empty (room : Nat) : (empty (some room)).Limited room :=
  ⟨rfl, Nat.zero_le room⟩

namespace Limited

variable {s : Sink} {room : Nat} {text : String}

theorem failure_eq (limited : s.Limited room) (text : String) :
    s.failure? s.pieces (Text.encode text) =
      if (Text.encode text).length ≤ room - s.bytes.length then none
      else some ⟨room - s.bytes.length, ⟨"disk full"⟩⟩ := by
  rw [limited.failure]
  rfl

theorem took (limited : s.Limited room) (fits : (s.took text).bytes.length ≤ room) :
    (s.took text).Limited room :=
  ⟨limited.failure, fits⟩

theorem write_fits (limited : s.Limited room) (fits : (s.took text).bytes.length ≤ room) :
    s.write text = (s.took text, .ok ()) := by
  rw [bytes_took, List.length_append] at fits
  rw [write, limited.failure_eq, if_pos (by omega)]
  rfl

/-- A piece that does not fit fills the sink. -/
theorem write_overflows (limited : s.Limited room) (overflows : room < (s.took text).bytes.length) :
    ∃ full : Sink, s.write text = (full, .error ⟨"disk full"⟩) ∧
      full.bytes = (s.took text).bytes.take room := by
  have within := limited.within
  rw [bytes_took, List.length_append] at overflows
  rw [write, limited.failure_eq, if_neg (by omega)]
  refine ⟨_, rfl, ?_⟩
  rw [bytes_took, List.take_append, List.take_of_length_le within]
  simp [bytes]

/-- The texts are taken as far as there is room, without an error if there is room for all. -/
theorem writeAll (limited : s.Limited room) (texts : List String) :
    (s.writeAll texts).1.bytes = (s.bytes ++ texts.flatMap Text.encode).take room ∧
      (s.writeAll texts).2 =
        if (s.bytes ++ texts.flatMap Text.encode).length ≤ room then .ok ()
        else .error ⟨"disk full"⟩ := by
  induction texts generalizing s with
  | nil => simp [Sink.writeAll, List.take_of_length_le limited.within, limited.within]
  | cons text rest ih =>
    rw [List.flatMap_cons, ← List.append_assoc, ← bytes_took]
    by_cases fits : (s.took text).bytes.length ≤ room
    · rw [Sink.writeAll, limited.write_fits fits]
      exact ih (limited.took fits)
    · obtain ⟨full, written, filled⟩ := limited.write_overflows (Nat.lt_of_not_le fits)
      have past : ¬ ((s.took text).bytes ++ rest.flatMap Text.encode).length ≤ room := by
        rw [List.length_append]
        omega
      have begins : ((s.took text).bytes ++ rest.flatMap Text.encode).take room =
          (s.took text).bytes.take room := List.take_append_of_le_length (Nat.le_of_not_le fits)
      rw [Sink.writeAll, written, if_neg past, begins]
      exact ⟨filled, rfl⟩

end Limited

/-- A sink without a limit takes all the bytes. -/
theorem bytes_writeAll_empty (texts : List String) :
    ((empty none).writeAll texts).1.bytes = texts.flatMap Text.encode ∧
      ((empty none).writeAll texts).2 = .ok () := by
  rw [writeAll_of_not_fails (empty_takes texts)]
  exact ⟨by simp [bytes, empty, List.flatMap_def], rfl⟩

end Sink

/-- A sink without a limit takes a report whole. -/
theorem written_whole (form : Form) (results : List Comparison) :
    (writeReport (.empty none) form results).1.bytes =
        Text.encode (String.join (reportTexts form results)) ∧
      (writeReport (.empty none) form results).2 = .ok (Outcome.of results) := by
  obtain ⟨bytes, written⟩ := Sink.bytes_writeAll_empty (reportTexts form results)
  rw [Text.encode_join, ← List.flatMap_def]
  exact ⟨bytes, by simp [writeReport, written, Except.map]⟩

/-- What a sink with limited room makes of a report, told by what one without a limit makes of it. -/
structure CutAt {ε : Type} (room : Nat) (full : ε) (whole limited : Sink × Except ε Outcome) :
    Prop where
  fits : whole.1.bytes.length ≤ room → limited.1.bytes = whole.1.bytes ∧ limited.2 = whole.2
  overflows : room < whole.1.bytes.length →
    limited.1.bytes = whole.1.bytes.take room ∧ limited.2 = .error full

theorem cutAt_report (room : Nat) (form : Form) (results : List Comparison) :
    CutAt room ⟨"disk full"⟩ (writeReport (.empty none) form results)
      (writeReport (.empty (some room)) form results) := by
  obtain ⟨whole, written⟩ := Sink.bytes_writeAll_empty (reportTexts form results)
  obtain ⟨taken, result⟩ := (Sink.limited_empty room).writeAll (reportTexts form results)
  have start : (Sink.empty (some room)).bytes = [] := rfl
  rw [start, List.nil_append] at taken result
  constructor
  · intro fits
    simp only [writeReport, whole] at fits ⊢
    rw [if_pos fits] at result
    simp [taken, result, written, List.take_of_length_le fits]
  · intro overflows
    simp only [writeReport, whole] at overflows ⊢
    rw [if_neg (Nat.not_le_of_lt overflows)] at result
    simp [taken, result, Except.map]

/-- What a run has written and how it has ended. -/
def RunResult.written (r : RunResult) : Sink × Except RunError Outcome := (r.sink, r.outcome)

variable {source : FileSource} {arguments : Arguments}

theorem written_of_ok (h : (load source arguments.targets).2 = .ok files) (engine : Engine)
    (timeout : Option Nat) (on : Bool) (sink : Sink) :
    (run source engine timeout arguments on sink).written =
      ((writeReport sink (arguments.form on) (reported engine arguments timeout files)).1,
        (writeReport sink (arguments.form on) (reported engine arguments timeout files)).2.mapError
          .output) := by
  simp [RunResult.written, run, h, results_checkFiles]

theorem cutAt_run (room : Nat) (source : FileSource) (engine : Engine) (timeout : Option Nat)
    (arguments : Arguments) (on : Bool) :
    CutAt room (.output ⟨"disk full"⟩)
      (run source engine timeout arguments on (.empty none)).written
      (run source engine timeout arguments on (.empty (some room))).written := by
  cases h : (load source arguments.targets).2 with
  | error e =>
    rw [RunResult.written, RunResult.written, run_of_error h, run_of_error h]
    exact ⟨fun _ => ⟨rfl, rfl⟩, fun overflows => absurd overflows (Nat.not_lt_zero room)⟩
  | ok files =>
    rw [written_of_ok h, written_of_ok h]
    obtain ⟨fits, overflows⟩ :=
      cutAt_report room (arguments.form on) (reported engine arguments timeout files)
    refine ⟨fun within => ?_, fun past => ?_⟩
    · obtain ⟨same, result⟩ := fits within
      exact ⟨same, by rw [result]⟩
    · obtain ⟨cut, failed⟩ := overflows past
      exact ⟨cut, by rw [failed]; rfl⟩

/-- A sink with limited room takes the whole report or as many bytes of it as there is room for. Only
in the second case there is an error, and then no outcome; so it is for whole runs. -/
theorem report_cut_at_limit (room : Nat) :
    (∀ form results, let whole := writeReport (.empty none) form results
      whole.1.bytes = Text.encode (String.join (reportTexts form results)) ∧
        whole.2 = .ok (Outcome.of results) ∧
        CutAt room ⟨"disk full"⟩ whole (writeReport (.empty (some room)) form results)) ∧
    ∀ source engine timeout arguments on,
      CutAt room (.output ⟨"disk full"⟩)
        (run source engine timeout arguments on (.empty none)).written
        (run source engine timeout arguments on (.empty (some room))).written := by
  refine ⟨fun form results => ?_, cutAt_run room⟩
  obtain ⟨bytes, outcome⟩ := written_whole form results
  exact ⟨bytes, outcome, cutAt_report room form results⟩

/-- The report on one formatted file has a mark of three bytes in it, and a sink can end inside. -/
theorem report_cut_at_limit_mark :
    let results : List Comparison := [.unchanged "y" "c"]
    let whole := writeReport (.empty none) .plain results
    let limited := writeReport (.empty (some 42)) .plain results
    42 < whole.1.bytes.length ∧ limited.1.bytes = whole.1.bytes.take 42 ∧
      limited.1.bytes.drop 40 = [0xE2, 0x9C] ∧ limited.2 = .error ⟨"disk full"⟩ := by
  intro results whole limited
  obtain ⟨bytes, -, cut⟩ := (report_cut_at_limit 42).1 .plain results
  rw [Text.encode_chars] at bytes
  have long : 42 < whole.1.bytes.length := by
    rw [bytes]
    decide
  obtain ⟨taken, failed⟩ := cut.overflows long
  refine ⟨long, taken, ?_, failed⟩
  rw [taken, bytes]
  decide

end FormatPreview
