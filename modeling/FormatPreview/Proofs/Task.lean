import FormatPreview.Proofs.Batch

/-!
Checks as they run. A task stands where its check waits, and a poll takes it as far as the clock
lets it go: through the steps that are over, and else to its end if its time is over. The clock
moves on only while a task waits, and a poll in between changes nothing. So however often it is
polled, a check ends as its steps do, unless its limit comes before the last of them.
-/
namespace FormatPreview

/-- Where a check stands between two polls. -/
inductive Task where
  | resolving
  | formatting (call : Call) (wake : Nat)
  | finished (checked : Checked)

namespace Task

/-- The calls that have been made. -/
def calls : Task → List Call
  | .resolving => []
  | .formatting call _ => [call]
  | .finished checked => checked.calls

section

variable (engine : Engine) (options : Options) (limit : Option Nat) (file : SourceFile) (now : Nat)

/-- A task that its steps have left waiting ends if its time is over. -/
def orLate (task : Task) : Task :=
  match limit with
  | some most =>
    if most ≤ now then .finished ⟨.error (.timedOut file.path most), task.calls⟩ else task
  | none => task

def awaitFormat (call : Call) (wake : Nat) : Task :=
  if now < wake then orLate limit file now (.formatting call wake)
  else .finished ⟨endingResult file (engine.format call.content call.options).ending, [call]⟩

/-- A task after a poll. Its steps come before its limit, so one that is over at the limit is in
time. -/
def poll : Task → Task
  | .resolving =>
    let resolved := engine.configuration file.path
    if now < resolved.delay then orLate limit file now .resolving
    else match resolved.ending with
      | .failed failure => .finished ⟨endingResult file (.failed failure), []⟩
      | .panicked payload => .finished ⟨endingResult file (.panicked payload), []⟩
      | .done project =>
        let call : Call := ⟨file.content, mergedOptions options project file.path⟩
        awaitFormat engine limit file now call
          (now + (engine.format call.content call.options).delay)
  | .formatting call wake => awaitFormat engine limit file now call wake
  | .finished checked => .finished checked

/-- Whether a task waits for a later time. -/
def waits : Task → Bool
  | .resolving => now < (engine.configuration file.path).delay && limit.all (now < ·)
  | .formatting _ wake => now < wake && limit.all (now < ·)
  | .finished _ => false

/-- A task that nothing can be done for now: it waits, or it is at its end. -/
def settled : Task → Bool
  | .finished _ => true
  | task => task.waits engine limit file now

end

/-- A task that is polled now and then comes to its end at the given time. -/
inductive Ends (engine : Engine) (options : Options) (limit : Option Nat) (file : SourceFile) :
    Nat → Task → Nat → Checked → Prop
  | finished : Ends engine options limit file now (.finished checked) now checked
  | polled :
      Ends engine options limit file now (task.poll engine options limit file now) time checked →
      Ends engine options limit file now task time checked
  | waited : task.waits engine limit file now →
      Ends engine options limit file (now + 1) task time checked →
      Ends engine options limit file now task time checked

end Task

/-- A time that a limit allows. -/
def Within (limit : Option Nat) (time : Nat) : Prop :=
  ∀ most, limit = some most → time ≤ most

instance (limit : Option Nat) (time : Nat) : Decidable (Within limit time) :=
  match limit with
  | none => .isTrue nofun
  | some most => decidable_of_iff (time ≤ most) (by simp [Within])

@[simp] theorem within_none : Within none time := nofun

@[simp] theorem within_some : Within (some most) time ↔ time ≤ most := by
  simp [Within]

theorem Within.of_le (within : Within limit later) (le : time ≤ later) : Within limit time :=
  fun most limited => Nat.le_trans le (within most limited)

theorem within_next (ahead : limit.all (time < ·)) : Within limit (time + 1) := by
  cases limit with
  | none => exact within_none
  | some most => exact within_some.2 (of_decide_eq_true ahead)

variable {engine : Engine} {options : Options} {limit : Option Nat} {file : SourceFile}
  {project : Option Options} {now most : Nat} {task : Task}

/-! The check as a whole. -/

theorem formatFile_done (resolved : (engine.configuration file.path).ending = .done project) :
    formatFile engine options file =
      let handed := mergedOptions options project file.path
      ⟨[((engine.configuration file.path).delay, ⟨file.content, handed⟩)],
        ⟨(engine.configuration file.path).delay + (engine.format file.content handed).delay,
          (engine.format file.content handed).ending⟩⟩ := by
  simp [formatFile, resolved]

theorem configuration_le_steps (engine : Engine) (options : Options) (file : SourceFile) :
    (engine.configuration file.path).delay ≤ (formatFile engine options file).work.delay := by
  cases resolved : (engine.configuration file.path).ending <;> simp [formatFile, resolved]

/-- The call for a file, which is made if its configuration is resolved, and in time. -/
def dueCall? (engine : Engine) (options : Options) (limit : Option Nat) (file : SourceFile) :
    Option Call :=
  let resolved := engine.configuration file.path
  match resolved.ending with
  | .done project =>
    if Within limit resolved.delay then some ⟨file.content, mergedOptions options project file.path⟩
    else none
  | _ => none

theorem dueCall?_done (resolved : (engine.configuration file.path).ending = .done project)
    (started : Within limit (engine.configuration file.path).delay) :
    dueCall? engine options limit file =
      some ⟨file.content, mergedOptions options project file.path⟩ := by
  simp [dueCall?, resolved, started]

theorem dueCall?_stopped
    (stopped : ∀ project, (engine.configuration file.path).ending ≠ .done project) :
    dueCall? engine options limit file = none := by
  cases resolved : (engine.configuration file.path).ending with
  | done project => exact absurd resolved (stopped project)
  | failed failure => simp [dueCall?, resolved]
  | panicked payload => simp [dueCall?, resolved]

theorem dueCall?_late (late : ¬ Within limit (engine.configuration file.path).delay) :
    dueCall? engine options limit file = none := by
  cases resolved : (engine.configuration file.path).ending <;> simp [dueCall?, resolved, late]

theorem checkFile_calls (engine : Engine) (options : Options) (limit : Option Nat)
    (file : SourceFile) :
    (checkFile engine options limit file).calls = (dueCall? engine options limit file).toList := by
  cases limit with
  | none => cases resolved : (engine.configuration file.path).ending <;>
      simp [checkFile, formatFile, dueCall?, resolved]
  | some most =>
    have kept : (checkFile engine options (some most) file).calls =
        ((formatFile engine options file).calls.filter (·.1 ≤ most)).map (·.2) := by
      simp only [checkFile]
      split <;> rfl
    rw [kept]
    cases resolved : (engine.configuration file.path).ending with
    | done project =>
      by_cases started : (engine.configuration file.path).delay ≤ most <;>
        simp [formatFile, dueCall?, resolved, started]
    | failed failure => simp [formatFile, dueCall?, resolved]
    | panicked payload => simp [formatFile, dueCall?, resolved]

theorem checkFile_late (late : most < (formatFile engine options file).work.delay) :
    checkFile engine options (some most) file =
      ⟨.error (.timedOut file.path most), (dueCall? engine options (some most) file).toList⟩ := by
  rw [← checkFile_calls]
  simp [checkFile, Nat.not_le.2 late]

theorem checkFile_within (inTime : Within limit (formatFile engine options file).work.delay) :
    checkFile engine options limit file =
      ⟨endingResult file (formatFile engine options file).work.ending,
        (dueCall? engine options limit file).toList⟩ := by
  rw [← checkFile_calls]
  cases limit with
  | none => rfl
  | some most => simp [checkFile, within_some.1 inTime]

/-- A check whose steps are over at the limit is not touched by it. -/
theorem checkFile_eq_unlimited (inTime : Within limit (formatFile engine options file).work.delay) :
    checkFile engine options limit file = checkFile engine options none file := by
  have started : Within limit (engine.configuration file.path).delay :=
    inTime.of_le (configuration_le_steps engine options file)
  have due : dueCall? engine options limit file = dueCall? engine options none file := by
    simp [dueCall?, started]
  rw [checkFile_within inTime, checkFile_within within_none, due]

/-- When a check is over. -/
def checkDelay (engine : Engine) (options : Options) (limit : Option Nat) (file : SourceFile) :
    Nat :=
  let steps := (formatFile engine options file).work.delay
  limit.elim steps (min steps)

theorem checkDelay_within (inTime : Within limit (formatFile engine options file).work.delay) :
    checkDelay engine options limit file = (formatFile engine options file).work.delay := by
  cases limit with
  | none => rfl
  | some most => exact Nat.min_eq_left (within_some.1 inTime)

theorem checkDelay_late (late : most < (formatFile engine options file).work.delay) :
    checkDelay engine options (some most) file = most :=
  Nat.min_eq_right (Nat.le_of_lt late)

theorem le_checkDelay (early : now ≤ (formatFile engine options file).work.delay)
    (inTime : Within limit now) : now ≤ checkDelay engine options limit file := by
  cases limit with
  | none => exact early
  | some most => exact Nat.le_min.2 ⟨early, within_some.1 inTime⟩

namespace Task

/-! What is known of a task at a time. -/

/-- A task that was begun at time zero, and that the clock has not left behind. -/
inductive Reached (engine : Engine) (options : Options) (limit : Option Nat) (file : SourceFile)
    (now : Nat) : Task → Prop
  | resolving (early : now ≤ (engine.configuration file.path).delay) (inTime : Within limit now) :
      Reached engine options limit file now .resolving
  | formatting {found : Option Options}
      (resolved : (engine.configuration file.path).ending = .done found)
      (started : Within limit (engine.configuration file.path).delay)
      (early : now ≤ (formatFile engine options file).work.delay) (inTime : Within limit now) :
      Reached engine options limit file now
        (.formatting ⟨file.content, mergedOptions options found file.path⟩
          (formatFile engine options file).work.delay)
  | finished (past : checkDelay engine options limit file ≤ now) :
      Reached engine options limit file now (.finished (checkFile engine options limit file))

theorem reached_start : Reached engine options limit file 0 .resolving :=
  .resolving (Nat.zero_le _) fun _ _ => Nat.zero_le _

/-- At its limit a task that still waits for its steps is late, with the calls that were due. -/
theorem reached_orLate (reached : Reached engine options limit file now task)
    (inTime : Within limit now) (early : now < (formatFile engine options file).work.delay)
    (due : limit = some now → task.calls = (dueCall? engine options limit file).toList) :
    Reached engine options limit file now (task.orLate limit file now) := by
  cases limit with
  | none => exact reached
  | some most =>
    by_cases past : most ≤ now
    · obtain rfl : now = most := Nat.le_antisymm (within_some.1 inTime) past
      have late : orLate (some now) file now task =
          .finished (checkFile engine options (some now) file) := by
        rw [checkFile_late early, ← due rfl]
        simp [orLate]
      rw [late]
      exact .finished (Nat.le_of_eq (checkDelay_late early))
    · simpa [orLate, past] using reached

/-- A task whose steps are over now is in time. -/
theorem reached_ended (ended : now = (formatFile engine options file).work.delay)
    (inTime : Within limit now) :
    Reached engine options limit file now
      (.finished ⟨endingResult file (formatFile engine options file).work.ending,
        (dueCall? engine options limit file).toList⟩) := by
  rw [← checkFile_within (ended ▸ inTime)]
  exact .finished (Nat.le_of_eq ((checkDelay_within (ended ▸ inTime)).trans ended.symm))

theorem reached_awaitFormat (resolved : (engine.configuration file.path).ending = .done project)
    (started : Within limit (engine.configuration file.path).delay)
    (early : now ≤ (formatFile engine options file).work.delay) (inTime : Within limit now) :
    Reached engine options limit file now
      (awaitFormat engine limit file now ⟨file.content, mergedOptions options project file.path⟩
        (formatFile engine options file).work.delay) := by
  have due : dueCall? engine options limit file =
      some ⟨file.content, mergedOptions options project file.path⟩ := dueCall?_done resolved started
  unfold awaitFormat
  split
  next waiting =>
    apply reached_orLate (.formatting resolved started early inTime) inTime waiting
    intro _
    rw [due]
    rfl
  next past =>
    have ended : now = (formatFile engine options file).work.delay :=
      Nat.le_antisymm early (Nat.not_lt.1 past)
    have result := reached_ended ended inTime
    rw [due, formatFile_done resolved] at result
    exact result

theorem poll_stopped (past : now = (engine.configuration file.path).delay)
    (stopped : ∀ project, (engine.configuration file.path).ending ≠ .done project) :
    poll engine options limit file now .resolving =
      .finished ⟨endingResult file (formatFile engine options file).work.ending, []⟩ := by
  cases resolved : (engine.configuration file.path).ending with
  | done project => exact absurd resolved (stopped project)
  | failed failure => simp [poll, past, resolved, formatFile]
  | panicked payload => simp [poll, past, resolved, formatFile]

/-- A task whose configuration could not be resolved. -/
theorem reached_stopped (past : now = (engine.configuration file.path).delay)
    (stopped : ∀ project, (engine.configuration file.path).ending ≠ .done project)
    (inTime : Within limit now) :
    Reached engine options limit file now (.finished
      ⟨endingResult file (formatFile engine options file).work.ending, []⟩) := by
  have ended : (formatFile engine options file).work.delay = now := by
    rw [past]
    cases resolved : (engine.configuration file.path).ending with
    | done project => exact absurd resolved (stopped project)
    | failed failure => simp [formatFile, resolved]
    | panicked payload => simp [formatFile, resolved]
  have reached := reached_ended ended.symm inTime
  rw [dueCall?_stopped stopped] at reached
  exact reached

theorem reached_poll (reached : Reached engine options limit file now task) :
    Reached engine options limit file now (task.poll engine options limit file now) := by
  cases reached with
  | resolving early inTime =>
    have later := configuration_le_steps engine options file
    by_cases waiting : now < (engine.configuration file.path).delay
    · have step :
          poll engine options limit file now .resolving = orLate limit file now .resolving := by
        simp [poll, waiting]
      rw [step]
      apply reached_orLate (.resolving early inTime) inTime (Nat.lt_of_lt_of_le waiting later)
      rintro rfl
      rw [dueCall?_late (by simpa using waiting)]
      rfl
    · have past : now = (engine.configuration file.path).delay :=
        Nat.le_antisymm early (Nat.not_lt.1 waiting)
      by_cases found : ∃ project, (engine.configuration file.path).ending = .done project
      · obtain ⟨project, resolved⟩ := found
        have step : poll engine options limit file now .resolving =
            awaitFormat engine limit file now
              ⟨file.content, mergedOptions options project file.path⟩
              (formatFile engine options file).work.delay := by
          simp [poll, past, resolved, formatFile]
        rw [step]
        exact reached_awaitFormat resolved (past ▸ inTime) (past ▸ later) inTime
      · have stopped := fun project resolved => found ⟨project, resolved⟩
        rw [poll_stopped past stopped]
        exact reached_stopped past stopped inTime
  | formatting resolved started early inTime =>
    exact reached_awaitFormat resolved started early inTime
  | finished past => exact .finished past

/-- A task that waits is not at its end yet, and the clock may move on by one. -/
theorem reached_wait (reached : Reached engine options limit file now task)
    (waits : task.waits engine limit file now) :
    Reached engine options limit file (now + 1) task ∧
      now < checkDelay engine options limit file := by
  cases reached with
  | resolving early inTime =>
    have later := configuration_le_steps engine options file
    obtain ⟨early, ahead⟩ : now < (engine.configuration file.path).delay ∧ limit.all (now < ·) := by
      simpa only [Task.waits, Bool.and_eq_true, decide_eq_true_eq] using waits
    have inTime := within_next ahead
    exact ⟨.resolving early inTime, le_checkDelay (Nat.le_trans early later) inTime⟩
  | formatting resolved started early inTime =>
    obtain ⟨early, ahead⟩ : now < (formatFile engine options file).work.delay ∧
        limit.all (now < ·) := by
      simpa only [Task.waits, Bool.and_eq_true, decide_eq_true_eq] using waits
    have inTime := within_next ahead
    exact ⟨.formatting resolved started early inTime, le_checkDelay early inTime⟩
  | finished past => cases waits

/-- A task at its end has come to what the check as a whole comes to. -/
theorem finished_of_reached
    (reached : Reached engine options limit file now (.finished checked)) :
    checked = checkFile engine options limit file ∧ checkDelay engine options limit file ≤ now := by
  generalize same : Task.finished checked = task at reached
  cases reached with
  | resolving | formatting => cases same
  | finished past => exact ⟨Task.finished.inj same, past⟩

theorem waits_or_finished (reached : Reached engine options limit file now task)
    (settled : task.settled engine limit file now) :
    task.waits engine limit file now ∨
      task = .finished (checkFile engine options limit file) ∧
        checkDelay engine options limit file ≤ now := by
  cases reached with
  | resolving | formatting => exact .inl settled
  | finished past => exact .inr ⟨rfl, past⟩

theorem settled_orLate (waits : limit.all (now < ·) → task.settled engine limit file now) :
    (task.orLate limit file now).settled engine limit file now := by
  cases limit with
  | none => exact waits rfl
  | some most =>
    by_cases past : most ≤ now
    · simp [orLate, past, settled]
    · have early : now < most := Nat.not_le.1 past
      simpa [orLate, past] using waits (by simpa using early)

theorem settled_awaitFormat (call : Call) (wake : Nat) :
    (awaitFormat engine limit file now call wake).settled engine limit file now := by
  unfold awaitFormat
  split
  next waiting =>
    apply settled_orLate
    simp [settled, Task.waits, waiting]
  next => rfl

theorem settled_poll (options : Options) (task : Task) :
    (task.poll engine options limit file now).settled engine limit file now := by
  cases task with
  | resolving =>
    simp only [poll]
    split
    next waiting =>
      apply settled_orLate
      simp [settled, Task.waits, waiting]
    next =>
      split
      · rfl
      · rfl
      · exact settled_awaitFormat _ _
  | formatting call wake => exact settled_awaitFormat call wake
  | finished checked => rfl

/-! Whole runs of a task. -/

theorem ends_checked (ends : Ends engine options limit file now task time checked)
    (reached : Reached engine options limit file now task)
    (le : now ≤ checkDelay engine options limit file) :
    time = checkDelay engine options limit file ∧
      checked = checkFile engine options limit file := by
  induction ends with
  | finished =>
    obtain ⟨same, past⟩ := finished_of_reached reached
    exact ⟨Nat.le_antisymm le past, same⟩
  | polled _ ih => exact ih (reached_poll reached) le
  | waited waits _ ih =>
    obtain ⟨reached, early⟩ := reached_wait reached waits
    exact ih reached early

/-- The run that polls once at each time, by induction on what is left until the end. -/
theorem ends_of_reached (reached : Reached engine options limit file now task)
    (le : now ≤ checkDelay engine options limit file) :
    Ends engine options limit file now task (checkDelay engine options limit file)
      (checkFile engine options limit file) := by
  induction left : checkDelay engine options limit file - now using Nat.strongRecOn
    generalizing now task with
  | ind left ih =>
    apply Ends.polled
    have polled := reached_poll reached
    have settled : (task.poll engine options limit file now).settled engine limit file now :=
      settled_poll options task
    rcases waits_or_finished polled settled with waits | ⟨ended, past⟩
    · obtain ⟨later, early⟩ := reached_wait polled waits
      exact .waited waits (ih _ (by omega) later early rfl)
    · rw [ended, ← Nat.le_antisymm le past]
      exact .finished

end Task

/-! Limits compared. -/

/-- A check that is told to have timed out. -/
def Checked.isLate (checked : Checked) : Bool :=
  match checked.result with
  | .error (.timedOut _ _) => true
  | _ => false

theorem isLate_iff : (checkFile engine options limit file).isLate ↔
    ¬ Within limit (formatFile engine options file).work.delay := by
  by_cases inTime : Within limit (formatFile engine options file).work.delay
  · rw [checkFile_within inTime]
    cases (formatFile engine options file).work.ending <;>
      simp [Checked.isLate, endingResult, inTime]
  · cases limit with
    | none => exact absurd within_none inTime
    | some most =>
      rw [checkFile_late (by simpa using inTime)]
      simp [Checked.isLate, inTime]

theorem isLate_iff_timedOut {checked : Checked} :
    checked.isLate ↔ ∃ path most, checked.result = .error (.timedOut path most) := by
  unfold Checked.isLate
  split
  next path most told => exact ⟨fun _ => ⟨path, most, told⟩, fun _ => rfl⟩
  next other => exact ⟨nofun, fun ⟨path, most, told⟩ => absurd told (other path most)⟩

namespace Batch

/-- The indices of the files whose checks have timed out. -/
def late (done : List (Nat × Checked)) : List Nat :=
  (done.filter (·.2.isLate)).map (·.1)

theorem mem_late_finished {check : SourceFile → Checked} {files : List SourceFile}
    {order : List Nat} {i : Nat} : i ∈ late (finished check files order) ↔
      i ∈ order ∧ ∃ file, files[i]? = some file ∧ (check file).isLate := by
  simp only [late, finished, List.mem_map, List.mem_filter, List.mem_filterMap,
    Option.map_eq_some_iff]
  constructor
  · rintro ⟨_, ⟨⟨j, mem, file, here, rfl⟩, isLate⟩, rfl⟩
    exact ⟨mem, file, here, isLate⟩
  · rintro ⟨mem, file, here, isLate⟩
    exact ⟨(i, check file), ⟨⟨i, mem, file, here, rfl⟩, isLate⟩, rfl⟩

end Batch

/-- A task ends with its steps, and as it would without a limit, unless its limit comes before: then
it ends at its limit and has timed out, whatever its steps would have come to. So a longer limit
changes only what has timed out, and in a batch fewer files time out, in whatever order they end. -/
theorem ends_with_steps_or_at_limit (engine : Engine) (options : Options) (file : SourceFile) :
    let steps := (formatFile engine options file).work.delay
    let outcome := fun limit => checkFile engine options limit file
    (∀ limit time checked, Task.Ends engine options limit file 0 .resolving time checked ↔
      time = limit.elim steps (min steps) ∧ checked = outcome limit) ∧
    (∀ most, (steps ≤ most → outcome (some most) = outcome none) ∧
      (most < steps → (outcome (some most)).result = .error (.timedOut file.path most))) ∧
    (∀ path most, (outcome none).result ≠ .error (.timedOut path most)) ∧
    (∀ most most', most ≤ most' →
      (∀ path time, (outcome (some most)).result ≠ .error (.timedOut path time)) →
      outcome (some most') = outcome (some most)) ∧
    ∀ files order order' most most', most ≤ most' → order.Perm (List.range files.length) →
      order'.Perm (List.range files.length) →
      Batch.late (Batch.finished (checkFile engine options (some most')) files order') ⊆
        Batch.late (Batch.finished (checkFile engine options (some most)) files order) := by
  intro steps outcome
  refine ⟨?_, ?_, ?_, ?_, ?_⟩
  · intro limit time checked
    constructor
    · intro ends
      exact Task.ends_checked ends Task.reached_start (Nat.zero_le _)
    · rintro ⟨rfl, rfl⟩
      exact Task.ends_of_reached Task.reached_start (Nat.zero_le _)
  · intro most
    constructor
    · intro inTime
      exact checkFile_eq_unlimited (within_some.2 inTime)
    · intro late
      exact congrArg Checked.result (checkFile_late late)
  · intro path most told
    exact isLate_iff.1 (isLate_iff_timedOut.2 ⟨path, most, told⟩) within_none
  · intro most most' le inTime
    have within : Within (some most) steps := by
      by_contra late
      obtain ⟨path, time, told⟩ := isLate_iff_timedOut.1 (isLate_iff.2 late)
      exact inTime path time told
    have within' : Within (some most') steps := by
      simpa using Nat.le_trans (within_some.1 within) le
    exact (checkFile_eq_unlimited within').trans (checkFile_eq_unlimited within).symm
  · intro files order order' most most' le complete complete' i mem
    obtain ⟨there, other, here, late⟩ := Batch.mem_late_finished.1 mem
    apply Batch.mem_late_finished.2
    refine ⟨complete.symm.subset (complete'.subset there), other, here, ?_⟩
    rw [isLate_iff, within_some] at late ⊢
    omega

theorem ends_with_steps_or_at_limit_panicking :
    let engine := Batch.feedingSave "a" (.panicked none)
    let file : SourceFile := ⟨"a", "x"⟩
    Task.Ends engine .unset (some 2) file 0 .resolving 2
        ⟨.error (.panicked "a" none), [⟨"x", mergedOptions .unset none "a"⟩]⟩ ∧
      Task.Ends engine .unset (some 1) file 0 .resolving 1
        ⟨.error (.timedOut "a" 1), [⟨"x", mergedOptions .unset none "a"⟩]⟩ ∧
      (1 ≤ 2 ∧ [1, 0].Perm (List.range 2) ∧ [0, 1].Perm (List.range 2)) ∧
      let files := [file, ⟨"b", "y"⟩]
      Batch.late (Batch.finished (checkFile engine .unset (some 2)) files [0, 1]) ⊆
        Batch.late (Batch.finished (checkFile engine .unset (some 1)) files [1, 0]) := by
  intro engine file
  obtain ⟨runs, -, -, -, shrinks⟩ := ends_with_steps_or_at_limit engine .unset file
  refine ⟨(runs ..).2 ⟨rfl, rfl⟩, (runs ..).2 ⟨rfl, rfl⟩, by decide, ?_⟩
  exact shrinks _ _ _ 1 2 (by decide) (by decide) (by decide)

end FormatPreview
