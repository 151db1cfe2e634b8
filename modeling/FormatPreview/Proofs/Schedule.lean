import FormatPreview.Proofs.Contents
import FormatPreview.Proofs.Task

/-!
Batches as they run. The tasks of a batch are polled in any order and as often as one likes, the
clock moves on while none of them has anything to do, and a task at its end is joined once. What a
batch leaves behind besides its results are the events, written at the joins, and the calls of the
engine, made at the polls. Under every schedule they are those of the files, each of them once.
-/
namespace FormatPreview

namespace Task

/-! A poll adds to the calls of its task. -/

variable {engine : Engine} {options : Options} {limit : Option Nat} {file : SourceFile} {now : Nat}

/-- The calls that a poll makes. -/
def made (engine : Engine) (options : Options) (limit : Option Nat) (file : SourceFile) (now : Nat)
    (task : Task) : List Call :=
  (task.poll engine options limit file now).calls.drop task.calls.length

end Task

namespace Batch

structure Job where
  file : SourceFile
  task : Task

/-- A batch on its way, with the indices of the tasks that have been joined. -/
structure Progress where
  clock : Nat
  jobs : List Job
  joined : List Nat
  slots : List (Option Comparison)
  events : List Event
  calls : List Call

inductive Action where
  | poll (i : Nat)
  | join (i : Nat)
  | wait

def start (files : List SourceFile) : Progress where
  clock := 0
  jobs := files.map (⟨·, .resolving⟩)
  joined := []
  slots := List.replicate files.length none
  events := []
  calls := []

/-- All tasks have been joined. -/
def Complete (p : Progress) : Prop := ∀ i < p.jobs.length, i ∈ p.joined

def Progress.results (p : Progress) : List Comparison :=
  p.slots.zipWith (fun slot job => slot.getD (.unchanged job.file.path job.file.content)) p.jobs

section

variable (engine : Engine) (options : Options) (limit : Option Nat)

/-- One task does something, or all of them wait. An action whose time has not come does nothing. -/
def advance (p : Progress) : Action → Progress
  | .poll i =>
    match p.jobs[i]? with
    | some job =>
      { p with
        jobs := p.jobs.set i ⟨job.file, job.task.poll engine options limit job.file p.clock⟩
        calls := p.calls ++ job.task.made engine options limit job.file p.clock }
    | none => p
  | .join i =>
    match p.jobs[i]? with
    | some ⟨_, .finished checked⟩ =>
      if i ∈ p.joined then p
      else { p with
        joined := p.joined ++ [i]
        slots := place p.slots (i, checked)
        events := p.events ++ (failureEvent? checked).toList }
    | _ => p
  | .wait =>
    if p.jobs.all fun job => job.task.settled engine limit job.file p.clock then
      { p with clock := p.clock + 1 }
    else p

end

variable {engine : Engine} {options : Options} {limit : Option Nat} {files : List SourceFile}
  {p : Progress} {job : Job} {file : SourceFile} {checked : Checked} {i : Nat}

/-- What a batch leaves behind besides its results, in some order: for each file whose check fails
an event that names the file and says why, and for each file that gets as far its call. -/
structure Accounted (engine : Engine) (options : Options) (limit : Option Nat)
    (files : List SourceFile) (events : List Event) (calls : List Call) : Prop where
  events : events.Perm (files.filterMap fun file =>
    match (checkFile engine options limit file).result with
    | .ok _ => none
    | .error e => some (.formatFailed file.path e.message))
  calls : calls.Perm (files.filterMap (dueCall? engine options limit))

/-- All tasks are polled. -/
def polls (files : List SourceFile) : List Action := (List.range files.length).map .poll

/-- All tasks are polled at each time. -/
def rounds (files : List SourceFile) : Nat → List Action
  | 0 => []
  | n + 1 => polls files ++ .wait :: rounds files n

/-- Two files of one path, and between them one that is late. -/
def repeated : List SourceFile := [⟨"a", "x"⟩, ⟨"b", "y"⟩, ⟨"a", "x"⟩]

end Batch

end FormatPreview
