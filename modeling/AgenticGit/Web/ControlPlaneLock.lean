import AgenticGit.Lib.Runs

/- The lock that keeps a second control plane out of a project directory:
   `acquireControlPlaneLock` and `removeStaleLock` (`control-plane-lock.ts`).

   Every operation on the file is one event, and so is the question whether a process
   runs. They come in any order, from any number of processes on any number of machines,
   which may stop anywhere; a lock that is left behind is removed by whoever finds it.

   Correspondence (TypeScript ↔ Lean):
     an acquire, with the lock it returns      ↔ `ControlPlane`; its `instanceId` is its number
     the lock file                             ↔ `LockFile`; the owner is in it once it is
       `written`, and half an owner is none
     where an acquire or a release stands      ↔ `Place`
     `processIsRunning(owner.pid)`             ↔ `State.runs` on the machine that asks, or
       another program there that has the pid (`taken`)
   A build that did not write its `hostname` is a control plane without one.

   What is proved:
     1. `kept_step` — whoever has opened the file, and lives, has the file that is there.
     2. `one_control_plane` — two control planes never hold one directory, in every run in
        which who removes a lock finds the lock it judged, and, where it had only an age or
        a pid of another machine to go by, one that nobody alive wrote.
     3. `two_control_planes` — without that they do: of two that find one dead owner, the
        slower removes the lock of the faster. -/
namespace AgenticGit.Web
open AgenticGit.Runs

/-! ## The lock -/

structure LockFile where
  owner : Nat
  written : Bool
  mtime : Int
  deriving DecidableEq, Repr

/-- Where an acquire stands, with its attempt, or a release. -/
inductive Place where
  | opening (attempt : Nat)
  /-- The file is open, and the owner is not in it yet. -/
  | writing
  /-- The file was there: `readOwner`. -/
  | reading (attempt : Nat)
  /-- Whether the owner that was read is running. -/
  | asking (attempt seen : Nat)
  /-- `stat`, with the owner that was read. -/
  | aging (attempt : Nat) (seen : Option Nat)
  /-- `unlink`, with the owner that was found not to run on its own machine. -/
  | removing (attempt : Nat) (judged : Option Nat)
  | holding
  | releasing
  | unlinking
  /-- Released, or refused. -/
  | ended
  deriving DecidableEq, Repr

/-- The file is open, and was not given back. -/
def Place.owns : Place → Bool
  | .writing | .holding | .releasing | .unlinking => true
  | _ => false

structure ControlPlane where
  host : String
  hostname : Option String
  pid : Nat
  alive : Bool
  place : Place
  deriving DecidableEq, Repr

structure State where
  file : Option LockFile
  planes : List ControlPlane
  now : Int
  deriving DecidableEq, Repr

/-- `INCOMPLETE_LOCK_GRACE_MS`. -/
def incompleteLockGraceMs : Int := 5000

namespace State

def readOwner (s : State) : Option Nat :=
  s.file.bind fun file => if file.written then some file.owner else none

def runs (s : State) (host : String) (pid : Nat) : Bool :=
  s.planes.any fun plane => plane.alive && plane.host = host && plane.pid = pid

end State

/-- The file was there, and is gone. -/
def retry (attempt : Nat) : Place := if attempt + 1 < 3 then .opening (attempt + 1) else .ended

/-- The next operation of the `i`th: the file after it, and where it then stands. -/
def proceed (s : State) (i : Nat) (plane : ControlPlane) (taken : Bool) :
    Option LockFile × Place :=
  match plane.place with
  | .opening attempt =>
    match s.file with
    | none => (some ⟨i, false, s.now⟩, .writing)
    | some file => (some file, .reading attempt)
  | .writing =>
    (s.file.map fun file =>
      if file.owner = i then { file with written := true, mtime := s.now } else file, .holding)
  | .reading attempt =>
    match s.readOwner with
    | some seen => (s.file, .asking attempt seen)
    | none => (s.file, .aging attempt none)
  | .asking attempt seen =>
    match s.planes[seen]? with
    | none => (s.file, .ended)
    | some owner =>
      let running := taken || s.runs plane.host owner.pid
      if owner.hostname = some plane.host then
        (s.file, if running then .ended else .removing attempt (some seen))
      else (s.file, if running then .aging attempt (some seen) else .removing attempt none)
  | .aging attempt seen =>
    match s.file with
    | none => (none, if seen.isSome then .removing attempt none else retry attempt)
    | some file =>
      (some file, if s.now - file.mtime < incompleteLockGraceMs then .ended
        else .removing attempt none)
  | .removing attempt _ => (none, retry attempt)
  | .releasing => (s.file, if s.readOwner = some i then .unlinking else .ended)
  | .unlinking => (none, .ended)
  | .holding => (s.file, .releasing)
  | .ended => (s.file, .ended)

inductive Event where
  | starts (host : String) (pid : Nat)
  | goes (i : Nat) (taken : Bool)
  /-- An operation throws, and the acquire or the release with it. -/
  | fails (i : Nat)
  | dies (i : Nat)
  | passes (ms : Nat)
  deriving DecidableEq, Repr

/-- What one of those that live does. -/
def State.lets (s : State) (i : Nat) (f : ControlPlane → Option LockFile × ControlPlane) :
    Option State :=
  match s.planes[i]? with
  | some plane =>
    if plane.alive then some { s with file := (f plane).1, planes := s.planes.set i (f plane).2 }
    else none
  | none => none

def step (s : State) : Event → Option State
  | .starts host pid =>
    some { s with planes := s.planes ++ [⟨host, some host, pid, true, .opening 0⟩] }
  | .goes i taken =>
    s.lets i fun plane =>
      ((proceed s i plane taken).1, { plane with place := (proceed s i plane taken).2 })
  | .fails i => s.lets i fun plane => (s.file, { plane with place := .ended })
  | .dies i => s.lets i fun plane => (s.file, { plane with alive := false })
  | .passes ms => some { s with now := s.now + ms }

/-! ## What the file says -/

/-- The control plane with the number is known, and does not run any more. -/
def State.Gone (s : State) (seen : Nat) : Prop :=
  ∃ owner, s.planes[seen]? = some owner ∧ owner.alive = false

/-- Who has opened the file has the file that is there, and who was judged is gone. -/
structure Kept (s : State) : Prop where
  file : ∀ (i : Nat) (plane : ControlPlane), s.planes[i]? = some plane → plane.alive = true →
    plane.place.owns = true → ∃ file, s.file = some file ∧ file.owner = i
  judged : ∀ (i : Nat) (plane : ControlPlane) (attempt seen : Nat), s.planes[i]? = some plane →
    plane.alive = true → plane.place = .removing attempt (some seen) → s.Gone seen
  named : ∀ (i : Nat) (plane : ControlPlane), s.planes[i]? = some plane → plane.alive = true →
    plane.hostname = some plane.host

/-- Who removes a lock finds the one it judged; or one that nobody alive wrote, where it
has judged by its age, or by a pid of another machine. -/
def sound (s : State) : Event → Bool
  | .goes i _ =>
    match s.planes[i]?.map ControlPlane.place, s.file with
    | some (.removing _ (some seen)), some file => file.owner = seen
    | some (.removing _ none), some file => (s.planes[file.owner]?).all fun owner => !owner.alive
    | _, _ => true
  | _ => true

variable {s t : State} {i : Nat} {plane next : ControlPlane} {file : Option LockFile}

theorem kept_update (hkept : Kept s) (hplane : s.planes[i]? = some plane)
    (hlive : next.alive = true → plane.alive = true ∧ next.host = plane.host ∧
      next.hostname = plane.hostname)
    (hown : next.alive = true → next.place.owns = true →
      ∃ found, file = some found ∧ found.owner = i)
    (hothers : ∀ (j : Nat) (other : ControlPlane), j ≠ i → s.planes[j]? = some other →
      other.alive = true → other.place.owns = true → ∃ found, file = some found ∧ found.owner = j)
    (hjudged : ∀ attempt seen, next.alive = true → next.place = .removing attempt (some seen) →
      s.Gone seen) :
    Kept { s with file, planes := s.planes.set i next } := by
  obtain ⟨hi, -⟩ := List.getElem?_eq_some_iff.mp hplane
  -- who was gone stays so
  have hgone : ∀ seen, s.Gone seen →
      State.Gone { s with file, planes := s.planes.set i next } seen := by
    rintro seen ⟨owner, howner, hdead⟩
    by_cases hsame : i = seen
    · subst hsame
      obtain rfl := Option.some.inj (hplane.symm.trans howner)
      refine ⟨next, List.getElem?_set_self hi, eq_false_of_ne_true fun halive => ?_⟩
      rw [(hlive halive).1] at hdead
      cases hdead
    · exact ⟨owner, (List.getElem?_set_ne hsame).trans howner, hdead⟩
  have hcases : ∀ j other, (s.planes.set i next)[j]? = some other →
      j = i ∧ other = next ∨ j ≠ i ∧ s.planes[j]? = some other := by
    intro j other hother
    by_cases hsame : i = j
    · subst hsame
      rw [List.getElem?_set_self hi] at hother
      exact .inl ⟨rfl, (Option.some.inj hother).symm⟩
    · rw [List.getElem?_set_ne hsame] at hother
      exact .inr ⟨Ne.symm hsame, hother⟩
  constructor
  · intro j other hother halive howns
    rcases hcases j other hother with ⟨rfl, rfl⟩ | ⟨hne, hother⟩
    · exact hown halive howns
    · exact hothers j other hne hother halive howns
  · intro j other attempt seen hother halive hremoves
    rcases hcases j other hother with ⟨rfl, rfl⟩ | ⟨hne, hother⟩
    · exact hgone seen (hjudged attempt seen halive hremoves)
    · exact hgone seen (hkept.judged j other attempt seen hother halive hremoves)
  · intro j other hother halive
    rcases hcases j other hother with ⟨rfl, rfl⟩ | ⟨hne, hother⟩
    · obtain ⟨halive, hhost, hname⟩ := hlive halive
      rw [hhost, hname]
      exact hkept.named j plane hplane halive
    · exact hkept.named j other hother halive

/-- **Nobody alive loses the file to a removal.** -/
theorem removal_spares (hkept : Kept s) {taken : Bool} (hsound : sound s (.goes i taken) = true)
    (hplane : s.planes[i]? = some plane) (halive : plane.alive = true) {attempt : Nat}
    {judged : Option Nat} (hremoves : plane.place = .removing attempt judged) {j : Nat}
    {other : ControlPlane} (hother : s.planes[j]? = some other) (hlives : other.alive = true) :
    other.place.owns = false := by
  refine eq_false_of_ne_true fun howns => ?_
  obtain ⟨found, hfile, rfl⟩ := hkept.file j other hother hlives howns
  simp only [sound, hplane, Option.map_some, hremoves, hfile] at hsound
  cases judged with
  | none =>
    have hdead : (!other.alive) = true := by simpa only [hother, Option.all_some] using hsound
    rw [hlives] at hdead
    cases hdead
  | some seen =>
    obtain ⟨owner, howner, hdead⟩ := hkept.judged i plane attempt seen hplane halive hremoves
    obtain rfl : found.owner = seen := of_decide_eq_true hsound
    obtain rfl := Option.some.inj (howner.symm.trans hother)
    rw [hdead] at hlives
    cases hlives

theorem kept_moves (hkept : Kept s) (hplane : s.planes[i]? = some plane)
    (hlive : next.alive = true → plane.alive = true ∧ next.host = plane.host ∧
      next.hostname = plane.hostname)
    (howns : next.alive = true → next.place.owns = true → plane.place.owns = true)
    (hjudged : ∀ attempt seen, next.alive = true → next.place = .removing attempt (some seen) →
      s.Gone seen) :
    Kept { s with file := s.file, planes := s.planes.set i next } :=
  kept_update hkept hplane hlive
    (fun halive hplace => hkept.file i plane hplane (hlive halive).1 (howns halive hplace))
    (fun j other _ hother halive hplace => hkept.file j other hother halive hplace) hjudged

/-- What an operation does: it leaves the file alone, and finds at most that an owner does
not run on its own machine; or it opens the file, writes it or removes it. -/
theorem proceed_cases (s : State) (i : Nat) (plane : ControlPlane) (taken : Bool) :
    ∃ file place, proceed s i plane taken = (file, place) ∧
      ((file = s.file ∧ (place.owns = true → plane.place.owns = true) ∧
          ∀ attempt seen, place = .removing attempt (some seen) →
            ∃ owner, s.planes[seen]? = some owner ∧ owner.hostname = some plane.host ∧
              s.runs plane.host owner.pid = false) ∨
        (s.file = none ∧ file = some ⟨i, false, s.now⟩ ∧ place = .writing) ∨
        (plane.place = .writing ∧ place = .holding ∧ file = s.file.map fun file =>
          if file.owner = i then { file with written := true, mtime := s.now } else file) ∨
        (((∃ attempt judged, plane.place = .removing attempt judged) ∨
            plane.place = .unlinking) ∧ file = none ∧ place.owns = false ∧
          ∀ attempt judged, place ≠ .removing attempt judged)) := by
  have hretry : ∀ attempt, (retry attempt).owns = false ∧
      ∀ attempt' judged, retry attempt ≠ .removing attempt' judged := by
    intro attempt
    unfold retry
    split
    · exact ⟨rfl, nofun⟩
    · exact ⟨rfl, nofun⟩
  refine ⟨(proceed s i plane taken).1, (proceed s i plane taken).2, rfl, ?_⟩
  unfold proceed
  cases hplace : plane.place with
  | opening attempt =>
    cases hfile : s.file with
    | none => exact .inr (.inl ⟨rfl, rfl, rfl⟩)
    | some file => exact .inl ⟨rfl, nofun, nofun⟩
  | writing => exact .inr (.inr (.inl ⟨rfl, rfl, rfl⟩))
  | reading attempt =>
    dsimp only
    split
    · exact .inl ⟨rfl, nofun, nofun⟩
    · exact .inl ⟨rfl, nofun, nofun⟩
  | asking attempt seen =>
    dsimp only
    split
    · exact .inl ⟨rfl, nofun, nofun⟩
    · rename_i owner howner
      split
      · rename_i htrusted
        split
        · exact .inl ⟨rfl, nofun, nofun⟩
        · rename_i hstopped
          refine .inl ⟨rfl, nofun, fun attempt' seen' h => ?_⟩
          obtain rfl := Option.some.inj (Place.removing.inj h).2
          exact ⟨owner, howner, htrusted, (Bool.or_eq_false_iff.mp (eq_false_of_ne_true hstopped)).2⟩
      · split
        · exact .inl ⟨rfl, nofun, nofun⟩
        · exact .inl ⟨rfl, nofun, nofun⟩
  | aging attempt seen =>
    cases hfile : s.file with
    | none =>
      dsimp only
      split
      · exact .inl ⟨rfl, nofun, nofun⟩
      · obtain ⟨howns, hremoves⟩ := hretry attempt
        exact .inl ⟨rfl, fun h => absurd (howns.symm.trans h) (by decide),
          fun _ _ h => absurd h (hremoves _ _)⟩
    | some file =>
      dsimp only
      split
      · exact .inl ⟨rfl, nofun, nofun⟩
      · exact .inl ⟨rfl, nofun, nofun⟩
  | removing attempt judged =>
    exact .inr (.inr (.inr ⟨.inl ⟨attempt, judged, rfl⟩, rfl, hretry attempt⟩))
  | releasing =>
    dsimp only
    split
    · exact .inl ⟨rfl, fun _ => rfl, nofun⟩
    · exact .inl ⟨rfl, nofun, nofun⟩
  | unlinking => exact .inr (.inr (.inr ⟨.inr rfl, rfl, rfl, nofun⟩))
  | holding => exact .inl ⟨rfl, fun _ => rfl, nofun⟩
  | ended => exact .inl ⟨rfl, nofun, nofun⟩

theorem runs_of_alive {other : ControlPlane} {j : Nat} (hother : s.planes[j]? = some other)
    (hlives : other.alive = true) : s.runs other.host other.pid = true := by
  refine List.any_eq_true.mpr ⟨other, List.mem_of_getElem? hother, ?_⟩
  rw [hlives]
  simp

theorem kept_proceed {taken : Bool} (hkept : Kept s) (hsound : sound s (.goes i taken) = true)
    (hplane : s.planes[i]? = some plane) (halive : plane.alive = true) :
    Kept { s with
      file := (proceed s i plane taken).1
      planes := s.planes.set i { plane with place := (proceed s i plane taken).2 } } := by
  obtain ⟨file, place, hproceed, hcases⟩ := proceed_cases s i plane taken
  rw [hproceed]
  rcases hcases with ⟨rfl, howns, hjudged⟩ | ⟨hfile, rfl, rfl⟩ | ⟨hplace, rfl, rfl⟩ |
    ⟨hplace, rfl, howns, hremoves⟩
  · refine kept_moves hkept hplane (fun h => ⟨h, rfl, rfl⟩) (fun _ => howns) ?_
    intro attempt seen _ hplace
    obtain ⟨owner, howner, hname, hstopped⟩ := hjudged attempt seen hplace
    refine ⟨owner, howner, eq_false_of_ne_true fun hlives => ?_⟩
    -- it has its hostname from the machine it runs on
    have hhost := Option.some.inj ((hkept.named seen owner howner hlives).symm.trans hname)
    rw [← hhost, runs_of_alive howner hlives] at hstopped
    cases hstopped
  · refine kept_update hkept hplane (fun h => ⟨h, rfl, rfl⟩) (fun _ _ => ⟨_, rfl, rfl⟩) ?_ nofun
    intro j other _ hother hlives howns
    obtain ⟨found, hfound, -⟩ := hkept.file j other hother hlives howns
    rw [hfile] at hfound
    cases hfound
  · have hwritten : ∀ (j : Nat) (other : ControlPlane), s.planes[j]? = some other →
        other.alive = true → other.place.owns = true → ∃ found, (s.file.map fun file =>
          if file.owner = i then { file with written := true, mtime := s.now } else file) =
            some found ∧ found.owner = j := by
      intro j other hother hlives howns
      obtain ⟨found, hfound, rfl⟩ := hkept.file j other hother hlives howns
      refine ⟨_, (congrArg _ hfound).trans rfl, ?_⟩
      dsimp only
      split
      · rfl
      · rfl
    exact kept_update hkept hplane (fun h => ⟨h, rfl, rfl⟩)
      (fun _ _ => hwritten i plane hplane halive (by rw [hplace]; rfl))
      (fun j other _ => hwritten j other) nofun
  · refine kept_update hkept hplane (fun h => ⟨h, rfl, rfl⟩)
      (fun _ h => absurd (howns.symm.trans h) (by decide)) ?_ fun _ _ _ h => absurd h (hremoves _ _)
    intro j other hne hother hlives hothers
    rcases hplace with ⟨attempt, judged, hplace⟩ | hplace
    · rw [removal_spares hkept hsound hplane halive hplace hother hlives] at hothers
      cases hothers
    · obtain ⟨found, hfound, rfl⟩ := hkept.file j other hother hlives hothers
      obtain ⟨found', hfound', rfl⟩ := hkept.file i plane hplane halive (by rw [hplace]; rfl)
      exact absurd (congrArg LockFile.owner (Option.some.inj (hfound.symm.trans hfound'))) hne

theorem lets_some {f : ControlPlane → Option LockFile × ControlPlane} (h : s.lets i f = some t) :
    ∃ plane, s.planes[i]? = some plane ∧ plane.alive = true ∧
      t = { s with file := (f plane).1, planes := s.planes.set i (f plane).2 } := by
  unfold State.lets at h
  split at h
  · rename_i plane hplane
    rw [Option.ite_none_right_eq_some] at h
    exact ⟨plane, hplane, h.1, (Option.some.inj h.2).symm⟩
  · cases h

/-- **Every step keeps it.** -/
theorem kept_step {event : Event} (hkept : Kept s) (hsound : sound s event = true)
    (h : step s event = some t) : Kept t := by
  cases event with
  | starts host pid =>
    obtain rfl := Option.some.inj h
    have hold : ∀ (j : Nat) (other : ControlPlane),
        (s.planes ++ [⟨host, some host, pid, true, .opening 0⟩])[j]? = some other →
          s.planes[j]? = some other ∨ other = ⟨host, some host, pid, true, .opening 0⟩ := by
      intro j other hother
      rw [List.getElem?_append] at hother
      split at hother
      · exact .inl hother
      · exact .inr (List.mem_singleton.mp (List.mem_of_getElem? hother))
    refine ⟨fun j other hother hlives howns => ?_, fun j other attempt seen hother hlives h => ?_,
      fun j other hother hlives => ?_⟩
    · rcases hold j other hother with hother | rfl
      · exact hkept.file j other hother hlives howns
      · cases howns
    · rcases hold j other hother with hother | rfl
      · obtain ⟨owner, howner, hgone⟩ := hkept.judged j other attempt seen hother hlives h
        exact ⟨owner, (List.getElem?_append_left (List.getElem?_eq_some_iff.mp howner).1).trans
          howner, hgone⟩
      · cases h
    · rcases hold j other hother with hother | rfl
      · exact hkept.named j other hother hlives
      · rfl
  | goes i taken =>
    obtain ⟨plane, hplane, halive, rfl⟩ := lets_some h
    exact kept_proceed hkept hsound hplane halive
  | fails i =>
    obtain ⟨plane, hplane, -, rfl⟩ := lets_some h
    exact kept_moves hkept hplane (fun h => ⟨h, rfl, rfl⟩) nofun nofun
  | dies i =>
    obtain ⟨plane, hplane, -, rfl⟩ := lets_some h
    exact kept_moves hkept hplane nofun nofun nofun
  | passes ms =>
    obtain rfl := Option.some.inj h
    exact ⟨hkept.file, hkept.judged, hkept.named⟩

/-! ## Every run -/

/-- It lives, and has the lock. -/
def State.Holds (s : State) (i : Nat) : Prop :=
  ∃ plane, s.planes[i]? = some plane ∧ plane.alive = true ∧ plane.place = .holding

/-- **Two control planes never hold one directory**, whatever was left in it, in every run in
which who removes a lock finds the one it judged, and judges none by its age or by a pid of
another machine that somebody alive wrote. -/
theorem one_control_plane {start : State} {events : List Event}
    (hstart : ∀ plane ∈ start.planes, plane.alive = false)
    (hsound : Throughout step (fun s event => sound s event = true) start events) (h : run step start events = some s) {i j : Nat}
    (hi : s.Holds i) (hj : s.Holds j) : i = j := by
  have hdead : ∀ (i : Nat) (plane : ControlPlane), start.planes[i]? = some plane →
      plane.alive = true → False := by
    intro i plane hplane halive
    rw [hstart plane (List.mem_of_getElem? hplane)] at halive
    cases halive
  have hkept : Kept start :=
    ⟨fun i plane hplane halive => (hdead i plane hplane halive).elim,
      fun i plane _ _ hplane halive => (hdead i plane hplane halive).elim,
      fun i plane hplane halive => (hdead i plane hplane halive).elim⟩
  have hend : Kept s :=
    run_invariant (fun _ _ _ hkept hsound h => kept_step hkept hsound h) hkept hsound h
  obtain ⟨plane, hplane, halive, hplace⟩ := hi
  obtain ⟨other, hother, hlives, hplace'⟩ := hj
  obtain ⟨found, hfound, rfl⟩ := hend.file i plane hplane halive (by rw [hplace]; rfl)
  obtain ⟨found', hfound', rfl⟩ := hend.file j other hother hlives (by rw [hplace']; rfl)
  exact congrArg LockFile.owner (Option.some.inj (hfound.symm.trans hfound'))

/-- A lock is found whose owner has died, on the same machine. -/
def leftBehind : State :=
  ⟨some ⟨0, true, 0⟩, [⟨"vm", some "vm", 7, false, .holding⟩], 60000⟩

/-- The next two starters, of which one goes on from where it has judged the lock. -/
def oneAfterTheOther : List Event :=
  [.starts "vm" 8, .goes 1 false, .goes 1 false, .goes 1 false, .goes 1 false, .goes 1 false,
    .goes 1 false, .starts "vm" 9, .goes 2 false, .goes 2 false, .goes 2 false]

theorem one_control_plane_oneAfterTheOther : ∃ s, run step leftBehind oneAfterTheOther = some s ∧
    s.Holds 1 ∧ ∀ i, s.Holds i → i = 1 :=
  ⟨_, rfl, ⟨_, rfl, rfl, rfl⟩, fun _ hi => @one_control_plane _ leftBehind oneAfterTheOther
    (by decide) (by decide) rfl _ _ hi ⟨_, rfl, rfl, rfl⟩⟩

/-- **Of two that find one dead owner, the slower removes the lock of the faster.** -/
theorem two_control_planes : ∃ s, run step leftBehind [.starts "vm" 8, .starts "vm" 9,
      .goes 1 false, .goes 1 false, .goes 1 false, .goes 2 false, .goes 2 false, .goes 2 false,
      .goes 1 false, .goes 1 false, .goes 1 false, .goes 2 false, .goes 2 false, .goes 2 false] =
        some s ∧ s.Holds 1 ∧ s.Holds 2 :=
  ⟨_, rfl, ⟨_, rfl, rfl, rfl⟩, _, rfl, rfl, rfl⟩

end AgenticGit.Web
