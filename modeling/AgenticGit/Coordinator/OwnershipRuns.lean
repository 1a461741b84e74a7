import Mathlib.Data.List.Forall2
import AgenticGit.Coordinator.Ownership

/- Ownership over whole runs of the service: any sequence of acquisitions,
   releases, renewals and reads, with time passing in between.

   What is proved:
     1. `leasesAt_*` — what each operation does to the leases under one key.
     2. `pendingResources_ok`, `pendingResources_conflict` — what it means that the
        loop of `acquire` lets every planned resource through, or refuses one.
     3. `apply_consistent` — every operation keeps `Consistent`, the invariant.
     4. `ownership_exclusive` — **exclusivity over whole runs**. -/
namespace AgenticGit.Coordinator
open AgenticGit.Runtime AgenticGit.Shared

namespace OwnershipService

/-! ## The leases under one key -/

theorem unlessEmpty_getD (leases : List ResourceLease) : (unlessEmpty leases).getD [] = leases := by
  unfold unlessEmpty
  split
  · rename_i h
    exact (List.eq_nil_of_length_eq_zero h).symm
  · rfl

theorem leasesAt_filterMapValues (leases : OrderedMap String (List ResourceLease))
    (f : String → List ResourceLease → Option (List ResourceLease))
    (hf : ∀ k, (f k []).getD [] = []) (k : String) :
    leasesAt (leases.filterMapValues f) k = (f k (leasesAt leases k)).getD [] := by
  unfold leasesAt
  rw [OrderedMap.get?_filterMapValues]
  cases leases.get? k with
  | none => exact (hf k).symm
  | some ls => rfl

theorem leasesAt_expireLeases (self : OwnershipService) (now : Int) (k : String) :
    leasesAt (self.expireLeases now).leases k =
      (leasesAt self.leases k).filter fun lease => now < lease.expiresAt := by
  rw [expireLeases, leasesAt_filterMapValues, unlessEmpty_getD]
  intro k
  rw [unlessEmpty_getD, List.filter_nil]

theorem leasesAt_release (self : OwnershipService) (taskId : String) (wanted : String → Bool)
    (k : String) :
    leasesAt (self.release taskId wanted).2.leases k =
      if wanted k then (leasesAt self.leases k).filter fun lease => lease.taskId ≠ taskId
      else leasesAt self.leases k := by
  rw [release, leasesAt_filterMapValues]
  · split
    · rw [unlessEmpty_getD]
    · rfl
  · intro k
    split <;> rfl

theorem leasesAt_renewActive (self : OwnershipService) (now : Int) (k : String) :
    leasesAt (self.renewActive now).2.leases k =
      (leasesAt (self.expireLeases now).leases k).map fun lease =>
        { lease with expiresAt := now + self.defaultTtlMs } := by
  rw [renewActive, leasesAt_filterMapValues _ _ fun _ => rfl]
  rfl

theorem leasesAt_addLease (leases : OrderedMap String (List ResourceLease))
    (lease : ResourceLease) (k : String) :
    leasesAt (addLease leases lease) k =
      leasesAt leases k ++ if leaseKey lease = k then [lease] else [] := by
  unfold addLease leasesAt
  rw [OrderedMap.get?_set]
  by_cases h : k = leaseKey lease
  · subst h
    simp
  · rw [if_neg h, if_neg (Ne.symm h), List.append_nil]

theorem leasesAt_foldl_addLease (acquired : List ResourceLease)
    (leases : OrderedMap String (List ResourceLease)) (k : String) :
    leasesAt (acquired.foldl addLease leases) k =
      leasesAt leases k ++ acquired.filter fun lease => leaseKey lease = k := by
  induction acquired generalizing leases with
  | nil => simp
  | cons lease acquired ih =>
    rw [List.foldl_cons, ih, leasesAt_addLease, List.filter_cons]
    by_cases h : leaseKey lease = k <;> simp [h]

/-! ## Every lease in the table -/

def held (self : OwnershipService) : List ResourceLease := self.leases.values.flatten

def unexpired (self : OwnershipService) (now : Int) : List ResourceLease :=
  self.held.filter fun lease => now < lease.expiresAt

variable {self : OwnershipService}

theorem mem_held_iff {lease : ResourceLease} :
    lease ∈ self.held ↔ ∃ k, lease ∈ leasesAt self.leases k := by
  simp only [held, List.mem_flatten, OrderedMap.mem_values_iff, leasesAt]
  constructor
  · rintro ⟨ls, ⟨k, hk⟩, hm⟩
    exact ⟨k, by rwa [hk]⟩
  · rintro ⟨k, hm⟩
    cases hk : self.leases.get? k with
    | none => rw [hk] at hm; cases hm
    | some ls => exact ⟨ls, ⟨k, hk⟩, by rwa [hk] at hm⟩

theorem held_expireLeases (self : OwnershipService) (now : Int) :
    (self.expireLeases now).held = self.unexpired now := by
  unfold held unexpired expireLeases OrderedMap.filterMapValues held OrderedMap.values
  dsimp only
  induction self.leases.entries with
  | nil => rfl
  | cons e es ih =>
    rw [List.filterMap_cons, OrderedMap.visit, List.map_cons, List.flatten_cons, List.filter_append,
      ← ih]
    unfold unlessEmpty
    split
    · rename_i h
      split at h
      · rename_i hlen
        rw [List.eq_nil_of_length_eq_zero hlen, List.nil_append]
      · cases h
    · rename_i entry h
      split at h
      · cases h
      · obtain rfl := Option.some.inj h
        rfl

theorem mem_unexpired_iff {now : Int} {lease : ResourceLease} : lease ∈ self.unexpired now ↔
      (∃ k, lease ∈ leasesAt self.leases k) ∧ now < lease.expiresAt := by
  rw [unexpired, List.mem_filter, mem_held_iff, decide_eq_true_eq]

theorem unexpired_expireLeases (self : OwnershipService) (now : Int) :
    (self.expireLeases now).unexpired now = self.unexpired now := by
  rw [unexpired, held_expireLeases, unexpired, List.filter_filter]
  simp only [Bool.and_self]

theorem key_injective {type type' : ResourceType} {id id' : String}
    (h : key type id = key type' id') : type = type' ∧ id = id' := by
  have hl := congrArg String.toList h
  simp only [key, String.toList_append] at hl
  cases type <;> cases type' <;> simp_all [ResourceType.name, String.toList_inj]

/-! ## What the loop of `acquire` decides -/

section Pending

variable {leases : OrderedMap String (List ResourceLease)} {taskId : String}
  {approved : List String} {resources : List PlannedResource}

def leasesOn (leases : OrderedMap String (List ResourceLease)) (resource : PlannedResource) :
    List ResourceLease :=
  leasesAt leases (key resource.type resource.id)

/-- The task holds a lease on the resource, so `acquire` passes over it. -/
def Holds (leases : OrderedMap String (List ResourceLease)) (taskId : String)
    (resource : PlannedResource) : Prop :=
  ∃ lease ∈ leasesOn leases resource, lease.taskId = taskId

instance (resource : PlannedResource) : Decidable (Holds leases taskId resource) :=
  inferInstanceAs (Decidable (∃ lease ∈ leasesOn leases resource, lease.taskId = taskId))

/-- A lease of another task stands in the way of the resource. -/
def Blocked (leases : OrderedMap String (List ResourceLease)) (taskId : String)
    (resource : PlannedResource) : Prop :=
  ∃ lease ∈ leasesOn leases resource, lease.taskId ≠ taskId ∧ blocks lease resource = true

/-- The resources to lease are those the task does not hold; none is blocked or
wants for approval. -/
theorem pendingResources_ok {pending : List PlannedResource}
    (h : pendingResources leases taskId approved resources = .ok pending) :
    pending = (resources.filter fun resource => ¬Holds leases taskId resource) ∧
      ∀ resource ∈ pending, ¬Blocked leases taskId resource := by
  fun_induction pendingResources leases taskId approved resources generalizing pending with
  | case1 =>
    obtain rfl := Except.ok.inj h
    simp
  | case2 resource resources key existing hheld =>
    rename_i ih
    obtain ⟨hp, hb⟩ := ih h
    have hh : Holds leases taskId resource := by
      obtain ⟨lease, hm, ht⟩ := List.any_eq_true.mp hheld
      exact ⟨lease, hm, of_decide_eq_true ht⟩
    rw [List.filter_cons_of_neg (by simpa using hh)]
    exact ⟨hp, hb⟩
  | case3 => cases h
  | case4 => cases h
  | case5 resource resources key existing hheld happ hnone =>
    rename_i ih
    cases hr : pendingResources leases taskId approved resources with
    | error e => rw [hr] at h; cases h
    | ok rest =>
      rw [hr] at h
      obtain rfl := Except.ok.inj h
      obtain ⟨hp, hb⟩ := ih hr
      have hh : ¬Holds leases taskId resource := by
        rintro ⟨lease, hm, ht⟩
        exact hheld (List.any_eq_true.mpr ⟨lease, hm, decide_eq_true ht⟩)
      rw [List.filter_cons_of_pos (by simpa using hh), ← hp]
      refine ⟨rfl, List.forall_mem_cons.mpr ⟨?_, hb⟩⟩
      rintro ⟨lease, hm, ht, hbl⟩
      have := List.find?_eq_none.mp hnone lease hm
      simp [ht, hbl] at this

theorem pendingResources_conflict {id : String} {blocker : ResourceLease}
    (h : pendingResources leases taskId approved resources = .error (.conflict id blocker)) :
    ∃ resource ∈ resources, Blocked leases taskId resource := by
  fun_induction pendingResources leases taskId approved resources with
  | case1 => cases h
  | case2 resource resources key existing hheld =>
    rename_i ih
    obtain ⟨other, ho, hb⟩ := ih h
    exact ⟨other, List.mem_cons_of_mem _ ho, hb⟩
  | case3 => cases h
  | case4 resource resources key existing hheld happ blocker' hsome =>
    have hm := List.mem_of_find?_eq_some hsome
    have hp := List.find?_some hsome
    simp only [ne_eq, decide_not, Bool.and_eq_true, Bool.not_eq_true', decide_eq_false_iff_not]
      at hp
    exact ⟨resource, List.mem_cons_self, blocker', hm, hp.1, hp.2⟩
  | case5 resource resources key existing hheld happ hnone =>
    rename_i ih
    cases hr : pendingResources leases taskId approved resources with
    | error e =>
      rw [hr] at h
      obtain rfl := Except.error.inj h
      obtain ⟨other, ho, hb⟩ := ih hr
      exact ⟨other, List.mem_cons_of_mem _ ho, hb⟩
    | ok rest => rw [hr] at h; cases h

theorem pendingResources_approvalRequired {type : ResourceType} {id : String}
    (h : pendingResources leases taskId approved resources = .error (.approvalRequired type id)) :
    ∃ resource ∈ resources, resource.mode = .approvalRequired ∧
      key resource.type resource.id ∉ approved := by
  fun_induction pendingResources leases taskId approved resources with
  | case1 => cases h
  | case2 resource resources key existing hheld =>
    rename_i ih
    obtain ⟨other, ho, hb⟩ := ih h
    exact ⟨other, List.mem_cons_of_mem _ ho, hb⟩
  | case3 resource resources key existing hheld happ => exact ⟨resource, List.mem_cons_self, happ⟩
  | case4 => cases h
  | case5 resource resources key existing hheld happ hnone =>
    rename_i ih
    cases hr : pendingResources leases taskId approved resources with
    | error e =>
      rw [hr] at h
      obtain rfl := Except.error.inj h
      obtain ⟨other, ho, hb⟩ := ih hr
      exact ⟨other, List.mem_cons_of_mem _ ho, hb⟩
    | ok rest => rw [hr] at h; cases h

end Pending

/-! ## The invariant -/

theorem compatible_comm (first second : OwnershipMode) :
    compatible first second = compatible second first := by
  cases first <;> cases second <;> rfl

/-- Two leases that may stand side by side: modes that go together, or ranges
on both sides that share no line. -/
def Coexist (lease other : ResourceLease) : Prop :=
  compatible lease.mode other.mode = true ∨
    ∃ ranges ranges', lease.ranges = some ranges ∧ other.ranges = some ranges' ∧
      ∀ line, ¬(LineIn ranges line ∧ LineIn ranges' line)

theorem Coexist.symm {lease other : ResourceLease} (h : Coexist lease other) :
    Coexist other lease := by
  rcases h with h | ⟨ranges, ranges', hr, hr', hd⟩
  · exact .inl (compatible_comm _ _ ▸ h)
  · exact .inr ⟨ranges', ranges, hr', hr, fun line hl => hd line hl.symm⟩

/-- Every lease lies under its own key, and leases of different tasks under one
key can stand side by side. -/
structure Consistent (leases : OrderedMap String (List ResourceLease)) : Prop where
  keyed : ∀ k, ∀ lease ∈ leasesAt leases k, leaseKey lease = k
  exclusive : ∀ k, ∀ lease ∈ leasesAt leases k, ∀ other ∈ leasesAt leases k,
    lease.taskId ≠ other.taskId → Coexist lease other

theorem consistent_empty : Consistent OrderedMap.empty where
  keyed k lease h := by cases h
  exclusive k lease h := by cases h

/-- The lease is what it was but for the moment it expires. -/
def SameClaim (lease old : ResourceLease) : Prop := ∃ expiresAt, lease = { old with expiresAt }

theorem Consistent.of_old {leases leases' : OrderedMap String (List ResourceLease)}
    (h : Consistent leases)
    (hold : ∀ k, ∀ lease ∈ leasesAt leases' k, ∃ old ∈ leasesAt leases k, SameClaim lease old) :
    Consistent leases' where
  keyed k lease hl := by
    obtain ⟨old, ho, _, rfl⟩ := hold k lease hl
    exact h.keyed k old ho
  exclusive k lease hl other ho hne := by
    obtain ⟨old, hm, _, rfl⟩ := hold k lease hl
    obtain ⟨old', hm', _, rfl⟩ := hold k other ho
    exact h.exclusive k old hm old' hm' hne

theorem Consistent.of_subset {leases leases' : OrderedMap String (List ResourceLease)}
    (h : Consistent leases) (hs : ∀ k, ∀ lease ∈ leasesAt leases' k, lease ∈ leasesAt leases k) :
    Consistent leases' :=
  h.of_old fun k lease hl => ⟨lease, hs k lease hl, lease.expiresAt, rfl⟩

def FromLineOne (context : PlanScopeContext) : Prop :=
  ∀ claims, context.fileClaims = some claims → ∀ claim ∈ claims, ∀ ranges,
    claim.ranges = some ranges → ∀ range ∈ ranges, 1 ≤ range.startLine

theorem coexist_of_not_blocks {lease : ResourceLease} {resource : PlannedResource}
    (hpos : ∀ ranges, resource.ranges = some ranges → ∀ range ∈ ranges, 1 ≤ range.startLine)
    (h : blocks lease resource = false) (plan : AgentPlan) (principalId : String)
    (baseVersion expiresAt : Int) (leaseId : String) :
    Coexist lease (leaseFor plan principalId baseVersion expiresAt leaseId resource) := by
  unfold blocks at h
  split at h
  · rename_i hc
    exact .inl hc
  · split at h
    · rename_i held wanted hh hw
      refine .inr ⟨held, normalizeRanges wanted, hh, by rw [leaseFor, hw]; rfl, ?_⟩
      rintro line ⟨hl, hn⟩
      have hw' := lineIn_of_normalizeRanges (hpos wanted hw) hn
      rw [rangesIntersect_of_shared hl hw'] at h
      cases h
    · cases h

variable {self : OwnershipService}

theorem expireLeases_consistent (h : Consistent self.leases) (now : Int) :
    Consistent (self.expireLeases now).leases :=
  h.of_subset fun k lease hl => by
    rw [leasesAt_expireLeases] at hl
    exact List.mem_of_mem_filter hl

theorem release_consistent (h : Consistent self.leases) (taskId : String) (wanted : String → Bool) :
    Consistent (self.release taskId wanted).2.leases :=
  h.of_subset fun k lease hl => by
    rw [leasesAt_release] at hl
    split at hl
    · exact List.mem_of_mem_filter hl
    · exact hl

theorem renewActive_consistent (h : Consistent self.leases) (now : Int) :
    Consistent (self.renewActive now).2.leases :=
  (expireLeases_consistent h now).of_old fun k lease hl => by
    rw [leasesAt_renewActive] at hl
    obtain ⟨old, ho, rfl⟩ := List.mem_map.mp hl
    exact ⟨old, ho, _, rfl⟩

/-! ## acquire -/

section Acquire

variable (service : OwnershipService) (now : Int) (createId : Nat → String) (plan : AgentPlan)
  (principalId : String) (baseVersion : Int) (options : AcquireOwnershipOptions)

/-- The resources `acquire` asks the policy for. -/
def asked : List PlannedResource :=
  service.policy.resourcesForPlan plan { fileClaims := options.fileClaims }

theorem acquire_error {e : OwnershipError}
    (h : (service.acquire now createId plan principalId baseVersion options).1 = .error e) :
    pendingResources (service.expireLeases now).leases plan.taskId
        (options.approvedResources.getD []) (asked service plan options) = .error e ∧
      (service.acquire now createId plan principalId baseVersion options).2 =
        service.expireLeases now := by
  unfold acquire at h ⊢
  dsimp only at h ⊢
  unfold asked
  cases hp : pendingResources (service.expireLeases now).leases plan.taskId
      (options.approvedResources.getD [])
      ((service.expireLeases now).policy.resourcesForPlan plan
        { fileClaims := options.fileClaims }) with
  | error e' =>
    rw [hp] at h
    obtain rfl := Except.error.inj h
    exact ⟨hp, rfl⟩
  | ok pending => rw [hp] at h; cases h

/-- What a successful acquisition did: none of the resources it asked for is
blocked unless the task held it, and each of the others has its lease, last
under its key. -/
structure Acquired (acquired : List ResourceLease) : Prop where
  free : ∀ resource ∈ asked service plan options,
    Holds (service.expireLeases now).leases plan.taskId resource ∨
      ¬Blocked (service.expireLeases now).leases plan.taskId resource
  leased : ∀ lease ∈ acquired, ∃ resource ∈ asked service plan options, ∃ leaseId,
    ¬Holds (service.expireLeases now).leases plan.taskId resource ∧
      lease = leaseFor plan principalId baseVersion (now + service.defaultTtlMs) leaseId resource
  granted : ∀ resource ∈ asked service plan options,
    ¬Holds (service.expireLeases now).leases plan.taskId resource → ∃ leaseId,
      leaseFor plan principalId baseVersion (now + service.defaultTtlMs) leaseId resource ∈ acquired
  table : ∀ k,
    leasesAt (service.acquire now createId plan principalId baseVersion options).2.leases k =
      leasesAt (service.expireLeases now).leases k ++
        acquired.filter fun lease => leaseKey lease = k

theorem acquire_ok {acquired : List ResourceLease}
    (h : (service.acquire now createId plan principalId baseVersion options).1 = .ok acquired) :
    Acquired service now createId plan principalId baseVersion options acquired := by
  have key : ∀ pending, pendingResources (service.expireLeases now).leases plan.taskId
      (options.approvedResources.getD []) (asked service plan options) = .ok pending →
      acquired = (pending.mapIdx fun index resource =>
        leaseFor plan principalId baseVersion (now + service.defaultTtlMs) (createId index) resource) ∧
      (service.acquire now createId plan principalId baseVersion options).2.leases =
        acquired.foldl addLease (service.expireLeases now).leases := by
    intro pending hp
    unfold acquire at h ⊢
    dsimp only at h ⊢
    unfold asked at hp
    rw [show (service.expireLeases now).policy = service.policy from rfl, hp] at h ⊢
    have ha := Except.ok.inj h
    exact ⟨ha.symm, by rw [← ha]⟩
  cases hp : pendingResources (service.expireLeases now).leases plan.taskId
      (options.approvedResources.getD []) (asked service plan options) with
  | error e =>
    unfold acquire at h
    dsimp only at h
    unfold asked at hp
    rw [show (service.expireLeases now).policy = service.policy from rfl, hp] at h
    cases h
  | ok pending =>
    obtain ⟨ha, ht⟩ := key pending hp
    obtain ⟨hpend, hfree⟩ := pendingResources_ok hp
    have hmem : ∀ resource, resource ∈ pending ↔ resource ∈ asked service plan options ∧
        ¬Holds (service.expireLeases now).leases plan.taskId resource := by
      intro resource
      rw [hpend, List.mem_filter, decide_eq_true_eq]
    refine ⟨?_, ?_, ?_, ?_⟩
    · intro resource hr
      by_cases hh : Holds (service.expireLeases now).leases plan.taskId resource
      · exact .inl hh
      · exact .inr (hfree resource ((hmem resource).mpr ⟨hr, hh⟩))
    · intro lease hl
      rw [ha] at hl
      obtain ⟨index, hi, rfl⟩ := List.mem_mapIdx.mp hl
      obtain ⟨hr, hh⟩ := (hmem pending[index]).mp (List.getElem_mem hi)
      exact ⟨pending[index], hr, createId index, hh, rfl⟩
    · intro resource hr hh
      obtain ⟨index, hi, rfl⟩ := List.getElem_of_mem ((hmem resource).mpr ⟨hr, hh⟩)
      exact ⟨createId index, by rw [ha]; exact List.mem_mapIdx.mpr ⟨index, hi, rfl⟩⟩
    · intro k
      rw [ht, leasesAt_foldl_addLease]

theorem leaseKey_leaseFor (expiresAt : Int) (leaseId : String) (resource : PlannedResource) :
    leaseKey (leaseFor plan principalId baseVersion expiresAt leaseId resource) =
      key resource.type resource.id := rfl

theorem acquire_consistent {self : OwnershipService} (h : Consistent self.leases)
    (hpos : FromLineOne { fileClaims := options.fileClaims }) :
    Consistent (self.acquire now createId plan principalId baseVersion options).2.leases := by
  have he := expireLeases_consistent h now
  cases ho : (self.acquire now createId plan principalId baseVersion options).1 with
  | error e =>
    rw [(acquire_error self now createId plan principalId baseVersion options ho).2]
    exact he
  | ok acquired =>
    obtain ⟨hfree, hleased, -, htable⟩ :=
      acquire_ok self now createId plan principalId baseVersion options ho
    -- an old lease of another task stands beside each new one
    have hnew : ∀ k, ∀ old ∈ leasesAt (self.expireLeases now).leases k, ∀ lease ∈ acquired,
        leaseKey lease = k → old.taskId ≠ plan.taskId → Coexist old lease := by
      intro k old hold lease hl hk hne
      obtain ⟨resource, hr, leaseId, hh, rfl⟩ := hleased lease hl
      rw [leaseKey_leaseFor] at hk
      have hb := (hfree resource hr).resolve_left hh
      have hblocks : blocks old resource = false := by
        cases hbo : blocks old resource with
        | false => rfl
        | true => exact (hb ⟨old, by rw [leasesOn, hk]; exact hold, hne, hbo⟩).elim
      refine coexist_of_not_blocks (fun ranges hrs range hrange => ?_) hblocks _ _ _ _ _
      obtain ⟨claims, hc, claim, hm, hcr⟩ := self.policy.ranges_given hr hrs
      exact hpos claims hc claim hm ranges hcr range hrange
    have htask : ∀ lease ∈ acquired, lease.taskId = plan.taskId := by
      intro lease hl
      obtain ⟨resource, -, leaseId, -, rfl⟩ := hleased lease hl
      rfl
    refine ⟨fun k lease hl => ?_, fun k lease hl other hl' hne => ?_⟩
    · rw [htable, List.mem_append, List.mem_filter, decide_eq_true_eq] at hl
      exact hl.elim (he.keyed k lease) And.right
    · rw [htable, List.mem_append, List.mem_filter, decide_eq_true_eq] at hl hl'
      rcases hl with hl | ⟨hl, hk⟩ <;> rcases hl' with hl' | ⟨hl', hk'⟩
      · exact he.exclusive k lease hl other hl' hne
      · exact hnew k lease hl other hl' hk' (by rw [← htask other hl']; exact hne)
      · exact (hnew k other hl' lease hl hk (by rw [← htask lease hl]; exact hne.symm)).symm
      · exact (hne (by rw [htask lease hl, htask other hl'])).elim

end Acquire

end OwnershipService

/-! ## Runs -/

structure OwnershipRun where
  service : OwnershipService
  now : Int

inductive OwnershipOperation where
  | acquire (createId : Nat → String) (plan : AgentPlan) (principalId : String)
      (baseVersion : Int) (options : AcquireOwnershipOptions)
  | releaseResources (taskId : String) (resources : List PlanResourceRef)
  | releaseTask (taskId : String)
  | renewActive
  | activeLeases
  | blockersFor (plan : AgentPlan) (context : PlanScopeContext)
  | elapse (ms : Nat)

namespace OwnershipRun

open OwnershipService

/-- What an operation leaves; an acquisition that throws leaves something too. -/
def apply (self : OwnershipRun) : OwnershipOperation → OwnershipRun
  | .acquire createId plan principalId baseVersion options =>
    { self with service :=
        (self.service.acquire self.now createId plan principalId baseVersion options).2 }
  | .releaseResources taskId resources =>
    { self with service := (self.service.releaseResources taskId resources).2 }
  | .releaseTask taskId => { self with service := (self.service.releaseTask taskId).2 }
  | .renewActive => { self with service := (self.service.renewActive self.now).2 }
  | .activeLeases => { self with service := (self.service.activeLeases self.now).2 }
  | .blockersFor plan context =>
    { self with service := (self.service.blockersFor self.now plan context).2 }
  | .elapse ms => { self with now := self.now + ms }

/-- The file claims of an acquisition name lines from 1 on. -/
def Allowed : OwnershipOperation → Prop
  | .acquire _ _ _ _ options => FromLineOne { fileClaims := options.fileClaims }
  | _ => True

inductive Reaches (origin : OwnershipRun) : OwnershipRun → Prop
  | start : Reaches origin origin
  | step {self : OwnershipRun} {operation : OwnershipOperation} (run : Reaches origin self)
      (allowed : Allowed operation) : Reaches origin (self.apply operation)

/-- `new OwnershipService(..)`, at some moment. -/
def start (defaultTtlMs : Int) (ttl_safe : IsSafeInteger defaultTtlMs)
    (ttl_min : 1000 ≤ defaultTtlMs) (policy : OwnershipPolicy) (now : Int) : OwnershipRun :=
  ⟨⟨defaultTtlMs, ttl_safe, ttl_min, policy, .empty⟩, now⟩

/-- **Every operation keeps the invariant.** -/
theorem apply_consistent {self : OwnershipRun} (h : Consistent self.service.leases)
    {operation : OwnershipOperation} (allowed : Allowed operation) :
    Consistent (self.apply operation).service.leases := by
  cases operation with
  | acquire createId plan principalId baseVersion options =>
    exact acquire_consistent _ _ _ _ _ _ h allowed
  | releaseResources taskId resources => exact release_consistent h taskId _
  | releaseTask taskId => exact release_consistent h taskId _
  | renewActive => exact renewActive_consistent h self.now
  | activeLeases => exact expireLeases_consistent h self.now
  | blockersFor plan context => exact expireLeases_consistent h self.now
  | elapse ms => exact h

theorem reaches_consistent {defaultTtlMs : Int} {ttl_safe : IsSafeInteger defaultTtlMs}
    {ttl_min : 1000 ≤ defaultTtlMs} {policy : OwnershipPolicy} {now : Int} {self : OwnershipRun}
    (run : (start defaultTtlMs ttl_safe ttl_min policy now).Reaches self) :
    Consistent self.service.leases := by
  induction run with
  | start => exact consistent_empty
  | step _ allowed ih => exact apply_consistent ih allowed

end OwnershipRun

namespace OwnershipService

/-- A lease the task holds on the resource, and that has not expired. -/
structure HeldBy (service : OwnershipService) (now : Int) (taskId : String)
    (resource : PlannedResource) (lease : ResourceLease) : Prop where
  unexpired : lease ∈ service.unexpired now
  task : lease.taskId = taskId
  type : lease.resourceType = resource.type
  id : lease.resourceId = resource.id

variable {self : OwnershipService}

theorem mem_leasesOn_expireLeases (h : Consistent self.leases) {now : Int}
    {resource : PlannedResource} {lease : ResourceLease} :
    lease ∈ leasesOn (self.expireLeases now).leases resource ↔
      lease ∈ self.unexpired now ∧ lease.resourceType = resource.type ∧
        lease.resourceId = resource.id := by
  rw [leasesOn, leasesAt_expireLeases, List.mem_filter, decide_eq_true_eq, mem_unexpired_iff]
  constructor
  · rintro ⟨hm, he⟩
    obtain ⟨ht, hi⟩ := key_injective (h.keyed _ lease hm)
    exact ⟨⟨⟨_, hm⟩, he⟩, ht, hi⟩
  · rintro ⟨⟨⟨k, hm⟩, he⟩, ht, hi⟩
    have hk := h.keyed k lease hm
    rw [leaseKey, ht, hi] at hk
    exact ⟨hk ▸ hm, he⟩

theorem holds_iff (h : Consistent self.leases) {now : Int} {taskId : String}
    {resource : PlannedResource} : Holds (self.expireLeases now).leases taskId resource ↔
      ∃ lease, self.HeldBy now taskId resource lease := by
  constructor
  · rintro ⟨lease, hm, ht⟩
    obtain ⟨hu, hty, hi⟩ := (mem_leasesOn_expireLeases h).mp hm
    exact ⟨lease, hu, ht, hty, hi⟩
  · rintro ⟨lease, hu, ht, hty, hi⟩
    exact ⟨lease, (mem_leasesOn_expireLeases h).mpr ⟨hu, hty, hi⟩, ht⟩

theorem blockersFor_ne_nil {now : Int} {plan : AgentPlan} {context : PlanScopeContext} :
    (self.blockersFor now plan context).1 ≠ [] ↔
      ∃ resource ∈ self.policy.resourcesForPlan plan context,
        Blocked (self.expireLeases now).leases plan.taskId resource := by
  rw [ne_eq, ← List.isEmpty_iff, Bool.not_eq_true, List.isEmpty_eq_false_iff_exists_mem]
  simp only [blockersFor, List.mem_flatMap, List.mem_filter, Blocked, leasesOn,
    Bool.and_eq_true, decide_eq_true_eq]
  constructor
  · rintro ⟨lease, resource, hr, hm, hne, hb⟩
    exact ⟨resource, hr, lease, hm, hne, hb⟩
  · rintro ⟨resource, hr, lease, hm, hne, hb⟩
    exact ⟨lease, resource, hr, hm, hne, hb⟩

/-- For a task that holds nothing and has its approvals, `acquire` is refused
exactly when `blockersFor` finds somebody. -/
theorem acquire_conflict_iff (h : Consistent self.leases) (now : Int) (createId : Nat → String)
    (plan : AgentPlan) (principalId : String) (baseVersion : Int)
    (options : AcquireOwnershipOptions)
    (hnone : ∀ lease ∈ self.unexpired now, lease.taskId ≠ plan.taskId)
    (happroved : ∀ resource ∈ asked self plan options, resource.mode = .approvalRequired →
      key resource.type resource.id ∈ options.approvedResources.getD []) :
    (∃ id lease, (self.acquire now createId plan principalId baseVersion options).1 =
        .error (.conflict id lease)) ↔
      (self.blockersFor now plan { fileClaims := options.fileClaims }).1 ≠ [] := by
  rw [blockersFor_ne_nil]
  constructor
  · rintro ⟨id, lease, he⟩
    exact pendingResources_conflict (acquire_error _ _ _ _ _ _ _ he).1
  · rintro ⟨resource, hr, hb⟩
    cases ho : (self.acquire now createId plan principalId baseVersion options).1 with
    | ok acquired =>
      rcases (acquire_ok _ _ _ _ _ _ _ ho).free resource hr with hh | hfree
      · obtain ⟨lease, hl⟩ := (holds_iff h).mp hh
        exact (hnone lease hl.unexpired hl.task).elim
      · exact (hfree hb).elim
    | error e =>
      cases e with
      | conflict id lease => exact ⟨id, lease, rfl⟩
      | approvalRequired type id =>
        obtain ⟨other, hm, hmode, hk⟩ :=
          pendingResources_approvalRequired (acquire_error _ _ _ _ _ _ _ ho).1
        exact (hk (happroved other hm hmode)).elim

end OwnershipService

open OwnershipService

/-- **Exclusivity over whole runs.** Unexpired leases of different tasks on one
resource can always stand side by side; an acquisition that throws leaves the
unexpired leases as they were; and `acquire` and `blockersFor` agree on who is
in the way. -/
theorem ownership_exclusive {defaultTtlMs : Int} {ttl_safe : IsSafeInteger defaultTtlMs}
    {ttl_min : 1000 ≤ defaultTtlMs} {policy : OwnershipPolicy} {origin : Int}
    {self : OwnershipRun}
    (run : (OwnershipRun.start defaultTtlMs ttl_safe ttl_min policy origin).Reaches self) :
    (∀ lease ∈ self.service.unexpired self.now, ∀ other ∈ self.service.unexpired self.now,
      lease.resourceType = other.resourceType → lease.resourceId = other.resourceId →
      lease.taskId ≠ other.taskId → Coexist lease other) ∧
    (∀ createId plan principalId baseVersion options e,
      (self.service.acquire self.now createId plan principalId baseVersion options).1 = .error e →
      (self.service.acquire self.now createId plan principalId baseVersion options).2.unexpired
        self.now = self.service.unexpired self.now) ∧
    (∀ createId plan principalId baseVersion options,
      (∀ lease ∈ self.service.unexpired self.now, lease.taskId ≠ plan.taskId) →
      (∀ resource ∈ asked self.service plan options, resource.mode = .approvalRequired →
        key resource.type resource.id ∈ options.approvedResources.getD []) →
      ((∃ id lease, (self.service.acquire self.now createId plan principalId baseVersion
          options).1 = .error (.conflict id lease)) ↔
        (self.service.blockersFor self.now plan { fileClaims := options.fileClaims }).1 ≠ [])) := by
  have hc := OwnershipRun.reaches_consistent run
  refine ⟨?_, ?_, ?_⟩
  · intro lease hl other ho htype hid hne
    obtain ⟨⟨k, hk⟩, -⟩ := mem_unexpired_iff.mp hl
    obtain ⟨⟨k', hk'⟩, -⟩ := mem_unexpired_iff.mp ho
    have hsame : k = k' := by
      rw [← hc.keyed k lease hk, ← hc.keyed k' other hk', leaseKey, leaseKey, htype, hid]
    exact hc.exclusive k lease hk other (hsame ▸ hk') hne
  · intro createId plan principalId baseVersion options e he
    rw [(acquire_error _ _ _ _ _ _ _ he).2, unexpired_expireLeases]
  · intro createId plan principalId baseVersion options hnone happroved
    exact acquire_conflict_iff hc _ _ _ _ _ _ hnone happroved

/-- A service with a lease of five minutes, as the coordinator makes it. -/
def fresh : OwnershipRun :=
  .start 300000 (by decide) (by decide) (@defaultOwnershipPolicy asciiRuntime) 0

def filePlan (taskId : String) : AgentPlan where
  taskId
  objective := "edit the cart"
  expectedFiles := ["cart.ts"]
  expectedSymbols := []

def linesOf (first last : Int) : AcquireOwnershipOptions :=
  { fileClaims := some [⟨"cart.ts", some [⟨first, last⟩]⟩] }

def split : OwnershipRun :=
  (fresh.apply (.acquire (fun _ => "first") (filePlan "a") "agent" 1 (linesOf 1 10))).apply
    (.acquire (fun _ => "second") (filePlan "b") "agent" 1 (linesOf 11 20))

theorem linesOf_allowed {first last : Int} (h : 1 ≤ first) {createId : Nat → String}
    {plan : AgentPlan} {principalId : String} {baseVersion : Int} :
    OwnershipRun.Allowed (.acquire createId plan principalId baseVersion (linesOf first last)) := by
  intro claims hc claim hm ranges hr range hrange
  obtain rfl := Option.some.inj hc
  obtain rfl := List.mem_singleton.mp hm
  obtain rfl := Option.some.inj hr
  obtain rfl := List.mem_singleton.mp hrange
  exact h

theorem ownership_exclusive_split :
    (split.service.unexpired 0).map ResourceLease.taskId = ["a", "b"] ∧
      ∀ lease ∈ split.service.unexpired 0, ∀ other ∈ split.service.unexpired 0,
        lease.resourceType = other.resourceType → lease.resourceId = other.resourceId →
        lease.taskId ≠ other.taskId → Coexist lease other := by
  have run : fresh.Reaches split :=
    .step (.step .start (linesOf_allowed (by decide))) (linesOf_allowed (by decide))
  exact ⟨by decide, (ownership_exclusive run).1⟩

end AgenticGit.Coordinator
