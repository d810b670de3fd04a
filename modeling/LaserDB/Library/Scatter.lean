import Mathlib

/-!
# Jobs that are scattered over owners

Each job belongs to an owner with a state of its own and has a place in the reply.  Jobs of
different owners commute.
-/

namespace Scatter

open List Function Nat

structure Job (ε α : Type) where
  owner : ε
  place : Nat
  load : α

variable {ε α σ ρ : Type} {status : (ε → σ) × List ρ} {jobs : List (Job ε α)}

section
variable [DecidableEq ε] (step : ε → α → σ → ρ × σ)

def runJob (status : (ε → σ) × List ρ) (job : Job ε α) : (ε → σ) × List ρ :=
  let result := step job.owner job.load (status.1 job.owner)
  (update status.1 job.owner result.2, status.2.set job.place result.1)

def runAll (jobs : List (Job ε α)) (status : (ε → σ) × List ρ) : (ε → σ) × List ρ :=
  jobs.foldl (runJob step) status

variable {step} {job first second : Job ε α} {jobs' front back : List (Job ε α)}

theorem runJob_comm (howner : first.owner ≠ second.owner) (hplace : first.place ≠ second.place) :
    runJob step (runJob step status first) second =
      runJob step (runJob step status second) first := by
  simp only [runJob, update_of_ne howner, update_of_ne howner.symm]
  rw [update_comm howner, set_comm _ _ hplace]

theorem runAll_move (howner : ∀ other ∈ front, other.owner ≠ job.owner)
    (hplace : ∀ other ∈ front, other.place ≠ job.place) :
    runAll step (front ++ job :: back) status = runAll step (job :: (front ++ back)) status := by
  induction front generalizing status with
  | nil => rfl
  | cons other front ih =>
    have hrest : runAll step (front ++ job :: back) (runJob step status other) = _ :=
      ih (fun next hnext => howner next (by simp [hnext]))
        (fun next hnext => hplace next (by simp [hnext]))
    refine hrest.trans ?_
    change runAll step (front ++ back) (runJob step (runJob step status other) job) =
      runAll step (front ++ back) (runJob step (runJob step status job) other)
    rw [runJob_comm (howner other (by simp)) (hplace other (by simp))]

theorem runAll_eq_of_filter_eq (hplaces : (jobs'.map Job.place).Nodup)
    (hfilter : ∀ owner, jobs.filter (·.owner = owner) = jobs'.filter (·.owner = owner)) :
    runAll step jobs status = runAll step jobs' status := by
  induction jobs generalizing jobs' status with
  | nil =>
    cases jobs' with
    | nil => rfl
    | cons job jobs' =>
      have hempty := hfilter job.owner
      simp at hempty
  | cons job jobs ih =>
    have hfirst := hfilter job.owner
    rw [filter_cons_of_pos (by simp)] at hfirst
    obtain ⟨front, back, rfl, hfront, -, hback⟩ := filter_eq_cons_iff.mp hfirst.symm
    have howner : ∀ other ∈ front, other.owner ≠ job.owner := by simpa using hfront
    have hplace : ∀ other ∈ front, other.place ≠ job.place := by
      intro other hother heq
      rw [map_append, map_cons, nodup_append] at hplaces
      exact hplaces.2.2 other.place (mem_map_of_mem hother) job.place (by simp) heq
    rw [runAll_move howner hplace]
    change runAll step jobs (runJob step status job) = runAll step (front ++ back) _
    apply ih
    · refine hplaces.sublist (List.Sublist.map _ ?_)
      exact (List.Sublist.refl front).append (sublist_cons_self _ _)
    · intro owner
      have hall := hfilter owner
      rw [filter_append, filter_cons, filter_cons] at hall
      rw [filter_append]
      by_cases hsame : job.owner = owner
      · subst hsame
        have hnone : front.filter (fun other => other.owner = job.owner) = [] := by
          simpa using howner
        rw [hnone] at hall ⊢
        simpa using hall
      · simpa [hsame] using hall

end

variable {groups : List (ε × List α)}

open Prod (fst ext)

variable {job : Job ε α}

section
variable [DecidableEq ε]

def push (owner : ε) (item : α) : List (ε × List α) → List (ε × List α)
  | [] => [(owner, [item])]
  | (found, items) :: rest =>
    if found = owner then (found, items ++ [item]) :: rest
    else (found, items) :: push owner item rest

def itemsOf (groups : List (ε × List α)) (owner : ε) : List α :=
  (groups.filter (·.1 = owner)).flatMap Prod.snd

def Distinct (groups : List (ε × List α)) : Prop := (groups.map Prod.fst).Nodup

variable {groups' : List (ε × List α)} {owner other : ε} {item : α}

theorem owners_push (owner : ε) (item : α) (groups : List (ε × List α)) :
    (push owner item groups).map fst =
      if owner ∈ groups.map fst then groups.map fst
      else groups.map fst ++ [owner] := by
  induction groups with
  | nil => rfl
  | cons group groups ih =>
    by_cases hsame : group.1 = owner
    · simp [push, hsame]
    · simp only [push, if_neg hsame, map_cons, ih]
      by_cases hmem : owner ∈ groups.map fst
      · rw [if_pos hmem, if_pos (mem_cons_of_mem _ hmem)]
      · rw [if_neg hmem, if_neg (by simpa [Ne.symm hsame] using hmem), cons_append]

theorem Distinct.push (hdistinct : Distinct groups) (owner : ε) (item : α) :
    Distinct (push owner item groups) := by
  rw [Distinct, owners_push]
  split
  · exact hdistinct
  · rename_i hmem
    exact nodup_append.mpr ⟨hdistinct, nodup_singleton _, by
      rintro found hfound _ hsame rfl
      exact hmem (mem_singleton.mp hsame ▸ hfound)⟩

theorem itemsOf_cons (group : ε × List α) (groups : List (ε × List α)) (owner : ε) :
    itemsOf (group :: groups) owner =
      (if group.1 = owner then group.2 else []) ++ itemsOf groups owner := by
  rw [itemsOf, filter_cons]
  by_cases hsame : group.1 = owner
  · rw [if_pos (by simpa using hsame), if_pos hsame]
    rfl
  · rw [if_neg (by simpa using hsame), if_neg hsame]
    rfl

theorem itemsOf_eq_nil (hmem : owner ∉ groups.map fst) : itemsOf groups owner = [] := by
  rw [itemsOf, filter_eq_nil_iff.mpr, flatMap_nil]
  intro group hgroup
  have hne : group.1 ≠ owner := fun heq => hmem (heq ▸ mem_map_of_mem hgroup)
  simpa using hne

theorem itemsOf_push (hdistinct : Distinct groups) (owner other : ε) (item : α) :
    itemsOf (push owner item groups) other =
      itemsOf groups other ++ if owner = other then [item] else [] := by
  induction groups with
  | nil =>
    rw [push, itemsOf_cons]
    by_cases hsame : owner = other
    all_goals simp [itemsOf, hsame]
  | cons group groups ih =>
    obtain ⟨hfresh, hrest⟩ := nodup_cons.mp hdistinct
    by_cases hgroup : group.1 = owner
    · rw [push, if_pos hgroup, itemsOf_cons, itemsOf_cons, hgroup]
      by_cases hsame : owner = other
      · subst hsame
        rw [itemsOf_eq_nil (hgroup ▸ hfresh)]
        simp
      · simp [hsame]
    · rw [push, if_neg hgroup, itemsOf_cons, itemsOf_cons, ih hrest, append_assoc]

theorem itemsOf_perm (hdistinct : Distinct groups) (hperm : groups'.Perm groups) (owner : ε) :
    itemsOf groups' owner = itemsOf groups owner := by
  have hfilter := hperm.filter fun group => decide (group.1 = owner)
  have hshort : (groups.filter fun group => decide (group.1 = owner)).length ≤ 1 := by
    have hsublist : (groups.filter fun group => decide (group.1 = owner)).Sublist groups :=
      filter_sublist
    have hnodup := hdistinct.sublist (hsublist.map fst)
    have hall : ∀ found ∈ (groups.filter fun group => decide (group.1 = owner)).map fst,
        found = owner := by
      intro found hfound
      obtain ⟨group, hgroup, rfl⟩ := mem_map.mp hfound
      simpa using (mem_filter.mp hgroup).2
    have hreplicate := eq_replicate_of_mem hall
    rw [hreplicate, nodup_replicate, length_map] at hnodup
    exact hnodup
  rw [itemsOf, itemsOf]
  congr 1
  generalize groups.filter (fun group => decide (group.1 = owner)) = found at hfilter hshort
  match found, hshort with
  | [], _ => exact perm_nil.mp hfilter
  | [group], _ => exact perm_singleton.mp hfilter

def collect (jobs : List (Job ε α)) : List (ε × List α) :=
  jobs.foldl (fun groups job => push job.owner job.load groups) []

variable (jobs : List (Job ε α))

theorem collect_from (hdistinct : Distinct groups) :
    let collected := jobs.foldl (fun groups job => push job.owner job.load groups) groups
    Distinct collected ∧ ∀ owner, itemsOf collected owner =
      itemsOf groups owner ++ (jobs.filter (·.owner = owner)).map Job.load := by
  induction jobs generalizing groups with
  | nil => exact ⟨hdistinct, fun owner => by simp⟩
  | cons job jobs ih =>
    obtain ⟨hcollected, hitems⟩ := ih (hdistinct.push job.owner job.load)
    refine ⟨hcollected, fun owner => (hitems owner).trans ?_⟩
    rw [itemsOf_push hdistinct, filter_cons, append_assoc]
    by_cases hsame : job.owner = owner
    · simp [hsame]
    · simp [hsame]

theorem distinct_collect : Distinct (collect jobs) :=
  (collect_from jobs (show Distinct [] from nodup_nil)).1

theorem itemsOf_collect (owner : ε) :
    itemsOf (collect jobs) owner = (jobs.filter (·.owner = owner)).map Job.load :=
  (collect_from jobs (show Distinct [] from nodup_nil)).2 owner

theorem mem_collect (hjob : job ∈ jobs) : ∃ group ∈ collect jobs, job.load ∈ group.2 := by
  have hmem : job.load ∈ itemsOf (collect jobs) job.owner := by
    rw [itemsOf_collect]
    exact mem_map_of_mem (mem_filter.mpr ⟨hjob, by simp⟩)
  obtain ⟨group, hgroup, hload⟩ := mem_flatMap.mp hmem
  exact ⟨group, mem_of_mem_filter hgroup, hload⟩

def jobsOf (place : α → Nat) (groups : List (ε × List α)) : List (Job ε α) :=
  groups.flatMap fun group => group.2.map fun item => ⟨group.1, place item, item⟩

theorem filter_jobsOf (place : α → Nat) (groups : List (ε × List α)) (owner : ε) :
    (jobsOf place groups).filter (·.owner = owner) =
      (itemsOf groups owner).map fun item => ⟨owner, place item, item⟩ := by
  induction groups with
  | nil => rfl
  | cons group groups ih =>
    have hjobs : jobsOf place (group :: groups) =
        (group.2.map fun item => (⟨group.1, place item, item⟩ : Job ε α)) ++
          jobsOf place groups := rfl
    rw [hjobs, filter_append, ih, itemsOf_cons, map_append]
    congr 1
    by_cases hsame : group.1 = owner
    · subst hsame
      simp
    · simp [hsame]

variable {step : ε → α → σ → ρ × σ} {jobs : List (Job ε α)} {place : α → Nat}

theorem runAll_jobsOf (hplace : ∀ job ∈ jobs, place job.load = job.place)
    (hnodup : (jobs.map Job.place).Nodup) (hperm : groups.Perm (collect jobs)) :
    runAll step (jobsOf place groups) status = runAll step jobs status := by
  apply runAll_eq_of_filter_eq hnodup
  intro owner
  rw [filter_jobsOf, itemsOf_perm (distinct_collect jobs) hperm, itemsOf_collect, map_map]
  conv_rhs => rw [← map_id (jobs.filter _)]
  apply map_congr_left
  intro job hjob
  obtain ⟨hmem, howner⟩ := mem_filter.mp hjob
  rw [comp_apply, hplace job hmem, ← of_decide_eq_true howner]
  rfl

end

variable {places : List (Option (ε × α))}

section
def jobsFrom (start : Nat) : List (Option (ε × α)) → List (Job ε α)
  | [] => []
  | none :: rest => jobsFrom (start + 1) rest
  | some (owner, load) :: rest => ⟨owner, start, load⟩ :: jobsFrom (start + 1) rest

variable {start : Nat}

theorem route_of_mem (hjob : job ∈ jobsFrom start places) :
    ∃ index, job.place = start + index ∧ places[index]? = some (some (job.owner, job.load)) := by
  induction places generalizing start with
  | nil => cases hjob
  | cons route places ih =>
    have hrest (hjob : job ∈ jobsFrom (start + 1) places) : ∃ index, job.place = start + index ∧
        (route :: places)[index]? = some (some (job.owner, job.load)) := by
      obtain ⟨index, hplace, hroute⟩ := ih hjob
      exact ⟨index + 1, by omega, hroute⟩
    cases route with
    | none => exact hrest hjob
    | some entry =>
      rcases mem_cons.mp hjob with rfl | hjob
      · exact ⟨0, rfl, rfl⟩
      · exact hrest hjob

theorem mem_of_route {index : Nat} {entry : ε × α} (hroute : places[index]? = some (some entry)) :
    ⟨entry.1, start + index, entry.2⟩ ∈ jobsFrom start places := by
  induction places generalizing start index with
  | nil => cases hroute
  | cons route places ih =>
    cases index with
    | zero =>
      cases hroute
      exact mem_cons_self
    | succ index =>
      have hrest := @ih (start + 1) index hroute
      rw [add_assoc, add_comm 1] at hrest
      cases route with
      | none => exact hrest
      | some first => exact mem_cons_of_mem _ hrest

theorem le_place_of_mem (hjob : job ∈ jobsFrom start places) : start ≤ job.place := by
  obtain ⟨index, hplace, -⟩ := route_of_mem hjob
  omega

theorem place_lt_of_mem (hjob : job ∈ jobsFrom start places) :
    job.place < start + places.length := by
  obtain ⟨index, hplace, hroute⟩ := route_of_mem hjob
  have hlt := (List.getElem?_eq_some_iff.mp hroute).1
  omega

theorem nodup_places (start : Nat) (places : List (Option (ε × α))) :
    ((jobsFrom start places).map Job.place).Nodup := by
  induction places generalizing start with
  | nil => exact nodup_nil
  | cons route places ih =>
    cases route with
    | none => exact ih (start + 1)
    | some entry =>
      refine nodup_cons.mpr ⟨fun hmem => ?_, ih (start + 1)⟩
      obtain ⟨job, hjob, hplace⟩ := mem_map.mp hmem
      exact absurd (hplace ▸ le_place_of_mem hjob) (not_succ_le_self _)

end

section
variable [DecidableEq ε] (step : ε → α → σ → ρ × σ) (fallback : ρ)

/-- Run the jobs one by one in the order of their places; a place without a job
gets the fallback. -/
def inOrder : List (Option (ε × α)) → (ε → σ) → List ρ × (ε → σ)
  | [], states => ([], states)
  | none :: rest, states =>
    let tail := inOrder rest states
    (fallback :: tail.1, tail.2)
  | some (owner, load) :: rest, states =>
    let result := step owner load (states owner)
    let tail := inOrder rest (update states owner result.2)
    (result.1 :: tail.1, tail.2)

variable {step fallback}

theorem runAll_jobsFrom (done : List ρ) (states : ε → σ) :
    runAll step (jobsFrom done.length places)
        (states, done ++ replicate places.length fallback) =
      ((inOrder step fallback places states).2,
        done ++ (inOrder step fallback places states).1) := by
  induction places generalizing done states with
  | nil => rfl
  | cons route places ih =>
    cases route with
    | none =>
      have hrest := ih (done ++ [fallback]) states
      rw [length_append, append_assoc] at hrest
      rw [length_cons, replicate_succ]
      exact hrest.trans (by rw [append_assoc]; rfl)
    | some entry =>
      have hrest := ih (done ++ [(step entry.1 entry.2 (states entry.1)).1])
        (update states entry.1 (step entry.1 entry.2 (states entry.1)).2)
      rw [length_append, append_assoc] at hrest
      rw [length_cons, replicate_succ]
      change runAll step (jobsFrom (done.length + 1) places)
        (_, (done ++ fallback :: replicate places.length fallback).set done.length _) = _
      rw [set_append_right _ _ (Nat.le_refl _), Nat.sub_self, set_cons_zero]
      exact hrest.trans (by rw [append_assoc]; rfl)

/-- Collecting the jobs in a table and running the table in any order of its
entries is running them one by one. -/
theorem runAll_groups {place : α → Nat}
    (hplace : ∀ job ∈ jobsFrom 0 places, place job.load = job.place)
    (hperm : groups.Perm (collect (jobsFrom 0 places))) (states : ε → σ) :
    runAll step (jobsOf place groups) (states, replicate places.length fallback) =
      ((inOrder step fallback places states).2, (inOrder step fallback places states).1) := by
  rw [runAll_jobsOf hplace (nodup_places 0 places) hperm]
  exact runAll_jobsFrom [] states

end

def mapState (step : α → σ → ρ × σ) : List α → σ → List ρ × σ
  | [], state => ([], state)
  | item :: rest, state =>
    let result := step item state
    let tail := mapState step rest result.2
    (result.1 :: tail.1, tail.2)

def leave (place : α → Nat) (items : List α) (answers : List ρ) (values : List ρ) : List ρ :=
  (items.zip answers).foldl (fun values pair => values.set (place pair.1) pair.2) values

variable (place : α → Nat) {values answers : List ρ} {items : List α}

theorem leave_length (items : List α) (answers values : List ρ) :
    (leave place items answers values).length = values.length := by
  unfold leave
  induction items.zip answers generalizing values with
  | nil => rfl
  | cons pair pairs ih => exact (ih _).trans length_set

variable {place}

theorem leave_map (answer : α → ρ) (items : List α) (values : List ρ) :
    leave place items (items.map answer) values =
      items.foldl (fun values item => values.set (place item) (answer item)) values := by
  induction items generalizing values with
  | nil => rfl
  | cons item items ih => exact ih _

theorem leave_get_other {index : Nat} (hindex : index ∉ items.map place) :
    (leave place items answers values)[index]? = values[index]? := by
  induction items generalizing answers values with
  | nil => rfl
  | cons item items ih =>
    rw [map_cons, mem_cons, not_or] at hindex
    cases answers with
    | nil => rfl
    | cons answer answers =>
      exact (ih hindex.2).trans (getElem?_set_ne (Ne.symm hindex.1))

theorem leave_injective {answers' : List ρ} (hnodup : (items.map place).Nodup)
    (hbound : ∀ item ∈ items, place item < values.length) (hlength : answers.length = items.length)
    (hlength' : answers'.length = items.length)
    (heq : leave place items answers values = leave place items answers' values) :
    answers = answers' := by
  induction items generalizing answers answers' values with
  | nil =>
    rw [length_eq_zero_iff.mp hlength, length_eq_zero_iff.mp hlength']
  | cons item items ih =>
    match answers, answers', hlength, hlength' with
    | answer :: answers, answer' :: answers', hlength, hlength' =>
      obtain ⟨hfresh, hnodup⟩ := nodup_cons.mp hnodup
      have hsame : answer = answer' := by
        have hget := congrArg (fun values : List ρ => values[place item]?) heq
        change (leave place items answers (values.set (place item) answer))[place item]? =
          (leave place items answers' (values.set (place item) answer'))[place item]? at hget
        rw [leave_get_other hfresh, leave_get_other hfresh,
          getElem?_set_self (hbound item mem_cons_self),
          getElem?_set_self (hbound item mem_cons_self)] at hget
        exact Option.some.inj hget
      subst hsame
      rw [ih hnodup (fun other hother => ?_) (succ.inj hlength) (succ.inj hlength') heq]
      rw [length_set]
      exact hbound other (mem_cons_of_mem _ hother)

variable [DecidableEq ε]

def runGroups (place : α → Nat) (handle : ε → List α → σ → List ρ × σ)
    (groups : List (ε × List α)) (status : (ε → σ) × List ρ) : (ε → σ) × List ρ :=
  groups.foldl (fun status group =>
    let result := handle group.1 group.2 (status.1 group.1)
    (update status.1 group.1 result.2, leave place group.2 result.1 status.2)) status

theorem runAll_group (step : ε → α → σ → ρ × σ) (owner : ε) (items : List α)
    (status : (ε → σ) × List ρ) :
    runAll step (items.map fun item => ⟨owner, place item, item⟩) status =
      (update status.1 owner (mapState (step owner) items (status.1 owner)).2,
        leave place items (mapState (step owner) items (status.1 owner)).1 status.2) := by
  induction items generalizing status with
  | nil => exact ext (update_eq_self owner status.1).symm rfl
  | cons item items ih =>
    refine (ih (runJob step status ⟨owner, place item, item⟩)).trans ?_
    simp only [runJob, update_self, update_idem]
    rfl

theorem runAll_eq_runGroups (step : ε → α → σ → ρ × σ) (groups : List (ε × List α))
    (status : (ε → σ) × List ρ) :
    runAll step (jobsOf place groups) status =
      runGroups place (fun owner => mapState (step owner)) groups status := by
  induction groups generalizing status with
  | nil => rfl
  | cons group groups ih =>
    have hjobs : jobsOf place (group :: groups) =
        (group.2.map fun item => (⟨group.1, place item, item⟩ : Job ε α)) ++
          jobsOf place groups := rfl
    rw [hjobs, runAll, foldl_append]
    exact (ih _).trans (congrArg (runGroups place _ groups) (runAll_group step group.1 group.2 status))

variable {handle handle' : ε → List α → σ → List ρ × σ}

theorem runGroups_state_other {owner : ε} (howner : owner ∉ groups.map fst) :
    (runGroups place handle groups status).1 owner = status.1 owner := by
  induction groups generalizing status with
  | nil => rfl
  | cons group groups ih =>
    rw [map_cons, mem_cons, not_or] at howner
    exact (ih howner.2).trans (update_of_ne howner.1 _ _)

theorem runGroups_get_other {index : Nat} (hindex : ∀ group ∈ groups, index ∉ group.2.map place) :
    (runGroups place handle groups status).2[index]? = status.2[index]? := by
  induction groups generalizing status with
  | nil => rfl
  | cons group groups ih =>
    exact (ih fun other hother => hindex other (by simp [hother])).trans
      (leave_get_other (hindex group (by simp)))

def Apart (place : α → Nat) (groups : List (ε × List α)) : Prop :=
  groups.Pairwise fun left right => ∀ index ∈ left.2.map place, index ∉ right.2.map place

variable {group : ε × List α}

theorem handle_eq_of_runGroups_eq (hfresh : group.1 ∉ groups.map fst)
    (hfirst : ∀ other ∈ groups, ∀ index ∈ group.2.map place, index ∉ other.2.map place)
    (hnodup : (group.2.map place).Nodup) (hbound : ∀ item ∈ group.2, place item < status.2.length)
    (hlength : ∀ owner items state, (handle owner items state).1.length = items.length)
    (hlength' : ∀ owner items state, (handle' owner items state).1.length = items.length)
    (heq : runGroups place handle (group :: groups) status =
      runGroups place handle' (group :: groups) status) :
    handle group.1 group.2 (status.1 group.1) = handle' group.1 group.2 (status.1 group.1) := by
  have hanswers : leave place group.2 (handle group.1 group.2 (status.1 group.1)).1 status.2 =
      leave place group.2 (handle' group.1 group.2 (status.1 group.1)).1 status.2 := by
    apply ext_getElem?
    intro index
    by_cases hindex : index ∈ group.2.map place
    · have hget := congrArg (fun status : (ε → σ) × List ρ => status.2[index]?) heq
      change (runGroups place handle groups (_, leave place group.2 _ status.2)).2[index]? =
        (runGroups place handle' groups (_, leave place group.2 _ status.2)).2[index]? at hget
      rw [runGroups_get_other fun other hother => hfirst other hother index hindex,
        runGroups_get_other fun other hother => hfirst other hother index hindex] at hget
      exact hget
    · rw [leave_get_other hindex, leave_get_other hindex]
  have hstate := congrFun (congrArg fst heq) group.1
  change (runGroups place handle groups (update status.1 group.1 _, _)).1 group.1 =
    (runGroups place handle' groups (update status.1 group.1 _, _)).1 group.1 at hstate
  rw [runGroups_state_other hfresh, runGroups_state_other hfresh] at hstate
  simp only [update_self] at hstate
  exact ext (leave_injective hnodup hbound (hlength _ _ _) (hlength' _ _ _) hanswers) hstate

theorem items_eq (hperm : groups.Perm (collect jobs)) (hgroup : group ∈ groups) :
    group.2 = (jobs.filter (·.owner = group.1)).map Job.load := by
  have hdistinct : Distinct groups := (hperm.map fst).nodup_iff.mpr (distinct_collect jobs)
  have hitems : itemsOf groups group.1 = group.2 := by
    obtain ⟨front, back, rfl⟩ := append_of_mem hgroup
    have hnone {rest : List (ε × List α)} (hrest : group.1 ∉ rest.map fst) :
        rest.filter (fun other => decide (other.1 = group.1)) = [] := by
      rw [filter_eq_nil_iff]
      intro other hother heq
      exact hrest (of_decide_eq_true heq ▸ mem_map_of_mem hother)
    rw [Distinct, map_append, map_cons, nodup_append, nodup_cons] at hdistinct
    have hfront : group.1 ∉ front.map fst := fun hmem =>
      hdistinct.2.2 group.1 hmem group.1 mem_cons_self rfl
    rw [itemsOf, filter_append, hnone hfront, filter_cons_of_pos (by simp), hnone hdistinct.2.1.1]
    simp
  rw [← hitems, itemsOf_perm (distinct_collect jobs) hperm, itemsOf_collect]

theorem apart_of_perm (hplace : ∀ job ∈ jobs, place job.load = job.place)
    (hnodup : (jobs.map Job.place).Nodup) (hperm : groups.Perm (collect jobs)) :
    Distinct groups ∧ Apart place groups ∧ (∀ group ∈ groups, (group.2.map place).Nodup) ∧
      ∀ group ∈ groups, ∀ item ∈ group.2, ∃ job ∈ jobs, job.owner = group.1 ∧ job.load = item := by
  have hdistinct : Distinct groups := (hperm.map fst).nodup_iff.mpr (distinct_collect jobs)
  have hjobs : ∀ group ∈ groups, ∀ item ∈ group.2,
      ∃ job ∈ jobs, job.owner = group.1 ∧ job.load = item := by
    intro group hgroup item hitem
    rw [items_eq hperm hgroup] at hitem
    obtain ⟨job, hjob, rfl⟩ := mem_map.mp hitem
    obtain ⟨hmem, howner⟩ := mem_filter.mp hjob
    exact ⟨job, hmem, of_decide_eq_true howner, rfl⟩
  refine ⟨hdistinct, ?_, fun group hgroup => ?_, hjobs⟩
  · refine (pairwise_map.mp hdistinct).imp_of_mem fun hleft hright hne index hindex hindex' => ?_
    obtain ⟨item, hitem, rfl⟩ := mem_map.mp hindex
    obtain ⟨item', hitem', hsame⟩ := mem_map.mp hindex'
    obtain ⟨job, hjob, howner, rfl⟩ := hjobs _ hleft item hitem
    obtain ⟨job', hjob', howner', rfl⟩ := hjobs _ hright item' hitem'
    rw [hplace job hjob, hplace job' hjob'] at hsame
    exact hne (howner ▸ howner' ▸ congrArg Job.owner
      (inj_on_of_nodup_map hnodup hjob hjob' hsame.symm))
  · have hplaces : group.2.map place = (jobs.filter (·.owner = group.1)).map Job.place := by
      rw [items_eq hperm hgroup, map_map]
      exact map_congr_left fun job hjob => hplace job (mem_of_mem_filter hjob)
    rw [hplaces]
    exact hnodup.sublist (filter_sublist.map _)

theorem runGroups_eq_iff (hdistinct : Distinct groups) (hapart : Apart place groups)
    (hnodup : ∀ group ∈ groups, (group.2.map place).Nodup)
    (hbound : ∀ group ∈ groups, ∀ item ∈ group.2, place item < status.2.length)
    (hlength : ∀ owner items state, (handle owner items state).1.length = items.length)
    (hlength' : ∀ owner items state, (handle' owner items state).1.length = items.length) :
    runGroups place handle groups status = runGroups place handle' groups status ↔
      ∀ group ∈ groups, handle group.1 group.2 (status.1 group.1) =
        handle' group.1 group.2 (status.1 group.1) := by
  induction groups generalizing status with
  | nil => exact iff_of_true rfl nofun
  | cons group groups ih =>
    obtain ⟨hfresh, hdistinct⟩ := nodup_cons.mp hdistinct
    obtain ⟨hfirst, hapart⟩ := pairwise_cons.mp hapart
    obtain ⟨hgroup, hnodup⟩ := forall_mem_cons.mp hnodup
    obtain ⟨hplaces, hbound⟩ := forall_mem_cons.mp hbound
    have hagree (hsame : handle group.1 group.2 (status.1 group.1) =
        handle' group.1 group.2 (status.1 group.1)) :
        runGroups place handle (group :: groups) status =
            runGroups place handle' (group :: groups) status ↔
          ∀ other ∈ groups, handle other.1 other.2 (status.1 other.1) =
            handle' other.1 other.2 (status.1 other.1) := by
      change runGroups place handle groups
          (update status.1 group.1 (handle group.1 group.2 (status.1 group.1)).2, _) =
        runGroups place handle' groups _ ↔ _
      rw [hsame, ih hdistinct hapart hnodup]
      · refine forall₂_congr fun other hother => ?_
        have hne : other.1 ≠ group.1 := fun heq => hfresh (heq ▸ mem_map_of_mem hother)
        simp only [update_of_ne hne]
      · simpa only [leave_length] using hbound
    rw [forall_mem_cons]
    constructor
    · intro heq
      have hsame := handle_eq_of_runGroups_eq hfresh hfirst hgroup hplaces hlength hlength' heq
      exact ⟨hsame, (hagree hsame).mp heq⟩
    · rintro ⟨hsame, hrest⟩
      exact (hagree hsame).mpr hrest

end Scatter
