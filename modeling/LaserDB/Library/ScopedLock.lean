import LaserDB.Library.Simulation

/-!
# Lock objects that can be copied

A copy of a lock object locks nothing and unlocks the key like any other.  The set of locked keys
does not know the owners; they are kept here to speak about them.
-/

namespace ScopedLock

open List Function Option

inductive Script (κ σ ρ : Type) where
  | done (reply : ρ)
  | construct (key : κ) (rest : Script κ σ ρ)
  | copy (key : κ) (rest : Script κ σ ρ)
  | destroy (key : κ) (rest : Script κ σ ρ)
  /-- Look at what belongs to a key, to rely on it up to the next access. -/
  | check (key : κ) (next : σ → Script κ σ ρ)
  /-- One atomic access to the shared state. -/
  | access (update : σ → σ) (next : σ → Script κ σ ρ)

namespace Script

variable {κ σ ρ : Type}

def run : Script κ σ ρ → σ → ρ × σ
  | .done reply, state => (reply, state)
  | .construct _ rest, state => rest.run state
  | .copy _ rest, state => rest.run state
  | .destroy _ rest, state => rest.run state
  | .check _ next, state => (next state).run state
  | .access update next, state => (next state).run (update state)

def Takes (key : κ) : Script κ σ ρ → Prop
  | .done _ => False
  | .construct other rest => other = key ∨ rest.Takes key
  | .copy _ rest => rest.Takes key
  | .destroy _ rest => rest.Takes key
  | .check _ next => ∃ state, (next state).Takes key
  | .access _ next => ∃ state, (next state).Takes key

def NoCopy : Script κ σ ρ → Prop
  | .done _ => True
  | .construct _ rest => rest.NoCopy
  | .copy _ _ => False
  | .destroy _ rest => rest.NoCopy
  | .check _ next => ∀ state, (next state).NoCopy
  | .access _ next => ∀ state, (next state).NoCopy

/-- An object for the key is destroyed before the next one is constructed. -/
def Releases (key : κ) : Script κ σ ρ → Prop
  | .done _ => False
  | .construct _ _ => False
  | .copy _ rest => rest.Releases key
  | .destroy other rest => other = key ∨ rest.Releases key
  | .check _ next => ∀ state, (next state).Releases key
  | .access _ next => ∀ state, (next state).Releases key

/-- Every construction is followed by a destruction before the next construction. -/
def Bracketed : Script κ σ ρ → Prop
  | .done _ => True
  | .construct key rest => rest.Releases key ∧ rest.Bracketed
  | .copy _ rest => rest.Bracketed
  | .destroy _ rest => rest.Bracketed
  | .check _ next => ∀ state, (next state).Bracketed
  | .access _ next => ∀ state, (next state).Bracketed

/-- The script copies and destroys objects that exist, relies on a key only while it
has an object for it, and changes only what belongs to the keys of its objects. -/
def Proper [DecidableEq κ] (view : κ → Setoid σ) :
    List κ → List κ → Script κ σ ρ → Prop
  | objects, _, .done _ => objects = []
  | objects, seen, .construct key rest => rest.Proper view (key :: objects) seen
  | objects, seen, .copy key rest => key ∈ objects ∧ rest.Proper view (key :: objects) seen
  | objects, seen, .destroy key rest =>
    key ∈ objects ∧ (key ∈ seen → key ∈ objects.erase key) ∧
      rest.Proper view (objects.erase key) seen
  | objects, seen, .check key next =>
    key ∈ objects ∧ ∀ state, (next state).Proper view objects (key :: seen)
  | objects, _, .access update next =>
    (∀ key, key ∉ objects → ∀ state, (view key).r state (update state)) ∧
      ∀ state, (next state).Proper view objects []

inductive Shorter : Script κ σ ρ → Script κ σ ρ → Prop where
  | construct (key : κ) (rest : Script κ σ ρ) : Shorter rest (.construct key rest)
  | copy (key : κ) (rest : Script κ σ ρ) : Shorter rest (.copy key rest)
  | destroy (key : κ) (rest : Script κ σ ρ) : Shorter rest (.destroy key rest)
  | check (key : κ) (next : σ → Script κ σ ρ) (state : σ) : Shorter (next state) (.check key next)
  | access (update : σ → σ) (next : σ → Script κ σ ρ) (state : σ) :
      Shorter (next state) (.access update next)

theorem shorter_wellFounded : WellFounded (Shorter : Script κ σ ρ → Script κ σ ρ → Prop) := by
  refine ⟨fun script => ?_⟩
  induction script with
  | done reply => exact ⟨_, fun _ hshorter => nomatch hshorter⟩
  | construct key rest ih | copy key rest ih | destroy key rest ih =>
    refine ⟨_, fun _ hshorter => ?_⟩
    cases hshorter
    exact ih
  | check key next ih =>
    refine ⟨_, fun _ hshorter => ?_⟩
    cases hshorter with
    | check _ _ state => exact ih state
  | access update next ih =>
    refine ⟨_, fun _ hshorter => ?_⟩
    cases hshorter with
    | access _ _ state => exact ih state

variable {κ σ ρ : Type}

def copyAll : List κ → Script κ σ ρ → Script κ σ ρ
  | [], rest => rest
  | key :: keys, rest => .copy key (copyAll keys rest)

def destroyAll : List κ → Script κ σ ρ → Script κ σ ρ
  | [], rest => rest
  | key :: keys, rest => .destroy key (destroyAll keys rest)

/-- A temporary object is copied to the end of a vector that holds objects for the keys
`held`; a vector that grows copies its elements and destroys the old ones. -/
def emplaceBack (grows : Bool) (held : List κ) (key : κ) (rest : Script κ σ ρ) : Script κ σ ρ :=
  .construct key <| .copy key <|
    if grows then copyAll held (destroyAll held (.destroy key rest)) else .destroy key rest

variable {rest : Script κ σ ρ} {key : κ}

variable {P : Script κ σ ρ → Prop}

theorem copyAll_of (hcopy : ∀ key rest, P rest → P (.copy key rest)) (keys : List κ)
    (hrest : P rest) : P (copyAll keys rest) := by
  induction keys with
  | nil => exact hrest
  | cons key keys ih => exact hcopy key _ ih

theorem destroyAll_of (hdestroy : ∀ key rest, P rest → P (.destroy key rest)) (keys : List κ)
    (hrest : P rest) : P (destroyAll keys rest) := by
  induction keys with
  | nil => exact hrest
  | cons key keys ih => exact hdestroy key _ ih

theorem emplaceBack_of (hcopy : ∀ key rest, P rest → P (.copy key rest))
    (hdestroy : ∀ key rest, P rest → P (.destroy key rest)) (grows : Bool) (held : List κ)
    (hrest : P (.destroy key rest)) :
    P (.copy key (if grows then copyAll held (destroyAll held (.destroy key rest))
      else .destroy key rest)) := by
  refine hcopy key _ ?_
  cases grows with
  | false => exact hrest
  | true => exact copyAll_of hcopy held (destroyAll_of hdestroy held hrest)

variable (keys : List κ)

theorem destroyAll_run (rest : Script κ σ ρ) (state : σ) :
    (destroyAll keys rest).run state = rest.run state :=
  @destroyAll_of _ _ _ rest (fun script => script.run state = rest.run state)
    (fun _ _ hrun => hrun) keys rfl

variable (grows : Bool)

theorem emplaceBack_run (held : List κ) (key : κ) (rest : Script κ σ ρ) (state : σ) :
    (emplaceBack grows held key rest).run state = rest.run state :=
  @emplaceBack_of _ _ _ rest key (fun script => script.run state = rest.run state)
    (fun _ _ hrun => hrun) (fun _ _ hrun => hrun) grows held rfl

theorem destroyAll_takes {keys : List κ} : (destroyAll keys rest).Takes key → rest.Takes key :=
  @destroyAll_of _ _ _ rest (fun script => script.Takes key → rest.Takes key)
    (fun _ _ htakes => htakes) keys id

theorem emplaceBack_takes {grows : Bool} {held : List κ} {other : κ}
    (htakes : (emplaceBack grows held other rest).Takes key) : other = key ∨ rest.Takes key :=
  htakes.imp_right (@emplaceBack_of _ _ _ rest other
    (fun script => script.Takes key → rest.Takes key) (fun _ _ htakes => htakes)
    (fun _ _ htakes => htakes) grows held id)

theorem destroyAll_bracketed (hrest : rest.Bracketed) : (destroyAll keys rest).Bracketed :=
  destroyAll_of (fun _ _ hbracketed => hbracketed) keys hrest

theorem emplaceBack_bracketed (held : List κ) (key : κ) (hrest : rest.Bracketed) :
    (emplaceBack grows held key rest).Bracketed := by
  constructor
  · exact @emplaceBack_of _ _ _ rest key (Releases key) (fun _ _ hreleases => hreleases)
      (fun _ _ hreleases => .inr hreleases) grows held (.inl rfl)
  · exact @emplaceBack_of _ _ _ rest key Bracketed (fun _ _ hbracketed => hbracketed)
      (fun _ _ hbracketed => hbracketed) grows held hrest

variable [DecidableEq κ] {view : κ → Setoid σ} {left held seen : List κ}

theorem proper_destroy_done (view : κ → Setoid σ) (key : κ) (reply : ρ) :
    (destroy key (done reply)).Proper view [key] [] := by
  refine ⟨mem_cons_self, fun hseen => absurd hseen not_mem_nil, ?_⟩
  show [key].erase key = []
  rw [erase_cons_head]

theorem destroyAll_proper (hseen : ∀ key ∈ seen, key ∈ left)
    (hrest : ∀ objects : List κ, objects.Perm left → rest.Proper view objects seen) :
    ∀ objects : List κ, objects.Perm (keys ++ left) →
      (destroyAll keys rest).Proper view objects seen := by
  induction keys with
  | nil => exact hrest
  | cons key keys ih =>
    intro objects hperm
    have herase : (objects.erase key).Perm (keys ++ left) := by
      have herased := hperm.erase key
      rwa [cons_append, erase_cons_head] at herased
    refine ⟨hperm.mem_iff.mpr mem_cons_self, fun hkey => ?_, ih _ herase⟩
    exact herase.mem_iff.mpr (mem_append_right _ (hseen key hkey))

theorem copyAll_proper (hkeys : ∀ key ∈ keys, key ∈ left)
    (hrest : ∀ objects : List κ, objects.Perm (keys ++ left) → rest.Proper view objects seen) :
    ∀ objects : List κ, objects.Perm left → (copyAll keys rest).Proper view objects seen := by
  induction keys generalizing left with
  | nil => exact hrest
  | cons key keys ih =>
    intro objects hperm
    have hkept : ∀ other ∈ keys, other ∈ key :: left := fun other hother =>
      mem_cons_of_mem _ (hkeys other (mem_cons_of_mem _ hother))
    refine ⟨hperm.mem_iff.mpr (hkeys key mem_cons_self), ?_⟩
    refine ih hkept (fun objects hobjects => ?_) _ (hperm.cons key)
    exact hrest objects (hobjects.trans perm_middle)

theorem emplaceBack_proper (hseen : ∀ key ∈ seen, key ∈ held)
    (hrest : ∀ objects : List κ, objects.Perm (held ++ [key]) → rest.Proper view objects seen) :
    ∀ objects : List κ, objects.Perm held →
      (emplaceBack grows held key rest).Proper view objects seen := by
  intro objects hobjects
  -- the temporary goes, its copy in the vector stays
  have htemporary : ∀ objects : List κ, objects.Perm (key :: key :: held) →
      (destroy key rest).Proper view objects seen := by
    intro objects hperm
    have herase : (objects.erase key).Perm (key :: held) := by
      have herased := hperm.erase key
      rwa [erase_cons_head] at herased
    refine ⟨hperm.mem_iff.mpr mem_cons_self, fun _ => ?_, hrest _ ?_⟩
    · exact herase.mem_iff.mpr mem_cons_self
    · exact herase.trans (perm_append_singleton key held).symm
  have hboth : (key :: key :: objects).Perm (key :: key :: held) := (hobjects.cons _).cons _
  have hheld : ∀ other ∈ held, other ∈ key :: key :: held := fun other hother =>
    mem_cons_of_mem _ (mem_cons_of_mem _ hother)
  refine ⟨mem_cons_self, ?_⟩
  cases grows with
  | false => exact htemporary _ hboth
  | true =>
    refine copyAll_proper held hheld (destroyAll_proper held ?_ htemporary) _ hboth
    exact fun other hother => hheld other (hseen other hother)

end Script

/-- What the threads can be asked to do.  `view key` tells the states apart in what
belongs to the key. -/
structure System (κ σ ι ρ : Type) [DecidableEq κ] where
  view : κ → Setoid σ
  script : ι → Script κ σ ρ
  copies : ι → Bool
  noCopy : ∀ op, copies op = false → (script op).NoCopy
  proper : ∀ op, (script op).Proper view [] []
  bracketed : ∀ op, (script op).Bracketed

/-- `objects` are the lock objects of the thread that are alive, and `seen` is what it
has looked at since its last access. -/
structure Thread (κ σ ι ρ : Type) where
  op : ι
  objects : List κ
  seen : List (κ × σ)
  rest : Script κ σ ρ

def Thread.Uses {κ σ ι ρ : Type} (thread : Thread κ σ ι ρ) (key : κ) : Prop :=
  key ∈ thread.objects ∨ thread.rest.Takes key

structure Config (κ σ ι ρ : Type) where
  state : σ
  held : κ → Option Nat
  threads : List (Thread κ σ ι ρ)

inductive Step (ι : Type) where
  | start (op : ι)
  | run (id : Nat)

section
variable {κ σ ι ρ : Type}

def Config.start (state : σ) : Config κ σ ι ρ := ⟨state, fun _ => none, []⟩

variable [DecidableEq κ]

def Thread.move (thread : Thread κ σ ι ρ) (id : Nat) (held : κ → Option Nat) (state : σ) :
    Option (Thread κ σ ι ρ × (κ → Option Nat) × σ) :=
  match thread.rest with
  | .done _ => none
  | .construct key rest =>
    if held key = none then
      some ({ thread with objects := key :: thread.objects, rest := rest },
        update held key (some id), state)
    else none
  | .copy key rest =>
    some ({ thread with objects := key :: thread.objects, rest := rest }, held, state)
  | .destroy key rest =>
    some ({ thread with objects := thread.objects.erase key, rest := rest },
      update held key none, state)
  | .check key next =>
    some ({ thread with seen := (key, state) :: thread.seen, rest := next state }, held, state)
  | .access update next =>
    some ({ thread with seen := [], rest := next state }, held, update state)

def next (system : System κ σ ι ρ) : Step ι → Config κ σ ι ρ → Config κ σ ι ρ
  | .start op, config =>
    { config with threads := config.threads ++ [⟨op, [], [], system.script op⟩] }
  | .run id, config =>
    match config.threads[id]? with
    | none => config
    | some thread =>
      match thread.move id config.held config.state with
      | none => config
      | some (moved, held, state) => ⟨state, held, config.threads.set id moved⟩

/-- A thread is started while no thread that copies uses one of its keys; and when it
copies itself, every thread that uses one of its keys has constructed its object. -/
def Admits (system : System κ σ ι ρ) : Step ι → Config κ σ ι ρ → Prop
  | .start op, config =>
    ∀ (id : Nat) thread, config.threads[id]? = some thread →
      ∀ key, (system.script op).Takes key → thread.Uses key →
        system.copies thread.op = false ∧ (system.copies op = true → ¬ thread.rest.Takes key)
  | .run _, _ => True

def Enabled (config : Config κ σ ι ρ) (id : Nat) : Prop :=
  ∃ thread, config.threads[id]? = some thread ∧ (thread.move id config.held config.state).isSome

def Finished (config : Config κ σ ι ρ) : Prop :=
  ∀ thread ∈ config.threads, ∃ reply, thread.rest = .done reply

def Destroys (config : Config κ σ ι ρ) (id : Nat) (key : κ) : Prop :=
  ∃ thread rest, config.threads[id]? = some thread ∧ thread.rest = .destroy key rest

/-- As long as a thread has not returned some thread can go on, and the threads that
have been started go on only finitely often. -/
structure Terminates (system : System κ σ ι ρ) (config : Config κ σ ι ρ) : Prop where
  enabled : ¬ Finished config → ∃ id, Enabled config id
  finite : Acc (fun later earlier => ∃ id, Enabled earlier id ∧ later = next system (.run id) earlier)
    config

end

section
variable {κ σ ι ρ : Type} [DecidableEq κ] {view : κ → Setoid σ}
  {thread moved : Thread κ σ ι ρ} {id : Nat} {held held' : κ → Option Nat} {state state' : σ}

structure Thread.Well (view : κ → Setoid σ) (thread : Thread κ σ ι ρ) : Prop where
  proper : thread.rest.Proper view thread.objects (thread.seen.map Prod.fst)
  bracketed : thread.rest.Bracketed
  seen : ∀ key ∈ thread.seen.map Prod.fst, key ∈ thread.objects

/-- One instruction of a well-behaved thread, with what it does to the locks, to the
state and to what the thread relies on. -/
inductive Moves (view : κ → Setoid σ) (id : Nat) :
    Thread κ σ ι ρ × (κ → Option Nat) × σ → Thread κ σ ι ρ × (κ → Option Nat) × σ → Prop where
  | construct (op : ι) (objects : List κ) (seen : List (κ × σ)) (key : κ) (rest : Script κ σ ρ)
      (held : κ → Option Nat) (state : σ) (hfree : held key = none) :
      Moves view id (⟨op, objects, seen, .construct key rest⟩, held, state)
        (⟨op, key :: objects, seen, rest⟩, update held key (some id), state)
  | copy (op : ι) (objects : List κ) (seen : List (κ × σ)) (key : κ) (rest : Script κ σ ρ)
      (held : κ → Option Nat) (state : σ) (hkey : key ∈ objects) :
      Moves view id (⟨op, objects, seen, .copy key rest⟩, held, state)
        (⟨op, key :: objects, seen, rest⟩, held, state)
  | destroy (op : ι) (objects : List κ) (seen : List (κ × σ)) (key : κ) (rest : Script κ σ ρ)
      (held : κ → Option Nat) (state : σ) (hkey : key ∈ objects)
      (hseen : key ∈ seen.map Prod.fst → key ∈ objects.erase key) :
      Moves view id (⟨op, objects, seen, .destroy key rest⟩, held, state)
        (⟨op, objects.erase key, seen, rest⟩, update held key none, state)
  | check (op : ι) (objects : List κ) (seen : List (κ × σ)) (key : κ) (next : σ → Script κ σ ρ)
      (held : κ → Option Nat) (state : σ) (hkey : key ∈ objects) :
      Moves view id (⟨op, objects, seen, .check key next⟩, held, state)
        (⟨op, objects, (key, state) :: seen, next state⟩, held, state)
  | access (op : ι) (objects : List κ) (seen : List (κ × σ)) (update : σ → σ)
      (next : σ → Script κ σ ρ) (held : κ → Option Nat) (state : σ)
      (hview : ∀ key, key ∉ objects → ∀ state, (view key).r state (update state)) :
      Moves view id (⟨op, objects, seen, .access update next⟩, held, state)
        (⟨op, objects, [], next state⟩, held, update state)

theorem Thread.move_moves (hwell : thread.Well view)
    (hmove : thread.move id held state = some (moved, held', state')) :
    Moves view id (thread, held, state) (moved, held', state') := by
  obtain ⟨op, objects, seen, rest⟩ := thread
  have hproper := hwell.proper
  cases rest with
  | done reply => cases hmove
  | construct key rest =>
    simp only [Thread.move] at hmove
    split at hmove
    · cases hmove
      exact .construct op objects seen key rest held state ‹_›
    · cases hmove
  | copy key rest =>
    cases hmove
    exact .copy op objects seen key rest held state hproper.1
  | destroy key rest =>
    cases hmove
    exact .destroy op objects seen key rest held state hproper.1 hproper.2.1
  | check key next =>
    cases hmove
    exact .check op objects seen key next held state hproper.1
  | access update next =>
    cases hmove
    exact .access op objects seen update next held state hproper.1

variable (hmoves : Moves view id (thread, held, state) (moved, held', state'))
include hmoves

theorem Moves.op : moved.op = thread.op := by
  cases hmoves <;> rfl

theorem Moves.well (hwell : thread.Well view) : moved.Well view := by
  obtain ⟨hproper, hbracketed, hseen⟩ := hwell
  cases hmoves with
  | construct op objects seen key rest =>
    exact ⟨hproper, hbracketed.2, fun other hother => mem_cons_of_mem _ (hseen other hother)⟩
  | copy op objects seen key rest =>
    exact ⟨hproper.2, hbracketed, fun other hother => mem_cons_of_mem _ (hseen other hother)⟩
  | destroy op objects seen key rest held state hkey hlast =>
    refine ⟨hproper.2.2, hbracketed, fun other hother => ?_⟩
    by_cases hsame : other = key
    · subst hsame
      exact hlast hother
    · exact (mem_erase_of_ne hsame).mpr (hseen other hother)
  | check op objects seen key next held state hkey =>
    refine ⟨hproper.2 _, hbracketed _, fun other hother => ?_⟩
    rcases mem_cons.mp hother with rfl | hother
    · exact hkey
    · exact hseen other hother
  | access op objects seen update next held state hview =>
    exact ⟨hproper.2 _, hbracketed _, fun other hother => nomatch hother⟩

theorem Moves.noCopy (hnoCopy : thread.rest.NoCopy) : moved.rest.NoCopy := by
  cases hmoves with
  | construct | destroy => exact hnoCopy
  | copy => exact hnoCopy.elim
  | check | access => exact hnoCopy _

variable {key : κ}

theorem Moves.takes (htakes : moved.rest.Takes key) : thread.rest.Takes key := by
  cases hmoves with
  | construct => exact .inr htakes
  | copy | destroy => exact htakes
  | check | access => exact ⟨_, htakes⟩

theorem Moves.mem_objects (hkey : key ∈ moved.objects) :
    key ∈ thread.objects ∨ held key = none ∧ thread.rest.Takes key := by
  cases hmoves with
  | construct op objects seen other rest held state hfree =>
    rcases mem_cons.mp hkey with rfl | hkey
    · exact .inr ⟨hfree, .inl rfl⟩
    · exact .inl hkey
  | copy op objects seen other rest held state hother =>
    rcases mem_cons.mp hkey with rfl | hkey
    · exact .inl hother
    · exact .inl hkey
  | destroy => exact .inl (mem_of_mem_erase hkey)
  | check | access => exact .inl hkey

theorem Moves.uses (huses : moved.Uses key) : thread.Uses key := by
  rcases huses with hkey | htakes
  · exact (hmoves.mem_objects hkey).imp_right And.right
  · exact .inr (hmoves.takes htakes)

theorem Moves.held_eq (key : κ) :
    held' key = held key ∨ held key = none ∧ held' key = some id ∨
      held' key = none ∧ key ∈ thread.objects := by
  cases hmoves with
  | construct op objects seen other rest held state hfree =>
    by_cases hsame : key = other
    · subst hsame
      exact .inr (.inl ⟨hfree, update_self ..⟩)
    · exact .inl (update_of_ne hsame ..)
  | destroy op objects seen other rest held state hother =>
    by_cases hsame : key = other
    · subst hsame
      exact .inr (.inr ⟨update_self .., hother⟩)
    · exact .inl (update_of_ne hsame ..)
  | copy | check | access => exact .inl rfl

theorem Moves.view_state (hkey : key ∉ thread.objects) : (view key).r state state' := by
  cases hmoves with
  | access op objects seen update next held state hview => exact hview key hkey _
  | _ => exact (view key).refl _

theorem Moves.mem_seen {entry : κ × σ} (hentry : entry ∈ moved.seen) :
    entry ∈ thread.seen ∧ state' = state ∨ entry.2 = state' := by
  cases hmoves with
  | construct | copy | destroy => exact .inl ⟨hentry, rfl⟩
  | check =>
    rcases mem_cons.mp hentry with rfl | hentry
    · exact .inr rfl
    · exact .inl ⟨hentry, rfl⟩
  | access => cases hentry

theorem Moves.keeps (hnoCopy : thread.rest.NoCopy) (hnodup : thread.objects.Nodup)
    (hkeeps : ∀ key ∈ thread.objects, held key = some id) :
    moved.objects.Nodup ∧ ∀ key ∈ moved.objects, held' key = some id := by
  cases hmoves with
  | construct op objects seen key rest held state hfree =>
    have hfresh : key ∉ objects := by
      intro hkey
      rw [hkeeps key hkey] at hfree
      cases hfree
    refine ⟨nodup_cons.mpr ⟨hfresh, hnodup⟩, fun other hother => ?_⟩
    rcases mem_cons.mp hother with rfl | hother
    · exact update_self ..
    · have hne : other ≠ key := fun hsame => hfresh (hsame ▸ hother)
      rw [update_of_ne hne]
      exact hkeeps other hother
  | copy => exact hnoCopy.elim
  | destroy op objects seen key rest held state hkey =>
    refine ⟨hnodup.erase key, fun other hother => ?_⟩
    obtain ⟨hne, hother⟩ := hnodup.mem_erase_iff.mp hother
    rw [update_of_ne hne]
    exact hkeeps other hother
  | check | access => exact ⟨hnodup, hkeeps⟩

theorem Moves.releases (hbracketed : thread.rest.Bracketed)
    (howner : ∀ key, held key = some id → key ∈ thread.objects ∧ thread.rest.Releases key)
    (hheld : held' key = some id) : key ∈ moved.objects ∧ moved.rest.Releases key := by
  cases hmoves with
  | construct op objects seen other rest held state hfree =>
    by_cases hsame : key = other
    · subst hsame
      exact ⟨mem_cons_self, hbracketed.1⟩
    · rw [update_of_ne hsame] at hheld
      exact (howner key hheld).2.elim
  | copy =>
    obtain ⟨hkey, hreleases⟩ := howner key hheld
    exact ⟨mem_cons_of_mem _ hkey, hreleases⟩
  | destroy op objects seen other rest held state hother =>
    by_cases hsame : key = other
    · subst hsame
      rw [update_self] at hheld
      cases hheld
    · rw [update_of_ne hsame] at hheld
      obtain ⟨hkey, hreleases⟩ := howner key hheld
      exact ⟨(mem_erase_of_ne hsame).mpr hkey, hreleases.resolve_left fun heq => hsame heq.symm⟩
  | check | access =>
    obtain ⟨hkey, hreleases⟩ := howner key hheld
    exact ⟨hkey, hreleases _⟩

end

variable {id : Nat}

section
variable {κ σ ι ρ : Type} [DecidableEq κ] {system : System κ σ ι ρ} {config : Config κ σ ι ρ}

structure Live (system : System κ σ ι ρ) (config : Config κ σ ι ρ) : Prop where
  well : ∀ (id : Nat) thread, config.threads[id]? = some thread → thread.Well system.view
  owner : ∀ key id, config.held key = some id → ∃ thread, config.threads[id]? = some thread ∧
    key ∈ thread.objects ∧ thread.rest.Releases key

structure Apart (system : System κ σ ι ρ) (config : Config κ σ ι ρ) : Prop where
  noCopy : ∀ (id : Nat) thread, config.threads[id]? = some thread →
    system.copies thread.op = false → thread.rest.NoCopy
  nodup : ∀ (id : Nat) thread, config.threads[id]? = some thread →
    system.copies thread.op = false → thread.objects.Nodup
  keeps : ∀ (id : Nat) thread, config.threads[id]? = some thread →
    system.copies thread.op = false → ∀ key ∈ thread.objects, config.held key = some id
  apart : ∀ (id other : Nat) thread otherThread, config.threads[id]? = some thread →
    config.threads[other]? = some otherThread → id ≠ other → system.copies thread.op = true →
      ∀ key, thread.Uses key → otherThread.Uses key →
        system.copies otherThread.op = false ∧ ¬ otherThread.rest.Takes key ∧
          (key ∈ thread.objects → key ∉ otherThread.objects)
  steady : ∀ (id : Nat) thread, config.threads[id]? = some thread →
    ∀ entry ∈ thread.seen, (system.view entry.1).r entry.2 config.state

theorem Apart.alone (hapart : Apart system config) {id other : Nat}
    {thread otherThread : Thread κ σ ι ρ} {key : κ} (hthread : config.threads[id]? = some thread)
    (hother : config.threads[other]? = some otherThread) (hkey : key ∈ thread.objects)
    (hotherKey : key ∈ otherThread.objects) : id = other := by
  by_contra hne
  cases hcopies : system.copies thread.op with
  | true =>
    exact (hapart.apart id other thread otherThread hthread hother hne hcopies key (.inl hkey)
      (.inl hotherKey)).2.2 hkey hotherKey
  | false =>
    cases hotherCopies : system.copies otherThread.op with
    | true =>
      exact (hapart.apart other id otherThread thread hother hthread (Ne.symm hne) hotherCopies
        key (.inl hotherKey) (.inl hkey)).2.2 hotherKey hkey
    | false =>
      have hheld := hapart.keeps id thread hthread hcopies key hkey
      rw [hapart.keeps other otherThread hother hotherCopies key hotherKey] at hheld
      exact hne (some.inj hheld).symm

variable {threads : List (Thread κ σ ι ρ)}

omit [DecidableEq κ] in
theorem getElem?_set_cases {id other : Nat} {moved found : Thread κ σ ι ρ}
    (hfound : (threads.set id moved)[other]? = some found) :
    other = id ∧ found = moved ∨ other ≠ id ∧ threads[other]? = some found := by
  rw [getElem?_set] at hfound
  split at hfound
  · rename_i heq
    split at hfound
    · exact .inl ⟨heq.symm, (some.inj hfound).symm⟩
    · cases hfound
  · exact .inr ⟨Ne.symm ‹_›, hfound⟩

omit [DecidableEq κ] in
theorem getElem?_append_cases {other : Nat} {new found : Thread κ σ ι ρ}
    (hfound : (threads ++ [new])[other]? = some found) :
    threads[other]? = some found ∨ other = threads.length ∧ found = new := by
  rw [getElem?_append] at hfound
  split at hfound
  · exact .inl hfound
  · rw [getElem?_singleton] at hfound
    split at hfound
    · exact .inr ⟨by omega, (some.inj hfound).symm⟩
    · cases hfound

omit [DecidableEq κ] in
theorem getElem?_lt {thread : Thread κ σ ι ρ} (hthread : threads[id]? = some thread) :
    id < threads.length :=
  (List.getElem?_eq_some_iff.mp hthread).1

section
variable {id : Nat} {thread moved : Thread κ σ ι ρ} {held : κ → Option Nat} {state : σ}
  (hthread : config.threads[id]? = some thread)
  (hmoves : Moves system.view id (thread, config.held, config.state) (moved, held, state))
include hthread hmoves

theorem Live.moves (hlive : Live system config) :
    Live system ⟨state, held, config.threads.set id moved⟩ := by
  have hlt := getElem?_lt hthread
  have hwell := hlive.well id thread hthread
  refine ⟨?_, ?_⟩
  · intro other found hfound
    rcases getElem?_set_cases hfound with ⟨rfl, rfl⟩ | ⟨-, hfound⟩
    · exact hmoves.well hwell
    · exact hlive.well other found hfound
  · intro key owner hheld
    by_cases hsame : owner = id
    · subst hsame
      have howner : ∀ key, config.held key = some owner →
          key ∈ thread.objects ∧ thread.rest.Releases key := by
        intro key hkey
        obtain ⟨found, hfound, hrest⟩ := hlive.owner key owner hkey
        rw [hthread] at hfound
        cases hfound
        exact hrest
      exact ⟨moved, by simp [hlt], hmoves.releases hwell.bracketed howner hheld⟩
    · have hbefore : config.held key = some owner := by
        rcases hmoves.held_eq key with heq | ⟨-, heq⟩ | ⟨heq, -⟩
        · exact heq ▸ hheld
        · have hheld : held key = some owner := hheld
          rw [heq] at hheld
          exact absurd (some.inj hheld).symm hsame
        · have hheld : held key = some owner := hheld
          rw [heq] at hheld
          cases hheld
      obtain ⟨found, hfound, hrest⟩ := hlive.owner key owner hbefore
      exact ⟨found, (getElem?_set_ne (Ne.symm hsame)).trans hfound, hrest⟩

theorem Apart.moves (hlive : Live system config) (hapart : Apart system config) :
    Apart system ⟨state, held, config.threads.set id moved⟩ := by
  have hown := hapart.keeps id thread hthread
  have hkeeps := fun hcopies => hmoves.keeps (hapart.noCopy id thread hthread hcopies)
    (hapart.nodup id thread hthread hcopies) (hown hcopies)
  refine ⟨?_, ?_, ?_, ?_, ?_⟩
  · intro other found hfound hcopies
    rcases getElem?_set_cases hfound with ⟨rfl, rfl⟩ | ⟨-, hfound⟩
    · exact hmoves.noCopy (hapart.noCopy other thread hthread (hmoves.op ▸ hcopies))
    · exact hapart.noCopy other found hfound hcopies
  · intro other found hfound hcopies
    rcases getElem?_set_cases hfound with ⟨rfl, rfl⟩ | ⟨-, hfound⟩
    · exact (hkeeps (hmoves.op ▸ hcopies)).1
    · exact hapart.nodup other found hfound hcopies
  · intro other found hfound hcopies key hkey
    rcases getElem?_set_cases hfound with ⟨rfl, rfl⟩ | ⟨hne, hfound⟩
    · exact (hkeeps (hmoves.op ▸ hcopies)).2 key hkey
    · have hheld := hapart.keeps other found hfound hcopies key hkey
      show held key = some other
      rcases hmoves.held_eq key with heq | ⟨hfree, -⟩ | ⟨-, hmine⟩
      · exact heq.trans hheld
      · rw [hfree] at hheld
        cases hheld
      · exact absurd (hapart.alone hfound hthread hkey hmine) hne
  · intro first second firstThread secondThread hfirst hsecond hne hcopies key hfirstUses hsecondUses
    rcases getElem?_set_cases hfirst with ⟨rfl, rfl⟩ | ⟨-, hfirstBefore⟩
    · rcases getElem?_set_cases hsecond with ⟨rfl, -⟩ | ⟨-, hsecond⟩
      · exact absurd rfl hne
      · obtain ⟨hplain, htakes, hexcluded⟩ := hapart.apart first second thread secondThread hthread
          hsecond hne (hmoves.op ▸ hcopies) key (hmoves.uses hfirstUses) hsecondUses
        refine ⟨hplain, htakes, fun hkey hsecondKey => ?_⟩
        rcases hmoves.mem_objects hkey with hkey | ⟨hfree, -⟩
        · exact hexcluded hkey hsecondKey
        · rw [hapart.keeps second secondThread hsecond hplain key hsecondKey] at hfree
          cases hfree
    · rcases getElem?_set_cases hsecond with ⟨rfl, rfl⟩ | ⟨-, hsecond⟩
      · obtain ⟨hplain, htakes, hexcluded⟩ := hapart.apart first second firstThread thread
          hfirstBefore hthread hne hcopies key hfirstUses (hmoves.uses hsecondUses)
        refine ⟨hmoves.op ▸ hplain, fun hmovedTakes => htakes (hmoves.takes hmovedTakes),
          fun hkey hmovedKey => ?_⟩
        rcases hmoves.mem_objects hmovedKey with hbefore | ⟨-, hnew⟩
        · exact hexcluded hkey hbefore
        · exact htakes hnew
      · exact hapart.apart first second firstThread secondThread hfirstBefore hsecond hne hcopies
          key hfirstUses hsecondUses
  · intro other found hfound entry hentry
    rcases getElem?_set_cases hfound with ⟨rfl, rfl⟩ | ⟨hne, hfound⟩
    · rcases hmoves.mem_seen hentry with ⟨hbefore, hstate⟩ | hnow
      · show (system.view entry.1).r entry.2 state
        rw [hstate]
        exact hapart.steady other thread hthread entry hbefore
      · show (system.view entry.1).r entry.2 state
        exact hnow ▸ (system.view entry.1).refl entry.2
    · have hmine : entry.1 ∈ found.objects :=
        (hlive.well other found hfound).seen _ (mem_map_of_mem hentry)
      have hkept := hmoves.view_state fun hkey => hne (hapart.alone hfound hthread hmine hkey)
      exact (system.view entry.1).trans (hapart.steady other found hfound entry hentry) hkept

end

theorem Live.start (system : System κ σ ι ρ) (state : σ) : Live system (.start state) := by
  constructor
  · intro id thread hthread
    cases hthread
  · intro key id hheld
    cases hheld

theorem Apart.start (system : System κ σ ι ρ) (state : σ) : Apart system (.start state) := by
  constructor
  all_goals
    intro id
    intros
    contradiction

private theorem Live.begin (hlive : Live system config) (op : ι) :
    Live system (next system (.start op) config) := by
  refine ⟨?_, ?_⟩
  · intro id thread hthread
    rcases getElem?_append_cases hthread with hthread | ⟨-, rfl⟩
    · exact hlive.well id thread hthread
    · exact ⟨system.proper op, system.bracketed op, fun key hkey => nomatch hkey⟩
  · intro key id hheld
    obtain ⟨thread, hthread, hrest⟩ := hlive.owner key id hheld
    exact ⟨thread, (getElem?_append_left (getElem?_lt hthread)).trans hthread, hrest⟩

private theorem Apart.begin (hapart : Apart system config) {op : ι}
    (hadmits : Admits system (.start op) config) :
    Apart system (next system (.start op) config) := by
  have hnew {key : κ} (huses : (Thread.mk op [] [] (system.script op)).Uses key) :
      (system.script op).Takes key := huses.resolve_left (by simp)
  refine ⟨?_, ?_, ?_, ?_, ?_⟩
  · intro id thread hthread hcopies
    rcases getElem?_append_cases hthread with hthread | ⟨-, rfl⟩
    · exact hapart.noCopy id thread hthread hcopies
    · exact system.noCopy op hcopies
  · intro id thread hthread hcopies
    rcases getElem?_append_cases hthread with hthread | ⟨-, rfl⟩
    · exact hapart.nodup id thread hthread hcopies
    · exact nodup_nil
  · intro id thread hthread hcopies key hkey
    rcases getElem?_append_cases hthread with hthread | ⟨-, rfl⟩
    · exact hapart.keeps id thread hthread hcopies key hkey
    · cases hkey
  · intro id other thread otherThread hthread hother hne hcopies key huses hotherUses
    rcases getElem?_append_cases hthread with hthread | ⟨rfl, rfl⟩
    · rcases getElem?_append_cases hother with hother | ⟨-, rfl⟩
      · exact hapart.apart id other thread otherThread hthread hother hne hcopies key huses
          hotherUses
      · have hplain := (hadmits id thread hthread key (hnew hotherUses) huses).1
        rw [hcopies] at hplain
        cases hplain
    · rcases getElem?_append_cases hother with hother | ⟨rfl, -⟩
      · obtain ⟨hplain, htakes⟩ := hadmits other otherThread hother key (hnew huses) hotherUses
        exact ⟨hplain, htakes hcopies, fun hkey => nomatch hkey⟩
      · exact absurd rfl hne
  · intro id thread hthread entry hentry
    rcases getElem?_append_cases hthread with hthread | ⟨-, rfl⟩
    · exact hapart.steady id thread hthread entry hentry
    · cases hentry

variable (hlive : Live system config)
include hlive

theorem next_run_cases (id : Nat) :
    next system (.run id) config = config ∨
      ∃ thread moved held state, config.threads[id]? = some thread ∧
        Moves system.view id (thread, config.held, config.state) (moved, held, state) ∧
        next system (.run id) config = ⟨state, held, config.threads.set id moved⟩ := by
  cases hthread : config.threads[id]? with
  | none => exact .inl (by simp only [next, hthread])
  | some thread =>
    cases hmove : thread.move id config.held config.state with
    | none => exact .inl (by simp only [next, hthread, hmove])
    | some result =>
      obtain ⟨moved, held, state⟩ := result
      exact .inr ⟨thread, moved, held, state, rfl,
        Thread.move_moves (hlive.well id thread hthread) hmove,
        by simp only [next, hthread, hmove]⟩

theorem Live.next (step : Step ι) : Live system (next system step config) := by
  cases step with
  | start op => exact hlive.begin op
  | run id =>
    rcases next_run_cases hlive id with heq | ⟨thread, moved, held, state, hthread, hmoves, heq⟩
    · rw [heq]
      exact hlive
    · rw [heq]
      exact hlive.moves hthread hmoves

theorem Live.finalState (steps : List (Step ι)) :
    Live system (Simulation.finalState (ScopedLock.next system) steps config) := by
  induction steps generalizing config with
  | nil => exact hlive
  | cons step steps ih => exact ih (hlive.next step)

variable (hapart : Apart system config)
include hapart

theorem Apart.next {step : Step ι}
    (hadmits : Admits system step config) : Apart system (next system step config) := by
  cases step with
  | start op => exact hapart.begin hadmits
  | run id =>
    rcases next_run_cases hlive id with heq | ⟨thread, moved, held, state, hthread, hmoves, heq⟩
    · rw [heq]
      exact hapart
    · rw [heq]
      exact hapart.moves hthread hmoves hlive

theorem Apart.finalState {steps : List (Step ι)}
    (hadmits : Simulation.Guarded (ScopedLock.next system) (Admits system) steps config) :
    Apart system (Simulation.finalState (ScopedLock.next system) steps config) := by
  have hstep : ∀ (step : Step ι) config, Live system config ∧ Apart system config →
      Admits system step config → Live system (ScopedLock.next system step config) ∧
          Apart system (ScopedLock.next system step config) :=
    fun step config hconfig hadmits =>
      ⟨hconfig.1.next step, Apart.next hconfig.1 hconfig.2 hadmits⟩
  exact (Simulation.invariant_finalState hstep ⟨hlive, hapart⟩ hadmits).2

theorem Apart.destroys {key : κ}
    (hdestroys : Destroys config id key) : config.held key = none ∨ config.held key = some id := by
  obtain ⟨thread, rest, hthread, hrest⟩ := hdestroys
  have hproper := (hlive.well id thread hthread).proper
  rw [hrest] at hproper
  cases hheld : config.held key with
  | none => exact .inl rfl
  | some owner =>
    obtain ⟨ownerThread, hownerThread, hkey, -⟩ := hlive.owner key owner hheld
    exact .inr (congrArg some (hapart.alone hownerThread hthread hkey hproper.1))

end

variable {κ σ ι ρ : Type} [DecidableEq κ] {system : System κ σ ι ρ} {config : Config κ σ ι ρ}

theorem enabled_of_releases {thread : Thread κ σ ι ρ} {key : κ}
    (hreleases : thread.rest.Releases key) (held : κ → Option Nat) (state : σ) :
    (thread.move id held state).isSome := by
  unfold Thread.move
  cases hrest : thread.rest with
  | done reply | construct other rest => exact (hrest ▸ hreleases).elim
  | _ => rfl

theorem Live.enabled (hlive : Live system config) (hunfinished : ¬ Finished config) :
    ∃ id, Enabled config id := by
  simp only [Finished, not_forall] at hunfinished
  obtain ⟨thread, hmem, hnotDone⟩ := hunfinished
  obtain ⟨id, hthread⟩ := mem_iff_getElem?.mp hmem
  cases hrest : thread.rest with
  | done reply => exact absurd ⟨reply, hrest⟩ hnotDone
  | construct key rest =>
    cases hheld : config.held key with
    | none => exact ⟨id, thread, hthread, by simp [Thread.move, hrest, hheld]⟩
    | some owner =>
      obtain ⟨ownerThread, hownerThread, -, hreleases⟩ := hlive.owner key owner hheld
      exact ⟨owner, ownerThread, hownerThread, enabled_of_releases hreleases _ _⟩
  | _ => exact ⟨id, thread, hthread, by simp [Thread.move, hrest]⟩

private def remaining (config : Config κ σ ι ρ) : Multiset (Script κ σ ρ) :=
  (config.threads.map Thread.rest : Multiset (Script κ σ ρ))

theorem move_shorter {thread moved : Thread κ σ ι ρ} {held held' : κ → Option Nat}
    {state state' : σ} (hmove : thread.move id held state = some (moved, held', state')) :
    moved.rest.Shorter thread.rest := by
  unfold Thread.move at hmove
  cases hrest : thread.rest with
  | done reply =>
    rw [hrest] at hmove
    cases hmove
  | construct key rest =>
    rw [hrest] at hmove
    dsimp only at hmove
    split at hmove
    · cases hmove
      constructor
    · cases hmove
  | _ =>
    rw [hrest] at hmove
    cases hmove
    constructor

omit [DecidableEq κ] in
theorem map_set_add {threads : List (Thread κ σ ι ρ)} {thread : Thread κ σ ι ρ}
    (hthread : threads[id]? = some thread) (moved : Thread κ σ ι ρ) :
    (((threads.set id moved).map Thread.rest : List _) : Multiset (Script κ σ ρ)) + {thread.rest} =
      ((threads.map Thread.rest : List _) : Multiset (Script κ σ ρ)) + {moved.rest} := by
  induction threads generalizing id with
  | nil => cases hthread
  | cons first threads ih =>
    cases id with
    | zero =>
      cases hthread
      simp only [set_cons_zero, map_cons, ← Multiset.cons_coe]
      rw [Multiset.add_comm, Multiset.add_comm _ {moved.rest}, Multiset.singleton_add,
        Multiset.singleton_add, Multiset.cons_swap]
    | succ id =>
      simp only [set_cons_succ, map_cons, ← Multiset.cons_coe, Multiset.cons_add, ih hthread]

theorem finite_run (system : System κ σ ι ρ) (config : Config κ σ ι ρ) :
    Acc (fun later earlier =>
      ∃ id, Enabled earlier id ∧ later = next system (.run id) earlier) config := by
  have hwellFounded : WellFounded
      (InvImage (Relation.CutExpand Script.Shorter) (remaining : Config κ σ ι ρ → _)) :=
    InvImage.wf _ Script.shorter_wellFounded.cutExpand
  refine Subrelation.accessible ?_ (hwellFounded.apply config)
  rintro later earlier ⟨id, ⟨thread, hthread, hsome⟩, rfl⟩
  obtain ⟨⟨moved, held, state⟩, hmove⟩ := isSome_iff_exists.mp hsome
  refine ⟨{moved.rest}, thread.rest, ?_, ?_⟩
  · intro script hscript
    rw [Multiset.mem_singleton.mp hscript]
    exact move_shorter hmove
  · simp only [next, hthread, hmove, remaining]
    exact map_set_add hthread moved

theorem Live.terminates (hlive : Live system config) : Terminates system config :=
  ⟨hlive.enabled, finite_run system config⟩

end ScopedLock
