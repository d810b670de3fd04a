import Mathlib

/-!
# Ordered finite maps with range scans

A finite map that is iterated in key order from any position.  The scan laws turn a `dropWhile`
followed by a `takeWhile` into a plain filter.
-/

structure OrderedMap (κ ν : Type) [LinearOrder κ] where
  entries : List (κ × ν)
  sorted : entries.Pairwise fun left right => left.1 < right.1

namespace OrderedMap

open List Function
open Prod (snd fst)
open Option (map_some ext none_or)

section
variable {κ ν : Type} [LinearOrder κ]

def empty : OrderedMap κ ν := ⟨[], List.Pairwise.nil⟩

def get (map : OrderedMap κ ν) (key : κ) : Option ν :=
  (map.entries.find? fun entry => entry.1 = key).map Prod.snd

/-- Replace the entry of `key`, or add one at its place in the order. -/
def insertEntry (key : κ) (value : ν) : List (κ × ν) → List (κ × ν)
  | [] => [(key, value)]
  | entry :: rest =>
    if key < entry.1 then (key, value) :: entry :: rest
    else if key = entry.1 then (key, value) :: rest
    else entry :: insertEntry key value rest

variable {value : ν} {key : κ} {entries : List (κ × ν)}

theorem mem_insertEntry {entry : κ × ν} (hmem : entry ∈ insertEntry key value entries) :
    entry = (key, value) ∨ entry ∈ entries := by
  induction entries with
  | nil => simpa [insertEntry] using hmem
  | cons head rest ih =>
    rw [insertEntry] at hmem
    split_ifs at hmem with hlt heq
    · simpa using hmem
    · rcases mem_cons.mp hmem with hhead | hrest
      · exact .inl hhead
      · exact .inr (mem_cons_of_mem _ hrest)
    · rcases mem_cons.mp hmem with hhead | hrest
      · exact .inr (by simp [hhead])
      · exact (ih hrest).imp id (mem_cons_of_mem _)

theorem insertEntry_sorted (hsorted : entries.Pairwise fun left right => left.1 < right.1) :
    (insertEntry key value entries).Pairwise fun left right => left.1 < right.1 := by
  induction entries with
  | nil => simp [insertEntry]
  | cons head rest ih =>
    obtain ⟨hhead, hrest⟩ := pairwise_cons.mp hsorted
    rw [insertEntry]
    split_ifs with hlt heq
    · refine pairwise_cons.mpr ⟨?_, hsorted⟩
      intro entry hmem
      rcases mem_cons.mp hmem with rfl | hmem
      · exact hlt
      · exact hlt.trans (hhead entry hmem)
    · refine pairwise_cons.mpr ⟨?_, hrest⟩
      intro entry hmem
      rw [heq]
      exact hhead entry hmem
    · refine pairwise_cons.mpr ⟨?_, ih hrest⟩
      intro entry hmem
      rcases mem_insertEntry hmem with rfl | hmem
      · exact lt_of_le_of_ne (not_lt.mp hlt) (Ne.symm heq)
      · exact hhead entry hmem

def put (map : OrderedMap κ ν) (key : κ) (value : ν) : OrderedMap κ ν :=
  ⟨insertEntry key value map.entries, insertEntry_sorted map.sorted⟩

def erase (map : OrderedMap κ ν) (key : κ) : OrderedMap κ ν :=
  ⟨map.entries.filter fun entry => entry.1 ≠ key, map.sorted.filter _⟩

def filter (keep : κ → ν → Bool) (map : OrderedMap κ ν) : OrderedMap κ ν :=
  ⟨map.entries.filter fun entry => keep entry.1 entry.2, map.sorted.filter _⟩

def mapValues {μ : Type} (f : ν → μ) (map : OrderedMap κ ν) : OrderedMap κ μ :=
  ⟨map.entries.map fun entry => (entry.1, f entry.2), pairwise_map.mpr map.sorted⟩

instance [DecidableEq ν] : DecidableEq (OrderedMap κ ν) := fun left right =>
  decidable_of_iff (left.entries = right.entries) (by cases left; cases right; simp)

def seek (map : OrderedMap κ ν) (key : κ) : List (κ × ν) :=
  map.entries.dropWhile fun entry => entry.1 < key

theorem find?_eq_some_iff (hsorted : entries.Pairwise fun left right => left.1 < right.1) :
    (entries.find? fun entry => entry.1 = key).map snd = some value ↔
      (key, value) ∈ entries := by
  induction entries with
  | nil => simp
  | cons head rest ih =>
    obtain ⟨hhead, hrest⟩ := pairwise_cons.mp hsorted
    obtain ⟨headKey, headValue⟩ := head
    by_cases hkey : headKey = key
    · subst hkey
      have hnot : (headKey, value) ∉ rest := fun hmem =>
        lt_irrefl headKey (hhead (headKey, value) hmem)
      simp only [find?_cons, decide_true, map_some, Option.some.injEq,
        mem_cons, Prod.mk.injEq, true_and, hnot, or_false]
      exact eq_comm
    · have hne : (key, value) ≠ (headKey, headValue) := fun heq =>
        hkey (congrArg fst heq).symm
      simp [hkey, hne, ih hrest]

variable {map : OrderedMap κ ν}

theorem mem_entries_iff : (key, value) ∈ map.entries ↔ map.get key = some value :=
  (find?_eq_some_iff map.sorted).symm

theorem get_eq_none_iff : map.get key = none ↔ ∀ value, (key, value) ∉ map.entries := by
  simp only [mem_entries_iff]
  cases map.get key <;> simp

@[simp] theorem get_empty (key : κ) : (empty : OrderedMap κ ν).get key = none := rfl

@[simp] theorem entries_empty : (empty : OrderedMap κ ν).entries = [] := rfl

theorem find?_insertEntry (entries : List (κ × ν)) (key probe : κ) (value : ν) :
    ((insertEntry key value entries).find? fun entry => entry.1 = probe).map snd =
      if probe = key then some value
      else (entries.find? fun entry => entry.1 = probe).map snd := by
  induction entries with
  | nil =>
    by_cases hprobe : key = probe
    · simp [insertEntry, hprobe]
    · simp [insertEntry, hprobe, Ne.symm hprobe]
  | cons head rest ih =>
    rw [insertEntry]
    by_cases hprobe : probe = key
    · subst hprobe
      rw [if_pos rfl] at ih ⊢
      split_ifs with hlt heq
      · simp
      · simp
      · simp [Ne.symm heq, ih]
    · rw [if_neg hprobe]
      split_ifs with hlt heq
      · simp [Ne.symm hprobe]
      · subst heq
        simp [Ne.symm hprobe]
      · rw [if_neg hprobe] at ih
        by_cases hhead : head.1 = probe
        · simp [hhead]
        · simp [hhead, ih]

theorem get_put (map : OrderedMap κ ν) (key probe : κ) (value : ν) :
    (map.put key value).get probe = if probe = key then some value else map.get probe :=
  find?_insertEntry map.entries key probe value

@[simp] theorem get_put_self (map : OrderedMap κ ν) (key : κ) (value : ν) :
    (map.put key value).get key = some value := by
  simp [get_put]

theorem get_put_of_ne {key probe : κ} (hne : probe ≠ key) :
    (map.put key value).get probe = map.get probe := by
  simp [get_put, hne]

theorem get_erase (map : OrderedMap κ ν) (key probe : κ) :
    (map.erase key).get probe = if probe = key then none else map.get probe := by
  apply ext
  intro value
  rw [← mem_entries_iff, erase, mem_filter, mem_entries_iff]
  by_cases hprobe : probe = key <;> simp [hprobe]

@[simp] theorem get_erase_self (map : OrderedMap κ ν) (key : κ) :
    (map.erase key).get key = none := by
  simp [get_erase]

theorem get_erase_of_ne {key probe : κ} (hne : probe ≠ key) :
    (map.erase key).get probe = map.get probe := by
  simp [get_erase, hne]

theorem get_filter (keep : κ → ν → Bool) (map : OrderedMap κ ν) (key : κ) :
    (map.filter keep).get key = (map.get key).filter (keep key) := by
  apply ext
  intro value
  rw [← mem_entries_iff, filter, mem_filter, mem_entries_iff, Option.filter_eq_some_iff]

theorem keys_nodup (map : OrderedMap κ ν) : (map.entries.map fst).Nodup := by
  rw [List.Nodup, pairwise_map]
  exact map.sorted.imp fun hlt => hlt.ne

variable {pairs : List (κ × ν)}

theorem perm_entries (hnodup : pairs.Nodup)
    (hmem : ∀ key value, (key, value) ∈ pairs ↔ map.get key = some value) :
    map.entries.Perm pairs := by
  rw [perm_ext_iff_of_nodup (List.Nodup.of_map _ map.keys_nodup) hnodup]
  rintro ⟨key, value⟩
  rw [mem_entries_iff, hmem]

theorem ext_get {left right : OrderedMap κ ν} (hget : ∀ key, left.get key = right.get key) :
    left = right := by
  have hperm : left.entries.Perm right.entries := by
    apply perm_entries (List.Nodup.of_map _ right.keys_nodup)
    intro key value
    rw [mem_entries_iff, hget]
  have hentries : left.entries = right.entries :=
    List.Perm.eq_of_pairwise (fun _ _ _ _ hab hba => absurd hab (not_lt.mpr hba.le))
      left.sorted right.sorted hperm
  cases left
  cases right
  congr

def size (map : OrderedMap κ ν) : Nat := map.entries.length

@[simp] theorem size_empty : (empty : OrderedMap κ ν).size = 0 := rfl

theorem erase_of_get_eq_none (hget : map.get key = none) : map.erase key = map := by
  apply ext_get
  intro probe
  rw [get_erase]
  split
  · rename_i heq
    rw [heq, hget]
  · rfl

theorem perm_cons_erase (hget : map.get key = some value) :
    map.entries.Perm ((key, value) :: (map.erase key).entries) := by
  apply perm_entries
  · refine nodup_cons.mpr ⟨?_, List.Nodup.of_map _ (map.erase key).keys_nodup⟩
    rw [mem_entries_iff, get_erase_self]
    simp
  · intro probe found
    rw [mem_cons, mem_entries_iff, get_erase, Prod.mk.injEq]
    by_cases hprobe : probe = key
    · simp [hprobe, hget, eq_comm]
    · simp [hprobe]

theorem size_erase (hget : map.get key = some value) : map.size = (map.erase key).size + 1 :=
  (perm_cons_erase hget).length_eq

theorem size_put (map : OrderedMap κ ν) (key : κ) (value : ν) :
    (map.put key value).size = if map.get key = none then map.size + 1 else map.size := by
  have herase : (map.put key value).erase key = map.erase key := by
    apply ext_get
    intro probe
    simp only [get_erase, get_put]
    split <;> rfl
  rw [size_erase (get_put_self map key value), herase]
  cases hget : map.get key with
  | none => rw [if_pos rfl, erase_of_get_eq_none hget]
  | some old => rw [if_neg (by simp), size_erase hget]

theorem get_mapValues (f : ν → μ) (map : OrderedMap κ ν) (key : κ) :
    (map.mapValues f).get key = (map.get key).map f := by
  simp only [get, mapValues, find?_map, Option.map_map]
  rfl

def putAll (map : OrderedMap κ ν) (pairs : List (κ × ν)) : OrderedMap κ ν :=
  pairs.foldl (fun map pair => map.put pair.1 pair.2) map

theorem get_putAll (map : OrderedMap κ ν) (pairs : List (κ × ν)) (key : κ) :
    (map.putAll pairs).get key =
      (((pairs.filter fun pair => pair.1 = key).map snd).getLast?).or (map.get key) := by
  induction pairs generalizing map with
  | nil => simp [putAll]
  | cons pair pairs ih =>
    have hrest := ih (map.put pair.1 pair.2)
    rw [putAll] at hrest ⊢
    rw [foldl_cons, hrest, get_put]
    by_cases hkey : pair.1 = key
    · subst hkey
      rw [filter_cons_of_pos (by simp), map_cons, getLast?_cons, if_pos rfl]
      cases ((pairs.filter fun other => other.1 = pair.1).map snd).getLast? <;> rfl
    · rw [filter_cons_of_neg (by simpa using hkey), if_neg (Ne.symm hkey)]

theorem get_putAll_of_not_mem (hkey : key ∉ pairs.map fst) :
    (map.putAll pairs).get key = map.get key := by
  have hfilter : (pairs.filter fun pair => pair.1 = key) = [] := by
    rw [filter_eq_nil_iff]
    intro pair hpair heq
    exact hkey (mem_map.mpr ⟨pair, hpair, of_decide_eq_true heq⟩)
  rw [get_putAll, hfilter, map_nil, getLast?_nil, none_or]

theorem putAll_append (map : OrderedMap κ ν) (left right : List (κ × ν)) :
    map.putAll (left ++ right) = (map.putAll left).putAll right := foldl_append

theorem get_putAll_of_mem {pair : κ × ν} (hnodup : (pairs.map fst).Nodup)
    (hpair : pair ∈ pairs) : (map.putAll pairs).get pair.1 = some pair.2 := by
  obtain ⟨before, after, rfl⟩ := append_of_mem hpair
  rw [putAll_append]
  have hfresh : pair.1 ∉ after.map fst := by
    rw [map_append, map_cons] at hnodup
    exact (nodup_cons.mp hnodup.of_append_right).1
  exact (get_putAll_of_not_mem hfresh).trans (get_put_self _ _ _)

theorem putAll_entries_eq_iff (map other : OrderedMap κ ν) :
    map.putAll other.entries = other ↔ ∀ key, map.get key ≠ none → other.get key ≠ none := by
  have hfound {key : κ} (hkey : other.get key ≠ none) :
      (map.putAll other.entries).get key = other.get key := by
    obtain ⟨value, hvalue⟩ := Option.ne_none_iff_exists'.mp hkey
    rw [hvalue]
    exact @get_putAll_of_mem _ _ _ map other.entries (key, value) other.keys_nodup
      (mem_entries_iff.mpr hvalue)
  have hmissing {key : κ} (hkey : other.get key = none) :
      (map.putAll other.entries).get key = map.get key := by
    refine get_putAll_of_not_mem fun hmem => ?_
    obtain ⟨entry, hentry, rfl⟩ := mem_map.mp hmem
    have hsome : other.get entry.1 = some entry.2 := mem_entries_iff.mp hentry
    rw [hkey] at hsome
    cases hsome
  constructor
  · intro heq key hkey hnone
    rw [← hmissing hnone, heq] at hkey
    exact hkey hnone
  · intro hcovers
    refine ext_get fun key => ?_
    by_cases hkey : other.get key = none
    · rw [hmissing hkey, hkey]
      by_contra hother
      exact hcovers key hother hkey
    · exact hfound hkey

theorem putAll_eq_empty_iff (map : OrderedMap κ ν) (pairs : List (κ × ν)) :
    map.putAll pairs = empty.putAll pairs ↔
      ∀ key, map.get key ≠ none → ∃ pair ∈ pairs, pair.1 = key := by
  have hmissing (key : κ) :
      ((pairs.filter fun pair => pair.1 = key).map snd).getLast? = none ↔
        ¬∃ pair ∈ pairs, pair.1 = key := by
    rw [getLast?_eq_none_iff, map_eq_nil_iff, filter_eq_nil_iff]
    simp only [decide_eq_true_eq, not_exists, not_and]
  constructor
  · intro heq key hget
    by_contra hnone
    have hkey := congrArg (fun filled => get filled key) heq
    simp only [get_putAll, (hmissing key).mpr hnone, none_or, get_empty] at hkey
    exact hget hkey
  · intro hcovers
    refine ext_get fun key => ?_
    rw [get_putAll, get_putAll, get_empty]
    cases hlast : ((pairs.filter fun pair => pair.1 = key).map snd).getLast? with
    | some value => rfl
    | none =>
      by_contra hget
      exact (hmissing key).mp hlast (hcovers key hget)

def ofPairs (pairs : List (κ × ν)) : OrderedMap κ ν :=
  pairs.foldl (fun map pair => map.put pair.1 pair.2) empty

theorem get_foldl_put (hnodup : (pairs.map fst).Nodup) (map : OrderedMap κ ν)
    (key : κ) (value : ν) :
    (pairs.foldl (fun map pair => map.put pair.1 pair.2) map).get key = some value ↔
      (key, value) ∈ pairs ∨ key ∉ pairs.map fst ∧ map.get key = some value := by
  induction pairs generalizing map with
  | nil => simp
  | cons pair pairs ih =>
    obtain ⟨hfresh, hrest⟩ := nodup_cons.mp hnodup
    rw [foldl_cons, ih hrest, get_put, map_cons, mem_cons, mem_cons]
    by_cases hkey : key = pair.1
    · subst hkey
      have hnot : (pair.1, value) ∉ pairs := fun hmem =>
        hfresh (mem_map.mpr ⟨(pair.1, value), hmem, rfl⟩)
      obtain ⟨first, second⟩ := pair
      simp [hnot, hfresh, eq_comm]
    · have hne : (key, value) ≠ pair := fun heq => hkey (congrArg fst heq)
      simp [hkey, hne]

theorem ofPairs_eq (hnodup : (pairs.map fst).Nodup)
    (hmem : ∀ key value, (key, value) ∈ pairs ↔ map.get key = some value) :
    ofPairs pairs = map := by
  apply ext_get
  intro key
  apply ext
  intro value
  rw [ofPairs, get_foldl_put hnodup, hmem]
  simp

theorem mapValues_ofPairs (f : ν → μ) (pairs : List (κ × ν)) :
    (ofPairs pairs).mapValues f = ofPairs (pairs.map fun pair => (pair.1, f pair.2)) := by
  have hput (map : OrderedMap κ ν) (pair : κ × ν) :
      (map.put pair.1 pair.2).mapValues f = (map.mapValues f).put pair.1 (f pair.2) := by
    apply ext_get
    intro probe
    simp only [get_mapValues, get_put]
    split <;> rfl
  have hfold (map : OrderedMap κ ν) :
      (pairs.foldl (fun map pair => map.put pair.1 pair.2) map).mapValues f =
        (pairs.map fun pair => (pair.1, f pair.2)).foldl
          (fun map pair => map.put pair.1 pair.2) (map.mapValues f) := by
    induction pairs generalizing map with
    | nil => rfl
    | cons pair pairs ih => rw [foldl_cons, ih, hput, map_cons, foldl_cons]
  exact hfold empty

/-- A loop that starts at `low` and runs while `inside` holds visits exactly
the entries inside, when `inside` is an initial segment of what follows `low`. -/
theorem takeWhile_seek_eq_filter (map : OrderedMap κ ν) (low : κ) (inside : κ → Bool)
    (hlow : ∀ key, inside key → low ≤ key)
    (hdown : ∀ left right, low ≤ left → left ≤ right → inside right → inside left) :
    (map.seek low).takeWhile (fun entry => inside entry.1) =
      map.entries.filter fun entry => inside entry.1 := by
  obtain ⟨entries, hsorted⟩ := map
  simp only [seek]
  induction entries with
  | nil => rfl
  | cons head rest ih =>
    obtain ⟨hhead, hrest⟩ := pairwise_cons.mp hsorted
    by_cases hbefore : head.1 < low
    · have hout : ¬inside head.1 := fun hin => absurd (hlow _ hin) (not_le.mpr hbefore)
      rw [dropWhile_cons_of_pos (by simpa using hbefore)]
      simpa only [filter_cons, hout, Bool.false_eq_true, ↓reduceIte] using ih hrest
    · rw [dropWhile_cons_of_neg (by simpa using hbefore)]
      have hstart : low ≤ head.1 := not_lt.mp hbefore
      by_cases hin : inside head.1
      · have hskip : rest.dropWhile (fun entry => entry.1 < low) = rest := by
          cases rest with
          | nil => rfl
          | cons next tail =>
            have hnext : ¬next.1 < low := not_lt.mpr (hstart.trans (hhead next (by simp)).le)
            rw [dropWhile_cons_of_neg (by simpa using hnext)]
        have htail := ih hrest
        rw [hskip] at htail
        simp only [takeWhile_cons, filter_cons, hin, ↓reduceIte, htail]
      · simp only [takeWhile_cons, filter_cons, hin, Bool.false_eq_true, ↓reduceIte]
        rw [eq_comm, filter_eq_nil_iff]
        intro entry hmem hinside
        exact hin (hdown head.1 entry.1 hstart (hhead entry hmem).le hinside)

theorem takeWhile_between (map : OrderedMap κ ν) (low high : κ) :
    ((map.seek low).takeWhile fun entry => low ≤ entry.1 ∧ entry.1 ≤ high) =
      map.entries.filter fun entry => low ≤ entry.1 ∧ entry.1 ≤ high := by
  apply takeWhile_seek_eq_filter map low fun key => low ≤ key ∧ key ≤ high
  · intro key hkey
    exact (of_decide_eq_true hkey).1
  · intro left right hlow hle hright
    exact decide_eq_true ⟨hlow, hle.trans (of_decide_eq_true hright).2⟩

theorem takeWhile_from (map : OrderedMap κ ν) (low : κ) :
    ((map.seek low).takeWhile fun entry => low ≤ entry.1) =
      map.entries.filter fun entry => low ≤ entry.1 := by
  apply takeWhile_seek_eq_filter map low fun key => low ≤ key
  · intro key hkey
    exact of_decide_eq_true hkey
  · intro left right hlow _ _
    exact decide_eq_true hlow

variable {ι : Type}

/-- The map holds `content`, each index at its place, and nothing else. -/
structure Encodes (place : ι → κ) (content : ι → Option ν) (map : OrderedMap κ ν) : Prop where
  get_place : ∀ index, map.get (place index) = content index
  placed : ∀ key value, map.get key = some value → ∃ index, key = place index

namespace Encodes

variable {place : ι → κ}

theorem empty : Encodes place (fun _ => none) (OrderedMap.empty : OrderedMap κ ν) :=
  ⟨fun _ => rfl, fun _ _ hget => by simp at hget⟩

theorem congr {content content' : ι → Option ν} (hencodes : Encodes place content map)
    (hcontent : content = content') :
    Encodes place content' map := hcontent ▸ hencodes

theorem eq_empty (hencodes : Encodes place (fun _ => none) map) : map = OrderedMap.empty := by
  apply ext_get
  intro key
  rw [get_empty, get_eq_none_iff]
  intro value hmem
  rw [mem_entries_iff] at hmem
  obtain ⟨index, rfl⟩ := hencodes.placed key value hmem
  rw [hencodes.get_place] at hmem
  cases hmem

variable [DecidableEq ι] {place : ι → κ} {content : ι → Option ν} {map : OrderedMap κ ν}

theorem put (hinjective : Function.Injective place) (hencodes : Encodes place content map)
    (index : ι) (value : ν) :
    Encodes place (update content index (some value)) (map.put (place index) value) := by
  constructor
  · intro probe
    simp only [get_put, update_apply, hinjective.eq_iff, hencodes.get_place]
  · intro key found hget
    rw [get_put] at hget
    split at hget
    · rename_i heq
      exact ⟨index, heq⟩
    · exact hencodes.placed key found hget

theorem erase (hinjective : Function.Injective place) (hencodes : Encodes place content map)
    (index : ι) :
    Encodes place (update content index none) (map.erase (place index)) := by
  constructor
  · intro probe
    simp only [get_erase, update_apply, hinjective.eq_iff, hencodes.get_place]
  · intro key found hget
    rw [get_erase] at hget
    split at hget
    · cases hget
    · exact hencodes.placed key found hget

omit [DecidableEq ι] in
theorem exists_pairs {μ : Type} {source : ι → Option μ} {encode : μ → ν}
    (hinjective : Function.Injective place)
    (hencodes : Encodes place (fun index => (source index).map encode) map) :
    ∃ pairs : List (ι × μ), map.entries = pairs.map (fun pair => (place pair.1, encode pair.2)) ∧
      (pairs.map fst).Nodup ∧
      ∀ index value, (index, value) ∈ pairs ↔ source index = some value := by
  have hrange : map.entries ∈ Set.range (List.map
      fun pair : { pair : ι × μ // source pair.1 = some pair.2 } =>
        (place pair.1.1, encode pair.1.2)) := by
    rw [Set.range_list_map]
    rintro ⟨key, value⟩ hmem
    rw [mem_entries_iff] at hmem
    obtain ⟨index, rfl⟩ := hencodes.placed key value hmem
    rw [hencodes.get_place, Option.map_eq_some_iff] at hmem
    obtain ⟨origin, hsource, rfl⟩ := hmem
    exact ⟨⟨(index, origin), hsource⟩, rfl⟩
  obtain ⟨found, hfound⟩ := hrange
  refine ⟨found.map Subtype.val, ?_, ?_, ?_⟩
  · rw [← hfound, map_map]
    rfl
  · have hnodup := map.keys_nodup
    rw [← hfound, map_map] at hnodup
    apply List.Nodup.of_map place
    rwa [map_map, map_map]
  · intro index value
    constructor
    · intro hmem
      obtain ⟨⟨pair, hpair⟩, -, rfl⟩ := mem_map.mp hmem
      exact hpair
    · intro hsource
      have hget : map.get (place index) = some (encode value) := by
        rw [hencodes.get_place, hsource, map_some]
      rw [← mem_entries_iff, ← hfound] at hget
      obtain ⟨⟨⟨other, origin⟩, horigin⟩, hmem, heq⟩ := mem_map.mp hget
      have hsame : other = index := hinjective (Prod.mk.inj heq).1
      subst hsame
      have hvalue : origin = value := Option.some.inj (horigin.symm.trans hsource)
      subst hvalue
      exact mem_map.mpr ⟨_, hmem, rfl⟩

end Encodes

end

variable {α ν : Type} [LinearOrder α]

theorem le_append (front rest : List α) : front ≤ front ++ rest := by
  refine not_lt.mp fun hlt => ?_
  induction front with
  | nil => exact absurd hlt (not_lt_nil rest)
  | cons head front ih =>
    rw [cons_append, cons_lt_cons_iff] at hlt
    rcases hlt with hlt | ⟨-, hlt⟩
    · exact lt_irrefl _ hlt
    · exact ih hlt

variable (front left right : List α)

theorem append_lt_append_iff : front ++ left < front ++ right ↔ left < right := by
  induction front with
  | nil => rfl
  | cons head front ih => simp [ih]

theorem isPrefix_of_between {front low high : List α} (hlow : front ≤ low)
    (hhigh : low ≤ high) (hfront : front <+: high) : front <+: low := by
  induction front generalizing low high with
  | nil => exact nil_prefix
  | cons head front ih =>
    obtain ⟨rest, rfl⟩ := hfront
    cases low with
    | nil => exact absurd hlow (not_le.mpr (nil_lt_cons head front))
    | cons first low =>
      have hbelow := not_lt.mpr hlow
      have habove := not_lt.mpr hhigh
      rw [cons_lt_cons_iff, not_or, not_and] at hbelow
      rw [cons_append, cons_lt_cons_iff, not_or, not_and] at habove
      have hsame : first = head := le_antisymm (not_lt.mp habove.1) (not_lt.mp hbelow.1)
      subst hsame
      have hrest : front <+: low :=
        ih (not_lt.mp (hbelow.2 rfl)) (not_lt.mp (habove.2 rfl)) (prefix_append _ _)
      obtain ⟨tail, rfl⟩ := hrest
      exact ⟨tail, rfl⟩

/-- The entries whose key extends `front`, in key order. -/
def scan (map : OrderedMap (List α) ν) (front : List α) : List (List α × ν) :=
  (map.seek front).takeWhile fun entry => front.isPrefixOf entry.1

theorem scan_eq_filter (map : OrderedMap (List α) ν) (front : List α) :
    map.scan front = map.entries.filter fun entry => front.isPrefixOf entry.1 := by
  apply takeWhile_seek_eq_filter
  · intro key hkey
    obtain ⟨rest, rfl⟩ := isPrefixOf_iff_prefix.mp hkey
    exact le_append front rest
  · intro left right hlow hle hright
    rw [ isPrefixOf_iff_prefix] at hright ⊢
    exact isPrefix_of_between hlow hle hright

variable {map : OrderedMap (List α) ν}

theorem mem_scan_iff {front : List α} {entry : List α × ν} :
    entry ∈ map.scan front ↔ map.get entry.1 = some entry.2 ∧ front <+: entry.1 := by
  rw [scan_eq_filter, mem_filter, ← mem_entries_iff, isPrefixOf_iff_prefix]

/-- The submap below `front`, with `front` removed from its keys. -/
def under (map : OrderedMap (List α) ν) (front : List α) : OrderedMap (List α) ν where
  entries := (map.scan front).map fun entry => (entry.1.drop front.length, entry.2)
  sorted := by
    rw [pairwise_map, scan_eq_filter]
    refine (map.sorted.filter _).imp_of_mem ?_
    intro left right hleft hright hlt
    obtain ⟨leftRest, hleftEq⟩ := isPrefixOf_iff_prefix.mp (mem_filter.mp hleft).2
    obtain ⟨rightRest, hrightEq⟩ := isPrefixOf_iff_prefix.mp (mem_filter.mp hright).2
    rw [← hleftEq, ← hrightEq, append_lt_append_iff] at hlt
    rw [← hleftEq, ← hrightEq, drop_left, drop_left]
    exact hlt

variable (map)

theorem get_under (front rest : List α) : (map.under front).get rest = map.get (front ++ rest) := by
  apply ext
  intro value
  rw [← mem_entries_iff, ← mem_entries_iff]
  simp only [under, mem_map, Prod.mk.injEq]
  constructor
  · rintro ⟨⟨key, found⟩, hmem, hdrop, rfl⟩
    obtain ⟨hget, tail, rfl⟩ := mem_scan_iff.mp hmem
    rw [drop_left] at hdrop
    subst hdrop
    exact mem_entries_iff.mpr hget
  · intro hmem
    refine ⟨(front ++ rest, value), mem_scan_iff.mpr ⟨mem_entries_iff.mp hmem, ?_⟩, ?_, rfl⟩
    · exact prefix_append _ _
    · exact drop_left

theorem scan_eq_under (front : List α) :
    map.scan front = (map.under front).entries.map fun entry => (front ++ entry.1, entry.2) := by
  simp only [under, map_map]
  symm
  calc
    (map.scan front).map _ = (map.scan front).map id := by
      apply map_congr_left
      rintro ⟨key, value⟩ hmem
      obtain ⟨-, rest, rfl⟩ := mem_scan_iff.mp hmem
      simp
    _ = map.scan front := map_id _

theorem under_put_append (front rest : List α) (value : ν) :
    (map.put (front ++ rest) value).under front = (map.under front).put rest value := by
  apply ext_get
  intro probe
  simp [get_under, get_put]

variable {front key : List α}

variable {map} in
theorem under_put_of_not_prefix {value : ν} (hfront : ¬front <+: key) :
    (map.put key value).under front = map.under front := by
  apply ext_get
  intro probe
  rw [get_under, get_under, get_put_of_ne]
  rintro rfl
  exact hfront (prefix_append _ _)

theorem under_erase_append (front rest : List α) :
    (map.erase (front ++ rest)).under front = (map.under front).erase rest := by
  apply ext_get
  intro probe
  simp [get_under, get_erase]

variable {map} in
theorem under_erase_of_not_prefix (hfront : ¬front <+: key) :
    (map.erase key).under front = map.under front := by
  apply ext_get
  intro probe
  rw [get_under, get_under, get_erase_of_ne]
  rintro rfl
  exact hfront (prefix_append _ _)

theorem append_le_append_iff : front ++ left ≤ front ++ right ↔ left ≤ right := by
  rw [← not_lt, ← not_lt, append_lt_append_iff]

theorem scan_filter (front : List α) (inside : List α → Bool)
    (hinside : ∀ key, inside key → front <+: key) :
    map.entries.filter (fun entry => inside entry.1) =
      ((map.under front).entries.filter fun entry => inside (front ++ entry.1)).map
        fun entry => (front ++ entry.1, entry.2) := by
  have hscan : map.entries.filter (fun entry => inside entry.1) =
      (map.scan front).filter fun entry => inside entry.1 := by
    rw [scan_eq_filter, filter_filter]
    apply filter_congr
    intro entry _
    by_cases hentry : inside entry.1
    · simp [hentry, isPrefixOf_iff_prefix.mpr (hinside _ hentry)]
    · simp [hentry]
  rw [hscan, scan_eq_under, filter_map]
  rfl

theorem filter_between_append (front low high : List α) :
    (map.entries.filter fun entry => front ++ low ≤ entry.1 ∧ entry.1 ≤ front ++ high) =
      ((map.under front).entries.filter fun entry => low ≤ entry.1 ∧ entry.1 ≤ high).map
        fun entry => (front ++ entry.1, entry.2) := by
  rw [scan_filter map front fun key => front ++ low ≤ key ∧ key ≤ front ++ high]
  · simp only [append_le_append_iff]
  · intro key hkey
    obtain ⟨hlow, hhigh⟩ := of_decide_eq_true hkey
    exact isPrefix_of_between ((le_append front low).trans hlow) hhigh (prefix_append _ _)

theorem filter_from_append (front low : List α) :
    (map.entries.filter fun entry => front ++ low ≤ entry.1) =
      ((map.under front).entries.filter fun entry => low ≤ entry.1).map
        (fun entry => (front ++ entry.1, entry.2)) ++
      map.entries.filter fun entry => front ++ low ≤ entry.1 ∧ ¬front <+: entry.1 := by
  have hinner := scan_filter map front (fun key => front ++ low ≤ key ∧ front <+: key)
    fun key hkey => (of_decide_eq_true hkey).2
  simp only [append_le_append_iff, prefix_append, and_true] at hinner
  rw [← hinner]
  apply List.Perm.eq_of_pairwise
    (fun left right _ _ hlt hgt => absurd hlt (not_lt.mpr (le_of_lt hgt))) (map.sorted.filter _)
  · rw [pairwise_append]
    refine ⟨map.sorted.filter _, map.sorted.filter _, ?_⟩
    intro left hleft right hright
    simp only [mem_filter, decide_eq_true_eq] at hleft hright
    by_contra hge
    exact hright.2.2 (isPrefix_of_between ((le_append front low).trans hright.2.1)
      (not_lt.mp hge) hleft.2.2)
  · have hsplit := filter_append_perm (fun entry : List α × ν => decide (front <+: entry.1))
      (map.entries.filter fun entry => front ++ low ≤ entry.1)
    rw [filter_filter, filter_filter] at hsplit
    refine hsplit.symm.trans (List.Perm.of_eq ?_)
    congr 1
    all_goals
      apply filter_congr
      intro entry _
      simp [Bool.and_comm]

end OrderedMap
