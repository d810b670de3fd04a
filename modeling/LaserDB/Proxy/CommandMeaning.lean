import LaserDB.Proxy.SingleReply

/-!
# What commands of the proxy mean

The proxy collects arguments in maps that keep the first value, leaves exclusive bounds out of a
removal, and counts in 64-bit milliseconds.
-/

namespace LaserDB.RedisProtocol

open List
open Prod (fst)

section
variable {κ ν : Type} [DecidableEq κ] {insert : κ × ν → List (κ × ν) → List (κ × ν)}
  {valid : List (κ × ν) → Prop}

def KeepsLast (entries kvs : List (κ × ν)) : Prop :=
  ∀ key value, (key, value) ∈ kvs ↔ entries.reverse.lookup key = some value

def FirstIsLast (entries : List (κ × ν)) : Prop :=
  ∀ key, entries.lookup key = entries.reverse.lookup key

/-- What `insert` of a map does to a list of entries. -/
def Inserts (insert : κ × ν → List (κ × ν) → List (κ × ν)) (valid : List (κ × ν) → Prop) : Prop :=
  ∀ entry kvs, valid kvs → valid (insert entry kvs) ∧
    ∀ other, other ∈ insert entry kvs ↔ other ∈ kvs ∨ other = entry ∧ entry.1 ∉ kvs.map Prod.fst

theorem Inserts.mem_foldl (hinsert : Inserts insert valid) (entries : List (κ × ν))
    {kvs : List (κ × ν)} (hvalid : valid kvs) (key : κ) (value : ν) :
    (key, value) ∈ entries.foldl (fun kvs entry => insert entry kvs) kvs ↔
      (key, value) ∈ kvs ∨ key ∉ kvs.map fst ∧ entries.lookup key = some value := by
  induction entries generalizing kvs with
  | nil => simp
  | cons entry entries ih =>
    obtain ⟨hnext, hmem⟩ := hinsert entry kvs hvalid
    have hkeys : key ∈ (insert entry kvs).map fst ↔ key ∈ kvs.map fst ∨ key = entry.1 := by
      simp only [mem_map, hmem]
      grind
    rw [foldl_cons, ih hnext, hkeys, hmem, lookup_cons]
    by_cases hkey : key = entry.1
    · subst hkey
      simp only [beq_self_eq_true, or_true, not_true, false_and, or_false]
      grind
    · simp only [beq_false_of_ne hkey]
      grind

theorem Inserts.keepsLast_iff (hinsert : Inserts insert valid) (hvalid : valid [])
    (entries : List (κ × ν)) :
    KeepsLast entries (entries.foldl (fun kvs entry => insert entry kvs) []) ↔
      FirstIsLast entries := by
  refine forall_congr' fun key => ?_
  simp only [hinsert.mem_foldl entries hvalid, not_mem_nil, map_nil, not_false_iff,
    true_and, false_or]
  exact Option.ext_iff.symm

theorem inserts_mapInsert :
    Inserts (fun entry kvs => mapInsert entry.1 entry.2 kvs)
      fun kvs => (kvs.map fst).Pairwise (· < ·) := by
  rintro ⟨key, value⟩ kvs hsorted
  induction kvs with
  | nil => simp [mapInsert]
  | cons entry kvs ih =>
    rw [map_cons, pairwise_cons] at hsorted
    obtain ⟨hnext, hmem⟩ := ih hsorted.2
    simp only [mapInsert]
    split_ifs with hsame hless
    · subst hsame
      simpa using hsorted
    · have hbelow : ∀ other ∈ entry.1 :: kvs.map fst, key < other :=
        forall_mem_cons.mpr ⟨hless, fun other hother => hless.trans (hsorted.1 other hother)⟩
      have hkey : key ∉ entry.1 :: kvs.map fst := fun hkey => lt_irrefl _ (hbelow key hkey)
      refine ⟨pairwise_cons.mpr ⟨hbelow, pairwise_cons.mpr hsorted⟩, fun other => ?_⟩
      rw [mem_cons, map_cons, and_iff_left hkey, or_comm]
    · have hmore : entry.1 < key := lt_of_le_of_ne (not_lt.mp hless) hsame
      refine ⟨pairwise_cons.mpr ⟨fun other hother => ?_, hnext⟩, fun other => ?_⟩
      · obtain ⟨pair, hpair, rfl⟩ := mem_map.mp hother
        rcases (hmem pair).mp hpair with hold | ⟨rfl, -⟩
        · exact hsorted.1 _ (mem_map_of_mem hold)
        · exact hmore
      · rw [mem_cons, mem_cons, hmem, map_cons, mem_cons, not_or, or_assoc]
        simp [Ne.symm hsame]

/-- The members and scores of `zadd` up to the first score that is not a number. -/
def readable (doubles : Doubles ν) : List (Bytes × Bytes) → List (Bytes × ν)
  | [] => []
  | (score, member) :: rest =>
    match doubles.tryTo score with
    | none => []
    | some value => (member, value) :: readable doubles rest

theorem inserts_absent : Inserts (fun entry (kvs : List (Bytes × ν)) =>
      if (kvs.map fst).contains entry.1 then kvs else kvs ++ [entry]) fun _ => True := by
  intro entry kvs _
  refine ⟨trivial, fun other => ?_⟩
  dsimp only
  split_ifs with hfound
  · simp [contains_iff_mem.mp hfound]
  · rw [mem_append, mem_singleton, and_iff_left fun hmem => hfound (contains_iff_mem.mpr hmem)]

theorem readScores_eq (doubles : Doubles ν) (entries : List (Bytes × Bytes))
    (memberScores : List (Bytes × ν)) :
    (readScores doubles entries memberScores).1 = (readable doubles entries).foldl
      (fun kvs entry => if (kvs.map fst).contains entry.1 then kvs else kvs ++ [entry])
      memberScores := by
  induction entries generalizing memberScores with
  | nil => rfl
  | cons entry entries ih =>
    simp only [readScores, readable]
    cases doubles.tryTo entry.1 with
    | none => rfl
    | some value => exact ih _

/-- A store without the keys of a request that takes nothing but the one list. -/
def takingOnly (backend : Backend ν) (kvs : List (Bytes × Bytes)) : Backend ν :=
  { backend with
    mget := fun keys => some (keys.map fun _ => text "$-1\r\n")
    mset := fun given => if given = kvs then some () else none
    hmset := fun _ given => if given = kvs then some () else none }

def takingScores [DecidableEq ν] (backend : Backend ν) (scores : List (Bytes × ν)) : Backend ν :=
  { backend with zadd := fun _ given => if given = scores then some 0 else none }

/-- The command passes to the backend what a store has to take for the command to change it. -/
def Passes (store : Backend ν) (doubles : Doubles ν) (name : Command) (msg : Bytes)
    (info : List Bytes) : Prop :=
  ∃ callback, .change callback ∈ execute (getOrCreateRedisProtocol store doubles) name msg info

theorem passes_iff {store : Backend ν} {doubles : Doubles ν} {name : Command} {msg : Bytes}
    {info : List Bytes} {outcome : Option β} (callback : Callback) (success : β → Reply)
    (failure : Reply) (front : List Action) (hwrites : callback.writes = true)
    (hfront : ∀ other, .change other ∉ front)
    (hexecute : execute (getOrCreateRedisProtocol store doubles) name msg info =
      front ++ call (getOrCreateRedisProtocol store doubles) callback outcome
        (answer success failure)) :
    Passes store doubles name msg info ↔ outcome.isSome := by
  rw [Passes, hexecute]
  cases outcome <;> simp [call, getOrCreateRedisProtocol, hwrites, answer, hfront]

theorem isSome_taken_iff {γ : Type} [DecidableEq γ] (given kvs : γ) (result : β) :
    (if given = kvs then some result else none).isSome ↔ kvs = given := by
  split <;> simp_all [eq_comm]

/-- Of a repeated key the value that is passed on is the first one. -/
theorem repeated_last_iff [DecidableEq ν] (backend : Backend ν) (doubles : Doubles ν) (msg : Bytes)
    (info : List Bytes) :
    (3 ≤ info.length → info.length % 2 = 1 → ∀ name ∈ [Command.mset, .msetnx],
      (∀ kvs, Passes (takingOnly backend kvs) doubles name msg info ↔
        kvs = toMap (pairs (info.drop 1))) ∧
      (KeepsLast (pairs (info.drop 1)) (toMap (pairs (info.drop 1))) ↔
        FirstIsLast (pairs (info.drop 1)))) ∧
    (4 ≤ info.length → info.length % 2 = 0 →
      (∀ kvs, Passes (takingOnly backend kvs) doubles .hmset msg info ↔
        kvs = toMap (pairs (info.drop 2))) ∧
      (KeepsLast (pairs (info.drop 2)) (toMap (pairs (info.drop 2))) ↔
        FirstIsLast (pairs (info.drop 2))) ∧
      (∀ scores, Passes (takingScores backend scores) doubles .zadd msg info ↔
        scores = (readScores doubles (pairs (info.drop 2)) []).1) ∧
      (KeepsLast (readable doubles (pairs (info.drop 2)))
          (readScores doubles (pairs (info.drop 2)) []).1 ↔
        FirstIsLast (readable doubles (pairs (info.drop 2))))) := by
  have hmap (entries : List (Bytes × Bytes)) :
      KeepsLast entries (toMap entries) ↔ FirstIsLast entries :=
    inserts_mapInsert.keepsLast_iff Pairwise.nil entries
  have haccepted (hleast : 4 ≤ info.length) (heven : info.length % 2 = 0) :
      (decide (4 ≤ info.length) && info.length % 2 == 0) = true := by
    simp [hleast, heven]
  refine ⟨fun hleast hodd name hname => ⟨fun kvs => ?_, hmap _⟩,
    fun hleast heven => ⟨fun kvs => ?_, hmap _, fun scores => ?_, ?_⟩⟩
  · have harguments : (decide (3 ≤ info.length) && info.length % 2 == 1) = true := by
      simp [hleast, hodd]
    rw [← isSome_taken_iff (toMap (pairs (info.drop 1))) kvs ()]
    fin_cases hname
    · refine passes_iff .mset (fun _ => .ok) .msetFailed [] rfl (fun _ => not_mem_nil) ?_
      simp only [execute, withArguments, harguments]
      rfl
    · refine passes_iff .mset (fun _ => .integer 1) .msetFailed [] rfl (fun _ => not_mem_nil) ?_
      simp only [execute, withArguments, harguments, msetnxCmd, takingOnly]
      simp [whenRegistered, call, getOrCreateRedisProtocol, Callback.writes]
  · have harguments := haccepted hleast heven
    rw [← isSome_taken_iff (toMap (pairs (info.drop 2))) kvs ()]
    refine passes_iff .hmset (fun _ => .ok) .hmsetFailed [] rfl (fun _ => not_mem_nil) ?_
    simp only [execute, withArguments, harguments]
    rfl
  · have harguments := haccepted hleast heven
    rw [← isSome_taken_iff (readScores doubles (pairs (info.drop 2)) []).1 scores (0 : UInt32)]
    refine passes_iff .zadd .count .zaddFailed
      (if (readScores doubles (pairs (info.drop 2)) []).2 then [.write .zaddValueTypeError] else [])
      rfl ?_ ?_
    · intro other
      split <;> simp
    · simp only [execute, withArguments, harguments]
      rfl
  · rw [readScores_eq]
    exact inserts_absent.keepsLast_iff trivial _

/-- `mset k 1 k 2` -/
theorem mset_keeps_first :
    toMap (pairs [text "k", text "1", text "k", text "2"]) = [(text "k", text "1")] ∧
    ¬ KeepsLast (pairs [text "k", text "1", text "k", text "2"]) [(text "k", text "1")] := by
  refine ⟨by decide, fun hlast => ?_⟩
  have hvalue := (hlast (text "k") (text "1")).mp mem_cons_self
  exact absurd hvalue (by decide)

end

section
variable {δ : Type} [LinearOrder δ]

def within (content : List (Bytes × δ)) (lower upper : δ) : List (Bytes × δ) :=
  content.filter fun entry => lower ≤ entry.2 ∧ entry.2 ≤ upper

/-- The range calls of the backend act on the inclusive range. -/
structure RangesExact (backend : Backend δ) (doubles : Doubles δ) (key : Bytes)
    (content : List (Bytes × δ)) : Prop where
  greater : ∀ left right, doubles.greater left right = decide (right < left)
  equal : ∀ left right, doubles.equal left right = decide (left = right)
  lists : ∀ lower upper, backend.zrangebyscore key lower upper = some (within content lower upper)
  removes : ∀ lower upper, backend.zremrangebyscore key lower upper =
    some (UInt32.ofNat (within content lower upper).length)

def listed : List Action → List Bytes
  | [.write (.scoreMembers _ entries)] => entries
  | _ => []

/-- No score is at a bound that is exclusive. -/
def OffBounds (lower upper : δ × Bool) (entries : List (Bytes × δ)) : Prop :=
  ∀ entry ∈ entries, (lower.2 = true ∨ lower.1 ≠ entry.2) ∧ (upper.2 = true ∨ upper.1 ≠ entry.2)

variable {backend : Backend δ} {doubles : Doubles δ} {key strMin strMax : Bytes}
  {content : List (Bytes × δ)} {lower upper : δ × Bool}

theorem listed_scores (hequal : ∀ left right, doubles.equal left right = decide (left = right))
    (values : List (Bytes × δ)) (hlength : values.length < 2 ^ 32) :
    listed (answer id .zrangebyscoreEmptySet
        (appendScoreMember doubles values false lower upper)) = values.map fst ↔
      OffBounds lower upper values := by
  cases values with
  | nil => exact iff_of_true rfl nofun
  | cons first rest =>
    obtain ⟨last, hlast⟩ := Option.isSome_iff_exists.mp (getLast?_isSome.mpr (cons_ne_nil first rest))
    let excluded (bound : δ × Bool) (score : δ) : Bool := !bound.2 && doubles.equal bound.1 score
    let off (value : Bytes × δ) : Bool := !(excluded lower value.2 || excluded upper value.2)
    have hoff : OffBounds lower upper (first :: rest) ↔ ∀ value ∈ first :: rest, off value = true :=
      forall₂_congr fun value _ => by simp [off, excluded, hequal]
    let counted := (first :: rest).length % 2 ^ 32
    let least := if excluded lower first.2 then decremented counted else counted
    let size := if excluded upper last.2 then decremented least else least
    have hreply : appendScoreMember doubles (first :: rest) false lower upper =
        if size = 0 ∨ (first :: rest).filter off = [] then none
        else some (.scoreMembers size (((first :: rest).filter off).flatMap fun value =>
          [value.1])) := by
      rw [appendScoreMember, hlast]
      rfl
    rw [hoff, hreply, ← map_eq_flatMap]
    constructor
    · intro hlisted
      split at hlisted
      · cases hlisted
      · have hsame := congrArg length hlisted
        rw [length_map] at hsame
        exact length_filter_eq_length_iff.mp ((length_map _).symm.trans hsame)
    · intro hall
      have hfirst := hall first mem_cons_self
      have hlast' := hall last (mem_of_getLast? hlast)
      simp only [off, Bool.not_eq_true', Bool.or_eq_false_iff] at hfirst hlast'
      have hsize : size = (first :: rest).length := by
        simp only [size, least, hlast'.2, hfirst.1, Bool.false_eq_true, if_false]
        exact Nat.mod_eq_of_lt hlength
      rw [filter_eq_self.mpr hall, hsize, if_neg (by simp)]
      rfl

/-- The member is removed: the command changes a set that holds nothing else. -/
def removes (backend : Backend δ) (doubles : Doubles δ) (key strMin strMax : Bytes)
    (entry : Bytes × δ) : Bool :=
  let alone : Backend δ :=
    { backend with zremrangebyscore := fun _ lower upper =>
        if lower ≤ entry.2 ∧ entry.2 ≤ upper then some 1 else none }
  .change .zremrangebyscore ∈
    zremrangebyscoreCmd (getOrCreateRedisProtocol alone doubles) key strMin strMax

theorem removes_iff (hgreater : ∀ left right, doubles.greater left right = decide (right < left))
    (hbounds : getMinAndMaxNum doubles strMin strMax = some (lower, upper)) (entry : Bytes × δ) :
    removes backend doubles key strMin strMax entry = true ↔
      lower.1 ≤ entry.2 ∧ entry.2 ≤ upper.1 := by
  simp only [removes, zremrangebyscoreCmd, hbounds, whenRegistered, getOrCreateRedisProtocol,
    if_true, hgreater, decide_eq_true_eq, call]
  split
  · rename_i hempty
    exact iff_of_false (by simp) fun hin => (hin.1.trans hin.2).not_gt hempty
  · split <;> simp_all [answer, Callback.writes]

/-- The call of the removal to the backend takes the bounds without their flags. -/
theorem removes_listed_iff (hexact : RangesExact backend doubles key content)
    (hbounds : getMinAndMaxNum doubles strMin strMax = some (lower, upper)) :
    let handlers := getOrCreateRedisProtocol backend doubles
    let gone := content.filter (removes backend doubles key strMin strMax)
    listed (zrangebyscoreCmd handlers key strMin strMax false) = gone.map Prod.fst ∧
        .write (.integer gone.length) ∈ zremrangebyscoreCmd handlers key strMin strMax ↔
      gone.length < 2 ^ 32 ∧ OffBounds lower upper gone := by
  have hgone : content.filter (removes backend doubles key strMin strMax) =
      within content lower.1 upper.1 :=
    filter_congr fun entry _ => Bool.eq_iff_iff.mpr
      ((removes_iff hexact.greater hbounds entry).trans decide_eq_true_iff.symm)
  dsimp only
  simp only [hgone, zrangebyscoreCmd, zremrangebyscoreCmd, hbounds, whenRegistered,
    getOrCreateRedisProtocol, if_true, hexact.greater, decide_eq_true_eq, call, hexact.lists,
    hexact.removes]
  by_cases hempty : upper.1 < lower.1
  · have hnone : within content lower.1 upper.1 = [] :=
      filter_eq_nil_iff.mpr fun entry _ hin =>
        (of_decide_eq_true hin).elim fun hlow hhigh => (hlow.trans hhigh).not_gt hempty
    simp [hnone, hempty, listed, OffBounds]
  · rw [if_neg hempty, if_neg hempty]
    generalize within content lower.1 upper.1 = values
    have hcount : Action.write (.integer values.length) ∈ [.change .zremrangebyscore] ++
        answer .count (.integer 0) (some (UInt32.ofNat values.length)) ↔ values.length < 2 ^ 32 := by
      simp [answer, Reply.count]
      omega
    exact (and_comm.trans (and_congr_left' hcount)).trans
      (and_congr_right (listed_scores hexact.equal values))

/-- Two members and their scores. -/
def twoScores : List (Bytes × Int) := [(text "m", 1), (text "n", 5)]

def twoBackend : Backend Int :=
  { sortedSetBackend with
    zrangebyscore := fun _ lower upper => some (within twoScores lower upper)
    zremrangebyscore := fun _ lower upper =>
      some (UInt32.ofNat (within twoScores lower upper).length) }

theorem removes_listed_single :
    let handlers := getOrCreateRedisProtocol twoBackend wholeDoubles
    twoScores.filter (removes twoBackend wholeDoubles (text "k") (text "(0") (text "1")) =
        [(text "m", 1)] ∧
      listed (zrangebyscoreCmd handlers (text "k") (text "(0") (text "1") false) = [text "m"] ∧
      .write (.integer 1) ∈ zremrangebyscoreCmd handlers (text "k") (text "(0") (text "1") := by
  have hexact : RangesExact twoBackend wholeDoubles (text "k") twoScores :=
    ⟨fun _ _ => rfl, fun _ _ => rfl, fun _ _ => rfl, fun _ _ => rfl⟩
  have hbounds : getMinAndMaxNum wholeDoubles (text "(0") (text "1") = some ((0, false), (1, true)) := by
    decide
  have hgone : twoScores.filter (removes twoBackend wholeDoubles (text "k") (text "(0") (text "1")) =
      [(text "m", 1)] := by
    decide
  have hlisted := removes_listed_iff hexact hbounds
  simp only [hgone] at hlisted
  exact ⟨hgone, hlisted.mpr ⟨by decide, by unfold OffBounds; decide⟩⟩

/-- `zremrangebyscore k (1 2` removes the member with the score 1. -/
theorem removes_unlisted :
    let handlers := getOrCreateRedisProtocol twoBackend wholeDoubles
    listed (zrangebyscoreCmd handlers (text "k") (text "(1") (text "2") false) = [] ∧
    twoScores.filter (removes twoBackend wholeDoubles (text "k") (text "(1") (text "2")) =
      [(text "m", 1)] ∧
    zremrangebyscoreCmd handlers (text "k") (text "(1") (text "2") =
      [.change .zremrangebyscore, .write (.integer 1)] := by
  decide

end

/-- What becomes of a key. -/
inductive Expiry
  | refused
  | absent
  | expiresAt (time : Nat)
  deriving DecidableEq

/-- `RedisCommandProcess::expire` over a store that is exact for the milliseconds it is given. -/
def expire (now : Nat) (time : Int64) : Expiry :=
  let timeMs := time * 1000
  if timeMs < 0 then .absent else .expiresAt (now + timeMs.toUInt64.toNat)

/-- `RedisCommandProcess::expireat`: the comparison is one of unsigned numbers. -/
def expireat (now : Nat) (timeAt : Int64) : Expiry :=
  let timeAtMs := timeAt * 1000
  if timeAtMs.toUInt64 < UInt64.ofNat now then .absent else .expiresAt timeAtMs.toUInt64.toNat

def FitsMs (time : Int64) : Prop := -2 ^ 63 ≤ 1000 * time.toInt ∧ 1000 * time.toInt < 2 ^ 63

instance (time : Int64) : Decidable (FitsMs time) := inferInstanceAs (Decidable (_ ∧ _))

/-- The meaning of a number of seconds that sets the expiry to `wanted` milliseconds, where keys
with an expiry before `least` are gone. -/
def expiryOf (time : Int64) (least wanted : Int) : Expiry :=
  if ¬FitsMs time then .refused else if wanted < least then .absent else .expiresAt wanted.toNat

section
variable {now : Nat} (hnow : now < 2 ^ 63) (time : Int64)

theorem toInt_ms (hfits : FitsMs time) : (time * 1000).toInt = 1000 * time.toInt := by
  have hthousand : (1000 : Int64).toInt = 1000 := rfl
  obtain ⟨hlow, hhigh⟩ := hfits
  rw [Int64.toInt_mul, hthousand, mul_comm]
  exact Int.bmod_eq_of_le (by omega) (by omega)

theorem toNat_ms : ((time * 1000).toUInt64.toNat : Int) =
    if (time * 1000).toInt < 0 then (time * 1000).toInt + 2 ^ 64 else (time * 1000).toInt := by
  have hcond := BitVec.toInt_eq_toNat_cond (time * 1000).toBitVec
  have hlt := (time * 1000).toUInt64.toNat_lt
  change (time * 1000).toInt = _ at hcond
  change (time * 1000).toBitVec.toNat < _ at hlt
  change ((time * 1000).toBitVec.toNat : Int) = _
  split at hcond <;> split <;> omega

theorem expire_iff :
    expire now time = expiryOf time now (now + 1000 * time.toInt) ↔ FitsMs time := by
  unfold expire expiryOf
  by_cases hfits : FitsMs time
  · have hms := toInt_ms time hfits
    have hnat := toNat_ms time
    simp only [hfits, not_true, if_false, Int64.lt_iff_toInt_lt, hms, Int64.toInt_zero]
    rw [hms] at hnat
    refine iff_of_true ?_ trivial
    split_ifs <;> first | rfl | omega | (congr 1; omega)
  · rw [if_pos hfits]
    refine iff_of_false ?_ hfits
    dsimp only
    split <;> nofun

include hnow in
theorem expireat_iff :
    expireat now time = expiryOf time now (1000 * time.toInt) ↔ FitsMs time ∧ 0 ≤ time := by
  unfold expireat expiryOf
  by_cases hfits : FitsMs time
  · have hms := toInt_ms time hfits
    have hnat := toNat_ms time
    have hclock : (UInt64.ofNat now).toNat = now := UInt64.toNat_ofNat_of_lt' (hnow.trans (by decide))
    rw [hms] at hnat
    obtain ⟨hlow, -⟩ := id hfits
    simp only [hfits, not_true, if_false, UInt64.lt_iff_toNat_lt, hclock, true_and,
      Int64.le_iff_toInt_le, Int64.toInt_zero]
    by_cases hsign : 0 ≤ time.toInt
    · rw [if_neg (by omega)] at hnat
      refine iff_of_true ?_ hsign
      split_ifs <;> first | rfl | omega | (congr 1; omega)
    · rw [if_pos (by omega)] at hnat
      refine iff_of_false ?_ hsign
      rw [if_neg (by omega), if_pos (by omega)]
      nofun
  · rw [if_pos hfits]
    refine iff_of_false ?_ fun hboth => hfits hboth.1
    dsimp only
    split <;> nofun

end

/-- The expiry commands, for every clock and every key with time left. -/
theorem expiry_iff {δ : Type} (doubles : Doubles δ) :
    (∀ (now : Nat) (time : Int64),
      expire now time = expiryOf time now (now + 1000 * time.toInt) ↔ FitsMs time) ∧
    (∀ (now : Nat) (time : Int64), now < 2 ^ 63 →
      (expireat now time = expiryOf time now (1000 * time.toInt) ↔ FitsMs time ∧ 0 ≤ time)) ∧
    ∀ (backend : Backend δ) (key : Bytes) (left : Int), backend.ttl key = some left → 0 < left →
      (.write (.integer (-1)) ∉ ttlCmd (getOrCreateRedisProtocol backend doubles) key ∧
        .write (.integer (-2)) ∉ ttlCmd (getOrCreateRedisProtocol backend doubles) key ↔
          1000 ≤ left) := by
  refine ⟨fun now time => expire_iff time, fun now time hnow => expireat_iff hnow time, ?_⟩
  intro backend key left hleft hpositive
  have hreply : ttlCmd (getOrCreateRedisProtocol backend doubles) key = [.write (.integer
      (if 1000 ≤ left then left / 1000 else if 0 ≤ left then -2 else left))] := by
    simp only [ttlCmd, callCmd, getOrCreateRedisProtocol, hleft]
    rfl
  rw [hreply]
  simp only [mem_singleton, Action.write.injEq, Reply.integer.injEq]
  split_ifs <;> omega

theorem expiry_second : expireat 5000 7 = .expiresAt 7000 :=
  ((expiry_iff wholeDoubles).2.1 5000 7 (by omega)).mpr (by decide)

/-- A time in the past, seconds that wrap, and a key with half a second left: the first is kept
for ever, the second is deleted and the third is said not to be there. -/
theorem expiry_fails :
    expireat 5000 (-1) = .expiresAt (2 ^ 64 - 1000) ∧
    expire 0 (2 ^ 55) = .absent ∧
    ttlCmd (getOrCreateRedisProtocol { sortedSetBackend with ttl := fun _ => some 500 }
      wholeDoubles) (text "k") = [.write (.integer (-2))] := by
  decide +kernel

end LaserDB.RedisProtocol
