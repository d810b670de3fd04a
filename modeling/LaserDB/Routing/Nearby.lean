import LaserDB.Routing.RouterDb

/-!
# Servers near the local address

`LocalFirst` and `IpRangeFirst` of both client libraries subtract addresses as unsigned numbers;
all but the second of Go take the result for a signed one.
-/

namespace LaserDB.Nearby
open Routing List

inductive Strategy
  | localFirst | ipRangeFirst
  deriving DecidableEq

structure LoadBalance where
  sdk : Sdk
  strategy : Strategy
  localIp : UInt32
  diffRange : Nat
  /-- The range is an `int` in C++. -/
  fits : sdk = .cpp → diffRange < 2 ^ 31

namespace LoadBalance
variable {α : Type} (balance : LoadBalance) (ip : α → UInt32)

/-- What is compared with the range.  `std::abs` leaves the least number as it is. -/
def diff (server : UInt32) : Int :=
  match balance.sdk, balance.strategy with
  | .cpp, _ =>
    let diff := (server - balance.localIp).toInt32
    (if diff < 0 then -diff else diff).toInt
  | .go, .localFirst => |(server - balance.localIp).toInt32.toInt|
  | .go, .ipRangeFirst => (server - balance.localIp).toNat

/-- The loop over the servers, which ends early at the local one. -/
def gather : List α → List α → α ⊕ List α
  | [], refers => .inr refers
  | server :: rest, refers =>
    if ip server = 0 then gather rest refers
    else if balance.strategy = .localFirst ∧ ip server = balance.localIp then .inl server
    else if balance.diff (ip server) ≤ balance.diffRange then gather rest (refers ++ [server])
    else gather rest refers

def select (random : Nat) (list : List α) : Option α :=
  match balance.gather ip list [] with
  | .inl server => some server
  | .inr [] => list[random % list.length]?
  | .inr refers => refers[random % refers.length]?

def distance (server : UInt32) : Nat := Nat.dist server.toNat balance.localIp.toNat

def nearby (list : List α) : List α :=
  list.filter fun server => ip server ≠ 0 ∧ balance.distance (ip server) ≤ balance.diffRange

structure Selects (list : List α) : Prop where
  candidates : balance.gather ip list [] = .inr (balance.nearby ip list)
  selected : ∀ random server, balance.select ip random list = some server →
    server ∉ balance.nearby ip list → balance.nearby ip list = []

/-- An address that is near only around `2 ^ 32`, or, for the second one of Go, a lower address. -/
def Misjudged (server : UInt32) : Prop :=
  match balance.sdk, balance.strategy with
  | .cpp, _ => balance.distance server = 2 ^ 31 ∨
      2 ^ 31 < balance.distance server ∧ 2 ^ 32 - balance.distance server ≤ balance.diffRange
  | .go, .localFirst => balance.diffRange < balance.distance server ∧
      2 ^ 32 - balance.distance server ≤ balance.diffRange
  | .go, .ipRangeFirst => server < balance.localIp ∧ (balance.distance server ≤ balance.diffRange ↔
      balance.diffRange < 2 ^ 32 - balance.distance server)

variable {balance ip}

theorem diff_le_iff (server : UInt32) :
    (balance.diff server ≤ balance.diffRange ↔ balance.distance server ≤ balance.diffRange) ↔
      ¬balance.Misjudged server := by
  obtain ⟨sdk, strategy, localIp, diffRange, hfits⟩ := balance
  have hserver := server.toNat_lt
  have hlocal := localIp.toNat_lt
  have hlt := (server - localIp).toNat_lt
  have hsub : (server - localIp).toNat =
      if localIp.toNat ≤ server.toNat then server.toNat - localIp.toNat
      else 2 ^ 32 + server.toNat - localIp.toNat := by
    rw [UInt32.toNat_sub]
    split <;> omega
  have hsigned : (server - localIp).toInt32.toInt =
      if (server - localIp).toNat < 2 ^ 31 then ((server - localIp).toNat : Int)
      else (server - localIp).toNat - 2 ^ 32 := by
    rw [← Int32.toInt_toBitVec, UInt32.toBitVec_toInt32, BitVec.toInt_eq_toNat_cond,
      UInt32.toNat_toBitVec]
    split_ifs <;> omega
  cases sdk with
  | cpp =>
    have hrange := hfits rfl
    simp only [diff, Misjudged, distance, Nat.dist, apply_ite Int32.toInt, Int32.toInt_neg, hsigned,
      Int32.lt_iff_toInt_lt, Int32.toInt_zero, Int.bmod]
    rw [hsub]
    split_ifs <;> omega
  | go =>
    cases strategy with
    | localFirst =>
      simp only [diff, Misjudged, distance, Nat.dist, abs_le, hsigned, hsub]
      split_ifs <;> omega
    | ipRangeFirst =>
      simp only [diff, Misjudged, distance, Nat.dist, hsub, UInt32.lt_iff_toNat_lt]
      split_ifs <;> omega

variable {list : List α} (hlocal : ∀ server ∈ list, ip server ≠ balance.localIp)
include hlocal

theorem gather_eq (refers : List α) :
    balance.gather ip list refers = .inr (refers ++ list.filter fun server =>
      ip server ≠ 0 ∧ balance.diff (ip server) ≤ balance.diffRange) := by
  induction list generalizing refers with
  | nil => simp [gather]
  | cons server list ih =>
    obtain ⟨hserver, hrest⟩ := forall_mem_cons.mp hlocal
    rw [gather, ih hrest, ih hrest]
    by_cases hzero : ip server = 0 <;>
      by_cases hnear : balance.diff (ip server) ≤ balance.diffRange <;>
        simp [hserver, hzero, hnear]

/-- The candidates are the servers nearby just if no server is misjudged. -/
theorem selects_iff : balance.Selects ip list ↔
    ∀ server ∈ list, ip server ≠ 0 → ¬balance.Misjudged (ip server) := by
  simp only [← diff_le_iff]
  constructor
  · rintro ⟨hgather, -⟩ server hserver hne
    rw [gather_eq hlocal, nil_append, Sum.inr.injEq] at hgather
    have hmem := congrArg (server ∈ ·) hgather
    simpa [nearby, hserver, hne] using hmem
  · intro hall
    have hgather : balance.gather ip list [] = .inr (balance.nearby ip list) := by
      rw [gather_eq hlocal, nil_append, nearby]
      refine congrArg _ (filter_congr fun server hserver => ?_)
      by_cases hne : ip server = 0
      · simp [hne]
      · simp [hne, hall server hserver hne]
    refine ⟨hgather, fun random server hselect hout => ?_⟩
    rw [select, hgather] at hselect
    by_contra hsome
    obtain ⟨first, rest, hcons⟩ := exists_cons_of_ne_nil hsome
    rw [hcons] at hselect hout
    exact hout (mem_of_getElem? hselect)

omit hlocal

def goIpRange : LoadBalance := ⟨.go, .ipRangeFirst, 10, 5, nofun⟩

theorem selects_higher : goIpRange.Selects id [12, 17] := by
  refine (selects_iff (by simp [goIpRange])).mpr ?_
  simp [goIpRange, Misjudged, distance, Nat.dist]

/-- Of the two neighbours Go takes the higher one only. -/
theorem lower_left_out : goIpRange.gather id [9, 11] [] = .inr [11] ∧
    goIpRange.nearby id [9, 11] = [9, 11] := by
  decide

end LoadBalance

end LaserDB.Nearby
