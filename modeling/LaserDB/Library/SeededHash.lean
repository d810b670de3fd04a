import LaserDB.Library.ByteCodec

/-!
# Seeded hashes

Several strings are hashed by taking each value as the next seed.
-/

structure SeededHash (κ : Type) where
  hash : Bytes → κ → κ
  /-- an integer taken as a seed -/
  seed : Int64 → κ
  hash_injective : Function.Injective2 hash
  seed_injective : Function.Injective seed

namespace SeededHash
open List
variable {κ : Type} (hashing : SeededHash κ)

/-- Each string is hashed with the value of those before it as the seed. -/
def chain (strings : List Bytes) (code : κ) : κ :=
  strings.foldl (fun code bytes => hashing.hash bytes code) code

def Unseeded : Prop :=
  ∀ bytes code number, hashing.hash bytes code ≠ hashing.seed number

variable {hashing}

theorem chain_append_singleton (strings : List Bytes) (bytes : Bytes) (code : κ) :
    hashing.chain (strings ++ [bytes]) code = hashing.hash bytes (hashing.chain strings code) :=
  foldl_concat ..

theorem chain_injective {left right : List Bytes} {first second : κ}
    (hlength : left.length = right.length)
    (hchain : hashing.chain left first = hashing.chain right second) :
    left = right ∧ first = second := by
  induction left using reverseRecOn generalizing right with
  | nil =>
    obtain rfl := length_eq_zero_iff.mp hlength.symm
    exact ⟨rfl, hchain⟩
  | append_singleton left bytes ih =>
    obtain rfl | ⟨right, other, rfl⟩ := eq_nil_or_concat' right
    · simp at hlength
    · rw [chain_append_singleton, chain_append_singleton] at hchain
      obtain ⟨rfl, hrest⟩ := hashing.hash_injective hchain
      obtain ⟨rfl, hcode⟩ := ih (by simpa using hlength) hrest
      exact ⟨rfl, hcode⟩

theorem chain_seed_injective (hunseeded : hashing.Unseeded) (number : Int64) :
    Function.Injective fun strings => hashing.chain strings (hashing.seed number) := by
  intro left right hchain
  dsimp only at hchain
  induction left using reverseRecOn generalizing right with
  | nil =>
    obtain rfl | ⟨right, other, rfl⟩ := eq_nil_or_concat' right
    · rfl
    · rw [chain_append_singleton] at hchain
      exact absurd hchain.symm (hunseeded _ _ _)
  | append_singleton left bytes ih =>
    obtain rfl | ⟨right, other, rfl⟩ := eq_nil_or_concat' right
    · rw [chain_append_singleton] at hchain
      exact absurd hchain (hunseeded _ _ _)
    · rw [chain_append_singleton, chain_append_singleton] at hchain
      obtain ⟨rfl, hrest⟩ := hashing.hash_injective hchain
      rw [ih hrest]

def free : SeededHash (List Bytes × Int64) where
  hash bytes code := (bytes :: code.1, code.2)
  seed number := ([], number)
  hash_injective := by
    rintro left right ⟨strings, number⟩ ⟨others, other⟩ heq
    simp only [Prod.mk.injEq, cons.injEq] at heq
    exact ⟨heq.1.1, Prod.ext heq.1.2 heq.2⟩
  seed_injective := fun _ _ heq => congrArg Prod.snd heq

theorem free_unseeded : free.Unseeded := fun _ _ _ heq =>
  cons_ne_nil _ _ (congrArg Prod.fst heq)

end SeededHash
