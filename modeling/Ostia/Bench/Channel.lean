import Mathlib.Algebra.Group.Nat.Defs
import Mathlib.Tactic.Ring
import Ostia.Foundation.Framing

/-!
# The rendezvous channel

Numbers are eight bytes, the lowest first, and strings follow their length.  A blob is framed as
a string.  The target describes itself in one blob, which the source takes apart again.
-/

namespace Ostia
namespace Bench

open Foundation

abbrev Blob := List UInt8

/-!
## Numbers and strings
-/

def lowBytes : Nat -> Nat -> Blob
  | 0, _ => []
  | k + 1, v => UInt8.ofNat (v % 256) :: lowBytes k (v / 256)

def valueOf : Blob -> Nat
  | [] => 0
  | b :: rest => b.toNat + 256 * valueOf rest

/-- The eight bytes of a number. -/
def putU64 (v : Nat) : Blob := lowBytes 8 v

def putStr (s : Blob) : Blob := putU64 s.length ++ s

/-- A number off the rest of a blob, if the rest holds one. -/
def readU64 (rest : Blob) : Option (Nat × Blob) :=
  if 8 ≤ rest.length then some (valueOf (rest.take 8), rest.drop 8) else none

/-- A string off the rest of a blob; it ends with the blob at the latest. -/
def readStr (rest : Blob) : Option (Blob × Blob) :=
  (readU64 rest).map fun r => (r.2.take r.1, r.2.drop r.1)

theorem length_lowBytes (k v : Nat) : (lowBytes k v).length = k := by
  induction k generalizing v with
  | zero => rfl
  | succ k ih => exact congrArg Nat.succ (ih (v / 256))

theorem valueOf_lowBytes {k v : Nat} (h : v < 256 ^ k) : valueOf (lowBytes k v) = v := by
  induction k generalizing v with
  | zero => exact (Nat.lt_one_iff.mp h).symm
  | succ k ih =>
      have hrest : v / 256 < 256 ^ k := by
        rw [Nat.div_lt_iff_lt_mul (by decide), <- Nat.pow_succ]
        exact h
      show (UInt8.ofNat (v % 256)).toNat + 256 * valueOf (lowBytes k (v / 256)) = v
      rw [ih hrest, UInt8.toNat_ofNat']
      omega

theorem valueOf_lt (b : Blob) : valueOf b < 256 ^ b.length := by
  induction b with
  | nil => exact Nat.one_pos
  | cons x rest ih =>
      have hx := x.toNat_lt
      show x.toNat + 256 * valueOf rest < 256 ^ (rest.length + 1)
      rw [Nat.pow_succ]
      omega

/-- The codec of the lengths on the channel. -/
def u64 : Framing.Codec UInt8 where
  width := 8
  bound := 2 ^ 64
  put := putU64
  get := valueOf
  width_pos := by decide
  length_put := length_lowBytes 8
  get_put := fun _ h => valueOf_lowBytes h
  get_lt := by
    intro places hplaces
    have hlt := valueOf_lt places
    rw [hplaces] at hlt
    exact hlt

@[simp] theorem length_putU64 (v : Nat) : (putU64 v).length = 8 := length_lowBytes 8 v

theorem readU64_putU64 {v : Nat} (h : v < 2 ^ 64) (rest : Blob) :
    readU64 (putU64 v ++ rest) = some (v, rest) := by
  unfold readU64
  rw [if_pos (by rw [List.length_append, length_putU64]; omega),
    List.take_left' (length_putU64 v), List.drop_left' (length_putU64 v)]
  exact congrArg (fun n => some (n, rest)) (valueOf_lowBytes h)

theorem readStr_putStr {s : Blob} (h : s.length < 2 ^ 64) (rest : Blob) :
    readStr (putStr s ++ rest) = some (s, rest) := by
  unfold readStr putStr
  rw [List.append_assoc, readU64_putU64 h, Option.map_some, List.take_left' rfl,
    List.drop_left' rfl]

/-!
## The target's description
-/

/-- The address and the key of each session, and where the region starts. -/
structure Info where
  sessions : List (Blob × Blob)
  base : Nat
deriving DecidableEq

def putSession (s : Blob × Blob) : Blob := putStr s.1 ++ putStr s.2

def Info.blob (i : Info) : Blob :=
  putU64 i.sessions.length ++ (i.sessions.flatMap putSession ++ putU64 i.base)

inductive InfoFault where
  /-- The target has another number of rails. -/
  | rails
  /-- A read past the end of the blob. -/
  | past
deriving DecidableEq

def readSessions : Nat -> Blob -> Option (List (Blob × Blob) × Blob)
  | 0, rest => some ([], rest)
  | k + 1, rest => do
      let address ← readStr rest
      let rkey ← readStr address.2
      let later ← readSessions k rkey.2
      pure ((address.1, rkey.1) :: later.1, later.2)

/-- What the source reads, with one device for each rail. -/
def readInfo (devices : Nat) (blob : Blob) : Except InfoFault Info :=
  match readU64 blob with
  | none => .error .past
  | some (n, rest) =>
      if n ≠ devices then .error .rails
      else match readSessions devices rest with
        | none => .error .past
        | some (sessions, rest) =>
            match readU64 rest with
            | none => .error .past
            | some (base, _) => .ok ⟨sessions, base⟩

theorem readSessions_putSession {ss : List (Blob × Blob)} (rest : Blob)
    (h : forall s, s ∈ ss -> s.1.length < 2 ^ 64 ∧ s.2.length < 2 ^ 64) :
    readSessions ss.length (ss.flatMap putSession ++ rest) = some (ss, rest) := by
  induction ss with
  | nil => rfl
  | cons s ss ih =>
      rw [List.forall_mem_cons] at h
      rw [List.length_cons, readSessions, List.flatMap_cons, putSession, List.append_assoc,
        List.append_assoc, readStr_putStr h.1.1]
      simp only [Option.bind_eq_bind, Option.bind_some]
      rw [readStr_putStr h.1.2, Option.bind_some, ih h.2]
      rfl

theorem length_le_of_mem {ss : List (Blob × Blob)} {s : Blob × Blob} (h : s ∈ ss) :
    s.1.length + s.2.length ≤ (ss.flatMap putSession).length := by
  induction ss with
  | nil => cases h
  | cons t ss ih =>
      rw [List.flatMap_cons, List.length_append]
      cases List.mem_cons.mp h with
      | inl heq =>
          rw [heq]
          unfold putSession putStr
          simp only [List.length_append]
          omega
      | inr hmem =>
          have hrest := ih hmem
          omega

theorem length_sessions_le (ss : List (Blob × Blob)) :
    ss.length ≤ (ss.flatMap putSession).length := by
  induction ss with
  | nil => exact Nat.zero_le 0
  | cons s ss ih =>
      rw [List.flatMap_cons, List.length_append, List.length_cons]
      have hsession : 1 ≤ (putSession s).length := by
        unfold putSession putStr
        simp only [List.length_append, length_putU64]
        omega
      omega

/-- The source reads what the target has written. -/
theorem readInfo_blob {i : Info} (hblob : i.blob.length < 2 ^ 64) (hbase : i.base < 2 ^ 64) :
    readInfo i.sessions.length i.blob = .ok i := by
  have hlength : i.blob.length = 8 + ((i.sessions.flatMap putSession).length + 8) := by
    unfold Info.blob
    simp only [List.length_append, length_putU64]
  have hcount : i.sessions.length < 2 ^ 64 := by
    have hle := length_sessions_le i.sessions
    omega
  have hsessions : forall s, s ∈ i.sessions -> s.1.length < 2 ^ 64 ∧ s.2.length < 2 ^ 64 := by
    intro s hs
    have hle := length_le_of_mem hs
    omega
  have hend : readU64 (putU64 i.base) = some (i.base, []) := by
    rw [<- List.append_nil (putU64 i.base)]
    exact readU64_putU64 hbase []
  unfold readInfo Info.blob
  rw [readU64_putU64 hcount]
  simp only
  rw [if_neg (not_not_intro rfl), readSessions_putSession _ hsessions]
  simp only
  rw [hend]

end Bench
end Ostia
