import Mathlib.Algebra.Group.Nat.Defs
import Mathlib.Order.Lattice
import Mathlib.Order.Nat

/-!
# Message ids

A ULID is a 128-bit number: 48 bits of Unix milliseconds above 80 random bits.
Ids compare as numbers, so a later millisecond is always a greater id.

The generator of a process is not part of the bus; `IdSource` is what the bus
relies on, and `IdSource.monotonic` is one that counts up whenever the clock
does not move on.
-/

namespace AgentBus

structure Ulid where
  bits : Nat
  isLt : bits < 2 ^ 128

namespace Ulid

theorem bits_injective : Function.Injective bits := fun a b h => by
  cases a; cases b; cases h; rfl

instance : LinearOrder Ulid := LinearOrder.lift' bits bits_injective

/-- The parts are masked to their widths. -/
def fromParts (timestampMs random : Nat) : Ulid where
  bits := timestampMs % 2 ^ 48 * 2 ^ 80 + random % 2 ^ 80
  isLt := by omega

def timestampMs (u : Ulid) : Nat := u.bits / 2 ^ 80

theorem lt_def {a b : Ulid} : a < b ↔ a.bits < b.bits := Iff.rfl

theorem timestampMs_mono {a b : Ulid} (h : a ≤ b) : a.timestampMs ≤ b.timestampMs :=
  Nat.div_le_div_right h

theorem lt_of_timestampMs_lt {a b : Ulid} (h : a.timestampMs < b.timestampMs) : a < b :=
  not_le.mp fun hle => Nat.not_lt.mpr (timestampMs_mono hle) h

theorem timestampMs_fromParts {clockMs random : Nat} (h : clockMs < 2 ^ 48) :
    (fromParts clockMs random).timestampMs = clockMs := by
  show (clockMs % 2 ^ 48 * 2 ^ 80 + random % 2 ^ 80) / 2 ^ 80 = clockMs
  have hpos : 0 < 2 ^ 80 := Nat.two_pow_pos 80
  rw [Nat.mod_eq_of_lt h, Nat.mul_comm, Nat.mul_add_div hpos, Nat.div_eq_of_lt (Nat.mod_lt _ hpos),
    Nat.add_zero]

/-- The next number, unless there is none. -/
def increment (u : Ulid) : Option Ulid :=
  if h : u.bits + 1 < 2 ^ 128 then some ⟨u.bits + 1, h⟩ else none

theorem lt_of_increment {u v : Ulid} (h : u.increment = some v) : u < v := by
  unfold increment at h
  split at h
  · obtain rfl := Option.some.inj h
    exact lt_def.mpr (Nat.lt_succ_self _)
  · cases h

end Ulid

/-! ## Generators -/

/-- A process's generator of ids. -/
structure IdSource where
  State : Type
  /-- The state in a new process. -/
  fresh : State
  /-- The last id generated, if any. -/
  last : State → Option Ulid
  /-- The next id, at a clock reading in milliseconds and from some random bits; `none` when no id
  is left. -/
  generate : State → Nat → Nat → Option (Ulid × State)
  last_fresh : last fresh = none
  last_generate : ∀ {s s' : State} {clockMs random : Nat} {id : Ulid},
    generate s clockMs random = some (id, s') → last s' = some id
  increasing : ∀ {s s' : State} {clockMs random : Nat} {id : Ulid},
    generate s clockMs random = some (id, s') → ∀ u ∈ last s, u < id
  /-- The clock sets the time part, unless the generator is ahead of it. -/
  clock_le : ∀ {s s' : State} {clockMs random : Nat} {id : Ulid},
    generate s clockMs random = some (id, s') → clockMs < 2 ^ 48 → clockMs ≤ id.timestampMs

namespace IdSource

/-- At a later millisecond new random bits, otherwise the successor of the last id. -/
def nextId (last : Option Ulid) (clockMs random : Nat) : Option Ulid :=
  match last with
  | none => some (.fromParts clockMs random)
  | some u =>
    if u.timestampMs < (Ulid.fromParts clockMs random).timestampMs then
      some (.fromParts clockMs random)
    else u.increment

theorem lt_of_nextId {last : Option Ulid} {clockMs random : Nat} {id : Ulid}
    (h : nextId last clockMs random = some id) : ∀ u ∈ last, u < id := by
  rintro u rfl
  rw [nextId] at h
  split at h
  · next hlt =>
    obtain rfl := Option.some.inj h
    exact Ulid.lt_of_timestampMs_lt hlt
  · exact Ulid.lt_of_increment h

theorem clock_le_of_nextId {last : Option Ulid} {clockMs random : Nat} {id : Ulid}
    (h : nextId last clockMs random = some id) (hclock : clockMs < 2 ^ 48) :
    clockMs ≤ id.timestampMs := by
  have hparts : ∀ u, some (Ulid.fromParts clockMs random) = some u → clockMs ≤ u.timestampMs := by
    rintro u heq
    obtain rfl := Option.some.inj heq
    exact Nat.le_of_eq (Ulid.timestampMs_fromParts hclock).symm
  cases last with
  | none => exact hparts id h
  | some u =>
    rw [nextId] at h
    split at h
    · exact hparts id h
    · next hle =>
      rw [Ulid.timestampMs_fromParts hclock] at hle
      exact Nat.le_trans (Nat.le_of_not_lt hle)
        (Ulid.timestampMs_mono (le_of_lt (Ulid.lt_of_increment h)))

def monotonic : IdSource where
  State := Option Ulid
  fresh := none
  last := id
  generate last clockMs random := (nextId last clockMs random).map fun u => (u, some u)
  last_fresh := rfl
  last_generate h := by
    obtain ⟨u, -, heq⟩ := Option.map_eq_some_iff.mp h
    obtain ⟨rfl, rfl⟩ := Prod.mk.inj heq
    rfl
  increasing h := by
    obtain ⟨u, hu, heq⟩ := Option.map_eq_some_iff.mp h
    obtain ⟨rfl, -⟩ := Prod.mk.inj heq
    exact lt_of_nextId hu
  clock_le h := by
    obtain ⟨u, hu, heq⟩ := Option.map_eq_some_iff.mp h
    obtain ⟨rfl, -⟩ := Prod.mk.inj heq
    exact clock_le_of_nextId hu

end IdSource

end AgentBus
