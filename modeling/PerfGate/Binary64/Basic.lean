/-!
# Binary64 — doubles as whole numbers of units

Every finite double is a whole multiple of `2 ^ -1074`, the *unit*. A finite double is therefore a
sign and a number of units, and all arithmetic on doubles is exact arithmetic on whole numbers
followed by one rounding (`PerfGate.Binary64.Rounding`). The order of doubles is the order of
signed units; a NaN is comparable with nothing.
-/

namespace PerfGate

namespace Binary64

/-! ## Powers of two -/

theorem log2_shiftLeft (k : Nat) : (1 <<< k).log2 = k := by
  rw [Nat.one_shiftLeft, Nat.log2_two_pow]

theorem shiftLeft_add (j k : Nat) : 1 <<< (j + k) = 1 <<< j * 1 <<< k := by
  simp only [Nat.one_shiftLeft, Nat.pow_add]

theorem shiftLeft_dvd {j k : Nat} (h : j ≤ k) : 1 <<< j ∣ 1 <<< k := by
  rw [Nat.one_shiftLeft, Nat.one_shiftLeft]
  exact Nat.pow_dvd_pow 2 h

theorem shiftLeft_lt {j k : Nat} (h : j < k) : 1 <<< j < 1 <<< k := by
  rw [Nat.one_shiftLeft, Nat.one_shiftLeft]
  exact Nat.pow_lt_pow_right (by decide) h

theorem shiftLeft_pos (k : Nat) : 0 < 1 <<< k := by
  rw [Nat.one_shiftLeft]
  exact Nat.two_pow_pos k

/-! ## Magnitudes -/

/-- The step between neighbouring doubles of `n` units: one unit below `2 ^ 53`, and above it the
power of two that leaves 53 significant bits. -/
def spacing (n : Nat) : Nat := 1 <<< (n.log2 - 52)

/-- The number of units in `1.0`. -/
def perOne : Nat := 1 <<< 1074

/-- The magnitude `2 ^ 1024` in units: the first power of two that is too large to be finite. -/
def limit : Nat := 1 <<< 2098

/-- A magnitude is representable if it is below the limit and on the grid of its own spacing. -/
def Representable (n : Nat) : Prop := n < limit ∧ spacing n ∣ n

instance (n : Nat) : Decidable (Representable n) :=
  inferInstanceAs (Decidable (n < limit ∧ spacing n ∣ n))

theorem spacing_pos (n : Nat) : 0 < spacing n := shiftLeft_pos _

theorem limit_pos : 0 < limit := shiftLeft_pos _

theorem representable_zero : Representable 0 := ⟨limit_pos, Nat.dvd_zero _⟩

end Binary64

/-- A double. Zeros are signed; there is one NaN. -/
inductive Binary64 where
  | nan
  | infinite (negative : Bool)
  | finite (negative : Bool) (units : Nat) (representable : Binary64.Representable units)
deriving DecidableEq

namespace Binary64

/-- The zero of the given sign. -/
def zero (negative : Bool) : Binary64 := .finite negative 0 representable_zero

instance : Inhabited Binary64 := ⟨zero false⟩

/-- Neither infinite nor NaN. -/
def isFinite : Binary64 → Bool
  | .finite .. => true
  | _ => false

/-- The sign turned round. -/
def neg : Binary64 → Binary64
  | .nan => .nan
  | .infinite s => .infinite (!s)
  | .finite s n h => .finite (!s) n h

instance : Neg Binary64 := ⟨neg⟩

/-- A magnitude with its sign. -/
def signed (negative : Bool) (n : Nat) : Int := if negative then -(n : Int) else n

/-! ## Order -/

/-- The place of a double on the line of signed units, with the infinities at the two limits. A NaN
has none. -/
def place? : Binary64 → Option Int
  | .nan => none
  | .infinite s => some (signed s limit)
  | .finite s n _ => some (signed s n)

instance : LE Binary64 := ⟨fun x y => ∃ a ∈ x.place?, ∃ b ∈ y.place?, a ≤ b⟩

instance : LT Binary64 := ⟨fun x y => ∃ a ∈ x.place?, ∃ b ∈ y.place?, a < b⟩

instance (x y : Binary64) : Decidable (x ≤ y) :=
  match hx : x.place?, hy : y.place? with
  | some a, some b =>
    if h : a ≤ b then .isTrue ⟨a, hx, b, hy, h⟩
    else .isFalse fun ⟨_, ha, _, hb, hab⟩ => h <| by
      rw [hx] at ha; rw [hy] at hb; cases ha; cases hb; exact hab
  | none, _ => .isFalse fun ⟨_, ha, _⟩ => by rw [hx] at ha; cases ha
  | _, none => .isFalse fun ⟨_, _, _, hb, _⟩ => by rw [hy] at hb; cases hb

instance (x y : Binary64) : Decidable (x < y) :=
  match hx : x.place?, hy : y.place? with
  | some a, some b =>
    if h : a < b then .isTrue ⟨a, hx, b, hy, h⟩
    else .isFalse fun ⟨_, ha, _, hb, hab⟩ => h <| by
      rw [hx] at ha; rw [hy] at hb; cases ha; cases hb; exact hab
  | none, _ => .isFalse fun ⟨_, ha, _⟩ => by rw [hx] at ha; cases ha
  | _, none => .isFalse fun ⟨_, _, _, hb, _⟩ => by rw [hy] at hb; cases hb

/-- The rank of a double in the total order that sorting uses: negative infinity, the finite doubles
by value with `-0.0` just below `0.0`, infinity, NaN. -/
def rank : Binary64 → Int
  | .infinite true => -(limit : Int) - 1
  | .finite true n _ => -(n : Int) - 1
  | .finite false n _ => n
  | .infinite false => limit
  | .nan => limit + 1

/-- The rank of a finite double lies between those of the infinities. -/
theorem rank_finite_mem {s : Bool} {n : Nat} (h : Representable n) :
    -(limit : Int) - 1 < (finite s n h).rank ∧ (finite s n h).rank < limit := by
  have hlt : (n : Int) < limit := by exact_mod_cast h.1
  cases s
  · show -(limit : Int) - 1 < (n : Int) ∧ (n : Int) < limit
    omega
  · show -(limit : Int) - 1 < -(n : Int) - 1 ∧ -(n : Int) - 1 < limit
    omega

/-- The rank of a finite double tells its sign and its units. -/
theorem rank_finite_eq_iff {s t : Bool} {m n : Nat} (hm : Representable m) (hn : Representable n) :
    (finite s m hm).rank = (finite t n hn).rank ↔ s = t ∧ m = n := by
  cases s <;> cases t <;> simp only [rank, true_and, reduceCtorEq, false_and, iff_false] <;> omega

/-- A finite double has another rank than an infinity or NaN. -/
theorem rank_finite_ne {x : Binary64} (hx : x.isFinite = false) {s : Bool} {n : Nat}
    (h : Representable n) : x.rank ≠ (finite s n h).rank := by
  have hbound := rank_finite_mem (s := s) h
  intro heq
  rw [← heq] at hbound
  rcases x with _ | ⟨_ | _⟩ | _
  · simp only [rank] at hbound
    omega
  · simp only [rank] at hbound
    omega
  · simp only [rank] at hbound
    omega
  · cases hx

/-- Different doubles have different ranks. -/
theorem rank_injective {x y : Binary64} (h : x.rank = y.rank) : x = y := by
  have hlimit : (0 : Int) < limit := by exact_mod_cast limit_pos
  cases x with
  | finite s m hm =>
    cases y with
    | finite t n hn =>
      obtain ⟨rfl, rfl⟩ := (rank_finite_eq_iff hm hn).1 h
      rfl
    | nan => exact absurd h.symm (rank_finite_ne rfl hm)
    | infinite t => exact absurd h.symm (rank_finite_ne rfl hm)
  | nan =>
    cases y with
    | finite t n hn => exact absurd h (rank_finite_ne rfl hn)
    | nan => rfl
    | infinite t => cases t <;> simp only [rank] at h <;> omega
  | infinite s =>
    cases y with
    | finite t n hn => exact absurd h (rank_finite_ne rfl hn)
    | nan => cases s <;> simp only [rank] at h <;> omega
    | infinite t =>
      suffices s = t by rw [this]
      cases s <;> cases t <;> simp only [rank, reduceCtorEq] at h ⊢ <;> omega

/-! ## Interchange format -/

/-- The 64 bits of a double: sign, eleven bits of exponent, 52 bits of fraction. -/
def toBits : Binary64 → UInt64
  | .nan => 0x7ff8000000000000
  | .infinite s => word s (2047 <<< 52)
  | .finite s n _ => word s ((n.log2 - 52) <<< 52 + n / spacing n)
where
  /-- A magnitude field under its sign bit. -/
  word (negative : Bool) (magnitude : Nat) : UInt64 :=
    UInt64.ofNat ((if negative then 1 <<< 63 else 0) + magnitude)

end Binary64

end PerfGate
