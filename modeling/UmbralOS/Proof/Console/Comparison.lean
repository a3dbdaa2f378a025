import Mathlib.Data.Int.Order.Basic
import UmbralOS.Kernel.Common
import UmbralOS.Library.Strings

/-!
This file proves how `strncmp` orders two strings.
-/

namespace UmbralOS

open Library

/-- The first `n` bytes of the two strings differ first at this index, before a NUL of either. -/
abbrev DiffersAt (s1 s2 : Memory) (n i : Nat) : Prop := DiffersFirst 0#8 s1 s2 n 0 i

/-- The indices at which the loop of `strncmp` reads both strings. -/
def strncmpReads (s1 s2 : Memory) : Nat → Nat → List Nat
  | 0, _ => []
  | remaining + 1, i =>
      i :: if s1 i ≠ s2 i then [] else if s1 i = 0 then [] else strncmpReads s1 s2 remaining (i + 1)

/-- A read index is in the range, and neither string has ended before it. -/
theorem strncmpReads_within {s1 s2 : Memory} {remaining start i : Nat} (read : i ∈ strncmpReads s1 s2 remaining start) :
    start ≤ i ∧ i < start + remaining ∧ ∀ j, start ≤ j → j < i → s1 j ≠ 0 ∧ s2 j ≠ 0 := by
  induction remaining generalizing start with
  | zero => simp [strncmpReads] at read
  | succ remaining ih =>
      rw [strncmpReads, List.mem_cons] at read
      rcases read with here | read
      · subst here
        exact ⟨le_refl i, by omega, fun j lower before => by omega⟩
      · split_ifs at read with differ ended
        · simp at read
        · simp at read
        · obtain ⟨lower, upper, running⟩ := ih read
          refine ⟨by omega, by omega, ?_⟩
          intro j inside before
          by_cases here : j = start
          · subst here
            simp only [ne_eq, not_not] at differ
            exact ⟨ended, differ ▸ ended⟩
          · exact running j (by omega) before

/-- The result depends only on the read bytes. -/
theorem strncmpFrom_congr {s1 s2 t1 t2 : Memory} {remaining start : Nat}
    (same : ∀ i ∈ strncmpReads s1 s2 remaining start, t1 i = s1 i ∧ t2 i = s2 i) :
    strncmpFrom t1 t2 remaining start = strncmpFrom s1 s2 remaining start := by
  induction remaining generalizing start with
  | zero => rfl
  | succ remaining ih =>
      obtain ⟨same1, same2⟩ := same start (by simp [strncmpReads])
      rw [strncmpFrom, strncmpFrom, same1, same2]
      split_ifs with differ ended
      · rfl
      · rfl
      · apply ih
        intro i read
        apply same i
        rw [strncmpReads, if_neg differ, if_neg ended]
        exact List.mem_cons_of_mem start read

/-- The loop returns the signed difference at the first difference of the two strings. -/
theorem strncmpFrom_of_differs {s1 s2 : Memory} {remaining start i : Nat}
    (found : DiffersFirst 0#8 s1 s2 remaining start i) :
    strncmpFrom s1 s2 remaining start = (s1 i).toInt - (s2 i).toInt := by
  induction remaining generalizing start with
  | zero => exact absurd found not_differsFirst_zero
  | succ remaining ih =>
      rw [strncmpFrom]
      split_ifs with differ ended
      · rw [(differsFirst_of_ne differ).mp found]
      · exact absurd found (not_differsFirst_of_end (not_not.mp differ) ended)
      · exact ih ((differsFirst_succ (not_not.mp differ) ended).mp found)

theorem strncmpFrom_of_agrees {s1 s2 : Memory} {remaining start : Nat}
    (none : ∀ i, ¬ DiffersFirst 0#8 s1 s2 remaining start i) : strncmpFrom s1 s2 remaining start = 0 := by
  induction remaining generalizing start with
  | zero => rfl
  | succ remaining ih =>
      rw [strncmpFrom]
      split_ifs with differ ended
      · exact absurd ((differsFirst_of_ne differ).mpr rfl) (none start)
      · rfl
      · apply ih
        intro i found
        exact none i ((differsFirst_succ (not_not.mp differ) ended).mpr found)

/-- Two different bytes have different signed values. -/
theorem toInt_sub_ne_zero {first second : BitVec 8} (differ : first ≠ second) : first.toInt - second.toInt ≠ 0 := by
  intro same
  exact differ (BitVec.toInt_inj.mp (by omega))

/-- The sign of the result is the order of the signed first different bytes. -/
theorem strncmp_neg_iff (s1 s2 : Memory) (n : Nat) :
    strncmp s1 s2 n < 0 ↔ ∃ i, DiffersAt s1 s2 n i ∧ (s1 i).toInt < (s2 i).toInt := by
  by_cases agree : ∀ i, ¬ DiffersAt s1 s2 n i
  · rw [strncmp, strncmpFrom_of_agrees agree]
    simp [agree]
  · obtain ⟨i, found⟩ := not_forall_not.mp agree
    rw [strncmp, strncmpFrom_of_differs found]
    constructor
    · exact fun below => ⟨i, found, by omega⟩
    · intro below
      obtain ⟨i', other, below⟩ := below
      rw [found.unique other]
      omega

theorem strncmp_zero_iff (s1 s2 : Memory) (n : Nat) :
    strncmp s1 s2 n = 0 ↔ ∀ i, ¬ DiffersAt s1 s2 n i := by
  constructor
  · intro zero i found
    rw [strncmp, strncmpFrom_of_differs found] at zero
    exact toInt_sub_ne_zero found.differ zero
  · exact strncmpFrom_of_agrees

/-- The exchange of the two strings turns the sign of the result. -/
theorem strncmp_swap (s1 s2 : Memory) (n : Nat) : strncmp s2 s1 n = -strncmp s1 s2 n := by
  by_cases agree : ∀ i, ¬ DiffersAt s1 s2 n i
  · rw [(strncmp_zero_iff s1 s2 n).mpr agree, (strncmp_zero_iff s2 s1 n).mpr fun i found => agree i found.symm]
    rfl
  · obtain ⟨i, found⟩ := not_forall_not.mp agree
    rw [strncmp, strncmp, strncmpFrom_of_differs found, strncmpFrom_of_differs found.symm]
    omega

/-- The first `n` bytes of a string up to its NUL, as signed numbers. -/
def signedText (s : Memory) (n : Nat) : List Int := (cut 0#8 s n 0).map BitVec.toInt

/-- The first `n` bytes of a string up to its NUL, as unsigned numbers. -/
def unsignedText (s : Memory) (n : Nat) : List Nat := (cut 0#8 s n 0).map BitVec.toNat

theorem signedText_lt_iff (s1 s2 : Memory) (n : Nat) : signedText s1 n < signedText s2 n ↔ strncmp s1 s2 n < 0 := by
  rw [strncmp_neg_iff]
  exact cut_lt_iff (fun _ _ same => BitVec.toInt_inj.mp same) n 0

theorem unsignedText_lt_iff (s1 s2 : Memory) (n : Nat) :
    unsignedText s1 n < unsignedText s2 n ↔ ∃ i, DiffersAt s1 s2 n i ∧ (s1 i).toNat < (s2 i).toNat :=
  cut_lt_iff (fun _ _ same => BitVec.toNat_inj.mp same) n 0

/-- The result never orders three strings in a cycle. -/
theorem strncmp_trans {s1 s2 s3 : Memory} {n : Nat} (first : strncmp s1 s2 n ≤ 0) (second : strncmp s2 s3 n ≤ 0) :
    strncmp s1 s3 n ≤ 0 := by
  have ordered : ∀ s t : Memory, strncmp s t n ≤ 0 ↔ ¬ signedText t n < signedText s n := by
    intro s t
    rw [signedText_lt_iff, strncmp_swap s t]
    omega
  rw [ordered] at first second ⊢
  exact not_lt.mpr (le_trans (not_lt.mp first) (not_lt.mp second))

/-- The comparison meets the C standard for two strings and one bound. -/
structure OrdersUnsigned (s1 s2 : Memory) (n : Nat) : Prop where
  /-- A read index is below the bound, and no string has ended before it. -/
  reads : ∀ i ∈ strncmpReads s1 s2 n 0, i < n ∧ ∀ j < i, s1 j ≠ 0 ∧ s2 j ≠ 0
  /-- The result depends on nothing but the read bytes. -/
  depends : ∀ t1 t2 : Memory, (∀ i ∈ strncmpReads s1 s2 n 0, t1 i = s1 i ∧ t2 i = s2 i) →
    strncmp t1 t2 n = strncmp s1 s2 n
  equal : strncmp s1 s2 n = 0 ↔ ∀ i < n, (∀ j < i, ¬ (s1 j = 0 ∧ s2 j = 0)) → s1 i = s2 i
  negative : ∀ i, DiffersAt s1 s2 n i → (strncmp s1 s2 n < 0 ↔ (s1 i).toNat < (s2 i).toNat)
  positive : ∀ i, DiffersAt s1 s2 n i → (0 < strncmp s1 s2 n ↔ (s2 i).toNat < (s1 i).toNat)
  lexicographic : strncmp s1 s2 n < 0 ↔ unsignedText s1 n < unsignedText s2 n

/-- Two bytes have the same signed and unsigned order exactly when they agree in the top bit. -/
theorem toInt_lt_iff_toNat_lt {first second : BitVec 8} (differ : first ≠ second) :
    (first.toInt < second.toInt ↔ first.toNat < second.toNat) ↔ first.msb = second.msb := by
  have apart : first.toNat ≠ second.toNat := fun same => differ (BitVec.toNat_inj.mp same)
  have bound1 := first.isLt
  have bound2 := second.isLt
  rw [BitVec.toInt_eq_msb_cond, BitVec.toInt_eq_msb_cond, BitVec.msb_eq_decide, BitVec.msb_eq_decide,
    decide_eq_decide]
  split_ifs with high1 high2 high2
  all_goals simp only [decide_eq_true_eq] at high1 high2
  all_goals omega

/-- The comparison meets the C standard exactly when the first different bytes agree in the top bit,
and it is always an order. -/
theorem strncmp_orders_exact (s1 s2 : Memory) (n : Nat) :
    (OrdersUnsigned s1 s2 n ↔ ∀ i, DiffersAt s1 s2 n i → (s1 i).msb = (s2 i).msb) ∧
      strncmp s2 s1 n = -strncmp s1 s2 n ∧
      ∀ s3, strncmp s1 s2 n ≤ 0 → strncmp s2 s3 n ≤ 0 → strncmp s1 s3 n ≤ 0 := by
  refine ⟨⟨?_, ?_⟩, strncmp_swap s1 s2 n, fun s3 => strncmp_trans⟩
  · intro orders i found
    apply (toInt_lt_iff_toNat_lt found.differ).mp
    rw [← orders.negative i found, strncmp, strncmpFrom_of_differs found]
    omega
  · intro high
    have signed : ∀ i, DiffersAt s1 s2 n i → strncmp s1 s2 n = (s1 i).toInt - (s2 i).toInt :=
      fun i found => strncmpFrom_of_differs found
    have order : ∀ i, DiffersAt s1 s2 n i → ((s1 i).toInt < (s2 i).toInt ↔ (s1 i).toNat < (s2 i).toNat) :=
      fun i found => (toInt_lt_iff_toNat_lt found.differ).mpr (high i found)
    constructor
    · intro i read
      obtain ⟨_, upper, running⟩ := strncmpReads_within read
      exact ⟨by omega, fun j before => running j (Nat.zero_le j) before⟩
    · exact fun t1 t2 same => strncmpFrom_congr same
    · rw [strncmp_zero_iff]
      exact (agree_iff_not_differsFirst n).symm
    · intro i found
      rw [signed i found, ← order i found]
      omega
    · intro i found
      have reverse := (toInt_lt_iff_toNat_lt found.symm.differ).mpr (high i found).symm
      rw [signed i found, ← reverse]
      omega
    · rw [strncmp_neg_iff, unsignedText_lt_iff]
      apply exists_congr
      intro i
      exact and_congr_right fun found => order i found

/-- The byte `0x80` stands before the end of a string for the code, and after it in the C standard. -/
theorem not_ordersUnsigned_high : ¬ OrdersUnsigned (fun i => if i = 0 then 0x80 else 0) (fun _ => 0) 1 := by
  intro orders
  have found : DiffersAt (fun i => if i = 0 then 0x80 else 0) (fun _ => 0) 1 0 :=
    ⟨le_refl 0, by decide, by decide, fun j _ before => by omega⟩
  exact absurd ((orders.negative 0 found).mp (by decide)) (by decide)

end UmbralOS
