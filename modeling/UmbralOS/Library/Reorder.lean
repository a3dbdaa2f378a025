import UmbralOS.Library.Program

/-!
This file gives the rules for runs that do not depend on the order of their parts.
-/

namespace UmbralOS.Library

variable {Stop State X : Type}

/-- Every run of the first program that returns has a run of the second program with the same result. -/
def Mirrors (same : State → State → Prop) (first second : Program Stop State Unit) : Prop :=
  ∀ before before' after, same before before' → Returns first before () after →
    ∃ after', Returns second before' () after' ∧ same after after'

/-- Two items give the same result in both orders, whenever the first order returns. -/
def Commutes (same : State → State → Prop) (body : X → Program Stop State Unit) (item other : X) : Prop :=
  Mirrors same (body item >>= fun _ => body other) (body other >>= fun _ => body item)

section Mirrors

variable {same : State → State → Prop} {first second third : Program Stop State Unit}

theorem Mirrors.bind {first' second' : Program Stop State Unit} (head : Mirrors same first first')
    (tail : Mirrors same second second') :
    Mirrors same (first >>= fun _ => second) (first' >>= fun _ => second') := by
  intro before before' after related returned
  obtain ⟨_, middle, started, finished⟩ := (returns_bind _ _ _ _ _).mp returned
  obtain ⟨middle', started', between⟩ := head before before' middle related started
  obtain ⟨after', finished', ended⟩ := tail middle middle' after between finished
  exact ⟨after', (returns_bind _ _ _ _ _).mpr ⟨(), middle', started', finished'⟩, ended⟩

theorem Mirrors.trans (equivalence : Equivalence same) (head : Mirrors same first second)
    (tail : Mirrors same second third) : Mirrors same first third := by
  intro before before' after related returned
  obtain ⟨middle, moved, near⟩ := head before before' after related returned
  obtain ⟨after', finished, far⟩ := tail before' before' middle (equivalence.refl before') moved
  exact ⟨after', finished, equivalence.trans near far⟩

/-- A program that mirrors itself mirrors another program when it does so from one state. -/
theorem mirrors_of_same (equivalence : Equivalence same) (respects : Mirrors same first first)
    (step : ∀ before after, Returns first before () after → ∃ after', Returns second before () after' ∧ same after after') :
    Mirrors same first second := by
  intro before before' after related returned
  obtain ⟨middle, moved, near⟩ := respects before before' after related returned
  obtain ⟨after', finished, far⟩ := step before' middle moved
  exact ⟨after', finished, equivalence.trans near far⟩

end Mirrors

section Reorder

variable {same : State → State → Prop} {body : X → Program Stop State Unit}
  (respects : ∀ item, Mirrors same (body item) (body item))

include respects

theorem mirrors_forM (items : List X) : Mirrors same (items.forM body) (items.forM body) := by
  induction items with
  | nil =>
      intro before before' after related returned
      obtain ⟨_, rfl⟩ := (returns_pure _ _ _ _).mp returned
      exact ⟨before', (returns_pure _ _ _ _).mpr ⟨rfl, rfl⟩, related⟩
  | cons item items ih => exact (respects item).bind ih

/-- Two adjacent items that commute can be swapped. -/
theorem mirrors_forM_swap {item other : X} (commutes : Commutes same body item other) (rest : List X) :
    Mirrors same ((item :: other :: rest).forM body) ((other :: item :: rest).forM body) := by
  have step := commutes.bind (mirrors_forM respects rest)
  rw [bind_assoc, bind_assoc] at step
  exact step

variable (equivalence : Equivalence same)

include equivalence

/-- An item that commutes with the earlier items can be moved to the front. -/
theorem mirrors_forM_front {earlier later : List X} {item : X}
    (commutes : ∀ other ∈ earlier, Commutes same body other item) :
    Mirrors same ((earlier ++ item :: later).forM body) ((item :: (earlier ++ later)).forM body) := by
  induction earlier with
  | nil => exact mirrors_forM respects _
  | cons other earlier ih =>
      have moved := ih fun found member => commutes found (List.mem_cons_of_mem _ member)
      have kept : Mirrors same ((other :: (earlier ++ item :: later)).forM body)
          ((other :: item :: (earlier ++ later)).forM body) := (respects other).bind moved
      exact kept.trans equivalence (mirrors_forM_swap respects (commutes other List.mem_cons_self) _)

/-- An item at the front that commutes with the next items can be moved behind them. -/
theorem mirrors_forM_back {earlier later : List X} {item : X}
    (commutes : ∀ other ∈ earlier, Commutes same body item other) :
    Mirrors same ((item :: (earlier ++ later)).forM body) ((earlier ++ item :: later).forM body) := by
  induction earlier with
  | nil => exact mirrors_forM respects _
  | cons other earlier ih =>
      have moved := ih fun found member => commutes found (List.mem_cons_of_mem _ member)
      have kept : Mirrors same ((other :: item :: (earlier ++ later)).forM body)
          ((other :: (earlier ++ item :: later)).forM body) := (respects other).bind moved
      exact (mirrors_forM_swap respects (commutes other List.mem_cons_self) _).trans equivalence kept

/-- Items that commute in pairs can be handled in any order. -/
theorem mirrors_forM_perm {items items' : List X} (perm : items.Perm items')
    (commutes : items.Pairwise fun item other => Commutes same body item other ∧ Commutes same body other item) :
    Mirrors same (items.forM body) (items'.forM body) := by
  induction perm with
  | nil => exact mirrors_forM respects []
  | cons item _ ih => exact (respects item).bind (ih (List.pairwise_cons.mp commutes).2)
  | swap item other rest =>
      have pair := (List.pairwise_cons.mp commutes).1 item List.mem_cons_self
      exact mirrors_forM_swap respects pair.1 rest
  | trans front _ first second =>
      have middle := (front.pairwise_iff fun pair => And.symm pair).mp commutes
      exact (first commutes).trans equivalence (second middle)

end Reorder

end UmbralOS.Library
