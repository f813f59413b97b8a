import Mathlib.Logic.Basic

/-!
# Locks

The state of a lock names its holder, and each client is inside of what the lock guards or is not.
As long as a client takes the lock when it goes in, and gives it back when it comes out, the two
say the same.

* `Guards` — the holder of the lock is the only client that is inside.
* `Guards.exclusive` — so no two of them are.
* `Guards.acquire`, `Guards.release`, `Guards.congr` — the steps of a client.
-/

namespace Lapas

section

variable {ι : Type*} {lock : Option ι} {inside inside' : ι → Prop} {client other : ι}

/-- Who is inside holds the lock. -/
def Guards (lock : Option ι) (inside : ι → Prop) : Prop :=
  ∀ client, lock = some client ↔ inside client

theorem Guards.exclusive (h : Guards lock inside) (hclient : inside client)
    (hother : inside other) : client = other := by
  have heq : some client = some other := ((h client).mpr hclient).symm.trans ((h other).mpr hother)
  exact Option.some.inj heq

/-- The lock is free. -/
theorem Guards.free (h : Guards none inside) : ¬ inside client := by
  intro hclient
  cases (h client).mpr hclient

theorem Guards.congr (h : Guards lock inside) (hiff : ∀ other, inside' other ↔ inside other) :
    Guards lock inside' := fun other => (h other).trans (hiff other).symm

/-- A client takes the lock. -/
theorem Guards.acquire (h : Guards none inside) (hclient : inside' client)
    (hothers : ∀ other, other ≠ client → (inside' other ↔ inside other)) :
    Guards (some client) inside' := by
  intro other
  constructor
  · intro heq
    rwa [← Option.some.inj heq]
  · intro hother
    by_cases heq : other = client
    · rw [heq]
    · exact absurd ((hothers other heq).mp hother) h.free

/-- The holder gives the lock back. -/
theorem Guards.release (h : Guards lock inside) (hclient : inside client)
    (hreleased : ¬ inside' client)
    (hothers : ∀ other, other ≠ client → (inside' other ↔ inside other)) :
    Guards none inside' := by
  intro other
  constructor
  · intro heq
    cases heq
  · intro hother
    by_cases heq : other = client
    · rw [heq] at hother
      exact absurd hother hreleased
    · exact absurd (h.exclusive ((hothers other heq).mp hother) hclient) heq

end

end Lapas
