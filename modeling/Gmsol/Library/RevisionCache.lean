import Mathlib

/-!
# Caches with revision tags

A cached value carries the number of the revision that wrote it.  It counts as
written only in that revision: a cache of any other revision is passed over in
favour of the stored value, so that caches never have to be cleared.
-/

namespace Gmsol

structure Cached (α : Type) where
  rev : ℕ
  value : α
deriving DecidableEq, Repr

namespace Cached

variable {α : Type}

def isDirty (cached : Cached α) (rev : ℕ) : Bool := cached.rev = rev

def cacheGetWith (cached : Cached α) (rev : ℕ) (stored : Cached α) : Cached α :=
  if cached.isDirty rev then cached else stored

/-- The cache after access for writing: it holds the value to be changed. -/
def cacheGetMutWith (cached : Cached α) (rev : ℕ) (stored : Cached α) :
    Cached α :=
  if cached.isDirty rev then cached else { stored with rev }

def modify (cached : Cached α) (write : α → α) : Cached α :=
  { cached with value := write cached.value }

variable {cached stored : Cached α} {rev : ℕ}

theorem cacheGetWith_of_lt (hlt : cached.rev < rev) :
    cached.cacheGetWith rev stored = stored := by
  rw [cacheGetWith, isDirty, if_neg]
  simp [hlt.ne]

@[simp]
theorem rev_cacheGetMutWith : (cached.cacheGetMutWith rev stored).rev = rev := by
  by_cases hdirty : cached.rev = rev <;>
    simp [cacheGetMutWith, isDirty, hdirty]

@[simp]
theorem value_cacheGetMutWith :
    (cached.cacheGetMutWith rev stored).value =
      (cached.cacheGetWith rev stored).value := by
  by_cases hdirty : cached.rev = rev <;>
    simp [cacheGetMutWith, cacheGetWith, isDirty, hdirty]

/-- A write is what the following reads of the same revision return. -/
theorem cacheGetWith_modify (write : α → α) (other : Cached α) :
    (((cached.cacheGetMutWith rev stored).modify write).cacheGetWith rev
      other).value = write (cached.cacheGetWith rev stored).value := by
  simp [cacheGetWith, isDirty, modify]

end Cached

end Gmsol
