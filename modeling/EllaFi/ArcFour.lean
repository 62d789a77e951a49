import Mathlib.GroupTheory.Perm.Basic
import Mathlib.Logic.Equiv.Basic
import Mathlib.Data.ZMod.Defs

/-!
The stream cipher that shuffles a permutation, for tables of any size. The key stirs the
identity; each symbol of the stream is read from the table after another swap. The stream
does not depend on the data, so a cipher that masks by an involution is one itself
(`crypt_crypt`).
-/
namespace EllaFi.ArcFour
universe u
variable {n : Nat} [NeZero n]

/-! ## The key -/

structure Schedule (n : Nat) where
  perm : Equiv.Perm (Fin n)
  j : Fin n

def Schedule.stir (s : Schedule n) (i key : Fin n) : Schedule n :=
  let j := s.j + s.perm i + key
  { perm := s.perm * Equiv.swap i j, j }

/-- The schedule after the first turns. -/
def scheduled (key : Nat → Fin n) : Nat → Schedule n
  | 0 => { perm := 1, j := 0 }
  | i + 1 => (scheduled key i).stir (.ofNat n i) (key i)

/-! ## The stream -/

structure Generator (n : Nat) where
  perm : Equiv.Perm (Fin n)
  a : Fin n
  b : Fin n

def Generator.advance (g : Generator n) : Generator n :=
  let a := g.a + 1
  let b := g.b + g.perm a
  { perm := g.perm * Equiv.swap a b, a, b }

def Generator.symbol (g : Generator n) : Fin n := g.perm (g.perm g.a + g.perm g.b)

/-- The generator after the first symbols. -/
def generated (perm : Equiv.Perm (Fin n)) : Nat → Generator n
  | 0 => { perm, a := 0, b := 0 }
  | k + 1 => (generated perm k).advance

def keystream (perm : Equiv.Perm (Fin n)) (k : Nat) : Fin n := (generated perm (k + 1)).symbol

section
variable {Symbol : Type u} (mask : Symbol → Fin n → Symbol) (perm : Equiv.Perm (Fin n))

def crypt (data : List Symbol) : List Symbol := data.mapIdx fun k x => mask x (keystream perm k)

@[simp] theorem length_crypt (data : List Symbol) : (crypt mask perm data).length = data.length := List.length_mapIdx

theorem crypt_crypt (involutive : ∀ x key, mask (mask x key) key = x) (data : List Symbol) :
    crypt mask perm (crypt mask perm data) = data := by
  refine List.ext_getElem (by simp) fun k _ _ => ?_
  simp [crypt, involutive]

end

end EllaFi.ArcFour
