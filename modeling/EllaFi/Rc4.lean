import EllaFi.ArcFour
import EllaFi.CheckedMemory

/-!
The cipher of the device plane, and the emulator's. Both hold the table of the permutation,
one in bytes and one in integers, and both encrypt with the keystream of the same shuffle
(`ecspRc4_crypt`, `rc4_crypt`); no access is out of bounds, the table is a permutation of
the bytes throughout, and what is encrypted twice is what it was (`rc4_correct`).
-/
namespace EllaFi.Rc4
open EllaFi.ArcFour (Schedule Generator scheduled generated keystream crypt crypt_crypt)
open EllaFi.CheckedMemory

/-! ## The device -/

/-- The table and the index of the key schedule. -/
structure Keyed (Cell : Type) where
  S : List Cell
  j : Nat

/-- The table and the indices of the data phase, and the buffer of the output. -/
structure Crypting (Cell : Type) where
  S : List Cell
  a : Nat
  b : Nat
  out : List UInt8

def keyTurn (key : List UInt8) (i : Nat) (s : Keyed UInt8) : Option (Keyed UInt8) := do
  let own ← read s.S i
  let k ← read key (i % key.length)
  let j := (s.j + own.toNat + k.toNat) &&& 0xFF
  let S ← swap s.S i j
  return { S, j }

def keySchedule (key : List UInt8) : Option (Keyed UInt8) :=
  loop (keyTurn key) { S := (List.range 256).map UInt8.ofNat, j := 0 } 256

def dataTurn (input : List UInt8) (n : Nat) (s : Crypting UInt8) : Option (Crypting UInt8) := do
  let a := (s.a + 1) &&& 0xFF
  let own ← read s.S a
  let b := (s.b + own.toNat) &&& 0xFF
  let S ← swap s.S a b
  let x ← read input n
  let first ← read S a
  let second ← read S b
  let mask ← read S ((first.toNat + second.toNat) &&& 0xFF)
  let out ← write s.out n (x ^^^ mask)
  return { S, a, b, out }

def dataPhase (S input out : List UInt8) : Option (Crypting UInt8) :=
  loop (dataTurn input) { S, a := 0, b := 0, out } input.length

/-- The output goes to a buffer of the input's length. -/
def ecspRc4 (key input out : List UInt8) : Option (List UInt8) := do
  let s ← keySchedule key
  let s ← dataPhase s.S input out
  return s.out

/-! ## The emulator -/

namespace Emulator

def keyTurn (key : List UInt8) (i : Nat) (s : Keyed Nat) : Option (Keyed Nat) := do
  let own ← read s.S i
  let k ← read key (i % key.length)
  let j := (s.j + own + k.toNat) &&& 0xFF
  let S ← swap s.S i j
  return { S, j }

/-- An array of bytes takes no integer from 256 on. -/
def writeByte (out : List UInt8) (n value : Nat) : Option (List UInt8) :=
  if value < 256 then write out n (.ofNat value) else none

def dataTurn (data : List UInt8) (n : Nat) (s : Crypting Nat) : Option (Crypting Nat) := do
  let i := (s.a + 1) &&& 0xFF
  let own ← read s.S i
  let j := (s.b + own) &&& 0xFF
  let S ← swap s.S i j
  let x ← read data n
  let first ← read S i
  let second ← read S j
  let mask ← read S ((first + second) &&& 0xFF)
  let out ← writeByte s.out n (x.toNat ^^^ mask)
  return { S, a := i, b := j, out }

def rc4 (data key : List UInt8) : Option (List UInt8) := do
  let s ← loop (keyTurn key) { S := List.range 256, j := 0 } 256
  let s ← loop (dataTurn data) { S := s.S, a := 0, b := 0, out := List.replicate data.length 0 } data.length
  return s.out

end Emulator

/-! ## Bytes -/

def byte (i : Fin 256) : UInt8 := .ofNat i

@[simp] theorem toNat_byte (i : Fin 256) : (byte i).toNat = i := by
  rw [byte, UInt8.toNat_ofNat', Nat.mod_eq_of_lt i.isLt]

theorem mask_low (x : Nat) : x &&& 0xFF = x % 256 := Nat.and_two_pow_sub_one_eq_mod x 8

theorem low_add (i j : Fin 256) : ((i : Nat) + j) &&& 0xFF = (i + j : Fin 256) := by
  rw [mask_low, Fin.val_add]

theorem low_add₃ (i j k : Fin 256) : ((i : Nat) + j + k) &&& 0xFF = (i + j + k : Fin 256) := by
  rw [mask_low, Fin.val_add, Fin.val_add, Nat.mod_add_mod]

theorem low_succ (i : Fin 256) : ((i : Nat) + 1) &&& 0xFF = (i + 1 : Fin 256) := low_add i 1

/-- The byte of the key that is used at a turn. -/
def keyAt (key : List UInt8) (i : Nat) : Fin 256 := .ofNat 256 (key.getD (i % key.length) 0).toNat

theorem read_key {key : List UInt8} (nonempty : key ≠ []) (i : Nat) :
    ∃ k, read key (i % key.length) = some k ∧ k.toNat = keyAt key i := by
  have inside : i % key.length < key.length := Nat.mod_lt i (List.length_pos_iff.mpr nonempty)
  refine ⟨key[i % key.length], read_some inside, ?_⟩
  rw [keyAt, List.getD_eq_getElem?_getD, List.getElem?_eq_getElem inside, Option.getD_some, Fin.val_ofNat,
    Nat.mod_eq_of_lt (UInt8.toNat_lt _)]

def masked (x : UInt8) (key : Fin 256) : UInt8 := x ^^^ byte key

theorem masked_masked (x : UInt8) (key : Fin 256) : masked (masked x key) key = x := by
  rw [masked, masked, UInt8.xor_assoc, UInt8.xor_self, UInt8.xor_zero]

/-- The permutation that the key schedule ends with. -/
def keyed (key : List UInt8) : Equiv.Perm (Fin 256) := (scheduled (keyAt key) 256).perm

/-! ## The shuffles -/

section
variable {Cell : Type} {key input out : List UInt8}

/-- The table and the index of a schedule. -/
def shownKey (enc : Fin 256 → Cell) (s : Schedule 256) : Keyed Cell := { S := table enc s.perm, j := s.j }

/-- The table and the indices of a generator, with the output so far. -/
def shownData (enc : Fin 256 → Cell) (g : Generator 256) (out : List UInt8) : Crypting Cell :=
  { S := table enc g.perm, a := g.a, b := g.b, out }

/-- The output buffer after the first bytes. -/
def filled (key input out : List UInt8) (n : Nat) : List UInt8 :=
  (crypt masked (keyed key) input).take n ++ out.drop n

theorem keyTurn_shown (nonempty : key ≠ []) {i : Nat} (inside : i < 256) (s : Schedule 256) :
    keyTurn key i (shownKey byte s) = some (shownKey byte (s.stir (.ofNat 256 i) (keyAt key i))) := by
  obtain ⟨k, found, value⟩ := read_key nonempty i
  obtain ⟨i, rfl⟩ : ∃ turn : Fin 256, (turn : Nat) = i := ⟨⟨i, inside⟩, rfl⟩
  simp only [keyTurn, shownKey, read_table, found, Option.bind_eq_bind, Option.bind_some, toNat_byte, value, low_add₃,
    swap_table, Schedule.stir, Fin.ofNat_val_eq_self]
  rfl

theorem keySchedule_some (nonempty : key ≠ []) :
    keySchedule key = some { S := table byte (keyed key), j := (scheduled (keyAt key) 256).j } := by
  have first : ({ S := (List.range 256).map UInt8.ofNat, j := 0 } : Keyed UInt8) = shownKey byte (scheduled (keyAt key) 0) :=
    congrArg (Keyed.mk · 0) (table_one UInt8.ofNat).symm
  rw [keySchedule, first]
  exact loop_view (fun i => shownKey byte (scheduled (keyAt key) i)) fun i inside => keyTurn_shown nonempty inside _

theorem write_filled (key : List UInt8) (fits : out.length = input.length) {n : Nat} (inside : n < input.length) :
    write (filled key input out n) n (masked input[n] (keystream (keyed key) n)) = some (filled key input out (n + 1)) := by
  have next := write_next (by simpa using fits : out.length = (crypt masked (keyed key) input).length)
    (by simpa using inside : n < (crypt masked (keyed key) input).length)
  simpa [crypt, filled] using next

theorem filled_zero : filled key input out 0 = out := rfl

theorem filled_all (fits : out.length = input.length) :
    filled key input out input.length = crypt masked (keyed key) input := by
  rw [filled, List.take_of_length_le (by simp), List.drop_eq_nil_of_le (by omega), List.append_nil]

theorem dataTurn_shown (key : List UInt8) (fits : out.length = input.length) {n : Nat} (inside : n < input.length) :
    dataTurn input n (shownData byte (generated (keyed key) n) (filled key input out n)) =
      some (shownData byte (generated (keyed key) (n + 1)) (filled key input out (n + 1))) := by
  have written := write_filled key fits inside
  simp only [keystream, Generator.symbol, generated, Generator.advance, masked] at written
  simp only [dataTurn, shownData, low_succ, read_table, Option.bind_eq_bind, Option.bind_some, toNat_byte, low_add,
    swap_table, read_some inside, written, generated, Generator.advance]
  rfl

theorem dataPhase_some (key : List UInt8) (fits : out.length = input.length) :
    dataPhase (table byte (keyed key)) input out =
      some (shownData byte (generated (keyed key) input.length) (crypt masked (keyed key) input)) := by
  have turns := loop_view (fun n => shownData byte (generated (keyed key) n) (filled key input out n)) fun n inside =>
    dataTurn_shown key fits inside
  rwa [filled_all fits] at turns

/-- The device encrypts with the keystream of the shuffle. -/
theorem ecspRc4_crypt (nonempty : key ≠ []) (fits : out.length = input.length) :
    ecspRc4 key input out = some (crypt masked (keyed key) input) := by
  simp only [ecspRc4, keySchedule_some nonempty, dataPhase_some key fits, Option.bind_eq_bind, Option.bind_some, shownData]
  rfl

namespace Emulator

theorem keyTurn_shown (nonempty : key ≠ []) {i : Nat} (inside : i < 256) (s : Schedule 256) :
    keyTurn key i (shownKey Fin.val s) = some (shownKey Fin.val (s.stir (.ofNat 256 i) (keyAt key i))) := by
  obtain ⟨k, found, value⟩ := read_key nonempty i
  obtain ⟨i, rfl⟩ : ∃ turn : Fin 256, (turn : Nat) = i := ⟨⟨i, inside⟩, rfl⟩
  simp only [keyTurn, shownKey, read_table, found, Option.bind_eq_bind, Option.bind_some, value, low_add₃, swap_table,
    Schedule.stir, Fin.ofNat_val_eq_self]
  rfl

/-- The masked byte is one. -/
theorem writeByte_masked (target : List UInt8) (n : Nat) (x : UInt8) (key : Fin 256) :
    writeByte target n (x.toNat ^^^ key) = write target n (masked x key) := by
  have value : (masked x key).toNat = x.toNat ^^^ key := by rw [masked, UInt8.toNat_xor, toNat_byte]
  rw [writeByte, ← value, if_pos (UInt8.toNat_lt _), UInt8.ofNat_toNat]

theorem dataTurn_shown (key : List UInt8) (fits : out.length = input.length) {n : Nat} (inside : n < input.length) :
    dataTurn input n (shownData Fin.val (generated (keyed key) n) (filled key input out n)) =
      some (shownData Fin.val (generated (keyed key) (n + 1)) (filled key input out (n + 1))) := by
  have written := write_filled key fits inside
  simp only [keystream, Generator.symbol, generated, Generator.advance] at written
  simp only [dataTurn, shownData, low_succ, read_table, Option.bind_eq_bind, Option.bind_some, low_add, swap_table,
    read_some inside, writeByte_masked, written, generated, Generator.advance]
  rfl

/-- So does the emulator. -/
theorem rc4_crypt (nonempty : key ≠ []) : rc4 input key = some (crypt masked (keyed key) input) := by
  have first : ({ S := List.range 256, j := 0 } : Keyed Nat) = shownKey Fin.val (scheduled (keyAt key) 0) :=
    congrArg (Keyed.mk · 0) ((table_one id).trans (List.map_id _)).symm
  have keys : loop (keyTurn key) { S := List.range 256, j := 0 } 256 =
      some { S := table Fin.val (keyed key), j := (scheduled (keyAt key) 256).j } := by
    rw [first]
    exact loop_view (fun i => shownKey Fin.val (scheduled (keyAt key) i)) fun i inside => keyTurn_shown nonempty inside _
  have turns := loop_view (fun n => shownData Fin.val (generated (keyed key) n) (filled key input (List.replicate input.length 0) n))
    fun n inside => dataTurn_shown key List.length_replicate inside
  rw [filled_all List.length_replicate] at turns
  simp only [shownData, generated, filled_zero] at turns
  simp only [rc4, keys, Option.bind_eq_bind, Option.bind_some]
  exact congrArg (Option.bind · _) turns

end Emulator

/-- The bytes in their order. -/
def bytes : List UInt8 := (List.range 256).map UInt8.ofNat

theorem table_bytes (perm : Equiv.Perm (Fin 256)) : (table byte perm).Perm bytes :=
  (table_perm byte perm).trans (.of_eq (table_one UInt8.ofNat))

/-- For every key but the empty one and all data no access is out of bounds, the table
    stays a permutation of the bytes, the output is the emulator's, and encrypted again it
    is the data. -/
theorem rc4_correct (nonempty : key ≠ []) (fits : out.length = input.length) :
    ∃ s t, keySchedule key = some s ∧ s.S.Perm bytes ∧ s.j < 256 ∧
      dataPhase s.S input out = some t ∧ t.S.Perm bytes ∧ t.a < 256 ∧ t.b < 256 ∧
      ecspRc4 key input out = some t.out ∧ Emulator.rc4 input key = some t.out ∧
      ∀ again : List UInt8, again.length = t.out.length → ecspRc4 key t.out again = some input := by
  have keys := keySchedule_some nonempty
  have crypted := dataPhase_some key fits
  refine ⟨_, shownData byte (generated (keyed key) input.length) (crypt masked (keyed key) input), keys, ?_⟩
  dsimp only [shownData] at crypted ⊢
  refine ⟨table_bytes _, Fin.isLt _, crypted, table_bytes _, Fin.isLt _, Fin.isLt _, ecspRc4_crypt nonempty fits,
    Emulator.rc4_crypt nonempty, fun again same => ?_⟩
  exact (ecspRc4_crypt nonempty same).trans (congrArg some (crypt_crypt masked (keyed key) masked_masked input))

end

theorem rc4_correct_selftest :
    ∃ s t, keySchedule [75, 101, 121] = some s ∧ s.S.Perm bytes ∧ s.j < 256 ∧
      dataPhase s.S [80, 108, 97, 105, 110, 116, 101, 120, 116] (List.replicate 9 0) = some t ∧ t.S.Perm bytes ∧
      t.a < 256 ∧ t.b < 256 ∧
      ecspRc4 [75, 101, 121] [80, 108, 97, 105, 110, 116, 101, 120, 116] (List.replicate 9 0) = some t.out ∧
      Emulator.rc4 [80, 108, 97, 105, 110, 116, 101, 120, 116] [75, 101, 121] = some t.out ∧
      ∀ again : List UInt8, again.length = t.out.length →
        ecspRc4 [75, 101, 121] t.out again = some [80, 108, 97, 105, 110, 116, 101, 120, 116] :=
  rc4_correct (by decide) rfl

end EllaFi.Rc4
