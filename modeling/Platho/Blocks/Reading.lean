import Platho.Blocks.Texts

/-!
# Reading what was written

Where the bytes from an offset on are known, a read there gives their first part and leaves the
bytes behind it.
-/

namespace Platho.Blocks

open Js
open Boc (JsExec)

variable {bytes part rest : Bytes} {byte : Byte} {offset : Nat}

/-! ## Parts at an offset -/

theorem length_of_drop (here : bytes.drop offset = byte :: rest) :
    bytes.length = offset + 1 + rest.length := by
  have length := congrArg List.length here
  rw [List.length_drop, List.length_cons] at length
  omega

theorem byteAt_of_drop (here : bytes.drop offset = byte :: rest) :
    byteAt bytes offset = .ok byte.toNat := by
  have found : bytes[offset]? = some byte := by
    rw [← Nat.add_zero offset, ← List.getElem?_drop, here]
    rfl
  rw [byteAt, found]

theorem drop_succ_of_drop (here : bytes.drop offset = byte :: rest) :
    bytes.drop (offset + 1) = rest := by
  rw [← List.drop_drop, here]
  rfl

theorem subarray_of_drop (here : bytes.drop offset = part ++ rest) :
    subarray bytes offset (offset + part.length) = part := by
  rw [subarray, here, Nat.add_sub_cancel_left, List.take_left]

theorem drop_add_of_drop (here : bytes.drop offset = part ++ rest) :
    bytes.drop (offset + part.length) = rest := by
  rw [← List.drop_drop, here, List.drop_left]

theorem readBytes_of_drop (here : bytes.drop offset = part ++ rest) (some_ : part ≠ []) :
    readBytes bytes offset part.length = .ok part := by
  have length := congrArg List.length here
  rw [List.length_drop, List.length_append] at length
  have positive := List.length_pos_of_ne_nil some_
  rw [readBytes, if_pos (by omega), subarray_of_drop here]

theorem toNat_lengthByte (short : part.length < 256) : (lengthByte part).toNat = part.length := by
  rw [lengthByte, BitVec.toNat_ofNat, Nat.mod_eq_of_lt short]

theorem lengthBytes_spec (short : part.length < 65536) :
    ∃ high low : Byte, lengthBytes part = [high, low] ∧
      high.toNat <<< 8 ||| low.toNat = part.length := by
  refine ⟨_, _, rfl, ?_⟩
  have high : (BitVec.ofNat 8 (part.length >>> 8)).toNat = part.length / 256 := by
    rw [BitVec.toNat_ofNat, Nat.shiftRight_eq_div_pow]
    omega
  have low : (BitVec.ofNat 8 part.length).toNat = part.length % 256 := BitVec.toNat_ofNat _ _
  rw [high, low, Nat.shiftLeft_eq, ← Nat.shiftLeft_eq, ← Nat.shiftLeft_add_eq_or_of_lt (by omega),
    Nat.shiftLeft_eq]
  omega

theorem length_bigEndian (count value : Nat) : (bigEndian count value).length = count := by
  induction count generalizing value with
  | zero => rfl
  | succ count ih => rw [bigEndian, List.length_append, ih, List.length_singleton]

theorem bytesToInt_append (bytes bytes' : Bytes) : bytesToInt (bytes ++ bytes') =
    bytes'.foldl (fun x byte => x * 256 + byte.toNat) (bytesToInt bytes) := List.foldl_append

theorem bytesToInt_bigEndian (count value : Nat) :
    bytesToInt (bigEndian count value) = value % 256 ^ count := by
  induction count generalizing value with
  | zero => rw [pow_zero, Nat.mod_one]; rfl
  | succ count ih =>
    have front : value >>> 8 = value / 256 := Nat.shiftRight_eq_div_pow value 8
    have split : value % 256 ^ (count + 1) = value % 256 + 256 * (value / 256 % 256 ^ count) := by
      rw [pow_succ', Nat.mod_mul]
    rw [bigEndian, bytesToInt_append, List.foldl_cons, List.foldl_nil, ih, BitVec.toNat_ofNat,
      front, split]
    omega

/-! ## Reads within the bytes -/

theorem byteAt_ok (bytes : Bytes) (offset : Nat) (inside : offset < bytes.length) :
    ∃ n, byteAt bytes offset = .ok n := by
  rw [byteAt, List.getElem?_eq_getElem inside]
  exact ⟨_, rfl⟩

theorem readBytes_ok (bytes : Bytes) (offset count : Nat) (inside : offset + count ≤ bytes.length) :
    ∃ part, readBytes bytes offset count = .ok part := ⟨_, if_pos inside⟩

end Platho.Blocks
