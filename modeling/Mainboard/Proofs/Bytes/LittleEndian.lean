import Mainboard.Bytes.LittleEndian
import Mathlib.Tactic

/-!
# Little-endian words as numbers

Bytes are the digits of a word in base 256, least significant first. Writing keeps the digits that
fit.
-/
namespace Mainboard.LittleEndian

theorem ofBytes_lt (bs : Bytes) : ofBytes bs < 256 ^ bs.length := by
  induction bs with
  | nil => simp [ofBytes]
  | cons b bs ih =>
    have := b.toNat_lt
    simp only [ofBytes, List.length_cons, Nat.pow_succ]
    omega

theorem ofBytes_toBytes (n v : Nat) : ofBytes (toBytes n v) = v % 256 ^ n := by
  induction n generalizing v with
  | zero => simp [toBytes, ofBytes, Nat.mod_one]
  | succ n ih =>
    have hb : (UInt8.ofNat v).toNat = v % 256 := UInt8.toNat_ofNat'
    rw [toBytes, ofBytes, ih, hb, Nat.pow_succ', Nat.mod_mul]

theorem ofBytes_toBytes_of_lt {n v : Nat} (h : v < 256 ^ n) : ofBytes (toBytes n v) = v := by
  rw [ofBytes_toBytes, Nat.mod_eq_of_lt h]

theorem getD_toBytes {n i : Nat} (hi : i < n) (v : Nat) :
    (toBytes n v).getD i 0 = UInt8.ofNat (v / 256 ^ i) := by
  induction n generalizing i v with
  | zero => exact absurd hi (Nat.not_lt_zero i)
  | succ n ih =>
    cases i with
    | zero => simp [toBytes]
    | succ i =>
      rw [toBytes, List.getD_cons_succ, ih (Nat.lt_of_succ_lt_succ hi),
        Nat.pow_succ', Nat.div_div_eq_div_mul]

end Mainboard.LittleEndian
