import Mathlib.Algebra.GroupWithZero.Nat
import Mathlib.Tactic.Conv
import Mathlib.Tactic.SplitIfs

namespace LedgerWatch.Text

def bytes (s : String) : List UInt8 := s.toUTF8.data.toList

theorem bytes_eq (s : String) : bytes s = s.toList.flatMap String.utf8EncodeChar := by
  conv_lhs => rw [← String.ofList_toList (s := s)]
  exact List.toList_data_toByteArray

/-- The lowest digits of a number to the base 64, each in a byte of its own. -/
def continuation : Nat → Nat → List UInt8
  | 0, _ => []
  | k + 1, v => UInt8.ofNat (v / 64 ^ k % 64 + 128) :: continuation k v

def following (v : Nat) : Nat :=
  if v ≤ 127 then 0 else if v ≤ 2047 then 1 else if v ≤ 65535 then 2 else 3

/-- The first byte: a mark for the number of those that follow, and the highest digits. -/
def leading (v : Nat) : Nat :=
  if v ≤ 127 then v else if v ≤ 2047 then v / 64 + 192
  else if v ≤ 65535 then v / 4096 + 224 else v / 262144 + 240

section Characters

variable {v w : Nat} {xs ys : List UInt8}

theorem cons_lt_cons_iff {m n : Nat} (hm : m < 256) (hn : n < 256) :
    UInt8.ofNat m :: xs < UInt8.ofNat n :: ys ↔ m < n ∨ m = n ∧ xs < ys := by
  rw [List.cons_lt_cons_iff, UInt8.lt_iff_toNat_lt, ← UInt8.toNat_inj, UInt8.toNat_ofNat',
    UInt8.toNat_ofNat', Nat.mod_eq_of_lt hm, Nat.mod_eq_of_lt hn]

theorem toNat_lt (c : Char) : c.toNat < 0x110000 := by
  rcases c.valid with h | h
  · exact Nat.lt_trans h (by decide)
  · exact h.2

theorem utf8EncodeChar_eq (c : Char) :
    String.utf8EncodeChar c =
      UInt8.ofNat (leading c.toNat) :: continuation (following c.toNat) c.toNat := by
  have hlt := toNat_lt c
  change c.val.toNat < 0x110000 at hlt
  simp only [String.utf8EncodeChar, leading, following, Char.toNat]
  split_ifs
  · rfl
  · rw [Nat.mod_eq_of_lt (show c.val.toNat / 64 < 32 by omega)]
    simp [continuation]
  · rw [Nat.mod_eq_of_lt (show c.val.toNat / 4096 < 16 by omega)]
    simp [continuation]
  · rw [Nat.mod_eq_of_lt (show c.val.toNat / 262144 < 8 by omega)]
    simp [continuation]

theorem leading_lt (h : v < 0x110000) : leading v < 256 := by
  unfold leading
  split_ifs <;> omega

/-- Of two numbers with the same highest digits the smaller one has the smaller digits below. -/
theorem continuation_append_lt {k : Nat} (hlt : v < w) (hhigh : v / 64 ^ k = w / 64 ^ k) :
    continuation k v ++ xs < continuation k w ++ ys := by
  induction k with
  | zero => simp at hhigh; omega
  | succ k ih =>
    have hdigit : ∀ u, u / 64 ^ (k + 1) = u / 64 ^ k / 64 := fun u => by
      rw [Nat.pow_succ, Nat.div_div_eq_div_mul]
    rw [hdigit, hdigit] at hhigh
    rw [continuation, continuation, List.cons_append, List.cons_append,
      cons_lt_cons_iff (by omega) (by omega)]
    have hle : v / 64 ^ k ≤ w / 64 ^ k := Nat.div_le_div_right (Nat.le_of_lt hlt)
    rcases Nat.lt_or_eq_of_le hle with hless | heq
    · exact .inl (by omega)
    · exact .inr ⟨by rw [heq], ih heq⟩

theorem leading_lt_or_eq (hlt : v < w) : leading v < leading w ∨
    leading v = leading w ∧ following v = following w ∧
      v / 64 ^ following v = w / 64 ^ following v := by
  unfold leading following
  split_ifs <;> simp <;> omega

theorem utf8EncodeChar_append_lt {c d : Char} (h : c < d) :
    String.utf8EncodeChar c ++ xs < String.utf8EncodeChar d ++ ys := by
  have hlt : c.toNat < d.toNat := UInt32.lt_iff_toNat_lt.1 h
  rw [utf8EncodeChar_eq, utf8EncodeChar_eq, List.cons_append, List.cons_append,
    cons_lt_cons_iff (leading_lt (toNat_lt c)) (leading_lt (toNat_lt d))]
  rcases leading_lt_or_eq hlt with hless | ⟨heq, hfollowing, hhigh⟩
  · exact .inl hless
  · rw [← hfollowing]
    exact .inr ⟨heq, continuation_append_lt hlt hhigh⟩

end Characters

theorem flatMap_utf8EncodeChar_lt {cs ds : List Char} (h : cs < ds) :
    cs.flatMap String.utf8EncodeChar < ds.flatMap String.utf8EncodeChar := by
  induction h with
  | nil =>
    rw [List.flatMap_cons, utf8EncodeChar_eq]
    exact List.nil_lt_cons _ _
  | rel h => exact utf8EncodeChar_append_lt h
  | cons _ ih => exact List.append_left_lt ih

/-- The bytes of texts stand in the order of their characters. -/
theorem bytes_lt_bytes {s t : String} (h : s < t) : bytes s < bytes t := by
  rw [bytes_eq, bytes_eq]
  exact flatMap_utf8EncodeChar_lt (String.lt_iff.1 h)

end LedgerWatch.Text
