import Mathlib.Dynamics.PeriodicPts.Defs
import LedgerWatch.Random.Draws

namespace LedgerWatch.Random

variable {σ α : Type} {attempt : σ → Option α × σ}

/-- Tries behind an accepted one are not made. -/
theorem retry_add_of_accepted (last : α) {n : Nat} {s : σ}
    (h : ∃ i < n, (attempt ((fun s => (attempt s).2)^[i] s)).1.isSome) (more : Nat) :
    retry attempt last (n + more) s = retry attempt last n s := by
  induction n generalizing s with
  | zero =>
    obtain ⟨i, hi, -⟩ := h
    exact absurd hi (Nat.not_lt_zero i)
  | succ n ih =>
    rw [Nat.succ_add]
    cases hs : attempt s with
    | mk tried rest =>
      cases tried with
      | some x => simp only [retry, hs]
      | none =>
        simp only [retry, hs]
        apply ih
        obtain ⟨i, hi, haccepted⟩ := h
        cases i with
        | zero => simp [hs] at haccepted
        | succ i =>
          rw [Function.iterate_succ_apply, hs] at haccepted
          exact ⟨i, Nat.lt_of_succ_lt_succ hi, haccepted⟩

/-- Where the states repeat, a draw that ends at all ends within one period. -/
theorem retry_eq_of_iterate_eq (last : α) {p n : Nat} {s : σ} (hp : 0 < p)
    (hperiod : (fun s => (attempt s).2)^[p] s = s)
    (h : ∃ i < n, (attempt ((fun s => (attempt s).2)^[i] s)).1.isSome) :
    retry attempt last p s = retry attempt last n s := by
  have hwithin : ∃ i < p, (attempt ((fun s => (attempt s).2)^[i] s)).1.isSome := by
    obtain ⟨i, -, haccepted⟩ := h
    refine ⟨i % p, Nat.mod_lt i hp, ?_⟩
    have hmod : (fun s => (attempt s).2)^[i % p] s = (fun s => (attempt s).2)^[i] s :=
      Function.IsPeriodicPt.iterate_mod_apply hperiod i
    rwa [hmod]
  rw [← retry_add_of_accepted last hwithin n, ← retry_add_of_accepted last h p, Nat.add_comm]

namespace Stream

theorem length_blockWords (key : Vector UInt32 8) (block : UInt64) :
    (blockWords key block).length = 16 := by
  simp [blockWords]

def after (key : Vector UInt32 8) (taken : Nat) : Stream :=
  let block := UInt64.ofNat ((taken + 15) / 16)
  ⟨key, block, (blockWords key (block - 1)).drop ((taken + 15) % 16 + 1)⟩

theorem ofSeed_eq_after (seed : UInt64) : ofSeed seed = after (ofSeed seed).key 0 := by
  simp [after, ofSeed, length_blockWords]

theorem after_add_period (key : Vector UInt32 8) (taken : Nat) :
    after key (taken + period) = after key taken := by
  have hwords : taken + period + 15 = taken + 15 + 16 * 2 ^ 64 := by
    rw [period, Nat.pow_eq]
    omega
  have hdiv : (taken + 15 + 16 * 2 ^ 64) / 16 = (taken + 15) / 16 + 2 ^ 64 :=
    Nat.add_mul_div_left _ _ (by decide)
  have hblock : UInt64.ofNat ((taken + 15) / 16 + 2 ^ 64) = UInt64.ofNat ((taken + 15) / 16) := by
    apply UInt64.toNat_inj.1
    rw [UInt64.toNat_ofNat', UInt64.toNat_ofNat', Nat.add_mod_right]
  simp only [after, hwords, hdiv, hblock, Nat.add_mul_mod_self_left]

theorem word32_of_ready {s : Stream} {w : UInt32} {ws : List UInt32} (h : s.ready = w :: ws) :
    s.word32.2 = { s with ready := ws } := by
  rw [word32, h]

theorem word32_of_used {s : Stream} (h : s.ready = []) :
    s.word32.2 =
      { s with block := s.block + 1, ready := (blockWords s.key s.block).tail } := by
  rw [word32, h]

theorem word32_after (key : Vector UInt32 8) (taken : Nat) :
    (after key taken).word32.2 = after key (taken + 1) := by
  have hlen := length_blockWords key (UInt64.ofNat ((taken + 15) / 16) - 1)
  by_cases hlast : (taken + 15) % 16 = 15
  · -- the words of the block are used up
    have hready : (after key taken).ready = [] := by
      simp [after, hlast, hlen]
    have hdiv : (taken + 1 + 15) / 16 = (taken + 15) / 16 + 1 := by omega
    have hmod : (taken + 1 + 15) % 16 = 0 := by omega
    have hblock : UInt64.ofNat ((taken + 15) / 16 + 1) =
        UInt64.ofNat ((taken + 15) / 16) + 1 := UInt64.ofNat_add _ _
    rw [word32_of_used hready]
    simp [after, hdiv, hmod, hblock]
  · have hdiv : (taken + 1 + 15) / 16 = (taken + 15) / 16 := by omega
    have hmod : (taken + 1 + 15) % 16 = (taken + 15) % 16 + 1 := by omega
    have hlt : (taken + 15) % 16 + 1 <
        (blockWords key (UInt64.ofNat ((taken + 15) / 16) - 1)).length := by
      rw [hlen]
      omega
    rw [word32_of_ready (List.drop_eq_getElem_cons hlt)]
    simp only [after, hdiv, hmod]

theorem iterate_word32_after (key : Vector UInt32 8) (taken n : Nat) :
    (fun s => (word32 s).2)^[n] (after key taken) = after key (taken + n) := by
  induction n generalizing taken with
  | zero => rfl
  | succ n ih => rw [Function.iterate_succ_apply, word32_after, ih, Nat.succ_add_eq_add_succ]

theorem iterate_word64_after (key : Vector UInt32 8) (taken n : Nat) :
    (fun s => (word64 s).2)^[n] (after key taken) = after key (taken + 2 * n) := by
  induction n generalizing taken with
  | zero => rfl
  | succ n ih =>
    have hstep : ((after key taken).word64).2 = after key (taken + 2) := by
      rw [← word32_after, ← word32_after]
      rfl
    rw [Function.iterate_succ_apply, hstep, ih, Nat.mul_succ]
    congr 1
    omega

end Stream

variable {attempt : Stream → Option α × Stream}

theorem period_pos : 0 < period := by
  rw [period]
  exact Nat.two_pow_pos 68

/-- A draw from a seeded stream is what it would be with any number of tries that suffices, a word
for each try. -/
theorem retry_word32 (hwords : ∀ s, (attempt s).2 = s.word32.2) (last : α)
    (key : Vector UInt32 8) (taken : Nat) {n : Nat}
    (h : ∃ i < n, (attempt (.after key (taken + i))).1.isSome) :
    retry attempt last period (.after key taken) = retry attempt last n (.after key taken) := by
  have hnext : (fun s => (attempt s).2) = fun s => (Stream.word32 s).2 := funext hwords
  apply retry_eq_of_iterate_eq last period_pos
  · rw [hnext, Stream.iterate_word32_after, Stream.after_add_period]
  · simpa only [hnext, Stream.iterate_word32_after] using h

theorem retry_word64 (hwords : ∀ s, (attempt s).2 = s.word64.2) (last : α)
    (key : Vector UInt32 8) (taken : Nat) {n : Nat}
    (h : ∃ i < n, (attempt (.after key (taken + 2 * i))).1.isSome) :
    retry attempt last period (.after key taken) = retry attempt last n (.after key taken) := by
  have hnext : (fun s => (attempt s).2) = fun s => (Stream.word64 s).2 := funext hwords
  apply retry_eq_of_iterate_eq last period_pos
  · rw [hnext, Stream.iterate_word64_after, Nat.two_mul, ← Nat.add_assoc, Stream.after_add_period,
      Stream.after_add_period]
  · simpa only [hnext, Stream.iterate_word64_after] using h

end LedgerWatch.Random
