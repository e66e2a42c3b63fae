import Kv.Lrulfu.Values

/-!
Runs of reads of an object's LFU value: objectGetLFUFrequency, or
objectGetIdleness under LFU, at one minute after another, each storing the
decayed value back, as OBJECT FREQ, DEBUG OBJECT and the eviction pool do.
Each read takes off the whole decay periods since the read before and stamps
the value with its own minute, so what is left of a period is lost: a run takes
off the sum of the periods of its gaps, never more than one read at its last
minute would, and as much when a period is one minute.
-/

namespace Kv.Lrulfu

def lfuReads (g : LruLfu) : List UInt16 → UInt32 → UInt32
  | [], lru => lru
  | now :: clocks, lru => lfuReads g clocks (objectGetLFUFrequency { g with lfuClockMinutes := now } lru).2

def readPeriods (d : Nat) (prev : UInt16) : List UInt16 → Nat
  | [] => 0
  | now :: clocks => lfuPeriods d (now - prev) + readPeriods d now clocks

section Runs

variable (g : LruLfu)

theorem lfuReads_fields (clocks : List UInt16) (lru : UInt32) :
    lfuTime (lfuReads g clocks lru) = clocks.getLastD (lfuTime lru) ∧
      (lfuFreq (lfuReads g clocks lru)).toNat =
        (lfuFreq lru).toNat - readPeriods g.lfuConfigDecayTime (lfuTime lru) clocks := by
  induction clocks generalizing lru with
  | nil => exact ⟨rfl, rfl⟩
  | cons now clocks ih =>
    -- the first read is LFUDecay at its minute; the rest run from what it stored
    obtain ⟨stamped, counted⟩ := lfuDecay_fields { g with lfuClockMinutes := now } lru
    obtain ⟨time, freq⟩ := ih (lfuDecay { g with lfuClockMinutes := now } lru)
    refine ⟨?_, ?_⟩
    · rw [lfuReads, List.getLastD_cons]
      show lfuTime (lfuReads g clocks (lfuDecay { g with lfuClockMinutes := now } lru)) = _
      rw [time, stamped]
    · rw [lfuReads, readPeriods]
      show (lfuFreq (lfuReads g clocks (lfuDecay { g with lfuClockMinutes := now } lru))).toNat = _
      rw [freq, stamped, counted, Nat.sub_sub]

end Runs

section Minutes

theorem toNat_sub_ofNat {a b : Nat} (le : a ≤ b) (short : b - a < 2 ^ 16) :
    (UInt16.ofNat b - UInt16.ofNat a).toNat = b - a := by
  rw [UInt16.toNat_sub, UInt16.toNat_ofNat', UInt16.toNat_ofNat']
  have quotientB := Nat.div_add_mod b (2 ^ 16)
  have quotientA := Nat.div_add_mod a (2 ^ 16)
  have remainderB := Nat.mod_lt b (show 0 < 2 ^ 16 by omega)
  have remainderA := Nat.mod_lt a (show 0 < 2 ^ 16 by omega)
  omega

theorem lfuPeriods_ofNat (d : Nat) {a b : Nat} (le : a ≤ b) (short : b - a < 2 ^ 16) :
    lfuPeriods d (UInt16.ofNat b - UInt16.ofNat a) = if d ≠ 0 then (b - a) / d else 0 := by
  rw [lfuPeriods, toNat_sub_ofNat le short]

theorem le_getLastD {t0 : Nat} {clocks : List Nat} (sorted : (t0 :: clocks).IsChain (· ≤ ·)) :
    t0 ≤ clocks.getLastD t0 := by
  induction clocks generalizing t0 with
  | nil => exact Nat.le_refl t0
  | cons t clocks ih =>
    obtain ⟨first, rest⟩ := List.isChain_cons_cons.mp sorted
    rw [List.getLastD_cons]
    exact Nat.le_trans first (ih rest)

variable (d : Nat)

theorem readPeriods_le_span (t0 : Nat) (clocks : List Nat) (sorted : (t0 :: clocks).IsChain (· ≤ ·))
    (short : clocks.getLastD t0 - t0 < 2 ^ 16) :
    readPeriods d (UInt16.ofNat t0) (clocks.map UInt16.ofNat) ≤
      lfuPeriods d (UInt16.ofNat (clocks.getLastD t0) - UInt16.ofNat t0) := by
  induction clocks generalizing t0 with
  | nil => exact Nat.zero_le _
  | cons t clocks ih =>
    obtain ⟨first, rest⟩ := List.isChain_cons_cons.mp sorted
    have last := le_getLastD rest
    rw [List.getLastD_cons] at short ⊢
    have tail := ih t rest (by omega)
    rw [List.map_cons, readPeriods, lfuPeriods_ofNat d first (by omega), lfuPeriods_ofNat d last (by omega)] at *
    rw [lfuPeriods_ofNat d (Nat.le_trans first last) short]
    by_cases on : d ≠ 0
    · -- the whole periods of two gaps are at most those of their sum
      rw [if_pos on] at tail
      rw [if_pos on, if_pos on]
      calc (t - t0) / d + readPeriods d (UInt16.ofNat t) (clocks.map UInt16.ofNat)
          ≤ (t - t0) / d + (clocks.getLastD t - t) / d := Nat.add_le_add_left tail _
        _ ≤ (t - t0 + (clocks.getLastD t - t)) / d := Nat.div_add_div_le_add_div
        _ = (clocks.getLastD t - t0) / d := by congr 1; omega
    · rw [if_neg on] at tail
      rw [if_neg on, if_neg on]
      omega

theorem readPeriods_one_span (t0 : Nat) (clocks : List Nat) (sorted : (t0 :: clocks).IsChain (· ≤ ·))
    (short : clocks.getLastD t0 - t0 < 2 ^ 16) :
    readPeriods 1 (UInt16.ofNat t0) (clocks.map UInt16.ofNat) = clocks.getLastD t0 - t0 := by
  induction clocks generalizing t0 with
  | nil => exact (Nat.sub_self t0).symm
  | cons t clocks ih =>
    obtain ⟨first, rest⟩ := List.isChain_cons_cons.mp sorted
    have last := le_getLastD rest
    rw [List.getLastD_cons] at short ⊢
    rw [List.map_cons, readPeriods, ih t rest (by omega), lfuPeriods_ofNat 1 first (by omega)]
    simp only [ne_eq, one_ne_zero, not_false_eq_true, if_true, Nat.div_one]
    omega

theorem readPeriods_everyMinute (slow : 2 ≤ d) (t0 k : Nat) :
    readPeriods d (UInt16.ofNat t0) ((List.range' (t0 + 1) k).map UInt16.ofNat) = 0 := by
  induction k generalizing t0 with
  | zero => rfl
  | succ k ih =>
    rw [List.range'_succ, List.map_cons, readPeriods, ih (t0 + 1), lfuPeriods_ofNat d (by omega) (by omega),
      if_pos (by omega), show t0 + 1 - t0 = 1 by omega, Nat.div_eq_of_lt (by omega)]

end Minutes

section Reading

variable (g : LruLfu)

/-- A value imported at minute `t0` and read at sorted minutes after it, less than `2 ^ 16` minutes in all, keeps
at least the counter one read at the last minute would leave, and that counter when a period is one minute. -/
theorem lfuReads_ge_single (t0 : Nat) (f : UInt8) (clocks : List Nat) (sorted : (t0 :: clocks).IsChain (· ≤ ·))
    (short : clocks.getLastD t0 - t0 < 2 ^ 16) :
    (lfuGetFrequency { g with lfuClockMinutes := UInt16.ofNat (clocks.getLastD t0) }
        (lfuImport { g with lfuClockMinutes := UInt16.ofNat t0 } f)).2.toNat ≤
      (lfuFreq (lfuReads g (clocks.map UInt16.ofNat) (lfuImport { g with lfuClockMinutes := UInt16.ofNat t0 } f))).toNat ∧
    (g.lfuConfigDecayTime = 1 →
      lfuFreq (lfuReads g (clocks.map UInt16.ofNat) (lfuImport { g with lfuClockMinutes := UInt16.ofNat t0 } f)) =
        (lfuGetFrequency { g with lfuClockMinutes := UInt16.ofNat (clocks.getLastD t0) }
          (lfuImport { g with lfuClockMinutes := UInt16.ofNat t0 } f)).2) := by
  obtain ⟨imported, counter⟩ := lfuImport_fields { g with lfuClockMinutes := UInt16.ofNat t0 } f
  generalize lfuImport { g with lfuClockMinutes := UInt16.ofNat t0 } f = lru at imported counter ⊢
  have reads := (lfuReads_fields g (clocks.map UInt16.ofNat) lru).2
  have once := (lfuDecay_fields { g with lfuClockMinutes := UInt16.ofNat (clocks.getLastD t0) } lru).2
  dsimp only at imported reads once
  rw [imported, counter] at reads once
  change (lfuFreq (lfuDecay _ lru)).toNat ≤ _ ∧ (_ → _ = lfuFreq (lfuDecay _ lru))
  refine ⟨?_, fun perMinute => ?_⟩
  · -- the run's periods are at most the single read's
    have fewer := readPeriods_le_span g.lfuConfigDecayTime t0 clocks sorted short
    rw [reads, once]
    omega
  · have equal := readPeriods_one_span t0 clocks sorted short
    rw [← perMinute] at equal
    apply UInt8.toNat_inj.mp
    rw [reads, once, equal, lfuPeriods_ofNat _ (le_getLastD sorted) short, perMinute]
    simp

theorem lfuReads_ge_single_three :
    ((0 : Nat) :: [1, 3, 5]).IsChain (· ≤ ·) ∧ ([1, 3, 5] : List Nat).getLastD 0 - 0 < 2 ^ 16 ∧
      (lfuGetFrequency ⟨0, UInt16.ofNat (([1, 3, 5] : List Nat).getLastD 0), true, 2⟩
          (lfuImport ⟨0, UInt16.ofNat 0, true, 2⟩ 10)).2.toNat ≤
        (lfuFreq (lfuReads ⟨0, 0, true, 2⟩ (([1, 3, 5] : List Nat).map UInt16.ofNat)
          (lfuImport ⟨0, UInt16.ofNat 0, true, 2⟩ 10))).toNat ∧
      ((⟨0, 0, true, 2⟩ : LruLfu).lfuConfigDecayTime = 1 →
        lfuFreq (lfuReads ⟨0, 0, true, 2⟩ (([1, 3, 5] : List Nat).map UInt16.ofNat) (lfuImport ⟨0, UInt16.ofNat 0, true, 2⟩ 10)) =
          (lfuGetFrequency ⟨0, UInt16.ofNat (([1, 3, 5] : List Nat).getLastD 0), true, 2⟩
            (lfuImport ⟨0, UInt16.ofNat 0, true, 2⟩ 10)).2) :=
  ⟨by decide, by decide, lfuReads_ge_single ⟨0, 0, true, 2⟩ 0 10 [1, 3, 5] (by decide) (by decide)⟩

/-- With a decay period of two minutes or more, a read every minute keeps the counter from decaying at all: a value
imported at minute `t0` with counter `f` and read at each minute from `t0 + 1` to `t0 + k` still holds `f`, where one
read at minute `t0 + k` takes `k / d` periods off. -/
theorem lfuReads_everyMinute_keep_counter (slow : 2 ≤ g.lfuConfigDecayTime) (t0 : Nat) (f : UInt8) (k : Nat)
    (short : k < 2 ^ 16) :
    lfuFreq (lfuReads g ((List.range' (t0 + 1) k).map UInt16.ofNat)
        (lfuImport { g with lfuClockMinutes := UInt16.ofNat t0 } f)) = f ∧
      (lfuGetFrequency { g with lfuClockMinutes := UInt16.ofNat (t0 + k) }
        (lfuImport { g with lfuClockMinutes := UInt16.ofNat t0 } f)).2.toNat = f.toNat - k / g.lfuConfigDecayTime := by
  obtain ⟨imported, counter⟩ := lfuImport_fields { g with lfuClockMinutes := UInt16.ofNat t0 } f
  generalize lfuImport { g with lfuClockMinutes := UInt16.ofNat t0 } f = lru at imported counter ⊢
  have reads := (lfuReads_fields g ((List.range' (t0 + 1) k).map UInt16.ofNat) lru).2
  have once := (lfuDecay_fields { g with lfuClockMinutes := UInt16.ofNat (t0 + k) } lru).2
  dsimp only at imported reads once
  rw [imported, counter] at reads once
  refine ⟨?_, ?_⟩
  · apply UInt8.toNat_inj.mp
    rw [reads, readPeriods_everyMinute _ slow, Nat.sub_zero]
  · change (lfuFreq (lfuDecay _ lru)).toNat = _
    rw [once, lfuPeriods_ofNat _ (by omega) (by omega), if_pos (by omega), Nat.add_sub_cancel_left]

theorem lfuReads_everyMinute_keep_counter_ten :
    lfuFreq (lfuReads ⟨0, 0, true, 2⟩ ((List.range' 1 2).map UInt16.ofNat) (lfuImport ⟨0, UInt16.ofNat 0, true, 2⟩ 10))
        = 10 ∧
      (lfuGetFrequency ⟨0, UInt16.ofNat 2, true, 2⟩ (lfuImport ⟨0, UInt16.ofNat 0, true, 2⟩ 10)).2.toNat = 10 - 2 / 2 :=
  lfuReads_everyMinute_keep_counter ⟨0, 0, true, 2⟩ (by decide) 0 10 2 (by decide)

end Reading

end Kv.Lrulfu
