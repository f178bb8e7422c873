import Hledac.Py.Round
import Hledac.Runtime.PrivacyRouting

/-!
# The privacy budget

`PrivacyBudgetAllocator` takes a share of the fetch workers for the lanes of tor, i2p and nym. Tor gets no more than half
of the share, and the two others a quarter each but at least one worker. Of a share of one, tor gets nothing and the two
others one worker each. The share is computed in binary floating point.
-/

namespace Hledac.Runtime

open Hledac.Py

/-- `PRIVACY_BUDGET_RATIO`, the double next to 0.15. -/
def privacyBudgetRatio : ℚ := 5404319552844595 / 2 ^ 55

/-- `MIN_CLEARNET_WORKERS`. -/
def minClearnetWorkers : Nat := 3

/-- `PrivacyLaneConfig`, as far as the allocator reads it; `runtime/privacy_budget.py:51-57`. -/
structure PrivacyLaneConfig where
  workers : Nat
  envGate : String

/-- `PrivacyBudgetAllocator` once it is initialised: the slots of its semaphores, and what is left. -/
structure PrivacyBudgetAllocator where
  torSem : Option Nat
  i2pSem : Option Nat
  nymSem : Option Nat
  clearnetBudget : Nat
  availableLanes : List Lane

/-- `privacy_total`; line 92. `none` where the number of workers does not convert to a float. -/
def privacyTotal (totalWorkers : Nat) : Option Nat :=
  (floatOfNat totalWorkers).map fun x => max 1 ⌊roundBits 53 (x * privacyBudgetRatio)⌋.toNat

section

variable (env : String → Option String)

/-- `_check_env_gate`; lines 117-120. -/
def checkEnvGate (gate : String) : Bool := decide ((env gate).getD "0" ∈ ["1", "true", "True"])

/-- The semaphore of a lane with so many workers. -/
def laneSem (workers : Nat) (gate : String) : Option Nat :=
  if 0 < workers ∧ checkEnvGate env gate then some workers else none

/-- The allocator with a share of so many workers; lines 93-109. -/
def allocate (totalWorkers privacyTotal : Nat) (torConfig i2pConfig nymConfig : PrivacyLaneConfig) :
    PrivacyBudgetAllocator :=
  let torSem := laneSem env (min torConfig.workers (privacyTotal / 2)) torConfig.envGate
  let i2pSem := laneSem env (min i2pConfig.workers (max 1 (privacyTotal / 4))) i2pConfig.envGate
  let nymSem := laneSem env (min nymConfig.workers (max 1 (privacyTotal / 4))) nymConfig.envGate
  { torSem := torSem
    i2pSem := i2pSem
    nymSem := nymSem
    clearnetBudget := max minClearnetWorkers (totalWorkers - privacyTotal)
    availableLanes := [(torSem, Lane.tor), (i2pSem, Lane.i2p), (nymSem, Lane.nym)].filterMap fun p =>
      p.1.map fun _ => p.2 }

/-- `__post_init__`; lines 91-115. -/
def postInit (totalWorkers : Nat) (torConfig i2pConfig nymConfig : PrivacyLaneConfig) :
    Option PrivacyBudgetAllocator :=
  (privacyTotal totalWorkers).map fun share => allocate env totalWorkers share torConfig i2pConfig nymConfig

/-- The workers of the privacy lanes. -/
def PrivacyBudgetAllocator.granted (b : PrivacyBudgetAllocator) : Nat :=
  b.torSem.getD 0 + b.i2pSem.getD 0 + b.nymSem.getD 0

/-- An enabled lane that asks for a worker. -/
def Asks (config : PrivacyLaneConfig) : Prop := 0 < config.workers ∧ checkEnvGate env config.envGate = true

/-- The lanes stay within the share, get a worker where one asks, and leave the clearnet its own. -/
structure Conserves (totalWorkers share : Nat) (torConfig i2pConfig nymConfig : PrivacyLaneConfig)
    (b : PrivacyBudgetAllocator) : Prop where
  within : b.granted ≤ share
  served : Asks env torConfig ∨ Asks env i2pConfig ∨ Asks env nymConfig → 1 ≤ b.granted
  bounded : b.granted + b.clearnetBudget ≤ max totalWorkers (minClearnetWorkers + 1)

end

/-! ### The share -/

section Share

variable {n p : Nat} {x : ℚ}

private theorem ratio_nonneg : 0 ≤ privacyBudgetRatio := by decide +kernel

private theorem share_mono {m n : Nat} (h : m ≤ n) :
    roundBits 53 (roundBits 53 m * privacyBudgetRatio) ≤ roundBits 53 (roundBits 53 n * privacyBudgetRatio) := by
  have hzero : roundBits 53 0 ≤ roundBits 53 m := roundBits_mono (by decide) le_rfl (Nat.cast_nonneg m)
  rw [roundBits_zero] at hzero
  apply roundBits_mono (by decide) (mul_nonneg hzero ratio_nonneg)
  apply mul_le_mul_of_nonneg_right _ ratio_nonneg
  exact roundBits_mono (by decide) (Nat.cast_nonneg m) (Nat.cast_le.2 h)

theorem privacyTotal_cases (h : privacyTotal n = some p) :
    (n ≤ 13 ∧ p = 1) ∨ (14 ≤ n ∧ n ≤ 19 ∧ p = 2) ∨ (20 ≤ n ∧ 3 ≤ p ∧ p + 3 ≤ n) := by
  rw [privacyTotal, floatOfNat] at h
  split at h
  · rw [Option.map_some, Option.some_inj] at h
    by_cases hone : n ≤ 13
    · have hlt : roundBits 53 (roundBits 53 (13 : ℕ) * privacyBudgetRatio) < 2 := by decide +kernel
      have hfloor := Int.floor_lt.2 ((share_mono hone).trans_lt (by exact_mod_cast hlt : _ < ((2 : ℤ) : ℚ)))
      omega
    · have hlow : (2 : ℚ) ≤ roundBits 53 (roundBits 53 (14 : ℕ) * privacyBudgetRatio) := by decide +kernel
      have htwo := Int.le_floor.2 ((by exact_mod_cast hlow : ((2 : ℤ) : ℚ) ≤ _).trans
        (share_mono (Nat.lt_of_not_le hone : 14 ≤ n)))
      by_cases hnineteen : n ≤ 19
      · have hlt : roundBits 53 (roundBits 53 (19 : ℕ) * privacyBudgetRatio) < 3 := by decide +kernel
        have hfloor := Int.floor_lt.2 ((share_mono hnineteen).trans_lt (by exact_mod_cast hlt : _ < ((3 : ℤ) : ℚ)))
        omega
      · have hthree : (3 : ℚ) ≤ roundBits 53 (roundBits 53 (20 : ℕ) * privacyBudgetRatio) := by decide +kernel
        have hfloor := Int.le_floor.2 ((by exact_mod_cast hthree : ((3 : ℤ) : ℚ) ≤ _).trans
          (share_mono (Nat.lt_of_not_le hnineteen : 20 ≤ n)))
        -- rounding twice does not quadruple a seventh of the workers
        have hpos : (0 : ℚ) < n := Nat.cast_pos.2 (by omega)
        have hratio : privacyBudgetRatio ≤ 3 / 20 := by decide +kernel
        have hratioPos : 0 < privacyBudgetRatio := by decide +kernel
        have hround : 0 < roundBits 53 (n : ℚ) :=
          (zpow_pos two_pos _).trans_le (pow_le_roundBits (by decide) hpos)
        have hupper : (roundBits 53 (roundBits 53 n * privacyBudgetRatio) : ℚ) ≤ 3 / 5 * n := by
          calc roundBits 53 (roundBits 53 n * privacyBudgetRatio)
              ≤ 2 * (roundBits 53 n * privacyBudgetRatio) := roundBits_le_two_mul (mul_pos hround hratioPos)
            _ ≤ 2 * (2 * n * (3 / 20)) := by
              apply mul_le_mul_of_nonneg_left _ two_pos.le
              exact mul_le_mul (roundBits_le_two_mul hpos) hratio hratioPos.le (mul_pos two_pos hpos).le
            _ = 3 / 5 * n := by ring
        have hle : (⌊roundBits 53 (roundBits 53 n * privacyBudgetRatio)⌋ : ℚ) ≤ 3 / 5 * n :=
          (Int.floor_le _).trans hupper
        have hint : 5 * ⌊roundBits 53 (roundBits 53 n * privacyBudgetRatio)⌋ ≤ 3 * n := by
          have hcast : (5 * ⌊roundBits 53 (roundBits 53 n * privacyBudgetRatio)⌋ : ℚ) ≤ 3 * n := by linarith
          exact_mod_cast hcast
        omega
  · cases h

theorem isSome_privacyTotal : (privacyTotal n).isSome = true ↔ n < floatLimit := by
  rw [privacyTotal, Option.isSome_map]
  exact isSome_floatOfNat n

end Share

/-! ### The lanes -/

section Lanes

variable (env : String → Option String) (config : PrivacyLaneConfig) (share : Nat)

theorem getD_laneSem : (laneSem env (min config.workers share) config.envGate).getD 0 ≤ share ∧
    (0 < (laneSem env (min config.workers share) config.envGate).getD 0 ↔ Asks env config ∧ 0 < share) := by
  rw [laneSem, Asks]
  split
  · next h =>
    rw [Option.getD_some]
    have hgate := h.2
    simp only [hgate, and_true]
    omega
  · next h =>
    rw [Option.getD_none]
    refine ⟨Nat.zero_le _, iff_of_false (Nat.lt_irrefl 0) ?_⟩
    intro hasks
    exact h ⟨lt_min hasks.1.1 hasks.2, hasks.1.2⟩

theorem conserves_allocate_iff {n share : Nat} (hshare : privacyTotal n = some share)
    (torConfig i2pConfig nymConfig : PrivacyLaneConfig) :
    Conserves env n share torConfig i2pConfig nymConfig (allocate env n share torConfig i2pConfig nymConfig) ↔
      (20 ≤ n ∨
        14 ≤ n ∧ ¬ (Asks env torConfig ∧ Asks env i2pConfig ∧ Asks env nymConfig) ∨
        ¬ (Asks env torConfig ∨ Asks env i2pConfig ∨ Asks env nymConfig) ∨
        (Asks env i2pConfig ↔ ¬ Asks env nymConfig)) := by
  have hcases := privacyTotal_cases hshare
  have htor := getD_laneSem env torConfig (share / 2)
  have hi2p := getD_laneSem env i2pConfig (max 1 (share / 4))
  have hnym := getD_laneSem env nymConfig (max 1 (share / 4))
  have hfields : Conserves env n share torConfig i2pConfig nymConfig
      (allocate env n share torConfig i2pConfig nymConfig) ↔ _ ∧ _ ∧ _ :=
    ⟨fun h => ⟨h.within, h.served, h.bounded⟩, fun h => ⟨h.1, h.2.1, h.2.2⟩⟩
  rw [hfields, PrivacyBudgetAllocator.granted, minClearnetWorkers]
  simp only [allocate, minClearnetWorkers]
  generalize (laneSem env _ torConfig.envGate).getD 0 = tor at htor ⊢
  generalize (laneSem env _ i2pConfig.envGate).getD 0 = i2p at hi2p ⊢
  generalize (laneSem env _ nymConfig.envGate).getD 0 = nym at hnym ⊢
  -- a lane gets something exactly where it asks and has a share
  by_cases hasks : Asks env torConfig <;> by_cases hasks' : Asks env i2pConfig <;>
    by_cases hasks'' : Asks env nymConfig <;> simp [hasks, hasks', hasks''] at htor hi2p hnym ⊢ <;> omega

end Lanes

/-- For every number of workers, all lane configurations and every environment, the budget is made and conserved if and
only if the number converts to a float and the share is at least three, or two and not all lanes ask, or no lane asks,
or exactly one of i2p and nym does. -/
theorem conserves_iff (env : String → Option String) (totalWorkers : Nat)
    (torConfig i2pConfig nymConfig : PrivacyLaneConfig) :
    (∃ share b, privacyTotal totalWorkers = some share ∧
        postInit env totalWorkers torConfig i2pConfig nymConfig = some b ∧
          Conserves env totalWorkers share torConfig i2pConfig nymConfig b) ↔
      totalWorkers < floatLimit ∧
        (20 ≤ totalWorkers ∨
          14 ≤ totalWorkers ∧ ¬ (Asks env torConfig ∧ Asks env i2pConfig ∧ Asks env nymConfig) ∨
          ¬ (Asks env torConfig ∨ Asks env i2pConfig ∨ Asks env nymConfig) ∨
          (Asks env i2pConfig ↔ ¬ Asks env nymConfig)) := by
  rw [← isSome_privacyTotal]
  cases hshare : privacyTotal totalWorkers with
  | none => simp
  | some share =>
    rw [← conserves_allocate_iff env hshare, Option.isSome_some, and_iff_right rfl, postInit, hshare, Option.map_some]
    constructor
    · intro h
      obtain ⟨_, _, hsame, hb, hconserves⟩ := h
      rwa [← Option.some.inj hsame, ← Option.some.inj hb] at hconserves
    · exact fun hconserves => ⟨share, _, rfl, rfl, hconserves⟩

/-- Of four workers, with all lanes enabled, i2p and nym get one each, where the share is one. -/
theorem not_conserves : ¬ ∃ share b, privacyTotal 4 = some share ∧
    postInit (fun _ => some "1") 4 ⟨2, "HLEDAC_ENABLE_TOR"⟩ ⟨1, "HLEDAC_ENABLE_I2P"⟩ ⟨1, "HLEDAC_ENABLE_NYM"⟩ = some b ∧
      Conserves (fun _ => some "1") 4 share ⟨2, "HLEDAC_ENABLE_TOR"⟩ ⟨1, "HLEDAC_ENABLE_I2P"⟩ ⟨1, "HLEDAC_ENABLE_NYM"⟩
        b := by
  intro h
  obtain ⟨share, b, hshare, hb, hconserves⟩ := h
  have hone : privacyTotal 4 = some 1 := by decide +kernel
  rw [hone, Option.some_inj] at hshare
  rw [postInit, hone, Option.map_some, Option.some_inj] at hb
  have hwithin := hconserves.within
  rw [← hshare, ← hb] at hwithin
  revert hwithin
  decide

end Hledac.Runtime
