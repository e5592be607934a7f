import Mathlib.Tactic.Linarith
import Platho.Swap.Pool

/-!
# Quotes and the amounts that reach them

What a pool gives grows with the amount and never takes its product of reserves below what it
was. Two shares that are rounded up can both grow by one while what the reserves give grows by
one, so that the output of a STON.fi pool with a referral may step back by one. It is monotone
when there is only one share, and the search then finds the least amount.
-/

namespace Platho.Swap

open Recovery (JsExec)

/-! ## The curve of constant product -/

section

variable {c x y R : Int}

theorem curve_lt (positive : 0 < c) (amount : 0 ≤ x) (reserve : 0 < R) : x * R / (c + x) < R := by
  have : x * R < R * (c + x) := by nlinarith
  exact Int.ediv_lt_of_lt_mul (by omega) this

theorem curve_nonneg (positive : 0 < c) (amount : 0 ≤ x) (reserve : 0 < R) :
    0 ≤ x * R / (c + x) :=
  Int.ediv_nonneg (mul_nonneg amount reserve.le) (by omega)

theorem curve_mul_le (positive : 0 < c) (amount : 0 ≤ x) :
    x * R / (c + x) * (c + x) ≤ x * R :=
  Int.ediv_mul_le _ (by omega)

theorem curve_mono (positive : 0 < c) (amount : 0 ≤ x) (order : x ≤ y) (reserve : 0 < R) :
    x * R / (c + x) ≤ y * R / (c + y) := by
  rw [Int.le_ediv_iff_mul_le (by omega)]
  have given := curve_mul_le (R := R) positive amount
  have less := (curve_lt positive amount reserve).le
  generalize x * R / (c + x) = q at given less
  nlinarith

end

/-! ## Shares -/

section

variable {base more bps protocol : Int}

theorem share_spec (nonneg : 0 ≤ base) (rate : 0 ≤ bps) :
    base * bps ≤ 10000 * share base bps ∧ 10000 * share base bps ≤ base * bps + 9999 := by
  have product : 0 ≤ base * bps := mul_nonneg nonneg rate
  rw [share, SWAP_FEE_DIVIDER]
  split
  · rw [Int.tdiv_eq_ediv_of_nonneg (by omega)]
    omega
  · have zero : bps = 0 := by omega
    simp [zero]

theorem share_zero_rate : share base 0 = 0 := rfl

theorem share_zero (rate : 0 ≤ bps) : share 0 bps = 0 := by
  have spec := share_spec (le_refl (0 : Int)) rate
  omega

/-- The difference that a larger base makes to what is left. -/
theorem left_le (nonneg : 0 ≤ base) (larger : 0 ≤ more) (rate : 0 ≤ protocol) (rate' : 0 ≤ bps)
    (below : protocol + bps ≤ 10000) :
    base - share base protocol - share base bps ≤
        base + more - share (base + more) protocol - share (base + more) bps + 1 ∧
      (protocol = 0 ∨ bps = 0 → base - share base protocol - share base bps ≤
        base + more - share (base + more) protocol - share (base + more) bps) := by
  have all : 0 ≤ base + more := by omega
  have first := share_spec nonneg rate
  have first' := share_spec all rate
  have second := share_spec nonneg rate'
  have second' := share_spec all rate'
  have both : more * protocol + more * bps ≤ 10000 * more := by nlinarith
  rw [add_mul] at first' second'
  refine ⟨by omega, fun alone => ?_⟩
  obtain rfl | rfl := alone
  · rw [share_zero_rate, share_zero_rate]
    omega
  · rw [share_zero_rate, share_zero_rate]
    omega

/-- With shares of more than all nothing is left. -/
theorem left_nonpos (nonneg : 0 ≤ base) (rate : 0 ≤ protocol) (rate' : 0 ≤ bps)
    (above : 10000 ≤ protocol + bps) : base - share base protocol - share base bps ≤ 0 := by
  have first := share_spec nonneg rate
  have second := share_spec nonneg rate'
  have both : 10000 * base ≤ base * protocol + base * bps := by nlinarith
  omega

theorem outOf_eq : outOf base protocol bps =
    max 0 (base - share base protocol - share base bps) := by
  rw [outOf]
  split <;> omega

theorem outOf_le (nonneg : 0 ≤ base) (rate : 0 ≤ protocol) (rate' : 0 ≤ bps) :
    0 ≤ outOf base protocol bps ∧ outOf base protocol bps ≤ base := by
  have first := share_spec nonneg rate
  have second := share_spec nonneg rate'
  have product : 0 ≤ base * protocol := mul_nonneg nonneg rate
  have product' : 0 ≤ base * bps := mul_nonneg nonneg rate'
  rw [outOf_eq]
  omega

theorem outOf_step {base' : Int} (nonneg : 0 ≤ base) (order : base ≤ base') (rate : 0 ≤ protocol)
    (rate' : 0 ≤ bps) : outOf base protocol bps ≤ outOf base' protocol bps + 1 ∧
      (protocol = 0 ∨ bps = 0 → protocol + bps ≤ 10000 →
        outOf base protocol bps ≤ outOf base' protocol bps) := by
  obtain ⟨more, rfl⟩ := Int.le.dest order
  rw [outOf_eq, outOf_eq]
  by_cases below : protocol + bps ≤ 10000
  · have step := left_le nonneg (Int.natCast_nonneg more) rate rate' below
    refine ⟨by omega, fun alone _ => ?_⟩
    have exactly := step.2 alone
    omega
  · have nothing := left_nonpos nonneg rate rate' (by omega)
    exact ⟨by omega, fun _ below' => absurd below' below⟩

end

/-! ## STON.fi -/

theorem referralBpsOf_range {referral : Option Referral} {bps : Int}
    (valid : referralBpsOf referral = .ok bps) : 0 ≤ bps ∧ bps ≤ 100 := by
  cases referral with
  | none =>
    cases valid
    decide
  | some referral =>
    obtain ⟨address, rate⟩ := referral
    simp only [referralBpsOf] at valid
    split at valid
    · cases valid
      decide
    · split at valid
      · cases valid
      · next within =>
        cases valid
        rw [not_or, not_or, not_not, not_lt, not_lt] at within
        obtain ⟨whole, nonneg, most⟩ := within
        refine ⟨Rat.num_nonneg.mpr nonneg, ?_⟩
        rw [← Rat.coe_int_num_of_den_eq_one whole] at most
        exact_mod_cast most

/-- A pool that swaps: it has reserves and is not locked, and its fees leave something. -/
structure Pool.Open (pool : Pool) : Prop where
  reserves : ∀ side, 0 < pool.reserves side
  lpFee : 0 ≤ pool.lpFee
  protocolFee : 0 ≤ pool.protocolFee
  fees : pool.lpFee + pool.protocolFee < 10000
  unlocked : pool.locked = false

/-- The output of a quote. -/
def outFor (pair : Pair) (pool : Pool) (bps amount : Int) : Int :=
  outOf (baseOut (pool.reserves pair.offerSide) (pool.reserves (1 - pair.offerSide)) pool.lpFee
    (max 0 amount)) pool.protocolFee bps

section

variable {pair : Pair} {pool : Pool} {referral : Option Referral} {bps amount : Int}

theorem baseOut_eq {reserveIn reserveOut lp : Int} (outside : 0 < reserveOut)
    (fee : lp < 10000) (nonneg : 0 ≤ amount) :
    baseOut reserveIn reserveOut lp amount = amount * (10000 - lp) * reserveOut /
      (reserveIn * 10000 + amount * (10000 - lp)) := by
  have offered : 0 ≤ amount * (10000 - lp) := mul_nonneg nonneg (by omega)
  rw [baseOut, SWAP_FEE_DIVIDER, Int.tdiv_eq_ediv_of_nonneg (mul_nonneg offered outside.le)]

theorem quoteSwap_out (isOpen : pool.Open) (valid : referralBpsOf referral = .ok bps) :
    (quoteSwap pair pool amount referral).map Quote.out = .ok (outFor pair pool bps amount) := by
  have inside := isOpen.reserves pair.offerSide
  have outside := isOpen.reserves (1 - pair.offerSide)
  have fees := isOpen.fees
  have lp := isOpen.lpFee
  have protocol := isOpen.protocolFee
  rw [quoteSwap]
  simp only [isOpen.unlocked]
  by_cases nothing : amount ≤ 0
  · rw [if_pos (.inl nothing), outFor, max_eq_left nothing,
      baseOut_eq outside (by omega) le_rfl, zero_mul, zero_mul, Int.zero_ediv, outOf_eq,
      share_zero protocol, share_zero (referralBpsOf_range valid).1]
    rfl
  · have some_ : ¬(amount ≤ 0 ∨ pool.reserves pair.offerSide ≤ 0 ∨
        pool.reserves (1 - pair.offerSide) ≤ 0 ∨ false = true) := by
      simp only [Bool.false_eq_true, or_false]
      omega
    have fair : ¬(pool.lpFee < 0 ∨ pool.protocolFee < 0 ∨
        SWAP_FEE_DIVIDER ≤ pool.lpFee + pool.protocolFee) := by
      rw [SWAP_FEE_DIVIDER]
      omega
    rw [if_neg some_, if_neg fair, valid, outFor, max_eq_right (by omega)]
    rfl

theorem product_law {reserveIn reserveOut base lp : Int} (inside : 0 < reserveIn)
    (fee : lp < 10000) (lpNonneg : 0 ≤ lp) (baseNonneg : 0 ≤ base)
    (given : base * (reserveIn * 10000 + amount * (10000 - lp)) ≤
      amount * (10000 - lp) * reserveOut) :
    base * (reserveIn + amount) ≤ amount * reserveOut := by
  have kept : 0 ≤ base * reserveIn * lp :=
    mul_nonneg (mul_nonneg baseNonneg inside.le) lpNonneg
  have rate : 0 < 10000 - lp := by omega
  refine le_of_mul_le_mul_left ?_ rate
  linarith

theorem outFor_law (isOpen : pool.Open) (rate : 0 ≤ bps) (nonneg : 0 ≤ amount) :
    pool.reserves pair.offerSide * pool.reserves (1 - pair.offerSide) ≤
        (pool.reserves pair.offerSide + amount) *
          (pool.reserves (1 - pair.offerSide) - outFor pair pool bps amount) ∧
      outFor pair pool bps amount < pool.reserves (1 - pair.offerSide) := by
  have inside := isOpen.reserves pair.offerSide
  have outside := isOpen.reserves (1 - pair.offerSide)
  have fees := isOpen.fees
  have lp := isOpen.lpFee
  have protocol := isOpen.protocolFee
  have offered : 0 ≤ amount * (10000 - pool.lpFee) := mul_nonneg nonneg (by omega)
  have fee : pool.lpFee < 10000 := by omega
  have scaled : 0 < pool.reserves pair.offerSide * 10000 := by omega
  have nonneg' := curve_nonneg scaled offered outside
  have less := curve_lt scaled offered outside
  have given := curve_mul_le (R := pool.reserves (1 - pair.offerSide)) scaled offered
  rw [← baseOut_eq outside fee nonneg] at nonneg' less given
  rw [outFor, max_eq_right nonneg]
  have most := (outOf_le nonneg' protocol rate).2
  have product := product_law inside fee lp nonneg' given
  generalize baseOut _ _ _ _ = base at *
  exact ⟨by nlinarith, by omega⟩

theorem outFor_step {amount' : Int} (isOpen : pool.Open) (rate : 0 ≤ bps) (most : bps ≤ 100)
    (order : amount ≤ amount') :
    outFor pair pool bps amount ≤ outFor pair pool bps amount' + 1 ∧
      (pool.protocolFee = 0 ∨ bps = 0 →
        outFor pair pool bps amount ≤ outFor pair pool bps amount') := by
  have inside := isOpen.reserves pair.offerSide
  have outside := isOpen.reserves (1 - pair.offerSide)
  have fees := isOpen.fees
  have lp := isOpen.lpFee
  have protocol := isOpen.protocolFee
  have fee : pool.lpFee < 10000 := by omega
  have scaled : 0 < pool.reserves pair.offerSide * 10000 := by omega
  have nonneg : 0 ≤ max 0 amount := le_max_left 0 amount
  have order' : max 0 amount ≤ max 0 amount' := max_le_max_left 0 order
  have offered : 0 ≤ max 0 amount * (10000 - pool.lpFee) := mul_nonneg nonneg (by omega)
  have more := mul_le_mul_of_nonneg_right order' (show 0 ≤ 10000 - pool.lpFee by omega)
  have first := curve_nonneg scaled offered outside
  have grows := curve_mono scaled offered more outside
  rw [← baseOut_eq outside fee nonneg, ← baseOut_eq outside fee (nonneg.trans order')] at grows
  rw [← baseOut_eq outside fee nonneg] at first
  obtain ⟨step, exactly⟩ := outOf_step first grows protocol rate
  exact ⟨step, fun alone => exactly alone (by omega)⟩

end

/-! ## DeDust -/

/-- A pool with reserves and a fee below one. -/
structure DedustPool.Open (pool : DedustPool) : Prop where
  reserves : ∀ side, 0 < pool.reserves side
  feeNumerator : 0 ≤ pool.feeNumerator
  fee : pool.feeNumerator < pool.feeDenominator

/-- What is left of an amount after the fee. -/
def netOf (pool : DedustPool) (amount : Int) : Int :=
  amount - amount * pool.feeNumerator / pool.feeDenominator

def dedustOutFor (pair : DedustPair) (pool : DedustPool) (amount : Int) : Int :=
  netOf pool (max 0 amount) * pool.reserves (1 - pair.offerSide) /
    (pool.reserves pair.offerSide + netOf pool (max 0 amount))

section

variable {pair : DedustPair} {pool : DedustPool} {amount : Int}

theorem netOf_range (isOpen : pool.Open) (nonneg : 0 ≤ amount) :
    0 ≤ netOf pool amount ∧ netOf pool amount ≤ amount := by
  have numerator := isOpen.feeNumerator
  have fee := isOpen.fee
  have positive : 0 < pool.feeDenominator := by omega
  have least : 0 ≤ amount * pool.feeNumerator / pool.feeDenominator :=
    Int.ediv_nonneg (mul_nonneg nonneg numerator) positive.le
  have most : amount * pool.feeNumerator / pool.feeDenominator ≤ amount :=
    Int.ediv_le_of_le_mul positive (mul_le_mul_of_nonneg_left fee.le nonneg)
  rw [netOf]
  omega

theorem netOf_mono {amount' : Int} (isOpen : pool.Open) (order : amount ≤ amount') :
    netOf pool amount ≤ netOf pool amount' := by
  have numerator := isOpen.feeNumerator
  have fee := isOpen.fee
  have positive : 0 < pool.feeDenominator := by omega
  obtain ⟨more, rfl⟩ := Int.le.dest order
  have less : (amount + more) * pool.feeNumerator / pool.feeDenominator ≤
      amount * pool.feeNumerator / pool.feeDenominator + more := by
    rw [← Int.add_mul_ediv_right _ _ positive.ne']
    refine Int.ediv_le_ediv positive ?_
    rw [add_mul]
    exact Int.add_le_add_left (mul_le_mul_of_nonneg_left fee.le (Int.natCast_nonneg more)) _
  rw [netOf, netOf]
  omega

theorem quoteDedustSwap_out (isOpen : pool.Open) (sure : pair.stable = false) :
    (quoteDedustSwap pair pool amount).map DedustQuote.out =
      .ok (dedustOutFor pair pool amount) := by
  have inside := isOpen.reserves pair.offerSide
  have outside := isOpen.reserves (1 - pair.offerSide)
  rw [quoteDedustSwap]
  simp only [sure, Bool.false_eq_true, if_false]
  by_cases nothing : amount ≤ 0
  · rw [if_pos (.inl nothing), dedustOutFor, max_eq_left nothing, netOf, zero_mul, Int.zero_ediv,
      sub_zero, zero_mul, Int.zero_ediv]
    rfl
  · have some_ : ¬(amount ≤ 0 ∨ pool.reserves pair.offerSide ≤ 0 ∨
        pool.reserves (1 - pair.offerSide) ≤ 0) := by omega
    have nonneg : 0 ≤ amount := by omega
    have product := mul_nonneg nonneg isOpen.feeNumerator
    have net := (netOf_range isOpen nonneg).1
    rw [if_neg some_, Int.tdiv_eq_ediv_of_nonneg product, dedustOutFor, max_eq_right nonneg]
    change Except.ok (Int.tdiv (netOf pool amount * _) _) = _
    rw [Int.tdiv_eq_ediv_of_nonneg (mul_nonneg net outside.le)]
    rfl

theorem dedustOutFor_law (isOpen : pool.Open) (nonneg : 0 ≤ amount) :
    pool.reserves pair.offerSide * pool.reserves (1 - pair.offerSide) ≤
        (pool.reserves pair.offerSide + amount) *
          (pool.reserves (1 - pair.offerSide) - dedustOutFor pair pool amount) ∧
      dedustOutFor pair pool amount < pool.reserves (1 - pair.offerSide) := by
  have inside := isOpen.reserves pair.offerSide
  have outside := isOpen.reserves (1 - pair.offerSide)
  obtain ⟨net, most⟩ := netOf_range isOpen nonneg
  have less := curve_lt inside net outside
  have given := curve_mul_le (R := pool.reserves (1 - pair.offerSide)) inside net
  rw [dedustOutFor, max_eq_right nonneg]
  refine ⟨?_, less⟩
  generalize netOf pool amount * _ / _ = out at *
  nlinarith

theorem dedustOutFor_mono {amount' : Int} (isOpen : pool.Open) (order : amount ≤ amount') :
    dedustOutFor pair pool amount ≤ dedustOutFor pair pool amount' := by
  have nonneg : 0 ≤ max 0 amount := le_max_left 0 amount
  exact curve_mono (isOpen.reserves _) (netOf_range isOpen nonneg).1
    (netOf_mono isOpen (max_le_max_left 0 order)) (isOpen.reserves _)

end

/-! ## Amounts -/

/-- The search returns the least amount that reaches an output, or finds that none up to the
limit does. -/
def LeastFor (out : Int → Int) (amountOut : Int) (result : JsExec (Option Nat)) : Prop :=
  (result = .ok none ∧ ∀ n : Nat, n ≤ 2 ^ 120 → out n < amountOut) ∨
    ∃ found : Nat, result = .ok (some found) ∧ found ≤ 2 ^ 120 ∧ amountOut ≤ out found ∧
      ∀ n : Nat, n < found → out n < amountOut

/-- The search returns an amount that reaches an output while the one before does not. No smaller
amount gives more than the output, and none up to the limit does if there is no result. -/
def NearlyLeastFor (out : Int → Int) (amountOut : Int) (result : JsExec (Option Nat)) : Prop :=
  (result = .ok none ∧ ∀ n : Nat, n ≤ 2 ^ 120 → out n ≤ amountOut) ∨
    ∃ found : Nat, result = .ok (some found) ∧ 0 < found ∧ found ≤ 2 ^ 120 ∧
      amountOut ≤ out found ∧ out (found - 1 : Nat) < amountOut ∧
      ∀ n : Nat, n < found → out n ≤ amountOut

section

variable {out : Int → Int} {amountOut : Int}

theorem leastFor_search (zero : out 0 < amountOut) (monotone : ∀ a b, a ≤ b → out a ≤ out b) :
    LeastFor out amountOut (Search.search (fun n => pure (decide (amountOut ≤ out n))) 120) := by
  have least := Search.search_least (m := JsExec) (fun n => decide (amountOut ≤ out n)) 120
    (decide_eq_false (by simpa using zero)) (fun a b order passes => by
      have := monotone a b (by omega)
      simp only [decide_eq_true_eq] at passes ⊢
      omega)
  simp only [decide_eq_true_eq, decide_eq_false_iff_not, not_le] at least
  exact least

theorem nearlyLeastFor_search (zero : out 0 < amountOut)
    (step : ∀ a b, a ≤ b → out a ≤ out b + 1) :
    NearlyLeastFor out amountOut
      (Search.search (fun n => pure (decide (amountOut ≤ out n))) 120) := by
  obtain ⟨none, never⟩ | ⟨found, same, positive, within, passes, before⟩ :=
    Search.search_eq (m := JsExec) (fun n => decide (amountOut ≤ out n)) 120
      (decide_eq_false (by simpa using zero))
  · refine .inl ⟨none, fun n order => ?_⟩
    have last := of_decide_eq_false (never 120 le_rfl)
    have := step n (2 ^ 120 : Nat) (by omega)
    omega
  · simp only [decide_eq_true_eq, decide_eq_false_iff_not, not_le] at passes before
    refine .inr ⟨found, same, positive, within, passes, before, fun n order => ?_⟩
    have := step n (found - 1 : Nat) (by omega)
    omega

end

/-- An amount is searched for with the outputs of its quotes. -/
theorem amountInFor_eq {pair : Pair} {pool : Pool} {referral : Option Referral}
    {bps amountOut : Int} (isOpen : pool.Open) (valid : referralBpsOf referral = .ok bps)
    (positive : 0 < amountOut) : amountInFor pair pool amountOut referral =
      if pool.reserves (1 - pair.offerSide) ≤ amountOut then .ok none
      else Search.search (fun n => pure (decide (amountOut ≤ outFor pair pool bps n))) 120 := by
  have tests : (fun n : Nat => (do
      return decide (amountOut ≤ (← quoteSwap pair pool n referral).out) : JsExec Bool)) =
      fun n : Nat => pure (decide (amountOut ≤ outFor pair pool bps n)) := by
    funext n
    have quoted : (quoteSwap pair pool n referral).map Quote.out = .ok (outFor pair pool bps n) :=
      quoteSwap_out isOpen valid
    cases quote : quoteSwap pair pool n referral with
    | error error =>
      rw [quote] at quoted
      cases quoted
    | ok quote =>
      rw [quote] at quoted
      rw [← Except.ok.inj quoted]
      rfl
  rw [amountInFor]
  simp only [isOpen.unlocked, Bool.false_eq_true, or_false, tests]
  by_cases beyond : pool.reserves (1 - pair.offerSide) ≤ amountOut
  · rw [if_pos (.inr beyond), if_pos beyond]
  · rw [if_neg (by omega), if_neg beyond]

theorem dedustAmountInFor_eq {pair : DedustPair} {pool : DedustPool} {amountOut : Int}
    (isOpen : pool.Open) (sure : pair.stable = false) (positive : 0 < amountOut) :
    dedustAmountInFor pair pool amountOut =
      if pool.reserves (1 - pair.offerSide) ≤ amountOut then .ok none
      else Search.search (fun n => pure (decide (amountOut ≤ dedustOutFor pair pool n))) 120 := by
  have tests : (fun n : Nat => (do
      return decide (amountOut ≤ (← quoteDedustSwap pair pool n).out) : JsExec Bool)) =
      fun n : Nat => pure (decide (amountOut ≤ dedustOutFor pair pool n)) := by
    funext n
    have quoted : (quoteDedustSwap pair pool n).map DedustQuote.out =
        .ok (dedustOutFor pair pool n) := quoteDedustSwap_out isOpen sure
    cases quote : quoteDedustSwap pair pool n with
    | error error =>
      rw [quote] at quoted
      cases quoted
    | ok quote =>
      rw [quote] at quoted
      rw [← Except.ok.inj quoted]
      rfl
  rw [dedustAmountInFor]
  simp only [sure, Bool.false_eq_true, false_or, tests]
  by_cases beyond : pool.reserves (1 - pair.offerSide) ≤ amountOut
  · rw [if_pos (.inr beyond), if_pos beyond]
  · rw [if_neg (by omega), if_neg beyond]

theorem nothing_for_zero {reserveIn reserveOut out : Int} (inside : 0 < reserveIn)
    (product : reserveIn * reserveOut ≤ (reserveIn + 0) * (reserveOut - out)) : out ≤ 0 := by
  rw [add_zero] at product
  have less := le_of_mul_le_mul_left product inside
  omega

/-- Quotes keep the product of the reserves and do not take all of one. The outputs of a pool
with one share and of a DeDust pool are monotone, and the search finds the least amount; with two
shares an output may step back by one. -/
theorem swap_quotes_invert :
    (∀ (pair : Pair) (pool : Pool) (referral : Option Referral) (bps : Int), pool.Open →
      referralBpsOf referral = .ok bps → ∃ out : Int → Int,
        (∀ a, (quoteSwap pair pool a referral).map Quote.out = .ok (out a)) ∧
        (∀ a, 0 ≤ a → pool.reserves pair.offerSide * pool.reserves (1 - pair.offerSide) ≤
            (pool.reserves pair.offerSide + a) * (pool.reserves (1 - pair.offerSide) - out a) ∧
          out a < pool.reserves (1 - pair.offerSide)) ∧
        (∀ a b, a ≤ b → out a ≤ out b + 1) ∧
        (∀ amountOut, 0 < amountOut →
          NearlyLeastFor out amountOut (amountInFor pair pool amountOut referral)) ∧
        (pool.protocolFee = 0 ∨ bps = 0 → (∀ a b, a ≤ b → out a ≤ out b) ∧
          ∀ amountOut, 0 < amountOut →
            LeastFor out amountOut (amountInFor pair pool amountOut referral))) ∧
    (∀ (pair : DedustPair) (pool : DedustPool), pool.Open → pair.stable = false →
      ∃ out : Int → Int,
        (∀ a, (quoteDedustSwap pair pool a).map DedustQuote.out = .ok (out a)) ∧
        (∀ a, 0 ≤ a → pool.reserves pair.offerSide * pool.reserves (1 - pair.offerSide) ≤
            (pool.reserves pair.offerSide + a) * (pool.reserves (1 - pair.offerSide) - out a) ∧
          out a < pool.reserves (1 - pair.offerSide)) ∧
        (∀ a b, a ≤ b → out a ≤ out b) ∧
        ∀ amountOut, 0 < amountOut →
          LeastFor out amountOut (dedustAmountInFor pair pool amountOut)) := by
  refine ⟨fun pair pool referral bps isOpen valid => ?_, fun pair pool isOpen sure => ?_⟩
  · obtain ⟨rate, most⟩ := referralBpsOf_range valid
    have law : ∀ a, 0 ≤ a → _ ∧ outFor pair pool bps a < _ := fun a =>
      outFor_law isOpen rate
    have step : ∀ a b, a ≤ b → outFor pair pool bps a ≤ outFor pair pool bps b + 1 ∧ _ :=
      fun a b => outFor_step isOpen rate most
    have zero : outFor pair pool bps 0 ≤ 0 := nothing_for_zero (isOpen.reserves _) (law 0 le_rfl).1
    refine ⟨outFor pair pool bps, fun a => quoteSwap_out isOpen valid, law,
      fun a b order => (step a b order).1, fun amountOut positive => ?_, fun alone =>
        ⟨fun a b order => (step a b order).2 alone, fun amountOut positive => ?_⟩⟩
    · rw [amountInFor_eq isOpen valid positive]
      split
      · next beyond =>
        refine .inl ⟨rfl, fun n _ => ?_⟩
        have := (law n (Int.natCast_nonneg n)).2
        omega
      · exact nearlyLeastFor_search (by simpa using zero.trans_lt positive) fun a b order =>
          (step a b order).1
    · rw [amountInFor_eq isOpen valid positive]
      split
      · next beyond =>
        refine .inl ⟨rfl, fun n _ => ?_⟩
        have := (law n (Int.natCast_nonneg n)).2
        omega
      · exact leastFor_search (by simpa using zero.trans_lt positive) fun a b order =>
          (step a b order).2 alone
  · have law : ∀ a, 0 ≤ a → _ ∧ dedustOutFor pair pool a < _ := fun a =>
      dedustOutFor_law isOpen
    have zero : dedustOutFor pair pool 0 ≤ 0 :=
      nothing_for_zero (isOpen.reserves _) (law 0 le_rfl).1
    refine ⟨dedustOutFor pair pool, fun a => quoteDedustSwap_out isOpen sure, law,
      fun a b => dedustOutFor_mono isOpen, fun amountOut positive => ?_⟩
    rw [dedustAmountInFor_eq isOpen sure positive]
    split
    · next beyond =>
      refine .inl ⟨rfl, fun n _ => ?_⟩
      have := (law n (Int.natCast_nonneg n)).2
      omega
    · exact leastFor_search (by simpa using zero.trans_lt positive) fun a b =>
        dedustOutFor_mono isOpen

/-! ## A pool with both shares -/

def sharedPool : Pool where
  locked := false
  reserves side := if side = 0 then 10000 else 20000
  lpFee := 20
  protocolFee := 10

def fullReferral : Referral := ⟨"EQreferral", 100⟩

/-- At the step of both shares a larger amount gives less, and the search passes over the least
amount. -/
theorem quote_steps_back :
    (quoteSwap ⟨0⟩ sharedPool 10021 fullReferral).map Quote.out = .ok 9890 ∧
      (quoteSwap ⟨0⟩ sharedPool 10023 fullReferral).map Quote.out = .ok 9889 ∧
      amountInFor ⟨0⟩ sharedPool 9890 fullReferral = .ok (some 10025) := by
  decide +kernel

theorem sharedPool_open : sharedPool.Open where
  reserves := by decide
  lpFee := by decide
  protocolFee := by decide
  fees := by decide
  unlocked := rfl

/-- The search in a pool with both shares. -/
theorem swap_quotes_invert_shared : ∃ out : Int → Int,
    (∀ a, (quoteSwap ⟨0⟩ sharedPool a fullReferral).map Quote.out = .ok (out a)) ∧
      NearlyLeastFor out 9890 (amountInFor ⟨0⟩ sharedPool 9890 fullReferral) := by
  obtain ⟨out, quoted, -, -, nearly, -⟩ :=
    swap_quotes_invert.1 ⟨0⟩ sharedPool fullReferral 100 sharedPool_open (by decide +kernel)
  exact ⟨out, quoted, nearly 9890 (by decide)⟩

end Platho.Swap
