import Mathlib.Data.Rat.Defs
import Platho.Recovery.Client
import Platho.Swap.Search

/-!
# Quotes for a swap

What a pool gives for an amount, worked out on the device, and the amount that a wanted output
takes. A STON.fi pool takes two shares of what its reserves give, each rounded up; a DeDust pool
takes its fee off the amount, rounded down.
-/

namespace Platho.Swap

open Recovery (JsExec)

scoped instance neZero_sides : NeZero 2 := ⟨by decide⟩

def SWAP_FEE_DIVIDER : Int := 10000

def SWAP_REFERRAL_MAX_BPS : Int := 100

/-- The side of a pool that a swap offers. -/
structure Pair where
  offerSide : Fin 2

structure Pool where
  locked : Bool
  reserves : Fin 2 → Int
  lpFee : Int
  protocolFee : Int

/-- A referral; its share is a number of the settings, not always a whole one. -/
structure Referral where
  address : String
  bps : Rat

structure Quote where
  out : Int
  referralFee : Int
  impactBps : Int
  reserveIn : Int
  reserveOut : Int
deriving DecidableEq

def referralBpsOf (referral : Option Referral) : JsExec Int :=
  match referral with
  | none => .ok 0
  | some { address, bps } =>
    if address = "" ∨ bps = 0 then .ok 0
    else if bps.den ≠ 1 ∨ bps < 0 ∨ SWAP_REFERRAL_MAX_BPS < bps then
      .error s!"swap: a referral share of {bps} bps is outside 0..{SWAP_REFERRAL_MAX_BPS}"
    else .ok bps.num

/-- What the reserves give for an amount, after the fee of the liquidity providers. -/
def baseOut (reserveIn reserveOut lp amount : Int) : Int :=
  let inWithFee := amount * (SWAP_FEE_DIVIDER - lp)
  (inWithFee * reserveOut).tdiv (reserveIn * SWAP_FEE_DIVIDER + inWithFee)

/-- A share of it, rounded up. -/
def share (base bps : Int) : Int :=
  if 0 < bps then (base * bps + SWAP_FEE_DIVIDER - 1).tdiv SWAP_FEE_DIVIDER else 0

/-- What is left of it after the two shares. -/
def outOf (base protocol referralBps : Int) : Int :=
  if share base protocol + share base referralBps < base then
    base - share base protocol - share base referralBps
  else 0

def quoteSwap (pair : Pair) (pool : Pool) (amountIn : Int) (referral : Option Referral) :
    JsExec Quote :=
  let reserveIn := pool.reserves pair.offerSide
  let reserveOut := pool.reserves (1 - pair.offerSide)
  let none : Quote := ⟨0, 0, 0, reserveIn, reserveOut⟩
  if amountIn ≤ 0 ∨ reserveIn ≤ 0 ∨ reserveOut ≤ 0 ∨ pool.locked then .ok none
  else if pool.lpFee < 0 ∨ pool.protocolFee < 0 ∨ SWAP_FEE_DIVIDER ≤ pool.lpFee + pool.protocolFee
  then .ok none
  else do
    let base := baseOut reserveIn reserveOut pool.lpFee amountIn
    let referralBps ← referralBpsOf referral
    let out := outOf base pool.protocolFee referralBps
    return {
      out
      referralFee := if 0 < out then share base referralBps else 0
      impactBps := (amountIn * 10000).tdiv (reserveIn + amountIn)
      reserveIn
      reserveOut }

def amountInFor (pair : Pair) (pool : Pool) (amountOut : Int) (referral : Option Referral) :
    JsExec (Option Nat) :=
  let reserveOut := pool.reserves (1 - pair.offerSide)
  if amountOut ≤ 0 ∨ reserveOut ≤ amountOut ∨ pool.locked then .ok none
  else
    let reaches (amount : Nat) : JsExec Bool := do
      return amountOut ≤ (← quoteSwap pair pool amount referral).out
    Search.search reaches 120

/-! ## DeDust -/

structure DedustPair extends Pair where
  stable : Bool

structure DedustPool where
  reserves : Fin 2 → Int
  feeNumerator : Int
  feeDenominator : Int

structure DedustQuote where
  out : Int
  fee : Int
  impactBps : Int
  reserveIn : Int
  reserveOut : Int
deriving DecidableEq

def quoteDedustSwap (pair : DedustPair) (pool : DedustPool) (amountIn : Int) :
    JsExec DedustQuote :=
  if pair.stable then .error "a stable DeDust pool is asked, not worked out (estimateDedustSwap)"
  else
    let reserveIn := pool.reserves pair.offerSide
    let reserveOut := pool.reserves (1 - pair.offerSide)
    if amountIn ≤ 0 ∨ reserveIn ≤ 0 ∨ reserveOut ≤ 0 then .ok ⟨0, 0, 0, reserveIn, reserveOut⟩
    else
      let fee := (amountIn * pool.feeNumerator).tdiv pool.feeDenominator
      let net := amountIn - fee
      .ok {
        out := (net * reserveOut).tdiv (reserveIn + net)
        fee
        impactBps := (amountIn * 10000).tdiv (reserveIn + amountIn)
        reserveIn
        reserveOut }

def dedustAmountInFor (pair : DedustPair) (pool : DedustPool) (amountOut : Int) :
    JsExec (Option Nat) :=
  let reserveOut := pool.reserves (1 - pair.offerSide)
  if pair.stable ∨ amountOut ≤ 0 ∨ reserveOut ≤ amountOut then .ok none
  else
    let reaches (amount : Nat) : JsExec Bool := do
      return amountOut ≤ (← quoteDedustSwap pair pool amount).out
    Search.search reaches 120

end Platho.Swap
